import TablesOS.Proofs.Canonical

/-!
# Inflate decompresses

Each part of a block is read as the part of the format it is: the lengths of
the code-length code, the lengths it codes, the items of the block, the bytes of
a stored one. The block loop then follows the stream block by block. What is
carried along is how far into the data the reader stands, since the bits that
fill up a byte in front of a stored block depend on it.
-/

namespace TablesOS.Png

open Deflate PrefixCode

/-! ## Runs -/

theorem lenBase_eq : lenBase = (List.range 29).map Deflate.lenBase := rfl

theorem lenExtra_eq : lenExtra = (List.range 29).map Deflate.lenExtra := rfl

theorem distBase_eq : distBase = (List.range 30).map Deflate.distBase := rfl

theorem distExtra_eq : distExtra = (List.range 30).map Deflate.distExtra := rfl

theorem at_map {f : Nat → Nat} {i n : Nat} (h : i < n) :
    at! ((List.range n).map f) i = .ok (f i) := by
  rw [at_ok (by simpa using h)]
  simp

theorem copyLoop_again {start dist n k : Nat} {out : List Byte} (hd : 1 ≤ dist)
    (hs : start + k + dist = out.length) : copyLoop start n k out = .ok (again dist n out) := by
  induction n generalizing k out with
  | zero => rfl
  | succ n ih =>
      have hlt : start + k < out.length := by omega
      rw [copyLoop, at_ok hlt, Outcome.ok_bind, again, show out.length - dist = start + k by omega,
        List.getD_eq_getElem?_getD, List.getElem?_eq_getElem hlt, Option.getD_some]
      exact ih (by rw [List.length_append, List.length_singleton]; omega)

theorem one_le_distBase (d : Nat) : 1 ≤ Deflate.distBase d := by
  rw [Deflate.distBase]
  split <;> omega

/-! ## The items of a block -/

section

variable {lit dist : List Nat} {hl hd : Huffman}

/-- The codes behind two tables. -/
structure Codes (lit dist : List Nat) (hl hd : Huffman) : Prop where
  litTable : Table lit hl
  distTable : Table dist hd
  litLength : lit.length < 2 ^ 16
  distLength : dist.length < 2 ^ 16

/-- One round of `inflate_block` reads one item. -/
theorem inflateBlock_item (ht : Codes lit dist hl hd) (hkl : Kraft lit 15) (hkd : Kraft dist 15)
    {out res : List Byte} {i : Item} (hi : i.Valid lit dist out) {fuel : Nat} {bs : List Bool}
    (hrest : Takes (inflateBlock hl hd fuel (i.apply out)) bs res) :
    Takes (inflateBlock hl hd (fuel + 1) out) (i.bits lit dist ++ bs) res := by
  cases i with
  | lit b =>
      have hb : b.toNat < 256 := b.toNat_lt
      refine Takes.bind (Huffman.decode_takes ht.litTable ht.litLength hkl hi) ?_
      show Takes (if b.toNat = 256 then pure out else _) bs res
      rw [if_neg (by omega), if_pos hb, UInt8.ofNat_toNat]
      exact hrest
  | run l lx d dx =>
      obtain ⟨⟨hl1, hl2, hl3⟩, ⟨hd1, hd2, hd3⟩, hle⟩ := hi
      have hbase := one_le_distBase d
      rw [Item.bits, List.append_assoc, List.append_assoc, List.append_assoc]
      refine Takes.bind (Huffman.decode_takes ht.litTable ht.litLength hkl hl2) ?_
      show Takes (if 257 + l = 256 then pure out else _) _ res
      rw [if_neg (by omega), if_neg (by omega), Nat.add_sub_cancel_left,
        if_neg (by simpa [lenBase] using hl1)]
      refine Takes.lift (by rw [lenBase_eq]; exact at_map hl1) ?_
      refine Takes.lift (by rw [lenExtra_eq]; exact at_map hl1) ?_
      refine Takes.bind (Takes.bits hl3) ?_
      refine Takes.bind (Huffman.decode_takes ht.distTable ht.distLength hkd hd2) ?_
      rw [if_neg (by simpa [distBase] using hd1)]
      refine Takes.lift (by rw [distBase_eq]; exact at_map hd1) ?_
      refine Takes.lift (by rw [distExtra_eq]; exact at_map hd1) ?_
      refine Takes.bind (Takes.bits hd3) ?_
      rw [if_neg (by omega)]
      exact Takes.lift (copyLoop_again (by omega) (by omega)) hrest

/-- `inflate_block` reads the items of a block and the symbol that ends it. -/
theorem inflateBlock_takes (ht : Codes lit dist hl hd) (hkl : Kraft lit 15) (hkd : Kraft dist 15)
    {items : List Item} {out : List Byte} (hv : BodyValid lit dist out items) {fuel : Nat}
    (hf : items.length < fuel) :
    Takes (inflateBlock hl hd fuel out) (bodyBits lit dist items)
      (items.foldl Item.apply out) := by
  induction items generalizing out fuel with
  | nil =>
      obtain ⟨f, rfl⟩ := Nat.exists_eq_succ_of_ne_zero (by omega : fuel ≠ 0)
      rw [bodyBits, List.flatMap_nil, List.nil_append, ← List.append_nil (codeword lit 256)]
      refine Takes.bind (Huffman.decode_takes ht.litTable ht.litLength hkl hv) ?_
      rw [if_pos rfl]
      exact Takes.pure out
  | cons i is ih =>
      obtain ⟨f, rfl⟩ := Nat.exists_eq_succ_of_ne_zero (by omega : fuel ≠ 0)
      rw [bodyBits, List.flatMap_cons, List.append_assoc, List.foldl_cons]
      exact inflateBlock_item ht hkl hkd hv.1 (ih hv.2 (Nat.lt_of_succ_lt_succ hf))

end

/-- An item takes at least one bit. -/
theorem item_bits {lit dist : List Nat} {out : List Byte} {items : List Item}
    (hv : BodyValid lit dist out items) : items.length ≤ (bodyBits lit dist items).length := by
  induction items generalizing out with
  | nil => exact Nat.zero_le _
  | cons i is ih =>
      have h1 := ih hv.2
      have h2 : 1 ≤ (i.bits lit dist).length := by
        cases i with
        | lit b =>
            rw [Item.bits, length_codeword]
            exact Nat.one_le_iff_ne_zero.mpr hv.1
        | run l lx d dx =>
            have h := Nat.one_le_iff_ne_zero.mpr hv.1.1.2.1
            rw [Item.bits, List.length_append, length_codeword]
            omega
      rw [bodyBits, List.flatMap_cons, List.append_assoc, List.length_append, List.length_cons]
      rw [bodyBits] at h1
      omega

/-! ## The lengths of a dynamic block -/

theorem repeatLength_padded {total v n : Nat} {out : List Nat} (h : out.length + n ≤ total) :
    repeatLength total v n (padded 0 total out) out.length =
      .ok (padded 0 total (out ++ List.replicate n v), out.length + n) := by
  induction n generalizing out with
  | zero => rw [repeatLength, List.replicate_zero, List.append_nil, Nat.add_zero]
  | succ n ih =>
      have hlen : (out ++ [v]).length = out.length + 1 := List.length_append
      rw [repeatLength, if_neg (by omega), set_padded (by omega), Outcome.ok_bind, ← hlen,
        ih (by omega), hlen, List.append_assoc, Nat.add_right_comm]
      rfl

theorem LenItem_apply_length (out : List Nat) (i : LenItem) :
    out.length ≤ (i.apply out).length := by
  cases i <;> simp [LenItem.apply]

theorem lengths_le (items : List LenItem) (out : List Nat) :
    out.length ≤ (items.foldl LenItem.apply out).length := by
  induction items generalizing out with
  | nil => exact le_refl _
  | cons i is ih => exact le_trans (LenItem_apply_length out i) (ih _)

/-- The last length read. -/
theorem at_last {total : Nat} {out : List Nat} (h : out ≠ []) :
    at! (padded 0 total out) (out.length - 1) = .ok (out.getLastD 0) := by
  have hlen := List.length_pos_iff.mpr h
  rw [at_padded (by omega), List.getLastD_eq_getLast?, List.getLast?_eq_some_getLast h,
    Option.getD_some, List.getLast_eq_getElem]

/-- A repeat count, then the repeats. -/
theorem repeat_takes {h : Huffman} {total fuel v base nb n : Nat} {out res : List Nat}
    {bs : List Bool} (hn : base ≤ n ∧ n - base < 2 ^ nb) (hle : out.length + n ≤ total)
    (hrest : Takes (readLengths h total fuel (padded 0 total (out ++ List.replicate n v))
      (out.length + n)) bs res) :
    Takes (do
      let rep ← BitReader.bits nb
      let (lengths, i) ← repeatLength total v (base + rep) (padded 0 total out) out.length
      readLengths h total fuel lengths i) (lowBits nb (n - base) ++ bs) res := by
  refine Takes.bind (Takes.bits hn.2) ?_
  rw [Nat.add_sub_cancel' hn.1]
  exact Takes.lift (repeatLength_padded hle) hrest

/-- The loop reads the items one by one. -/
theorem readLengths_takes {cl : List Nat} {h : Huffman} (ht : Table cl h)
    (hlen : cl.length < 2 ^ 16) (hk : Kraft cl 15) {items : List LenItem} {out : List Nat}
    {total fuel : Nat} (hv : LengthsValid cl out items)
    (htotal : (items.foldl LenItem.apply out).length = total) (hf : total - out.length ≤ fuel) :
    Takes (readLengths h total fuel (padded 0 total out) out.length)
      (items.flatMap (LenItem.bits cl)) (items.foldl LenItem.apply out) := by
  induction items generalizing out fuel with
  | nil =>
      have hout : out.length = total := htotal
      rw [padded_full hout]
      cases fuel with
      | zero =>
          rw [readLengths, if_neg (by omega)]
          exact Takes.pure out
      | succ f =>
          rw [readLengths, if_neg (by omega)]
          exact Takes.pure out
  | cons i is ih =>
      have hdec := @Huffman.decode_takes cl h ht hlen hk
      have hle := lengths_le is (i.apply out)
      rw [List.foldl_cons] at htotal
      rw [List.flatMap_cons, List.foldl_cons]
      obtain ⟨hi, his⟩ := hv
      cases i with
      | one l =>
          have hout : (out ++ [l]).length = out.length + 1 := List.length_append
          have hlt : out.length + 1 ≤ total := by
            rw [← htotal, ← hout]
            exact hle
          obtain ⟨f, rfl⟩ := Nat.exists_eq_succ_of_ne_zero (by omega : fuel ≠ 0)
          rw [readLengths, if_pos (by omega)]
          refine Takes.bind (hdec hi.2) ?_
          rw [if_pos hi.1]
          refine Takes.lift (set_padded (by omega)) ?_
          rw [← hout]
          exact ih his htotal (by omega)
      | last n =>
          obtain ⟨hn, hne, hc⟩ := hi
          have hout : (out ++ List.replicate n (out.getLastD 0)).length = out.length + n := by simp
          have hlt : out.length + n ≤ total := by
            rw [← htotal, ← hout]
            exact hle
          have hpos := List.length_pos_iff.mpr hne
          obtain ⟨f, rfl⟩ := Nat.exists_eq_succ_of_ne_zero (by omega : fuel ≠ 0)
          rw [readLengths, if_pos (by omega), LenItem.bits, List.append_assoc]
          refine Takes.bind (hdec hc) ?_
          rw [if_neg (by decide), if_pos rfl, if_neg (by omega)]
          refine Takes.lift (at_last hne) ?_
          refine repeat_takes (by omega) hlt ?_
          rw [← hout]
          exact ih his htotal (by omega)
      | zeros n =>
          have hout : (out ++ List.replicate n 0).length = out.length + n := by simp
          have hlt : out.length + n ≤ total := by
            rw [← htotal, ← hout]
            exact hle
          have hn := hi.1
          obtain ⟨f, rfl⟩ := Nat.exists_eq_succ_of_ne_zero (by omega : fuel ≠ 0)
          rw [readLengths, if_pos (by omega), LenItem.bits, List.append_assoc]
          refine Takes.bind (hdec hi.2) ?_
          rw [if_neg (by decide), if_neg (by decide), if_pos rfl]
          refine repeat_takes (by omega) hlt ?_
          rw [← hout]
          exact ih his htotal (by omega)
      | manyZeros n =>
          have hout : (out ++ List.replicate n 0).length = out.length + n := by simp
          have hlt : out.length + n ≤ total := by
            rw [← htotal, ← hout]
            exact hle
          have hn := hi.1
          obtain ⟨f, rfl⟩ := Nat.exists_eq_succ_of_ne_zero (by omega : fuel ≠ 0)
          rw [readLengths, if_pos (by omega), LenItem.bits, List.append_assoc]
          refine Takes.bind (hdec hi.2) ?_
          rw [if_neg (by decide), if_neg (by decide), if_neg (by decide), if_pos rfl]
          refine repeat_takes (by omega) hlt ?_
          rw [← hout]
          exact ih his htotal (by omega)

/-- The lengths of the code-length code, stored where they belong. -/
theorem readCl_takes {cl : List Nat} (hcl : ∀ l ∈ cl, l < 8) {os acc : List Nat}
    (ho : ∀ o ∈ os, o < acc.length) :
    Takes (readCl os acc) (os.flatMap fun o => lowBits 3 (cl.getD o 0))
      (os.foldl (fun a o => a.set o (cl.getD o 0)) acc) := by
  induction os generalizing acc with
  | nil => exact Takes.pure acc
  | cons o os ih =>
      have h8 : cl.getD o 0 < 2 ^ 3 := by
        rw [List.getD_eq_getElem?_getD]
        cases h : cl[o]? with
        | none => decide
        | some l => exact hcl l (List.mem_of_getElem? h)
      rw [List.flatMap_cons, List.foldl_cons]
      refine Takes.bind (Takes.bits h8) ?_
      refine Takes.lift (set_ok (ho o List.mem_cons_self)) ?_
      refine ih ?_
      intro o' h'
      rw [List.length_set]
      exact ho o' (List.mem_cons_of_mem _ h')

theorem getElem_stores (f : Nat → Nat) (os acc : List Nat) (i : Nat) :
    (os.foldl (fun a o => a.set o (f o)) acc)[i]? =
      if i ∈ os ∧ i < acc.length then some (f i) else acc[i]? := by
  induction os generalizing acc with
  | nil => simp
  | cons o os ih =>
      rw [List.foldl_cons, ih, List.length_set, List.getElem?_set]
      by_cases h1 : i ∈ os <;> by_cases h2 : o = i <;> by_cases h3 : i < acc.length <;>
        simp_all [eq_comm]

/-- What is not sent is zero. -/
theorem stores_cl {t : Tables} (h : t.Valid) :
    (order.take t.hclen).foldl (fun a o => a.set o (t.cl.getD o 0)) (List.replicate 19 0) =
      t.cl := by
  refine List.ext_getElem? ?_
  intro i
  rw [getElem_stores (fun o => t.cl.getD o 0), List.length_replicate]
  by_cases hi : i < 19
  · have hall : ∀ i < 19, i ∈ order := by decide
    have hmem := hall i hi
    rw [← List.take_append_drop t.hclen order, List.mem_append] at hmem
    rw [List.getElem?_eq_getElem (show i < t.cl.length by rw [h.cl.1]; exact hi)]
    by_cases ht : i ∈ order.take t.hclen
    · rw [if_pos ⟨ht, hi⟩, List.getD_eq_getElem?_getD, List.getElem?_eq_getElem, Option.getD_some]
    · have hz := h.sent i (hmem.resolve_left ht)
      rw [List.getD_eq_getElem?_getD,
        List.getElem?_eq_getElem (show i < t.cl.length by rw [h.cl.1]; exact hi),
        Option.getD_some] at hz
      rw [if_neg (fun hc => ht hc.1), List.getElem?_replicate, if_pos hi, hz]
  · rw [if_neg (fun hc => hi hc.2), List.getElem?_replicate, if_neg hi,
      List.getElem?_eq_none (by rw [h.cl.1]; omega)]

/-- `read_dynamic` reads the tables of a block. -/
theorem readDynamic_takes {t : Tables} (h : t.Valid) :
    ∃ hl hd, Takes readDynamic t.bits (hl, hd) ∧ Codes t.lit t.dist hl hd := by
  have hcl7 : ∀ l ∈ t.cl, l < 8 := fun l hl => Nat.lt_succ_of_le (h.cl.2.le l hl)
  have h15 := Kraft.widen h.cl.2 (show 7 ≤ 15 by decide)
  have hlit : t.lit.length < 2 ^ 16 := by
    have := h.hlit
    rw [Tables.lit, List.length_take]
    omega
  have hdist : t.dist.length < 2 ^ 16 := by
    have := h.hdist
    have := h.total
    rw [Tables.dist, List.length_drop]
    omega
  have hcll : t.cl.length < 2 ^ 16 := by rw [h.cl.1]; decide
  obtain ⟨hc, hc1, hc2⟩ := Huffman.build_ok h15.le hcll
  obtain ⟨hl, hl1, hl2⟩ := Huffman.build_ok h.lit.le hlit
  obtain ⟨hd, hd1, hd2⟩ := Huffman.build_ok h.dist.le hdist
  refine ⟨hl, hd, ?_, ⟨hl2, hd2, hlit, hdist⟩⟩
  have hh := h.hlit
  have hh' := h.hdist
  have hh'' := h.hclen
  rw [Tables.bits, readDynamic]
  refine Takes.bind (Takes.bits (by omega)) ?_
  refine Takes.bind (Takes.bits (by omega)) ?_
  refine Takes.bind (Takes.bits (by omega)) ?_
  rw [Nat.sub_add_cancel hh.1, Nat.sub_add_cancel hh'.1, Nat.sub_add_cancel hh''.1]
  have hord : ∀ o ∈ order.take t.hclen, o < (List.replicate 19 0).length := by
    have hall : ∀ o ∈ order, o < 19 := by decide
    intro o ho
    rw [List.length_replicate]
    exact hall o (List.mem_of_mem_take ho)
  have hread := readCl_takes hcl7 hord
  rw [stores_cl h] at hread
  refine Takes.bind hread ?_
  refine Takes.lift hc1 ?_
  rw [← List.append_nil (t.items.flatMap _)]
  have hlens := readLengths_takes hc2 hcll h15 h.items h.total (le_refl (t.hlit + t.hdist - 0))
  refine Takes.bind hlens ?_
  refine Takes.lift hl1 ?_
  refine Takes.lift hd1 ?_
  exact Takes.pure _

/-! ## Blocks -/

/-- A length that fits is read back from its two bytes. -/
theorem two_bytes {n : Nat} (h : n < 2 ^ 16) :
    (UInt8.ofNat n).toNat ||| (UInt8.ofNat (n / 256)).toNat <<< 8 = n := by
  rw [UInt8.toNat_ofNat', UInt8.toNat_ofNat', Nat.or_comm, Nat.shiftLeft_eq, Nat.mul_comm,
    ← Nat.two_pow_add_eq_or_of_lt (Nat.mod_lt _ (by decide))]
  omega

/-- A stored block starts at the next byte. -/
theorem storedBlock_eq (out : List Byte) (br : BitReader) :
    storedBlock out br = (do
      let four ← usize (br.pos + 4)
      if br.data.length < four then .err .inflate else do
        let lo ← at! br.data br.pos
        let hi ← at! br.data (br.pos + 1)
        let len := lo.toNat ||| hi.toNat <<< 8
        let fin ← usize (four + len)
        if br.data.length < fin then .err .inflate
        else .ok (out ++ (br.data.drop four).take len, ⟨br.data, fin, br.bitbuf, 0⟩)) := rfl

/-- A stored block, read from behind its type. -/
theorem storedBlock_ok {br : BitReader} (hok : br.Ok) (hmax : br.data.length < 2 ^ 63)
    {pad rest : List Bool} {bytes : List Byte} (hn : bytes.length < 2 ^ 16)
    (hcnt : br.bitcnt = pad.length)
    (hs : br.stream = pad ++ (lowBits 16 bytes.length ++
      (lowBits 16 (2 ^ 16 - 1 - bytes.length) ++ (bitsOf bytes ++ rest)))) (out : List Byte) :
    ∃ br', storedBlock out br = .ok (out ++ bytes, br') ∧ br'.Ok ∧ br'.stream = rest ∧
      br'.data = br.data := by
  have hpos := hok.pos
  have hbits : bitsOf (br.data.drop br.pos) =
      bitsOf (leBytes 2 bytes.length ++ leBytes 2 (2 ^ 16 - 1 - bytes.length) ++ bytes) ++
        rest := by
    rw [BitReader.stream] at hs
    rw [(List.append_inj hs (by rw [length_lowBits, hcnt])).2, bitsOf_append, bitsOf_append,
      bitsOf_leBytes, bitsOf_leBytes, List.append_assoc, List.append_assoc]
  obtain ⟨tail, hd, htail⟩ := bitsOf_prefix hbits
  have hlen := congrArg List.length hd
  simp only [List.length_drop, List.length_append, length_leBytes] at hlen
  have hdrop : br.data.drop (br.pos + 4) = bytes ++ tail := by
    rw [← List.drop_drop, hd]
    rfl
  have hlo : at! br.data br.pos = .ok (UInt8.ofNat bytes.length) := at_drop (i := 0) hd
  have hhi : at! br.data (br.pos + 1) = .ok (UInt8.ofNat (bytes.length / 256)) := at_drop hd
  refine ⟨⟨br.data, br.pos + 4 + bytes.length, br.bitbuf, 0⟩, ?_, ⟨?_, Nat.zero_lt_succ 7⟩, ?_,
    rfl⟩
  · have h1 : usize (br.pos + 4) = .ok (br.pos + 4) := if_pos (by omega)
    have h2 : usize (br.pos + 4 + bytes.length) = .ok (br.pos + 4 + bytes.length) :=
      if_pos (by omega)
    rw [storedBlock_eq, h1, Outcome.ok_bind, if_neg (by omega), hlo, Outcome.ok_bind, hhi,
      Outcome.ok_bind]
    simp only [two_bytes hn, h2, hdrop, Outcome.ok_bind]
    rw [if_neg (by omega), List.take_left']
    rfl
  · show br.pos + 4 + bytes.length ≤ br.data.length
    omega
  · rw [BitReader.stream, lowBits, List.nil_append, ← List.drop_drop, hdrop, List.drop_left,
      htail]

theorem fixedLit_eq : fixedLitLengths = Deflate.fixedLit := by decide +kernel

theorem fixedLit_kraft : Kraft Deflate.fixedLit 15 := by decide +kernel

theorem fixedDist_kraft : Kraft Deflate.fixedDist 15 := by decide +kernel

/-- The fixed tables are those of the fixed codes. -/
theorem fixed_codes : ∃ hl hd, fixedLit = .ok hl ∧ fixedDist = .ok hd ∧
    Codes Deflate.fixedLit Deflate.fixedDist hl hd := by
  have h1 : Deflate.fixedLit.length < 2 ^ 16 := by decide +kernel
  have h2 : Deflate.fixedDist.length < 2 ^ 16 := by decide +kernel
  obtain ⟨hl, hl1, hl2⟩ := Huffman.build_ok fixedLit_kraft.le h1
  obtain ⟨hd, hd1, hd2⟩ := Huffman.build_ok fixedDist_kraft.le h2
  refine ⟨hl, hd, ?_, hd1, hl2, hd2, h1, h2⟩
  rw [fixedLit, fixedLit_eq]
  exact hl1

/-- A block, read from behind the bit that says if it is the last. -/
theorem block_ok {b : Block} {off : Nat} {out : List Byte} (hv : b.Valid off out)
    {br : BitReader} (hok : br.Ok) (hmax : br.data.length < 2 ^ 63)
    (hoff : off + 1 + br.stream.length = 8 * br.data.length) {rounds : Nat}
    (hr : 8 * br.data.length < rounds) {rest : List Bool} (hs : br.stream = b.bits ++ rest) :
    ∃ br', (BitReader.bits 2 >>= fun btype => blockOf rounds btype out) br =
      .ok (b.apply out, br') ∧ br'.Ok ∧ br'.stream = rest ∧ br'.data = br.data := by
  have hlen := congrArg List.length hs
  rw [List.length_append] at hlen
  cases b with
  | stored pad bytes =>
      obtain ⟨hpad, halign, hn⟩ := hv
      rw [Block.bits, List.append_assoc] at hs
      obtain ⟨br1, h1, hok1, hs1, hd1⟩ := Takes.bits (n := 2) (by decide) br hok _ hs
      have hl1 := hok1.length
      have hl2 := congrArg List.length hs1
      have hl3 := congrArg List.length hs
      rw [List.length_append, length_lowBits] at hl3
      have hcnt1 := hok1.cnt
      have hcnt : br1.bitcnt = pad.length := by
        rw [hd1] at hl1
        omega
      simp only [List.append_assoc] at hs1
      obtain ⟨br2, h2, hok2, hs2, hd2⟩ := storedBlock_ok hok1 (by rw [hd1]; exact hmax) hn hcnt
        hs1 out
      refine ⟨br2, ?_, hok2, hs2, hd2.trans hd1⟩
      rw [run_bind, h1, Outcome.ok_bind, blockOf, if_pos rfl, h2]
      rfl
  | fixed items =>
      have hi := item_bits hv
      obtain ⟨hl, hd, hl1, hd1, hcodes⟩ := fixed_codes
      rw [Block.bits, List.length_append] at hlen
      have ht := inflateBlock_takes hcodes fixedLit_kraft fixedDist_kraft hv
        (show items.length < rounds by omega)
      refine Takes.bind (Takes.bits (by decide)) ?_ br hok rest hs
      rw [blockOf, if_neg (by decide), if_pos rfl]
      exact Takes.lift hl1 (Takes.lift hd1 ht)
  | dynamic t items =>
      obtain ⟨htv, hbody⟩ := hv
      have hi := item_bits hbody
      obtain ⟨hl, hd, hdyn, hcodes⟩ := readDynamic_takes htv
      rw [Block.bits, List.length_append, List.length_append] at hlen
      have ht := inflateBlock_takes hcodes htv.lit htv.dist hbody
        (show items.length < rounds by omega)
      refine Takes.bind (Takes.bits (by decide)) ?_ br hok rest hs
      rw [blockOf, if_neg (by decide), if_neg (by decide), if_pos rfl]
      exact Takes.bind hdyn ht

/-- The block loop follows the stream. -/
theorem inflateLoop_ok {last : Block} {bs : List Block} {off : Nat} {out : List Byte}
    (hv : Stream.BlocksValid last off out bs) {br : BitReader} (hok : br.Ok)
    (hmax : br.data.length < 2 ^ 63) (hoff : off + br.stream.length = 8 * br.data.length)
    {rounds fuel : Nat} (hr : 8 * br.data.length < rounds) (hf : bs.length < fuel)
    {rest : List Bool} (hs : br.stream = Stream.blockBits last bs ++ rest) :
    ∃ br', inflateLoop rounds fuel out br =
      .ok (last.apply (bs.foldl Block.apply out), br') := by
  induction bs generalizing off out br fuel with
  | nil =>
      obtain ⟨f, rfl⟩ := Nat.exists_eq_succ_of_ne_zero (by omega : fuel ≠ 0)
      obtain ⟨br1, h1, hok1, hs1, hd1⟩ := Takes.bit true br hok (last.bits ++ rest) hs
      have hlen := congrArg List.length hs
      rw [Stream.blockBits, List.cons_append, List.length_cons, ← hs1] at hlen
      obtain ⟨br2, h2, -⟩ := block_ok hv hok1 (by rw [hd1]; exact hmax) (by rw [hd1]; omega)
        (by rw [hd1]; exact hr) hs1
      refine ⟨br2, ?_⟩
      rw [inflateLoop, run_bind, h1, Outcome.ok_bind, ← bind_assoc, run_bind, h2, Outcome.ok_bind,
        if_pos (show (true.toNat, br1).1 = 1 from rfl)]
      rfl
  | cons b bs ih =>
      obtain ⟨f, rfl⟩ := Nat.exists_eq_succ_of_ne_zero (by omega : fuel ≠ 0)
      obtain ⟨hb, hbs⟩ := hv
      obtain ⟨br1, h1, hok1, hs1, hd1⟩ :=
        Takes.bit false br hok (b.bits ++ Stream.blockBits last bs ++ rest) hs
      have hlen := congrArg List.length hs
      rw [Stream.blockBits, List.cons_append, List.length_cons, ← hs1] at hlen
      rw [List.append_assoc] at hs1
      obtain ⟨br2, h2, hok2, hs2, hd2⟩ := block_ok hb hok1 (by rw [hd1]; exact hmax)
        (by rw [hd1]; omega) (by rw [hd1]; exact hr) hs1
      have hd := hd2.trans hd1
      have hlen2 := congrArg List.length hs1
      rw [List.length_append, ← hs2] at hlen2
      obtain ⟨br3, h3⟩ := ih hbs hok2 (by rw [hd]; exact hmax) (by rw [hd]; omega)
        (by rw [hd]; exact hr) (Nat.lt_of_succ_lt_succ hf) hs2
      refine ⟨br3, ?_⟩
      rw [inflateLoop, run_bind, h1, Outcome.ok_bind, ← bind_assoc, run_bind, h2, Outcome.ok_bind,
        if_neg (show (false.toNat, br1).1 ≠ 1 from Nat.zero_ne_one), h3]
      rfl

theorem blocks_le (last : Block) (bs : List Block) :
    bs.length < (Stream.blockBits last bs).length := by
  induction bs with
  | nil => exact Nat.zero_lt_succ _
  | cons b bs ih =>
      rw [Stream.blockBits, List.length_cons, List.length_cons, List.length_append]
      omega

/-- `inflate` gives what the stream decompresses to, whatever comes after it. -/
theorem inflate_stream {s : Stream} {data : List Byte} (hv : s.Valid) (hmax : data.length < 2 ^ 63)
    (hs : s.bits <+: bitsOf data) : inflate data = .ok s.output := by
  obtain ⟨rest, hs⟩ := hs
  have hlen := congrArg List.length hs
  have hb := blocks_le s.last s.blocks
  rw [List.length_append, length_bitsOf, Stream.bits] at hlen
  have hoff : 0 + (BitReader.new data).stream.length = 8 * data.length := by
    rw [BitReader.new_stream, length_bitsOf, Nat.zero_add]
  obtain ⟨br', h⟩ := @inflateLoop_ok s.last s.blocks 0 [] hv _ (BitReader.new_ok data) hmax hoff
    (8 * data.length + 1) (8 * data.length + 1) (Nat.lt_succ_self _) (by omega) rest hs.symm
  rw [inflate, h]
  rfl

/-- Every valid stream is decompressed. `build` and `decode` are the canonical
code of any lengths that ask for no more codewords than there are: a codeword is
read as its symbol, and only a symbol's codeword is. -/
theorem inflate_decompresses :
    (∀ (s : Stream) (data : List Byte), s.Valid → data.length < 2 ^ 63 → s.bits <+: bitsOf data →
      inflate data = .ok s.output) ∧
    ∀ lengths : List Nat, Kraft lengths 15 → lengths.length < 2 ^ 16 →
      ∃ h, Huffman.build lengths = .ok h ∧
        (∀ sym, Coded lengths sym → Takes h.decode (codeword lengths sym) sym) ∧
        ∀ br br' sym, br.Ok → h.decode br = .ok (sym, br') →
          Coded lengths sym ∧ br.stream = codeword lengths sym ++ br'.stream := by
  constructor
  · intro s data hv hmax hs
    exact inflate_stream hv hmax hs
  · intro lengths hk hlen
    obtain ⟨h, hb, ht⟩ := Huffman.build_ok hk.le hlen
    refine ⟨h, hb, fun sym hs => Huffman.decode_takes ht hlen hk hs, ?_⟩
    intro br br' sym hok hd
    exact Huffman.decode_codeword ht hlen hok hd

/-- A stored byte, a literal with a run that overlaps itself, and a literal
under codes of its own. -/
def threeBlocks : Stream where
  blocks := [.stored [false, false, false, false, false] [97], .fixed [.lit 98, .run 0 0 1 0]]
  last := .dynamic
    ⟨257, 1, 18, [2, 2, 0, 0, 0, 0, 0, 0, 0, 0, 0, 0, 0, 0, 0, 0, 0, 0, 1],
      [.manyZeros 97, .one 1, .manyZeros 138, .manyZeros 20, .one 1, .one 0]⟩ [.lit 97]

theorem inflate_threeBlocks :
    inflate [0, 1, 0, 254, 255, 97, 74, 2, 66, 64, 1, 112, 32, 2, 0, 0, 0, 0, 136, 117, 127, 137,
        19] = .ok [97, 98, 97, 98, 97, 97] ∧
      ∃ h, Huffman.build [2, 1, 0, 2] = .ok h ∧ Takes h.decode [true, true] 3 := by
  constructor
  · exact inflate_decompresses.1 threeBlocks _ (by decide +kernel) (by decide)
      ⟨[false, false, false], by decide +kernel⟩
  · obtain ⟨h, hb, ht, _⟩ := inflate_decompresses.2 [2, 1, 0, 2] (by decide) (by decide)
    exact ⟨h, hb, ht 3 (by decide)⟩

end TablesOS.Png
