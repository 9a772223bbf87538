import TablesOS.Proofs.Unfiltering

/-!
# What the PNG decoder does on any bytes

The decompressor comes back on any data: its tables are right for any lengths,
a match that starts before the output is refused, and every round of its loops
reads a bit. The rest of the decoder comes back too, but for the sizes it works
out from the header: of the two products of three factors in it one is not
checked, and the pixels may be more than a vector can have.
-/

namespace TablesOS.Png

open PrefixCode Deflate

/-! ## Loops that read -/

variable {α β : Type}

/-- `m` comes back on data with fewer than `k` bits left. -/
def Bounded (k : Nat) (m : BitM α) : Prop :=
  ∀ br : BitReader, br.Ok → br.data.length < 2 ^ 63 → br.stream.length < k →
    Back (fun r => r.2.Ok ∧ r.2.data = br.data ∧ r.2.stream.length ≤ br.stream.length) (m br)

namespace Bounded

theorem of_within {k n : Nat} {m : BitM α} {P : α → Prop} (h : Within m n P) : Bounded k m := by
  intro br hok _ _
  refine (h br hok).mono ?_
  rintro r ⟨_, h2, h3, h4⟩
  exact ⟨h2, h3, by omega⟩

theorem mono {k l : Nat} {m : BitM α} (h : Bounded k m) (hl : l ≤ k) : Bounded l m :=
  fun br hok hmax hlen => h br hok hmax (by omega)

theorem pure {k : Nat} (a : α) : Bounded k (pure a : BitM α) :=
  fun _ hok _ _ => ⟨hok, rfl, le_refl _⟩

theorem fail {k : Nat} (e : Error) : Bounded k (fail e : BitM α) := fun _ _ _ _ => trivial

/-- A read takes at least `n` bits from the bound. -/
theorem read {k n : Nat} {m : BitM α} {f : α → BitM β} {P : α → Prop} (hm : Within m n P)
    (hf : ∀ a, P a → Bounded k (f a)) : Bounded (k + n) (m >>= f) := by
  intro br hok hmax hlen
  rw [run_bind]
  refine (hm br hok).bind ?_
  rintro r ⟨h1, h2, h3, h4⟩
  refine (hf _ h1 _ h2 (by rw [h3]; exact hmax) (by omega)).mono ?_
  rintro r' ⟨h5, h6, h7⟩
  exact ⟨h5, h6.trans h3, by omega⟩

theorem bind {k : Nat} {m : BitM α} {f : α → BitM β} (hm : Bounded k m)
    (hf : ∀ a, Bounded k (f a)) : Bounded k (m >>= f) := by
  intro br hok hmax hlen
  rw [run_bind]
  refine (hm br hok hmax hlen).bind ?_
  rintro r ⟨h1, h2, h3⟩
  refine (hf _ _ h1 (by rw [h2]; exact hmax) (by omega)).mono ?_
  rintro r' ⟨h4, h5, h6⟩
  exact ⟨h4, h5.trans h2, by omega⟩

theorem lift {k : Nat} {r : Res α} {f : α → BitM β} {P : α → Prop} (hr : Back P r)
    (hf : ∀ a, P a → Bounded k (f a)) : Bounded k (liftM r >>= f) := by
  intro br hok hmax hlen
  rw [run_bind, run_lift]
  cases r with
  | ok a => exact hf a hr br hok hmax hlen
  | err e => trivial
  | panic => exact hr.elim
  | diverge => exact hr.elim

end Bounded

/-! ## Tables -/

/-- A table that `build` made. -/
def Built (h : Huffman) : Prop := ∃ lengths, Table lengths h ∧ lengths.length < 2 ^ 16

theorem Built.decode {h : Huffman} (hb : Built h) : Within h.decode 1 fun _ => True := by
  obtain ⟨lengths, ht, hlen⟩ := hb
  exact Huffman.decode_within ht hlen

theorem build_back {lengths : List Nat} (hl : ∀ l ∈ lengths, l ≤ 15)
    (hlen : lengths.length < 2 ^ 16) : Back Built (Huffman.build lengths) := by
  obtain ⟨h, hb, ht⟩ := Huffman.build_ok hl hlen
  exact .of_ok hb ⟨lengths, ht, hlen⟩

/-- So many lengths, none above 15. -/
def Sized (total : Nat) (lengths : List Nat) : Prop :=
  lengths.length = total ∧ ∀ l ∈ lengths, l ≤ 15

theorem Sized.set {total i v : Nat} {lengths : List Nat} (h : Sized total lengths) (hi : i < total)
    (hv : v ≤ 15) : Back (Sized total) (set! lengths i v) := by
  refine .of_ok (set_ok (by rw [h.1]; exact hi)) ⟨by rw [List.length_set, h.1], ?_⟩
  intro l hl
  rcases List.mem_or_eq_of_mem_set hl with hl | rfl
  · exact h.2 l hl
  · exact hv

theorem readCl_within {os cl : List Nat} (hc : Sized 19 cl) (ho : ∀ o ∈ os, o < 19) :
    Within (readCl os cl) 0 (Sized 19) := by
  induction os generalizing cl with
  | nil => exact Within.pure hc
  | cons o os ih =>
      refine Within.skip (Within.bits 3) ?_
      intro v hv
      refine Within.lift (hc.set (ho o List.mem_cons_self) (by omega)) ?_
      intro cl' hc'
      exact ih hc' fun o' h' => ho o' (List.mem_cons_of_mem _ h')

theorem repeatLength_back {total v n i : Nat} {lengths : List Nat} (h : Sized total lengths)
    (hv : v ≤ 15) :
    Back (fun r => Sized total r.1 ∧ r.2 = i + n) (repeatLength total v n lengths i) := by
  induction n generalizing lengths i with
  | zero => exact ⟨h, rfl⟩
  | succ n ih =>
      rw [repeatLength]
      split
      · trivial
      · refine (h.set (by omega) hv).bind ?_
        intro lengths' h'
        refine (ih h').mono ?_
        rintro r ⟨h1, h2⟩
        exact ⟨h1, by omega⟩

/-- A repeat count, then the repeats, on any data. -/
theorem repeat_within {h : Huffman} {total fuel v base nb i : Nat} {lengths : List Nat}
    (hs : Sized total lengths) (hv : v ≤ 15) (hbase : 1 ≤ base)
    (ih : ∀ lengths' j, Sized total lengths' → i < j →
      Within (readLengths h total fuel lengths' j) 0 (Sized total)) :
    Within (do
      let rep ← BitReader.bits nb
      let (lengths, i) ← repeatLength total v (base + rep) lengths i
      readLengths h total fuel lengths i) 0 (Sized total) := by
  refine Within.skip (Within.bits nb) ?_
  intro rep _
  refine Within.lift (repeatLength_back hs hv) ?_
  rintro ⟨lengths', j⟩ ⟨h1, h2⟩
  exact ih lengths' j h1 (by simp only at h2; omega)

theorem readLengths_within {h : Huffman} (hb : Built h) {total fuel i : Nat} {lengths : List Nat}
    (hs : Sized total lengths) (hf : total - i ≤ fuel) :
    Within (readLengths h total fuel lengths i) 0 (Sized total) := by
  induction fuel generalizing lengths i with
  | zero =>
      rw [readLengths, if_neg (by omega)]
      exact Within.pure hs
  | succ f ih =>
      rw [readLengths]
      by_cases hi : i < total
      · rw [if_pos hi]
        refine Within.skip hb.decode ?_
        intro sym _
        have hnext : ∀ lengths' j, Sized total lengths' → i < j →
            Within (readLengths h total f lengths' j) 0 (Sized total) :=
          fun lengths' j h1 h2 => ih h1 (by omega)
        split
        · rename_i hsym
          refine Within.lift (hs.set hi hsym) ?_
          intro lengths' h1
          exact hnext _ _ h1 (Nat.lt_succ_self i)
        split
        · split
          · exact Within.fail _
          · have hprev : i - 1 < lengths.length := by
              rw [hs.1]
              omega
            refine Within.lift (Back.of_ok (P := (· ≤ 15)) (at_ok hprev)
              (hs.2 _ (List.getElem_mem hprev))) ?_
            intro prev hp
            exact repeat_within hs hp (by decide) hnext
        split
        · exact repeat_within hs (Nat.zero_le _) (by decide) hnext
        split
        · exact repeat_within hs (Nat.zero_le _) (by decide) hnext
        · exact Within.fail _
      · rw [if_neg hi]
        exact Within.pure hs

theorem readDynamic_within : Within readDynamic 0 fun r => Built r.1 ∧ Built r.2 := by
  have hord : ∀ o ∈ order, o < 19 := by decide
  have hzero : Sized 19 (List.replicate 19 0) := by
    refine ⟨List.length_replicate, ?_⟩
    intro l hl
    rw [List.eq_of_mem_replicate hl]
    exact Nat.zero_le _
  rw [readDynamic]
  refine Within.skip (Within.bits 5) ?_
  intro a ha
  refine Within.skip (Within.bits 5) ?_
  intro b hb
  refine Within.skip (Within.bits 4) ?_
  intro c hc
  refine Within.skip (readCl_within hzero fun o ho => hord o (List.mem_of_mem_take ho)) ?_
  intro cl hcl
  refine Within.lift (build_back hcl.2 (by rw [hcl.1]; decide)) ?_
  intro hcl' hb'
  have hs : Sized (a + 257 + (b + 1)) (List.replicate (a + 257 + (b + 1)) 0) := by
    refine ⟨List.length_replicate, ?_⟩
    intro l hl
    rw [List.eq_of_mem_replicate hl]
    exact Nat.zero_le _
  refine Within.skip (readLengths_within hb' hs (Nat.sub_le _ _)) ?_
  intro lengths hl
  have hlen := hl.1
  refine Within.lift (build_back (fun l h => hl.2 l (List.mem_of_mem_take h)) ?_) ?_
  · rw [List.length_take]
    omega
  intro lit hlit
  refine Within.lift (build_back (fun l h => hl.2 l (List.mem_of_mem_drop h)) ?_) ?_
  · rw [List.length_drop]
    omega
  intro dist hdist
  exact Within.pure ⟨hlit, hdist⟩

/-! ## Blocks -/

theorem at_back {v : List α} {i : Nat} (h : i < v.length) : Back (fun _ => True) (at! v i) :=
  .of_ok (at_ok h) trivial

theorem copyLoop_back {start n k : Nat} {out : List Byte} (h : start + k < out.length) :
    Back (fun _ => True) (copyLoop start n k out) := by
  induction n generalizing k out with
  | zero => trivial
  | succ n ih =>
      rw [copyLoop]
      refine (at_back h).bind ?_
      intro b _
      exact ih (by rw [List.length_append, List.length_singleton]; omega)

/-- Every round of `inflate_block` reads a bit. -/
theorem inflateBlock_bounded {lit dist : Huffman} (hl : Built lit) (hd : Built dist) (fuel : Nat)
    (out : List Byte) : Bounded fuel (inflateBlock lit dist fuel out) := by
  induction fuel generalizing out with
  | zero =>
      intro br _ _ h
      omega
  | succ f ih =>
      rw [inflateBlock]
      refine Bounded.read hl.decode ?_
      intro sym _
      split
      · exact Bounded.pure _
      split
      · exact ih _
      · dsimp only
        generalize sym - 257 = s
        split
        · exact Bounded.fail _
        rename_i hs
        have hs1 : s < lenBase.length := Nat.not_le.mp hs
        have hs2 : s < lenExtra.length := hs1
        refine Bounded.lift (at_back hs1) ?_
        intro base _
        refine Bounded.lift (at_back hs2) ?_
        intro extra _
        refine Bounded.bind (.of_within (Within.bits extra)) ?_
        intro more
        refine Bounded.bind (.of_within hd.decode) ?_
        intro dsym
        split
        · exact Bounded.fail _
        rename_i hs'
        have hs3 : dsym < distBase.length := Nat.not_le.mp hs'
        have hs4 : dsym < distExtra.length := hs3
        refine Bounded.lift (at_back hs3) ?_
        intro base' _
        refine Bounded.lift (at_back hs4) ?_
        intro extra' _
        refine Bounded.bind (.of_within (Within.bits extra')) ?_
        intro more'
        split
        · exact Bounded.fail _
        rename_i hdist
        refine Bounded.lift (copyLoop_back (by omega)) ?_
        intro out' _
        exact ih _

theorem storedBlock_bounded (k : Nat) (out : List Byte) : Bounded k (storedBlock out) := by
  intro br hok hmax _
  have hpos := hok.pos
  have hlen := hok.length
  have h1 : usize (br.pos + 4) = .ok (br.pos + 4) := usize_ok (by omega)
  rw [storedBlock_eq, h1, Outcome.ok_bind]
  by_cases h4 : br.data.length < br.pos + 4
  · rw [if_pos h4]
    trivial
  · rw [if_neg h4, at_ok (show br.pos < br.data.length by omega), Outcome.ok_bind,
      at_ok (show br.pos + 1 < br.data.length by omega), Outcome.ok_bind]
    generalize hn : br.data[br.pos].toNat ||| br.data[br.pos + 1].toNat <<< 8 = n
    have hlt : n < 2 ^ 16 := by
      rw [← hn, Nat.shiftLeft_eq]
      refine Nat.or_lt_two_pow (lt_trans br.data[br.pos].toNat_lt (by decide)) ?_
      have := br.data[br.pos + 1].toNat_lt
      omega
    dsimp only
    rw [usize_ok (by omega), Outcome.ok_bind]
    by_cases hn' : br.data.length < br.pos + 4 + n
    · rw [if_pos hn']
      trivial
    · rw [if_neg hn']
      refine ⟨⟨Nat.not_lt.mp hn', Nat.zero_lt_succ 7⟩, rfl, ?_⟩
      have hs : (bitsOf (br.data.drop (br.pos + 4 + n))).length ≤ br.stream.length := by
        rw [length_bitsOf, List.length_drop]
        omega
      exact hs

theorem blockOf_bounded (rounds btype : Nat) (out : List Byte) :
    Bounded rounds (blockOf rounds btype out) := by
  rw [blockOf]
  split
  · exact storedBlock_bounded _ _
  split
  · obtain ⟨hl, hd, hl1, hd1, hc⟩ := fixed_codes
    have hlit : Built hl := ⟨_, hc.litTable, hc.litLength⟩
    have hdist : Built hd := ⟨_, hc.distTable, hc.distLength⟩
    rw [hl1, hd1]
    exact inflateBlock_bounded hlit hdist _ _
  split
  · show Bounded (rounds + 0) _
    refine Bounded.read readDynamic_within ?_
    rintro ⟨lit, dist⟩ ⟨hl, hd⟩
    exact inflateBlock_bounded hl hd _ _
  · exact Bounded.fail _

theorem inflateLoop_bounded {rounds fuel : Nat} (hf : fuel ≤ rounds) (out : List Byte) :
    Bounded fuel (inflateLoop rounds fuel out) := by
  induction fuel generalizing out with
  | zero =>
      intro br _ _ h
      omega
  | succ f ih =>
      rw [inflateLoop]
      refine Bounded.read Within.bit ?_
      intro bfinal _
      refine Bounded.bind (.of_within (Within.bits 2)) ?_
      intro btype
      refine Bounded.bind ((blockOf_bounded rounds btype out).mono (by omega)) ?_
      intro out'
      split
      · exact Bounded.pure _
      · exact ih (by omega) _

/-- `inflate` comes back on any data. -/
theorem inflate_back {data : List Byte} (hmax : data.length < 2 ^ 63) :
    Back (fun _ => True) (inflate data) := by
  rw [inflate]
  refine (inflateLoop_bounded (le_refl _) [] _ (BitReader.new_ok data) hmax ?_).bind ?_
  · rw [BitReader.new_stream, length_bitsOf]
    exact Nat.lt_succ_self _
  · intro r _
    trivial

/-! ## Chunks -/

theorem range_back {v : List Byte} {a b : Nat} (h : a ≤ b ∧ b ≤ v.length) :
    Back (fun w => w.length = b - a) (range! v a b) := by
  refine .of_ok (if_pos h) ?_
  rw [List.length_take, List.length_drop]
  omega

theorem be32_back {b : List Byte} (h : b.length = 4) : Back (· < 2 ^ 32) (be32 b) := by
  rw [be32, at_ok (show 0 < b.length by omega), Outcome.ok_bind,
    at_ok (show 1 < b.length by omega), Outcome.ok_bind, at_ok (show 2 < b.length by omega),
    Outcome.ok_bind, at_ok (show 3 < b.length by omega), Outcome.ok_bind]
  have h0 := b[0].toNat_lt
  have h1 := b[1].toNat_lt
  have h2 := b[2].toNat_lt
  have h3 := b[3].toNat_lt
  show _ < 2 ^ 32
  omega

/-- Every entry of a palette has three bytes. -/
def Triples (palette : List (List Byte)) : Prop := ∀ e ∈ palette, e.length = 3

theorem triples_length (data : List Byte) : Triples (triples data) := by
  induction data using triples.induct with
  | case1 r g b rest ih =>
      intro e he
      rw [triples] at he
      rcases List.mem_cons.mp he with rfl | he
      · rfl
      · exact ih e he
  | case2 data h =>
      intro e he
      rw [triples] at he
      · cases he
      · exact h

/-- What holds of the loop's variables at `pos`: the palette's entries have
three bytes, and the image data comes from before. -/
structure Walked (pos : Nat) (s : Chunks) : Prop where
  palette : Triples s.palette
  idat : s.idat.length ≤ pos

theorem chunk_back {s : Chunks} {ctype data : List Byte} {len pos : Nat} (hs : Walked pos s)
    (h : data.length = len) :
    Back (fun r => Walked (pos + 8 + len + 4) r.1) (chunk s ctype len data) := by
  have hs' : Walked (pos + 8 + len + 4) s := ⟨hs.palette, le_trans hs.idat (by omega)⟩
  have hlen := hs.idat
  rw [chunk]
  split
  · rw [ihdr]
    split
    · trivial
    · have h13 : 13 ≤ data.length := by omega
      refine Back.bind (P := fun s : Chunks => Walked (pos + 8 + len + 4) s) ?_
        fun s' (h' : Walked _ s') => h'
      refine (range_back (show 0 ≤ 4 ∧ 4 ≤ data.length by omega)).bind fun w hw => ?_
      refine (be32_back hw).bind fun width _ => ?_
      refine (range_back (show 4 ≤ 8 ∧ 8 ≤ data.length by omega)).bind fun w hw => ?_
      refine (be32_back hw).bind fun height _ => ?_
      refine (at_back (show 8 < data.length by omega)).bind fun depth _ => ?_
      refine (at_back (show 9 < data.length by omega)).bind fun colour _ => ?_
      exact (at_back (show 12 < data.length by omega)).bind fun _ _ => ⟨hs'.palette, hs'.idat⟩
  · split
    · exact ⟨triples_length data, hs'.idat⟩
    split
    · exact ⟨hs'.palette, hs'.idat⟩
    split
    · refine ⟨hs'.palette, ?_⟩
      show (s.idat ++ data).length ≤ _
      rw [List.length_append]
      omega
    split <;> exact hs'

/-- The chunk loop comes back: each round moves on by at least twelve bytes. -/
theorem walk_back {bytes : List Byte} (hmax : bytes.length < 2 ^ 63) {fuel pos : Nat}
    (hpos : pos ≤ bytes.length) (hf : bytes.length < pos + fuel) {s : Chunks}
    (hs : Walked pos s) : Back (Walked bytes.length) (walk bytes fuel pos s) := by
  induction fuel generalizing pos s with
  | zero => omega
  | succ f ih =>
      rw [walk, usize_ok (by omega), Outcome.ok_bind]
      split
      · trivial
      rename_i h8
      refine (range_back (show pos ≤ pos + 4 ∧ pos + 4 ≤ bytes.length by omega)).bind ?_
      intro four h4
      refine (be32_back (by omega)).bind ?_
      intro len hlen
      refine (range_back (show pos + 4 ≤ pos + 8 ∧ pos + 8 ≤ bytes.length by omega)).bind ?_
      intro ctype _
      rw [usize_ok (by omega), Outcome.ok_bind]
      split
      · trivial
      rename_i hpast
      refine (range_back (show pos + 8 ≤ pos + 8 + len ∧ pos + 8 + len ≤ bytes.length by
        omega)).bind ?_
      intro data hdata
      refine (chunk_back hs (by omega)).bind ?_
      rintro ⟨s', last⟩ hs'
      cases last with
      | true => exact ⟨hs'.palette, le_trans hs'.idat (by omega)⟩
      | false => exact ih (by omega) (by omega) hs'

/-! ## Filters -/

theorem unfiltered_cases (filter : Byte) (rb a b c : Int) :
    (filter.toNat ≤ 4 ∧ ∃ v, unfiltered filter rb a b c = .ok v) ∨
      (4 < filter.toNat ∧ unfiltered filter rb a b c = .err .unsupported) := by
  rw [unfiltered]
  by_cases h0 : filter = 0
  · subst h0
    exact .inl ⟨by decide, rb, rfl⟩
  by_cases h1 : filter = 1
  · subst h1
    exact .inl ⟨by decide, rb + a, rfl⟩
  by_cases h2 : filter = 2
  · subst h2
    exact .inl ⟨by decide, rb + b, rfl⟩
  by_cases h3 : filter = 3
  · subst h3
    exact .inl ⟨by decide, rb + (a + b) / 2, rfl⟩
  by_cases h4 : filter = 4
  · subst h4
    exact .inl ⟨by decide, rb + paeth a b c, rfl⟩
  · right
    rw [if_neg h0, if_neg h1, if_neg h2, if_neg h3, if_neg h4]
    refine ⟨?_, rfl⟩
    rw [← UInt8.toNat_inj] at h0 h1 h2 h3 h4
    simp at h0 h1 h2 h3 h4
    omega

theorem pixelIf_back (c : Prop) [Decidable c] {buf : List Byte} {stride : Nat} (y x back : Nat)
    (hmax : buf.length < 2 ^ 64) (h : c → y * stride + x < buf.length) :
    ∃ v, pixelIf c buf stride y x back = .ok v := by
  rw [pixelIf]
  split
  · rename_i hc
    have := h hc
    rw [pixelAt, usize_ok (by omega), Outcome.ok_bind, usize_ok (by omega), Outcome.ok_bind,
      at_ok (by omega)]
    exact ⟨_, rfl⟩
  · exact ⟨0, rfl⟩

/-- The bytes the filters look back to are there. -/
theorem unfilterRow_succ {bpp stride y : Nat} {filter : Byte} {row img : List Byte}
    (hrow : row.length = stride) (himg : y * stride + stride ≤ img.length)
    (hmax : img.length < 2 ^ 64) {n x : Nat} (hx : x < stride) :
    ∃ rb a b c, unfilterRow bpp stride y filter row (n + 1) x img =
      (unfiltered filter rb a b c >>= fun v =>
        unfilterRow bpp stride y filter row n (x + 1)
          (img.set (y * stride + x) (UInt8.ofNat (v % 256).toNat))) := by
  have hup : 0 < y → (y - 1) * stride + stride = y * stride := by
    intro h0
    rw [← Nat.succ_mul, Nat.succ_eq_add_one, Nat.sub_add_cancel h0]
  obtain ⟨a, ha⟩ := pixelIf_back (bpp ≤ x) y x bpp hmax (show _ → y * stride + x < _ by omega)
  obtain ⟨b, hb⟩ := pixelIf_back (0 < y) (y - 1) x 0 hmax (show _ → _ * stride + x < _ by omega)
  obtain ⟨c, hc⟩ := pixelIf_back (0 < y ∧ bpp ≤ x) (y - 1) x bpp hmax
    (show _ → _ * stride + x < _ by omega)
  have hxr : x < row.length := by omega
  refine ⟨row[x].toNat, a.toNat, b.toNat, c.toNat, ?_⟩
  rw [unfilterRow, at_ok hxr, Outcome.ok_bind, ha, Outcome.ok_bind, hb, Outcome.ok_bind, hc,
    Outcome.ok_bind]
  refine Outcome.bind_eq rfl ?_
  intro v
  rw [usize_ok (by omega), Outcome.ok_bind, usize_ok (by omega), Outcome.ok_bind,
    set_ok (by omega), Outcome.ok_bind]

/-- A scanline with a filter the decoder knows. -/
theorem unfilterRow_known {bpp stride y : Nat} {filter : Byte} {row img : List Byte}
    (hrow : row.length = stride) (himg : y * stride + stride ≤ img.length)
    (hmax : img.length < 2 ^ 64) (hf : filter.toNat ≤ 4) {n x : Nat} (hx : x + n = stride) :
    ∃ img', unfilterRow bpp stride y filter row n x img = .ok img' ∧
      img'.length = img.length := by
  induction n generalizing x img with
  | zero => exact ⟨img, rfl, rfl⟩
  | succ n ih =>
      obtain ⟨rb, a, b, c, h⟩ := @unfilterRow_succ bpp stride y filter row img hrow himg hmax n x
        (by omega)
      rcases unfiltered_cases filter rb a b c with ⟨_, v, hv⟩ | ⟨hf', _⟩
      · obtain ⟨img', h1, h2⟩ := @ih (img.set (y * stride + x) (UInt8.ofNat (v % 256).toNat))
          (by rw [List.length_set]; exact himg) (by rw [List.length_set]; exact hmax) (x + 1)
          (by omega)
        refine ⟨img', ?_, by rw [h2, List.length_set]⟩
        rw [h, hv, Outcome.ok_bind, h1]
      · omega

/-- A scanline with another. -/
theorem unfilterRow_unknown {bpp stride y : Nat} {filter : Byte} {row img : List Byte}
    (hrow : row.length = stride) (himg : y * stride + stride ≤ img.length)
    (hmax : img.length < 2 ^ 64) (hf : 4 < filter.toNat) (hs : 1 ≤ stride) :
    unfilterRow bpp stride y filter row stride 0 img = .err .unsupported := by
  obtain ⟨n, rfl⟩ := Nat.exists_eq_add_of_le' hs
  obtain ⟨rb, a, b, c, h⟩ := @unfilterRow_succ bpp _ y filter row img hrow himg hmax n 0 hs
  rcases unfiltered_cases filter rb a b c with ⟨hf', _⟩ | ⟨_, hv⟩
  · omega
  · rw [h, hv, Outcome.err_bind]

/-- The filter of scanline `y`. -/
def filterOf (raw : List Byte) (stride y : Nat) : Byte := raw.getD (y * (stride + 1)) 0

/-- All scanlines from `y` on: the first unknown filter is an error. -/
theorem unfilter_cases {raw img : List Byte} {bpp stride h : Nat} (hs : 1 ≤ stride)
    (hraw : (stride + 1) * h ≤ raw.length) (hsize : (stride + 1) * h < 2 ^ 64)
    (himg : img.length = stride * h) {n y : Nat} (hy : y + n = h) :
    ((∀ k, y ≤ k → k < h → (filterOf raw stride k).toNat ≤ 4) ∧
        ∃ img', unfilter raw bpp stride n y img = .ok img' ∧ img'.length = img.length) ∨
      ((∃ k, y ≤ k ∧ k < h ∧ 4 < (filterOf raw stride k).toNat) ∧
        unfilter raw bpp stride n y img = .err .unsupported) := by
  have hmul : (stride + 1) * h = stride * h + h := by rw [Nat.add_mul, Nat.one_mul]
  induction n generalizing y img with
  | zero => exact .inl ⟨fun k h1 h2 => by omega, img, rfl, rfl⟩
  | succ n ih =>
      have hle : (y + 1) * (stride + 1) ≤ h * (stride + 1) := Nat.mul_le_mul_right _ (by omega)
      have hle' : (y + 1) * stride ≤ h * stride := Nat.mul_le_mul_right _ (by omega)
      rw [Nat.mul_comm h, Nat.succ_mul] at hle hle'
      have hlt : y * (stride + 1) < raw.length := by omega
      have hget : raw[y * (stride + 1)] = filterOf raw stride y := by
        rw [filterOf, List.getD_eq_getElem?_getD, List.getElem?_eq_getElem hlt, Option.getD_some]
      have hrow : range! raw (y * (stride + 1) + 1) (y * (stride + 1) + 1 + stride) =
          .ok ((raw.drop (y * (stride + 1) + 1)).take stride) := by
        rw [range!, if_pos (by omega), Nat.add_sub_cancel_left]
      have hlen : ((raw.drop (y * (stride + 1) + 1)).take stride).length = stride := by
        rw [List.length_take, List.length_drop]
        omega
      have hstep : unfilter raw bpp stride (n + 1) y img =
          (unfilterRow bpp stride y (filterOf raw stride y)
            ((raw.drop (y * (stride + 1) + 1)).take stride) stride 0 img >>= fun img =>
              unfilter raw bpp stride n (y + 1) img) := by
        rw [unfilter, usize_ok (by omega), Outcome.ok_bind, at_ok hlt, Outcome.ok_bind, hget,
          usize_ok (by omega), Outcome.ok_bind, usize_ok (by omega), Outcome.ok_bind, hrow,
          Outcome.ok_bind]
      rw [hstep]
      rcases Nat.lt_or_ge 4 (filterOf raw stride y).toNat with hf | hf
      · refine .inr ⟨⟨y, le_refl y, by omega, hf⟩, ?_⟩
        rw [unfilterRow_unknown hlen (by omega) (by omega) hf hs, Outcome.err_bind]
      · obtain ⟨img1, h1, h2⟩ :=
          @unfilterRow_known bpp stride y _ _ img hlen (by omega) (by omega) hf
          stride 0 (Nat.zero_add stride)
        rw [h1, Outcome.ok_bind]
        rcases ih (h2.trans himg) (show y + 1 + n = h by omega) with
          ⟨hall, img2, h3, h4⟩ | ⟨⟨k, hk1, hk2, hk3⟩, h3⟩
        · refine .inl ⟨?_, img2, h3, h4.trans h2⟩
          intro k hk1 hk2
          rcases Nat.eq_or_lt_of_le hk1 with rfl | hk
          · exact hf
          · exact hall k hk hk2
        · exact .inr ⟨⟨k, by omega, hk2, hk3⟩, h3⟩

/-! ## Expansion -/

theorem sample_back {img : List Byte} {i k j : Nat} (hmax : img.length < 2 ^ 64)
    (h : i * k + j < img.length) : ∃ v, sample img i k j = .ok v := by
  rw [sample, usize_ok (by omega), Outcome.ok_bind, usize_ok (by omega), Outcome.ok_bind, at_ok h]
  exact ⟨_, rfl⟩

theorem expandPixel_back {ct : Byte} {ch i : Nat} {palette : List (List Byte)}
    {trns img : List Byte}
    (hp : Triples palette) (hc : channels ct = some ch) (hmax : img.length < 2 ^ 64)
    (hi : i * ch + ch ≤ img.length) :
    ∃ px, expandPixel ct palette trns img i = .ok px ∧ px.length = 4 := by
  rw [channels] at hc
  rw [expandPixel]
  by_cases h0 : ct = 0
  · rw [if_pos h0] at hc ⊢
    cases hc
    rw [at_ok (by omega)]
    exact ⟨_, rfl, rfl⟩
  by_cases h2 : ct = 2
  · rw [if_neg h0, if_pos h2] at hc ⊢
    cases hc
    obtain ⟨r, hr⟩ := sample_back hmax (show i * 3 + 0 < img.length by omega)
    obtain ⟨g, hg⟩ := sample_back hmax (show i * 3 + 1 < img.length by omega)
    obtain ⟨b, hb⟩ := sample_back hmax (show i * 3 + 2 < img.length by omega)
    rw [hr, hg, hb]
    exact ⟨_, rfl, rfl⟩
  by_cases h3 : ct = 3
  · rw [if_neg h0, if_neg h2, if_pos h3] at hc ⊢
    cases hc
    have hlt : i < img.length := by omega
    rw [at_ok hlt, Outcome.ok_bind]
    dsimp only
    generalize hn : img[i].toNat = n
    have hlen : ((palette[n]?).getD [0, 0, 0]).length = 3 := by
      cases he : palette[n]? with
      | none => rfl
      | some e => exact hp e (List.mem_of_getElem? he)
    rw [at_ok (by omega), Outcome.ok_bind, at_ok (by omega), Outcome.ok_bind, at_ok (by omega),
      Outcome.ok_bind]
    exact ⟨_, rfl, rfl⟩
  by_cases h4 : ct = 4
  · rw [if_neg h0, if_neg h2, if_neg h3, if_pos h4] at hc ⊢
    cases hc
    obtain ⟨v, hv⟩ := sample_back hmax (show i * 2 + 0 < img.length by omega)
    obtain ⟨a, ha⟩ := sample_back hmax (show i * 2 + 1 < img.length by omega)
    rw [hv, ha]
    exact ⟨_, rfl, rfl⟩
  by_cases h6 : ct = 6
  · rw [if_neg h0, if_neg h2, if_neg h3, if_neg h4, if_pos h6] at hc ⊢
    cases hc
    obtain ⟨r, hr⟩ := sample_back hmax (show i * 4 + 0 < img.length by omega)
    obtain ⟨g, hg⟩ := sample_back hmax (show i * 4 + 1 < img.length by omega)
    obtain ⟨b, hb⟩ := sample_back hmax (show i * 4 + 2 < img.length by omega)
    obtain ⟨a, ha⟩ := sample_back hmax (show i * 4 + 3 < img.length by omega)
    rw [hr, hg, hb, ha]
    exact ⟨_, rfl, rfl⟩
  · rw [if_neg h0, if_neg h2, if_neg h3, if_neg h4, if_neg h6] at hc
    cases hc

theorem expand_back {ct : Byte} {ch pixels : Nat} {palette : List (List Byte)}
    {trns img : List Byte} (hp : Triples palette) (hc : channels ct = some ch)
    (hmax : img.length < 2 ^ 64) (himg : pixels * ch ≤ img.length) (h4 : pixels * 4 < 2 ^ 63)
    {n i : Nat} {out : List Byte} (hi : i + n = pixels) (hout : out.length = i * 4) :
    ∃ rgba, expand ct palette trns img n i (padded 0 (pixels * 4) out) = .ok rgba := by
  induction n generalizing i out with
  | zero => exact ⟨_, rfl⟩
  | succ n ih =>
      have hle : (i + 1) * ch ≤ pixels * ch := Nat.mul_le_mul_right _ (by omega)
      rw [Nat.succ_mul] at hle
      obtain ⟨px, h1, h2⟩ := @expandPixel_back ct ch i palette trns img hp hc hmax (by omega)
      rw [expand, h1, Outcome.ok_bind, putPixel_ok (by omega) (by omega) h4, Outcome.ok_bind]
      exact ih (by omega) (by rw [List.length_append]; omega)

/-! ## The whole file -/

/-- What the header gets through before its sizes are used. -/
structure Accepted (s : Chunks) (ch : Nat) : Prop where
  size : ¬(s.width = 0 ∨ s.height = 0)
  kind : ¬(s.bitDepth ≠ 8 ∨ s.interlace ≠ 0)
  channels : channels s.colorType = some ch
  idat : ¬s.idat.length < 2
  pixels : s.width * s.height < 2 ^ 64
  stride : s.width * ch < 2 ^ 64

/-- The sizes that nothing checks: the length of the filtered scanlines is more
than a `usize`; or they are all there, and the samples or, behind filters that
are all known, the pixels are more than a vector can have. -/
def TooLarge (s : Chunks) (ch : Nat) (raw : List Byte) : Prop :=
  2 ^ 64 ≤ (s.width * ch + 1) * s.height ∨
    (s.width * ch + 1) * s.height ≤ raw.length ∧
      (2 ^ 63 ≤ s.width * ch * s.height ∨
        (∀ y < s.height, (filterOf raw (s.width * ch) y).toNat ≤ 4) ∧
          2 ^ 63 ≤ s.width * s.height * 4)

/-- The file gets as far as sizes that are too large. -/
def Overflows (s : Chunks) : Prop :=
  ∃ ch raw, Accepted s ch ∧ inflate (s.idat.drop 2) = .ok raw ∧ TooLarge s ch raw

theorem usize_cases (n : Nat) :
    (n < 2 ^ 64 ∧ usize n = .ok n) ∨ (2 ^ 64 ≤ n ∧ usize n = .panic) := by
  rcases Nat.lt_or_ge n (2 ^ 64) with h | h
  · exact .inl ⟨h, if_pos h⟩
  · exact .inr ⟨h, if_neg (by omega)⟩

theorem zeroed_cases (n : Nat) :
    (n < 2 ^ 63 ∧ zeroed n = .ok (List.replicate n 0)) ∨ (2 ^ 63 ≤ n ∧ zeroed n = .panic) := by
  rcases Nat.lt_or_ge n (2 ^ 63) with h | h
  · exact .inl ⟨h, if_pos h⟩
  · exact .inr ⟨h, if_neg (by omega)⟩

/-- `decode` from the sizes on. -/
def sized (s : Chunks) (ch : Nat) (raw : List Byte) : Res Image := do
  let line ← usize (s.width * ch + 1)
  let need ← usize (line * s.height)
  if raw.length < need then .err .inflate else do
    let size ← usize (s.width * ch * s.height)
    let img ← zeroed size
    let img ← unfilter raw ch (s.width * ch) s.height 0 img
    let size ← usize (s.width * s.height * 4)
    let rgba ← zeroed size
    let rgba ← expand s.colorType s.palette s.trns img (s.width * s.height) 0 rgba
    .ok ⟨s.width, s.height, rgba⟩

theorem one_le_channels {ct : Byte} {ch : Nat} (h : channels ct = some ch) : 1 ≤ ch ∧ ch ≤ 4 := by
  rw [channels] at h
  split_ifs at h <;> cases h <;> decide

/-- The sizes are the only way not to come back. -/
theorem sized_returned {s : Chunks} {ch : Nat} (ha : Accepted s ch) (hp : Triples s.palette)
    (raw : List Byte) : (sized s ch raw).returned ↔ ¬TooLarge s ch raw := by
  obtain ⟨hsize, -, hch, -, hpix, hstride⟩ := ha
  have hch1 := (one_le_channels hch).1
  have hw : 1 ≤ s.width := by omega
  have hh : 1 ≤ s.height := by omega
  have hs1 : 1 ≤ s.width * ch := Nat.mul_pos hw hch1
  have hle : s.width * ch + 1 ≤ (s.width * ch + 1) * s.height := Nat.le_mul_of_pos_right _ hh
  have hmul : (s.width * ch + 1) * s.height = s.width * ch * s.height + s.height := by
    rw [Nat.add_mul, Nat.one_mul]
  rw [sized]
  rcases usize_cases ((s.width * ch + 1) * s.height) with ⟨hn, hneed⟩ | ⟨hn, hneed⟩
  · rw [usize_ok (by omega), Outcome.ok_bind, hneed, Outcome.ok_bind]
    by_cases hraw : raw.length < (s.width * ch + 1) * s.height
    · rw [if_pos hraw]
      refine iff_of_true trivial ?_
      rintro (h | ⟨h, -⟩) <;> omega
    rw [if_neg hraw, usize_ok (by omega), Outcome.ok_bind]
    rcases zeroed_cases (s.width * ch * s.height) with ⟨h63, hz⟩ | ⟨h63, hz⟩
    · rw [hz, Outcome.ok_bind]
      rcases @unfilter_cases raw _ ch _ _ hs1 (Nat.not_lt.mp hraw) hn
        (List.length_replicate (a := 0)) _ _ (Nat.zero_add s.height) with
          ⟨hall, img, himg, hlen⟩ | ⟨⟨y, -, hy, hf⟩, herr⟩
      · rw [himg, Outcome.ok_bind]
        rw [List.length_replicate] at hlen
        rcases Nat.lt_or_ge (s.width * s.height * 4) (2 ^ 63) with h4 | h4
        · have himg' : s.width * s.height * ch ≤ img.length := by
            rw [hlen, Nat.mul_right_comm]
          obtain ⟨rgba, hr⟩ := @expand_back s.colorType ch (s.width * s.height) s.palette s.trns img
            hp hch (by omega) himg' h4 (s.width * s.height) 0 [] (Nat.zero_add _) rfl
          rw [padded, List.nil_append, List.length_nil, Nat.sub_zero] at hr
          rw [usize_ok (by omega), Outcome.ok_bind, zeroed, if_pos h4, Outcome.ok_bind, hr]
          refine iff_of_true trivial ?_
          rintro (h | ⟨-, h | ⟨-, h⟩⟩) <;> omega
        · refine iff_of_false ?_ ?_
          · rcases usize_cases (s.width * s.height * 4) with ⟨-, hu⟩ | ⟨-, hu⟩
            · rw [hu, Outcome.ok_bind, zeroed, if_neg (by omega)]
              exact id
            · rw [hu]
              exact id
          · exact fun h => h (.inr ⟨Nat.not_lt.mp hraw, .inr ⟨fun y hy =>
              hall y (Nat.zero_le y) hy, h4⟩⟩)
      · rw [herr]
        refine iff_of_true trivial ?_
        rintro (h | ⟨-, h | ⟨h, -⟩⟩)
        · omega
        · omega
        · have := h y hy
          omega
    · rw [hz]
      exact iff_of_false id fun h => h (.inr ⟨Nat.not_lt.mp hraw, .inl h63⟩)
  · refine iff_of_false ?_ fun h => h (.inl hn)
    rcases usize_cases (s.width * ch + 1) with ⟨-, hu⟩ | ⟨-, hu⟩
    · rw [hu, Outcome.ok_bind, hneed]
      exact id
    · rw [hu]
      exact id

theorem checkedMul_cases (a b : Nat) :
    (a * b < 2 ^ 64 ∧ checkedMul a b = some (a * b)) ∨
      (2 ^ 64 ≤ a * b ∧ checkedMul a b = none) := by
  rcases Nat.lt_or_ge (a * b) (2 ^ 64) with h | h
  · exact .inl ⟨h, if_pos h⟩
  · exact .inr ⟨h, if_neg (by omega)⟩

/-- `decode` behind the chunk loop. -/
theorem picture_returned {s : Chunks} (hp : Triples s.palette) (hmax : s.idat.length < 2 ^ 63) :
    (picture s).returned ↔ ¬Overflows s := by
  rw [picture]
  by_cases h1 : s.width = 0 ∨ s.height = 0
  · rw [if_pos h1]
    refine iff_of_true trivial ?_
    rintro ⟨_, _, ha, _⟩
    exact ha.size h1
  rw [if_neg h1]
  by_cases h2 : s.bitDepth ≠ 8 ∨ s.interlace ≠ 0
  · rw [if_pos h2]
    refine iff_of_true trivial ?_
    rintro ⟨_, _, ha, _⟩
    exact ha.kind h2
  rw [if_neg h2]
  cases hc : channels s.colorType with
  | none =>
      refine iff_of_true trivial ?_
      rintro ⟨ch, _, ha, _⟩
      rw [ha.channels] at hc
      cases hc
  | some ch =>
      rw [Outcome.okOr_some, Outcome.ok_bind]
      have huniq : ∀ ch', Accepted s ch' → ch' = ch := by
        intro ch' ha
        exact Option.some.inj (ha.channels.symm.trans hc)
      by_cases h3 : s.idat.length < 2
      · rw [if_pos h3]
        refine iff_of_true trivial ?_
        rintro ⟨_, _, ha, _⟩
        exact ha.idat h3
      rw [if_neg h3]
      rcases checkedMul_cases s.width s.height with ⟨h4, hm⟩ | ⟨h4, hm⟩
      · rw [hm, Outcome.okOr_some, Outcome.ok_bind]
        rcases checkedMul_cases s.width ch with ⟨h5, hm⟩ | ⟨h5, hm⟩
        · rw [hm, Outcome.okOr_some, Outcome.ok_bind]
          have ha : Accepted s ch := ⟨h1, h2, hc, h3, h4, h5⟩
          have hinf := inflate_back (show (s.idat.drop 2).length < 2 ^ 63 by
            rw [List.length_drop]
            omega)
          cases hi : inflate (s.idat.drop 2) with
          | ok raw =>
              rw [Outcome.ok_bind]
              refine (sized_returned ha hp raw).trans (not_congr ?_)
              constructor
              · exact fun h => ⟨ch, raw, ha, hi, h⟩
              · rintro ⟨ch', raw', ha', hi', h⟩
                rw [huniq ch' ha'] at h
                rw [hi] at hi'
                cases hi'
                exact h
          | err e =>
              refine iff_of_true trivial ?_
              rintro ⟨_, _, _, hi', _⟩
              rw [hi] at hi'
              cases hi'
          | panic =>
              rw [hi] at hinf
              exact hinf.elim
          | diverge =>
              rw [hi] at hinf
              exact hinf.elim
        · rw [hm]
          refine iff_of_true trivial ?_
          rintro ⟨ch', _, ha, _⟩
          have := ha.stride
          rw [huniq ch' ha] at this
          omega
      · rw [hm]
        refine iff_of_true trivial ?_
        rintro ⟨_, _, ha, _⟩
        have := ha.pixels
        omega

/-- `decode` comes back exactly on the files that do not get as far as sizes
that are too large. -/
theorem decode_returns_iff (bytes : List Byte) (hmax : bytes.length < 2 ^ 63) :
    (decode bytes).returned ↔
      ¬(bytes.take 8 = sig ∧
        ∃ s, walk bytes (bytes.length + 1) 8 .empty = .ok s ∧ Overflows s) := by
  rw [decode]
  by_cases h : bytes.length < 8 ∨ bytes.take 8 ≠ sig
  · rw [if_pos h]
    refine iff_of_true trivial ?_
    rintro ⟨hsig, -⟩
    rcases h with h | h
    · have := congrArg List.length hsig
      rw [List.length_take, show sig.length = 8 from rfl] at this
      omega
    · exact h hsig
  · obtain ⟨h8, hsig⟩ := not_or.mp h
    have hempty : Walked 8 Chunks.empty := ⟨fun _ he => absurd he List.not_mem_nil, Nat.zero_le _⟩
    have hw := walk_back hmax (show 8 ≤ bytes.length by omega)
      (show bytes.length < 8 + (bytes.length + 1) by omega) hempty
    rw [if_neg h]
    cases hs : walk bytes (bytes.length + 1) 8 .empty with
    | ok s =>
        rw [hs] at hw
        have hidat := hw.idat
        rw [Outcome.ok_bind, picture_returned hw.palette (by omega)]
        refine not_congr ⟨fun ho => ⟨not_not.mp hsig, s, rfl, ho⟩, ?_⟩
        rintro ⟨-, s', hs', ho⟩
        cases hs'
        exact ho
    | err e =>
        refine iff_of_true trivial ?_
        rintro ⟨-, s, hs', -⟩
        cases hs'
    | panic =>
        rw [hs] at hw
        exact hw.elim
    | diverge =>
        rw [hs] at hw
        exact hw.elim

/-- A header of 4294967295 by 4294967295 pixels of RGBA, and an empty stream. -/
def hugeHeader : List Byte :=
  sig ++ [0, 0, 0, 13, 73, 72, 68, 82, 255, 255, 255, 255, 255, 255, 255, 255, 8, 6, 0, 0, 0, 210,
    246, 46, 62, 0, 0, 0, 11, 73, 68, 65, 84, 120, 1, 1, 0, 0, 255, 255, 0, 0, 0, 1, 137, 214,
    174, 95, 0, 0, 0, 0, 73, 69, 78, 68, 174, 66, 96, 130]

theorem hugeHeader_length : hugeHeader.length < 2 ^ 63 := by decide +kernel

theorem hugeHeader_panics : decode hugeHeader = .panic := by decide +kernel

theorem panic_not_returned {α : Type} {r : Res α} (h : r = .panic) : ¬r.returned := by
  rw [h]
  exact id

theorem decode_hugeHeader :
    ¬∀ bytes : List Byte, bytes.length < 2 ^ 63 → (decode bytes).returned := by
  intro h
  obtain ⟨bytes, hlen, hp⟩ : ∃ bytes, bytes.length < 2 ^ 63 ∧ decode bytes = .panic :=
    ⟨hugeHeader, hugeHeader_length, hugeHeader_panics⟩
  exact panic_not_returned hp (h bytes hlen)

/-- The huge header is a size that is too large; a file of four bytes is none. -/
theorem decode_returns_huge_short :
    (hugeHeader.take 8 = sig ∧
      ∃ s, walk hugeHeader (hugeHeader.length + 1) 8 .empty = .ok s ∧ Overflows s) ∧
      (decode [1, 2, 3, 4]).returned := by
  constructor
  · by_contra h
    apply panic_not_returned hugeHeader_panics
    rw [decode_returns_iff _ hugeHeader_length]
    exact h
  · exact (decode_returns_iff [1, 2, 3, 4] (by decide)).mpr fun h => absurd h.1 (by decide)

end TablesOS.Png
