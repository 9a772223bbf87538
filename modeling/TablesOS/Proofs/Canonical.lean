import TablesOS.Proofs.Reading

/-!
# The Huffman tables are the canonical code

`build` counts the lengths, adds the counts up, and puts each symbol at the
place its codeword has among all of them; `decode` walks down the lengths with
the first value of each. Whatever the lengths, the value read never falls below
the first value of its length, so neither runs out of its tables. Where there
are enough codewords, what is read is the codeword of the symbol answered.
-/

namespace TablesOS.Png

open PrefixCode

/-! ## Arrays as functions -/

/-- An array of 16. -/
def table (f : Nat → Nat) : List Nat := (List.range 16).map f

theorem table_congr {f g : Nat → Nat} (h : ∀ i < 16, f i = g i) : table f = table g :=
  List.map_congr_left fun i hi => h i (List.mem_range.mp hi)

theorem at_table {f : Nat → Nat} {i : Nat} (h : i < 16) : at! (table f) i = .ok (f i) := by
  rw [at_ok (by simpa [table] using h)]
  simp [table]

theorem set_table {f : Nat → Nat} {i x : Nat} (h : i < 16) :
    set! (table f) i x = .ok (table (Function.update f i x)) := by
  rw [set!, if_pos (by simpa [table] using h)]
  congr 1
  refine List.ext_getElem (by simp [table]) ?_
  intro k h1 h2
  rw [List.getElem_set]
  by_cases hk : i = k
  · subst hk
    simp [table]
  · simp [table, hk, Ne.symm hk]

theorem u16_ok {n : Nat} (h : n < 2 ^ 16) : u16 n = .ok n := if_pos h

theorem i32_ok {n : Int} (h : -2147483648 ≤ n ∧ n < 2147483648) : i32 n = .ok n := if_pos h

theorem addAt_table {f : Nat → Nat} {i n : Nat} (h : i < 16) (hn : f i + n < 2 ^ 16) :
    Huffman.addAt (table f) i n = .ok (table (Function.update f i (f i + n))) := by
  rw [Huffman.addAt, at_table h, Outcome.ok_bind, u16_ok hn, Outcome.ok_bind, set_table h]

/-! ## Building -/

/-- What `build` makes of the lengths. -/
structure Table (lengths : List Nat) (h : Huffman) : Prop where
  counts : ∀ l < 16, at! h.counts l = .ok (count lengths l)
  symbols : ∀ s, Coded lengths s → h.symbols[slot lengths s]? = some s

namespace Huffman

variable {lengths : List Nat}

theorem countLengths_table {ls : List Nat} {f : Nat → Nat} (hl : ∀ l ∈ ls, l ≤ 15)
    (hf : ∀ l, f l + ls.count l < 2 ^ 16) :
    countLengths ls (table f) = .ok (table fun l => f l + ls.count l) := by
  induction ls generalizing f with
  | nil => rfl
  | cons x xs ih =>
      have hx : x ≤ 15 := hl x List.mem_cons_self
      have h1 : ∀ l, f l + (x :: xs).count l = Function.update f x (f x + 1) l + xs.count l := by
        intro l
        rw [List.count_cons]
        by_cases h : x = l
        · subst h
          rw [Function.update_self, beq_self_eq_true, if_pos rfl]
          omega
        · rw [Function.update_of_ne (Ne.symm h), if_neg (by simpa using h)]
          rfl
      have hsum : f x + 1 < 2 ^ 16 := by
        have := hf x
        rw [List.count_cons_self] at this
        omega
      rw [countLengths, addAt_table (by omega) hsum, Outcome.ok_bind,
        ih (fun l h => hl l (List.mem_cons_of_mem _ h)) fun l => by rw [← h1]; exact hf l]
      exact congrArg _ (table_congr fun l _ => (h1 l).symm)

theorem startOffs_table {n i : Nat} (hn : i + n = 16) (hlen : lengths.length < 2 ^ 16) :
    startOffs (table (count lengths)) (List.range' i n) (offset lengths i)
        (table fun l => if l < i then offset lengths l else 0) =
      .ok (table (offset lengths)) := by
  induction n generalizing i with
  | zero =>
      refine congrArg _ (table_congr fun l h => ?_)
      rw [if_pos (by omega)]
  | succ n ih =>
      have hsum : offset lengths i + count lengths i < 2 ^ 16 := by
        have : offset lengths _ ≤ _ := offset_le (i + 1)
        rw [offset] at this
        omega
      rw [List.range'_succ, startOffs, set_table (by omega), Outcome.ok_bind,
        at_table (by omega), Outcome.ok_bind, u16_ok hsum, Outcome.ok_bind,
        ← ih (show i + 1 + n = 16 by omega)]
      refine congrArg _ (table_congr fun l _ => ?_)
      by_cases h : l = i
      · subst h
        rw [Function.update_self, if_pos (by omega)]
      · have hlt : l < i + 1 ↔ l < i := by omega
        rw [Function.update_of_ne h]
        simp only [hlt]

/-- Where the next symbol of each length goes, with `n` symbols placed. -/
def cursor (lengths : List Nat) (n l : Nat) : Nat :=
  if l = 0 then 0 else offset lengths l + before lengths n l

theorem cursor_succ {n : Nat} (h : n < lengths.length) :
    cursor lengths (n + 1) = if len lengths n = 0 then cursor lengths n else
      Function.update (cursor lengths n) (len lengths n)
        (cursor lengths n (len lengths n) + 1) := by
  funext l
  rw [cursor, before_succ h]
  by_cases h0 : len lengths n = 0
  · rw [if_pos h0, cursor]
    by_cases hl : l = 0
    · rw [if_pos hl, if_pos hl]
    · rw [if_neg hl, if_neg hl, if_neg (by omega), Nat.add_zero]
  · rw [if_neg h0]
    by_cases hl : l = len lengths n
    · subst hl
      rw [Function.update_self, cursor, if_neg h0, if_neg h0, if_pos rfl, Nat.add_assoc]
    · rw [Function.update_of_ne hl, cursor, if_neg (Ne.symm hl), Nat.add_zero]

theorem place_table (hl : ∀ l ∈ lengths, l ≤ 15) (hlen : lengths.length < 2 ^ 16) {n : Nat}
    {syms : List Nat} (hn : n ≤ lengths.length) (hsize : syms.length = lengths.length)
    (hsyms : ∀ s < n, Coded lengths s → syms[PrefixCode.slot lengths s]? = some s) :
    ∃ syms', place (lengths.drop n) n (table (cursor lengths n)) syms = .ok syms' ∧
      ∀ s, Coded lengths s → syms'[PrefixCode.slot lengths s]? = some s := by
  induction k : lengths.length - n generalizing n syms with
  | zero =>
      refine ⟨syms, ?_, fun s hs => hsyms s ?_ hs⟩
      · rw [List.drop_eq_nil_of_le (by omega), place]
      · have := hs.lt
        omega
  | succ k ih =>
      have hlt : n < lengths.length := by omega
      have hmem : len lengths n ≤ 15 := hl _ (len_mem hlt)
      rw [List.drop_eq_getElem_cons hlt, ← len_eq hlt, place]
      by_cases h0 : len lengths n = 0
      · rw [if_pos h0]
        have h1 := ih (n := n + 1) hlt hsize (fun s hs hc => by
          rcases Nat.lt_succ_iff_lt_or_eq.mp hs with h | h
          · exact hsyms s h hc
          · subst h
            exact absurd h0 hc) (by omega)
        rwa [cursor_succ hlt, if_pos h0] at h1
      · have hp : PrefixCode.slot lengths n = cursor lengths n (len lengths n) := by
          rw [cursor, if_neg h0, PrefixCode.slot]
        have hpl : PrefixCode.slot lengths n < lengths.length := slot_lt h0
        rw [if_neg h0, at_table (by omega), Outcome.ok_bind, ← hp, set!,
          if_pos (by omega), Outcome.ok_bind, Nat.mod_eq_of_lt (by omega),
          addAt_table (by omega) (by omega), Outcome.ok_bind]
        have h1 := @ih (n + 1) (syms.set (PrefixCode.slot lengths n) n) hlt
          (by rw [List.length_set, hsize]) (fun s hs hc => by
            rcases Nat.lt_succ_iff_lt_or_eq.mp hs with h | h
            · rw [List.getElem?_set_ne (slot_ne hc h0 h).symm]
              exact hsyms s h hc
            · subst h
              rw [List.getElem?_set_self (by omega)]) (by omega)
        rwa [cursor_succ hlt, if_neg h0] at h1

/-- `build` panics on no lengths that fit, and makes their table. -/
theorem build_ok (hl : ∀ l ∈ lengths, l ≤ 15) (hlen : lengths.length < 2 ^ 16) :
    ∃ h, build lengths = .ok h ∧ Table lengths h := by
  have hzero : List.replicate 16 0 = table fun _ => 0 := rfl
  have hcount : ∀ l, 0 + lengths.count l < 2 ^ 16 := by
    intro l
    have : lengths.count l ≤ lengths.length := List.count_le_length
    omega
  have h1 : table (Function.update (fun l => 0 + lengths.count l) 0 0) =
      table (count lengths) := by
    refine table_congr fun l _ => ?_
    by_cases h : l = 0
    · subst h
      rw [Function.update_self, count, if_pos rfl]
    · rw [Function.update_of_ne h, count, if_neg h, Nat.zero_add]
  have h2 : table (fun _ => 0) = table fun l => if l < 1 then offset lengths l else 0 := by
    refine table_congr fun l _ => ?_
    split
    · rw [show l = 0 by omega]
      rfl
    · rfl
  have h3 := @startOffs_table lengths _ _ (show 1 + 15 = 16 from rfl) hlen
  have h4 : table (offset lengths) = table (cursor lengths 0) := by
    refine table_congr fun l _ => ?_
    rw [cursor, before, List.take_zero, List.count_nil, Nat.add_zero]
    split
    · rw [show l = 0 by assumption]
      rfl
    · rfl
  obtain ⟨syms, h5, h6⟩ := place_table hl hlen (Nat.zero_le _)
    (List.length_replicate (n := lengths.length) (a := 0)) (fun s hs => absurd hs (by omega))
  refine ⟨⟨table (count lengths), syms⟩, ?_, fun l h => at_table h, h6⟩
  rw [build, hzero, countLengths_table hl hcount, Outcome.ok_bind, set_table (by decide),
    Outcome.ok_bind, h1, h2]
  rw [show offset lengths 1 = 0 from rfl] at h3
  rw [h3, Outcome.ok_bind, h4]
  rw [List.drop_zero] at h5
  rw [h5, Outcome.ok_bind]

/-! ## Decoding -/

/-- The next bit of a value read from the top. -/
theorem or_bit (c : Nat) {b : Nat} (hb : b < 2) : 2 * c ||| b = 2 * c + b := by
  have := Nat.two_pow_add_eq_or_of_lt (i := 1) (b := b) (by omega) c
  rw [Nat.pow_one] at this
  exact this.symm

theorem shl1_ok {n : Nat} (h : 2 * n < 2 ^ 31) : shl1 n = ((2 * n : Nat) : Int) := by
  rw [shl1]
  omega

variable {h : Huffman}

/-- One round: `c` is what the bits before this one came to. -/
theorem decodeLoop_round (ht : Table lengths h) (hlen : lengths.length < 2 ^ 16) {j c : Nat}
    (hj : j < 16) (hc : 2 * c + 1 < 2 ^ 15) {n : Nat} {b : Bool} {br br' : BitReader}
    (hbit : BitReader.bit br = .ok (b.toNat, br'))
    (hfirst : first lengths j ≤ 2 * c) :
    decodeLoop h (List.range' j (n + 1)) (2 * c) (first lengths j) (offset lengths j) br =
      if 2 * c + b.toNat - first lengths j < count lengths j then
        (Outcome.okOr .inflate
            h.symbols[offset lengths j + (2 * c + b.toNat - first lengths j)]? >>= fun s =>
          .ok (s, br'))
      else decodeLoop h (List.range' (j + 1) n) (2 * (2 * c + b.toNat)) (first lengths (j + 1))
        (offset lengths (j + 1)) br' := by
  have hb := Bool.toNat_lt b
  have hoff : offset lengths (j + 1) ≤ lengths.length := offset_le _
  rw [offset] at hoff
  have hd : (((2 * c + b.toNat : Nat) : Int) - (first lengths j : Nat)) =
      ((2 * c + b.toNat - first lengths j : Nat) : Int) := by omega
  rw [List.range'_succ, decodeLoop, run_bind, hbit, Outcome.ok_bind]
  simp only [or_bit c hb]
  rw [run_bind, run_lift, ht.counts j hj, Outcome.ok_bind, Outcome.ok_bind, run_bind, run_lift,
    hd, i32_ok (by omega), Outcome.ok_bind, Outcome.ok_bind]
  by_cases hlt : 2 * c + b.toNat - first lengths j < count lengths j
  · rw [if_pos hlt, if_pos (by omega), run_bind, run_lift, i32_ok (by omega), Outcome.ok_bind,
      Outcome.ok_bind, if_neg (by omega), run_lift]
    rfl
  · have hle : first lengths j + count lengths j ≤ 2 * c + b.toNat := by omega
    rw [if_neg hlt, if_neg (by omega), run_bind, run_lift, i32_ok (by omega), Outcome.ok_bind,
      Outcome.ok_bind, run_bind, run_lift, i32_ok (by omega), Outcome.ok_bind, Outcome.ok_bind,
      Nat.shiftLeft_eq, Nat.mul_comm _ (2 ^ 1), ← Nat.cast_add, ← Nat.cast_add,
      shl1_ok (by omega)]
    rfl

/-- A codeword, read from length `j` on, is decoded. -/
theorem decodeLoop_takes (ht : Table lengths h) (hlen : lengths.length < 2 ^ 16) {s : Nat}
    (hs : Coded lengths s) (h15 : len lengths s ≤ 15)
    (hv : value lengths s < 2 ^ len lengths s) {j k : Nat} (hj : 1 ≤ j)
    (hk : j + k = len lengths s) :
    Takes (decodeLoop h (List.range' j (15 - j + 1)) (2 * (value lengths s / 2 ^ (k + 1)))
      (first lengths j) (offset lengths j)) (topBits (k + 1) (value lengths s)) s := by
  have hpow : 2 ^ len lengths s ≤ 2 ^ 15 := Nat.pow_le_pow_right (by omega) h15
  induction k generalizing j with
  | zero =>
      intro br hok rest hrest
      have hfirst := first_le_value hj hk
      have hdiv := div_two_mul (value lengths s) 0
      obtain ⟨br', hbit, hok', hs', hd'⟩ := Takes.bit _ br hok rest hrest
      have hval : value lengths s = first lengths j + before lengths s j := by
        rw [show j = len lengths s by omega, value]
      have hslot : slot lengths s = offset lengths j + before lengths s j := by
        rw [show j = len lengths s by omega, slot]
      have hcnt : before lengths s j < count lengths j := by
        rw [show j = len lengths s by omega]
        exact before_lt_count hs
      rw [Nat.pow_zero, Nat.div_one] at hdiv
      refine ⟨br', ?_, hok', hs', hd'⟩
      rw [decodeLoop_round ht hlen (by omega) (by omega) hbit hfirst, ← hdiv, if_pos (by omega),
        hval, Nat.add_sub_cancel_left, ← hslot, ht.symbols s hs, Outcome.okOr_some,
        Outcome.ok_bind]
  | succ k ih =>
      intro br hok rest hrest
      have hfirst := first_le_value hj hk
      have hdiv := div_two_mul (value lengths s) (k + 1)
      have hpast := past_le_value (show j < len lengths s by omega)
      rw [show len lengths s - j = k + 1 by omega] at hpast
      have hle : value lengths s / 2 ^ (k + 1) ≤ value lengths s / 2 ^ 1 :=
        Nat.div_le_div_left (Nat.pow_le_pow_right (by omega) (by omega)) (by omega)
      obtain ⟨br1, hbit, hok1, hs1, hd1⟩ := Takes.bit _ br hok _ hrest
      obtain ⟨br', h', hok', hs', hd'⟩ := ih (show 1 ≤ j + 1 by omega) (by omega) br1 hok1 rest hs1
      refine ⟨br', ?_, hok', hs', hd'.trans hd1⟩
      rw [decodeLoop_round ht hlen (by omega) (by omega) hbit hfirst, ← hdiv, if_neg (by omega),
        ← h', show 15 - (j + 1) + 1 = 15 - j by omega]

/-- `decode` reads a symbol's codeword as that symbol. -/
theorem decode_takes (ht : Table lengths h) (hlen : lengths.length < 2 ^ 16)
    (hk : Kraft lengths 15) {s : Nat} (hs : Coded lengths s) :
    Takes (decode h) (codeword lengths s) s := by
  have h15 := hk.le _ (len_mem hs.lt)
  have hv := hk.value_lt hs
  obtain ⟨k, hlen'⟩ := Nat.exists_eq_add_of_le' (Nat.one_le_iff_ne_zero.mpr hs)
  have h1 := decodeLoop_takes ht hlen hs h15 hv (le_refl 1) (show 1 + k = _ by omega)
  rw [← hlen', Nat.div_eq_of_lt hv] at h1
  exact h1

/-- What `decode` answers has been read as its codeword. -/
theorem decodeLoop_codeword (ht : Table lengths h) (hlen : lengths.length < 2 ^ 16) {n j c s : Nat}
    (hj : j + n = 16) (hj1 : 1 ≤ j) (hc : c < 2 ^ (j - 1)) (hfirst : first lengths j ≤ 2 * c)
    {br br' : BitReader} (hok : br.Ok)
    (hd : decodeLoop h (List.range' j n) (2 * c) (first lengths j) (offset lengths j) br =
      .ok (s, br')) :
    Coded lengths s ∧ ∃ bs, codeword lengths s = topBits (j - 1) c ++ bs ∧
      br.stream = bs ++ br'.stream := by
  induction n generalizing j c br with
  | zero => cases hd
  | succ n ih =>
      rcases BitReader.bit_eq hok with ⟨_, hbit⟩ | ⟨b, br1, hstream, hbit, hok1, _⟩
      · rw [List.range'_succ, decodeLoop, run_bind, hbit] at hd
        cases hd
      · have hb := Bool.toNat_lt b
        have hpow : 2 ^ (j - 1) ≤ 2 ^ 14 := Nat.pow_le_pow_right (by omega) (by omega)
        rw [decodeLoop_round ht hlen (by omega) (by omega) hbit hfirst] at hd
        split at hd
        · rename_i hlt
          obtain ⟨t, ht1, ht2, ht3⟩ := exists_symbol hlt
          have hslot : slot lengths t =
              offset lengths j + (2 * c + b.toNat - first lengths j) := by rw [slot, ht2, ht3]
          have hval : value lengths t = 2 * c + b.toNat := by
            rw [value, ht2, ht3]
            omega
          rw [← hslot, ht.symbols t ht1] at hd
          cases hd
          refine ⟨ht1, [b], ?_, hstream⟩
          rw [codeword, ht2, hval, ← topBits_snoc]
          congr 1
          omega
        · rename_i hlt
          have hfirst' : first lengths (j + 1) ≤ 2 * (2 * c + b.toNat) := by
            rw [first]
            omega
          have hc' : 2 * c + b.toNat < 2 ^ (j + 1 - 1) := by
            rw [show j + 1 - 1 = (j - 1) + 1 by omega, Nat.pow_succ]
            omega
          obtain ⟨h1, bs, h2, h3⟩ := ih (by omega) (by omega) hc' hfirst' hok1 hd
          refine ⟨h1, b :: bs, ?_, by rw [hstream, h3]; rfl⟩
          rw [h2, show j + 1 - 1 = (j - 1) + 1 by omega, topBits_snoc, List.append_assoc]
          rfl

theorem decode_codeword (ht : Table lengths h) (hlen : lengths.length < 2 ^ 16) {s : Nat}
    {br br' : BitReader} (hok : br.Ok) (hd : decode h br = .ok (s, br')) :
    Coded lengths s ∧ br.stream = codeword lengths s ++ br'.stream := by
  obtain ⟨h1, bs, h2, h3⟩ := @decodeLoop_codeword lengths h ht hlen 15 1 0 s rfl (le_refl 1)
    Nat.one_pos (Nat.zero_le _) br br' hok hd
  refine ⟨h1, ?_⟩
  rw [h2]
  exact h3

/-- `decode` comes back on any data. -/
theorem decodeLoop_within (ht : Table lengths h) (hlen : lengths.length < 2 ^ 16) {n j c : Nat}
    (hj : j + n = 16) (hj1 : 1 ≤ j) (hc : c < 2 ^ (j - 1)) (hfirst : first lengths j ≤ 2 * c)
    {k : Nat} (hk : k ≤ 1) :
    Within (decodeLoop h (List.range' j n) (2 * c) (first lengths j) (offset lengths j)) k
      fun _ => True := by
  intro br hok
  induction n generalizing j c br with
  | zero => trivial
  | succ n ih =>
      rcases BitReader.bit_eq hok with ⟨_, hbit⟩ | ⟨b, br1, hstream, hbit, hok1, hd1⟩
      · rw [List.range'_succ, decodeLoop, run_bind, hbit]
        trivial
      · have hb := Bool.toNat_lt b
        have hpow : 2 ^ (j - 1) ≤ 2 ^ 14 := Nat.pow_le_pow_right (by omega) (by omega)
        rw [decodeLoop_round ht hlen (by omega) (by omega) hbit hfirst, hstream]
        split
        · cases h.symbols[offset lengths j + (2 * c + b.toNat - first lengths j)]? with
          | none => trivial
          | some s => exact ⟨trivial, hok1, hd1, Nat.add_le_add_left hk _⟩
        · have hfirst' : first lengths (j + 1) ≤ 2 * (2 * c + b.toNat) := by
            rw [first]
            omega
          have hc' : 2 * c + b.toNat < 2 ^ (j + 1 - 1) := by
            rw [show j + 1 - 1 = (j - 1) + 1 by omega, Nat.pow_succ]
            omega
          refine (ih (by omega) (by omega) hc' hfirst' br1 hok1).mono ?_
          rintro r ⟨h1, h2, h3, h4⟩
          exact ⟨h1, h2, h3.trans hd1, by rw [List.length_cons]; omega⟩

theorem decode_within (ht : Table lengths h) (hlen : lengths.length < 2 ^ 16) :
    Within (decode h) 1 fun _ => True :=
  @decodeLoop_within lengths h ht hlen 15 1 0 rfl (le_refl 1) Nat.one_pos (Nat.zero_le _) 1
    (le_refl 1)

end Huffman

end TablesOS.Png
