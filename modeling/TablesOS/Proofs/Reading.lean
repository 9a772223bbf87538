import TablesOS.Png.Inflate
import TablesOS.Spec.Deflate

/-!
# The bit reader takes the bits in order

A reader stands somewhere in the bits of its data: `stream` is what is left of
them. Everything the decompressor does is put together from reads of one bit,
so two rules carry all that follows. `Takes m bs a` says that `m` reads exactly
the bits `bs` and answers `a`; `Within m n P` says that `m`, on any data, comes
back, and if it answers then at least `n` bits further on and with a value that
meets `P`.
-/

namespace TablesOS

open Deflate (bitsOf)

/-! ## Bits of numbers -/

/-- The number whose bits these are, lowest first. -/
def ofBits : List Bool → Nat
  | [] => 0
  | b :: bs => b.toNat + 2 * ofBits bs

theorem ofBits_lowBits {n v : Nat} (h : v < 2 ^ n) : ofBits (lowBits n v) = v := by
  induction n generalizing v with
  | zero =>
      rw [lowBits, ofBits]
      rw [Nat.pow_zero] at h
      omega
  | succ n ih =>
      rw [Nat.pow_succ] at h
      rw [lowBits, ofBits, ih (by omega), Nat.toNat_testBit, Nat.pow_zero, Nat.div_one]
      omega

@[simp] theorem length_bitsOf (data : List Byte) : (bitsOf data).length = 8 * data.length := by
  induction data with
  | nil => rfl
  | cons b bs ih =>
      rw [bitsOf, List.flatMap_cons, List.length_append, length_lowBits, List.length_cons, ← bitsOf,
        ih]
      omega

theorem bitsOf_append (xs ys : List Byte) : bitsOf (xs ++ ys) = bitsOf xs ++ bitsOf ys :=
  List.flatMap_append

theorem bitsOf_cons (b : Byte) (bs : List Byte) :
    bitsOf (b :: bs) = lowBits 8 b.toNat ++ bitsOf bs := List.flatMap_cons

theorem bitsOf_leBytes (k v : Nat) : bitsOf (leBytes k v) = lowBits (8 * k) v := by
  induction k generalizing v with
  | zero => rfl
  | succ k ih =>
      rw [leBytes, bitsOf_cons, ih, Nat.mul_succ, Nat.add_comm, lowBits_add, UInt8.toNat_ofNat']
      exact congrArg (· ++ _) (lowBits_mod 8 v)

/-- Different bytes have different bits. -/
theorem bitsOf_inj {xs ys : List Byte} (h : bitsOf xs = bitsOf ys) : xs = ys := by
  induction xs generalizing ys with
  | nil =>
      have := congrArg List.length h
      rw [length_bitsOf, length_bitsOf, List.length_nil] at this
      exact (List.eq_nil_of_length_eq_zero (by omega)).symm
  | cons x xs ih =>
      cases ys with
      | nil =>
          have := congrArg List.length h
          rw [length_bitsOf, length_bitsOf, List.length_nil, List.length_cons] at this
          omega
      | cons y ys =>
          rw [bitsOf_cons, bitsOf_cons] at h
          have h' := List.append_inj h (by simp)
          have hxy : x.toNat = y.toNat := by
            rw [← ofBits_lowBits (n := 8) x.toNat_lt, h'.1, ofBits_lowBits y.toNat_lt]
          rw [UInt8.toNat_inj.mp hxy, ih h'.2]

/-- A byte string whose bits start as another's starts as that one. -/
theorem bitsOf_prefix {xs ys : List Byte} {rest : List Bool} (h : bitsOf xs = bitsOf ys ++ rest) :
    ∃ zs, xs = ys ++ zs ∧ bitsOf zs = rest := by
  have hlen := congrArg List.length h
  rw [List.length_append, length_bitsOf, length_bitsOf] at hlen
  rw [← List.take_append_drop ys.length xs, bitsOf_append] at h
  have h' := List.append_inj h (by rw [length_bitsOf, length_bitsOf, List.length_take]; omega)
  refine ⟨xs.drop ys.length, ?_, h'.2⟩
  exact (List.take_append_drop _ xs).symm.trans (congrArg (· ++ _) (bitsOf_inj h'.1))

namespace Png

/-! ## Vectors -/

section

variable {α : Type}

theorem at_ok {v : List α} {i : Nat} (h : i < v.length) : at! v i = .ok v[i] := by
  rw [at!, List.getElem?_eq_getElem h, Outcome.unwrap_some]

theorem set_ok {v : List α} {i : Nat} {x : α} (h : i < v.length) :
    set! v i x = .ok (v.set i x) := if_pos h

theorem at_drop {v w : List α} {pos i : Nat} (h : v.drop pos = w) :
    at! v (pos + i) = at! w i := by
  rw [at!, at!, ← h, List.getElem?_drop]

/-- A vector of full size, filled so far. -/
def padded (z : α) (total : Nat) (out : List α) : List α :=
  out ++ List.replicate (total - out.length) z

theorem at_padded {z : α} {total i : Nat} {out : List α} (h : i < out.length) :
    at! (padded z total out) i = .ok out[i] := by
  rw [at_ok (by rw [padded, List.length_append]; omega)]
  simp only [padded]
  rw [List.getElem_append_left h]

theorem set_padded {z v : α} {total : Nat} {out : List α} (h : out.length < total) :
    set! (padded z total out) out.length v = .ok (padded z total (out ++ [v])) := by
  have hrep : total - out.length = (total - (out ++ [v]).length) + 1 := by
    rw [List.length_append, List.length_singleton]
    omega
  rw [set_ok (by simp [padded]; omega), padded, padded, List.set_append_right _ _ (le_refl _),
    Nat.sub_self, hrep, List.replicate_succ, List.set_cons_zero, List.append_assoc]
  rfl

theorem padded_full {z : α} {total : Nat} {out : List α} (h : out.length = total) :
    padded z total out = out := by
  rw [padded, h, Nat.sub_self, List.replicate_zero, List.append_nil]

end

/-! ## Where a reader stands -/

namespace BitReader

/-- What is left of the bits. -/
def stream (br : BitReader) : List Bool :=
  lowBits br.bitcnt br.bitbuf ++ bitsOf (br.data.drop br.pos)

/-- The reader stands inside its data, with less than a byte in hand. -/
structure Ok (br : BitReader) : Prop where
  pos : br.pos ≤ br.data.length
  cnt : br.bitcnt < 8

theorem new_ok (data : List Byte) : (new data).Ok := ⟨Nat.zero_le _, Nat.zero_lt_succ 7⟩

@[simp] theorem new_stream (data : List Byte) : (new data).stream = bitsOf data := rfl

theorem Ok.length {br : BitReader} (h : br.Ok) :
    br.stream.length + 8 * br.pos = 8 * br.data.length + br.bitcnt := by
  have := h.pos
  rw [stream, List.length_append, length_lowBits, length_bitsOf, List.length_drop]
  omega

/-- A reader with a bit in hand gives it out. -/
theorem shift_stream {br : BitReader} (h : br.bitcnt ≠ 0) :
    br.stream = br.bitbuf.testBit 0 :: br.shift.2.stream ∧
      br.shift.1 = (br.bitbuf.testBit 0).toNat := by
  obtain ⟨data, pos, buf, cnt⟩ := br
  obtain ⟨n, rfl⟩ := Nat.exists_eq_succ_of_ne_zero h
  constructor
  · rw [stream, stream, shift, lowBits, Nat.shiftRight_eq_div_pow]
    rfl
  · rw [shift, Nat.and_one_is_mod, Nat.toNat_testBit, Nat.pow_zero, Nat.div_one]

/-- `bit` gives the next bit, and fails at the end. -/
theorem bit_eq {br : BitReader} (h : br.Ok) :
    (br.stream = [] ∧ bit br = .err .inflate) ∨
      ∃ b br', br.stream = b :: br'.stream ∧ bit br = .ok (b.toNat, br') ∧ br'.Ok ∧
        br'.data = br.data := by
  by_cases hc : br.bitcnt = 0
  · by_cases hp : br.data.length ≤ br.pos
    · left
      rw [stream, bit, if_pos hc, if_pos hp, hc, List.drop_eq_nil_of_le hp]
      exact ⟨rfl, rfl⟩
    · right
      have hlt : br.pos < br.data.length := by omega
      let br1 : BitReader :=
        { br with bitbuf := br.data[br.pos].toNat, pos := br.pos + 1, bitcnt := 8 }
      have hs : br.stream = br1.stream := by
        rw [stream, stream, hc, List.drop_eq_getElem_cons hlt, bitsOf_cons]
        rfl
      have h1 := shift_stream (show br1.bitcnt ≠ 0 from Nat.succ_ne_zero 7)
      refine ⟨_, br1.shift.2, hs.trans h1.1, ?_, ⟨hlt, Nat.lt_succ_self 7⟩, rfl⟩
      rw [bit, if_pos hc, if_neg hp, at!, List.getElem?_eq_getElem hlt, ← h1.2]
      rfl
  · right
    have h1 := shift_stream hc
    have := h.cnt
    have hlt : br.bitcnt - 1 < 8 := by omega
    refine ⟨_, br.shift.2, h1.1, ?_, ⟨h.pos, hlt⟩, rfl⟩
    rw [bit, if_neg hc, ← h1.2]

end BitReader

/-! ## Reads that succeed -/

variable {α β : Type}

theorem run_bind (m : BitM α) (f : α → BitM β) (br : BitReader) :
    (m >>= f) br = (m br >>= fun r => f r.1 r.2) := rfl

theorem run_lift (r : Res α) (br : BitReader) :
    (liftM r : BitM α) br = (r >>= fun a => .ok (a, br)) := rfl

/-- `m` reads exactly these bits and answers `a`. -/
def Takes (m : BitM α) (bs : List Bool) (a : α) : Prop :=
  ∀ br : BitReader, br.Ok → ∀ rest, br.stream = bs ++ rest →
    ∃ br', m br = .ok (a, br') ∧ br'.Ok ∧ br'.stream = rest ∧ br'.data = br.data

namespace Takes

theorem pure (a : α) : Takes (pure a) [] a :=
  fun br hok _ h => ⟨br, rfl, hok, h, rfl⟩

theorem bind {m : BitM α} {f : α → BitM β} {bs cs : List Bool} {a : α} {b : β}
    (hm : Takes m bs a) (hf : Takes (f a) cs b) : Takes (m >>= f) (bs ++ cs) b := by
  intro br hok rest h
  obtain ⟨br1, h1, hok1, hs1, hd1⟩ := hm br hok (cs ++ rest) (by rw [h, List.append_assoc])
  obtain ⟨br2, h2, hok2, hs2, hd2⟩ := hf br1 hok1 rest hs1
  refine ⟨br2, ?_, hok2, hs2, hd2.trans hd1⟩
  rw [run_bind, h1, Outcome.ok_bind, h2]

/-- A step that reads nothing. -/
theorem lift {r : Res α} {f : α → BitM β} {bs : List Bool} {a : α} {b : β} (hr : r = .ok a)
    (hf : Takes (f a) bs b) : Takes (liftM r >>= f) bs b := by
  intro br hok rest h
  rw [run_bind, run_lift, hr]
  exact hf br hok rest h

theorem bit (b : Bool) : Takes BitReader.bit [b] b.toNat := by
  intro br hok rest h
  rcases BitReader.bit_eq hok with ⟨hs, _⟩ | ⟨b', br', hs, hb, hok', hd⟩
  · rw [hs] at h
    cases h
  · rw [hs] at h
    cases h
    exact ⟨br', hb, hok', rfl, hd⟩

theorem bitsLoop (bs : List Bool) (i v : Nat) (hv : v < 2 ^ i) :
    Takes (BitReader.bitsLoop bs.length i v) bs (v + ofBits bs * 2 ^ i) := by
  induction bs generalizing i v with
  | nil =>
      rw [ofBits, Nat.zero_mul, Nat.add_zero]
      exact pure v
  | cons b bs ih =>
      have hb := Bool.toNat_lt b
      have hor : v ||| b.toNat <<< i = v + b.toNat * 2 ^ i := by
        rw [Nat.or_comm, Nat.shiftLeft_eq, Nat.mul_comm, ← Nat.two_pow_add_eq_or_of_lt hv,
          Nat.add_comm]
      have hlt : v + b.toNat * 2 ^ i < 2 ^ (i + 1) := by
        have : b.toNat * 2 ^ i ≤ 1 * 2 ^ i := Nat.mul_le_mul_right _ (by omega)
        rw [Nat.pow_succ]
        omega
      have hval : v + ofBits (b :: bs) * 2 ^ i =
          v + b.toNat * 2 ^ i + ofBits bs * 2 ^ (i + 1) := by
        rw [ofBits, Nat.pow_succ]
        ring
      rw [hval]
      refine bind (bit b) ?_
      show Takes (BitReader.bitsLoop bs.length (i + 1) (v ||| b.toNat <<< i)) bs _
      rw [hor]
      exact ih _ _ hlt

/-- `bits` reads a number. -/
theorem bits {n v : Nat} (h : v < 2 ^ n) : Takes (BitReader.bits n) (lowBits n v) v := by
  have h1 := bitsLoop (lowBits n v) 0 0 Nat.one_pos
  rw [length_lowBits, ofBits_lowBits h, Nat.pow_zero, Nat.mul_one, Nat.zero_add] at h1
  exact h1

end Takes

/-! ## Reads on any data -/

/-- A call that came back, with a value that meets `P` if it has one. -/
def Back (P : α → Prop) : Res α → Prop
  | .ok a => P a
  | .err _ => True
  | .panic => False
  | .diverge => False

theorem Back.bind {P : α → Prop} {Q : β → Prop} {r : Res α} {f : α → Res β} (hr : Back P r)
    (hf : ∀ a, P a → Back Q (f a)) : Back Q (r >>= f) := by
  cases r with
  | ok a => exact hf a hr
  | err e => trivial
  | panic => exact hr.elim
  | diverge => exact hr.elim

theorem Back.mono {P Q : α → Prop} {r : Res α} (hr : Back P r) (h : ∀ a, P a → Q a) : Back Q r := by
  cases r with
  | ok a => exact h a hr
  | err e => trivial
  | panic => exact hr.elim
  | diverge => exact hr.elim

theorem Back.of_ok {P : α → Prop} {r : Res α} {a : α} (h : r = .ok a) (ha : P a) : Back P r := by
  rw [h]
  exact ha

/-- `m` comes back on any data; an answer is at least `n` bits further on. -/
def Within (m : BitM α) (n : Nat) (P : α → Prop) : Prop :=
  ∀ br : BitReader, br.Ok → Back (fun r => P r.1 ∧ r.2.Ok ∧ r.2.data = br.data ∧
    r.2.stream.length + n ≤ br.stream.length) (m br)

namespace Within

theorem pure {P : α → Prop} {a : α} (h : P a) : Within (pure a) 0 P :=
  fun _ hok => ⟨h, hok, rfl, le_refl _⟩

theorem fail {P : α → Prop} {n : Nat} (e : Error) : Within (fail e : BitM α) n P :=
  fun _ _ => trivial

theorem mono {m : BitM α} {n k : Nat} {P Q : α → Prop} (h : Within m n P) (hk : k ≤ n)
    (hQ : ∀ a, P a → Q a) : Within m k Q := by
  intro br hok
  refine (h br hok).mono ?_
  rintro r ⟨h1, h2, h3, h4⟩
  exact ⟨hQ _ h1, h2, h3, by omega⟩

theorem bind {m : BitM α} {f : α → BitM β} {n k : Nat} {P : α → Prop} {Q : β → Prop}
    (hm : Within m n P) (hf : ∀ a, P a → Within (f a) k Q) : Within (m >>= f) (n + k) Q := by
  intro br hok
  rw [run_bind]
  refine (hm br hok).bind ?_
  rintro r ⟨h1, h2, h3, h4⟩
  refine (hf _ h1 _ h2).mono ?_
  rintro r' ⟨h5, h6, h7, h8⟩
  exact ⟨h5, h6, h7.trans h3, by omega⟩

/-- A first step whose bits do not matter. -/
theorem skip {m : BitM α} {f : α → BitM β} {n k : Nat} {P : α → Prop} {Q : β → Prop}
    (hm : Within m n P) (hf : ∀ a, P a → Within (f a) k Q) : Within (m >>= f) k Q :=
  (bind hm hf).mono (Nat.le_add_left _ _) fun _ h => h

/-- A step that reads nothing. -/
theorem lift {r : Res α} {f : α → BitM β} {n : Nat} {P : α → Prop} {Q : β → Prop}
    (hr : Back P r) (hf : ∀ a, P a → Within (f a) n Q) : Within (liftM r >>= f) n Q := by
  intro br hok
  rw [run_bind, run_lift]
  cases r with
  | ok a => exact hf a hr br hok
  | err e => trivial
  | panic => exact hr.elim
  | diverge => exact hr.elim

theorem bit : Within BitReader.bit 1 (· < 2) := by
  intro br hok
  rcases BitReader.bit_eq hok with ⟨_, hb⟩ | ⟨b, br', hs, hb, hok', hd⟩
  · rw [hb]
    trivial
  · rw [hb, hs]
    exact ⟨Bool.toNat_lt b, hok', hd, le_refl _⟩

theorem bitsLoop (n i v : Nat) (hv : v < 2 ^ i) :
    Within (BitReader.bitsLoop n i v) n (· < 2 ^ (i + n)) := by
  induction n generalizing i v with
  | zero => exact pure hv
  | succ n ih =>
      show Within (BitReader.bit >>= fun b => BitReader.bitsLoop n (i + 1) (v ||| b <<< i)) _ _
      rw [Nat.add_comm n 1]
      refine bind bit ?_
      intro b hb
      have h1 : b <<< i < 2 ^ (i + 1) := by
        have : b * 2 ^ i ≤ 1 * 2 ^ i := Nat.mul_le_mul_right _ (by omega)
        rw [Nat.shiftLeft_eq, Nat.pow_succ]
        have := Nat.two_pow_pos i
        omega
      have h2 : v < 2 ^ (i + 1) := lt_of_lt_of_le hv (Nat.pow_le_pow_right (by omega) (by omega))
      refine (ih (i + 1) _ (Nat.or_lt_two_pow h2 h1)).mono (le_refl _) ?_
      intro a ha
      rwa [← Nat.add_assoc]

theorem bits (n : Nat) : Within (BitReader.bits n) n (· < 2 ^ n) := by
  have h := bitsLoop n 0 0 Nat.one_pos
  rwa [Nat.zero_add] at h

end Within

end Png

end TablesOS
