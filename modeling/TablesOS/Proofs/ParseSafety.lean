import TablesOS.Engine.Parse
import TablesOS.Proofs.ValueRoundTrip

/-!
# No parser panics

A slice is only ever taken behind a byte that has been seen to be a sign, or at
an offset that has been seen to be a boundary; digits are seen to be digits
before anything is subtracted from them; and two digits at a time fit any
machine integer. So each parser on bytes is the parser on characters.
-/

namespace TablesOS

open Outcome

namespace Bytewise

/-! ## Bytes and characters -/

theorem okOr_map {α β : Type} (x : Option α) (f : α → β) :
    f <$> okOr () x = okOr () (x.map f) := by
  cases x <;> rfl

/-- A text starts with an ASCII character as soon as its first byte is that
character's. -/
theorem head_ascii {a : Char} (ha : a.toNat < 128) {s : Chars}
    (h : (utf8Bytes s).head? = some (UInt8.ofNat a.toNat)) : ∃ rest, s = a :: rest := by
  cases s with
  | nil => cases h
  | cons c rest =>
      have hne : String.utf8EncodeChar c ≠ [] := by
        intro h0
        have hlen := String.length_utf8EncodeChar c
        rw [h0, List.length_nil] at hlen
        exact absurd c.utf8Size_pos (by omega)
      obtain ⟨b, bs, hb⟩ := List.exists_cons_of_ne_nil hne
      rw [utf8Bytes_cons, hb, List.cons_append, List.head?_cons] at h
      have hbyte : b = UInt8.ofNat a.toNat := Option.some.inj h
      have hb_toNat : b.toNat = a.toNat := by
        rw [hbyte, UInt8.toNat_ofNat']
        omega
      by_cases hc : c.toNat < 128
      · rw [ascii_bytes hc] at hb
        have hcb : UInt8.ofNat c.toNat = b := (List.cons.inj hb).1
        have hval : c.toNat = a.toNat := by
          rw [← hb_toNat, ← hcb, UInt8.toNat_ofNat']
          omega
        exact ⟨rest, by rw [Char.toNat_inj.mp hval]⟩
      · have hge := byte_ge (Nat.le_of_not_lt hc) (b := b) (by rw [hb]; exact List.mem_cons_self)
        omega

theorem bytes_ascii {a : Char} (ha : a.toNat < 128) (rest : Chars) :
    utf8Bytes (a :: rest) = UInt8.ofNat a.toNat :: utf8Bytes rest := by
  rw [utf8Bytes_cons, ascii_bytes ha]
  rfl

theorem sliceFrom_one {a : Char} (ha : a.utf8Size = 1) (rest : Chars) :
    sliceFrom 1 (a :: rest) = .ok rest := by
  rw [sliceFrom, splitAtByte, if_pos (by omega), ha]
  simp [splitAtByte]

theorem sign_eq (s : Chars) : sign s = .ok (splitSign s) := by
  rw [sign]
  split
  · next h =>
      obtain ⟨rest, rfl⟩ := head_ascii (a := '-') (by decide) h
      rw [sliceFrom_one (by decide)]
      rfl
  · next h =>
      obtain ⟨rest, rfl⟩ := head_ascii (a := '+') (by decide) h
      rw [sliceFrom_one (by decide)]
      rfl
  · next hminus hplus =>
      unfold splitSign
      split
      · exact absurd (by rw [bytes_ascii (by decide)]; rfl) hminus
      · exact absurd (by rw [bytes_ascii (by decide)]; rfl) hplus
      · rfl

/-! ## Digits -/

theorem isDigit_iff {c : Char} : c.isDigit = true ↔ 48 ≤ c.toNat ∧ c.toNat ≤ 57 := by
  have hv : c.toNat = c.val.toNat := rfl
  rw [Char.isDigit, Bool.and_eq_true, decide_eq_true_eq, decide_eq_true_eq, ge_iff_le,
    UInt32.le_iff_toNat_le, UInt32.le_iff_toNat_le, hv]
  rfl

theorem digit?_eq_some {c : Char} {d : Digit} (h : digit? c = some d) : c = digitChar d := by
  rw [digit?] at h
  split at h
  · next hc =>
      have hrange := isDigit_iff.mp hc
      have hd : d.val = c.toNat - 48 := by
        rw [← Option.some.inj h, Fin.val_ofNat]
        omega
      rw [digitChar, hd, show 48 + (c.toNat - 48) = c.toNat by omega, Char.ofNat_toNat]
  · cases h

theorem digits?_eq_some {s : Chars} {ds : List Digit} (h : digits? s = some ds) :
    s = ds.map digitChar := by
  induction s generalizing ds with
  | nil =>
      cases h
      rfl
  | cons c s ih =>
      rw [digits?, List.mapM_cons] at h
      obtain ⟨d, hd, hrest⟩ := Option.bind_eq_some_iff.mp h
      obtain ⟨ds', hds, hcons⟩ := Option.bind_eq_some_iff.mp hrest
      cases hcons
      rw [List.map_cons, ← digit?_eq_some hd, ← ih hds]

theorem digit_of_digitChar (d : Digit) : digit (UInt8.ofNat (48 + d.val)) = .ok d := by
  revert d
  decide

/-- The bytes of a character that is no digit start with one that is none. -/
theorem digit_refuses {c : Char} (hc : c.isDigit = false) :
    ∃ b bs, String.utf8EncodeChar c = b :: bs ∧ isAsciiDigit b = false := by
  by_cases hascii : c.toNat < 128
  · refine ⟨_, [], ascii_bytes hascii, ?_⟩
    have hnot : ¬ (48 ≤ c.toNat ∧ c.toNat ≤ 57) := by
      rw [← isDigit_iff, hc]
      exact Bool.false_ne_true
    rw [isAsciiDigit, UInt8.toNat_ofNat', Bool.and_eq_false_iff, decide_eq_false_iff_not,
      decide_eq_false_iff_not]
    omega
  · have hne : String.utf8EncodeChar c ≠ [] := by
      intro h0
      have hlen := String.length_utf8EncodeChar c
      rw [h0, List.length_nil] at hlen
      exact absurd c.utf8Size_pos (by omega)
    obtain ⟨b, bs, hb⟩ := List.exists_cons_of_ne_nil hne
    have hge := byte_ge (Nat.le_of_not_lt hascii) (b := b) (by rw [hb]; exact List.mem_cons_self)
    refine ⟨b, bs, hb, ?_⟩
    rw [isAsciiDigit, Bool.and_eq_false_iff, decide_eq_false_iff_not, decide_eq_false_iff_not]
    omega

theorem digits_eq (s : Chars) : digits s = okOr () (digits? s) := by
  induction s with
  | nil => rfl
  | cons c s ih =>
      rw [digits] at ih
      rw [digits, digits?, utf8Bytes_cons, List.mapM_cons]
      cases hc : digit? c with
      | some d =>
          rw [digit?_eq_some hc, utf8EncodeChar_digitChar, List.singleton_append, List.mapM_cons,
            digit_of_digitChar, ih, digits?]
          cases List.mapM digit? s <;> rfl
      | none =>
          have hnot : c.isDigit = false := by
            rw [digit?] at hc
            split at hc
            · cases hc
            · next h => exact Bool.not_eq_true _ ▸ h
          obtain ⟨b, bs, hb, hrefuse⟩ := digit_refuses hnot
          rw [hb, List.cons_append, List.mapM_cons, digit, hrefuse]
          rfl

theorem bigUint_eq (s : Chars) : bigUint s = okOr () (BigUint.parse s) := by
  rw [bigUint, BigUint.parse]
  split
  · rfl
  · rw [digits_eq]
    cases digits? s <;> rfl

theorem bigInt_eq (s : Chars) : bigInt s = okOr () (BigInt.parse s) := by
  rw [bigInt, BigInt.parse, sign_eq]
  obtain ⟨negative, rest⟩ := splitSign s
  simp only [ok_bind, bigUint_eq]
  cases BigUint.parse rest <;> rfl

/-- Both sides of the point. -/
theorem decimal_parts (negative : Bool) (intPart fracPart : Chars) :
    (if intPart.isEmpty && fracPart.isEmpty then .err () else do
      let int ← if intPart.isEmpty then .ok BigUint.zero else bigUint intPart
      let frac ← digits fracPart
      pure (Decimal.canonical negative int frac)) =
    okOr () (if intPart.isEmpty && fracPart.isEmpty then none else do
      let int ← if intPart.isEmpty then some BigUint.zero else BigUint.parse intPart
      let frac ← digits? fracPart
      some (Decimal.canonical negative int frac)) := by
  by_cases hempty : (intPart.isEmpty && fracPart.isEmpty) = true
  · rw [if_pos hempty, if_pos hempty]
    rfl
  · rw [if_neg hempty, if_neg hempty, digits_eq, bigUint_eq]
    cases intPart.isEmpty <;> cases BigUint.parse intPart <;> cases digits? fracPart <;> rfl

theorem decimal_eq (s : Chars) : decimal s = okOr () (Decimal.parse s) := by
  rw [decimal, Decimal.parse, sign_eq]
  obtain ⟨negative, rest⟩ := splitSign s
  simp only [ok_bind]
  by_cases hrest : rest.isEmpty = true
  · rw [if_pos hrest, if_pos hrest]
    rfl
  · rw [if_neg hrest, if_neg hrest]
    cases splitOnce '.' rest with
    | none => exact decimal_parts negative rest []
    | some parts => exact decimal_parts negative parts.1 parts.2

/-! ## Machine integers -/

theorem all_digits {s : Chars} (h : s.all Char.isDigit = true) :
    ∃ ds : List Digit, s = ds.map digitChar := by
  induction s with
  | nil => exact ⟨[], rfl⟩
  | cons c s ih =>
      rw [List.all_cons, Bool.and_eq_true] at h
      obtain ⟨ds, rfl⟩ := ih h.2
      have hd : digit? c = some (Fin.ofNat 10 (c.toNat - 48)) := if_pos h.1
      exact ⟨_ :: ds, by rw [List.map_cons, ← digit?_eq_some hd]⟩

theorem all_bytes (s : Chars) : (utf8Bytes s).all isAsciiDigit = s.all Char.isDigit := by
  induction s with
  | nil => rfl
  | cons c s ih =>
      rw [utf8Bytes_cons, List.all_append, List.all_cons, ih]
      congr 1
      cases hc : c.isDigit with
      | true =>
          have hd : digit? c = some (Fin.ofNat 10 (c.toNat - 48)) := if_pos hc
          rw [digit?_eq_some hd, utf8EncodeChar_digitChar]
          generalize Fin.ofNat 10 (c.toNat - 48) = d
          revert d
          decide
      | false =>
          obtain ⟨b, bs, hb, hrefuse⟩ := digit_refuses hc
          rw [hb, List.all_cons, hrefuse]
          rfl

theorem utf8Len_digits (ds : List Digit) : utf8Len (ds.map digitChar) = ds.length := by
  induction ds with
  | nil => rfl
  | cons d ds ih =>
      rw [List.map_cons, utf8Len_cons, ih, utf8Size_digitChar, List.length_cons]
      omega

theorem fixed_two (s : Chars) : fixed s 2 = okOr () (parseFixed s 2) := by
  rw [fixed, parseFixed, all_bytes]
  split
  · rfl
  · next h =>
      rw [Bool.or_eq_true, not_or, Bool.not_eq_true', Bool.not_eq_false, decide_eq_true_eq,
        not_not] at h
      obtain ⟨ds, rfl⟩ := all_digits h.2
      rw [utf8Len_digits] at h
      obtain ⟨a, b, rfl⟩ := List.length_eq_two.mp h.1
      revert a b
      decide

theorem fits_of_lt {bits n : Nat} (h : n < 2 ^ bits) : fits bits n = .ok n := if_pos h

theorem subtract_of_le {a b : Nat} (h : b ≤ a) : subtract a b = .ok (a - b) := if_pos h

theorem keep_pos {α : Type} {p : Prop} [Decidable p] (h : p) (mk : p → α) :
    keep p mk = .ok (mk h) := dif_pos h

theorem remU32_eq (v : BigUint) {m : Nat} (hm : 0 < m) (hm' : m ≤ 400) :
    remU32 v m = .ok (v.remU32 m) := by
  have hfold : ∀ (ds : List Digit) (r : Nat), r < m →
      ds.foldlM (fun r d => do
        let r ← fits 64 (r * 10)
        let r ← fits 64 (r + d.val)
        if m = 0 then .panic else pure (r % m)) r =
      (.ok (ds.foldl (fun r d => (r * 10 + d.val) % m) r) : Parsed Nat) := by
    intro ds
    induction ds with
    | nil => exact fun r _ => rfl
    | cons d ds ih =>
        intro r hr
        have hd := d.isLt
        rw [List.foldlM_cons, List.foldl_cons, fits_of_lt (by omega), ok_bind,
          fits_of_lt (by omega), ok_bind, if_neg (by omega)]
        exact ih _ (Nat.mod_lt _ hm)
  exact hfold v.digits 0 hm

theorem isLeap_eq (year : BigInt) : isLeap year = .ok (TablesOS.isLeap year) := by
  rw [isLeap, TablesOS.isLeap, remU32_eq _ (by omega) (by omega),
    remU32_eq _ (by omega) (by omega), remU32_eq _ (by omega) (by omega)]
  simp only [ok_bind]
  by_cases h4 : year.mag.remU32 4 = 0
  · by_cases h100 : year.mag.remU32 100 = 0
    · simp [h4, h100]
    · simp [h4, h100]
  · simp [h4]

theorem daysInMonth_eq (year : BigInt) (month : Nat) :
    daysInMonth year month = .ok (TablesOS.daysInMonth year month) := by
  rw [daysInMonth, TablesOS.daysInMonth, isLeap_eq]
  split
  · rfl
  · split
    · rfl
    · split <;> rfl

/-! ## Dates, times and offsets -/

theorem minus_eq (s : Chars) : minus s = .ok (splitMinus s) := by
  rw [minus]
  cases s with
  | nil => rfl
  | cons c rest =>
      by_cases hc : c = '-'
      · subst hc
        rw [if_pos List.head?_cons, sliceFrom_one (by decide)]
        rfl
      · rw [if_neg (by simpa using hc)]
        unfold splitMinus
        split
        · next h => exact absurd (List.cons.inj h).1 hc
        · rfl

theorem date_checks (year : BigInt) (month day : Nat) :
    (if month < 1 || month > 12 then .err () else
      if day < 1 || day > TablesOS.daysInMonth year month then .err () else
        keep ((1 ≤ month ∧ month ≤ 12) ∧ 1 ≤ day ∧ day ≤ TablesOS.daysInMonth year month)
          fun h => (⟨year, month, day, h.1, h.2⟩ : Date)) =
    okOr () (if hm : 1 ≤ month ∧ month ≤ 12 then
      if hd : 1 ≤ day ∧ day ≤ TablesOS.daysInMonth year month then
        some ⟨year, month, day, hm, hd⟩
      else none
    else none) := by
  by_cases hm : 1 ≤ month ∧ month ≤ 12
  · by_cases hd : 1 ≤ day ∧ day ≤ TablesOS.daysInMonth year month
    · rw [if_neg (by simp; omega), if_neg (by simp; omega), keep_pos ⟨hm, hd⟩, dif_pos hm,
        dif_pos hd]
      rfl
    · rw [if_neg (by simp; omega), if_pos (by simp; omega), dif_pos hm, dif_neg hd]
      rfl
  · rw [if_pos (by simp; omega), dif_neg hm]
    rfl

theorem date_eq (s : Chars) : date s = okOr () (Date.parse s) := by
  rw [date, Date.parse, minus_eq]
  obtain ⟨neg, body⟩ := splitMinus s
  simp only [ok_bind, fixed_two, bigUint_eq, daysInMonth_eq]
  cases rsplitOnce '-' body with
  | none => rfl
  | some r =>
      obtain ⟨front, dd⟩ := r
      simp only [okOr_some, ok_bind, Option.bind_eq_bind, Option.bind_some]
      cases rsplitOnce '-' front with
      | none => rfl
      | some r =>
          obtain ⟨yy, mm⟩ := r
          simp only [okOr_some, ok_bind, Option.bind_some]
          by_cases hyy : yy.isEmpty = true
          · rw [if_pos hyy, if_pos hyy]
            rfl
          · rw [if_neg hyy, if_neg hyy]
            cases BigUint.parse yy with
            | none => rfl
            | some mag =>
                cases parseFixed mm 2 with
                | none => rfl
                | some month =>
                    cases parseFixed dd 2 with
                    | none => rfl
                    | some day => exact date_checks _ month day

theorem subSecond_eq (f : Option Chars) : subSecond f = okOr () (TimeOfDay.parseFrac f) := by
  cases f with
  | none => rfl
  | some f =>
      rw [subSecond, TimeOfDay.parseFrac]
      split
      · rfl
      · rw [digits_eq]
        cases digits? f <;> rfl

theorem secs_fit {h m sec : Nat} (hr : h ≤ 23 ∧ m ≤ 59 ∧ sec ≤ 59) :
    h * 3600 < 2 ^ 32 ∧ m * 60 < 2 ^ 32 ∧ h * 3600 + m * 60 < 2 ^ 32 ∧
      h * 3600 + m * 60 + sec < 2 ^ 32 := by
  omega

theorem timeOfDay_secs {h m sec : Nat} {frac : List Digit} (hr : h ≤ 23 ∧ m ≤ 59 ∧ sec ≤ 59)
    (hlt : h * 3600 + m * 60 + sec < 86400) (hlast : frac.getLast? ≠ some 0) :
    (do
      let hours ← fits 32 (h * 3600)
      let minutes ← fits 32 (m * 60)
      let secs ← fits 32 (hours + minutes)
      let secs ← fits 32 (secs + sec)
      keep (secs < 86400 ∧ frac.getLast? ≠ some 0) fun h =>
        (⟨secs, frac, h.1, h.2⟩ : TimeOfDay)) =
    .ok ⟨h * 3600 + m * 60 + sec, frac, hlt, hlast⟩ := by
  obtain ⟨hhours, hminutes, hsum, hsecs⟩ := secs_fit hr
  rw [fits_of_lt hhours, ok_bind, fits_of_lt hminutes, ok_bind, fits_of_lt hsum, ok_bind,
    fits_of_lt hsecs, ok_bind, keep_pos ⟨hlt, hlast⟩]

theorem timeOfDay_eq (s : Chars) : timeOfDay s = okOr () (TimeOfDay.parse s) := by
  rw [timeOfDay, TimeOfDay.parse]
  obtain ⟨hms, fracStr⟩ := TimeOfDay.splitFrac s
  simp only [fixed_two]
  cases splitAll ':' hms with
  | nil => rfl
  | cons hs rest =>
      rw [List.getElem?_cons_zero, okOr_some, ok_bind]
      cases rest with
      | nil => cases parseFixed hs 2 <;> rfl
      | cons ms rest =>
          simp only [List.getElem?_cons_succ, List.getElem?_cons_zero, okOr_some, ok_bind]
          cases rest with
          | nil => cases parseFixed hs 2 <;> cases parseFixed ms 2 <;> rfl
          | cons ss rest =>
              simp only [List.getElem?_cons_succ, List.getElem?_cons_zero, okOr_some, ok_bind]
              cases rest with
              | cons x rest =>
                  cases parseFixed hs 2 <;> cases parseFixed ms 2 <;> cases parseFixed ss 2 <;> rfl
              | nil =>
                  dsimp only
                  cases parseFixed hs 2 with
                  | none => rfl
                  | some h =>
                      cases parseFixed ms 2 with
                      | none => rfl
                      | some m =>
                          cases parseFixed ss 2 with
                          | none => rfl
                          | some sec =>
                              simp only [okOr_some, ok_bind, Option.bind_eq_bind, Option.bind_some,
                                List.getElem?_nil, Option.isSome_none, Bool.false_or]
                              by_cases hr : h ≤ 23 ∧ m ≤ 59 ∧ sec ≤ 59
                              · have hsub := subSecond_eq fracStr
                                rw [if_neg (by simp; omega), dif_pos hr]
                                split
                                · next hf =>
                                    rw [hf] at hsub
                                    rw [hsub]
                                    rfl
                                · next frac hf =>
                                    rw [hf] at hsub
                                    rw [hsub]
                                    exact timeOfDay_secs hr _ _
                              · rw [if_pos (by simp; omega), dif_neg hr]
                                rfl

/-- Hours and minutes, with their sign. -/
def signedMinutes (neg : Bool) (h m : Nat) : Int :=
  if neg then -((h * 60 + m : Nat) : Int) else (h * 60 + m : Nat)

theorem offset_fields {neg : Bool} {h m : Nat} (hr : h ≤ 23 ∧ m ≤ 59)
    (hlower : -1439 ≤ signedMinutes neg h m) (hupper : signedMinutes neg h m ≤ 1439) :
    (if h > 23 || m > 59 then .err () else do
      let hours ← fits 31 (h * 60)
      let total ← fits 31 (hours + m)
      minutesOffset (if neg then -(total : Int) else total)) =
    .ok ⟨signedMinutes neg h m, hlower, hupper⟩ := by
  rw [if_neg (by simp; omega), fits_of_lt (by omega), ok_bind, fits_of_lt (by omega), ok_bind]
  exact keep_pos ⟨hlower, hupper⟩ _

/-- What follows the sign, with the offset made of hours and minutes by `f`. -/
theorem offset_signed {neg : Bool} {body : Chars} {f : Nat → Nat → Option Offset}
    (hin : ∀ h m, h ≤ 23 ∧ m ≤ 59 → ∃ lo hi, f h m = some ⟨signedMinutes neg h m, lo, hi⟩)
    (hout : ∀ h m, ¬ (h ≤ 23 ∧ m ≤ 59) → f h m = none) :
    (do
      let (hh, mm) ← okOr () (splitOnce ':' body)
      let h ← fixed hh 2
      let m ← fixed mm 2
      if h > 23 || m > 59 then .err () else do
        let hours ← fits 31 (h * 60)
        let total ← fits 31 (hours + m)
        minutesOffset (if neg then -(total : Int) else total)) =
    okOr () (do
      let (hh, mm) ← splitOnce ':' body
      let h ← parseFixed hh 2
      let m ← parseFixed mm 2
      f h m) := by
  cases splitOnce ':' body with
  | none => rfl
  | some r =>
      obtain ⟨hh, mm⟩ := r
      simp only [okOr_some, ok_bind, Option.bind_eq_bind, Option.bind_some, fixed_two]
      cases parseFixed hh 2 with
      | none => rfl
      | some h =>
          cases parseFixed mm 2 with
          | none => rfl
          | some m =>
              simp only [okOr_some, ok_bind, Option.bind_some]
              by_cases hr : h ≤ 23 ∧ m ≤ 59
              · obtain ⟨lo, hi, hf⟩ := hin h m hr
                rw [hf]
                exact offset_fields hr lo hi
              · rw [if_pos (by simp; omega), hout h m hr]
                rfl

theorem offsetSign_other {s : Chars} (hplus : s.head? ≠ some '+') (hminus : s.head? ≠ some '-') :
    offsetSign s = .err () := by
  rw [offsetSign]
  split
  · next h =>
      obtain ⟨body, rfl⟩ := head_ascii (a := '+') (by decide) h
      exact absurd List.head?_cons hplus
  · next h =>
      obtain ⟨body, rfl⟩ := head_ascii (a := '-') (by decide) h
      exact absurd List.head?_cons hminus
  · rfl

theorem offset_eq (s : Chars) : offset s = okOr () (Offset.parse s) := by
  rw [offset]
  by_cases hz : (decide (s = ['Z']) || decide (s = ['z'])) = true
  · unfold Offset.parse
    rw [if_pos hz, if_pos hz]
    rfl
  · rw [if_neg hz]
    by_cases hplus : s.head? = some '+'
    · obtain ⟨body, rfl⟩ := List.head?_eq_some_iff.mp hplus
      rw [offsetSign, bytes_ascii (by decide), sliceFrom_one (by decide)]
      unfold Offset.parse
      rw [if_neg hz]
      exact @offset_signed false body _ (fun h m hr => ⟨_, _, dif_pos hr⟩)
        fun h m hr => dif_neg hr
    · by_cases hminus : s.head? = some '-'
      · obtain ⟨body, rfl⟩ := List.head?_eq_some_iff.mp hminus
        rw [offsetSign, bytes_ascii (by decide), sliceFrom_one (by decide)]
        unfold Offset.parse
        rw [if_neg hz]
        exact @offset_signed true body _ (fun h m hr => ⟨_, _, dif_pos hr⟩)
          fun h m hr => dif_neg hr
      · unfold Offset.parse
        rw [offsetSign_other hplus hminus, if_neg hz]
        split
        · exact absurd List.head?_cons hplus
        · exact absurd List.head?_cons hminus
        · rfl

/-- Six bytes of which the fourth is looked at. -/
theorem zone_eq (s : Chars) : zone s = okOr () (splitTz s) := by
  rw [zone, splitTz]
  cases stripZulu s with
  | some stripped => rfl
  | none =>
      by_cases hlen : 6 ≤ utf8Len s
      · simp only [if_pos hlen, subtract_of_le hlen, ok_bind]
        cases hcut : splitAtByte (utf8Len s - 6) s with
        | none => rfl
        | some r =>
            obtain ⟨front, tail⟩ := r
            have htail : sliceFrom (utf8Len s - 6) s = .ok tail := by
              rw [sliceFrom, hcut]
              rfl
            have hfront : sliceTo (utf8Len s - 6) s = .ok front := by
              rw [sliceTo, hcut]
              rfl
            have hfourth : ∃ b, (utf8Bytes tail)[3]? = some b := by
              obtain ⟨hs, hfrontLen⟩ := splitAtByte_eq_some hcut
              have hslen := congrArg utf8Len hs
              rw [utf8Len_append] at hslen
              have hin : 3 < (utf8Bytes tail).length := by
                rw [length_utf8Bytes]
                omega
              exact ⟨_, List.getElem?_eq_getElem hin⟩
            obtain ⟨b, hb⟩ := hfourth
            simp only [Option.isSome_some, if_true, htail, hfront, ok_bind, byteAt, hb,
              unwrap_some, offset_eq]
            by_cases hsign :
                (decide (tail.head? = some '+') || decide (tail.head? = some '-')) = true
            · by_cases hcolon : b = 58
              · simp only [hsign, hcolon, if_true, decide_true, Bool.and_true]
                cases Offset.parse tail <;> rfl
              · have hne : some b ≠ some (58 : Byte) := fun h => hcolon (Option.some.inj h)
                simp only [hsign, hcolon, hne, if_true, if_false, decide_false, Bool.and_false,
                  Bool.false_eq_true]
                rfl
            · simp only [hsign, if_false, Bool.false_and, Bool.false_eq_true]
              rfl
      · rw [if_neg hlen, if_neg hlen]
        rfl

theorem value_eq (ty : Ty) (input : String) :
    value ty input = okOr () (Value.parse? ty input.toList) := by
  cases ty with
  | integer => rw [value, bigInt_eq, okOr_map, Value.parse?]
  | unsignedInteger => rw [value, bigUint_eq, okOr_map, Value.parse?]
  | decimal => rw [value, decimal_eq, okOr_map, Value.parse?]
  | string => rw [value, Value.parse?, String.ofList_toList]; rfl
  | date => rw [value, date_eq, okOr_map, Value.parse?]
  | time => rw [value, timeOfDay_eq, okOr_map, Value.parse?]
  | dateTz =>
      rw [value, zone_eq, Value.parse?]
      simp only [date_eq]
      cases splitTz input.toList with
      | none => rfl
      | some r => cases h : Date.parse r.1 <;> simp [h]
  | dateTime =>
      rw [value, Value.parse?]
      simp only [date_eq, timeOfDay_eq]
      cases splitDt input.toList with
      | none => rfl
      | some r => cases h : Date.parse r.1 <;> cases ht : TimeOfDay.parse r.2 <;> simp [h, ht]
  | dateTimeTz =>
      rw [value, zone_eq, Value.parse?]
      simp only [date_eq, timeOfDay_eq]
      cases splitTz input.toList with
      | none => rfl
      | some z =>
          simp only [okOr_some, ok_bind, Option.bind_eq_bind, Option.bind_some]
          cases splitDt z.1 with
          | none => rfl
          | some r => cases h : Date.parse r.1 <;> cases ht : TimeOfDay.parse r.2 <;> simp [h, ht]

end Bytewise

/-- Every text is parsed without a panic, to what the parser on characters
says. -/
theorem Bytewise.parse_eq (ty : Ty) (input : String) :
    Bytewise.parse ty input = ofExcept (Value.parse ty input) := by
  rw [Bytewise.parse, Bytewise.value_eq, Value.parse]
  cases Value.parse? ty input.toList <;> rfl

end TablesOS
