import TablesOS.Base.Descent
import TablesOS.Boot.Vesa
import Mathlib.Tactic.Linarith

/-!
# Which mode the boot loader sets

The passes of `vesa_set` are trials from the largest area down: the register
pairs compare as the areas do, a scan picks the first of the largest matching
areas below the ceiling, and a failed set lowers the ceiling to that area. So
the loader ends on every list. It skips what else is listed with the area of a
mode that it could not set; it finds the best mode exactly if it need not look
there.
-/

namespace TablesOS

namespace Vesa

open Descent

/-! ## Areas in two halves -/

/-- The number in the register pair. -/
def Area.toNat (a : Area) : ℕ := a.hi.toNat * 65536 + a.lo.toNat

theorem toNat_mul (ax bx : UInt16) : (mul ax bx).toNat = ax.toNat * bx.toNat := by
  have hax := ax.toNat_lt
  have hbx := bx.toNat_lt
  have hprod : ax.toNat * bx.toNat < 65536 * 65536 := by nlinarith
  have hhi : ax.toNat * bx.toNat / 65536 < 65536 := Nat.div_lt_of_lt_mul hprod
  have hlo : ax.toNat * bx.toNat % 65536 < 65536 := Nat.mod_lt _ (by decide)
  rw [Area.toNat, mul, UInt16.toNat_ofNat_of_lt' hhi, UInt16.toNat_ofNat_of_lt' hlo]
  omega

theorem under_iff (a ceil : Area) : a.under ceil = true ↔ a.toNat < ceil.toNat := by
  have ha := a.lo.toNat_lt
  have hc := ceil.lo.toNat_lt
  unfold Area.under Area.toNat
  simp only [UInt16.lt_iff_toNat_lt, UInt16.le_iff_toNat_le]
  split
  · simp only [Bool.false_eq_true, false_iff]
    omega
  · split
    · simp only [true_iff]
      omega
    · simp only [Bool.not_eq_true', decide_eq_false_iff_not, not_le]
      omega

theorem over_iff (a best : Area) : a.over best = true ↔ best.toNat < a.toNat := by
  have ha := a.lo.toNat_lt
  have hb := best.lo.toNat_lt
  unfold Area.over Area.toNat
  simp only [UInt16.lt_iff_toNat_lt, UInt16.le_iff_toNat_le]
  split
  · simp only [Bool.false_eq_true, false_iff]
    omega
  · split
    · simp only [true_iff]
      omega
    · simp only [Bool.not_eq_true', decide_eq_false_iff_not, not_le]
      omega

/-! ## One scan -/

/-- The mode is one that the loader looks for. -/
def Bios.matching (b : Bios) (m : UInt16) : Bool := (b.info m).1 && (b.info m).2.fits

/-- Width times height. -/
def Bios.area (b : Bios) (m : UInt16) : ℕ := (b.info m).2.width.toNat * (b.info m).2.height.toNat

/-- The BIOS can set the mode. -/
def Bios.settable (b : Bios) (m : UInt16) : Bool := b.set (m ||| 0x4000)

theorem toNat_area (b : Bios) (m : UInt16) : (b.info m).2.area.toNat = b.area m :=
  toNat_mul _ _

theorem area_pos {b : Bios} {m : UInt16} (h : b.matching m = true) : 0 < b.area m := by
  unfold Bios.matching ModeInfo.fits at h
  simp only [Bool.and_eq_true, Bool.not_eq_true', decide_eq_false_iff_not,
    UInt16.lt_iff_toNat_lt, not_lt] at h
  obtain ⟨-, ⟨-, hw⟩, hh⟩ := h
  have hw : 1024 ≤ (b.info m).2.width.toNat := hw
  have hh : 720 ≤ (b.info m).2.height.toNat := hh
  exact Nat.mul_pos (by omega) (by omega)

/-- What `best_mode` and `best_area` hold. -/
def bestOf (b : Bios) : Option UInt16 → Best
  | none => ⟨0xFFFF, ⟨0, 0⟩⟩
  | some m => ⟨m, (b.info m).2.area⟩

theorem consider_eq (b : Bios) (ceil : Area) (best : Option UInt16) (m : UInt16) :
    consider b ceil (bestOf b best) m =
      bestOf b (if b.matching m then better b.area ceil.toNat best m else best) := by
  have hunder := under_iff (b.info m).2.area ceil
  rw [toNat_area] at hunder
  have hdef : consider b ceil (bestOf b best) m =
      if b.matching m && (b.info m).2.area.under ceil &&
        (b.info m).2.area.over (bestOf b best).area then ⟨m, (b.info m).2.area⟩
      else bestOf b best := rfl
  rw [hdef]
  cases hm : b.matching m with
  | false => rfl
  | true =>
      have hover := over_iff (b.info m).2.area (bestOf b best).area
      rw [toNat_area] at hover
      have hpos := area_pos hm
      cases best with
      | none =>
          have hzero : (bestOf b none).area.toNat = 0 := by simp [bestOf, Area.toNat]
          rw [hzero] at hover
          rw [better, hover.mpr hpos]
          by_cases hlt : b.area m < ceil.toNat
          · rw [hunder.mpr hlt, if_pos hlt]
            rfl
          · rw [Bool.eq_false_iff.mpr fun h => hlt (hunder.mp h), if_neg hlt]
            rfl
      | some x =>
          have hx : (bestOf b (some x)).area.toNat = b.area x := toNat_area b x
          rw [hx] at hover
          rw [better]
          by_cases hlt : b.area m < ceil.toNat ∧ b.area x < b.area m
          · rw [hunder.mpr hlt.1, hover.mpr hlt.2, if_pos hlt]
            rfl
          · have hno : (true && (b.info m).2.area.under ceil &&
                (b.info m).2.area.over (bestOf b (some x)).area) = false := by
              rw [Bool.eq_false_iff]
              intro hand
              simp only [Bool.true_and, Bool.and_eq_true] at hand
              exact hlt ⟨hunder.mp hand.1, hover.mp hand.2⟩
            rw [hno, if_neg hlt]
            rfl

theorem scan_eq {b : Bios} (ceil : Area) {modes : List UInt16} : ∀ {idx : UInt16} {fuel : ℕ}
    {best : Option UInt16}, b.Lists idx modes → modes.length < fuel →
      scan b ceil fuel idx (bestOf b best) =
        some (bestOf b ((modes.filter b.matching).foldl (better b.area ceil.toNat) best)) := by
  induction modes with
  | nil =>
      intro idx fuel best h hfuel
      obtain ⟨fuel, rfl⟩ := Nat.exists_eq_succ_of_ne_zero (Nat.ne_zero_of_lt hfuel)
      exact if_pos h
  | cons m modes ih =>
      intro idx fuel best h hfuel
      obtain ⟨fuel, rfl⟩ := Nat.exists_eq_succ_of_ne_zero (Nat.ne_zero_of_lt hfuel)
      obtain ⟨hm, hne, hrest⟩ := h
      rw [scan]
      simp only [hm, if_neg hne]
      rw [consider_eq, ih hrest (Nat.lt_of_succ_lt_succ hfuel)]
      cases hmatch : b.matching m with
      | true =>
          rw [List.filter_cons_of_pos hmatch]
          rfl
      | false =>
          rw [List.filter_cons_of_neg (by simp [hmatch])]
          rfl

/-! ## The passes -/

/-- How the loader ends on what the trials found. -/
def ending (b : Bios) : Option UInt16 → Ending
  | none => .die
  | some m => .set m (b.info m).2.framebuffer

theorem Bios.Lists.ne {b : Bios} {modes : List UInt16} : ∀ {idx : UInt16}, b.Lists idx modes →
    ∀ m ∈ modes, m ≠ 0xFFFF := by
  induction modes with
  | nil => exact fun _ m hm => absurd hm List.not_mem_nil
  | cons m modes ih =>
      intro idx h x hx
      rcases List.mem_cons.mp hx with rfl | hx
      · exact h.2.1
      · exact ih h.2.2 x hx

theorem pass_eq {b : Bios} {modes : List UInt16} (h : b.Lists 0 modes) {scanFuel : ℕ}
    (hscan : modes.length < scanFuel) (fuel : ℕ) : ∀ ceil : Area, pass b scanFuel fuel ceil =
      (descend b.area b.settable (modes.filter b.matching) fuel ceil.toNat).map (ending b) := by
  induction fuel with
  | zero => exact fun ceil => rfl
  | succ fuel ih =>
      intro ceil
      have hstart : (⟨0xFFFF, ⟨0, 0⟩⟩ : Best) = bestOf b none := rfl
      rw [pass, hstart, scan_eq ceil h hscan, descend]
      have hpick : (modes.filter b.matching).foldl (better b.area ceil.toNat) none =
          pick b.area ceil.toNat (modes.filter b.matching) := rfl
      rw [hpick]
      cases hp : pick b.area ceil.toNat (modes.filter b.matching) with
      | none => rfl
      | some m =>
          have hfound : Picked b.area ceil.toNat (modes.filter b.matching) _ := picked _ _
          rw [hp] at hfound
          have hne : m ≠ 0xFFFF := h.ne m (List.mem_filter.mp hfound.1.mem).1
          show (if m = 0xFFFF then some .die
            else if b.settable m = true then some (ending b (some m))
            else pass b scanFuel fuel (b.info m).2.area) =
              (if b.settable m = true then some (some m)
                else descend b.area b.settable (modes.filter b.matching) fuel (b.area m)).map
                  (ending b)
          rw [if_neg hne]
          cases b.settable m with
          | true => rfl
          | false =>
              rw [if_neg Bool.false_ne_true, if_neg Bool.false_ne_true, ih, toNat_area]

/-- Where a scan ends, there is the end of a list. -/
theorem lists_of_scan {b : Bios} {ceil : Area} (fuel : ℕ) : ∀ {idx : UInt16} {best best' : Best},
    scan b ceil fuel idx best = some best' → ∃ modes, b.Lists idx modes ∧ modes.length < fuel := by
  induction fuel with
  | zero =>
      intro idx best best' h
      cases h
  | succ fuel ih =>
      intro idx best best' h
      rw [scan] at h
      by_cases hend : b.word (b.off + (idx <<< 1)) = 0xFFFF
      · exact ⟨[], hend, Nat.succ_pos fuel⟩
      · simp only [if_neg hend] at h
        obtain ⟨modes, hlists, hlen⟩ := ih h
        exact ⟨_ :: modes, ⟨rfl, hend, hlists⟩, Nat.succ_lt_succ hlen⟩

theorem lists_of_vesaSet {b : Bios} {fuel : ℕ} {e : Ending} (h : vesaSet b fuel = some e) :
    ∃ modes, b.Lists 0 modes ∧ modes.length < fuel := by
  cases hfuel : fuel with
  | zero =>
      rw [hfuel] at h
      cases h
  | succ n =>
      rw [hfuel, vesaSet, pass] at h
      split at h
      · cases h
      · next hscan => exact lists_of_scan (n + 1) hscan

/-- On every mode list the trials end, with nothing or with the first of its area
that works, where no first of a larger one does. -/
theorem vesaSet_found {b : Bios} {modes : List UInt16} (h : b.Lists 0 modes) :
    ∃ r, (∀ fuel, modes.length < fuel → vesaSet b fuel = some (ending b r)) ∧
      Found b.area b.settable (modes.filter b.matching) r := by
  have hstart : (⟨0xFFFF, 0xFFFF⟩ : Area).toNat = 4294967295 := by decide
  have hceil : ∀ y, First b.area (modes.filter b.matching) y → 4294967295 ≤ b.area y →
      b.settable y = false := by
    intro y _ hle
    have hw := (b.info y).2.width.toNat_lt
    have hh := (b.info y).2.height.toNat_lt
    have harea : b.area y ≤ 65535 * 65535 := Nat.mul_le_mul (by omega) (by omega)
    omega
  have hcount : ∀ ceil, ((modes.filter b.matching).countP fun y => b.area y < ceil) ≤
      modes.length := fun ceil =>
    (List.countP_le_length).trans (List.length_filter_le _ _)
  obtain ⟨r, hr, hfound⟩ := descend_found (modes.length + 1) 4294967295
    (Nat.lt_succ_of_le (hcount _)) hceil
  refine ⟨r, fun fuel hfuel => ?_, hfound⟩
  rw [vesaSet, pass_eq h hfuel, hstart, descend_mono _ hfuel hr]
  rfl

/-- The loader gives up where no mode listed first of its area can be set. -/
theorem vesaSet_die {b : Bios} {fuel : ℕ} (h : vesaSet b fuel = some .die) :
    ∃ modes, b.Lists 0 modes ∧
      ∀ m, First b.area (modes.filter b.matching) m → b.settable m = false := by
  obtain ⟨modes, hlists, hlen⟩ := lists_of_vesaSet h
  obtain ⟨r, hends, hfound⟩ := vesaSet_found hlists
  rw [hends fuel hlen] at h
  cases r with
  | none => exact ⟨modes, hlists, hfound⟩
  | some m => cases h

/-! ## The best mode -/

/-- The loader has set a matching mode of the largest area that can be set, and has
recorded it; or it has given up and there is none. -/
def Right (b : Bios) (modes : List UInt16) : Ending → Prop
  | .set m fb => m ∈ modes ∧ b.matching m = true ∧ b.settable m = true ∧
      (∀ m' ∈ modes, b.matching m' = true → b.settable m' = true → b.area m' ≤ b.area m) ∧
      fb = (b.info m).2.framebuffer
  | .die => ∀ m ∈ modes, b.matching m = true → b.settable m = false

theorem right_iff (b : Bios) (modes : List UInt16) (r : Option UInt16) :
    Right b modes (ending b r) ↔
      Descent.Best b.area b.settable (modes.filter b.matching) r := by
  cases r with
  | none =>
      simp only [ending, Right, Descent.Best, List.mem_filter, and_imp]
  | some m =>
      simp only [ending, Right, Descent.Best, List.mem_filter, and_imp, and_assoc, and_true]

/-- On every mode list the loader ends, and it ends right exactly if, of the matching
modes with the largest area that can be set, the one listed first can be. -/
theorem video_mode_iff {b : Bios} {modes : List UInt16} (h : b.Lists 0 modes) :
    ∃ e N, (∀ fuel, N ≤ fuel → vesaSet b fuel = some e) ∧
      (Right b modes e ↔ FirstWorks b.area b.settable (modes.filter b.matching)) := by
  obtain ⟨r, hends, hfound⟩ := vesaSet_found h
  refine ⟨ending b r, modes.length + 1, hends, ?_⟩
  rw [right_iff]
  exact best_iff hfound

/-! ## Two modes of one area -/

/-- A screen that lists two modes of 1920x1080 and can be set to the second. -/
def twin : Bios where
  word := fun at_ => if at_ = 0x22 then 0x140 else if at_ = 0x24 then 0x141 else 0xFFFF
  off := 0x22
  info := fun m => (true, ⟨0x90, if m = 0x140 then 8192 else 7680, 1920, 1080, 32, 16, 0xE0000000⟩)
  set := fun bx => bx = 0x4141

theorem twin_lists : twin.Lists 0 [0x140, 0x141] := by
  refine ⟨by decide, by decide, by decide, by decide, ?_⟩
  show twin.word _ = _
  decide

theorem video_mode_iff_twin : ∃ e N, (∀ fuel, N ≤ fuel → vesaSet twin fuel = some e) ∧
    (Right twin [0x140, 0x141] e ↔
      FirstWorks twin.area twin.settable ([0x140, 0x141].filter twin.matching)) :=
  video_mode_iff twin_lists

/-- The loader gives up, though the second mode can be set. -/
theorem twin_dies : twin.Lists 0 [0x140, 0x141] ∧ vesaSet twin 3 = some .die ∧
    twin.matching 0x141 = true ∧ twin.settable 0x141 = true ∧
      ¬ Right twin [0x140, 0x141] .die := by
  refine ⟨twin_lists, by decide, by decide, by decide, fun h => ?_⟩
  have hno := h 0x141 (List.mem_cons_of_mem _ (List.mem_singleton_self _)) (by decide)
  exact absurd hno (by decide)

end Vesa

end TablesOS
