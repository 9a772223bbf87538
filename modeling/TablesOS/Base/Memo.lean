import Mathlib.Order.Basic

/-!
# Results kept under a counter

A result is kept with the value that a counter had when it was computed.
Whatever may change what it was computed from takes the counter up; a step that
leaves the counter alone changes nothing. The result is taken for current as
long as the counter shows the same value, and that is right however many steps
have been made: a counter that has gone up does not come back.
-/

namespace TablesOS

namespace Memo

variable {β τ : Type} [PartialOrder τ] {t₀ t t' : τ} {value current current' : β}

/-- What was kept when the counter stood at `t₀` is current where it stands at
`t`, unless the counter has moved. -/
def Kept (t₀ : τ) (value : β) (t : τ) (current : β) : Prop :=
  t₀ ≤ t ∧ (t = t₀ → current = value)

theorem Kept.start : Kept t₀ value t₀ value := ⟨le_rfl, fun _ => rfl⟩

/-- A step that may take the counter up. -/
theorem Kept.step (h : Kept t₀ value t current)
    (hstep : t < t' ∨ t' = t ∧ current' = current) : Kept t₀ value t' current' := by
  obtain ⟨hle, hcur⟩ := h
  rcases hstep with hlt | ⟨rfl, rfl⟩
  · exact ⟨hle.trans hlt.le, fun heq => absurd (heq ▸ hle.trans_lt hlt) (lt_irrefl _)⟩
  · exact ⟨hle, hcur⟩

/-- An unmoved counter means no change. -/
theorem Kept.unmoved (h : Kept t₀ value t₀ current) : current = value := h.2 rfl

end Memo

end TablesOS
