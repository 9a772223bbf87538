import Mathlib.Algebra.GroupWithZero.Nat
import Mathlib.Data.List.Basic

/-!
# What a call can come to

A Rust call that is declared fallible can do four things: return `Ok`, return
`Err`, panic, or not return. `Outcome` keeps the four apart, so that a theorem
that names one of the first two has said that the call came back.
-/

namespace TablesOS

/-- The result of running a call: a value, an error, a panic (an index out of
range, an `unwrap` of nothing), or a loop that never ends. -/
inductive Outcome (ε α : Type) where
  | ok (a : α)
  | err (e : ε)
  | panic
  | diverge
  deriving DecidableEq, Repr

namespace Outcome

variable {ε α β γ : Type}

/-- The four outcomes in sequence: the first that is not `ok` stays. -/
def bind : Outcome ε α → (α → Outcome ε β) → Outcome ε β
  | ok a, f => f a
  | err e, _ => err e
  | panic, _ => panic
  | diverge, _ => diverge

instance : Monad (Outcome ε) where
  pure := ok
  bind := bind

@[simp] theorem pure_eq (a : α) : (pure a : Outcome ε α) = ok a := rfl

@[simp] theorem ok_bind (a : α) (f : α → Outcome ε β) : (ok a >>= f) = f a := rfl

@[simp] theorem err_bind (e : ε) (f : α → Outcome ε β) :
    (err e >>= f) = err e := rfl

@[simp] theorem panic_bind (f : α → Outcome ε β) :
    ((panic : Outcome ε α) >>= f) = panic := rfl

@[simp] theorem diverge_bind (f : α → Outcome ε β) :
    ((diverge : Outcome ε α) >>= f) = diverge := rfl

instance : LawfulMonad (Outcome ε) := LawfulMonad.mk' _
  (by intro α m; cases m <;> rfl)
  (fun _ _ => rfl)
  (by intro α β γ m f g; cases m <;> rfl)

theorem bind_eq {m m' : Outcome ε α} {f f' : α → Outcome ε β} (hm : m = m')
    (hf : ∀ a, f a = f' a) : (m >>= f) = (m' >>= f') := by
  rw [hm, funext hf]

/-- `Result` as an outcome: it has come back. -/
def ofExcept : Except ε α → Outcome ε α
  | .ok a => ok a
  | .error e => err e

@[simp] theorem ofExcept_ok (a : α) :
    ofExcept (.ok a : Except ε α) = ok a := rfl

@[simp] theorem ofExcept_error (e : ε) :
    ofExcept (.error e : Except ε α) = err e := rfl

@[simp] theorem except_ok_bind (a : α) (f : α → Except ε β) :
    ((.ok a : Except ε α) >>= f) = f a := rfl

@[simp] theorem except_error_bind (e : ε) (f : α → Except ε β) :
    ((.error e : Except ε α) >>= f) = .error e := rfl

theorem ofExcept_injective {r r' : Except ε α} (h : ofExcept r = ofExcept r') : r = r' := by
  cases r <;> cases r' <;> cases h <;> rfl

theorem ofExcept_eq_ok {r : Except ε α} {a : α} : ofExcept r = ok a ↔ r = .ok a := by
  cases r <;> simp [ofExcept]

theorem ofExcept_bind (a : Except ε α) (f : α → Except ε β) :
    ofExcept (a >>= f) = ofExcept a >>= fun x => ofExcept (f x) := by
  cases a <;> rfl

/-- `Option::ok_or`. -/
def okOr (e : ε) : Option α → Outcome ε α
  | some a => ok a
  | none => err e

@[simp] theorem okOr_some (e : ε) (a : α) : okOr e (some a) = ok a := rfl

@[simp] theorem okOr_none (e : ε) : okOr e (none : Option α) = err e := rfl

/-- `Option::unwrap`. -/
def unwrap : Option α → Outcome ε α
  | some a => ok a
  | none => panic

@[simp] theorem unwrap_some (a : α) : (unwrap (some a) : Outcome ε α) = ok a :=
  rfl

@[simp] theorem unwrap_none : (unwrap (none : Option α) : Outcome ε α) = panic :=
  rfl

/-- The call came back, with a value or an error. -/
def returned : Outcome ε α → Prop
  | ok _ => True
  | err _ => True
  | panic => False
  | diverge => False

theorem returned_ofExcept (r : Except ε α) : (ofExcept r).returned := by
  cases r <;> trivial

/-! ## Loops -/

/-- A loop whose rounds all answer. -/
theorem mapM_ok {xs : List α} {f : α → Outcome ε β} {g : α → β}
    (h : ∀ x ∈ xs, f x = ok (g x)) : xs.mapM f = ok (xs.map g) := by
  induction xs with
  | nil => rfl
  | cons x xs ih =>
      rw [List.mapM_cons, h x List.mem_cons_self,
        ih fun y hy => h y (List.mem_cons_of_mem _ hy)]
      rfl

/-- A loop answers a value for every round. -/
theorem length_mapM {f : α → Outcome ε β} : ∀ {xs : List α} {ys : List β},
    xs.mapM f = ok ys → ys.length = xs.length := by
  intro xs
  induction xs with
  | nil =>
      intro ys h
      cases h
      rfl
  | cons x xs ih =>
      intro ys h
      rw [List.mapM_cons] at h
      cases hx : f x with
      | ok y =>
          cases hxs : xs.mapM f with
          | ok zs =>
              rw [hx, hxs] at h
              cases h
              rw [List.length_cons, List.length_cons, ih hxs]
          | err e => rw [hx, hxs] at h; cases h
          | panic => rw [hx, hxs] at h; cases h
          | diverge => rw [hx, hxs] at h; cases h
      | err e => rw [hx] at h; cases h
      | panic => rw [hx] at h; cases h
      | diverge => rw [hx] at h; cases h

/-- A loop of checks fails with the error of the first one that fails. -/
theorem forM_findSome {xs : List α} {f : α → Outcome ε PUnit} {e : α → Option ε}
    (h : ∀ x ∈ xs, f x = (e x).elim (ok ⟨⟩) err) :
    forM xs f = (xs.findSome? e).elim (ok ⟨⟩) err := by
  induction xs with
  | nil => rfl
  | cons x xs ih =>
      rw [List.forM_cons, h x List.mem_cons_self, List.findSome?_cons]
      cases e x with
      | none => exact ih fun y hy => h y (List.mem_cons_of_mem _ hy)
      | some err => rfl

/-- A loop of one check fails if some element fails it. -/
theorem forM_any {xs : List α} {f : α → Outcome ε PUnit} {p : α → Prop} [DecidablePred p]
    {e : ε} (h : ∀ x ∈ xs, f x = if p x then err e else ok ⟨⟩) :
    forM xs f = if ∃ x ∈ xs, p x then err e else ok ⟨⟩ := by
  induction xs with
  | nil => rfl
  | cons x xs ih =>
      rw [List.forM_cons, h x List.mem_cons_self]
      by_cases hx : p x
      · rw [if_pos hx, if_pos ⟨x, List.mem_cons_self, hx⟩]
        rfl
      · rw [if_neg hx, ok_bind, ih fun y hy => h y (List.mem_cons_of_mem _ hy)]
        simp [hx]

end Outcome

end TablesOS
