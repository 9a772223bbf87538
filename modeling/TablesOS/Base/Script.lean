import Mathlib.Data.List.GetD
import TablesOS.Base.Fallible

/-!
# Computations led by a script

What surrounds a computation can be a machine, or a script: the answers it will
give, written down beforehand. `Led` says that the second is a case of the
first. With the right answers in front the computation does what the machine
would have made it do, and leaves the machine's state behind for the rest of the
script to go on from. What the script holds further on is left open, so that
computations led one after the other are led as a whole, by their scripts one
after the other. A script can be anything that scripts can be put in front of.
-/

namespace TablesOS

variable {σ ρ τ β γ ε α κ : Type}

/-- Answers in front of others. -/
def inFront (answers : List α) (rest : Nat → α) (i : Nat) : α :=
  answers.getD i (rest (i - answers.length))

theorem inFront_lt {answers : List α} (rest : Nat → α) {i : Nat} (h : i < answers.length)
    (a₀ : α) : inFront answers rest i = answers.getD i a₀ := by
  rw [inFront, List.getD_eq_getElem _ _ h, List.getD_eq_getElem _ _ h]

theorem inFront_add (answers : List α) (rest : Nat → α) (i : Nat) :
    inFront answers rest (answers.length + i) = rest i := by
  rw [inFront, List.getD_eq_default _ _ (Nat.le_add_right _ _), Nat.add_sub_cancel_left]

/-- With the right script in front, `m` answers `r`, and gets from what shows `s`
to what shows `s'`. -/
def Led (H : σ → ρ → τ → Prop) (s : σ) (m : τ → β × τ) (r : β) (s' : σ) : Prop :=
  ∃ front : ρ → ρ, ∀ rest t, H s (front rest) t → (m t).1 = r ∧ H s' rest (m t).2

/-- From anywhere, `m'` is led where `m` goes. -/
def Tracks (H : σ → ρ → τ → Prop) (m : σ → β × σ) (m' : τ → β × τ) : Prop :=
  ∀ s, Led H s m' (m s).1 (m s).2

namespace Led

variable {H : σ → ρ → τ → Prop} {s s' s'' : σ} {r : β} {r' : γ} {m : τ → β × τ}

theorem done (r : β) : Led H s (fun t => (r, t)) r s :=
  ⟨id, fun _ _ h => ⟨rfl, h⟩⟩

theorem andThen {f : β → τ → γ × τ} (hm : Led H s m r s') (hf : Led H s' (f r) r' s'') :
    Led H s (fun t => f (m t).1 (m t).2) r' s'' := by
  obtain ⟨front, hm⟩ := hm
  obtain ⟨front', hf⟩ := hf
  refine ⟨front ∘ front', fun rest t h => ?_⟩
  obtain ⟨hr, h'⟩ := hm (front' rest) t h
  have hrest := hf rest _ h'
  rw [← hr] at hrest
  exact hrest

theorem map (hm : Led H s m r s') (f : β → γ) :
    Led H s (fun t => (f (m t).1, (m t).2)) (f r) s' :=
  hm.andThen (f := fun b t => (f b, t)) (done (f r))

end Led

/-- The same done with every item of a list, one after the other. -/
def inTurn (f : κ → σ → β × σ) : List κ → σ → List β × σ
  | [], s => ([], s)
  | k :: ks, s =>
      let r := f k s
      let rest := inTurn f ks r.2
      (r.1 :: rest.1, rest.2)

theorem Tracks.inTurn {H : σ → ρ → τ → Prop} {f : κ → σ → β × σ} {f' : κ → τ → β × τ}
    (h : ∀ k, Tracks H (f k) (f' k)) (ks : List κ) :
    Tracks H (TablesOS.inTurn f ks) (TablesOS.inTurn f' ks) := by
  induction ks with
  | nil => exact fun _ => .done []
  | cons k ks ih =>
      intro s
      have hrest := (ih (f k s).2).map fun rs => (f k s).1 :: rs
      exact (h k s).andThen (f := fun r t => (r :: (TablesOS.inTurn f' ks t).1,
        (TablesOS.inTurn f' ks t).2)) hrest

/-! ## Steps that may fail -/

namespace Led

open Fallible

variable {H : σ → ρ → τ → Prop} {s s' s'' : σ} {a : α} {e : ε} {m : Fallible ε τ α}
  {f : α → Fallible ε τ γ} {r : Except ε γ}

theorem pure (a : α) : Led H s (Pure.pure a : Fallible ε τ α) (.ok a) s := done (Except.ok a)

theorem throw (e : ε) : Led H s (Fallible.throw e : Fallible ε τ α) (.error e) s :=
  done (Except.error e)

theorem bind (hm : Led H s m (.ok a) s') (hf : Led H s' (f a) r s'') :
    Led H s (m >>= f) r s'' := by
  obtain ⟨front, hm⟩ := hm
  obtain ⟨front', hf⟩ := hf
  refine ⟨front ∘ front', fun rest t h => ?_⟩
  obtain ⟨hr, h'⟩ := hm (front' rest) t h
  rw [run_bind_ok (Prod.ext hr rfl : m t = (.ok a, (m t).2))]
  exact hf rest _ h'

theorem bind_error (hm : Led H s m (.error e) s') : Led H s (m >>= f) (.error e) s' := by
  obtain ⟨front, hm⟩ := hm
  refine ⟨front, fun rest t h => ?_⟩
  obtain ⟨hr, h'⟩ := hm rest t h
  rw [run_bind_error (Prod.ext hr rfl : m t = (.error e, (m t).2))]
  exact ⟨rfl, h'⟩

theorem bind_pure {r : Except ε α} (hm : Led H s m r s') (g : α → γ) :
    Led H s (m >>= fun a => Pure.pure (g a)) (r.map g) s' := by
  obtain ⟨front, hm⟩ := hm
  refine ⟨front, fun rest t h => ?_⟩
  obtain ⟨hr, h'⟩ := hm rest t h
  rw [run_bind_pure]
  exact ⟨congrArg (Except.map g) hr, h'⟩

end Led

namespace Tracks

open Fallible

variable {H : σ → ρ → τ → Prop} {m : Fallible ε σ α} {m' : Fallible ε τ α}

theorem bind {f : α → Fallible ε σ γ} {f' : α → Fallible ε τ γ} (hm : Tracks H m m')
    (hf : ∀ a, Tracks H (f a) (f' a)) : Tracks H (m >>= f) (m' >>= f') := by
  intro s
  have hs := hm s
  rw [run_bind]
  rcases hrun : m s with ⟨e | a, s'⟩ <;> rw [hrun] at hs
  · exact hs.bind_error
  · exact hs.bind (hf a s')

theorem pure (a : α) :
    Tracks H (Pure.pure a : Fallible ε σ α) (Pure.pure a : Fallible ε τ α) := fun _ => .pure a

theorem forM {f : κ → Fallible ε σ PUnit} {f' : κ → Fallible ε τ PUnit}
    (h : ∀ k, Tracks H (f k) (f' k)) (ks : List κ) : Tracks H (ks.forM f) (ks.forM f') := by
  induction ks with
  | nil => exact pure PUnit.unit
  | cons k ks ih => exact (h k).bind fun _ => ih

end Tracks

end TablesOS
