import TablesOS.Base.Fallible

/-!
# Computations that mimic each other

Two computations on different states mimic each other along a relation of the
states: started on related states they answer alike and end in related states.
What is built in the same way from such computations mimics again, so a program
that is generic in the calls it makes needs to be looked at once; what remains
for a particular pair of states are its calls. With one state on both sides and
a relation below equality this is an invariant.
-/

namespace TablesOS

namespace Fallible

variable {ε σ τ α β α' β' : Type}

/-- Both answer, with answers that `Q` relates, or both report the same error. -/
inductive Answered (Q : α → β → Prop) : Except ε α → Except ε β → Prop where
  | ok {a : α} {b : β} (h : Q a b) : Answered Q (.ok a) (.ok b)
  | error (e : ε) : Answered Q (.error e) (.error e)

/-- From states that `R` relates both answer alike, and end in states that `R`
relates. -/
def Mimics (R : σ → τ → Prop) (Q : α → β → Prop) (m : Fallible ε σ α) (m' : Fallible ε τ β) :
    Prop :=
  ∀ s t, R s t → Answered Q (m s).1 (m' t).1 ∧ R (m s).2 (m' t).2

theorem answered_eq {o o' : Except ε α} : Answered Eq o o' ↔ o = o' := by
  constructor
  · rintro (⟨rfl⟩ | e)
    · rfl
    · rfl
  · rintro rfl
    cases o with
    | ok a => exact .ok rfl
    | error e => exact .error e

namespace Mimics

variable {R : σ → τ → Prop} {Q : α → β → Prop} {Q' : α' → β' → Prop} {m : Fallible ε σ α}
  {m' : Fallible ε τ β}

theorem pure {a : α} {b : β} (h : Q a b) :
    Mimics R Q (Pure.pure a : Fallible ε σ α) (Pure.pure b : Fallible ε τ β) :=
  fun _ _ hR => ⟨.ok h, hR⟩

theorem throw (e : ε) :
    Mimics R Q (Fallible.throw e : Fallible ε σ α) (Fallible.throw e : Fallible ε τ β) :=
  fun _ _ hR => ⟨.error e, hR⟩

theorem gets {f : σ → α} {g : τ → β} (h : ∀ s t, R s t → Q (f s) (g t)) :
    Mimics R Q (Fallible.gets f : Fallible ε σ α) (Fallible.gets g : Fallible ε τ β) :=
  fun s t hR => ⟨.ok (h s t hR), hR⟩

theorem bind {f : α → Fallible ε σ α'} {g : β → Fallible ε τ β'} (hm : Mimics R Q m m')
    (hf : ∀ a b, Q a b → Mimics R Q' (f a) (g b)) : Mimics R Q' (m >>= f) (m' >>= g) := by
  intro s t hR
  obtain ⟨ho, hR'⟩ := hm s t hR
  rw [run_bind, run_bind]
  rcases hs : m s with ⟨o, s'⟩
  rcases ht : m' t with ⟨o', t'⟩
  rw [hs, ht] at ho hR'
  cases ho with
  | ok h => exact hf _ _ h s' t' hR'
  | error e => exact ⟨.error e, hR'⟩

theorem ite {c : Prop} [Decidable c] {n : Fallible ε σ α} {n' : Fallible ε τ β}
    (h : c → Mimics R Q m m') (h' : ¬ c → Mimics R Q n n') :
    Mimics R Q (if c then m else n) (if c then m' else n') := by
  by_cases hc : c
  · rw [if_pos hc, if_pos hc]
    exact h hc
  · rw [if_neg hc, if_neg hc]
    exact h' hc

/-- A loop over one list. -/
theorem forM {ι : Type} {f : ι → Fallible ε σ PUnit} {g : ι → Fallible ε τ PUnit} {xs : List ι}
    (h : ∀ x ∈ xs, Mimics R Eq (f x) (g x)) : Mimics R Eq (xs.forM f) (xs.forM g) := by
  induction xs with
  | nil => exact pure rfl
  | cons x xs ih =>
      refine (h x List.mem_cons_self).bind fun _ _ _ => ?_
      exact ih fun y hy => h y (List.mem_cons_of_mem _ hy)

theorem foldlM {ι : Type} {f : α → ι → Fallible ε σ α} {g : β → ι → Fallible ε τ β}
    {xs : List ι} (h : ∀ a b, Q a b → ∀ x ∈ xs, Mimics R Q (f a x) (g b x)) :
    ∀ {a : α} {b : β}, Q a b → Mimics R Q (xs.foldlM f a) (xs.foldlM g b) := by
  induction xs with
  | nil => exact fun hab => pure hab
  | cons x xs ih =>
      intro a b hab
      rw [List.foldlM_cons, List.foldlM_cons]
      refine (h a b hab x List.mem_cons_self).bind fun a' b' hab' => ?_
      exact ih (fun a b hab y hy => h a b hab y (List.mem_cons_of_mem _ hy)) hab'

/-- States that are related through one in between. -/
theorem comp {υ : Type} {R' : τ → υ → Prop} {m'' : Fallible ε υ β} {m : Fallible ε σ β}
    (h : Mimics R Eq m m') (h' : Mimics R' Eq m' m'') :
    Mimics (fun s u => ∃ t, R s t ∧ R' t u) Eq m m'' := by
  rintro s u ⟨t, hst, htu⟩
  obtain ⟨ho, hR⟩ := h s t hst
  obtain ⟨ho', hR'⟩ := h' t u htu
  refine ⟨answered_eq.mpr ?_, _, hR, hR'⟩
  exact (answered_eq.mp ho).trans (answered_eq.mp ho')

end Mimics

end Fallible

end TablesOS
