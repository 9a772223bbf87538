import TablesOS.Base.Fallible

/-!
# How one run ends

A triple speaks of all states at once, and says nothing of which error a run
stopped with. Here is the same for a single state and with the error: a run that
answers ends in `Q`, and one that stops has a reason for it.
-/

namespace TablesOS

namespace Fallible

variable {ε σ α β : Type}

/-- From `s`, an answer and its state satisfy `Q`, and an error satisfies `E`. -/
def Ends (m : Fallible ε σ α) (s : σ) (Q : α → σ → Prop) (E : ε → Prop) : Prop :=
  match m s with
  | (.ok a, s') => Q a s'
  | (.error e, _) => E e

namespace Ends

variable {m : Fallible ε σ α} {s s' : σ} {Q Q' : α → σ → Prop} {E E' : ε → Prop} {a : α} {e : ε}

theorem of_ok (h : m s = (.ok a, s')) (hQ : Q a s') : Ends m s Q E := by
  unfold Ends
  rwa [h]

theorem of_error (h : m s = (.error e, s')) (hE : E e) : Ends m s Q E := by
  unfold Ends
  rwa [h]

theorem ok (h : Ends m s Q E) (hm : m s = (.ok a, s')) : Q a s' := by
  unfold Ends at h
  rwa [hm] at h

theorem error (h : Ends m s Q E) (hm : m s = (.error e, s')) : E e := by
  unfold Ends at h
  rwa [hm] at h

theorem pure (h : Q a s) : Ends (Pure.pure a : Fallible ε σ α) s Q E := h

theorem throw (h : E e) : Ends (Fallible.throw e : Fallible ε σ α) s Q E := h

theorem bind {f : α → Fallible ε σ β} {R : β → σ → Prop} (hm : Ends m s Q E)
    (hf : ∀ a s', Q a s' → Ends (f a) s' R E) : Ends (m >>= f) s R E := by
  rcases h : m s with ⟨e | a, s'⟩
  · exact of_error (run_bind_error h) (hm.error h)
  · unfold Ends
    rw [run_bind_ok h]
    exact hf a s' (hm.ok h)

/-- The first part is known to answer. -/
theorem bind_ok {f : α → Fallible ε σ β} {R : β → σ → Prop} (h : m s = (.ok a, s'))
    (hf : Ends (f a) s' R E) : Ends (m >>= f) s R E := by
  unfold Ends at hf ⊢
  rwa [run_bind_ok h]

theorem imp (h : Ends m s Q E) (hQ : ∀ a s', Q a s' → Q' a s') (hE : ∀ e, E e → E' e) :
    Ends m s Q' E' := by
  rcases hm : m s with ⟨e | a, s'⟩
  · exact of_error hm (hE e (h.error hm))
  · exact of_ok hm (hQ a s' (h.ok hm))

end Ends

end Fallible

end TablesOS
