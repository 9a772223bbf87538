import Mathlib.Algebra.GroupWithZero.Nat
import Mathlib.Data.List.Basic

/-!
# A storage medium behind a volatile write cache

Blocks of any type `β`, addressed by number. A write is atomic and lands in
the cache; a flush makes every write so far durable. Until then a power loss
may keep or lose each cached write on its own, so what the medium holds
afterwards is, block by block, the durable value or any of the values written
since the last flush: `Survives`.

Two notions carry every crash argument. `Settled V` says that nothing is
cached and the medium is exactly `V`. `Within A` says which values each block
might turn out to have; a write inside `A` keeps it, and so does a flush.
-/

namespace TablesOS

/-- Durable blocks and the writes since the last flush, newest first. -/
structure Medium (β : Type) where
  durable : Nat → β
  pending : List (Nat × β)

namespace Medium

variable {β : Type}

/-- Block `a` replaced by `x`. -/
def upd (V : Nat → β) (a : Nat) (x : β) : Nat → β :=
  fun b => if b = a then x else V b

@[simp] theorem upd_self (V : Nat → β) (a : Nat) (x : β) : upd V a x a = x := by
  simp [upd]

theorem upd_other {V : Nat → β} {a b : Nat} {x : β} (h : b ≠ a) :
    upd V a x b = V b := by
  simp [upd, h]

/-- A sequence of writes, first one first. -/
def updAll (V : Nat → β) : List (Nat × β) → Nat → β
  | [] => V
  | (a, x) :: ws => updAll (upd V a x) ws

theorem updAll_append (V : Nat → β) (ws ws' : List (Nat × β)) :
    updAll V (ws ++ ws') = updAll (updAll V ws) ws' := by
  induction ws generalizing V with
  | nil => rfl
  | cons w ws ih => exact ih _

/-- A block none of the writes names keeps its value. -/
theorem updAll_other {ws : List (Nat × β)} {b : Nat} :
    ∀ {V : Nat → β}, (∀ w ∈ ws, w.1 ≠ b) → updAll V ws b = V b := by
  induction ws with
  | nil => intro V _; rfl
  | cons w ws ih =>
      intro V h
      obtain ⟨a, x⟩ := w
      rw [updAll, ih fun w hw => h w (List.mem_cons_of_mem _ hw)]
      exact upd_other (Ne.symm (h (a, x) List.mem_cons_self))

/-- A block whose writes all carry one value has it afterwards. -/
theorem updAll_mem {ws : List (Nat × β)} {b : Nat} {x : β} :
    ∀ {V : Nat → β}, (∀ w ∈ ws, w.1 = b → w.2 = x) →
      ((∃ w ∈ ws, w.1 = b) ∨ V b = x) → updAll V ws b = x := by
  induction ws with
  | nil =>
      rintro V _ (⟨w, hw, _⟩ | h)
      · cases hw
      · exact h
  | cons w ws ih =>
      obtain ⟨a, y⟩ := w
      intro V hall hor
      refine ih (fun w hw => hall w (List.mem_cons_of_mem _ hw)) ?_
      by_cases hab : a = b
      · right
        rw [← hall (a, y) List.mem_cons_self hab, hab, upd_self]
      · rcases hor with ⟨w, hw, hwb⟩ | h
        · rcases List.mem_cons.mp hw with rfl | hw'
          · exact absurd hwb hab
          · exact Or.inl ⟨w, hw', hwb⟩
        · exact Or.inr (by rw [upd_other (Ne.symm hab), h])

/-- A block depends on its own value before and the writes. -/
theorem updAll_congr {U V : Nat → β} {b : Nat} (h : U b = V b) (ws : List (Nat × β)) :
    updAll U ws b = updAll V ws b := by
  induction ws generalizing U V with
  | nil => exact h
  | cons w ws ih =>
      refine ih ?_
      simp only [upd]
      split
      · rfl
      · exact h

/-- Whatever the writes leave in a block was there before or is one of
them. -/
theorem updAll_cases (ws : List (Nat × β)) (V : Nat → β) (b : Nat) :
    updAll V ws b = V b ∨ (b, updAll V ws b) ∈ ws := by
  induction ws generalizing V with
  | nil => exact Or.inl rfl
  | cons w ws ih =>
      obtain ⟨a, x⟩ := w
      rw [updAll]
      rcases ih (upd V a x) with h | h
      · by_cases hab : b = a
        · subst hab
          right
          rw [h, upd_self]
          exact List.mem_cons_self
        · left
          rw [h, upd_other hab]
      · exact Or.inr (List.mem_cons_of_mem _ h)

/-- What a read returns: the newest write, cached or durable. -/
def view (m : Medium β) : Nat → β := updAll m.durable m.pending.reverse

def write (m : Medium β) (a : Nat) (x : β) : Medium β :=
  { m with pending := (a, x) :: m.pending }

def flush (m : Medium β) : Medium β := ⟨m.view, []⟩

@[simp] theorem view_write (m : Medium β) (a : Nat) (x : β) :
    (m.write a x).view = upd m.view a x := by
  simp only [view, write, List.reverse_cons, updAll_append]
  rfl

@[simp] theorem view_flush (m : Medium β) : m.flush.view = m.view := rfl

/-- `V` may be what the medium holds after a power loss. -/
def Survives (m : Medium β) (V : Nat → β) : Prop :=
  ∀ a, V a = m.durable a ∨ (a, V a) ∈ m.pending

/-- Every block, durable or cached, is one that `A` allows there. -/
def Within (m : Medium β) (A : Nat → β → Prop) : Prop :=
  (∀ a, A a (m.durable a)) ∧ ∀ w ∈ m.pending, A w.1 w.2

/-- Nothing is cached and the medium is `V`. -/
def Settled (m : Medium β) (V : Nat → β) : Prop :=
  m.durable = V ∧ m.pending = []

theorem Within.mono {m : Medium β} {A B : Nat → β → Prop} (h : m.Within A)
    (hAB : ∀ a x, A a x → B a x) : m.Within B :=
  ⟨fun a => hAB _ _ (h.1 a), fun w hw => hAB _ _ (h.2 w hw)⟩

theorem Within.write {m : Medium β} {A : Nat → β → Prop} (h : m.Within A)
    {a : Nat} {x : β} (hx : A a x) : (m.write a x).Within A := by
  refine ⟨h.1, fun w hw => ?_⟩
  rcases List.mem_cons.mp hw with rfl | hw'
  · exact hx
  · exact h.2 w hw'

theorem Within.view {m : Medium β} {A : Nat → β → Prop} (h : m.Within A)
    (a : Nat) : A a (m.view a) := by
  rcases updAll_cases m.pending.reverse m.durable a with hv | hv
  · rw [Medium.view, hv]; exact h.1 a
  · exact h.2 _ (List.mem_reverse.mp hv)

theorem Within.survives {m : Medium β} {A : Nat → β → Prop} (h : m.Within A)
    {V : Nat → β} (hV : m.Survives V) (a : Nat) : A a (V a) := by
  rcases hV a with h' | h'
  · rw [h']; exact h.1 a
  · exact h.2 _ h'

theorem settled_flush (m : Medium β) : m.flush.Settled m.view := ⟨rfl, rfl⟩

theorem Settled.view {m : Medium β} {V : Nat → β} (h : m.Settled V) :
    m.view = V := by
  rw [Medium.view, h.2, ← h.1]
  rfl

theorem Settled.within {m : Medium β} {V : Nat → β} (h : m.Settled V) :
    m.Within fun a x => x = V a :=
  ⟨fun a => by rw [h.1], fun w hw => by rw [h.2] at hw; cases hw⟩

/-- A settled medium has nothing to lose. -/
theorem Settled.survives {m : Medium β} {V W : Nat → β} (h : m.Settled V)
    (hW : m.Survives W) : W = V :=
  funext fun a => h.within.survives hW a

theorem survives_view (m : Medium β) : m.Survives m.view := fun a => by
  rcases updAll_cases m.pending.reverse m.durable a with h | h
  · exact Or.inl h
  · exact Or.inr (List.mem_reverse.mp h)

end Medium

end TablesOS
