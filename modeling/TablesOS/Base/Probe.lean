import Mathlib.Data.List.Basic

/-!
# Reading a memory and where

A computation that only reads sees one memory from its beginning to its end.
Its value is then a function of that memory, loops included, and so is the list
of the addresses it looks at. `Stays` says that all of them satisfy a property;
in sequence it splits into one condition for each part.
-/

namespace TablesOS

/-- A computation that reads cells of type `B`, with the addresses it read. -/
def Probe (B α : Type) := (ℕ → B) → α × List ℕ

namespace Probe

variable {B α β σ : Type}

instance monad : Monad (Probe B) where
  pure a _ := (a, [])
  bind m f mem := ((f (m mem).1 mem).1, (m mem).2 ++ (f (m mem).1 mem).2)

/-- The cell at an address. -/
def cell (a : ℕ) : Probe B B := fun mem => (mem a, [a])

/-- What comes out. -/
def value (m : Probe B α) (mem : ℕ → B) : α := (m mem).1

/-- The addresses read on the way. -/
def reads (m : Probe B α) (mem : ℕ → B) : List ℕ := (m mem).2

/-- Every address read satisfies `P`. -/
def Stays (P : ℕ → Prop) (m : Probe B α) (mem : ℕ → B) : Prop := ∀ a ∈ m.reads mem, P a

variable {P : ℕ → Prop} {mem : ℕ → B}

@[simp] theorem value_pure (a : α) : (pure a : Probe B α).value mem = a := rfl

@[simp] theorem value_cell (a : ℕ) : (cell a : Probe B B).value mem = mem a := rfl

@[simp] theorem value_bind (m : Probe B α) (f : α → Probe B β) :
    (m >>= f).value mem = (f (m.value mem)).value mem := rfl

@[simp] theorem value_map (m : Probe B α) (f : α → β) :
    (f <$> m).value mem = f (m.value mem) := rfl

@[simp] theorem stays_pure (a : α) : Stays P (pure a : Probe B α) mem :=
  fun _ h => absurd h List.not_mem_nil

@[simp] theorem stays_cell {a : ℕ} : Stays P (cell a : Probe B B) mem ↔ P a := by
  simp [Stays, reads, cell]

@[simp] theorem stays_bind {m : Probe B α} {f : α → Probe B β} :
    Stays P (m >>= f) mem ↔ Stays P m mem ∧ Stays P (f (m.value mem)) mem := by
  have happ : (m >>= f).reads mem = m.reads mem ++ (f (m.value mem)).reads mem := rfl
  simp only [Stays, happ, List.mem_append, or_imp, forall_and]

@[simp] theorem stays_map {m : Probe B α} {f : α → β} :
    Stays P (f <$> m) mem ↔ Stays P m mem := by
  have happ : (f <$> m).reads mem = m.reads mem ++ [] := rfl
  rw [Stays, Stays, happ, List.append_nil]

/-! ## Loops -/

theorem value_allM {p : α → Probe B Bool} (xs : List α) :
    (xs.allM p).value mem = xs.all fun x => (p x).value mem := by
  induction xs with
  | nil => rfl
  | cons x xs ih =>
      rw [List.allM, value_bind, List.all_cons, ← ih]
      cases (p x).value mem <;> rfl

theorem stays_allM {p : α → Probe B Bool} {xs : List α} (h : ∀ x ∈ xs, Stays P (p x) mem) :
    Stays P (xs.allM p) mem := by
  induction xs with
  | nil => exact stays_pure _
  | cons x xs ih =>
      rw [List.allM, stays_bind]
      refine ⟨h x List.mem_cons_self, ?_⟩
      cases (p x).value mem with
      | true => exact ih fun y hy => h y (List.mem_cons_of_mem _ hy)
      | false => exact stays_pure _

theorem value_findM? {p : α → Probe B Bool} (xs : List α) :
    (xs.findM? p).value mem = xs.find? fun x => (p x).value mem := by
  induction xs with
  | nil => rfl
  | cons x xs ih =>
      rw [List.findM?, value_bind, List.find?_cons, ← ih]
      cases (p x).value mem <;> rfl

theorem stays_findM? {p : α → Probe B Bool} {xs : List α} (h : ∀ x ∈ xs, Stays P (p x) mem) :
    Stays P (xs.findM? p) mem := by
  induction xs with
  | nil => exact stays_pure _
  | cons x xs ih =>
      rw [List.findM?, stays_bind]
      refine ⟨h x List.mem_cons_self, ?_⟩
      cases (p x).value mem with
      | true => exact stays_pure _
      | false => exact ih fun y hy => h y (List.mem_cons_of_mem _ hy)

theorem value_findSomeM? {f : α → Probe B (Option β)} (xs : List α) :
    (xs.findSomeM? f).value mem = xs.findSome? fun x => (f x).value mem := by
  induction xs with
  | nil => rfl
  | cons x xs ih =>
      rw [List.findSomeM?, value_bind, List.findSome?_cons, ← ih]
      cases (f x).value mem <;> rfl

theorem stays_findSomeM? {f : α → Probe B (Option β)} {xs : List α}
    (h : ∀ x ∈ xs, Stays P (f x) mem) : Stays P (xs.findSomeM? f) mem := by
  induction xs with
  | nil => exact stays_pure _
  | cons x xs ih =>
      rw [List.findSomeM?, stays_bind]
      refine ⟨h x List.mem_cons_self, ?_⟩
      cases (f x).value mem with
      | some b => exact stays_pure _
      | none => exact ih fun y hy => h y (List.mem_cons_of_mem _ hy)

theorem value_foldlM {f : σ → α → Probe B σ} (xs : List α) (s : σ) :
    (xs.foldlM f s).value mem = xs.foldl (fun s x => (f s x).value mem) s := by
  induction xs generalizing s with
  | nil => rfl
  | cons x xs ih => rw [List.foldlM_cons, value_bind, ih, List.foldl_cons]

/-- A loop in which the state has no say in what is read. -/
theorem stays_foldlM {f : σ → α → Probe B σ} {Q : α → Prop} {xs : List α}
    (h : ∀ x ∈ xs, ∀ s, Stays P (f s x) mem ↔ Q x) (s : σ) :
    Stays P (xs.foldlM f s) mem ↔ ∀ x ∈ xs, Q x := by
  induction xs generalizing s with
  | nil => simp
  | cons x xs ih =>
      rw [List.foldlM_cons, stays_bind, h x List.mem_cons_self,
        ih fun y hy => h y (List.mem_cons_of_mem _ hy), List.forall_mem_cons]

end Probe

end TablesOS
