import Mathlib.Data.List.Basic

/-!
# Runs against a plan and runs against a partner

A computation that asks something and goes on with the answer can be run in two
ways. Against a plan the answers are fixed beforehand: that covers whatever the
other side may do, but says nothing of what it does. Against a partner they come
from a machine that has heard everything so far. A run of the second kind is one
of the first, for the plan that the partner makes up as it goes, and that plan
can be found by trying (`converse`): run against what is known of it, let the
partner answer what was asked, and run again with one answer more. So a program
that is written against a plan can be run against a machine as it stands.
-/

namespace TablesOS

/-- What one side says: it tells something, or asks and goes on with the answer. -/
inductive Dialog (Q A β : Type) where
  | done (b : β)
  | tell (q : Q) (k : Dialog Q A β)
  | ask (q : Q) (k : A → Dialog Q A β)

/-- The other side: what it is after it was told something, and what it answers. -/
structure Partner (S Q A : Type) where
  hear : S → Q → S
  answer : S → Q → A × S

/-- What was said: an answer with what was asked, none with what was told. -/
abbrev Record (Q A : Type) := List (Q × Option A)

/-- How much of it was asked. -/
def Record.asked {Q A : Type} (l : Record Q A) : Nat := l.countP (·.2.isSome)

namespace Partner

variable {S Q A : Type} (p : Partner S Q A)

/-- What the partner would have answered in a record. -/
def replies : S → Record Q A → List A
  | _, [] => []
  | s, (q, none) :: l => replies (p.hear s q) l
  | s, (q, some _) :: l => (p.answer s q).1 :: replies (p.answer s q).2 l

/-- The partner after what is in a record. -/
def after : S → Record Q A → S
  | s, [] => s
  | s, (q, none) :: l => after (p.hear s q) l
  | s, (q, some _) :: l => after (p.answer s q).2 l

theorem after_append (l l' : Record Q A) :
    ∀ s, p.after s (l ++ l') = p.after (p.after s l) l' := by
  induction l with
  | nil => exact fun s => rfl
  | cons said l ih =>
      obtain ⟨q, _ | a⟩ := said
      · exact fun s => ih _
      · exact fun s => ih _

/-- The plan that the partner makes up in `n` rounds. -/
def attended (s : S) (run : (Nat → A) → Record Q A) (a₀ : A) : Nat → Nat → A
  | 0, _ => a₀
  | n + 1, i => (p.replies s (run (attended s run a₀ n))).getD i a₀

/-- A run that is written against a plan, against the partner. -/
def converse {β : Type} (n : Nat) (a₀ : A) (run : (Nat → A) → β × Record Q A) (s : S) : β × S :=
  let r := run (p.attended s (fun plan => (run plan).2) a₀ n)
  (r.1, p.after s r.2)

end Partner

namespace Dialog

variable {S Q A β γ : Type} {p : Partner S Q A}

def bind : Dialog Q A β → (β → Dialog Q A γ) → Dialog Q A γ
  | done b, f => f b
  | tell q k, f => tell q (k.bind f)
  | ask q k, f => ask q fun a => (k a).bind f

/-- At most `n` things are asked. -/
def Within : Nat → Dialog Q A β → Prop
  | _, done _ => True
  | n, tell _ k => k.Within n
  | 0, ask _ _ => False
  | n + 1, ask _ k => ∀ a, (k a).Within n

/-- Against a plan, from its `i`-th answer on. -/
def planned (plan : Nat → A) : Dialog Q A β → Nat → β × Record Q A
  | done b, _ => (b, [])
  | tell q k, i => ((k.planned plan i).1, (q, none) :: (k.planned plan i).2)
  | ask q k, i =>
      let r := (k (plan i)).planned plan (i + 1)
      (r.1, (q, some (plan i)) :: r.2)

/-- Against the partner. -/
def met (p : Partner S Q A) : Dialog Q A β → S → β × S
  | done b, s => (b, s)
  | tell q k, s => k.met p (p.hear s q)
  | ask q k, s => (k (p.answer s q).1).met p (p.answer s q).2

/-- The answers that are heard against the partner. -/
def heard (p : Partner S Q A) : Dialog Q A β → S → List A
  | done _, _ => []
  | tell q k, s => k.heard p (p.hear s q)
  | ask q k, s => (p.answer s q).1 :: (k (p.answer s q).1).heard p (p.answer s q).2

theorem Within.mono {d : Dialog Q A β} : ∀ {n m : Nat}, d.Within n → n ≤ m → d.Within m := by
  induction d with
  | done b => exact fun _ _ => trivial
  | tell q k ih => exact fun h hle => ih h hle
  | ask q k ih =>
      intro n m h hle
      match n, m, h, hle with
      | n + 1, m + 1, h, hle => exact fun a => ih a (h a) (Nat.le_of_succ_le_succ hle)

theorem Within.bind {d : Dialog Q A β} {f : β → Dialog Q A γ} {m : Nat}
    (hf : ∀ b, (f b).Within m) : ∀ {n : Nat}, d.Within n → (d.bind f).Within (n + m) := by
  induction d with
  | done b => exact fun _ => (hf b).mono (Nat.le_add_left _ _)
  | tell q k ih => exact fun h => ih h
  | ask q k ih =>
      intro n h
      match n, h with
      | n + 1, h =>
          rw [Nat.add_right_comm]
          exact fun a => ih a (h a)

theorem planned_bind {plan : Nat → A} (f : β → Dialog Q A γ) (d : Dialog Q A β) :
    ∀ i, (d.bind f).planned plan i =
      (((f (d.planned plan i).1).planned plan (i + (d.planned plan i).2.asked)).1,
        (d.planned plan i).2 ++
          ((f (d.planned plan i).1).planned plan (i + (d.planned plan i).2.asked)).2) := by
  induction d with
  | done b => exact fun i => rfl
  | tell q k ih =>
      intro i
      simp [bind, planned, ih, Record.asked]
  | ask q k ih =>
      intro i
      simp [bind, planned, ih, Record.asked, Nat.add_assoc, Nat.add_comm 1]

theorem met_bind (f : β → Dialog Q A γ) (d : Dialog Q A β) :
    ∀ s, (d.bind f).met p s = (f (d.met p s).1).met p (d.met p s).2 := by
  induction d with
  | done b => exact fun s => rfl
  | tell q k ih => exact fun s => ih _
  | ask q k ih => exact fun s => ih _ _

theorem length_heard {d : Dialog Q A β} :
    ∀ {n : Nat} {s : S}, d.Within n → (d.heard p s).length ≤ n := by
  induction d with
  | done b => exact fun _ => Nat.zero_le _
  | tell q k ih => exact fun h => ih h
  | ask q k ih =>
      intro n s h
      match n, h with
      | n + 1, h => exact Nat.succ_le_succ (ih _ (h _))

/-- A plan that has the first `n` answers right gets one more out of the partner. -/
theorem replies_planned {plan : Nat → A} {a₀ : A} (d : Dialog Q A β) :
    ∀ {s : S} {n i : Nat}, (∀ j, j < n → plan (i + j) = (d.heard p s).getD j a₀) →
      ∀ j, j < n + 1 → (p.replies s (d.planned plan i).2).getD j a₀ = (d.heard p s).getD j a₀ := by
  induction d with
  | done b => exact fun _ _ _ => rfl
  | tell q k ih => exact fun h => ih h
  | ask q k ih =>
      intro s n i h j hj
      cases j with
      | zero => rfl
      | succ j =>
          have hplan : plan i = (p.answer s q).1 := h 0 (by omega)
          simp only [planned, Partner.replies, heard, List.getD_cons_succ, hplan]
          refine ih _ (n := n - 1) (fun j' hj' => ?_) j (by omega)
          have hnext := h (j' + 1) (by omega)
          rw [heard, List.getD_cons_succ] at hnext
          rw [← hnext]
          congr 1
          omega

/-- A plan with all answers right is a run against the partner. -/
theorem planned_met {plan : Nat → A} {a₀ : A} (d : Dialog Q A β) :
    ∀ {s : S} {i : Nat},
      (∀ j, j < (d.heard p s).length → plan (i + j) = (d.heard p s).getD j a₀) →
      ((d.planned plan i).1, p.after s (d.planned plan i).2) = d.met p s := by
  induction d with
  | done b => exact fun _ => rfl
  | tell q k ih => exact fun h => ih h
  | ask q k ih =>
      intro s i h
      have hplan : plan i = (p.answer s q).1 := h 0 (Nat.succ_pos _)
      simp only [planned, Partner.after, met, hplan]
      refine ih _ fun j hj => ?_
      have hnext := h (j + 1) (Nat.succ_lt_succ hj)
      rw [heard, List.getD_cons_succ] at hnext
      rw [← hnext]
      congr 1
      omega

/-- With all answers right as much is asked as is heard. -/
theorem asked_planned {plan : Nat → A} {a₀ : A} (d : Dialog Q A β) :
    ∀ {s : S} {i : Nat},
      (∀ j, j < (d.heard p s).length → plan (i + j) = (d.heard p s).getD j a₀) →
      (d.planned plan i).2.asked = (d.heard p s).length := by
  induction d with
  | done b => exact fun _ => rfl
  | tell q k ih => exact fun h => (List.countP_cons_of_neg (by simp)).trans (ih h)
  | ask q k ih =>
      intro s i h
      have hplan : plan i = (p.answer s q).1 := h 0 (Nat.succ_pos _)
      simp only [planned, heard, hplan, List.length_cons]
      refine (List.countP_cons_of_pos rfl).trans (congrArg (· + 1) (ih _ fun j hj => ?_))
      have hnext := h (j + 1) (Nat.succ_lt_succ hj)
      rw [heard, List.getD_cons_succ] at hnext
      rw [← hnext]
      congr 1
      omega

theorem attended_eq {a₀ : A} {d : Dialog Q A β} {run : (Nat → A) → Record Q A}
    (hrun : ∀ plan, run plan = (d.planned plan 0).2) (s : S) (n : Nat) :
    ∀ j, j < n → p.attended s run a₀ n j = (d.heard p s).getD j a₀ := by
  induction n with
  | zero => exact fun j hj => absurd hj (Nat.not_lt_zero _)
  | succ n ih =>
      intro j hj
      rw [Partner.attended, hrun]
      exact replies_planned d (fun j hj => by rw [Nat.zero_add]; exact ih j hj) j hj

/-- A run against a plan, with enough rounds, is the run against the partner. -/
theorem converse_met {a₀ : A} {d : Dialog Q A β} {run : (Nat → A) → β × Record Q A}
    (hrun : ∀ plan, run plan = d.planned plan 0) {n : Nat} (hn : d.Within n) (s : S) :
    p.converse n a₀ run s = d.met p s := by
  rw [Partner.converse, hrun]
  refine planned_met d (fun j hj => ?_ : ∀ j, j < (d.heard p s).length →
    p.attended s _ a₀ n (0 + j) = (d.heard p s).getD j a₀)
  rw [Nat.zero_add]
  exact attended_eq (fun plan => congrArg Prod.snd (hrun plan)) s n j
    (Nat.lt_of_lt_of_le hj (length_heard hn))

end Dialog

end TablesOS
