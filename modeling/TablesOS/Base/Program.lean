import TablesOS.Base.Outcome
import Mathlib.Algebra.GroupWithZero.Nat
import Mathlib.Data.List.Basic
import Std.Data.TreeMap

/-!
# Programs over a block memory with a control record

A `Query` reads blocks and the control record; a `Prog` may also stage block
images and replace the control record. Keeping them apart in the types is what
says that a read operation writes nothing. Both are syntax: the same program
runs against a real pager, with its cache, its device and its faults, and
against the plain memory of `Staged`, where a read is a function of the
committed blocks and the staged ones. Everything about what an operation
computes is proved in the second semantics.

`B` is a block, `C` the control record, `ε` the errors.
-/

namespace TablesOS

/-- A program that only reads. -/
inductive Query (C B ε α : Type) : Type where
  | done (o : Outcome ε α)
  | read (a : Nat) (k : B → Query C B ε α)
  | ctl (k : C → Query C B ε α)

/-- A program that reads and stages writes. -/
inductive Prog (C B ε α : Type) : Type where
  | done (o : Outcome ε α)
  | read (a : Nat) (k : B → Prog C B ε α)
  | ctl (k : C → Prog C B ε α)
  | write (a : Nat) (x : B) (p : Prog C B ε α)
  | setCtl (c : C) (p : Prog C B ε α)

/-- The control record and the images staged so far. -/
structure Staged (C B : Type) where
  ctl : C
  dirty : Std.TreeMap Nat B

variable {C B ε α β γ : Type}

namespace Query

def bind : Query C B ε α → (α → Query C B ε β) → Query C B ε β
  | done (.ok a), f => f a
  | done (.err e), _ => done (.err e)
  | done .panic, _ => done .panic
  | done .diverge, _ => done .diverge
  | read a k, f => read a fun x => (k x).bind f
  | ctl k, f => ctl fun c => (k c).bind f

instance : Monad (Query C B ε) where
  pure a := done (.ok a)
  bind := bind

instance : LawfulMonad (Query C B ε) := LawfulMonad.mk' _
  (by
    intro α q
    show q.bind _ = q
    induction q with
    | done o => cases o <;> rfl
    | read a k ih => exact congrArg (read a) (funext ih)
    | ctl k ih => exact congrArg ctl (funext ih))
  (fun _ _ => rfl)
  (by
    intro α β γ q f g
    show (q.bind f).bind g = q.bind fun a => (f a).bind g
    induction q with
    | done o => cases o <;> rfl
    | read a k ih => exact congrArg (read a) (funext ih)
    | ctl k ih => exact congrArg ctl (funext ih))

instance : MonadLift (Outcome ε) (Query C B ε) where
  monadLift := done

/-- Read block `a`. -/
def fetch (a : Nat) : Query C B ε B := read a fun x => done (.ok x)

/-- Read the control record. -/
def control : Query C B ε C := ctl fun c => done (.ok c)

def fail (e : ε) : Query C B ε α := done (.err e)

def panic : Query C B ε α := done .panic

def diverge : Query C B ε α := done .diverge

/-- What a query answers, given what each read answers. -/
def eval (rd : Nat → Outcome ε B) (c : C) : Query C B ε α → Outcome ε α
  | done o => o
  | read a k => rd a >>= fun x => (k x).eval rd c
  | ctl k => (k c).eval rd c

variable (rd : Nat → Outcome ε B) (c : C)

@[simp] theorem eval_pure (a : α) :
    (pure a : Query C B ε α).eval rd c = .ok a := rfl

@[simp] theorem eval_lift (o : Outcome ε α) :
    (liftM o : Query C B ε α).eval rd c = o := rfl

@[simp] theorem eval_fetch (a : Nat) :
    (fetch a : Query C B ε B).eval rd c = rd a := by
  show rd a >>= pure = rd a
  exact bind_pure _

@[simp] theorem eval_control : (control : Query C B ε C).eval rd c = .ok c := rfl

@[simp] theorem eval_fail (e : ε) :
    (fail e : Query C B ε α).eval rd c = .err e := rfl

@[simp] theorem eval_panic : (panic : Query C B ε α).eval rd c = .panic := rfl

@[simp] theorem eval_bind (q : Query C B ε α) (f : α → Query C B ε β) :
    (q >>= f).eval rd c = q.eval rd c >>= fun a => (f a).eval rd c := by
  show (q.bind f).eval rd c = _
  induction q with
  | done o => cases o <;> rfl
  | read a k ih =>
      show rd a >>= (fun x => ((k x).bind f).eval rd c) =
        (rd a >>= fun x => (k x).eval rd c) >>= fun a => (f a).eval rd c
      rw [bind_assoc]
      exact congrArg _ (funext ih)
  | ctl k ih => exact ih c

theorem eval_bind_ok {q : Query C B ε α} {f : α → Query C B ε β} {a : α}
    (h : q.eval rd c = .ok a) : (q >>= f).eval rd c = (f a).eval rd c := by
  rw [eval_bind, h]
  rfl

/-- A loop of queries answers the loop of their answers. -/
theorem eval_mapM (f : α → Query C B ε β) (xs : List α) :
    (xs.mapM f).eval rd c = xs.mapM fun x => (f x).eval rd c := by
  induction xs with
  | nil => rfl
  | cons x xs ih =>
      rw [List.mapM_cons, List.mapM_cons, eval_bind]
      refine congrArg _ (funext fun a => ?_)
      rw [eval_bind, ih]
      rfl

theorem eval_forM (f : α → Query C B ε PUnit) (xs : List α) :
    (forM xs f).eval rd c = forM xs fun x => (f x).eval rd c := by
  induction xs with
  | nil => rfl
  | cons x xs ih => simp only [List.forM_cons, eval_bind, ih]

end Query

namespace Prog

def bind : Prog C B ε α → (α → Prog C B ε β) → Prog C B ε β
  | done (.ok a), f => f a
  | done (.err e), _ => done (.err e)
  | done .panic, _ => done .panic
  | done .diverge, _ => done .diverge
  | read a k, f => read a fun x => (k x).bind f
  | ctl k, f => ctl fun c => (k c).bind f
  | write a x p, f => write a x (p.bind f)
  | setCtl c p, f => setCtl c (p.bind f)

instance : Monad (Prog C B ε) where
  pure a := done (.ok a)
  bind := bind

instance : LawfulMonad (Prog C B ε) := LawfulMonad.mk' _
  (by
    intro α p
    show p.bind _ = p
    induction p with
    | done o => cases o <;> rfl
    | read a k ih => exact congrArg (read a) (funext ih)
    | ctl k ih => exact congrArg ctl (funext ih)
    | write a x p ih => exact congrArg (write a x) ih
    | setCtl c p ih => exact congrArg (setCtl c) ih)
  (fun _ _ => rfl)
  (by
    intro α β γ p f g
    show (p.bind f).bind g = p.bind fun a => (f a).bind g
    induction p with
    | done o => cases o <;> rfl
    | read a k ih => exact congrArg (read a) (funext ih)
    | ctl k ih => exact congrArg ctl (funext ih)
    | write a x p ih => exact congrArg (write a x) ih
    | setCtl c p ih => exact congrArg (setCtl c) ih)

/-- A query is a program that stages nothing. -/
def ofQuery : Query C B ε α → Prog C B ε α
  | .done o => done o
  | .read a k => read a fun x => ofQuery (k x)
  | .ctl k => ctl fun c => ofQuery (k c)

instance : MonadLift (Query C B ε) (Prog C B ε) where
  monadLift := ofQuery

instance : MonadLift (Outcome ε) (Prog C B ε) where
  monadLift := done

/-- Stage an image of block `a`. -/
def stage (a : Nat) (x : B) : Prog C B ε Unit := write a x (done (.ok ()))

/-- Replace the control record. -/
def setControl (c : C) : Prog C B ε Unit := setCtl c (done (.ok ()))

def fail (e : ε) : Prog C B ε α := done (.err e)

def panic : Prog C B ε α := done .panic

def diverge : Prog C B ε α := done .diverge

end Prog

/-- A staged image if there is one, else what the store below answers. -/
def Staged.read (base : C → Nat → Outcome ε B) (s : Staged C B) (a : Nat) :
    Outcome ε B :=
  match s.dirty[a]? with
  | some x => .ok x
  | none => base s.ctl a

namespace Prog

/-- A program on plain memory: what it answers and what it has staged. -/
def eval (base : C → Nat → Outcome ε B) :
    Prog C B ε α → Staged C B → Outcome ε α × Staged C B
  | done o, s => (o, s)
  | read a k, s => match s.read base a with
      | .ok x => (k x).eval base s
      | .err e => (.err e, s)
      | .panic => (.panic, s)
      | .diverge => (.diverge, s)
  | ctl k, s => (k s.ctl).eval base s
  | write a x p, s => p.eval base { s with dirty := s.dirty.insert a x }
  | setCtl c p, s => p.eval base { s with ctl := c }

variable (base : C → Nat → Outcome ε B)

@[simp] theorem eval_pure (a : α) (s : Staged C B) :
    (pure a : Prog C B ε α).eval base s = (.ok a, s) := rfl

@[simp] theorem eval_outcome (o : Outcome ε α) (s : Staged C B) :
    (liftM o : Prog C B ε α).eval base s = (o, s) := rfl

@[simp] theorem eval_stage (a : Nat) (x : B) (s : Staged C B) :
    (stage a x : Prog C B ε Unit).eval base s =
      (.ok (), { s with dirty := s.dirty.insert a x }) := rfl

@[simp] theorem eval_setControl (c : C) (s : Staged C B) :
    (setControl c : Prog C B ε Unit).eval base s = (.ok (), { s with ctl := c }) :=
  rfl

@[simp] theorem eval_fail (e : ε) (s : Staged C B) :
    (fail e : Prog C B ε α).eval base s = (.err e, s) := rfl

@[simp] theorem eval_panic (s : Staged C B) :
    (panic : Prog C B ε α).eval base s = (.panic, s) := rfl

@[simp] theorem eval_query (q : Query C B ε α) (s : Staged C B) :
    (liftM q : Prog C B ε α).eval base s = (q.eval (s.read base) s.ctl, s) := by
  show (ofQuery q).eval base s = _
  induction q with
  | done o => rfl
  | read a k ih =>
      simp only [ofQuery, eval, Query.eval]
      cases s.read base a with
      | ok x => exact ih x
      | err e => rfl
      | panic => rfl
      | diverge => rfl
  | ctl k ih => exact ih s.ctl

theorem eval_bind (p : Prog C B ε α) (f : α → Prog C B ε β) (s : Staged C B) :
    (p >>= f).eval base s = match p.eval base s with
      | (.ok a, s') => (f a).eval base s'
      | (.err e, s') => (.err e, s')
      | (.panic, s') => (.panic, s')
      | (.diverge, s') => (.diverge, s') := by
  show (p.bind f).eval base s = _
  induction p generalizing s with
  | done o => cases o <;> rfl
  | read a k ih =>
      simp only [bind, eval]
      cases s.read base a with
      | ok x => exact ih x s
      | err e => rfl
      | panic => rfl
      | diverge => rfl
  | ctl k ih => exact ih s.ctl s
  | write a x p ih => exact ih _
  | setCtl c p ih => exact ih _

theorem eval_bind_ok {p : Prog C B ε α} {f : α → Prog C B ε β} {s s' : Staged C B}
    {a : α} (h : p.eval base s = (.ok a, s')) :
    (p >>= f).eval base s = (f a).eval base s' := by
  rw [eval_bind, h]

theorem eval_bind_err {p : Prog C B ε α} {f : α → Prog C B ε β} {s s' : Staged C B}
    {e : ε} (h : p.eval base s = (.err e, s')) :
    (p >>= f).eval base s = (.err e, s') := by
  rw [eval_bind, h]

theorem eval_bind_inv {p : Prog C B ε α} {f : α → Prog C B ε β} {s s'' : Staged C B}
    {b : β} (h : (p >>= f).eval base s = (.ok b, s'')) :
    ∃ a s', p.eval base s = (.ok a, s') ∧ (f a).eval base s' = (.ok b, s'') := by
  rw [eval_bind] at h
  rcases hp : p.eval base s with ⟨a | e | _ | _, s'⟩ <;> rw [hp] at h
  · exact ⟨a, s', rfl, h⟩
  all_goals cases h

/-- Asking first: the answer is known without touching the state. -/
theorem eval_query_bind {q : Query C B ε α} {f : α → Prog C B ε β} {s : Staged C B}
    {a : α} (h : q.eval (s.read base) s.ctl = .ok a) :
    ((liftM q : Prog C B ε α) >>= f).eval base s = (f a).eval base s :=
  eval_bind_ok base (by rw [eval_query, h])

theorem eval_query_bind_err {q : Query C B ε α} {f : α → Prog C B ε β}
    {s : Staged C B} {e : ε} (h : q.eval (s.read base) s.ctl = .err e) :
    ((liftM q : Prog C B ε α) >>= f).eval base s = (.err e, s) :=
  eval_bind_err base (by rw [eval_query, h])

/-! ## Ending well, or for want of one thing -/

/-- The program fails with `e`, or it ends with an answer and a state that
satisfy `P`. -/
def Ends (e : ε) (p : Prog C B ε α) (s : Staged C B) (P : α → Staged C B → Prop) : Prop :=
  (∃ s', p.eval base s = (.err e, s')) ∨ ∃ a s', p.eval base s = (.ok a, s') ∧ P a s'

section Ends

variable {base} {e : ε} {s : Staged C B} {P : α → Staged C B → Prop}
  {Q : β → Staged C B → Prop}

theorem Ends.bind {p : Prog C B ε α} {f : α → Prog C B ε β} (hp : p.Ends base e s P)
    (hf : ∀ a s', P a s' → (f a).Ends base e s' Q) : (p >>= f).Ends base e s Q := by
  rcases hp with ⟨s', hp⟩ | ⟨a, s', hp, hP⟩
  · exact Or.inl ⟨s', eval_bind_err base hp⟩
  · rcases hf a s' hP with ⟨s'', hs⟩ | ⟨b, s'', hs, hQ⟩
    · exact Or.inl ⟨s'', (eval_bind_ok base hp).trans hs⟩
    · exact Or.inr ⟨b, s'', (eval_bind_ok base hp).trans hs, hQ⟩

theorem Ends.mono {P' : α → Staged C B → Prop} {p : Prog C B ε α} (hp : p.Ends base e s P)
    (h : ∀ a s', P a s' → P' a s') : p.Ends base e s P' := by
  rcases hp with hp | ⟨a, s', hp, hP⟩
  · exact Or.inl hp
  · exact Or.inr ⟨a, s', hp, h a s' hP⟩

theorem Ends.query {q : Query C B ε α} {f : α → Prog C B ε β} {a : α}
    (hq : q.eval (s.read base) s.ctl = .ok a) (hf : (f a).Ends base e s Q) :
    ((liftM q : Prog C B ε α) >>= f).Ends base e s Q := by
  unfold Ends
  rw [eval_query_bind base hq]
  exact hf

theorem ends_pure {a : α} (h : P a s) : (pure a : Prog C B ε α).Ends base e s P :=
  Or.inr ⟨a, s, rfl, h⟩

end Ends

/-! ## What a program may do to its state

`Sound I J Q` is read off the program text, with no memory in sight: the
control record satisfies `I` whenever it is replaced, only blocks in `J` are
staged, and the answer satisfies `Q`; in return a record that was read is in
`I` and a block whose read came back is in `J`. -/

def Sound (I : C → Prop) (J : Nat → Prop) (Q : α → Prop) : Prog C B ε α → Prop
  | done o => ∀ a, o = .ok a → Q a
  | read a k => J a → ∀ x, (k x).Sound I J Q
  | ctl k => ∀ c, I c → (k c).Sound I J Q
  | write a _ p => J a ∧ p.Sound I J Q
  | setCtl c p => I c ∧ p.Sound I J Q

section Sound

variable {I : C → Prop} {J : Nat → Prop} {Q : α → Prop} {R : β → Prop}

theorem Sound.bind {p : Prog C B ε α} {f : α → Prog C B ε β}
    (hp : p.Sound I J Q) (hf : ∀ a, Q a → (f a).Sound I J R) :
    (p >>= f).Sound I J R := by
  show (p.bind f).Sound I J R
  induction p with
  | done o =>
      cases o with
      | ok a => exact hf a (hp a rfl)
      | err e => exact fun _ h => by cases h
      | panic => exact fun _ h => by cases h
      | diverge => exact fun _ h => by cases h
  | read a k ih => exact fun ha x => ih x (hp ha x)
  | ctl k ih => exact fun c hc => ih c (hp c hc)
  | write a x p ih => exact ⟨hp.1, ih hp.2⟩
  | setCtl c p ih => exact ⟨hp.1, ih hp.2⟩

theorem sound_pure {a : α} (h : Q a) : (pure a : Prog C B ε α).Sound I J Q := by
  intro b hb
  cases hb
  exact h

theorem sound_fail (e : ε) : (fail e : Prog C B ε α).Sound I J Q :=
  fun _ h => by cases h

theorem sound_panic : (panic : Prog C B ε α).Sound I J Q := fun _ h => by cases h

theorem sound_diverge : (diverge : Prog C B ε α).Sound I J Q :=
  fun _ h => by cases h

theorem sound_outcome (o : Outcome ε α) :
    (liftM o : Prog C B ε α).Sound I J fun _ => True := fun _ _ => trivial

theorem sound_query (q : Query C B ε α) :
    (liftM q : Prog C B ε α).Sound I J fun _ => True := by
  show (ofQuery q).Sound I J _
  induction q with
  | done o => exact fun _ _ => trivial
  | read a k ih => exact fun _ => ih
  | ctl k ih => exact fun c _ => ih c

theorem sound_fetch (a : Nat) :
    (liftM (Query.fetch a : Query C B ε B) : Prog C B ε B).Sound I J fun _ => J a :=
  fun ha _ _ _ => ha

theorem sound_control :
    (liftM (Query.control : Query C B ε C) : Prog C B ε C).Sound I J I := by
  intro c hc d hd
  cases hd
  exact hc

theorem sound_stage {a : Nat} (ha : J a) (x : B) :
    (stage a x : Prog C B ε Unit).Sound I J fun _ => True :=
  ⟨ha, fun _ _ => trivial⟩

theorem sound_setControl {c : C} (hc : I c) :
    (setControl c : Prog C B ε Unit).Sound I J fun _ => True :=
  ⟨hc, fun _ _ => trivial⟩

end Sound

end Prog

end TablesOS
