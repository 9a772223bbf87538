import TablesOS.Proofs.Transactions

/-!
# No operation resizes the volume

Whatever its arguments and whatever is on the medium, a store operation leaves
the page count in the superblock alone and stages only pages that the volume
has: a page is either one it has just read or the next never-used one. This is
read off the programs, with no memory in sight, and it is what the transaction
lemmas ask of an operation.
-/

namespace TablesOS

open Prog

-- From here on programs are taken apart by the rules of `Sound` alone.
attribute [local irreducible] Prog.Sound

namespace Pager

variable {T : Nat}

theorem keepsSize_getSb :
    KeepsSize T (fun sb => sb.totalPages = T) (liftM getSb : PageProg Superblock) :=
  sound_control

theorem keepsSize_getPage (p : Nat) :
    KeepsSize T (fun _ => p < T) (liftM (getPage p) : PageProg Page) :=
  sound_fetch p

theorem keepsSize_query {α : Type} (q : PageQuery α) :
    KeepsSize T (fun _ => True) (liftM q : PageProg α) :=
  sound_query q

theorem keepsSize_stage {p : Nat} (hp : p < T) (x : Page) :
    KeepsSize T (fun _ => True) (stage p x : PageProg Unit) :=
  sound_stage (J := (· < T)) hp x

theorem keepsSize_setControl {sb : Superblock} (hsb : sb.totalPages = T) :
    KeepsSize T (fun _ => True) (setControl sb : PageProg Unit) :=
  sound_setControl (I := fun sb : Superblock => sb.totalPages = T) hsb

theorem keepsSize_pure {α : Type} (a : α) :
    KeepsSize T (fun _ => True) (pure a : PageProg α) :=
  sound_pure trivial

theorem keepsSize_outcome {α : Type} (o : Outcome StoreError α) :
    KeepsSize T (fun _ => True) (liftM o : PageProg α) :=
  sound_outcome o

theorem keepsSize_allocPage : KeepsSize T (· < T) allocPage := by
  refine keepsSize_getSb.bind fun sb hsb => ?_
  split
  · refine (keepsSize_getPage _).bind fun img hp => ?_
    refine Sound.bind (keepsSize_setControl ?_) fun _ _ => ?_
    · exact hsb
    refine Sound.bind (keepsSize_stage hp _) fun _ _ => ?_
    exact sound_pure hp
  · split
    · next hlt =>
        have hp : sb.hwm < T := hsb ▸ hlt
        refine Sound.bind (keepsSize_setControl ?_) fun _ _ => ?_
        · exact hsb
        refine Sound.bind (keepsSize_stage hp _) fun _ _ => ?_
        exact sound_pure hp
    · exact sound_fail _

theorem keepsSize_freePage {p : Nat} (hp : p < T) :
    KeepsSize T (fun _ => True) (freePage p) := by
  refine keepsSize_getSb.bind fun sb hsb => ?_
  refine Sound.bind (keepsSize_stage hp _) fun _ _ => ?_
  refine keepsSize_setControl ?_
  exact hsb

end Pager

namespace Store

open Pager

variable {T : Nat}

theorem keepsSize_allocPages (n : Nat) :
    KeepsSize T (fun ps => ∀ p ∈ ps, p < T) (allocPages n) := by
  induction n with
  | zero => exact sound_pure (by simp)
  | succ n ih =>
      refine keepsSize_allocPage.bind fun p hp => ih.bind fun ps hps => sound_pure ?_
      intro q hq
      rcases List.mem_cons.mp hq with rfl | hq
      · exact hp
      · exact hps q hq

theorem keepsSize_writeChunks {ps : List Nat} (hps : ∀ p ∈ ps, p < T) (bytes : List Byte) :
    KeepsSize T (fun _ => True) (writeChunks ps bytes) := by
  induction ps generalizing bytes with
  | nil => exact keepsSize_pure _
  | cons p ps ih =>
      refine (keepsSize_stage (hps p List.mem_cons_self) _).bind fun _ _ => ?_
      exact ih (fun q hq => hps q (List.mem_cons_of_mem _ hq)) _

theorem keepsSize_writeChain (bytes : List Byte) :
    KeepsSize T (fun _ => True) (writeChain bytes) := by
  refine (keepsSize_allocPages _).bind fun ps hps => ?_
  exact (keepsSize_writeChunks hps bytes).bind fun _ _ => keepsSize_pure _

theorem keepsSize_freeChainLoop (fuel p : Nat) :
    KeepsSize T (fun _ => True) (freeChainLoop fuel p) := by
  induction fuel generalizing p with
  | zero => exact sound_diverge
  | succ fuel ih =>
      rw [freeChainLoop]
      split
      · exact keepsSize_pure _
      · refine (keepsSize_getPage p).bind fun page hp => ?_
        exact (keepsSize_freePage hp).bind fun _ _ => ih _

theorem keepsSize_freeChain (head : Nat) :
    KeepsSize T (fun _ => True) (freeChain head) :=
  keepsSize_getSb.bind fun _ _ => keepsSize_freeChainLoop _ _

theorem keepsSize_storeCatalog (cat : List CatEntry) :
    KeepsSize T (fun _ => True) (storeCatalog cat) := by
  refine Sound.bind keepsSize_getSb fun sb _ => ?_
  refine Sound.bind (keepsSize_writeChain _) fun new _ => ?_
  refine Sound.bind keepsSize_getSb fun sb' hsb' => ?_
  refine Sound.bind (keepsSize_setControl ?_) fun _ _ => ?_
  · exact hsb'
  split
  · exact keepsSize_freeChain _
  · exact keepsSize_pure _

theorem keepsSize_indexAppendLoop (rowHead fuel p : Nat) :
    KeepsSize T (fun _ => True) (indexAppendLoop rowHead fuel p) := by
  induction fuel generalizing p with
  | zero => exact sound_diverge
  | succ fuel ih =>
      rw [indexAppendLoop]
      refine Sound.bind (keepsSize_getPage p) fun page hp => ?_
      dsimp only
      split
      · split
        · refine Sound.bind (keepsSize_stage hp _) fun _ _ => ?_
          exact keepsSize_pure _
        · refine Sound.bind keepsSize_allocPage fun np hnp => ?_
          refine Sound.bind (keepsSize_stage hnp _) fun _ _ => ?_
          refine Sound.bind (keepsSize_stage hp _) fun _ _ => ?_
          exact keepsSize_pure _
      · exact ih _

theorem keepsSize_indexAppend (dataHead rowHead : Nat) :
    KeepsSize T (fun _ => True) (indexAppend dataHead rowHead) :=
  keepsSize_getSb.bind fun _ _ => keepsSize_indexAppendLoop _ _ _

theorem keepsSize_indexSet (indexPage slot value : Nat) :
    KeepsSize T (fun _ => True) (indexSet indexPage slot value) := by
  refine Sound.bind (keepsSize_getPage indexPage) fun page hp => ?_
  dsimp only
  split
  · exact sound_fail _
  · split
    · exact sound_panic
    · exact keepsSize_stage hp _

theorem keepsSize_freeRows (rows : List (RowId × Nat)) :
    KeepsSize T (fun _ => True)
      (forM rows fun (_, head) => freeChain head : PageProg PUnit) := by
  induction rows with
  | nil => exact keepsSize_pure _
  | cons row rows ih =>
      rw [List.forM_cons]
      exact Sound.bind (keepsSize_freeChain _) fun _ _ => ih

theorem keepsSize_rewriteRows (map : Row → Row) (rows : List (RowId × Nat)) :
    KeepsSize T (fun _ => True) (rewriteRows map rows) := by
  induction rows with
  | nil => exact keepsSize_pure _
  | cons row rows ih =>
      refine Sound.bind (keepsSize_query _) fun cells _ => ?_
      refine Sound.bind (keepsSize_freeChain _) fun _ _ => ?_
      refine Sound.bind (keepsSize_writeChain _) fun nh _ => ?_
      exact Sound.bind (keepsSize_indexSet _ _ _) fun _ _ => ih

theorem keepsSize_putSchema (name : String) (mutate : Table → Outcome StoreError Table)
    (rewrite : Option (Row → Row)) :
    KeepsSize T (fun _ => True) (putSchema name mutate rewrite) := by
  refine Sound.bind (keepsSize_query _) fun cat _ => ?_
  refine Sound.bind (keepsSize_outcome _) fun i _ => ?_
  refine Sound.bind (keepsSize_outcome _) fun e _ => ?_
  refine Sound.bind (keepsSize_query _) fun t _ => ?_
  refine Sound.bind (keepsSize_outcome _) fun t' _ => ?_
  have hrest : KeepsSize T (fun _ => True) (do
      let head ← writeChain t'.encode
      freeChain e.schemaHead
      storeCatalog (cat.set i { e with schemaHead := head })) := by
    refine Sound.bind (keepsSize_writeChain _) fun head _ => ?_
    refine Sound.bind (keepsSize_freeChain _) fun _ _ => ?_
    exact keepsSize_storeCatalog _
  cases rewrite with
  | none => exact hrest
  | some map =>
      refine Sound.bind (keepsSize_query _) fun rows _ => ?_
      exact Sound.bind (keepsSize_rewriteRows map rows) fun _ _ => hrest

theorem keepsSize_renameAll (table old new : String) (cat : List CatEntry) :
    KeepsSize T (fun _ => True) (renameAll table old new cat) := by
  induction cat with
  | nil => exact keepsSize_pure _
  | cons e cat ih =>
      refine Sound.bind (keepsSize_query _) fun t _ => ?_
      have hrest : ∀ e' : CatEntry, KeepsSize T (fun _ => True) (do
          let rest ← renameAll table old new cat
          pure (e' :: rest)) := fun e' =>
        Sound.bind ih fun rest _ => keepsSize_pure _
      dsimp only
      split
      · refine Sound.bind (keepsSize_writeChain _) fun head _ => ?_
        refine Sound.bind (keepsSize_freeChain _) fun _ _ => ?_
        exact hrest _
      · exact hrest _

/-! ## Operations -/

variable {α β : Type}

theorem ofQuery_bind (q : PageQuery β) (f : β → PageQuery α) :
    Prog.ofQuery (q >>= f) =
      (liftM q : PageProg β) >>= fun b => Prog.ofQuery (f b) := by
  show Prog.ofQuery (q.bind f) = (Prog.ofQuery q).bind fun b => Prog.ofQuery (f b)
  induction q with
  | done o => cases o <;> rfl
  | read a k ih => exact congrArg (Prog.read a) (funext ih)
  | ctl k ih => exact congrArg Prog.ctl (funext ih)

/-- Asking first changes nothing. -/
theorem steady_bind {q : PageQuery β} {f : β → PageQuery (Call α)}
    (hf : ∀ b, Steady T (f b)) : Steady T (q >>= f) := by
  unfold Steady
  rw [ofQuery_bind]
  exact Sound.bind (keepsSize_query q) fun b _ => hf b

theorem steady_ret (a : α) : Steady T (pure (.ret a) : PageQuery (Call α)) := by
  refine sound_pure fun body h => ?_
  cases h

theorem steady_tx {body : PageProg α} (hb : KeepsSize T (fun _ => True) body) :
    Steady T (pure (.tx body) : PageQuery (Call α)) := by
  refine sound_pure fun body' h => ?_
  cases h
  exact hb

theorem steady_fail (e : StoreError) : Steady T (Query.fail e : PageQuery (Call α)) :=
  sound_fail e

theorem steady_map (f : α → β) {m : PageQuery (Call α)} (hm : Steady T m) :
    Steady T (do let c ← m; pure (c.map f)) := by
  unfold Steady
  rw [ofQuery_bind]
  refine Sound.bind hm fun c hc => ?_
  cases c with
  | ret a => exact steady_ret (f a)
  | tx body =>
      refine steady_tx ?_
      refine Sound.bind (hc body rfl) fun a _ => ?_
      exact keepsSize_pure _

theorem steady_answer (f : α → Reply RowId) (q : PageQuery α) : Steady T (answer f q) :=
  steady_bind fun a => steady_ret (f a)

theorem steady_createTable (name : String) : Steady T (createTable name) := by
  unfold createTable
  split
  · exact steady_fail _
  · refine steady_tx ?_
    refine Sound.bind (keepsSize_query _) fun cat _ => ?_
    split
    · exact sound_fail _
    · refine Sound.bind (keepsSize_writeChain _) fun schemaHead _ => ?_
      refine Sound.bind (keepsSize_writeChain _) fun dataHead _ => ?_
      exact keepsSize_storeCatalog _

theorem steady_dropTable (name : String) : Steady T (dropTable name) := by
  refine steady_tx ?_
  refine Sound.bind (keepsSize_query _) fun cat _ => ?_
  refine Sound.bind (keepsSize_outcome _) fun i _ => ?_
  refine Sound.bind (keepsSize_query _) fun _ _ => ?_
  refine Sound.bind (keepsSize_outcome _) fun e _ => ?_
  refine Sound.bind (keepsSize_query _) fun rows _ => ?_
  refine Sound.bind (keepsSize_freeRows rows) fun _ _ => ?_
  refine Sound.bind (keepsSize_freeChain _) fun _ _ => ?_
  refine Sound.bind (keepsSize_freeChain _) fun _ _ => ?_
  exact keepsSize_storeCatalog _

theorem steady_putSchema (name : String) (mutate : Table → Outcome StoreError Table)
    (rewrite : Option (Row → Row)) :
    Steady T (pure (.tx (putSchema name mutate rewrite)) : PageQuery (Call Unit)) :=
  steady_tx (keepsSize_putSchema name mutate rewrite)

theorem steady_addColumn (table : String) (col : Column) : Steady T (addColumn table col) := by
  unfold addColumn
  split
  · refine steady_bind fun cat => steady_bind fun i => steady_bind fun e => ?_
    split
    · exact steady_fail _
    · exact steady_putSchema _ _ _
  · exact steady_putSchema _ _ _

theorem steady_dropColumn (table col : String) : Steady T (dropColumn table col) := by
  refine steady_bind fun cat => steady_bind fun i => steady_bind fun e =>
    steady_bind fun t => steady_bind fun idx => ?_
  split
  · exact steady_fail _
  · exact steady_bind fun _ => steady_putSchema _ _ _

theorem steady_moveColumn (table col : String) (newIndex : Nat) :
    Steady T (moveColumn table col newIndex) := by
  refine steady_bind fun cat => steady_bind fun i => steady_bind fun e =>
    steady_bind fun t => ?_
  refine steady_bind fun old => ?_
  split
  · exact steady_fail _
  · split
    · exact steady_ret _
    · exact steady_bind fun perm => steady_putSchema _ _ _

theorem steady_renameColumn (table old new : String) :
    Steady T (renameColumn table old new) := by
  unfold renameColumn
  split
  · exact steady_fail _
  · split
    · exact steady_ret _
    · refine steady_tx ?_
      refine Sound.bind (keepsSize_query _) fun cat _ => ?_
      refine Sound.bind (keepsSize_outcome _) fun i _ => ?_
      refine Sound.bind (keepsSize_outcome _) fun e _ => ?_
      refine Sound.bind (keepsSize_query _) fun t _ => ?_
      split
      · exact sound_fail _
      · split
        · exact sound_fail _
        · refine Sound.bind (keepsSize_renameAll _ _ _ cat) fun cat' _ => ?_
          exact keepsSize_storeCatalog cat'

theorem steady_setUnique (table col : String) (unique : Bool) :
    Steady T (setUnique table col unique) := by
  refine steady_bind fun cat => steady_bind fun i => steady_bind fun e =>
    steady_bind fun t => steady_bind fun ci => ?_
  split
  · exact steady_bind fun _ => steady_putSchema _ _ _
  · refine steady_bind fun vals => ?_
    split
    · exact steady_fail _
    · exact steady_putSchema _ _ _

theorem steady_addFk (table fromCol toTable toCol : String) :
    Steady T (addFk table fromCol toTable toCol) := by
  refine steady_bind fun cat => steady_bind fun i => steady_bind fun e =>
    steady_bind fun t => steady_bind fun fc => steady_bind fun j => ?_
  refine steady_bind fun te => steady_bind fun tt => steady_bind fun tc => ?_
  split
  · exact steady_fail _
  · split
    · exact steady_fail _
    · refine steady_bind fun a => steady_bind fun targets => steady_bind fun b => ?_
      refine steady_bind fun vals => steady_bind fun _ => steady_bind fun name => ?_
      exact steady_putSchema _ _ _

theorem steady_insert (table : String) (cells : Row) : Steady T (insert table cells) := by
  refine steady_tx ?_
  refine Sound.bind (keepsSize_query _) fun cat _ => ?_
  refine Sound.bind (keepsSize_outcome _) fun i _ => ?_
  refine Sound.bind (keepsSize_outcome _) fun e _ => ?_
  refine Sound.bind (keepsSize_query _) fun t _ => ?_
  refine Sound.bind (keepsSize_query _) fun _ _ => ?_
  refine Sound.bind (keepsSize_writeChain _) fun head _ => ?_
  refine Sound.bind (keepsSize_indexAppend _ _) fun id _ => ?_
  exact Sound.bind (keepsSize_storeCatalog _) fun _ _ => keepsSize_pure _

theorem steady_update (table : String) (id : RowId) (cells : Row) :
    Steady T (update table id cells) := by
  refine steady_tx ?_
  refine Sound.bind (keepsSize_query _) fun cat _ => ?_
  refine Sound.bind (keepsSize_outcome _) fun i _ => ?_
  refine Sound.bind (keepsSize_outcome _) fun e _ => ?_
  refine Sound.bind (keepsSize_query _) fun t _ => ?_
  refine Sound.bind (keepsSize_query _) fun _ _ => ?_
  refine Sound.bind (keepsSize_query _) fun old _ => ?_
  refine Sound.bind (keepsSize_query _) fun oldRow _ => ?_
  refine Sound.bind (keepsSize_query _) fun _ _ => ?_
  refine Sound.bind (keepsSize_writeChain _) fun new _ => ?_
  exact Sound.bind (keepsSize_indexSet _ _ _) fun _ _ => keepsSize_freeChain _

theorem steady_delete (table : String) (id : RowId) : Steady T (delete table id) := by
  refine steady_tx ?_
  refine Sound.bind (keepsSize_query _) fun cat _ => ?_
  refine Sound.bind (keepsSize_outcome _) fun i _ => ?_
  refine Sound.bind (keepsSize_outcome _) fun e _ => ?_
  refine Sound.bind (keepsSize_query _) fun t _ => ?_
  refine Sound.bind (keepsSize_query _) fun head _ => ?_
  refine Sound.bind (keepsSize_query _) fun row _ => ?_
  refine Sound.bind (keepsSize_query _) fun _ _ => ?_
  refine Sound.bind (keepsSize_freeChain _) fun _ _ => ?_
  exact Sound.bind (keepsSize_indexSet _ _ _) fun _ _ => keepsSize_storeCatalog _

/-- Every operation, with any arguments. -/
theorem steady_method (op : Op RowId) : Steady T (method op) := by
  cases op with
  | createTable name => exact steady_map _ (steady_createTable name)
  | dropTable name => exact steady_map _ (steady_dropTable name)
  | addColumn table col => exact steady_map _ (steady_addColumn table col)
  | dropColumn table col => exact steady_map _ (steady_dropColumn table col)
  | moveColumn table col newIndex => exact steady_map _ (steady_moveColumn table col newIndex)
  | renameColumn table old new => exact steady_map _ (steady_renameColumn table old new)
  | setUnique table col unique => exact steady_map _ (steady_setUnique table col unique)
  | addFk table fromCol toTable toCol => exact steady_map _ (steady_addFk _ _ _ _)
  | dropFk table fkName => exact steady_map _ (steady_putSchema _ _ _)
  | setReferenceColumns table cols => exact steady_map _ (steady_putSchema _ _ _)
  | setDisplayWidth table col width => exact steady_map _ (steady_putSchema _ _ _)
  | insert table cells => exact steady_map _ (steady_insert table cells)
  | update table id cells => exact steady_map _ (steady_update table id cells)
  | delete table id => exact steady_map _ (steady_delete table id)
  | listTables => exact steady_answer _ _
  | getTable name => exact steady_answer _ _
  | scan name => exact steady_answer _ _
  | getRow name id => exact steady_answer _ _
  | followFk table id fkName => exact steady_answer _ _
  | referencingRows table id => exact steady_answer _ _

end Store

end TablesOS
