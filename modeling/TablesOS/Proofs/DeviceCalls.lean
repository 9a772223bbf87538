import TablesOS.Engine.Journal

/-!
# Counting device calls

`Calls n π k P m Q E` is a triple for a computation on a disk of `n` sectors
with fault plan `π`: from a medium in `P`, the computation makes exactly `k`
calls and answers with a medium in `Q`, or one of its calls is one the plan
fails and the medium is then in `E`. On a disk that works the second case is
empty, so a triple also says that the computation comes back with `Ok`; with
one planned fault it says which calls may still go wrong; and for a power cut
`E` is what the medium may look like when the power goes.

The rest of the file puts the page level over the sector level: `image` is
the page a run of eight sectors holds, and a batch of page writes followed by
a flush is `sync`, the unit both halves of the journal are made of.
-/

namespace TablesOS

open Medium

/-! ## The triple -/

namespace Disk

/-- Sectors, plan, calls so far, and the medium. -/
structure At (n : Nat) (π : Nat → Bool) (c : Nat) (M : Medium Sector → Prop)
    (d : Disk) : Prop where
  sectors : d.sectors = n
  plan : d.plan = π
  clock : d.clock = c
  medium : M d.medium

/-- The state in which a planned fault, after call `c`, has stopped a
computation. -/
structure Stopped (n : Nat) (π : Nat → Bool) (c : Nat) (M : Medium Sector → Prop)
    (d : Disk) : Prop where
  sectors : d.sectors = n
  plan : d.plan = π
  medium : M d.medium
  fault : ∃ i, c ≤ i ∧ i < d.clock ∧ π i = true

theorem Stopped.earlier {n c c' : Nat} {π : Nat → Bool} {M M' : Medium Sector → Prop}
    {d : Disk} (h : Stopped n π c' M d) (hc : c ≤ c') (hM : ∀ m, M m → M' m) :
    Stopped n π c M' d := by
  obtain ⟨i, hi, hlt, hf⟩ := h.fault
  exact ⟨h.sectors, h.plan, hM _ h.medium, i, by omega, hlt, hf⟩

end Disk

open Disk

def Calls {α : Type} (n : Nat) (π : Nat → Bool) (k : Nat)
    (P : Medium Sector → Prop) (m : DevM Disk α)
    (Q : α → Medium Sector → Prop) (E : Medium Sector → Prop) : Prop :=
  ∀ c, Fallible.Triple (At n π c P) m (fun a => At n π (c + k) (Q a))
    (Stopped n π c E)

namespace Calls

variable {α β : Type} {n k k' : Nat} {π : Nat → Bool}
  {P P' E E' : Medium Sector → Prop} {Q Q' : α → Medium Sector → Prop}
  {m : DevM Disk α}

theorem conseq (h : Calls n π k P m Q E) (hP : ∀ m, P' m → P m)
    (hQ : ∀ a m, Q a m → Q' a m) (hE : ∀ m, E m → E' m) :
    Calls n π k P' m Q' E' := fun c =>
  (h c).conseq (fun _ hd => ⟨hd.sectors, hd.plan, hd.clock, hP _ hd.medium⟩)
    (fun a _ hd => ⟨hd.sectors, hd.plan, hd.clock, hQ a _ hd.medium⟩)
    fun _ hd => hd.earlier (Nat.le_refl c) hE

theorem pure {a : α} (h : ∀ m, P m → Q a m) :
    Calls n π 0 P (Pure.pure a : DevM Disk α) Q E := fun _ =>
  Fallible.Triple.pure fun _ hd => ⟨hd.sectors, hd.plan, hd.clock, h _ hd.medium⟩

theorem bind {f : α → DevM Disk β} {R : β → Medium Sector → Prop}
    (hm : Calls n π k P m Q E) (hf : ∀ a, Calls n π k' (Q a) (f a) R E) :
    Calls n π (k + k') P (m >>= f) R E := fun c => by
  refine (hm c).bind fun a => ?_
  have h := hf a (c + k)
  rw [Nat.add_assoc] at h
  exact h.conseq (fun _ hd => hd) (fun _ _ hd => hd) fun _ hd =>
    hd.earlier (Nat.le_add_right c k) fun _ hM => hM

theorem congr_count (h : Calls n π k P m Q E) (hk : k = k') :
    Calls n π k' P m Q E := hk ▸ h

/-- What the precondition says beside the medium may be used. -/
theorem of_fact {p : Prop} (h : p → Calls n π k P m Q E) :
    Calls n π k (fun m => p ∧ P m) m Q E := fun c d hd =>
  h hd.medium.1 c d ⟨hd.sectors, hd.plan, hd.clock, hd.medium.2⟩

theorem of_fact_right {p : Prop} (h : p → Calls n π k P m Q E) :
    Calls n π k (fun m => P m ∧ p) m Q E := fun c d hd =>
  h hd.medium.2 c d ⟨hd.sectors, hd.plan, hd.clock, hd.medium.1⟩

theorem of_exists {ι : Type} {R : ι → Medium Sector → Prop}
    (h : ∀ x, Calls n π k (R x) m Q E) : Calls n π k (fun m => ∃ x, R x m) m Q E :=
  fun c d hd => by
    obtain ⟨x, hx⟩ := hd.medium
    exact h x c d ⟨hd.sectors, hd.plan, hd.clock, hx⟩

/-- What the triple says of one run. -/
theorem run (h : Calls n π k P m Q E) {d : Disk} (hn : d.sectors = n)
    (hπ : d.plan = π) (hP : P d.medium) :
    (∃ a d', m d = (.ok a, d') ∧ At n π (d.clock + k) (Q a) d') ∨
      ∃ e d', m d = (.error e, d') ∧ Stopped n π d.clock E d' := by
  have ht := h d.clock d ⟨hn, hπ, rfl, hP⟩
  rcases hm : m d with ⟨e | a, d'⟩ <;> rw [hm] at ht
  · exact Or.inr ⟨e, d', rfl, ht⟩
  · exact Or.inl ⟨a, d', rfl, ht⟩

/-- On a disk that works there is only the first case. -/
theorem run_quiet (h : Calls n π k P m Q E) {d : Disk} (hn : d.sectors = n)
    (hπ : d.plan = π) (hq : d.Quiet) (hP : P d.medium) :
    ∃ a d', m d = (.ok a, d') ∧ At n π (d.clock + k) (Q a) d' := by
  rcases h.run hn hπ hP with h' | ⟨e, d', _, hs⟩
  · exact h'
  · obtain ⟨i, _, _, hi⟩ := hs.fault
    rw [← hπ, hq i] at hi
    cases hi

end Calls

/-! ## Single calls -/

section Single

variable {n : Nat} {π : Nat → Bool} {P E : Medium Sector → Prop}

/-- One device call, in range. -/
theorem calls_call {α : Type} {inRange : Disk → Bool} {act : Disk → α × Disk}
    {Q : α → Medium Sector → Prop}
    (hr : ∀ d : Disk, d.sectors = n → inRange d = true)
    (hact : ∀ d : Disk, d.sectors = n → P d.medium →
      (act d).2.sectors = n ∧ (act d).2.plan = d.plan ∧
        (act d).2.clock = d.clock ∧ Q (act d).1 (act d).2.medium)
    (hE : ∀ m, P m → E m) : Calls n π 1 P (Disk.call inRange act) Q E := by
  intro _ d hd
  unfold Disk.call
  simp only [hr d hd.sectors, Bool.not_true, Bool.or_false]
  by_cases hf : d.plan d.clock = true
  · rw [if_pos hf]
    exact ⟨hd.sectors, hd.plan, hE _ hd.medium, d.clock, Nat.le_of_eq hd.clock.symm,
      Nat.lt_succ_self _, hd.plan ▸ hf⟩
  · rw [if_neg hf]
    obtain ⟨h1, h2, h3, h4⟩ := hact { d with clock := d.clock + 1 } hd.sectors hd.medium
    exact ⟨h1, h2.trans hd.plan, h3.trans (congrArg (· + 1) hd.clock), h4⟩

theorem calls_readSector {lba : Nat} {V : Nat → Sector} (hl : lba < n)
    (hV : ∀ m, P m → m.view = V) (hE : ∀ m, P m → E m) :
    Calls n π 1 P (BlockDevice.readSector lba : DevM Disk Sector)
      (fun s m => s = V lba ∧ P m) E :=
  calls_call (fun d hd => by simp only [hd, hl, decide_true])
    (fun d hd hP => ⟨hd, rfl, rfl, by rw [Disk.view, hV _ hP], hP⟩) hE

theorem calls_writeSector {lba : Nat} {s : Sector} {Q : Medium Sector → Prop}
    (hl : lba < n) (hQ : ∀ m, P m → Q (m.write lba s)) (hE : ∀ m, P m → E m) :
    Calls n π 1 P (BlockDevice.writeSector lba s : DevM Disk Unit) (fun _ => Q) E :=
  calls_call (fun d hd => by simp only [hd, hl, decide_true])
    (fun _ hd hP => ⟨hd, rfl, rfl, hQ _ hP⟩) hE

theorem calls_flush {Q : Medium Sector → Prop} (hQ : ∀ m, P m → Q m.flush)
    (hE : ∀ m, P m → E m) :
    Calls n π 1 P (BlockDevice.flush : DevM Disk Unit) (fun _ => Q) E :=
  calls_call (fun _ _ => rfl) (fun _ hd hP => ⟨hd, rfl, rfl, hQ _ hP⟩) hE

end Single

/-! ## Pages over sectors -/

/-- The page that sectors `8 p .. 8 p + 7` hold. -/
def image (V : Nat → Sector) (p : Nat) : Page :=
  Buf.join fun i => V (p * pageSectors + i)

theorem get_image (V : Nat → Sector) (p : Nat) {j : Nat} (hj : j < pageSize) :
    (image V p).get j = (V (p * pageSectors + j / sectorSize)).get (j % sectorSize) :=
  Buf.get_join _ hj

theorem sector_get (x : Page) (i : Nat) {j : Nat} (hj : j < sectorSize) :
    (x.sector i).get j = x.get (i * sectorSize + j) := by
  rw [Buf.get, dif_pos hj]
  rfl

/-- A page is its eight sectors. -/
theorem image_sector (V : Nat → Sector) (p : Nat) {i : Nat} (hi : i < pageSectors) :
    (image V p).sector i = V (p * pageSectors + i) := by
  ext j hj
  rw [sector_get _ _ hj,
    get_image _ _ (by simp only [pageSectors, sectorSize, pageSize] at *; omega)]
  have h1 : (i * sectorSize + j) / sectorSize = i := by
    simp only [sectorSize] at *
    omega
  have h2 : (i * sectorSize + j) % sectorSize = j := by
    simp only [sectorSize] at *
    omega
  rw [h1, h2]

theorem sector_of_image (V : Nat → Sector) (lba : Nat) :
    V lba = (image V (lba / pageSectors)).sector (lba % pageSectors) := by
  rw [image_sector _ _ (Nat.mod_lt _ (by decide)), Nat.div_add_mod' lba pageSectors]

theorem image_congr {V W : Nat → Sector} {p : Nat}
    (h : ∀ i < pageSectors, V (p * pageSectors + i) = W (p * pageSectors + i)) :
    image V p = image W p := by
  ext j hj
  rw [get_image _ _ hj, get_image _ _ hj, h]
  simp only [pageSize, sectorSize, pageSectors] at *
  omega

theorem sectorOf_eq {p i n : Nat} (hn : n < 2 ^ 64) (h : p * pageSectors + i < n) :
    Journal.sectorOf p i = p * pageSectors + i :=
  Nat.mod_eq_of_lt (by omega)

/-- The sector writes of one page write, in order. -/
def pageWrites (w : Nat × Page) : List (Nat × Sector) :=
  (List.range pageSectors).map fun i => (w.1 * pageSectors + i, w.2.sector i)

theorem mem_pageWrites {w : Nat × Page} {x : Nat × Sector} (h : x ∈ pageWrites w) :
    x.1 / pageSectors = w.1 ∧ x.2 = w.2.sector (x.1 % pageSectors) := by
  obtain ⟨i, hi, rfl⟩ := List.mem_map.mp h
  rw [List.mem_range] at hi
  constructor
  · simp only [pageSectors] at *
    omega
  · simp only [pageSectors] at *
    rw [show (w.1 * 8 + i) % 8 = i by omega]

/-- Writing a page replaces the page and nothing else. -/
theorem image_updAll_page (V : Nat → Sector) (w : Nat × Page) :
    image (updAll V (pageWrites w)) = upd (image V) w.1 w.2 := by
  funext p
  by_cases hp : p = w.1
  · subst hp
    rw [upd_self]
    ext j hj
    rw [get_image _ _ hj]
    have hi : j / sectorSize < pageSectors := by
      simp only [pageSize, sectorSize, pageSectors] at *
      omega
    have hsec : updAll V (pageWrites w) (w.1 * pageSectors + j / sectorSize) =
        w.2.sector (j / sectorSize) := by
      refine updAll_mem (fun x hx hxa => ?_)
        (Or.inl ⟨_, List.mem_map.mpr ⟨_, List.mem_range.mpr hi, rfl⟩, rfl⟩)
      rw [(mem_pageWrites hx).2, hxa, Nat.add_comm, Nat.add_mul_mod_self_right,
        Nat.mod_eq_of_lt hi]
    rw [hsec, sector_get _ _ (Nat.mod_lt _ (by decide))]
    rw [Nat.div_add_mod' j sectorSize]
  · rw [upd_other hp]
    refine image_congr fun i hi => updAll_other fun x hx hxa => hp ?_
    rw [← (mem_pageWrites hx).1, hxa]
    simp only [pageSectors] at *
    omega

theorem image_updAll (V : Nat → Sector) (ws : List (Nat × Page)) :
    image (updAll V (ws.flatMap pageWrites)) = updAll (image V) ws := by
  induction ws generalizing V with
  | nil => rfl
  | cons w ws ih =>
      rw [List.flatMap_cons, updAll_append, ih, image_updAll_page]
      rfl

/-! ## Page calls -/

namespace Journal

section PageCalls

variable {n : Nat} {π : Nat → Bool} {P E : Medium Sector → Prop}

/-- Reading a page reads its image and leaves the medium alone. -/
theorem calls_readPage {p : Nat} {out : Page} {V : Nat → Sector} (hn : n < 2 ^ 64)
    (hp : p * pageSectors + pageSectors ≤ n) (hV : ∀ m, P m → m.view = V)
    (hE : ∀ m, P m → E m) :
    Calls n π pageSectors P (readPage p out : DevM Disk Page)
      (fun x m => x = image V p ∧ P m) E := by
  have hloop : ∀ k ≤ pageSectors, Calls n π k P
      ((List.range k).foldlM (fun out i => do
        let sec ← BlockDevice.readSector (sectorOf p i)
        Pure.pure (out.put (i * sectorSize) sec.toList)) out : DevM Disk Page)
      (fun x m => x = Buf.overlay (image V p) out (k * sectorSize) ∧ P m) E := by
    intro k
    induction k with
    | zero =>
        intro _
        refine Calls.pure fun m hm => ⟨?_, hm⟩
        rw [Nat.zero_mul, Buf.overlay_zero]
    | succ k ih =>
        intro hk
        rw [List.range_succ, List.foldlM_append]
        refine (ih (by omega)).bind fun x => ?_
        have hlba : p * pageSectors + k < n := by omega
        show Calls n π (1 + 0) _ ((do
          let sec ← BlockDevice.readSector (sectorOf p k)
          Pure.pure (x.put (k * sectorSize) sec.toList)) >>= Pure.pure) _ _
        rw [bind_pure, sectorOf_eq hn hlba]
        refine (calls_readSector hlba (fun m hm => hV m hm.2) fun m hm => hE m hm.2).bind
          fun s => Calls.pure ?_
        rintro m ⟨rfl, rfl, hm⟩
        exact ⟨Buf.overlay_put _ out k, hm⟩
  refine (hloop pageSectors (Nat.le_refl _)).conseq (fun _ h => h) ?_ fun _ h => h
  rintro x m ⟨rfl, hm⟩
  exact ⟨Buf.overlay_all _ _ (Nat.le_refl _), hm⟩

/-- A batch of page writes. -/
def writePages (ws : List (Nat × Page)) : DevM Disk Unit :=
  ws.forM fun w => writePage w.1 w.2

/-- Writing sectors that `A` allows, in range. -/
theorem calls_writeSectors {A : Nat → Sector → Prop} {U : Nat → Sector}
    {ws : List (Nat × Sector)} (hr : ∀ w ∈ ws, w.1 < n) (hA : ∀ w ∈ ws, A w.1 w.2) :
    Calls n π ws.length (fun m => m.Within A ∧ m.view = U)
      (ws.forM fun w => BlockDevice.writeSector w.1 w.2 : DevM Disk Unit)
      (fun _ m => m.Within A ∧ m.view = updAll U ws) (fun m => m.Within A) := by
  induction ws generalizing U with
  | nil => exact Calls.pure fun _ h => h
  | cons w ws ih =>
      rw [List.length_cons, Nat.add_comm]
      refine (calls_writeSector (hr w List.mem_cons_self) (fun m hm => ?_) fun m hm => hm.1).bind
        fun _ => ih (U := upd U w.1 w.2) (fun x hx => hr x (List.mem_cons_of_mem _ hx))
          fun x hx => hA x (List.mem_cons_of_mem _ hx)
      refine ⟨hm.1.write (hA w List.mem_cons_self), ?_⟩
      rw [view_write, hm.2]

theorem writePage_eq (hn : n < 2 ^ 64) {w : Nat × Page}
    (hw : w.1 * pageSectors + pageSectors ≤ n) :
    (writePage w.1 w.2 : DevM Disk Unit) =
      (pageWrites w).forM fun x => BlockDevice.writeSector x.1 x.2 := by
  have hcongr : ∀ is : List Nat, (∀ i ∈ is, i < pageSectors) →
      (is.forM fun i => BlockDevice.writeSector (sectorOf w.1 i) (w.2.sector i) :
        DevM Disk Unit) =
      (is.map fun i => (w.1 * pageSectors + i, w.2.sector i)).forM fun x =>
        BlockDevice.writeSector x.1 x.2 := by
    intro is
    induction is with
    | nil => intro _; rfl
    | cons i is ih =>
        intro h
        have hi := h i List.mem_cons_self
        rw [List.map_cons, List.forM_eq_forM, List.forM_eq_forM, List.forM_cons,
          List.forM_cons, ← List.forM_eq_forM, ← List.forM_eq_forM,
          ih fun j hj => h j (List.mem_cons_of_mem _ hj), sectorOf_eq hn (by omega)]
  exact hcongr _ fun i hi => List.mem_range.mp hi

theorem calls_writePage {A : Nat → Sector → Prop} {U : Nat → Sector} {w : Nat × Page}
    (hn : n < 2 ^ 64) (hw : w.1 * pageSectors + pageSectors ≤ n)
    (hA : ∀ x ∈ pageWrites w, A x.1 x.2) :
    Calls n π pageSectors (fun m => m.Within A ∧ m.view = U)
      (writePage w.1 w.2 : DevM Disk Unit)
      (fun _ m => m.Within A ∧ m.view = updAll U (pageWrites w)) (fun m => m.Within A) := by
  rw [writePage_eq hn hw]
  refine calls_writeSectors (fun x hx => ?_) hA
  obtain ⟨i, hi, rfl⟩ := List.mem_map.mp hx
  rw [List.mem_range] at hi
  show w.1 * pageSectors + i < n
  omega

theorem calls_writePages {A : Nat → Sector → Prop} {U : Nat → Sector}
    {ws : List (Nat × Page)} (hn : n < 2 ^ 64)
    (hr : ∀ w ∈ ws, w.1 * pageSectors + pageSectors ≤ n)
    (hA : ∀ w ∈ ws, ∀ x ∈ pageWrites w, A x.1 x.2) :
    Calls n π (pageSectors * ws.length) (fun m => m.Within A ∧ m.view = U)
      (writePages ws)
      (fun _ m => m.Within A ∧ m.view = updAll U (ws.flatMap pageWrites))
      (fun m => m.Within A) := by
  induction ws generalizing U with
  | nil => exact Calls.pure fun _ h => h
  | cons w ws ih =>
      rw [List.length_cons, Nat.mul_succ, Nat.add_comm]
      refine (calls_writePage hn (hr w List.mem_cons_self) (hA w List.mem_cons_self)).bind
        fun _ => ?_
      have h := @ih (updAll U (pageWrites w)) (fun x hx => hr x (List.mem_cons_of_mem _ hx))
        fun x hx => hA x (List.mem_cons_of_mem _ hx)
      rw [← updAll_append] at h
      exact h

/-- A batch of page writes, made durable. -/
def sync (ws : List (Nat × Page)) : DevM Disk Unit := do
  writePages ws
  BlockDevice.flush

theorem calls_sync {A : Nat → Sector → Prop} {U : Nat → Sector}
    {ws : List (Nat × Page)} (hn : n < 2 ^ 64)
    (hr : ∀ w ∈ ws, w.1 * pageSectors + pageSectors ≤ n)
    (hA : ∀ w ∈ ws, ∀ x ∈ pageWrites w, A x.1 x.2) :
    Calls n π (pageSectors * ws.length + 1) (fun m => m.Within A ∧ m.view = U)
      (sync ws) (fun _ m => m.Settled (updAll U (ws.flatMap pageWrites)))
      (fun m => m.Within A) := by
  refine (calls_writePages hn hr hA).bind fun _ => calls_flush (fun m hm => ?_) fun m hm => hm.1
  rw [← hm.2]
  exact settled_flush m

end PageCalls

end Journal

end TablesOS
