import TablesOS.Proofs.JournalCrash
import TablesOS.Engine.Handle

/-!
# The pager runs programs as plain memory would

A read goes to the staged images, then the clean cache, then the device. As
long as every cached image is what the device would answer (`Coherent`), none
of that shows: a program run on the pager answers and stages exactly what its
evaluation over the committed pages does, or a planned device fault stopped it
at a read. With that, transactions are settled once: an `Err` leaves the
handle where it was, an `Ok` leaves the committed pages overlaid with the
staged ones.
-/

namespace TablesOS

open Medium Journal

/-! ## Reading a page, whatever the plan -/

/-- What `read_page` answers on a disk that works, from sector count and
view. -/
def readAll (n : Nat) (V : Nat → Sector) (p : Nat) (out : Page) : Except StoreError Page :=
  (List.range pageSectors).foldlM (fun out i =>
    if sectorOf p i < n then .ok (out.put (i * sectorSize) (V (sectorOf p i)).toList)
    else .error .io) out

namespace Disk

/-- The same disk some calls later. -/
def later (d : Disk) (k : Nat) : Disk := { d with clock := d.clock + k }

/-- One of the next `k` calls is planned to fail. -/
def FaultIn (d : Disk) (k : Nat) : Prop := ∃ i < k, d.plan (d.clock + i) = true

theorem FaultIn.later {d : Disk} {j k : Nat} (h : (d.later j).FaultIn k) :
    d.FaultIn (j + k) := by
  obtain ⟨i, hi, hf⟩ := h
  refine ⟨j + i, by omega, ?_⟩
  rw [← Nat.add_assoc]
  exact hf

theorem Quiet.not_faultIn {d : Disk} (h : d.Quiet) (k : Nat) : ¬ d.FaultIn k := by
  rintro ⟨i, -, hf⟩
  rw [h] at hf
  cases hf

theorem later_later (d : Disk) (j k : Nat) : (d.later j).later k = d.later (j + k) := by
  simp [later, Nat.add_assoc]

end Disk

/-- Reading a page moves the clock only, and answers what is there unless a
call fails. -/
theorem readPage_run (d : Disk) (p : Nat) (out : Page) :
    ∃ k, (Journal.readPage p out d).2 = d.later k ∧
      ((Journal.readPage p out d).1 = readAll d.sectors d.view p out ∨
        (Journal.readPage p out d).1 = .error .io ∧ d.FaultIn k) := by
  have hloop : ∀ (is : List Nat) (d : Disk) (out : Page), ∃ k,
      ∃ r, (is.foldlM (fun out i => do
        let sec ← BlockDevice.readSector (sectorOf p i)
        pure (out.put (i * sectorSize) sec.toList)) out : DevM Disk Page) d =
          (r, d.later k) ∧
      (r = is.foldlM (fun out i =>
          if sectorOf p i < d.sectors then
            .ok (out.put (i * sectorSize) (d.view (sectorOf p i)).toList)
          else .error .io) out ∨ r = .error .io ∧ d.FaultIn k) := by
    intro is
    induction is with
    | nil => exact fun d out => ⟨0, _, rfl, Or.inl rfl⟩
    | cons i is ih =>
        intro d out
        rw [List.foldlM_cons, List.foldlM_cons]
        by_cases hf : d.plan d.clock = true
        · refine ⟨1, .error .io, Fallible.run_bind_error (Fallible.run_bind_error ?_),
            Or.inr ⟨rfl, 0, by omega, hf⟩⟩
          show Disk.call _ _ d = _
          simp [Disk.call, hf, Disk.later]
        · by_cases hr : sectorOf p i < d.sectors
          · obtain ⟨k, r, hrun, hres⟩ := ih (d.later 1)
              (out.put (i * sectorSize) (d.view (sectorOf p i)).toList)
            have hread : (BlockDevice.readSector (sectorOf p i) : DevM Disk Sector) d =
                (.ok (d.view (sectorOf p i)), d.later 1) := by
              show Disk.call _ _ d = _
              simp [Disk.call, hf, hr, Disk.later]
              rfl
            refine ⟨1 + k, r, ?_, ?_⟩
            · rw [bind_assoc, Fallible.run_bind_ok hread, ← Disk.later_later]
              exact hrun
            · rw [if_pos hr]
              exact hres.imp id fun h => ⟨h.1, h.2.later⟩
          · refine ⟨1, .error .io, Fallible.run_bind_error (Fallible.run_bind_error ?_),
              Or.inl ?_⟩
            · show Disk.call _ _ d = _
              simp [Disk.call, hr, Disk.later]
            · rw [if_neg hr]
              rfl
  obtain ⟨k, r, hrun, hres⟩ := hloop (List.range pageSectors) d out
  unfold Journal.readPage
  rw [hrun]
  exact ⟨k, rfl, hres⟩

/-- In range, what is there is the page image. -/
theorem readAll_eq {n p : Nat} {V : Nat → Sector} (hn : n < 2 ^ 64)
    (hp : p * pageSectors + pageSectors ≤ n) (out : Page) :
    readAll n V p out = .ok (image V p) := by
  have hr : Calls n Disk.noFaults pageSectors (fun m => m.view = V)
      (Journal.readPage p out) (fun x m => x = image V p ∧ m.view = V) fun _ => True :=
    calls_readPage hn hp (fun _ h => h) fun _ _ => trivial
  obtain ⟨x, d', he, hat⟩ := hr.run_quiet (d := Disk.attach n hn V Disk.noFaults) rfl rfl
    (fun _ => rfl) rfl
  obtain ⟨k, -, h | ⟨-, hf⟩⟩ := readPage_run (Disk.attach n hn V Disk.noFaults) p out
  · rw [he] at h
    rw [← hat.medium.1]
    exact h.symm
  · exact absurd hf (Disk.Quiet.not_faultIn (fun _ => rfl) k)

namespace Pager

/-! ## Programs -/

/-- What a read of a committed page answers. -/
def load (pg : Pager Disk) (p : Nat) : Outcome StoreError Page :=
  .ofExcept (readAll pg.dev.sectors pg.dev.view p zeroedPage)

/-- A read that the staging set does not answer. The pages below the first
data page are not the store's to read, and nothing is said about them. -/
def base (load : Nat → Outcome StoreError Page) (sb : Superblock) (p : Nat) :
    Outcome StoreError Page :=
  if sb.totalPages ≤ p then .err (.corrupt "page out of range")
  else if p < firstDataPage then .panic
  else load p

/-- The state of a run: the number of pages is fixed, staged pages are in
range, and every cached data page is what the device would answer. -/
structure Coherent (T : Nat) (pg : Pager Disk) : Prop where
  size : pg.sb.totalPages = T
  dirty : ∀ p, p ∈ pg.dirty → p < T
  cache : ∀ p x, pg.cache[p]? = some x →
    p < T ∧ (firstDataPage ≤ p → pg.load p = .ok x)

theorem getElem?_cacheInsert {cache : PageMap} {p q : Nat} {x y : Page}
    (h : (cacheInsert cache p x)[q]? = some y) :
    (q = p ∧ y = x) ∨ (q ≠ p ∧ cache[q]? = some y) := by
  unfold cacheInsert at h
  rw [Std.TreeMap.getElem?_insert] at h
  split at h
  · next hpq =>
      left
      injection h with h
      exact ⟨(Nat.compare_eq_eq.mp hpq).symm, h.symm⟩
  · next hpq =>
      have hne : q ≠ p := fun h => hpq (Nat.compare_eq_eq.mpr h.symm)
      split at h
      · simp at h
      · exact Or.inr ⟨hne, h⟩

theorem mem_of_getElem? {m : PageMap} {p : Nat} {x : Page} (h : m[p]? = some x) :
    p ∈ m := by
  rw [Std.TreeMap.mem_iff_isSome_getElem?, h]
  rfl

/-- A read on the pager: what the page map answers, or a planned fault, unless
it is below the data pages. -/
theorem readPage_sim {T : Nat} {pg : Pager Disk} (hc : Coherent T pg) (p : Nat) :
    ∃ r k cache, Pager.readPage p pg =
        (r, ⟨pg.dev.later k, pg.sb, pg.dirty, cache⟩) ∧
      Coherent T ⟨pg.dev.later k, pg.sb, pg.dirty, cache⟩ ∧
      (∀ x, r = .ok x → p < T) ∧
      (.ofExcept r = (Staged.mk pg.sb pg.dirty).read (base pg.load) p ∨
        r = .error .io ∧ pg.dev.FaultIn k ∨
        (Staged.mk pg.sb pg.dirty).read (base pg.load) p = .panic) := by
  unfold Pager.readPage Staged.read base
  cases hd : pg.dirty[p]? with
  | some x =>
      exact ⟨_, 0, _, rfl, hc, fun _ _ => hc.dirty p (mem_of_getElem? hd), Or.inl rfl⟩
  | none =>
      simp only [hc.size]
      cases hcache : pg.cache[p]? with
      | some x =>
          obtain ⟨hlt, hload⟩ := hc.cache p x hcache
          refine ⟨_, 0, _, rfl, hc, fun _ _ => hlt, ?_⟩
          rw [if_neg (by omega)]
          by_cases hdata : p < firstDataPage
          · exact Or.inr (Or.inr (if_pos hdata))
          · rw [if_neg hdata, hload (by omega)]
            exact Or.inl rfl
      | none =>
          simp only []
          split
          · exact ⟨_, 0, _, rfl, hc, (fun _ h => by cases h), Or.inl rfl⟩
          · next hlt =>
              obtain ⟨k, hdev, hres⟩ := readPage_run pg.dev p zeroedPage
              unfold onDev
              rcases hr : Journal.readPage p zeroedPage pg.dev with ⟨e | x, d⟩ <;>
                rw [hr] at hdev hres <;> simp only at hdev hres
              · subst hdev
                refine ⟨_, k, _, rfl, ⟨hc.size, hc.dirty, hc.cache⟩,
                  (fun _ h => by cases h), ?_⟩
                rcases hres with hres | ⟨hres, hf⟩
                · by_cases hdata : p < firstDataPage
                  · exact Or.inr (Or.inr (if_pos hdata))
                  · rw [if_neg hdata]
                    exact Or.inl (congrArg Outcome.ofExcept hres)
                · exact Or.inr (Or.inl ⟨hres, hf⟩)
              · subst hdev
                have hok : pg.load p = .ok x := by
                  rcases hres with hres | ⟨hres, -⟩
                  · exact (congrArg Outcome.ofExcept hres).symm
                  · cases hres
                refine ⟨_, k, _, rfl, ⟨hc.size, hc.dirty, fun q y hq => ?_⟩,
                  fun _ _ => by omega, ?_⟩
                · rcases getElem?_cacheInsert hq with ⟨rfl, rfl⟩ | ⟨-, hq⟩
                  · exact ⟨by omega, fun _ => hok⟩
                  · exact hc.cache q y hq
                · by_cases hdata : p < firstDataPage
                  · exact Or.inr (Or.inr (if_pos hdata))
                  · rw [if_neg hdata]
                    exact Or.inl hok.symm

/-- What a program of the store does to the superblock and the staging set,
`T` being the number of pages. -/
abbrev KeepsSize {α : Type} (T : Nat) (Q : α → Prop) (prog : PageProg α) : Prop :=
  prog.Sound (fun sb => sb.totalPages = T) (· < T) Q

/-- A program on the pager: it does what its evaluation does, unless a planned
fault stopped it at a read or it read below the data pages. -/
theorem runProg_sim {α : Type} {T : Nat} {Q : α → Prop} (prog : PageProg α)
    (hp : KeepsSize T Q prog) :
    ∀ {pg : Pager Disk}, Coherent T pg →
      ∃ o k sb dirty cache, runProg prog pg = (o, ⟨pg.dev.later k, sb, dirty, cache⟩) ∧
        Coherent T ⟨pg.dev.later k, sb, dirty, cache⟩ ∧ (∀ a, o = .ok a → Q a) ∧
        ((o, ⟨sb, dirty⟩) = prog.eval (base pg.load) ⟨pg.sb, pg.dirty⟩ ∨
          o = .err .io ∧ pg.dev.FaultIn k ∨
          (prog.eval (base pg.load) ⟨pg.sb, pg.dirty⟩).1 = .panic) := by
  induction prog with
  | done o => exact fun {pg} hc => ⟨o, 0, _, _, _, rfl, hc, hp, Or.inl rfl⟩
  | read a k ih =>
      intro pg hc
      obtain ⟨r, j, cache, hrun, hc', hlt, hres⟩ := readPage_sim hc a
      simp only [runProg, hrun, Prog.eval]
      cases r with
      | error e =>
          refine ⟨_, j, _, _, _, rfl, hc', (fun _ h => by cases h), ?_⟩
          rcases hres with hres | ⟨he, hf⟩ | hpanic
          · rw [← hres]
            exact Or.inl rfl
          · cases he
            exact Or.inr (Or.inl ⟨rfl, hf⟩)
          · rw [hpanic]
            exact Or.inr (Or.inr rfl)
      | ok x =>
          obtain ⟨o, i, sb, dirty, cache', hrun', hc'', hq, hres'⟩ :=
            ih x (hp (hlt x rfl) x) hc'
          refine ⟨o, j + i, sb, dirty, cache', ?_, ?_, hq, ?_⟩
          · simp only [hrun', Disk.later_later]
          · rw [← Disk.later_later]
            exact hc''
          · rcases hres with hres | ⟨he, -⟩ | hpanic
            · rw [← hres]
              exact hres'.imp id fun h => h.imp (fun h => ⟨h.1, h.2.later⟩) id
            · cases he
            · rw [hpanic]
              exact Or.inr (Or.inr rfl)
  | ctl k ih => exact fun {pg} hc => ih pg.sb (hp pg.sb hc.size) hc
  | write a x p ih =>
      intro pg hc
      have hc' : Coherent T (pg.writePage a x) := ⟨hc.size, fun q hq => ?_, hc.cache⟩
      · exact ih hp.2 hc'
      rcases Std.TreeMap.mem_insert.mp hq with haq | hq
      · rw [← Nat.compare_eq_eq.mp haq]
        exact hp.1
      · exact hc.dirty q hq
  | setCtl sb p ih =>
      intro pg hc
      have hc' : Coherent T { pg with sb } := ⟨hp.1, hc.dirty, hc.cache⟩
      exact ih hp.2 hc'

/-- Questions change neither the superblock nor the staging set. -/
theorem runProg_query {α : Type} {T : Nat} (q : PageQuery α) :
    ∀ {pg : Pager Disk}, Coherent T pg →
      (runProg (Prog.ofQuery q) pg).2.sb = pg.sb ∧
        (runProg (Prog.ofQuery q) pg).2.dirty = pg.dirty := by
  induction q with
  | done o => exact fun _ => ⟨rfl, rfl⟩
  | read a k ih =>
      intro pg hc
      obtain ⟨r, j, cache, hrun, hc', -, -⟩ := readPage_sim hc a
      simp only [Prog.ofQuery, runProg, hrun]
      cases r with
      | error e => exact ⟨rfl, rfl⟩
      | ok x => exact ih x hc'
  | ctl k ih => exact fun {pg} hc => ih pg.sb hc

end Pager

end TablesOS
