import TablesOS.Spec.PlainPager
import TablesOS.Proofs.Transactions

/-!
# The clean cache is transparent

Two pagers side by side, one with the cache and one without, over devices
that hold the same contents. The cached one makes fewer device calls, so the
clocks drift apart; on a device that works nothing else depends on the clock
(`Untimed`). What makes a cached image safe to answer with is that it is what
the device would answer (`Coherent`), and `commit` is the only operation that
changes data pages on the device: it puts the very same images in the cache.
-/

namespace TablesOS

open Medium Journal

/-! ## Computations that do not look at the clock -/

namespace Disk

/-- Two working disks with the same contents. -/
structure Alike (d d' : Disk) : Prop where
  sectors : d.sectors = d'.sectors
  medium : d.medium = d'.medium
  quiet : d.Quiet
  quiet' : d'.Quiet

theorem Quiet.alike {d : Disk} (h : d.Quiet) : Alike d d := ⟨rfl, rfl, h, h⟩

theorem Alike.view {d d' : Disk} (h : Alike d d') : d.view = d'.view :=
  congrArg Medium.view h.medium

/-- Run on alike disks, the computation answers the same and leaves them
alike; it never changes the number of sectors. -/
structure Untimed {α : Type} (m : DevM Disk α) : Prop where
  sectors : ∀ d, (m d).2.sectors = d.sectors
  alike : ∀ {d d'}, Alike d d' → (m d).1 = (m d').1 ∧ Alike (m d).2 (m d').2

namespace Untimed

variable {α β : Type}

theorem pure (a : α) : Untimed (Pure.pure a : DevM Disk α) :=
  ⟨fun _ => rfl, fun h => ⟨rfl, h⟩⟩

theorem throw (e : StoreError) : Untimed (Fallible.throw e : DevM Disk α) :=
  ⟨fun _ => rfl, fun h => ⟨rfl, h⟩⟩

theorem bind {m : DevM Disk α} {f : α → DevM Disk β} (hm : Untimed m)
    (hf : ∀ a, Untimed (f a)) : Untimed (m >>= f) := by
  constructor
  · intro d
    have h := hm.sectors d
    rcases hd : m d with ⟨e | a, d₁⟩ <;> rw [hd] at h
    · rw [Fallible.run_bind_error hd]
      exact h
    · rw [Fallible.run_bind_ok hd, (hf a).sectors]
      exact h
  · intro d d' h
    obtain ⟨hr, ha⟩ := hm.alike h
    rcases hd : m d with ⟨r, d₁⟩
    rcases hd' : m d' with ⟨r', d₁'⟩
    rw [hd, hd'] at hr ha
    simp only at hr ha
    subst hr
    cases r with
    | error e =>
        rw [Fallible.run_bind_error hd, Fallible.run_bind_error hd']
        exact ⟨rfl, ha⟩
    | ok a =>
        rw [Fallible.run_bind_ok hd, Fallible.run_bind_ok hd']
        exact (hf a).alike ha

theorem forM {ι : Type} {f : ι → DevM Disk PUnit} (hf : ∀ i, Untimed (f i)) :
    ∀ is : List ι, Untimed (is.forM f)
  | [] => pure _
  | i :: is => (hf i).bind fun _ => forM hf is

theorem foldlM {ι : Type} {f : α → ι → DevM Disk α} (hf : ∀ a i, Untimed (f a i)) :
    ∀ (is : List ι) (a : α), Untimed (is.foldlM f a)
  | [], a => pure a
  | i :: is, a => by
      rw [List.foldlM_cons]
      exact (hf a i).bind fun a => foldlM hf is a

/-- One device call whose effect looks at sectors and medium only. -/
theorem call {inRange : Disk → Bool} {act : Disk → α × Disk}
    (hr : ∀ d d', Alike d d' → inRange d = inRange d')
    (hs : ∀ d, (act d).2.sectors = d.sectors)
    (ha : ∀ d d', Alike d d' → (act d).1 = (act d').1 ∧ Alike (act d).2 (act d').2) :
    Untimed (Disk.call inRange act) := by
  constructor
  · intro d
    unfold Disk.call
    simp only
    split
    · rfl
    · exact hs _
  · intro d d' h
    have hq := h.quiet d.clock
    have hq' := h.quiet' d'.clock
    unfold Disk.call
    simp only [hq, hq', Bool.false_or, hr d d' h]
    have hnext : Alike { d with clock := d.clock + 1 } { d' with clock := d'.clock + 1 } :=
      ⟨h.sectors, h.medium, h.quiet, h.quiet'⟩
    split
    · exact ⟨rfl, hnext⟩
    · exact ⟨congrArg Except.ok (ha _ _ hnext).1, (ha _ _ hnext).2⟩

theorem readSector (lba : Nat) : Untimed (BlockDevice.readSector lba : DevM Disk Sector) :=
  call (fun _ _ h => by rw [h.sectors]) (fun _ => rfl)
    fun _ _ h => ⟨congrFun h.view lba, h⟩

theorem writeSector (lba : Nat) (s : Sector) :
    Untimed (BlockDevice.writeSector lba s : DevM Disk Unit) :=
  call (fun _ _ h => by rw [h.sectors]) (fun _ => rfl) fun _ _ h =>
    ⟨rfl, h.sectors, congrArg (fun m => Medium.write m lba s) h.medium, h.quiet, h.quiet'⟩

theorem flush : Untimed (BlockDevice.flush : DevM Disk Unit) :=
  call (fun _ _ _ => rfl) (fun _ => rfl) fun _ _ h =>
    ⟨rfl, h.sectors, congrArg Medium.flush h.medium, h.quiet, h.quiet'⟩

theorem readPage (p : Nat) (out : Page) : Untimed (Journal.readPage p out : DevM Disk Page) :=
  foldlM (fun _ _ => (readSector _).bind fun _ => pure _) _ _

theorem writePage (p : Nat) (data : Page) :
    Untimed (Journal.writePage p data : DevM Disk Unit) :=
  forM (fun _ => writeSector _ _) _

theorem writeCtrl (buf : Buf ctrlSize) : Untimed (Journal.writeCtrl buf : DevM Disk Unit) :=
  forM (fun _ => writePage _ _) _

theorem recover : Untimed (Journal.recover : DevM Disk Bool) := by
  have hread : Untimed (Journal.readCtrl : DevM Disk (Option Ctrl)) :=
    (foldlM (fun _ _ => (readPage _ _).bind fun _ => pure _) _ _).bind fun _ => pure _
  refine hread.bind fun c => ?_
  cases c with
  | none => exact pure _
  | some ctrl =>
      simp only
      split
      · exact pure _
      · refine (forM (fun e => (readPage _ _).bind fun _ => writePage _ _) _).bind fun _ => ?_
        exact flush.bind fun _ => (writeCtrl _).bind fun _ => flush.bind fun _ => pure _

theorem commit (txid : Nat) (ws : List (Nat × Page)) :
    Untimed (Journal.commit txid ws : DevM Disk Unit) := by
  unfold Journal.commit
  split
  · exact throw _
  · refine (forM (fun _ => writePage _ _) _).bind fun _ => (writeCtrl _).bind fun _ => ?_
    refine flush.bind fun _ => (writeCtrl _).bind fun _ => flush.bind fun _ => ?_
    refine (forM (fun _ => writePage _ _) _).bind fun _ => ?_
    exact flush.bind fun _ => (writeCtrl _).bind fun _ => flush

theorem readSuperblock : Untimed (Pager.readSuperblock : DevM Disk Superblock) := by
  refine (readPage _ _).bind fun p => ?_
  cases Superblock.decode p with
  | ok sb => exact pure _
  | error e => exact throw e

end Untimed

end Disk

/-! ## What a commit leaves on the device -/

namespace Journal

/-- On a disk that works, a commit puts its write-set on the home pages and
changes no other home page. -/
theorem commit_images {T : Nat} {ws : List (Nat × Page)} {d : Disk} (txid : Nat)
    (hq : d.Quiet) (hf : Fits d.sectors T) (hws : WriteSet T ws) :
    ∃ d', Journal.commit txid ws d = (.ok (), d') ∧ ∀ p, p = 0 ∨ firstDataPage ≤ p →
      image d'.view p = updAll (image d.view) ws p := by
  have hsync : ∀ (ws : List (Nat × Page)) (U : Nat → Sector),
      (∀ w ∈ ws, w.1 * pageSectors + pageSectors ≤ d.sectors) →
      Calls d.sectors d.plan (pageSectors * ws.length + 1) (fun m => m.view = U) (sync ws)
        (fun _ m => m.view = updAll U (ws.flatMap pageWrites)) fun _ => True :=
    fun ws U hr => (calls_sync (A := fun _ _ => True) hf.disk hr fun _ _ _ _ => trivial).conseq
      (fun _ h => ⟨⟨fun _ => trivial, fun _ _ => trivial⟩, h⟩) (fun _ _ h => h.view)
      fun _ _ => trivial
  have hstage : ∀ w ∈ stagePages ws, w.1 * pageSectors + pageSectors ≤ d.sectors := by
    intro w hw
    obtain ⟨i, hi, rfl⟩ := mem_stagePages hw
    have hcount := hws.count
    have hj := hf.journal
    have hfirst : firstDataPage = jdataStartPage + jcap := rfl
    exact hf.page (by simp only; omega)
  have hwrite : Calls d.sectors d.plan (pageSectors * (stagePages ws).length)
      (fun m => m.view = d.view) (writePages (stagePages ws))
      (fun _ m => m.view = updAll d.view ((stagePages ws).flatMap pageWrites)) fun _ => True :=
    (calls_writePages (A := fun _ _ => True) hf.disk hstage fun _ _ _ _ => trivial).conseq
      (fun _ h => ⟨⟨fun _ => trivial, fun _ _ => trivial⟩, h⟩) (fun _ _ h => h.2)
      fun _ _ => trivial
  have hall := hwrite.bind fun _ =>
    (hsync (ctrlPages (renderCtrl (ws.map (·.1)) txid stateEmpty)) _ (hf.ctrlPages _)).bind
      fun _ => (hsync (ctrlPages (renderCtrl (ws.map (·.1)) txid stateCommitted)) _
        (hf.ctrlPages _)).bind fun _ => (hsync ws _ fun w hw =>
          hf.page (hws.range w hw).1).bind fun _ =>
            hsync (ctrlPages (renderCtrl (ws.map (·.1)) txid stateEmpty)) _ (hf.ctrlPages _)
  obtain ⟨u, d', he, hat⟩ := hall.run_quiet rfl rfl hq rfl
  refine ⟨d', by rw [commit_eq hws.count, he], fun p hp => ?_⟩
  have hctrl : ∀ (U : Nat → Page) (buf : Buf ctrlSize), updAll U (ctrlPages buf) p = U p := by
    intro U buf
    refine updAll_other fun w hw hwp => ?_
    obtain ⟨h1, h2, -⟩ := mem_ctrlPages hw
    have hfirst : firstDataPage = jdataStartPage + jcap := rfl
    omega
  have hstaged : updAll (image d.view) (stagePages ws) p = image d.view p := by
    refine updAll_other fun w hw hwp => ?_
    obtain ⟨i, hi, rfl⟩ := mem_stagePages hw
    exact jdata_ne_home (Nat.lt_of_lt_of_le hi hws.count) hp hwp
  show image d'.medium.view p = _
  rw [hat.medium]
  simp only [image_updAll]
  rw [hctrl]
  refine updAll_congr ?_ ws
  rw [hctrl, hctrl, hstaged]

end Journal

/-! ## The two pagers side by side -/

namespace Pager

/-- The same superblock and staged pages, over devices with the same
contents. -/
structure Matches (pg : Pager Disk) (pl : PlainPager Disk) : Prop where
  dev : Disk.Alike pg.dev pl.dev
  sb : pl.sb = pg.sb
  dirty : pl.dirty = pg.dirty

/-- What the cached pager keeps, over a volume of `T` pages. -/
structure Standing (T : Nat) (pg : Pager Disk) : Prop where
  coherent : Coherent T pg
  fits : Fits pg.dev.sectors T
  data : ∀ p, p ∈ pg.dirty → firstDataPage ≤ p
  small : pg.sb.Small
  super : ∃ sb, Superblock.decode (image pg.dev.view 0) = .ok sb ∧ sb.totalPages = T

variable {T : Nat} {pg : Pager Disk} {pl : PlainPager Disk}

theorem read_ne_panic {p : Nat} (hp : firstDataPage ≤ p) (s : Staged Superblock Page) :
    s.read (base pg.load) p ≠ .panic := by
  unfold Staged.read base
  split
  · exact fun h => by cases h
  · split
    · exact fun h => by cases h
    · rw [if_neg (by omega)]
      unfold load
      cases readAll pg.dev.sectors pg.dev.view p zeroedPage <;> exact fun h => by cases h

/-- A read without the cache answers from the staged images or the device. -/
theorem plain_readPage (hm : Matches pg pl) {p : Nat} (hp : firstDataPage ≤ p) :
    ∃ r k, pl.readPage p = (r, { pl with dev := pl.dev.later k }) ∧
      .ofExcept r = (Staged.mk pg.sb pg.dirty).read (base pg.load) p := by
  obtain ⟨dev, sb, dirty⟩ := pl
  obtain rfl : sb = pg.sb := hm.sb
  obtain rfl : dirty = pg.dirty := hm.dirty
  unfold PlainPager.readPage Staged.read base
  simp only
  cases hd : pg.dirty[p]? with
  | some x => exact ⟨.ok x, 0, rfl, rfl⟩
  | none =>
      simp only
      split
      · exact ⟨.error _, 0, rfl, rfl⟩
      · rw [if_neg (by omega)]
        obtain ⟨k, hdev, hres | ⟨-, hf⟩⟩ := readPage_run dev p zeroedPage
        · refine ⟨(Journal.readPage p zeroedPage dev).1, k, ?_, ?_⟩
          · unfold PlainPager.onDev
            rw [← hdev]
          · rw [hres, load, ← hm.dev.sectors, ← hm.dev.view]
        · exact absurd hf (hm.dev.quiet'.not_faultIn k)

/-- The same answer to a read, from the cache or from the device. -/
theorem readPage_matches (hs : Standing T pg) (hm : Matches pg pl) {p : Nat}
    (hp : firstDataPage ≤ p) :
    ∃ r k cache pl', Pager.readPage p pg = (r, ⟨pg.dev.later k, pg.sb, pg.dirty, cache⟩) ∧
      pl.readPage p = (r, pl') ∧ Matches ⟨pg.dev.later k, pg.sb, pg.dirty, cache⟩ pl' ∧
      Standing T ⟨pg.dev.later k, pg.sb, pg.dirty, cache⟩ ∧ (∀ x, r = .ok x → p < T) := by
  obtain ⟨r, k, cache, hrun, hc, hlt, hres⟩ := readPage_sim hs.coherent p
  obtain ⟨r', j, hrun', hres'⟩ := plain_readPage hm hp
  have hr : r' = r := by
    rcases hres with hres | ⟨-, hf⟩ | hpanic
    · exact Outcome.ofExcept_injective (hres'.trans hres.symm)
    · exact absurd hf (hm.dev.quiet.not_faultIn k)
    · exact absurd hpanic (read_ne_panic hp _)
  subst hr
  exact ⟨_, k, cache, _, hrun, hrun', ⟨⟨hm.dev.sectors, hm.dev.medium, hm.dev.quiet,
    hm.dev.quiet'⟩, hm.sb, hm.dirty⟩, ⟨hc, hs.fits, hs.data, hs.small, hs.super⟩, hlt⟩

theorem small_decode {x : Page} {sb : Superblock} (h : Superblock.decode x = .ok sb) :
    sb.Small := by
  unfold Superblock.decode at h
  split at h
  · cases h
  · split at h
    · cases h
    · injection h with h
      subst h
      exact ⟨x.getLe_lt 8 16, x.getLe_lt 8 24, x.getLe_lt 8 32, x.getLe_lt 8 40,
        x.getLe_lt 8 48⟩

/-! ### One lemma for each way the state changes -/

theorem Matches.write (hm : Matches pg pl) (p : Nat) (x : Page) :
    Matches (pg.writePage p x) (pl.writePage p x) :=
  ⟨hm.dev, hm.sb, congrArg (fun m : PageMap => m.insert p x) hm.dirty⟩

theorem Standing.write (hs : Standing T pg) {p : Nat} (hp : firstDataPage ≤ p ∧ p < T)
    (x : Page) : Standing T (pg.writePage p x) := by
  have hmem : ∀ q, q ∈ (pg.writePage p x).dirty → q = p ∨ q ∈ pg.dirty := by
    intro q hq
    exact (Std.TreeMap.mem_insert.mp hq).imp (fun h => (Nat.compare_eq_eq.mp h).symm) id
  refine ⟨⟨hs.coherent.size, fun q hq => ?_, hs.coherent.cache⟩, hs.fits, fun q hq => ?_,
    hs.small, hs.super⟩
  · rcases hmem q hq with rfl | hq
    · exact hp.2
    · exact hs.coherent.dirty q hq
  · rcases hmem q hq with rfl | hq
    · exact hp.1
    · exact hs.data q hq

theorem Matches.setSb (hm : Matches pg pl) (sb : Superblock) :
    Matches { pg with sb } { pl with sb } := ⟨hm.dev, rfl, hm.dirty⟩

theorem Standing.setSb (hs : Standing T pg) (sb : Superblock) (hT : sb.totalPages = T)
    (hsb : sb.Small) : Standing T { pg with sb } :=
  ⟨⟨hT, hs.coherent.dirty, hs.coherent.cache⟩, hs.fits, hs.data, hsb, hs.super⟩

/-- What an operation has to do: the same answer, and the pagers still match. -/
def Agrees (T : Nat) {α : Type} (out : α × Pager Disk) (out' : α × PlainPager Disk) : Prop :=
  out.1 = out'.1 ∧ Matches out.2 out'.2 ∧ Standing T out.2

theorem read_agrees (hs : Standing T pg) (hm : Matches pg pl) {p : Nat}
    (hp : firstDataPage ≤ p) : Agrees T (Pager.readPage p pg) (pl.readPage p) := by
  obtain ⟨r, k, cache, pl', hrun, hrun', hm', hs', -⟩ := readPage_matches hs hm hp
  rw [hrun, hrun']
  exact ⟨rfl, hm', hs'⟩

theorem runProg_allocPage (pg : Pager Disk) : runProg allocPage pg =
    if pg.sb.freeHead ≠ 0 then
      match readPage pg.sb.freeHead pg with
      | (.ok img, pg') => (.ok pg.sb.freeHead,
          writePage { pg' with sb := { pg.sb with freeHead := img.getLe 8 0 } }
            pg.sb.freeHead zeroedPage)
      | (.error e, pg') => (.err e, pg')
    else if pg.sb.hwm < pg.sb.totalPages then
      (.ok pg.sb.hwm, writePage { pg with sb := { pg.sb with hwm := pg.sb.hwm + 1 } }
        pg.sb.hwm zeroedPage)
    else (.err .outOfSpace, pg) := by
  show runProg (if pg.sb.freeHead ≠ 0 then _ else _) pg = _
  split
  · show runProg (.read pg.sb.freeHead _) pg = _
    rw [runProg]
    rcases readPage pg.sb.freeHead pg with ⟨e | x, pg'⟩ <;> rfl
  · split <;> rfl

theorem plain_allocPage (pl : PlainPager Disk) : pl.runProg allocPage =
    if pl.sb.freeHead ≠ 0 then
      match pl.readPage pl.sb.freeHead with
      | (.ok img, pl') => (.ok pl.sb.freeHead,
          PlainPager.writePage { pl' with sb := { pl.sb with freeHead := img.getLe 8 0 } }
            pl.sb.freeHead zeroedPage)
      | (.error e, pl') => (.err e, pl')
    else if pl.sb.hwm < pl.sb.totalPages then
      (.ok pl.sb.hwm, PlainPager.writePage { pl with sb := { pl.sb with hwm := pl.sb.hwm + 1 } }
        pl.sb.hwm zeroedPage)
    else (.err .outOfSpace, pl) := by
  show PlainPager.runProg (if pl.sb.freeHead ≠ 0 then _ else _) pl = _
  split
  · show PlainPager.runProg (.read pl.sb.freeHead _) pl = _
    rw [PlainPager.runProg]
    rcases pl.readPage pl.sb.freeHead with ⟨e | x, pl'⟩ <;> rfl
  · split <;> rfl

theorem alloc_agrees (hs : Standing T pg) (hm : Matches pg pl) (hon : pg.OnData .alloc) :
    Agrees T (runProg allocPage pg) (pl.runProg allocPage) := by
  have hsize : pg.sb.totalPages = T := hs.coherent.size
  unfold OnData at hon
  rw [runProg_allocPage, plain_allocPage, hm.sb]
  split
  · next hfree =>
      rw [if_neg hfree] at hon
      obtain ⟨r, k, cache, pl', hrun, hrun', hm', hs', hlt⟩ := readPage_matches hs hm hon
      rw [hrun, hrun']
      cases r with
      | error e => exact ⟨rfl, hm', hs'⟩
      | ok x =>
          have hsb : Superblock.Small { pg.sb with freeHead := x.getLe 8 0 } :=
            ⟨hs.small.totalPages, hs.small.hwm, x.getLe_lt 8 0, hs.small.catalogHead,
              hs.small.generation⟩
          refine ⟨rfl, ?_, ?_⟩
          · exact (hm'.setSb { pg.sb with freeHead := x.getLe 8 0 }).write _ _
          · exact (hs'.setSb { pg.sb with freeHead := x.getLe 8 0 } hsize hsb).write
              ⟨hon, hlt x rfl⟩ _
  · next hfree =>
      rw [if_pos (not_not.mp hfree)] at hon
      split
      · next hroom =>
          have hsb : Superblock.Small { pg.sb with hwm := pg.sb.hwm + 1 } := by
            have hT := hs.small.totalPages
            exact ⟨hT, by simp only; omega, hs.small.freeHead, hs.small.catalogHead,
              hs.small.generation⟩
          refine ⟨rfl, ?_, ?_⟩
          · exact (hm.setSb { pg.sb with hwm := pg.sb.hwm + 1 }).write _ _
          · exact (hs.setSb { pg.sb with hwm := pg.sb.hwm + 1 } hsize hsb).write
              ⟨hon, by omega⟩ _
      · exact ⟨rfl, hm, hs⟩

theorem free_agrees (hs : Standing T pg) (hm : Matches pg pl) {p : Nat}
    (hp : firstDataPage ≤ p ∧ p < T) :
    Agrees T (runProg (freePage p) pg) (pl.runProg (freePage p)) := by
  have hsize : pg.sb.totalPages = T := hs.coherent.size
  have hsb : Superblock.Small { pg.sb with freeHead := p } := by
    have hT := hs.small.totalPages
    exact ⟨hT, hs.small.hwm, by simp only; omega, hs.small.catalogHead, hs.small.generation⟩
  have hm' := (hm.write p (zeroedPage.putLe 8 0 pg.sb.freeHead)).setSb
    { pg.sb with freeHead := p }
  refine ⟨rfl, ?_, (hs.write hp (zeroedPage.putLe 8 0 pg.sb.freeHead)).setSb _ hsize hsb⟩
  show Matches _ ⟨pl.dev, { pl.sb with freeHead := p },
    pl.dirty.insert p (zeroedPage.putLe 8 0 pl.sb.freeHead)⟩
  rw [hm.sb]
  exact hm'

theorem commit_agrees (hs : Standing T pg) (hm : Matches pg pl) :
    Agrees T (Pager.commit pg) pl.commit := by
  obtain ⟨dev, sb, dirty⟩ := pl
  obtain rfl : sb = pg.sb := hm.sb
  obtain rfl : dirty = pg.dirty := hm.dirty
  unfold Pager.commit PlainPager.commit onDev PlainPager.onDev
  simp only
  split
  · exact ⟨rfl, hm, hs⟩
  · next hne =>
      have hne' : pg.dirty.isEmpty = false := by simpa using hne
      by_cases hcount : pg.dirty.size < jcap
      · have hgen : (pg.sb.generation + 1) % 2 ^ 64 < 2 ^ 64 := Nat.mod_lt _ (by decide)
        have hws := Store.writeSet_batch (s := ⟨pg.sb, pg.dirty⟩)
          { pg.sb with generation := (pg.sb.generation + 1) % 2 ^ 64 }
          ⟨hne', hcount, hs.data, hs.small.hwm, hs.small.freeHead, hs.small.catalogHead⟩
          hs.coherent.dirty hs.fits.journal
        obtain ⟨hr, ha⟩ := (Disk.Untimed.commit ((pg.sb.generation + 1) % 2 ^ 64)
          (batch { pg.sb with generation := (pg.sb.generation + 1) % 2 ^ 64 }
            pg.dirty)).alike hm.dev
        have hsec := (Disk.Untimed.commit ((pg.sb.generation + 1) % 2 ^ 64)
          (batch { pg.sb with generation := (pg.sb.generation + 1) % 2 ^ 64 }
            pg.dirty)).sectors pg.dev
        obtain ⟨d', hcommit, himage⟩ := commit_images ((pg.sb.generation + 1) % 2 ^ 64)
          hm.dev.quiet hs.fits hws
        obtain ⟨h0, hdata⟩ := Store.updAll_batch hws (image pg.dev.view)
        rw [hcommit] at hr ha hsec
        rcases hcommit' : Journal.commit ((pg.sb.generation + 1) % 2 ^ 64)
          (batch { pg.sb with generation := (pg.sb.generation + 1) % 2 ^ 64 } pg.dirty) dev
          with ⟨r, dev'⟩
        rw [hcommit'] at hr ha
        simp only at hr ha hsec
        subst hr
        rw [hcommit]
        have hcoh := Store.coherent_committed hs.coherent hs.fits hsec
          (fun p hp => (himage p (Or.inr hp)).trans (hdata p hp))
          (show Superblock.totalPages { pg.sb with
            generation := (pg.sb.generation + 1) % 2 ^ 64 } = T from hs.coherent.size)
        have hsmall : Superblock.Small { pg.sb with
            generation := (pg.sb.generation + 1) % 2 ^ 64 } :=
          ⟨hs.small.totalPages, hs.small.hwm, hs.small.freeHead, hs.small.catalogHead, hgen⟩
        refine ⟨rfl, ⟨ha, rfl, rfl⟩, hcoh, hsec ▸ hs.fits,
          fun p hp => absurd hp (not_mem_empty p), hsmall,
          { pg.sb with generation := (pg.sb.generation + 1) % 2 ^ 64 }, ?_, hs.coherent.size⟩
        show Superblock.decode (image d'.view 0) = _
        rw [himage 0 (Or.inl rfl), h0, Superblock.decode_encode hsmall]
      · have hlen : jcap < (batch { pg.sb with
            generation := (pg.sb.generation + 1) % 2 ^ 64 } pg.dirty).length := by
          rw [Store.length_batch]
          omega
        simp only [Journal.commit, if_pos hlen, Fallible.run_throw]
        exact ⟨rfl, hm, hs⟩

theorem rollback_agrees (hs : Standing T pg) (hm : Matches pg pl) :
    Agrees T (Pager.rollback pg) pl.rollback := by
  obtain ⟨dev, sb, dirty⟩ := pl
  obtain rfl : sb = pg.sb := hm.sb
  obtain ⟨sb₀, hsuper, hsize⟩ := hs.super
  obtain ⟨hr, ha⟩ := Disk.Untimed.readSuperblock.alike hm.dev
  obtain ⟨k, hread | ⟨-, hf⟩⟩ := readSuperblock_run hs.fits hsuper
  · unfold Pager.rollback PlainPager.rollback onDev PlainPager.onDev
    rcases hread' : (readSuperblock : DevM Disk Superblock) dev with ⟨r, dev'⟩
    rw [hread, hread'] at hr ha
    simp only at hr ha
    subst hr
    simp only [hread]
    refine ⟨rfl, ⟨ha, rfl, rfl⟩, ⟨hsize, fun p hp => absurd hp (not_mem_empty p),
      hs.coherent.cache⟩, hs.fits, fun p hp => absurd hp (not_mem_empty p),
      small_decode hsuper, sb₀, hsuper, hsize⟩
  · exact absurd hf (hm.dev.quiet.not_faultIn k)

/-- One operation. -/
theorem perform_agrees (hs : Standing T pg) (hm : Matches pg pl) {op : PageOp}
    (hon : pg.OnData op) : Agrees T (pg.perform op) (pl.perform op) := by
  have hsize : pg.sb.totalPages = T := hs.coherent.size
  cases op with
  | read p =>
      obtain ⟨ho, hm', hs'⟩ := read_agrees hs hm hon
      exact ⟨congrArg (fun r => PageReply.image <$> Outcome.ofExcept r) ho, hm', hs'⟩
  | write p x => exact ⟨rfl, hm.write p x, hs.write ⟨hon.1, hsize ▸ hon.2⟩ x⟩
  | alloc =>
      obtain ⟨ho, hm', hs'⟩ := alloc_agrees hs hm hon
      exact ⟨congrArg (PageReply.page <$> ·) ho, hm', hs'⟩
  | free p =>
      obtain ⟨ho, hm', hs'⟩ := free_agrees hs hm (p := p) ⟨hon.1, hsize ▸ hon.2⟩
      exact ⟨congrArg ((fun _ => PageReply.done) <$> ·) ho, hm', hs'⟩
  | commit =>
      obtain ⟨ho, hm', hs'⟩ := commit_agrees hs hm
      exact ⟨congrArg (fun r => (fun _ => PageReply.done) <$> Outcome.ofExcept r) ho, hm', hs'⟩
  | rollback =>
      obtain ⟨ho, hm', hs'⟩ := rollback_agrees hs hm
      exact ⟨congrArg (fun r => (fun _ => PageReply.done) <$> Outcome.ofExcept r) ho, hm', hs'⟩

/-- A sequence of operations. -/
theorem performAll_agrees (ops : List PageOp) : ∀ {pg : Pager Disk} {pl : PlainPager Disk},
    Standing T pg → Matches pg pl → pg.AllOnData ops →
      Agrees T (pg.performAll ops) (pl.performAll ops) := by
  induction ops with
  | nil => exact fun hs hm _ => ⟨rfl, hm, hs⟩
  | cons op ops ih =>
      intro pg pl hs hm hon
      obtain ⟨ho, hm', hs'⟩ := perform_agrees hs hm hon.1
      obtain ⟨hos, hm'', hs''⟩ := ih hs' hm' hon.2
      refine ⟨?_, hm'', hs''⟩
      show (pg.perform op).1 :: _ = (pl.perform op).1 :: _
      rw [ho]
      exact congrArg _ hos

/-! ## From a mounted or formatted volume -/

/-- A pager as `format` and `mount` leave it. -/
theorem standing_fresh {d : Disk} {sb : Superblock}
    (hf : Fits d.sectors sb.totalPages)
    (hsuper : Superblock.decode (image d.view 0) = .ok sb) :
    Standing sb.totalPages ⟨d, sb, ∅, ∅⟩ := by
  refine ⟨⟨rfl, fun p hp => absurd hp (not_mem_empty p), fun p x hx => ?_⟩, hf,
    fun p hp => absurd hp (not_mem_empty p), small_decode hsuper, sb, hsuper, rfl⟩
  rw [Std.TreeMap.getElem?_emptyc] at hx
  cases hx

/-- What `mount` answers with. -/
theorem mount_ok {d d' : Disk} {pg : Pager Disk} (hq : d.Quiet)
    (hf : Fits d.sectors pg.sb.totalPages) (h : mount d = (.ok pg, d')) :
    Standing pg.sb.totalPages pg ∧ pg.dev.Quiet := by
  unfold mount at h
  obtain ⟨-, ha⟩ := Disk.Untimed.recover.alike hq.alike
  have hsec := Disk.Untimed.recover.sectors d
  rcases hrec : (recover : DevM Disk Bool) d with ⟨e | b, d₁⟩
  · rw [Fallible.run_bind_error hrec] at h
    cases h
  · rw [hrec] at ha hsec
    rw [Fallible.run_bind_ok hrec] at h
    have h0 : readAll d₁.sectors d₁.view 0 zeroedPage = .ok (image d₁.view 0) := by
      have hpos : 0 < firstDataPage := by decide
      have hj := hf.journal
      rw [← hsec] at hf
      exact readAll_eq hf.disk (hf.page (by omega)) zeroedPage
    obtain ⟨k, hdev, hres⟩ := readPage_run d₁ 0 zeroedPage
    rw [h0] at hres
    rcases hr : Journal.readPage 0 zeroedPage d₁ with ⟨e | x, d₂⟩ <;> rw [hr] at hdev hres <;>
      simp only at hdev hres
    · have hsb : (readSuperblock : DevM Disk Superblock) d₁ = (.error e, d₂) :=
        Fallible.run_bind_error hr
      rw [Fallible.run_bind_error hsb] at h
      cases h
    · rcases hres with hres | ⟨hres, -⟩
      · injection hres with hres
        subst hres
        cases hdec : Superblock.decode (image d₁.view 0) with
        | error e =>
            have hsb : (readSuperblock : DevM Disk Superblock) d₁ = (.error e, d₂) := by
              unfold readSuperblock
              rw [Fallible.run_bind_ok hr, hdec]
              rfl
            rw [Fallible.run_bind_error hsb] at h
            cases h
        | ok sb =>
            have hsb : (readSuperblock : DevM Disk Superblock) d₁ = (.ok sb, d₂) := by
              unfold readSuperblock
              rw [Fallible.run_bind_ok hr, hdec]
              rfl
            rw [Fallible.run_bind_ok hsb, Fallible.run_gets] at h
            injection h with h _
            injection h with h
            subst h
            subst hdev
            simp only at hf hsec
            rw [← hsec] at hf
            exact ⟨standing_fresh (d := d₁.later k) hf hdec, ha.quiet⟩
      · cases hres

/-- What `format` answers with. -/
theorem format_ok {d d' : Disk} {pg : Pager Disk} (hq : d.Quiet)
    (h : Pager.format d = (.ok pg, d')) : Standing pg.sb.totalPages pg ∧ pg.dev.Quiet := by
  by_cases hroom : firstDataPage + 1 < d.sectors / pageSectors
  · obtain ⟨pg', hrun, hclean, hq', -, hsb⟩ := Store.format_clean hq hroom
    rw [Store.formatStore, h] at hrun
    injection hrun with hpg _
    injection hpg with hpg
    subst hpg
    exact ⟨⟨hclean.coherent, hclean.fits, fun p hp => absurd hp (hclean.staged ▸ not_mem_empty p),
      small_decode hclean.super, pg.sb, hclean.super, rfl⟩, hq'⟩
  · unfold Pager.format at h
    rw [Fallible.run_bind_ok (Fallible.run_gets _ d)] at h
    have hsec : BlockDevice.sectorCount d = d.sectors := rfl
    rw [hsec, if_pos (by omega), Fallible.run_throw] at h
    injection h with h _
    cases h

/-- An empty volume of 2051 pages on a disk with room for one more. -/
def roomyDisk : Disk :=
  Disk.attach (2052 * pageSectors) (by decide)
    (updAll (fun _ => Buf.zero sectorSize) (pageWrites (0, (Store.freshSb 2051).encode)))
    Disk.noFaults

theorem mount_of_open {d d' : Disk} {pg : Pager Disk}
    (h : Store.openStore d = (.ok pg, d')) : mount d = (.ok pg, d') := by
  unfold Store.openStore at h
  rcases hm : mount d with ⟨e | pg', d₁⟩ <;> rw [hm] at h
  · cases e <;> simp at h
  · exact h

theorem roomyDisk_mount : ∃ pg, mount roomyDisk = (.ok pg, pg.dev) ∧ pg.Clean ∧
    pg.dev.Quiet ∧ pg.dev.sectors = 2052 * pageSectors ∧ pg.sb = Store.freshSb 2051 := by
  have hview : roomyDisk.view = updAll (fun _ => Buf.zero sectorSize)
      (pageWrites (0, (Store.freshSb 2051).encode)) := rfl
  have hclean : Clean ⟨roomyDisk, Store.freshSb 2051, ∅, ∅⟩ := by
    refine ⟨rfl, ⟨rfl, fun p hp => absurd hp (not_mem_empty p), fun p x hx => ?_⟩,
      ⟨by decide, by decide, by decide⟩, ?_, fun lba => ⟨fun _ => rfl, fun h8 => ?_⟩,
      fun w hw => by cases hw⟩
    · rw [Std.TreeMap.getElem?_emptyc] at hx
      cases hx
    · show Superblock.decode (image roomyDisk.view 0) = _
      rw [hview, image_updAll_page, upd_self]
      exact Superblock.decode_encode ⟨by decide, by decide, by decide, by decide, by decide⟩
    · show stateWord (updAll (fun _ => Buf.zero sectorSize)
        (pageWrites (0, (Store.freshSb 2051).encode)) lba) ≠ stateCommitted
      rw [updAll_other fun w hw hw8 => by
        have h := (mem_pageWrites hw).1
        rw [hw8, h8] at h
        simp only [pageSectors] at h
        omega]
      show (Buf.zero sectorSize).getLe 4 8 ≠ stateCommitted
      rw [Buf.getLe_zero]
      decide
  have hquiet : roomyDisk.Quiet := fun _ => rfl
  obtain ⟨pg, hopen, hstill, hpg⟩ := Store.open_clean hclean hquiet
  obtain ⟨k, hdev⟩ := hstill.dev
  have hsec : (roomyDisk.later k).sectors = 2052 * pageSectors := rfl
  refine ⟨pg, ?_, hpg, hstill.quiet hquiet, hdev ▸ hsec, hstill.sb⟩
  exact mount_of_open hopen

/-- The cache is transparent. On a device that works and holds the volume, any
operations on data pages, however many of them, answer the same on the pager
and on a pager without a cache, and leave the same device contents. -/
theorem cache_transparent {d d' : Disk} {pg : Pager Disk} (hq : d.Quiet)
    (hopen : Pager.format d = (.ok pg, d') ∨ Pager.mount d = (.ok pg, d'))
    (hfit : Fits d.sectors pg.sb.totalPages) (ops : List PageOp) (hon : pg.AllOnData ops) :
    (pg.performAll ops).1 = (pg.plain.performAll ops).1 ∧
      (pg.performAll ops).2.dev.medium = (pg.plain.performAll ops).2.dev.medium := by
  obtain ⟨hs, hq'⟩ : Standing pg.sb.totalPages pg ∧ pg.dev.Quiet := by
    rcases hopen with h | h
    · exact format_ok hq h
    · exact mount_ok hq hfit h
  have hm₀ : Matches pg pg.plain := ⟨hq'.alike, rfl, rfl⟩
  obtain ⟨hr, hm, -⟩ := performAll_agrees ops hs hm₀ hon
  exact ⟨hr, hm.dev.medium⟩

/-- The first pages of an empty volume, staged, committed and read back. -/
theorem cache_transparent_roomy : ∃ pg, mount roomyDisk = (.ok pg, pg.dev) ∧
    (pg.performAll [.write 2050 zeroedPage, .commit, .read 2050, .rollback, .read 2049]).1 =
      (pg.plain.performAll
        [.write 2050 zeroedPage, .commit, .read 2050, .rollback, .read 2049]).1 := by
  obtain ⟨pg, hmount, hclean, hq, hsec, hsb⟩ := roomyDisk_mount
  have hquiet : roomyDisk.Quiet := fun _ => rfl
  have hlt : 2050 < pg.sb.totalPages := by
    rw [hsb]
    exact Nat.lt_succ_self _
  have hfit : Fits roomyDisk.sectors pg.sb.totalPages := by
    rw [hsb]
    exact ⟨by decide, by decide, by decide⟩
  have hon : pg.AllOnData
      [.write 2050 zeroedPage, .commit, .read 2050, .rollback, .read 2049] :=
    ⟨⟨by decide, hlt⟩, trivial, show firstDataPage ≤ 2050 by decide, trivial,
      show firstDataPage ≤ 2049 by decide, trivial⟩
  exact ⟨pg, hmount, (cache_transparent hquiet (Or.inr hmount) hfit _ hon).1⟩

/-- A commit whose journal commit answers. -/
theorem commit_run {pg : Pager Disk} {d' : Disk} (hne : pg.dirty.isEmpty = false)
    (h : Journal.commit ((pg.sb.generation + 1) % 2 ^ 64) (writeSet pg) pg.dev = (.ok (), d')) :
    Pager.commit pg = (.ok (), ⟨d',
      { pg.sb with generation := (pg.sb.generation + 1) % 2 ^ 64 }, ∅,
      pg.dirty.toList.foldl (fun cache w => cacheInsert cache w.1 w.2) pg.cache⟩) := by
  unfold writeSet at h
  simp only [Pager.commit, hne, Bool.false_eq_true, if_false, onDev, h]

theorem plain_commit_run (pl : PlainPager Disk) {d' : Disk} (hne : pl.dirty.isEmpty = false)
    (h : Journal.commit ((pl.sb.generation + 1) % 2 ^ 64)
      (batch { pl.sb with generation := (pl.sb.generation + 1) % 2 ^ 64 } pl.dirty) pl.dev =
        (.ok (), d')) :
    pl.commit = (.ok (), ⟨d',
      { pl.sb with generation := (pl.sb.generation + 1) % 2 ^ 64 }, ∅⟩) := by
  simp only [PlainPager.commit, hne, Bool.false_eq_true, if_false, PlainPager.onDev, h]

/-- A page past the end of the volume, committed and read back. -/
def pastTheEnd : List PageOp := [.write 2051 zeroedPage, .commit, .read 2051]

/-- The range check of `read_page` comes after the cache: what was committed
past the last page of the volume is answered from the cache and refused
without it. -/
theorem cache_shows_past_the_end : ∃ pg, (mount roomyDisk).1 = .ok pg ∧
    (pg.performAll pastTheEnd).1 ≠ (pg.plain.performAll pastTheEnd).1 := by
  obtain ⟨pg, hmount, hclean, hq, hsec, hsb⟩ := roomyDisk_mount
  refine ⟨pg, by rw [hmount], ?_⟩
  have hf : Fits pg.dev.sectors 2052 := by
    rw [hsec]
    exact ⟨by decide, by decide, by decide⟩
  have hdirty : (pg.writePage 2051 zeroedPage).dirty = (∅ : PageMap).insert 2051 zeroedPage :=
    congrArg (fun m : PageMap => m.insert 2051 zeroedPage) hclean.staged
  have hlist : (pg.writePage 2051 zeroedPage).dirty.toList = [(2051, zeroedPage)] := by
    rw [hdirty]
    rfl
  have hne : (pg.writePage 2051 zeroedPage).dirty.isEmpty = false := by
    rw [hdirty]
    rfl
  have hws : WriteSet 2052 (writeSet (pg.writePage 2051 zeroedPage)) := by
    rw [writeSet, batch, hlist]
    refine ⟨show 2 ≤ jcap by decide, show [0, 2051].Nodup by decide, fun w hw => ?_⟩
    rcases List.mem_cons.mp hw with rfl | hw
    · exact ⟨by simp only; omega, Or.inl rfl⟩
    · rw [List.mem_singleton.mp hw]
      exact ⟨by decide, Or.inr (by decide)⟩
  obtain ⟨d', hcommit, -⟩ := commit_images ((pg.sb.generation + 1) % 2 ^ 64) hq hf hws
  have hrun := commit_run hne hcommit
  have hrun' := plain_commit_run (pg.writePage 2051 zeroedPage).plain hne hcommit
  rw [hlist] at hrun
  have hcached : (pg.performAll pastTheEnd).1 =
      [.ok .done, .ok .done, .ok (.image zeroedPage)] := by
    unfold pastTheEnd
    simp only [performAll, perform, hrun]
    unfold readPage
    simp only [Std.TreeMap.getElem?_emptyc, List.foldl, cacheInsert,
      Std.TreeMap.getElem?_insert_self]
    rfl
  have hplain : (pg.plain.performAll pastTheEnd).1 =
      [.ok .done, .ok .done, .err (.corrupt "page out of range")] := by
    have hpl : (pg.writePage 2051 zeroedPage).plain = pg.plain.writePage 2051 zeroedPage := rfl
    rw [hpl] at hrun'
    unfold pastTheEnd
    simp only [PlainPager.performAll, PlainPager.perform, hrun']
    unfold PlainPager.readPage
    have hpast : pg.plain.sb.totalPages ≤ 2051 := by
      show pg.sb.totalPages ≤ 2051
      rw [hsb]
      exact Nat.le_refl _
    simp only [Std.TreeMap.getElem?_emptyc, PlainPager.writePage, hpast, if_true]
    rfl
  rw [hcached, hplain]
  intro h
  injection h with _ h
  injection h with _ h
  injection h with h _
  cases h

end Pager

end TablesOS
