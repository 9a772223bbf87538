import TablesOS.Base.Script
import TablesOS.Kernel.Ata
import TablesOS.Kernel.Startup
import TablesOS.Kernel.Stick
import TablesOS.Proofs.PortDriver

/-!
# The ATA driver by its commands and at its ports

The driver is followed twice: by the commands that it issues, on a bus that
answers them somehow, and at its ports, with the drive behind them. What it does
at the ports is what it does on the bus that answers as the drive does, whatever
the drive is like (`ports_told`, `discoverPorts_told`). And behind a drive that
works, the commands on the log, carried out one after the other, make of the
disk what the drive has made of it (`ports_carried`).
-/

namespace TablesOS

open Fallible Medium

theorem Usb.fill_sector {bytes : List Byte} (h : bytes.length = sector) :
    fill (List.replicate sector 0) bytes = bytes := by
  rw [fill, List.length_replicate, ← h, List.take_length, List.drop_replicate, h, Nat.sub_self,
    List.replicate_zero, List.append_nil]

namespace Pio

open Usb

/-! ## Errors -/

variable {α β : Type}

/-- Where it stops, it stops with an I/O error. -/
def Io (m : PortM α) : Prop := ∀ d e, (m d).1 = .error e → e = .io

namespace Io

variable {m : PortM α}

theorem pure (a : α) : Io (Pure.pure a : PortM α) := fun _ _ h => by cases h

theorem throw : Io (Fallible.throw .io : PortM α) :=
  fun _ _ h => (Except.error.inj h).symm

theorem ite {c : Prop} [Decidable c] {m' : PortM α} (h : Io m) (h' : Io m') :
    Io (if c then m else m') := by
  split
  · exact h
  · exact h'

theorem bind {f : α → PortM β} (h : Io m) (hf : ∀ a, Io (f a)) : Io (m >>= f) := by
  intro d e he
  rw [run_bind] at he
  rcases hm : m d with ⟨e' | a, d'⟩ <;> rw [hm] at he
  · have heq : e' = e := Except.error.inj he
    exact h d e (by rw [hm, heq])
  · exact hf a d' e he

theorem forM {ι : Type} {f : ι → PortM PUnit} (hf : ∀ x, Io (f x)) (xs : List ι) :
    Io (xs.forM f) := by
  induction xs with
  | nil => exact pure _
  | cons x xs ih => exact (hf x).bind fun _ => ih

theorem readStatus : Io readStatus := fun d e h => by
  obtain ⟨s, hs, -⟩ := readStatus_run d
  rw [hs] at h
  cases h

theorem writeReg (f : Drive → Drive) : Io (writeReg f) := fun _ _ h => by cases h

theorem command (c : Byte) : Io (command c) := fun _ _ h => by cases h

theorem readData : Io readData := fun d e h => by
  unfold Pio.readData at h
  split at h <;> cases h

theorem writeData (w : UInt16) : Io (writeData w) := fun d e h => by
  unfold Pio.writeData at h
  split at h
  · split at h <;> cases h
  · cases h

theorem pause : Io pause := forM (fun _ => readStatus.bind fun _ => pure _) _

theorem pollLoop (n : Nat) : Io (pollLoop n) := by
  induction n with
  | zero => exact throw
  | succ n ih => exact readStatus.bind fun s => throw.ite ((pure _).ite ((pure _).ite ih))

theorem flushLoop (n : Nat) : Io (flushLoop n) := by
  induction n with
  | zero => exact throw
  | succ n ih => exact readStatus.bind fun s => (throw.ite (pure _)).ite ih

theorem poll : Io poll := pause.bind fun _ => pollLoop _

theorem select (lba : Nat) (count : Byte) : Io (select lba count) :=
  (writeReg _).bind fun _ => pause.bind fun _ => (writeReg _).bind fun _ =>
    (writeReg _).bind fun _ => (writeReg _).bind fun _ => writeReg _

theorem readWords (n : Nat) : Io (readWords n) := by
  induction n with
  | zero => exact pure _
  | succ n ih => exact readData.bind fun w => ih.bind fun ws => pure _

theorem readAbsolute (lba : Nat) : Io (readAbsolute lba) :=
  (select lba 1).bind fun _ => (command _).bind fun _ => poll.bind fun _ =>
    (readWords 256).bind fun _ => pure _

theorem flushCache : Io flushCache := (command _).bind fun _ => flushLoop _

end Io

/-! ## Commands -/

/-- The drive answers what is ahead, and `K` holds of it and the commands so far. -/
structure Answering (K : Drive → List AtaCommand → Prop) (d : Drive)
    (answers : Nat → Option (List Byte)) (b : IdeBus) : Prop where
  ahead : ∀ i, b.answer (b.next + i) = answers i
  log : K d b.log

variable {K : Drive → List AtaCommand → Prop} {d d' : Drive}

theorem issue_run {c : AtaCommand} {b : IdeBus} {o : Option (List Byte)}
    (h : b.answer b.next = o) :
    c.issue b = (o.elim (.error .io) .ok, { b with next := b.next + 1, log := b.log ++ [c] }) := by
  unfold AtaCommand.issue
  rw [h]
  cases o <;> rfl

theorem flush_run {b : IdeBus} {o : Option (List Byte)} (h : b.answer b.next = o) :
    Ata.flush b =
      (o.elim (.error .io) fun _ => .ok (),
        { b with next := b.next + 1, log := b.log ++ [.flush] }) := by
  rw [Ata.flush, run_bind, issue_run h]
  cases o <;> rfl

theorem ahead_issued {b : IdeBus} {o : Option (List Byte)} {rest : Nat → Option (List Byte)}
    (h : ∀ i, b.answer (b.next + i) = inFront [o] rest i) (i : Nat) :
    b.answer (b.next + 1 + i) = rest i := by
  rw [Nat.add_assoc, h]
  exact inFront_add [o] rest i

theorem issue_led {c : AtaCommand} (o : Option (List Byte))
    (hK : ∀ log, K d log → K d' (log ++ [c])) :
    Led (Answering K) d c.issue (o.elim (.error .io) .ok) d' := by
  refine ⟨inFront [o], fun rest b h => ?_⟩
  rw [issue_run (h.ahead 0)]
  exact ⟨rfl, ahead_issued h.ahead, hK _ h.log⟩

/-- `write_sector` up to its flush. -/
def sendSector (lba : Nat) (x : Sector) : PortM Unit := do
  select lba 1
  command 0x30
  poll
  (sectorWords x).forM writeData

theorem writeAbsolute_eq (lba : Nat) (x : Sector) :
    writeAbsolute lba x = (do sendSector lba x; flushCache) := by
  simp only [writeAbsolute, sendSector, bind_assoc]

theorem Io.sendSector (lba : Nat) (x : Sector) : Io (sendSector lba x) :=
  (select lba 1).bind fun _ => (command _).bind fun _ => poll.bind fun _ => forM writeData _

/-- The commands of a write: the flush is left out where the sector was not taken. -/
def writeLog (lba : Nat) (x : Sector) (d : Drive) : List AtaCommand :=
  .write .primaryMaster (lba28 lba) x.toList ::
    match (sendSector lba x d).1 with
    | .ok () => [.flush]
    | .error _ => []

/-- What is known of a drive by its commands, whatever is done to it within `n` sectors. -/
structure Kept (n : Nat) (K : Drive → List AtaCommand → Prop) : Prop where
  read : ∀ {lba d log}, lba < n → K d log →
    K (readAbsolute lba d).2 (log ++ [.read .primaryMaster (lba28 lba)])
  write : ∀ {lba x d log}, lba < n → K d log →
    K (writeAbsolute lba x d).2 (log ++ writeLog lba x d)
  flush : ∀ {d log}, K d log → K (flushCache d).2 (log ++ [.flush])

variable {n : Nat}

theorem read_led (hK : Kept n K) {lba : Nat} (hlba : lba < n) (d : Drive) :
    Led (Answering K) d (readSectorAt .primaryMaster lba)
      ((readAbsolute lba d).1.map Buf.toList) (readAbsolute lba d).2 := by
  have hlog : ∀ log, K d log →
      K (readAbsolute lba d).2 (log ++ [.read .primaryMaster (lba28 lba)]) := fun _ => hK.read hlba
  rcases hrun : readAbsolute lba d with ⟨e | x, d'⟩ <;> rw [hrun] at hlog
  · have he : e = .io := Io.readAbsolute lba d e (by rw [hrun])
    rw [he]
    exact (issue_led none hlog).bind_error
  · refine (issue_led (some x.toList) hlog).bind ?_
    rw [fill_sector (Buf.length_toList x)]
    exact .pure x.toList

theorem flush_led (hK : Kept n K) (d : Drive) :
    Led (Answering K) d Ata.flush (flushCache d).1 (flushCache d).2 := by
  have hlog : ∀ log, K d log → K (flushCache d).2 (log ++ [.flush]) := fun _ => hK.flush
  rcases hrun : flushCache d with ⟨e | u, d'⟩ <;> rw [hrun] at hlog
  · have he : e = .io := Io.flushCache d e (by rw [hrun])
    rw [he]
    exact (issue_led none hlog).bind_error
  · exact (issue_led (some []) hlog).bind (.pure ())

theorem write_led (hK : Kept n K) {lba : Nat} (hlba : lba < n) (x : Sector) (d : Drive) :
    Led (Answering K) d
      (do
        let _ ← (AtaCommand.write .primaryMaster (lba28 lba) x.toList).issue
        Ata.flush : AtaM Unit)
      (writeAbsolute lba x d).1 (writeAbsolute lba x d).2 := by
  have hlog : ∀ log, K d log → K (writeAbsolute lba x d).2 (log ++ writeLog lba x d) :=
    fun _ => hK.write hlba
  rw [writeLog] at hlog
  rw [writeAbsolute_eq] at hlog ⊢
  rcases hsend : sendSector lba x d with ⟨e | u, d₁⟩
  · have he : e = .io := Io.sendSector lba x d e (by rw [hsend])
    rw [run_bind_error hsend] at hlog ⊢
    simp only [hsend] at hlog
    rw [he]
    exact (issue_led none hlog).bind_error
  · rw [run_bind_ok hsend] at hlog ⊢
    simp only [hsend] at hlog
    -- Between the two commands the drive is busy, and `K` says nothing of it.
    refine ⟨inFront [some [], (flushCache d₁).1.toOption.map fun _ => []], fun rest b h => ?_⟩
    have hwrite := issue_run (c := .write .primaryMaster (lba28 lba) x.toList) (h.ahead 0)
    have hahead : b.answer (b.next + 1) = (flushCache d₁).1.toOption.map fun _ => [] := h.ahead 1
    have hnext : ∀ i, b.answer (b.next + 1 + 1 + i) = rest i := fun i => by
      rw [Nat.add_assoc, Nat.add_assoc, h.ahead, ← Nat.add_assoc]
      exact inFront_add _ rest i
    rw [run_bind_ok hwrite]
    have hlast := hlog _ h.log
    rcases hflush : flushCache d₁ with ⟨e | u, d₂⟩ <;> rw [hflush] at hahead hlast
    · have he : e = .io := Io.flushCache d₁ e (by rw [hflush])
      rw [flush_run hahead, he]
      exact ⟨rfl, hnext, (List.append_assoc _ _ _).symm ▸ hlast⟩
    · rw [flush_run hahead]
      exact ⟨rfl, hnext, (List.append_assoc _ _ _).symm ▸ hlast⟩

/-! ## Calls -/

/-- A call on the disk, through the ports. -/
def Ports.perform : DiskCall → DevM Ports (List Byte)
  | .readBoot len =>
      if len ≠ sector then Fallible.throw .io else do
        let x ← Ports.readBootSector
        pure x.toList
  | .read lba len =>
      if len ≠ sector then Fallible.throw .io else do
        let x ← BlockDevice.readSector lba
        pure x.toList
  | .write lba buf =>
      if buf.length ≠ sector then Fallible.throw .io else do
        BlockDevice.writeSector lba (asSector buf)
        pure []
  | .flush => do
      BlockDevice.flush
      pure []

/-- The driver is that of the bus. -/
structure Driving (a : Ata) (K : Drive → List AtaCommand → Prop) (p : Ports)
    (answers : Nat → Option (List Byte)) (b : IdeBus) : Prop where
  base : p.base = a.base
  sectors : p.sectors = a.sectors
  drive : Answering K p.drive answers b

variable {a : Ata}

theorem onDrive_led {m : PortM α} {m' : AtaM β} {f : Except StoreError α → Except StoreError β}
    (h : ∀ d, Led (Answering K) d m' (f (m d).1) (m d).2) (p : Ports) :
    Led (Driving a K) p m' (f (Ports.onDrive m p).1) (Ports.onDrive m p).2 := by
  obtain ⟨front, hfront⟩ := h p.drive
  refine ⟨front, fun rest b hb => ?_⟩
  obtain ⟨hr, hdrive⟩ := hfront rest b hb.drive
  exact ⟨hr, hb.base, hb.sectors, hdrive⟩

theorem toList_asSector {buf : List Byte} (h : buf.length = sector) :
    (asSector buf).toList = buf := by
  have hself : ((Buf.zero sectorSize).put 0 buf).slice 0 buf.length = buf :=
    Buf.slice_put_self (by rw [h, Nat.zero_add])
  rw [h] at hself
  exact hself

theorem perform_tracks (hK : Kept n K) (hn : 0 < n) (hroom : a.base + a.sectors ≤ n)
    (c : DiskCall) : Tracks (Driving a K) (Ports.perform c) (a.perform c) := by
  intro p
  by_cases hp : p.base = a.base ∧ p.sectors = a.sectors
  case neg => exact ⟨id, fun rest b h => absurd ⟨h.base, h.sectors⟩ hp⟩
  obtain ⟨hbase, hsectors⟩ := hp
  cases c with
  | readBoot len =>
      rw [Ports.perform, Ata.perform, Ata.readBootSector]
      by_cases hlen : len ≠ sector
      · rw [if_pos hlen, if_pos hlen]
        exact .throw StoreError.io
      · rw [if_neg hlen, if_neg hlen, run_bind_pure]
        exact onDrive_led (read_led hK hn) p
  | read lba len =>
      rw [Ports.perform, Ata.perform, Ata.readSector]
      by_cases hlen : len ≠ sector
      · rw [if_pos hlen, if_pos (Or.inl hlen)]
        exact .throw StoreError.io
      rw [if_neg hlen, run_bind_pure]
      show Led _ p _ ((Ports.within lba readAbsolute p).1.map Buf.toList)
        (Ports.within lba readAbsolute p).2
      by_cases hlba : a.sectors ≤ lba
      · rw [Ports.within, hsectors, if_pos hlba, if_pos (Or.inr hlba)]
        exact .throw StoreError.io
      · rw [Ports.within, hsectors, hbase, if_neg hlba, if_neg (not_or.mpr ⟨hlen, hlba⟩)]
        exact onDrive_led (read_led hK (by omega)) p
  | write lba buf =>
      rw [Ports.perform, Ata.perform, Ata.writeSector]
      by_cases hlen : buf.length ≠ sector
      · rw [if_pos hlen, if_pos (Or.inl hlen)]
        exact (Led.throw StoreError.io).bind_error
      have hbuf := toList_asSector (not_not.mp hlen)
      rw [if_neg hlen, run_bind_pure]
      show Led _ p _ ((Ports.within lba (fun lba => writeAbsolute lba (asSector buf)) p).1.map
        fun _ => []) (Ports.within lba (fun lba => writeAbsolute lba (asSector buf)) p).2
      by_cases hlba : a.sectors ≤ lba
      · rw [Ports.within, hsectors, if_pos hlba, if_pos (Or.inr hlba)]
        exact (Led.throw StoreError.io).bind_error
      · rw [Ports.within, hsectors, hbase, if_neg hlba, if_neg (not_or.mpr ⟨hlen, hlba⟩)]
        have hwrite := fun d => write_led hK (show a.base + lba < n by omega) (asSector buf) d
        rw [hbuf] at hwrite
        exact (onDrive_led (f := id) hwrite p).bind_pure fun _ => []
  | flush =>
      rw [Ports.perform, Ata.perform, run_bind_pure]
      exact (onDrive_led (f := id) (flush_led hK) p).bind_pure fun _ => []

/-- On a bus that answers as the drive does, calls come to what they come to at the ports. -/
theorem ports_idle {p : Ports} (hK : Kept n K) (hn : 0 < n) (hroom : p.base + p.sectors ≤ n)
    (h : K p.drive []) (calls : List DiskCall) :
    ∃ answer, let told := inTurn (Ata.perform ⟨p.base, p.sectors⟩) calls (.idle answer)
      let run := inTurn Ports.perform calls p
      told.1 = run.1 ∧ K run.2.drive told.2.log := by
  obtain ⟨front, hled⟩ := Tracks.inTurn
    (fun c => perform_tracks (a := ⟨p.base, p.sectors⟩) hK hn hroom c) calls p
  let rest : Nat → Option (List Byte) := fun _ => none
  obtain ⟨hr, hlast⟩ := hled rest (.idle (front rest)) ⟨rfl, rfl, fun i =>
    congrArg (front rest) (Nat.zero_add i), h⟩
  exact ⟨front rest, hr, hlast.drive.log⟩

/-- Calls at the ports are calls on a bus that answers as the drive does. -/
theorem ports_told (p : Ports) (calls : List DiskCall) :
    ∃ answer, (inTurn (Ata.perform ⟨p.base, p.sectors⟩) calls (.idle answer)).1 =
      (inTurn Ports.perform calls p).1 := by
  have hK : Kept (p.base + p.sectors + 1) fun _ _ => True :=
    ⟨fun _ _ => trivial, fun _ _ => trivial, fun _ => trivial⟩
  obtain ⟨answer, hr, -⟩ := ports_idle hK (by omega) (Nat.le_succ _) trivial calls
  exact ⟨answer, hr⟩

/-! ## What the commands make of the disk -/

/-- A command carried out. -/
def carried (V : Nat → Sector) : AtaCommand → Nat → Sector
  | .write _ lba bytes => upd V lba (asSector bytes)
  | _ => V

/-- The drive works, and holds what the commands so far have made of `V`. -/
structure Worked (n : Nat) (V : Nat → Sector) (d : Drive) (log : List AtaCommand) : Prop where
  calm : Calm d
  sectors : d.sectors = n
  view : d.medium.view = log.foldl carried V

theorem Worked.after {V W : Nat → Sector} {log : List AtaCommand} (h : Worked n V d log)
    (ha : After d W d') {cs : List AtaCommand} (hW : W = cs.foldl carried d.medium.view) :
    Worked n V d' (log ++ cs) :=
  ⟨ha.calm, ha.sectors.trans h.sectors, by rw [ha.view, hW, List.foldl_append, ← h.view]⟩

theorem kept_worked (V : Nat → Sector) : Kept n (Worked n V) := by
  refine ⟨fun {lba d log} hlba h => ?_, fun {lba x d log} hlba h => ?_, fun {d log} h => ?_⟩
  · obtain ⟨d', hrun, ha⟩ := readAbsolute_run h.calm (show lba < d.sectors by rwa [h.sectors])
    rw [hrun]
    exact h.after ha rfl
  · obtain ⟨d', hrun, ha⟩ := writeAbsolute_run h.calm (show lba < d.sectors by rwa [h.sectors]) x
    have hsent : (sendSector lba x d).1 = .ok () := by
      have hwhole := hrun
      rw [writeAbsolute_eq, run_bind] at hwhole
      rcases hsend : sendSector lba x d with ⟨_ | _, _⟩ <;> rw [hsend] at hwhole
      cases hwhole
    have hlog : writeLog lba x d = [.write .primaryMaster (lba28 lba) x.toList, .flush] := by
      rw [writeLog, hsent]
    have hsize := h.calm.size
    rw [h.sectors] at hsize
    have haddress : lba28 lba = lba := Nat.mod_eq_of_lt (by omega)
    rw [hrun, hlog]
    refine h.after ha ?_
    show _ = upd d.medium.view (lba28 lba) (asSector x.toList)
    rw [haddress]
    exact congrArg (upd d.medium.view lba) (Buf.put_toList _ x).symm
  · obtain ⟨d', hrun, hsectors, hdelay, hfails, hphase, hbusy, hview⟩ := flushCache_run
      h.calm.delay h.calm.works h.calm.phase (by rw [h.calm.idle]; omega)
    rw [hrun]
    exact h.after (h.calm.after hsectors hdelay hfails hphase hbusy) hview

/-- Behind a drive that works the commands on the log are what becomes of the disk. -/
theorem ports_carried {p : Ports} (h : Calm p.drive) (hpos : 0 < p.drive.sectors)
    (hroom : p.base + p.sectors ≤ p.drive.sectors) (calls : List DiskCall) :
    ∃ answer, let told := inTurn (Ata.perform ⟨p.base, p.sectors⟩) calls (.idle answer)
      let run := inTurn Ports.perform calls p
      told.1 = run.1 ∧ run.2.drive.medium.view = told.2.log.foldl carried p.drive.medium.view := by
  have hstart : Worked p.drive.sectors p.drive.medium.view p.drive [] := ⟨h, rfl, rfl⟩
  obtain ⟨answer, hr, hlast⟩ := ports_idle (kept_worked _) hpos hroom hstart calls
  exact ⟨answer, hr, hlast.view⟩

/-! ## The search -/

/-- What it answers is `P`. -/
def Answers (P : α → Prop) (m : PortM α) : Prop := ∀ d a d', m d = (.ok a, d') → P a

theorem Answers.after {P : β → Prop} {f : α → PortM β} (hf : ∀ a, Answers P (f a))
    (m : PortM α) : Answers P (m >>= f) := by
  intro d b d' h
  rw [run_bind] at h
  rcases hm : m d with ⟨_ | a, d₁⟩ <;> rw [hm] at h
  · cases h
  · exact hf a d₁ b d' h

theorem length_readWords (k : Nat) : Answers (fun ws => ws.length = k) (readWords k) := by
  induction k with
  | zero => exact fun _ ws _ h => by cases h; rfl
  | succ k ih =>
      refine .after (fun w d ws d' h => ?_) readData
      rw [run_bind_pure] at h
      rcases hrest : readWords k d with ⟨_ | rest, d₁⟩ <;> rw [hrest] at h
      · cases h
      · cases h
        exact congrArg (· + 1) (ih d rest _ hrest)

theorem length_identify : Answers (fun ws => ws.length = 256) identify := by
  have hthrow : Answers (fun ws : List UInt16 => ws.length = 256) (Fallible.throw .io) :=
    fun _ _ _ h => by cases h
  refine .after (fun _ => .after (fun _ => .after (fun _ => .after (fun _ => .after (fun _ =>
    .after (fun _ => .after (fun _ => .after (fun s => ?_) _) _) _) _) _) _) _) _
  split
  · exact hthrow
  · exact .after (fun _ => length_readWords 256) _

theorem ofLe_bytesOf (w : UInt16) (bytes : List Byte) :
    ofLe (bytesOf w ++ bytes) = w.toNat + 2 ^ 16 * ofLe bytes := by
  have hlt := w.toNat_lt
  have hlo : w.toUInt8.toNat = w.toNat % 256 := UInt16.toNat_toUInt8 w
  have hhi : (w >>> 8).toUInt8.toNat = w.toNat / 256 % 256 := by
    rw [UInt16.toNat_toUInt8, UInt16.toNat_shiftRight, Nat.shiftRight_eq_div_pow]
    rfl
  show w.toUInt8.toNat + 256 * ((w >>> 8).toUInt8.toNat + 256 * ofLe bytes) = _
  rw [hlo, hhi]
  omega

theorem drop_flatMap_bytesOf (k : Nat) : ∀ ws : List UInt16,
    (ws.flatMap bytesOf).drop (2 * k) = (ws.drop k).flatMap bytesOf := by
  induction k with
  | zero => exact fun ws => rfl
  | succ k ih =>
      intro ws
      cases ws with
      | nil => rfl
      | cons w ws => exact ih ws

/-- The size, by words and by bytes. -/
theorem capacityWords_eq {ws : List UInt16} (h : ws.length = 256) :
    ofLe (((ws.flatMap bytesOf).drop 120).take 4) = capacityWords ws := by
  have h60 : 60 < ws.length := by omega
  have h61 : 61 < ws.length := by omega
  have hdrop : ws.drop 60 = ws[60] :: ws[61] :: ws.drop 62 := by
    rw [List.drop_eq_getElem_cons h60, List.drop_eq_getElem_cons h61]
  rw [drop_flatMap_bytesOf 60, hdrop, capacityWords, List.getD_eq_getElem _ _ h60,
    List.getD_eq_getElem _ _ h61]
  show ofLe (bytesOf ws[60] ++ (bytesOf ws[61] ++ [])) = _
  rw [ofLe_bytesOf, ofLe_bytesOf]
  rfl

theorem discoverAta_led (dataLba : Nat) (guid : List Byte) (d : Drive) :
    ∃ r d', Led (Answering fun _ _ => True) d (discoverAta dataLba guid) r d' ∧
      r.toOption = (discoverPorts dataLba guid d).map fun p => ⟨p.base, p.sectors⟩ := by
  unfold discoverAta discoverPorts probePorts
  have hprobe : ∀ (o : Option (List Byte)) (d' : Drive), Led (Answering fun _ _ => True) d
      (AtaCommand.identify .primaryMaster).issue (o.elim (.error .io) .ok) d' :=
    fun o d' => issue_led o fun _ _ => trivial
  rcases hid : identify d with ⟨e | ws, d₁⟩
  · exact ⟨.error .io, d₁, ((hprobe none d₁).bind_error).bind_error, rfl⟩
  have hlen := length_identify d ws d₁ hid
  have hfound : Led (Answering fun _ _ => True) d (Ata.probe dataLba)
      (.ok ⟨dataLba, capacityWords ws - dataLba⟩) d₁ := by
    rw [← capacityWords_eq hlen]
    exact (hprobe (some (ws.flatMap bytesOf)) d₁).bind (.pure _)
  have hK : Kept 1 fun _ _ => True := ⟨fun _ _ => trivial, fun _ _ => trivial, fun _ => trivial⟩
  have hread : Led (Answering fun _ _ => True) d₁ (Ata.readBootSector sector)
      ((readAbsolute 0 d₁).1.map Buf.toList) (readAbsolute 0 d₁).2 := by
    rw [Ata.readBootSector, if_neg (not_not.mpr rfl)]
    exact read_led hK Nat.one_pos d₁
  dsimp only [Option.bind_some, isSystem, Ports.readBootSector, Ports.onDrive]
  rcases hmbr : readAbsolute 0 d₁ with ⟨e | x, d₂⟩ <;> rw [hmbr] at hread
  · exact ⟨_, d₂, hfound.bind hread.bind_error, rfl⟩
  · dsimp only
    by_cases hguid : guidOf x.toList = guid
    · rw [if_pos hguid]
      refine ⟨.ok _, d₂, hfound.bind (hread.bind ?_), rfl⟩
      rw [if_pos hguid]
      exact .pure _
    · rw [if_neg hguid]
      refine ⟨.error .io, d₂, hfound.bind (hread.bind ?_), rfl⟩
      rw [if_neg hguid]
      exact .throw StoreError.io

/-- The search at the ports is the search on a bus that answers as the drive does. -/
theorem discoverPorts_told (dataLba : Nat) (guid : List Byte) (d : Drive) :
    ∃ answer, (discoverAta dataLba guid (.idle answer)).1.toOption =
      (discoverPorts dataLba guid d).map fun p => ⟨p.base, p.sectors⟩ := by
  obtain ⟨r, d', ⟨front, hfront⟩, hr⟩ := discoverAta_led dataLba guid d
  let rest : Nat → Option (List Byte) := fun _ => none
  have hstart : Answering (fun _ _ => True) d (front rest) (.idle (front rest)) :=
    ⟨fun i => congrArg (front rest) (Nat.zero_add i), trivial⟩
  exact ⟨front rest, by rw [(hfront rest _ hstart).1, hr]⟩

end Pio

end TablesOS
