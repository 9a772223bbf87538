import TablesOS.Kernel.Stick

/-!
# The driver as one side of a conversation

All that the driver does with its bus is to make transfers, one after the other,
and to look at what became of them: each of its functions `Says` what some
dialog says. So a run of it on sticks can be taken apart like the run on a plan:
what is done one after the other is done so on the sticks (`onBus_bind_ok`), and
a transfer is what the stick answers (`onBus_transfer`).
-/

namespace TablesOS

open Fallible

namespace Usb

/-! ## Saying -/

/-- The bus has got further by what is on the record. -/
structure Further (w : Wire) (l : Record Ask Fate) (w' : Wire) : Prop where
  fate : w'.fate = w.fate
  next : w'.next = w.next + l.asked
  log : w'.log.map Xfer.said = w.log.map Xfer.said ++ l
  devices : w'.devices = w.devices

/-- A run of the driver says what the dialog does. -/
def Speaks {β : Type} (devices : XhciState) (d : Dialog Ask Fate β) (m : Wire → β × Wire) :
    Prop :=
  ∀ w, w.devices = devices →
    (m w).1 = (d.planned w.fate w.next).1 ∧ Further w (d.planned w.fate w.next).2 (m w).2

/-- A run of the driver is a dialog with at most `n` transfers. -/
def Says {β : Type} (n : Nat) (devices : XhciState) (m : Wire → β × Wire) : Prop :=
  ∃ d : Dialog Ask Fate β, d.Within n ∧ Speaks devices d m

/-- One run after the other. -/
def andThen {β γ : Type} (m : Wire → β × Wire) (f : β → Wire → γ × Wire) (w : Wire) : γ × Wire :=
  f (m w).1 (m w).2

/-- What follows an outcome. -/
def goOn {α γ : Type} (f : α → MscM γ) : Except String α → MscM γ
  | .ok a => f a
  | .error e => Fallible.throw e

/-- What the driver makes of the fate of a transfer. -/
def Fate.outcome : Fate → Except String (Byte × List Byte)
  | .timeout => .error "event-ring deadline elapsed"
  | .event cc moved => .ok (cc, moved)

/-- What an attempt to write makes of its outcome. -/
def attempted : Except String Byte → Except String (Except String Unit)
  | .ok status => .ok (if status = 0 then .ok () else .error "WRITE(10) CSW status != 0")
  | .error e => .ok (.error e)

/-- What follows the first attempt to write. -/
def retried (pipe : Pipe) (lba : Nat) (data : List Byte) (tag : Nat) :
    Except String Unit → MscM Unit
  | .ok () => pure ()
  | .error _ => do
      let last ← writeAttempt pipe lba data tag
      liftExcept last

/-- What the lookup finds. -/
def resolved (devices : XhciState) (slotId : Byte) : Except String Pipe :=
  (mscResolveBulk devices slotId).map fun r => ⟨r.1, r.2.1, r.2.2⟩

/-- What a call of the device reports of its command. -/
def reported {α : Type} (dev : UsbMscDevice) :
    Except String α → Except StoreError α × UsbMscDevice
  | .ok a => (.ok a, dev)
  | .error _ => (.error .io, dev)

/-- What the identity gate makes of the first sector. -/
def identified (dev : UsbMscDevice) (expected : List Byte) :
    Except String (List Byte) → Except StoreError Unit × UsbMscDevice
  | .ok mbr =>
      if guidOf mbr = expected then (.ok (), dev)
      else (.error (.corrupt "USB system GUID changed at runtime"), dev.poison)
  | .error _ => (.error .io, dev.poison)

/-- The write behind the identity gate. -/
def checkedWrite (lba : Nat) (buf : List Byte) :
    Except StoreError Unit × UsbMscDevice → Wire → (Except StoreError Unit × UsbMscDevice) × Wire
  | (.ok (), dev) =>
      DeviceM.onWire (UsbMscDevice.onBus fun d => mscWriteSector d.slotId lba buf d.nextTag) dev
  | (.error e, dev) => fun w => ((.error e, dev), w)

variable {β γ α δ : Type} {devices : XhciState} {n k : Nat}

theorem bind_eq_andThen (m : MscM α) (f : α → MscM γ) : m >>= f = andThen m (goOn f) := by
  funext w
  show (m >>= f) w = goOn f (m w).1 (m w).2
  rw [run_bind]
  rcases m w with ⟨_ | _, _⟩
  · rfl
  · rfl

theorem transfer_eq (x : Fate → Xfer) (w : Wire) : transfer x w =
    ((w.fate w.next).outcome,
      { w with next := w.next + 1, log := w.log ++ [x (w.fate w.next)] }) := by
  unfold transfer
  cases w.fate w.next with
  | timeout => rfl
  | event cc moved => rfl

theorem writeAttempt_eq {pipe : Pipe} (lba : Nat) (data : List Byte) (tag : Nat) :
    writeAttempt pipe lba data tag = fun w =>
      (attempted (scsiWrite10 pipe 0 lba 1 sector data tag w).1,
        (scsiWrite10 pipe 0 lba 1 sector data tag w).2) := by
  funext w
  unfold writeAttempt
  rcases scsiWrite10 pipe 0 lba 1 sector data tag w with ⟨_ | _, _⟩
  · rfl
  · rfl

theorem mscWriteSector_eq (slotId : Byte) (lba : Nat) (data : List Byte) (tag : Nat) :
    mscWriteSector slotId lba data tag =
      resolve slotId >>= fun pipe => writeAttempt pipe lba data tag >>= retried pipe lba data tag :=
  rfl

theorem retried_error {pipe : Pipe} {lba tag : Nat} {data : List Byte} {e : String} :
    retried pipe lba data tag (.error e) =
      writeAttempt pipe lba data tag >>= fun last => liftExcept last := rfl

theorem resolve_eq (slotId : Byte) (w : Wire) :
    resolve slotId w = (resolved w.devices slotId, w) := by
  unfold resolve resolved
  rcases mscResolveBulk w.devices slotId with _ | ⟨_, _, _⟩
  · rfl
  · rfl

theorem onWire_onBus (m : UsbMscDevice → MscM α) (dev : UsbMscDevice) :
    DeviceM.onWire (UsbMscDevice.onBus m) dev = fun w =>
      (reported dev.bumpTag (m dev.bumpTag w).1, (m dev.bumpTag w).2) := by
  funext w
  simp only [DeviceM.onWire, UsbMscDevice.onBus]
  rcases m dev.bumpTag w with ⟨_ | _, _⟩
  · rfl
  · rfl

theorem onWire_readSector (lba len : Nat) (dev : UsbMscDevice) :
    DeviceM.onWire (UsbMscDevice.readSector lba len) dev =
      if dev.poisoned ∨ len ≠ sector ∨ dev.sectors ≤ lba then fun w => ((.error .io, dev), w)
      else if 2 ^ 32 ≤ lba then fun w => ((.error .io, dev), w)
      else DeviceM.onWire (UsbMscDevice.onBus fun d => mscReadSector d.slotId lba len d.nextTag)
        dev := by
  funext w
  unfold UsbMscDevice.readSector DeviceM.onWire
  dsimp only
  split
  · rfl
  · split
    · rfl
    · rfl

theorem onWire_verify_none {dev : UsbMscDevice} (hg : dev.identityGate = none) :
    DeviceM.onWire UsbMscDevice.verifyIdentity dev = fun w => ((.ok (), dev), w) := by
  funext w
  unfold DeviceM.onWire UsbMscDevice.verifyIdentity
  simp only [hg]

theorem onWire_verify_some {dev : UsbMscDevice} {expected : List Byte}
    (hg : dev.identityGate = some expected) : DeviceM.onWire UsbMscDevice.verifyIdentity dev =
      if dev.poisoned then fun w => ((.error .io, dev), w)
      else fun w =>
        (identified dev.bumpTag expected
            (mscReadSector dev.slotId 0 sector dev.bumpTag.nextTag w).1,
          (mscReadSector dev.slotId 0 sector dev.bumpTag.nextTag w).2) := by
  funext w
  unfold DeviceM.onWire UsbMscDevice.verifyIdentity
  simp only [hg]
  split
  · rfl
  · show _ = (identified dev.bumpTag expected
      (mscReadSector dev.bumpTag.slotId 0 sector dev.bumpTag.nextTag w).1,
      (mscReadSector dev.bumpTag.slotId 0 sector dev.bumpTag.nextTag w).2)
    rcases mscReadSector dev.bumpTag.slotId 0 sector dev.bumpTag.nextTag w with ⟨_ | mbr, _⟩
    · rfl
    · simp only [identified]
      split
      · rfl
      · rfl

theorem onWire_writeSector (lba : Nat) (buf : List Byte) (dev : UsbMscDevice) :
    DeviceM.onWire (UsbMscDevice.writeSector lba buf) dev =
      if dev.poisoned ∨ buf.length ≠ sector ∨ dev.sectors ≤ lba then
        fun w => ((.error .io, dev), w)
      else if 2 ^ 32 ≤ lba then fun w => ((.error .io, dev), w)
      else andThen (DeviceM.onWire UsbMscDevice.verifyIdentity dev) (checkedWrite lba buf) := by
  funext w
  simp only [DeviceM.onWire, UsbMscDevice.writeSector]
  split
  · rfl
  · split
    · rfl
    · simp only [andThen, DeviceM.onWire]
      rcases UsbMscDevice.verifyIdentity (dev, w) with ⟨_ | _, _, _⟩
      · rfl
      · rfl

theorem onWire_flush (dev : UsbMscDevice) : DeviceM.onWire UsbMscDevice.flush dev =
    if dev.poisoned then fun w => ((.error .io, dev), w)
    else fun w => ((.ok (), dev.bumpTag),
      (mscSyncCache dev.slotId dev.bumpTag.nextTag w).2) := by
  funext w
  unfold UsbMscDevice.flush DeviceM.onWire
  dsimp only
  split
  · rfl
  · rfl

theorem Further.refl (w : Wire) : Further w [] w := ⟨rfl, rfl, by simp, rfl⟩

theorem Further.trans {w w' w'' : Wire} {l l' : Record Ask Fate} (h : Further w l w')
    (h' : Further w' l' w'') : Further w (l ++ l') w'' := by
  refine ⟨h'.fate.trans h.fate, ?_, ?_, h'.devices.trans h.devices⟩
  · rw [h'.next, h.next, Nat.add_assoc, Record.asked, Record.asked, Record.asked,
      List.countP_append]
  · rw [h'.log, h.log, List.append_assoc]

theorem Speaks.andThen {m : Wire → β × Wire} {f : β → Wire → γ × Wire}
    {d : Dialog Ask Fate β} {g : β → Dialog Ask Fate γ} (hm : Speaks devices d m)
    (hf : ∀ b, Speaks devices (g b) (f b)) : Speaks devices (d.bind g) (andThen m f) := by
  intro w hw
  obtain ⟨hres, hfur⟩ := hm w hw
  obtain ⟨hres', hfur'⟩ := hf (m w).1 (m w).2 (hfur.devices.trans hw)
  rw [hfur.fate, hfur.next, hres] at hres' hfur'
  rw [Dialog.planned_bind, Usb.andThen, hres]
  exact ⟨hres', hfur.trans hfur'⟩

theorem speaks_transfer {x : Fate → Xfer} {q : Ask} (hx : ∀ f, (x f).said = (q, some f)) :
    Speaks devices (.ask q fun f => .done f.outcome) (transfer x) := by
  intro w _
  have hrun := transfer_eq x w
  refine ⟨by rw [hrun]; rfl, ?_⟩
  rw [hrun]
  exact ⟨rfl, rfl, by simp [Dialog.planned, hx], rfl⟩

namespace Says

theorem mono {m : Wire → β × Wire} (h : Says n devices m) (hle : n ≤ k) : Says k devices m := by
  obtain ⟨d, hd, hm⟩ := h
  exact ⟨d, hd.mono hle, hm⟩

theorem done (b : β) : Says n devices fun w => (b, w) :=
  ⟨.done b, trivial, fun w _ => ⟨rfl, .refl w⟩⟩

theorem andThen {m : Wire → β × Wire} {f : β → Wire → γ × Wire} (hm : Says n devices m)
    (hf : ∀ b, Says k devices (f b)) : Says (n + k) devices (andThen m f) := by
  obtain ⟨d, hd, hm⟩ := hm
  choose g hg hf using hf
  exact ⟨d.bind g, hd.bind hg, hm.andThen hf⟩

theorem map {m : Wire → β × Wire} (hm : Says n devices m) (f : β → γ) :
    Says n devices fun w => (f (m w).1, (m w).2) :=
  (hm.andThen fun b => done (n := 0) (f b) : Says (n + 0) devices _)

theorem ite {c : Prop} [Decidable c] {m m' : Wire → β × Wire} (h : Says n devices m)
    (h' : Says n devices m') : Says n devices (if c then m else m') := by
  split
  · exact h
  · exact h'

theorem throw (e : String) : Says n devices (Fallible.throw e : MscM α) :=
  done (Except.error e)

theorem pure (a : α) : Says n devices (Pure.pure a : MscM α) := done (Except.ok a)

theorem goOn {f : α → MscM γ} (hf : ∀ a, Says k devices (f a)) (r : Except String α) :
    Says k devices (goOn f r) := by
  cases r with
  | ok a => exact hf a
  | error e => exact throw e

theorem bind {m : MscM α} {f : α → MscM γ} (hm : Says n devices m)
    (hf : ∀ a, Says k devices (f a)) : Says (n + k) devices (m >>= f) := by
  rw [bind_eq_andThen]
  exact hm.andThen (goOn hf)

theorem transfer {x : Fate → Xfer} {q : Ask} (hx : ∀ f, (x f).said = (q, some f)) :
    Says 1 devices (transfer x) :=
  ⟨.ask q fun f => .done f.outcome, fun _ => trivial, speaks_transfer hx⟩

theorem reset {pipe : Pipe} (dirIn : Bool) : Says 0 devices (resetBulkEndpoint pipe dirIn) := by
  refine ⟨.tell (.reset pipe.slotIdx dirIn) (.done (.ok ())), trivial,
    fun w _ => ⟨rfl, rfl, rfl, ?_, rfl⟩⟩
  simp [resetBulkEndpoint, Dialog.planned, Xfer.said]

/-! ## The commands -/

variable {pipe : Pipe}

theorem liftExcept (r : Except String α) : Says n devices (liftExcept r) := by
  cases r with
  | ok a => exact pure a
  | error e => exact throw e

theorem bulkOut (bytes : List Byte) : Says 1 devices (bulkOut pipe bytes) :=
  (transfer (q := .out pipe.slotIdx bytes) fun _ => rfl).bind (k := 0) fun _ => pure _

theorem bulkIn (buf : List Byte) : Says 1 devices (bulkIn pipe buf) :=
  (transfer (q := .inn pipe.slotIdx buf.length) fun _ => rfl).bind (k := 0) fun _ => pure _

/-- The data stage behind its transfer. -/
theorem dataRest (cc : Byte) (buf : List Byte) (dirIn : Bool) : Says 0 devices
    (if cc ≠ 1 ∧ cc ≠ 13 then do
      resetBulkEndpoint pipe dirIn
      Pure.pure buf
    else Pure.pure buf : MscM (List Byte)) :=
  ite ((reset _).bind (k := 0) fun _ => pure _) (pure _)

theorem dataStage (data : DataStage) : Says 1 devices (dataStage pipe data) := by
  cases data with
  | none => exact pure _
  | read length => exact (bulkIn _).bind (k := 0) fun r => dataRest r.1 r.2 true
  | write bytes => exact (bulkOut _).bind (k := 0) fun cc => dataRest cc bytes false

/-- The second try of the status stage. -/
theorem statusRetry (r : Byte × List Byte) : Says 0 devices
    (if r.1 = 1 ∨ r.1 = 13 then Pure.pure r.2 else do
      resetBulkEndpoint pipe true
      Fallible.throw "CSW transfer xHCI cc != Success/Short Packet" : MscM (List Byte)) :=
  ite (pure _) ((reset true).bind (k := 0) fun _ => throw _)

/-- The status stage behind its first transfer. -/
theorem statusRest (r : Byte × List Byte) : Says 1 devices
    (if r.1 = 1 ∨ r.1 = 13 then Pure.pure r.2 else do
      resetBulkEndpoint pipe true
      let r ← Usb.bulkIn pipe r.2
      if r.1 = 1 ∨ r.1 = 13 then Pure.pure r.2 else do
      resetBulkEndpoint pipe true
      Fallible.throw "CSW transfer xHCI cc != Success/Short Packet" : MscM (List Byte)) :=
  ite (pure _) ((reset true).bind (k := 1) fun _ => (bulkIn _).bind (k := 0) statusRetry)

theorem statusStage : Says 2 devices (statusStage pipe) :=
  (bulkIn _).bind (k := 1) statusRest

/-- A command behind its data stage. -/
theorem statusRead (tag : Nat) (buf : List Byte) : Says 2 devices
    (do
      let csw ← Usb.statusStage pipe
      let outcome ← Usb.liftExcept (readCsw csw tag)
      Pure.pure (outcome, buf) : MscM (MscOutcome × List Byte)) :=
  statusStage.bind (k := 0) fun _ => (liftExcept _).bind (k := 0) fun _ => pure _

/-- A command behind its wrapper. -/
theorem commandRest (data : DataStage) (tag : Nat) (cc : Byte) : Says 3 devices
    (if cc ≠ 1 then do
      resetBulkEndpoint pipe false
      Fallible.throw "CBW transfer xHCI cc != Success"
    else do
      let buf ← Usb.dataStage pipe data
      let csw ← Usb.statusStage pipe
      let outcome ← Usb.liftExcept (readCsw csw tag)
      Pure.pure (outcome, buf) : MscM (MscOutcome × List Byte)) :=
  ite (((reset false).bind (k := 0) fun _ => throw _).mono (by omega))
    ((dataStage data).bind (k := 2) (statusRead tag))

theorem mscCommand (lun : Byte) (cb : List Byte) (data : DataStage) (tag : Nat) :
    Says 4 devices (mscCommand pipe lun cb data tag) :=
  ite (throw _) ((bulkOut _).bind (k := 3) (commandRest data tag))

theorem scsiRead10 (lun : Byte) (lba blocks blockSize tag : Nat) :
    Says 4 devices (scsiRead10 pipe lun lba blocks blockSize tag) :=
  (mscCommand _ _ _ _).bind (k := 0) fun _ => pure _

theorem scsiWrite10 (lun : Byte) (lba blocks blockSize : Nat) (data : List Byte) (tag : Nat) :
    Says 4 devices (scsiWrite10 pipe lun lba blocks blockSize data tag) :=
  ite (throw _) ((mscCommand _ _ _ _).bind (k := 0) fun _ => pure _)

theorem writeAttempt (lba : Nat) (data : List Byte) (tag : Nat) :
    Says 4 devices (writeAttempt pipe lba data tag) := by
  have heq : Usb.writeAttempt pipe lba data tag = fun w =>
      (attempted (Usb.scsiWrite10 pipe 0 lba 1 sector data tag w).1,
        (Usb.scsiWrite10 pipe 0 lba 1 sector data tag w).2) := writeAttempt_eq lba data tag
  rw [heq]
  exact (scsiWrite10 0 lba 1 sector data tag).map attempted

theorem resolve (slotId : Byte) : Says 0 devices (resolve slotId) := by
  refine ⟨.done (resolved devices slotId), trivial, fun w hw => ?_⟩
  rw [resolve_eq, hw]
  exact ⟨rfl, .refl w⟩

theorem readRest (len : Nat) (r : Byte × List Byte) : Says 0 devices
    (if r.1 ≠ 0 then Fallible.throw "READ(10) CSW status != 0"
    else if r.2.length < len then Fallible.throw "READ(10) returned short data"
    else Pure.pure (r.2.take len) : MscM (List Byte)) :=
  ite (throw _) (ite (throw _) (pure _))

theorem readThrough (lba len tag : Nat) (pipe : Pipe) : Says 4 devices
    (do
      let r ← Usb.scsiRead10 pipe 0 lba 1 sector tag
      if r.1 ≠ 0 then Fallible.throw "READ(10) CSW status != 0"
      else if r.2.length < len then Fallible.throw "READ(10) returned short data"
      else Pure.pure (r.2.take len) : MscM (List Byte)) :=
  (scsiRead10 _ _ _ _ _).bind (k := 0) (readRest len)

theorem mscReadSector (slotId : Byte) (lba len tag : Nat) :
    Says 4 devices (mscReadSector slotId lba len tag) :=
  (resolve slotId).bind (k := 4) (readThrough lba len tag)

theorem retried (pipe : Pipe) (lba : Nat) (data : List Byte) (tag : Nat)
    (r : Except String Unit) : Says 4 devices (retried pipe lba data tag r) := by
  cases r with
  | ok _ => exact pure _
  | error _ => exact (writeAttempt lba data tag).bind (k := 0) fun _ => liftExcept _

theorem writeThrough (lba : Nat) (data : List Byte) (tag : Nat) (pipe : Pipe) :
    Says 8 devices (Usb.writeAttempt pipe lba data tag >>= Usb.retried pipe lba data tag) :=
  (writeAttempt lba data tag).bind (k := 4) (retried pipe lba data tag)

theorem mscWriteSector (slotId : Byte) (lba : Nat) (data : List Byte) (tag : Nat) :
    Says 8 devices (mscWriteSector slotId lba data tag) := by
  rw [mscWriteSector_eq]
  exact (resolve slotId).bind (k := 8) (writeThrough lba data tag)

theorem unlessFailed (status : Byte) (e : String) : Says 0 devices
    (if status ≠ 0 then Fallible.throw e else Pure.pure () : MscM Unit) :=
  ite (throw _) (pure _)

theorem syncThrough (tag : Nat) (pipe : Pipe) : Says 4 devices
    (do
      let r ← Usb.mscCommand pipe 0 [0x35, 0, 0, 0, 0, 0, 0, 0, 0, 0] .none tag
      if r.1.scsiStatus ≠ 0 then Fallible.throw "SYNCHRONIZE CACHE CSW status != 0"
      else Pure.pure () : MscM Unit) :=
  (mscCommand _ _ _ _).bind (k := 0) fun r => unlessFailed r.1.scsiStatus _

theorem mscSyncCache (slotId : Byte) (tag : Nat) : Says 4 devices (mscSyncCache slotId tag) :=
  (resolve slotId).bind (k := 4) (syncThrough tag)

theorem blocksThrough (lba blocks : Nat) (data : List Byte) (tag : Nat) (pipe : Pipe) :
    Says 4 devices
      (do
        let status ← Usb.scsiWrite10 pipe 0 lba blocks sector data tag
        if status ≠ 0 then Fallible.throw "WRITE(10) CSW status != 0"
        else Pure.pure () : MscM Unit) :=
  (scsiWrite10 _ _ _ _ _ _).bind (k := 0) fun status => unlessFailed status _

theorem mscWriteBlocks (slotId : Byte) (lba blocks : Nat) (data : List Byte) (tag : Nat) :
    Says 4 devices (mscWriteBlocks slotId lba blocks data tag) :=
  (resolve slotId).bind (k := 4) (blocksThrough lba blocks data tag)

/-! The calls of the device. -/

theorem onBus {m : UsbMscDevice → MscM α} {dev : UsbMscDevice}
    (h : Says n devices (m dev.bumpTag)) :
    Says n devices (DeviceM.onWire (UsbMscDevice.onBus m) dev) := by
  rw [onWire_onBus]
  exact h.map (reported dev.bumpTag)

theorem readSector (lba len : Nat) (dev : UsbMscDevice) :
    Says 4 devices (DeviceM.onWire (UsbMscDevice.readSector lba len) dev) := by
  rw [onWire_readSector]
  exact ite (done _) (ite (done _) (onBus (mscReadSector _ _ _ _)))

theorem verifyIdentity (dev : UsbMscDevice) :
    Says 4 devices (DeviceM.onWire UsbMscDevice.verifyIdentity dev) := by
  cases hg : dev.identityGate with
  | none =>
      rw [onWire_verify_none hg]
      exact done _
  | some expected =>
      rw [onWire_verify_some hg]
      exact ite (done _) ((mscReadSector _ _ _ _).map _)

theorem checkedWrite (lba : Nat) (buf : List Byte) (r : Except StoreError Unit × UsbMscDevice) :
    Says 8 devices (checkedWrite lba buf r) := by
  rcases r with ⟨_ | _, dev⟩
  · exact done _
  · exact onBus (mscWriteSector _ _ _ _)

theorem writeSector (lba : Nat) (buf : List Byte) (dev : UsbMscDevice) :
    Says 12 devices (DeviceM.onWire (UsbMscDevice.writeSector lba buf) dev) := by
  rw [onWire_writeSector]
  exact ite (done _) (ite (done _) ((verifyIdentity dev).andThen (checkedWrite lba buf)))

theorem flush (dev : UsbMscDevice) : Says 4 devices (DeviceM.onWire UsbMscDevice.flush dev) := by
  rw [onWire_flush]
  exact ite (done _) ((mscSyncCache _ _).map fun _ => (Except.ok (), dev.bumpTag))

end Says

/-! ## On sticks -/

variable {bus : Sticks}

theorem onSticksFor_eq {m : Wire → β × Wire} {d : Dialog Ask Fate β}
    (hm : Speaks devices d m) (hd : d.Within n) (bus : Sticks) :
    onSticksFor n devices m bus = d.met Sticks.partner bus := by
  refine Dialog.converse_met (fun plan => ?_) hd bus
  obtain ⟨hres, hfur⟩ := hm ⟨plan, 0, [], devices⟩ rfl
  exact Prod.ext hres hfur.log

theorem onSticks_eq {m : Wire → β × Wire} {d : Dialog Ask Fate β} (hm : Speaks devices d m)
    (hd : d.Within callTransfers) (bus : Sticks) :
    onSticks devices m bus = d.met Sticks.partner bus :=
  onSticksFor_eq hm hd bus

theorem onSticksFor_andThen {N : Nat} {m : Wire → β × Wire} {f : β → Wire → γ × Wire}
    (hm : Says n devices m) (hf : ∀ b, Says k devices (f b)) (hle : n + k ≤ N) :
    onSticksFor N devices (andThen m f) bus =
      onSticksFor N devices (f (onSticksFor N devices m bus).1)
        (onSticksFor N devices m bus).2 := by
  obtain ⟨d, hd, hm⟩ := hm
  choose g hg hf using hf
  rw [onSticksFor_eq (hm.andThen hf) ((hd.bind hg).mono hle), Dialog.met_bind,
    onSticksFor_eq hm (hd.mono (by omega)), onSticksFor_eq (hf _) ((hg _).mono (by omega))]

theorem onSticks_andThen {m : Wire → β × Wire} {f : β → Wire → γ × Wire} (hm : Says n devices m)
    (hf : ∀ b, Says k devices (f b)) (hle : n + k ≤ callTransfers) :
    onSticks devices (andThen m f) bus =
      onSticks devices (f (onSticks devices m bus).1) (onSticks devices m bus).2 :=
  onSticksFor_andThen hm hf hle

/-- More rounds change nothing. -/
theorem onSticksFor_enough {N : Nat} {m : Wire → β × Wire} (hm : Says n devices m)
    (hle : n ≤ callTransfers) (hN : n ≤ N) :
    onSticksFor N devices m bus = onSticks devices m bus := by
  obtain ⟨d, hd, hm⟩ := hm
  rw [onSticksFor_eq hm (hd.mono hN), onSticks_eq hm (hd.mono hle)]

theorem onSticks_map {m : Wire → β × Wire} {r : β} {bus' : Sticks} (hm : Says n devices m)
    (hle : n ≤ callTransfers) (f : β → γ) (h : onSticks devices m bus = (r, bus')) :
    onSticks devices (fun w => (f (m w).1, (m w).2)) bus = (f r, bus') := by
  have hrun : onSticks devices (andThen m fun b w => (f b, w)) bus = _ :=
    onSticks_andThen hm (fun b => .done (n := 0) (f b)) hle
  rw [h] at hrun
  exact hrun

theorem onSticksFor_bind_ok {N : Nat} {m : MscM α} {f : α → MscM γ} {a : α} {bus' : Sticks}
    (hm : Says n devices m) (hf : ∀ a, Says k devices (f a)) (hle : n + k ≤ N)
    (h : onSticksFor N devices m bus = (.ok a, bus')) :
    onSticksFor N devices (m >>= f) bus = onSticksFor N devices (f a) bus' := by
  rw [bind_eq_andThen, onSticksFor_andThen hm (Says.goOn hf) hle, h]
  rfl

theorem onBus_bind_ok {m : MscM α} {f : α → MscM γ} {a : α} {bus' : Sticks}
    (hm : Says n devices m) (hf : ∀ a, Says k devices (f a)) (hle : n + k ≤ callTransfers)
    (h : MscM.onBus devices m bus = (.ok a, bus')) :
    MscM.onBus devices (m >>= f) bus = MscM.onBus devices (f a) bus' :=
  onSticksFor_bind_ok hm hf hle h

theorem onBus_bind_error {m : MscM α} {f : α → MscM γ} {e : String} {bus' : Sticks}
    (hm : Says n devices m) (hf : ∀ a, Says k devices (f a)) (hle : n + k ≤ callTransfers)
    (h : MscM.onBus devices m bus = (.error e, bus')) :
    MscM.onBus devices (m >>= f) bus = (.error e, bus') := by
  rw [bind_eq_andThen]
  have hrun : onSticks devices (andThen m (goOn f)) bus = _ :=
    onSticks_andThen hm (Says.goOn hf) hle
  rw [show onSticks devices m bus = _ from h] at hrun
  exact hrun

theorem onBus_pure (a : α) : MscM.onBus devices (pure a) bus = (.ok a, bus) := rfl

theorem onBus_throw (e : String) :
    MscM.onBus devices (Fallible.throw e : MscM α) bus = (.error e, bus) := rfl

theorem onBus_transfer {x : Fate → Xfer} {q : Ask} (hx : ∀ f, (x f).said = (q, some f)) :
    MscM.onBus devices (transfer x) bus = ((bus.answer q).1.outcome, (bus.answer q).2) :=
  onSticks_eq (speaks_transfer hx) (fun _ => trivial) bus

/-- A command that starts with the lookup of the device. -/
theorem onBus_resolve {f : Pipe → MscM α} {slotId : Byte} {pipe : Pipe}
    (hf : ∀ pipe, Says k devices (f pipe)) (hle : k ≤ callTransfers)
    (hpipe : resolved devices slotId = .ok pipe) :
    MscM.onBus devices (resolve slotId >>= f) bus = MscM.onBus devices (f pipe) bus := by
  have heq : resolve slotId = fun w => (resolved w.devices slotId, w) :=
    funext fun w => resolve_eq slotId w
  have hrun : MscM.onBus devices (resolve slotId) bus = (.ok pipe, bus) := by
    rw [MscM.onBus, heq, ← hpipe]
    rfl
  exact onBus_bind_ok (.resolve slotId) hf (by omega) hrun

theorem onBus_reset (pipe : Pipe) (dirIn : Bool) :
    MscM.onBus devices (resetBulkEndpoint pipe dirIn) bus = (.ok (), bus) := rfl

end Usb

end TablesOS
