import TablesOS.Kernel.Msc

/-!
# What a successful sector transfer has moved

`msc_command` looks at the completion code of its data stage only to clear a
halt, and at no residual length at all; the status byte alone decides. The
first half of the file says, for any plan of fates, when a command comes back
with status 0 and what it has put on the wire. The second half is the exact
condition under which `Ok` then means that the whole sector was moved.
-/

namespace TablesOS

namespace Usb

variable {pipe : Pipe} {w w' : Wire} {tag : Nat}

/-! ## One transfer -/

/-- The wire after one more transfer. -/
def Wire.step (w : Wire) (x : Fate → Xfer) : Wire :=
  { w with next := w.next + 1, log := w.log ++ [x (w.fate w.next)] }

theorem transfer_timeout {x : Fate → Xfer} (h : w.fate w.next = .timeout) :
    transfer x w = (.error "event-ring deadline elapsed", w.step x) := by
  unfold transfer Wire.step
  simp only [h]

theorem transfer_event {x : Fate → Xfer} {cc : Byte} {moved : List Byte}
    (h : w.fate w.next = .event cc moved) : transfer x w = (.ok (cc, moved), w.step x) := by
  unfold transfer Wire.step
  simp only [h]

theorem bulkOut_timeout {bytes : List Byte} (h : w.fate w.next = .timeout) :
    bulkOut pipe bytes w =
      (.error "event-ring deadline elapsed", w.step (.out pipe.slotIdx bytes)) :=
  Fallible.run_bind_error (transfer_timeout h)

theorem bulkOut_event {bytes : List Byte} {cc : Byte} {moved : List Byte}
    (h : w.fate w.next = .event cc moved) :
    bulkOut pipe bytes w = (.ok cc, w.step (.out pipe.slotIdx bytes)) :=
  Fallible.run_bind_ok (transfer_event h)

theorem bulkIn_timeout {buf : List Byte} (h : w.fate w.next = .timeout) :
    bulkIn pipe buf w =
      (.error "event-ring deadline elapsed", w.step (.inn pipe.slotIdx buf.length)) :=
  Fallible.run_bind_error (transfer_timeout h)

theorem bulkIn_event {buf : List Byte} {cc : Byte} {moved : List Byte}
    (h : w.fate w.next = .event cc moved) :
    bulkIn pipe buf w = (.ok (cc, fill buf moved), w.step (.inn pipe.slotIdx buf.length)) :=
  Fallible.run_bind_ok (transfer_event h)

@[simp] theorem length_fill (buf moved : List Byte) : (fill buf moved).length = buf.length := by
  rw [fill, List.length_append, List.length_take, List.length_drop]
  omega

theorem fill_nil (buf : List Byte) : fill buf [] = buf := by
  rw [fill, List.take_nil, List.nil_append, List.length_nil, List.drop_zero]

/-- A buffer filled to the end holds what was moved and nothing else. -/
theorem fill_full {buf moved : List Byte} (h : buf.length ≤ moved.length) :
    fill buf moved = moved.take buf.length := by
  rw [fill, List.drop_eq_nil_of_le h, List.append_nil]

/-! ## The status stage -/

/-- Success or short packet. -/
def Accepted (cc : Byte) : Prop := cc = 1 ∨ cc = 13

instance (cc : Byte) : Decidable (Accepted cc) := inferInstanceAs (Decidable (_ ∨ _))

/-- What the status stage that starts at transfer `n` leaves in the wrapper
buffer, and what its accepted transfer moved. -/
def statusOf (fate : Nat → Fate) (n : Nat) : Option (List Byte × List Byte) :=
  match fate n with
  | .timeout => none
  | .event cc moved =>
      if Accepted cc then some (fill (List.replicate cswLen 0) moved, moved)
      else
        match fate (n + 1) with
        | .timeout => none
        | .event cc' moved' =>
            if Accepted cc' then
              some (fill (fill (List.replicate cswLen 0) moved) moved', moved')
            else none

/-- The wire after an endpoint reset. -/
def Wire.halt (w : Wire) (pipe : Pipe) (dirIn : Bool) : Wire :=
  { w with log := w.log ++ [.reset pipe.slotIdx dirIn] }

theorem reset_run (pipe : Pipe) (dirIn : Bool) (w : Wire) :
    resetBulkEndpoint pipe dirIn w = (.ok (), w.halt pipe dirIn) := rfl

/-- The transfers a status stage takes. -/
def statusSpan (fate : Nat → Fate) (n : Nat) : Nat :=
  match fate n with
  | .timeout => 1
  | .event cc _ => if Accepted cc then 1 else 2

/-- The wire `w'` is `w` after `k` transfers; only the log tells which. -/
structure Wire.After (w w' : Wire) (k : Nat) : Prop where
  fate : w'.fate = w.fate
  devices : w'.devices = w.devices
  next : w'.next = w.next + k

/-- Every transfer in the list goes from the device to the driver. -/
def Inward (xs : List Xfer) : Prop := ∀ x ∈ xs, ∀ i bytes f, x ≠ .out i bytes f

/-- The status stage comes back exactly when one of its two transfers is
accepted; the last thing on the wire is then that transfer. -/
theorem statusStage_run (pipe : Pipe) (w : Wire) :
    ∃ r w', statusStage pipe w = (r, w') ∧ w.After w' (statusSpan w.fate w.next) ∧
      ∃ mid, w'.log = w.log ++ mid ∧ Inward mid ∧
      ((∃ csw moved cc, statusOf w.fate w.next = some (csw, moved) ∧ r = .ok csw ∧
        mid.getLast? = some (.inn pipe.slotIdx cswLen (.event cc moved))) ∨
      ∃ e, statusOf w.fate w.next = none ∧ r = .error e) := by
  unfold statusStage statusOf statusSpan
  cases h : w.fate w.next with
  | timeout =>
      refine ⟨_, _, Fallible.run_bind_error (bulkIn_timeout h), ⟨rfl, rfl, rfl⟩,
        _, rfl, ?_, Or.inr ⟨_, rfl, rfl⟩⟩
      simp [Inward]
  | event cc moved =>
      rw [Fallible.run_bind_ok (bulkIn_event h)]
      simp only
      by_cases hcc : cc = 1 ∨ cc = 13
      · rw [if_pos (show Accepted cc from hcc), if_pos (show Accepted cc from hcc)]
        refine ⟨_, _, Fallible.run_if_pos hcc _ _ _, ⟨rfl, rfl, rfl⟩, _, rfl, ?_,
          Or.inl ⟨_, _, cc, rfl, rfl, ?_⟩⟩
        · simp [Inward]
        · simp [h]
      · rw [if_neg (show ¬ Accepted cc from hcc), if_neg (show ¬ Accepted cc from hcc),
          Fallible.run_if_neg hcc, Fallible.run_bind_ok (reset_run pipe true _)]
        have hnext : ((w.step (.inn pipe.slotIdx (List.replicate cswLen (0 : Byte)).length)).halt
            pipe true).fate
              ((w.step (.inn pipe.slotIdx (List.replicate cswLen (0 : Byte)).length)).halt
              pipe true).next = w.fate (w.next + 1) := rfl
        cases h' : w.fate (w.next + 1) with
        | timeout =>
            rw [h'] at hnext
            refine ⟨_, _, Fallible.run_bind_error (bulkIn_timeout hnext), ⟨rfl, rfl, rfl⟩,
              _, by simp [Wire.step, Wire.halt]; rfl, ?_, Or.inr ⟨_, rfl, rfl⟩⟩
            simp [Inward]
        | event cc' moved' =>
            rw [h'] at hnext
            rw [Fallible.run_bind_ok (bulkIn_event hnext)]
            simp only
            by_cases hcc' : cc' = 1 ∨ cc' = 13
            · rw [if_pos (show Accepted cc' from hcc')]
              refine ⟨_, _, Fallible.run_if_pos hcc' _ _ _, ⟨rfl, rfl, rfl⟩,
                _, by simp [Wire.step, Wire.halt]; rfl, ?_, Or.inl ⟨_, _, cc', rfl, rfl, ?_⟩⟩
              · simp [Inward]
              · simp [h']
            · rw [if_neg (show ¬ Accepted cc' from hcc'), Fallible.run_if_neg hcc',
                Fallible.run_bind_ok (reset_run pipe true _)]
              refine ⟨_, _, rfl, ⟨rfl, rfl, rfl⟩, _, by simp [Wire.step, Wire.halt]; rfl, ?_,
                Or.inr ⟨_, rfl, rfl⟩⟩
              simp [Inward]

/-! ## A whole command -/

namespace DataStage

/-- The transfer of the data stage, where there is one. -/
def xfer (pipe : Pipe) : DataStage → Option (Fate → Xfer)
  | none => Option.none
  | read length => some (.inn pipe.slotIdx length)
  | write bytes => some (.out pipe.slotIdx bytes)

/-- The data buffer after a transfer that moved `moved`. -/
def after (moved : List Byte) : DataStage → List Byte
  | none => []
  | read length => fill (List.replicate length 0) moved
  | write bytes => bytes

end DataStage

/-- Resets only. -/
def Idle (xs : List Xfer) : Prop := ∀ x ∈ xs, ∃ i dirIn, x = .reset i dirIn

theorem dataStage_timeout {data : DataStage} {x : Fate → Xfer} (hx : data.xfer pipe = some x)
    (h : w.fate w.next = .timeout) :
    dataStage pipe data w = (.error "event-ring deadline elapsed", w.step x) := by
  cases data with
  | none => cases hx
  | read length =>
      cases hx
      exact (Fallible.run_bind_error (bulkIn_timeout h)).trans (by rw [List.length_replicate])
  | write bytes =>
      cases hx
      exact Fallible.run_bind_error (bulkOut_timeout h)

/-- The data stage goes on whatever the completion code was. -/
theorem dataStage_event {data : DataStage} {x : Fate → Xfer} (hx : data.xfer pipe = some x)
    {cc : Byte} {moved : List Byte} (h : w.fate w.next = .event cc moved) :
    ∃ w', dataStage pipe data w = (.ok (data.after moved), w') ∧ w.After w' 1 ∧
      ∃ mid, Idle mid ∧ w'.log = w.log ++ x (.event cc moved) :: mid := by
  cases data with
  | none => cases hx
  | read length =>
      cases hx
      by_cases hcc : cc ≠ 1 ∧ cc ≠ 13
      · refine ⟨_, (Fallible.run_bind_ok (bulkIn_event h)).trans
          ((Fallible.run_if_pos hcc _ _ _).trans (Fallible.run_bind_ok (reset_run pipe true _))),
          ⟨rfl, rfl, rfl⟩, [.reset pipe.slotIdx true], ?_, ?_⟩
        · simp [Idle]
        · simp [Wire.step, Wire.halt, h]
      · refine ⟨_, (Fallible.run_bind_ok (bulkIn_event h)).trans
          (Fallible.run_if_neg hcc _ _ _), ⟨rfl, rfl, rfl⟩, [], ?_, ?_⟩
        · simp [Idle]
        · simp [Wire.step, h]
  | write bytes =>
      cases hx
      by_cases hcc : cc ≠ 1 ∧ cc ≠ 13
      · refine ⟨_, (Fallible.run_bind_ok (bulkOut_event h)).trans
          ((Fallible.run_if_pos hcc _ _ _).trans (Fallible.run_bind_ok (reset_run pipe false _))),
          ⟨rfl, rfl, rfl⟩, [.reset pipe.slotIdx false], ?_, ?_⟩
        · simp [Idle]
        · simp [Wire.step, Wire.halt, h]
      · refine ⟨_, (Fallible.run_bind_ok (bulkOut_event h)).trans
          (Fallible.run_if_neg hcc _ _ _), ⟨rfl, rfl, rfl⟩, [], ?_, ?_⟩
        · simp [Idle]
        · simp [Wire.step, h]

/-- The transfers a command with a data stage takes. -/
def commandSpan (fate : Nat → Fate) (n : Nat) : Nat :=
  match fate n with
  | .timeout => 1
  | .event cc _ =>
      if cc = 1 then
        match fate (n + 1) with
        | .timeout => 2
        | .event _ _ => 2 + statusSpan fate (n + 2)
      else 1

/-- What a command with a data stage comes back with when it starts at
transfer `n`: the bytes moved in the data stage, those moved in the accepted
transfer of the status stage, and what the status wrapper says. -/
def commandOf (fate : Nat → Fate) (n tag : Nat) :
    Option (List Byte × List Byte × MscOutcome) :=
  match fate n with
  | .timeout => none
  | .event cc _ =>
      if cc = 1 then
        match fate (n + 1) with
        | .timeout => none
        | .event _ moved =>
            match statusOf fate (n + 2) with
            | none => none
            | some (csw, m) =>
                match readCsw csw tag with
                | .error _ => none
                | .ok outcome => some (moved, m, outcome)
      else none

/-- What a command with a data stage has put on the wire when it came back. -/
def Commanded (pipe : Pipe) (c : List Byte) (x : Fate → Xfer) (moved m : List Byte)
    (xs : List Xfer) : Prop :=
  ∃ sent cc mid cc', xs = .out pipe.slotIdx c (.event 1 sent) :: x (.event cc moved) :: mid ∧
    Inward mid ∧ mid.getLast? = some (.inn pipe.slotIdx cswLen (.event cc' m))

theorem inward_of_idle {xs : List Xfer} (h : Idle xs) : Inward xs := by
  intro x hx i bytes f hxe
  obtain ⟨j, d, hj⟩ := h x hx
  rw [hj] at hxe
  cases hxe

theorem Inward.append {xs ys : List Xfer} (hx : Inward xs) (hy : Inward ys) :
    Inward (xs ++ ys) := by
  intro x h
  rcases List.mem_append.mp h with h | h
  · exact hx x h
  · exact hy x h

/-- A command with a data stage, under any plan of fates. -/
theorem mscCommand_run (pipe : Pipe) (lun : Byte) {cb : List Byte} (data : DataStage)
    {x : Fate → Xfer} (hcb : ¬ (cb = [] ∨ 16 < cb.length)) (hx : data.xfer pipe = some x)
    (tag : Nat) (w : Wire) :
    ∃ r w', mscCommand pipe lun cb data tag w = (r, w') ∧
      w.After w' (commandSpan w.fate w.next) ∧ ∃ xs, w'.log = w.log ++ xs ∧
      ((∃ moved m outcome, commandOf w.fate w.next tag = some (moved, m, outcome) ∧
        r = .ok (outcome, data.after moved) ∧
        Commanded pipe (cbw tag data lun cb) x moved m xs) ∨
      ∃ e, commandOf w.fate w.next tag = none ∧ r = .error e) := by
  unfold mscCommand commandOf commandSpan
  cases h : w.fate w.next with
  | timeout =>
      exact ⟨_, _, (Fallible.run_if_neg hcb _ _ _).trans
        (Fallible.run_bind_error (bulkOut_timeout h)), ⟨rfl, rfl, rfl⟩, _, rfl,
        Or.inr ⟨_, rfl, rfl⟩⟩
  | event cc sent =>
      rw [Fallible.run_if_neg hcb, Fallible.run_bind_ok (bulkOut_event h)]
      by_cases hcc : cc ≠ 1
      · rw [Fallible.run_if_pos hcc, Fallible.run_bind_ok (reset_run pipe false _)]
        dsimp only
        rw [if_neg hcc, if_neg hcc]
        exact ⟨_, _, rfl, ⟨rfl, rfl, rfl⟩, _, by simp [Wire.step, Wire.halt]; rfl,
          Or.inr ⟨_, rfl, rfl⟩⟩
      · rw [Fallible.run_if_neg hcc]
        rw [not_not] at hcc
        subst hcc
        simp only [if_true]
        generalize hw₁ : w.step (.out pipe.slotIdx (cbw tag data lun cb)) = w₁
        have hlog₁ : w₁.log = w.log ++ [.out pipe.slotIdx (cbw tag data lun cb)
            (.event 1 sent)] := by
          rw [← hw₁, Wire.step, h]
        have hfate₁ : w₁.fate = w.fate := by rw [← hw₁]; rfl
        have hdev₁ : w₁.devices = w.devices := by rw [← hw₁]; rfl
        have hnext₁ : w₁.next = w.next + 1 := by rw [← hw₁]; rfl
        have hf₁ : w₁.fate w₁.next = w.fate (w.next + 1) := by rw [hfate₁, hnext₁]
        cases h₂ : w.fate (w.next + 1) with
        | timeout =>
            refine ⟨_, _, Fallible.run_bind_error (dataStage_timeout hx (hf₁.trans h₂)),
              ⟨hfate₁, hdev₁, by show w₁.next + 1 = w.next + 2; omega⟩, _,
              by simp [Wire.step, hlog₁]; rfl, Or.inr ⟨_, rfl, rfl⟩⟩
        | event cc₂ moved =>
            obtain ⟨w₂, hrun₂, hafter₂, mid₂, hidle₂, hlog₂⟩ :=
              dataStage_event hx (hf₁.trans h₂)
            rw [Fallible.run_bind_ok hrun₂]
            obtain ⟨r₃, w₃, hrun₃, hafter₃, mid₃, hlog₃, hin₃, hr₃⟩ := statusStage_run pipe w₂
            have hfate₂ : w₂.fate = w.fate := hafter₂.fate.trans hfate₁
            have hnext₂ : w₂.next = w.next + 2 := by rw [hafter₂.next, hnext₁]
            have hall : w₃.log = w.log ++ (.out pipe.slotIdx (cbw tag data lun cb)
                (.event 1 sent) :: x (.event cc₂ moved) :: (mid₂ ++ mid₃)) := by
              rw [hlog₃, hlog₂, hlog₁]
              simp
            have hafter : w.After w₃ (2 + statusSpan w.fate (w.next + 2)) := by
              refine ⟨hafter₃.fate.trans hfate₂, hafter₃.devices.trans
                (hafter₂.devices.trans hdev₁), ?_⟩
              rw [hafter₃.next, hfate₂, hnext₂]
              omega
            rw [hfate₂, hnext₂] at hr₃
            rcases hr₃ with ⟨csw, m, cc₃, hst, hr, hlast⟩ | ⟨e, hst, hr⟩
            · rw [hr] at hrun₃
              rw [Fallible.run_bind_ok hrun₃, hst]
              simp only
              cases hcsw : readCsw csw tag with
              | error e =>
                  exact ⟨_, _, rfl, hafter, _, hall, Or.inr ⟨_, rfl, rfl⟩⟩
              | ok outcome =>
                  refine ⟨_, _, rfl, hafter, _, hall, Or.inl ⟨_, _, _, rfl, rfl, sent, cc₂,
                    mid₂ ++ mid₃, cc₃, rfl, (inward_of_idle hidle₂).append hin₃, ?_⟩⟩
                  rw [List.getLast?_append, hlast]
                  rfl
            · rw [hr] at hrun₃
              rw [hst]
              exact ⟨_, _, Fallible.run_bind_error hrun₃, hafter, _, hall,
                Or.inr ⟨_, rfl, rfl⟩⟩

theorem statusOf_full {fate : Nat → Fate} {n : Nat} {csw m : List Byte}
    (h : statusOf fate n = some (csw, m)) (hm : cswLen ≤ m.length) : csw = m.take cswLen := by
  have hfull : ∀ buf : List Byte, buf.length = cswLen → fill buf m = m.take cswLen := by
    intro buf hbuf
    rw [fill_full (by rw [hbuf]; exact hm), hbuf]
  unfold statusOf at h
  cases hn : fate n with
  | timeout => rw [hn] at h; cases h
  | event cc moved =>
      rw [hn] at h
      dsimp only at h
      by_cases hcc : Accepted cc
      · rw [if_pos hcc] at h
        cases h
        exact hfull _ List.length_replicate
      · rw [if_neg hcc] at h
        cases hn' : fate (n + 1) with
        | timeout => rw [hn'] at h; cases h
        | event cc' moved' =>
            rw [hn'] at h
            dsimp only at h
            by_cases hcc' : Accepted cc'
            · rw [if_pos hcc'] at h
              cases h
              exact hfull _ ((length_fill _ _).trans List.length_replicate)
            · rw [if_neg hcc'] at h
              cases h

theorem commandOf_status {fate : Nat → Fate} {n tag : Nat} {moved m : List Byte}
    {outcome : MscOutcome} (h : commandOf fate n tag = some (moved, m, outcome)) :
    ∃ csw, statusOf fate (n + 2) = some (csw, m) ∧ readCsw csw tag = .ok outcome := by
  unfold commandOf at h
  cases hn : fate n with
  | timeout => rw [hn] at h; cases h
  | event cc sent =>
      rw [hn] at h
      dsimp only at h
      by_cases hcc : cc = 1
      · rw [if_pos hcc] at h
        cases hn' : fate (n + 1) with
        | timeout => rw [hn'] at h; cases h
        | event cc' moved' =>
            rw [hn'] at h
            dsimp only at h
            cases hst : statusOf fate (n + 2) with
            | none => rw [hst] at h; cases h
            | some p =>
                rw [hst] at h
                dsimp only at h
                cases hcsw : readCsw p.1 tag with
                | error e => rw [hcsw] at h; cases h
                | ok o =>
                    rw [hcsw] at h
                    cases h
                    exact ⟨_, rfl, hcsw⟩
      · rw [if_neg hcc] at h
        cases h

/-! ## What a device reads in a command block wrapper -/

/-- The operation code of the command block. -/
def opcodeOf (c : List Byte) : Byte := c.getD 15 0

/-- The LBA of a ten-byte command block. -/
def lbaOf (c : List Byte) : Nat :=
  (c.getD 17 0).toNat * 2 ^ 24 + (c.getD 18 0).toNat * 2 ^ 16 + (c.getD 19 0).toNat * 2 ^ 8 +
    (c.getD 20 0).toNat

theorem opcodeOf_cbw (tag : Nat) (data : DataStage) (lun opcode : Byte) (lba blocks : Nat) :
    opcodeOf (cbw tag data lun (rw10 opcode lba blocks)) = opcode := rfl

theorem lbaOf_cbw (tag : Nat) (data : DataStage) (lun opcode : Byte) {lba : Nat}
    (h : lba < 2 ^ 32) (blocks : Nat) :
    lbaOf (cbw tag data lun (rw10 opcode lba blocks)) = lba := by
  have : lbaOf (cbw tag data lun (rw10 opcode lba blocks)) =
      (UInt8.ofNat (lba / 2 ^ 24)).toNat * 2 ^ 24 + (UInt8.ofNat (lba / 2 ^ 16)).toNat * 2 ^ 16 +
        (UInt8.ofNat (lba / 2 ^ 8)).toNat * 2 ^ 8 + (UInt8.ofNat lba).toNat := rfl
  rw [this]
  simp only [UInt8.toNat_ofNat']
  omega

/-! ## Sectors -/

/-- The slot has the endpoints of a drive. -/
def Resolves (w : Wire) (slotId : Byte) (pipe : Pipe) : Prop :=
  mscResolveBulk w.devices slotId = .ok (pipe.slotIdx, pipe.bulkInIdx, pipe.bulkOutIdx)

theorem resolve_ok {slotId : Byte} (h : Resolves w slotId pipe) :
    resolve slotId w = (.ok pipe, w) := by
  unfold resolve
  rw [h]

theorem resolve_error {slotId : Byte} {e : String}
    (h : mscResolveBulk w.devices slotId = .error e) : resolve slotId w = (.error e, w) := by
  unfold resolve
  rw [h]

/-- What was put on the wire between two states of it. -/
def Wire.made (w w' : Wire) : List Xfer := w'.log.drop w.log.length

theorem made_of_log {xs : List Xfer} (h : w'.log = w.log ++ xs) : w.made w' = xs := by
  rw [Wire.made, h, List.drop_left]

/-- The transfers to the device, in order. -/
def outsOf (xs : List Xfer) : List (Nat × List Byte × Fate) :=
  xs.filterMap fun
    | .out i bytes fate => some (i, bytes, fate)
    | _ => none

theorem outsOf_inward {xs : List Xfer} (h : Inward xs) : outsOf xs = [] := by
  rw [outsOf, List.filterMap_eq_nil_iff]
  intro x hx
  cases x with
  | out i bytes fate => exact absurd rfl (h _ hx i bytes fate)
  | inn i length fate => rfl
  | reset i dirIn => rfl

/-- A sector was read: the data stage of a READ(10) of this block moved all of
it, and these are its bytes. -/
def ReadMoved (slotIdx lba : Nat) (bytes : List Byte) (xs : List Xfer) : Prop :=
  ∃ c sent cc moved rest,
    xs = .out slotIdx c (.event 1 sent) :: .inn slotIdx sector (.event cc moved) :: rest ∧
    opcodeOf c = 0x28 ∧ lbaOf c = lba ∧ sector ≤ moved.length ∧ bytes = moved.take sector

/-- A sector was written: in the last command sent, a WRITE(10) of this block,
the device took all of it, and reported status 0 and no residue. -/
def WriteAccepted (slotIdx lba tag : Nat) (data : List Byte) (xs : List Xfer) : Prop :=
  ∃ before c sent cc moved cc' m,
    outsOf xs = before ++ [(slotIdx, c, .event 1 sent),
      (slotIdx, data.take sector, .event cc moved)] ∧
    xs.getLast? = some (.inn slotIdx cswLen (.event cc' m)) ∧
    opcodeOf c = 0x2A ∧ lbaOf c = lba ∧ sector ≤ moved.length ∧
    cswLen ≤ m.length ∧ readCsw (m.take cswLen) tag = .ok ⟨0, 0⟩

/-- A command that starts at transfer `n` answers status 0 after a data stage
that moved less than the sector. -/
def ReadSlips (fate : Nat → Fate) (n tag : Nat) : Prop :=
  ∃ moved m outcome, commandOf fate n tag = some (moved, m, outcome) ∧
    outcome.scsiStatus = 0 ∧ moved.length < sector

/-- The same of a write, where the status wrapper has a say as well. -/
def WriteSlips (fate : Nat → Fate) (n tag : Nat) : Prop :=
  ∃ moved m outcome, commandOf fate n tag = some (moved, m, outcome) ∧
    outcome.scsiStatus = 0 ∧
    (moved.length < sector ∨ m.length < cswLen ∨ outcome.residue ≠ 0)

/-- A command that starts at transfer `n` answers status 0. -/
def Passes (fate : Nat → Fate) (n tag : Nat) : Prop :=
  ∃ moved m outcome, commandOf fate n tag = some (moved, m, outcome) ∧ outcome.scsiStatus = 0

theorem rw10_cb (opcode : Byte) (lba blocks : Nat) :
    ¬ (rw10 opcode lba blocks = [] ∨ 16 < (rw10 opcode lba blocks).length) := by
  simp [rw10]

/-- `msc_read_sector` on a slot that has the endpoints. -/
theorem mscReadSector_run {slotId : Byte} (hp : Resolves w slotId pipe) (lba tag : Nat) :
    ∃ r w', mscReadSector slotId lba sector tag w = (r, w') ∧
      ((∃ moved m outcome, commandOf w.fate w.next tag = some (moved, m, outcome) ∧
        outcome.scsiStatus = 0 ∧ r = .ok (fill (List.replicate sector 0) moved) ∧
        Commanded pipe (cbw tag (.read sector) 0 (rw10 0x28 lba 1)) (.inn pipe.slotIdx sector)
          moved m (w.made w')) ∨
      ¬ Passes w.fate w.next tag ∧ ∃ e, r = .error e) := by
  obtain ⟨r, w', hrun, -, xs, hlog, hr⟩ := mscCommand_run pipe 0 (.read (1 * sector))
    (rw10_cb 0x28 lba 1) rfl tag w
  have hmade := made_of_log hlog
  rcases hr with ⟨moved, m, outcome, hc, hr, hcmd⟩ | ⟨e, hc, hr⟩
  · rw [hr] at hrun
    have hscsi : scsiRead10 pipe 0 lba 1 sector tag w = (.ok (outcome.scsiStatus,
        if outcome.scsiStatus = 0 then fill (List.replicate sector 0) moved else []), w') :=
      Fallible.run_bind_ok hrun
    by_cases hst : outcome.scsiStatus = 0
    · rw [if_pos hst] at hscsi
      have hlen : ¬ (fill (List.replicate sector (0 : Byte)) moved).length < sector := by
        rw [length_fill, List.length_replicate]
        exact Nat.lt_irrefl _
      have htake : (fill (List.replicate sector (0 : Byte)) moved).take sector =
          fill (List.replicate sector 0) moved := by
        exact List.take_of_length_le (Nat.le_of_eq (by rw [length_fill, List.length_replicate]))
      refine ⟨_, w', (Fallible.run_bind_ok (resolve_ok hp)).trans
        ((Fallible.run_bind_ok hscsi).trans ((Fallible.run_if_neg (not_not.mpr hst) _ _ _).trans
          ((Fallible.run_if_neg hlen _ _ _).trans (Fallible.run_pure _ _)))),
        Or.inl ⟨moved, m, outcome, hc, hst, by rw [htake], ?_⟩⟩
      rw [hmade]
      exact hcmd
    · rw [if_neg hst] at hscsi
      refine ⟨_, w', (Fallible.run_bind_ok (resolve_ok hp)).trans
        ((Fallible.run_bind_ok hscsi).trans (Fallible.run_if_pos hst _ _ _)),
        Or.inr ⟨?_, _, rfl⟩⟩
      rintro ⟨moved', m', outcome', hc', hst'⟩
      rw [hc] at hc'
      cases hc'
      exact hst hst'
  · rw [hr] at hrun
    refine ⟨_, w', (Fallible.run_bind_ok (resolve_ok hp)).trans
      (Fallible.run_bind_error (Fallible.run_bind_error hrun)), Or.inr ⟨?_, _, rfl⟩⟩
    rintro ⟨moved', m', outcome', hc', -⟩
    rw [hc] at hc'
    cases hc'

/-- One attempt of a write. -/
theorem writeAttempt_run (pipe : Pipe) (lba tag : Nat) {data : List Byte}
    (hdata : sector ≤ data.length)
    (w : Wire) :
    ∃ r w', writeAttempt pipe lba data tag w = (.ok r, w') ∧
      w.After w' (commandSpan w.fate w.next) ∧ ∃ xs, w'.log = w.log ++ xs ∧
      ((∃ moved m outcome, commandOf w.fate w.next tag = some (moved, m, outcome) ∧
        outcome.scsiStatus = 0 ∧ r = .ok () ∧
        Commanded pipe (cbw tag (.write (data.take sector)) 0 (rw10 0x2A lba 1))
          (.out pipe.slotIdx (data.take sector)) moved m xs) ∨
      ¬ Passes w.fate w.next tag ∧ ∃ e, r = .error e) := by
  obtain ⟨r, w', hrun, hafter, xs, hlog, hr⟩ := mscCommand_run pipe 0
    (.write (data.take (1 * sector))) (rw10_cb 0x2A lba 1) rfl tag w
  have hlen : ¬ data.length < 1 * sector := by omega
  rcases hr with ⟨moved, m, outcome, hc, hr, hcmd⟩ | ⟨e, hc, hr⟩
  · rw [hr] at hrun
    have hscsi : scsiWrite10 pipe 0 lba 1 sector data tag w = (.ok outcome.scsiStatus, w') :=
      (Fallible.run_if_neg hlen _ _ _).trans (Fallible.run_bind_ok hrun)
    have hatt : writeAttempt pipe lba data tag w = (.ok (if outcome.scsiStatus = 0 then .ok ()
        else .error "WRITE(10) CSW status != 0"), w') := by
      unfold writeAttempt
      rw [hscsi]
    by_cases hst : outcome.scsiStatus = 0
    · rw [if_pos hst] at hatt
      exact ⟨_, w', hatt, hafter, xs, hlog, Or.inl ⟨moved, m, outcome, hc, hst, rfl, hcmd⟩⟩
    · rw [if_neg hst] at hatt
      refine ⟨_, w', hatt, hafter, xs, hlog, Or.inr ⟨?_, _, rfl⟩⟩
      rintro ⟨moved', m', outcome', hc', hst'⟩
      rw [hc] at hc'
      cases hc'
      exact hst hst'
  · rw [hr] at hrun
    have hscsi : scsiWrite10 pipe 0 lba 1 sector data tag w = (.error e, w') :=
      (Fallible.run_if_neg hlen _ _ _).trans (Fallible.run_bind_error hrun)
    have hatt : writeAttempt pipe lba data tag w = (.ok (.error e), w') := by
      unfold writeAttempt
      rw [hscsi]
    refine ⟨_, w', hatt, hafter, xs, hlog, Or.inr ⟨?_, _, rfl⟩⟩
    rintro ⟨moved', m', outcome', hc', -⟩
    rw [hc] at hc'
    cases hc'

/-- A payload that does not fill the sector is never sent. -/
theorem mscWriteSector_short (w : Wire) (slotId : Byte) (lba tag : Nat) {data : List Byte}
    (hdata : ¬ sector ≤ data.length) :
    ∃ e, mscWriteSector slotId lba data tag w = (.error e, w) := by
  have hlen : data.length < 1 * sector := by omega
  have hatt : ∀ pipe : Pipe, writeAttempt pipe lba data tag w =
      (.ok (.error "WRITE(10): payload smaller than declared transfer length"), w) := by
    intro pipe
    have : scsiWrite10 pipe 0 lba 1 sector data tag w =
        (.error "WRITE(10): payload smaller than declared transfer length", w) :=
      Fallible.run_if_pos hlen _ _ _
    unfold writeAttempt
    rw [this]
  cases hr : mscResolveBulk w.devices slotId with
  | error e => exact ⟨e, Fallible.run_bind_error (resolve_error hr)⟩
  | ok p =>
      obtain ⟨i, j, k⟩ := p
      have hp : Resolves w slotId ⟨i, j, k⟩ := hr
      refine ⟨_, (Fallible.run_bind_ok (resolve_ok hp)).trans
        ((Fallible.run_bind_ok (hatt _)).trans (Fallible.run_bind_ok (hatt _)))⟩

/-- `msc_write_sector` on a slot that has the endpoints: the last attempt
decides. -/
theorem mscWriteSector_run {slotId : Byte} (hp : Resolves w slotId pipe) (lba tag : Nat)
    {data : List Byte} (hdata : sector ≤ data.length) :
    ∃ r w', mscWriteSector slotId lba data tag w = (r, w') ∧
      ((∃ n moved m outcome before, commandOf w.fate n tag = some (moved, m, outcome) ∧
        (n = w.next ∨ ¬ Passes w.fate w.next tag ∧ n = w.next + commandSpan w.fate w.next) ∧
        outcome.scsiStatus = 0 ∧ r = .ok () ∧ ∃ xs, w.made w' = before ++ xs ∧
        Commanded pipe (cbw tag (.write (data.take sector)) 0 (rw10 0x2A lba 1))
          (.out pipe.slotIdx (data.take sector)) moved m xs) ∨
      ¬ Passes w.fate w.next tag ∧
        ¬ Passes w.fate (w.next + commandSpan w.fate w.next) tag ∧ ∃ e, r = .error e) := by
  obtain ⟨r₁, w₁, hrun₁, hafter₁, xs₁, hlog₁, hr₁⟩ :=
    writeAttempt_run pipe lba tag hdata w
  rcases hr₁ with ⟨moved, m, outcome, hc, hst, hr, hcmd⟩ | ⟨hfail₁, e, hr⟩
  · rw [hr] at hrun₁
    refine ⟨_, w₁, (Fallible.run_bind_ok (resolve_ok hp)).trans (Fallible.run_bind_ok hrun₁),
      Or.inl ⟨_, moved, m, outcome, [], hc, Or.inl rfl, hst, rfl, xs₁, made_of_log hlog₁, hcmd⟩⟩
  · rw [hr] at hrun₁
    obtain ⟨r₂, w₂, hrun₂, hafter₂, xs₂, hlog₂, hr₂⟩ :=
      writeAttempt_run pipe lba tag hdata w₁
    have hfate : w₁.fate = w.fate := hafter₁.fate
    have hlog : w₂.log = w.log ++ (xs₁ ++ xs₂) := by
      rw [hlog₂, hlog₁, List.append_assoc]
    have hrun : ∀ p, liftExcept r₂ w₂ = p → mscWriteSector slotId lba data tag w = p :=
      fun p hlast => (Fallible.run_bind_ok (resolve_ok hp)).trans
        ((Fallible.run_bind_ok hrun₁).trans ((Fallible.run_bind_ok hrun₂).trans hlast))
    rw [hfate, hafter₁.next] at hr₂
    rcases hr₂ with ⟨moved, m, outcome, hc, hst, hr', hcmd⟩ | ⟨hfail₂, e', hr'⟩
    · rw [hr'] at hrun
      exact ⟨_, w₂, hrun _ rfl, Or.inl ⟨_, moved, m, outcome, xs₁, hc, Or.inr ⟨hfail₁, rfl⟩,
        hst, rfl, xs₂, made_of_log hlog, hcmd⟩⟩
    · rw [hr'] at hrun
      exact ⟨_, w₂, hrun _ rfl, Or.inr ⟨hfail₁, hfail₂, _, rfl⟩⟩

/-! ## The exact condition -/

/-- `Ok` of `msc_read_sector` means that the whole sector was moved. -/
def ReadKept (w : Wire) (slotId : Byte) (lba tag : Nat) : Prop :=
  ∀ bytes w', mscReadSector slotId lba sector tag w = (.ok bytes, w') →
    ∃ pipe, Resolves w slotId pipe ∧ ReadMoved pipe.slotIdx lba bytes (w.made w')

/-- `Ok` of `msc_write_sector` means that the whole sector was taken. -/
def WriteKept (w : Wire) (slotId : Byte) (lba tag : Nat) (data : List Byte) : Prop :=
  ∀ w', mscWriteSector slotId lba data tag w = (.ok (), w') →
    ∃ pipe, Resolves w slotId pipe ∧
      WriteAccepted pipe.slotIdx lba tag data (w.made w')

theorem Resolves.unique {slotId : Byte} {pipe' : Pipe} (h : Resolves w slotId pipe)
    (h' : Resolves w slotId pipe') : pipe' = pipe := by
  rw [Resolves, h] at h'
  obtain ⟨hslot, hends⟩ := Prod.mk.inj (Except.ok.inj h')
  obtain ⟨hin, hout⟩ := Prod.mk.inj hends
  cases pipe
  cases pipe'
  simp only at hslot hin hout
  rw [hslot, hin, hout]

theorem resolves_or (w : Wire) (slotId : Byte) :
    (∃ pipe, Resolves w slotId pipe) ∨ ∃ e, mscResolveBulk w.devices slotId = .error e := by
  cases h : mscResolveBulk w.devices slotId with
  | error e => exact Or.inr ⟨e, rfl⟩
  | ok p => exact Or.inl ⟨⟨p.1, p.2.1, p.2.2⟩, h⟩

theorem readKept_iff {slotId : Byte} (hp : Resolves w slotId pipe) {lba : Nat}
    (hlba : lba < 2 ^ 32) (tag : Nat) :
    ReadKept w slotId lba tag ↔ ¬ ReadSlips w.fate w.next tag := by
  obtain ⟨r, w', hrun, hr⟩ := mscReadSector_run hp lba tag
  constructor
  · rintro hkept ⟨moved, m, outcome, hc, hst, hlen⟩
    rcases hr with ⟨moved', m', outcome', hc', -, hr, hcmd⟩ | ⟨hfail, -⟩
    · rw [hc] at hc'
      cases hc'
      rw [hr] at hrun
      obtain ⟨pipe', hp', c, sent, cc, moved', rest, hxs, -, -, hfull, -⟩ := hkept _ _ hrun
      rw [hp.unique hp'] at hxs
      obtain ⟨sent', cc', mid, cc'', hxs', -, -⟩ := hcmd
      rw [hxs'] at hxs
      injection hxs with _ hxs
      injection hxs with hxs _
      cases hxs
      omega
    · exact hfail ⟨moved, m, outcome, hc, hst⟩
  · intro hslip bytes w'' hok
    rw [hrun] at hok
    cases hok
    rcases hr with ⟨moved, m, outcome, hc, hst, hr, sent, cc, mid, cc', hxs, -, -⟩ | ⟨-, e, hr⟩
    · have hfull : sector ≤ moved.length := by
        by_contra hlt
        exact hslip ⟨moved, m, outcome, hc, hst, Nat.lt_of_not_le hlt⟩
      have hbytes : bytes = fill (List.replicate sector 0) moved := Except.ok.inj hr
      rw [hbytes]
      refine ⟨pipe, hp, _, sent, cc, moved, mid, hxs, opcodeOf_cbw _ _ _ _ _ _,
        lbaOf_cbw _ _ _ _ hlba _, hfull, ?_⟩
      rw [fill_full (by rw [List.length_replicate]; exact hfull), List.length_replicate]
    · cases hr

theorem outsOf_commanded {c payload : List Byte} {moved m : List Byte} {xs : List Xfer}
    (h : Commanded pipe c (.out pipe.slotIdx payload) moved m xs) :
    ∃ sent cc cc', outsOf xs = [(pipe.slotIdx, c, .event 1 sent),
      (pipe.slotIdx, payload, .event cc moved)] ∧
      xs.getLast? = some (.inn pipe.slotIdx cswLen (.event cc' m)) := by
  obtain ⟨sent, cc, mid, cc', rfl, hin, hlast⟩ := h
  refine ⟨sent, cc, cc', ?_, ?_⟩
  · have hmid := outsOf_inward hin
    have hcons : ∀ ys, outsOf (.out pipe.slotIdx c (.event 1 sent) ::
        .out pipe.slotIdx payload (.event cc moved) :: ys) =
        (pipe.slotIdx, c, .event 1 sent) :: (pipe.slotIdx, payload, .event cc moved) ::
          outsOf ys := fun _ => rfl
    rw [hcons, hmid]
  · rw [List.getLast?_cons, List.getLast?_cons, hlast]
    rfl

/-- A command that moved everything leaves an accepted write behind; one that
slipped does not. -/
theorem writeAccepted_iff {before xs : List Xfer} {lba tag n : Nat} {data moved m : List Byte}
    {outcome : MscOutcome} (hlba : lba < 2 ^ 32)
    (hc : commandOf w.fate n tag = some (moved, m, outcome)) (hst : outcome.scsiStatus = 0)
    (hcmd : Commanded pipe (cbw tag (.write (data.take sector)) 0 (rw10 0x2A lba 1))
      (.out pipe.slotIdx (data.take sector)) moved m xs) :
    WriteAccepted pipe.slotIdx lba tag data (before ++ xs) ↔
      ¬ (moved.length < sector ∨ m.length < cswLen ∨ outcome.residue ≠ 0) := by
  obtain ⟨sent, cc, cc', houts, hlast⟩ := outsOf_commanded hcmd
  obtain ⟨csw, hstatus, hcsw⟩ := commandOf_status hc
  have happ : outsOf (before ++ xs) = outsOf before ++ [(pipe.slotIdx,
      cbw tag (.write (data.take sector)) 0 (rw10 0x2A lba 1), .event 1 sent),
      (pipe.slotIdx, data.take sector, .event cc moved)] := by
    rw [← houts]
    exact List.filterMap_append
  have hend : (before ++ xs).getLast? = some (.inn pipe.slotIdx cswLen (.event cc' m)) := by
    rw [List.getLast?_append, hlast]
    rfl
  constructor
  · rintro ⟨before', c, sent', cd, moved', cd', m', houts', hlast', -, -, hfull, hm, hcsw'⟩
    rw [happ] at houts'
    rw [hend] at hlast'
    cases hlast'
    obtain ⟨-, htail⟩ := List.append_inj' houts' rfl
    injection htail with _ htail
    injection htail with htail _
    cases htail
    rw [statusOf_full hstatus hm, hcsw'] at hcsw
    cases hcsw
    rintro (hlt | hlt | hres)
    · omega
    · omega
    · exact hres rfl
  · intro hok
    rw [not_or, not_or, Nat.not_lt, Nat.not_lt, not_not] at hok
    obtain ⟨hfull, hm, hres⟩ := hok
    refine ⟨_, _, sent, cc, moved, cc', m, happ, hend, opcodeOf_cbw _ _ _ _ _ _,
      lbaOf_cbw _ _ _ _ hlba _, hfull, hm, ?_⟩
    rw [← statusOf_full hstatus hm, hcsw]
    cases outcome
    cases hst
    cases hres
    rfl

theorem writeKept_iff {slotId : Byte} (hp : Resolves w slotId pipe) {lba : Nat}
    (hlba : lba < 2 ^ 32) (tag : Nat) {data : List Byte} (hdata : sector ≤ data.length) :
    WriteKept w slotId lba tag data ↔
      ¬ WriteSlips w.fate w.next tag ∧ (¬ Passes w.fate w.next tag →
        ¬ WriteSlips w.fate (w.next + commandSpan w.fate w.next) tag) := by
  obtain ⟨r, w', hrun, hr⟩ := mscWriteSector_run hp lba tag hdata
  have hok_iff : WriteKept w slotId lba tag data ↔
      (r = .ok () → WriteAccepted pipe.slotIdx lba tag data (w.made w')) := by
    constructor
    · intro hkept hok
      rw [hok] at hrun
      obtain ⟨pipe', hp', hacc⟩ := hkept _ hrun
      rw [hp.unique hp'] at hacc
      exact hacc
    · intro hacc w'' hok
      rw [hrun] at hok
      cases hok
      exact ⟨pipe, hp, hacc rfl⟩
  rw [hok_iff]
  rcases hr with ⟨n, moved, m, outcome, before, hc, hn, hst, hr, xs, hxs, hcmd⟩ |
    ⟨hfail₁, hfail₂, e, hr⟩
  · have hslips : WriteSlips w.fate n tag ↔
        (moved.length < sector ∨ m.length < cswLen ∨ outcome.residue ≠ 0) := by
      constructor
      · rintro ⟨moved', m', outcome', hc', -, hslip⟩
        rw [hc] at hc'
        cases hc'
        exact hslip
      · intro hslip
        exact ⟨moved, m, outcome, hc, hst, hslip⟩
    have hacc : WriteAccepted pipe.slotIdx lba tag data (w.made w') ↔
        ¬ WriteSlips w.fate n tag := by
      rw [hxs, hslips]
      exact writeAccepted_iff hlba hc hst hcmd
    rw [hacc]
    rcases hn with rfl | ⟨hfail, rfl⟩
    · constructor
      · intro h
        exact ⟨h hr, fun hfail => absurd ⟨moved, m, outcome, hc, hst⟩ hfail⟩
      · intro h _
        exact h.1
    · constructor
      · intro h
        refine ⟨?_, fun _ => h hr⟩
        rintro ⟨moved', m', outcome', hc', hst', -⟩
        exact hfail ⟨moved', m', outcome', hc', hst'⟩
      · intro h _
        exact h.2 hfail
  · constructor
    · intro _
      constructor
      · rintro ⟨moved', m', outcome', hc', hst', -⟩
        exact hfail₁ ⟨moved', m', outcome', hc', hst'⟩
      · rintro - ⟨moved', m', outcome', hc', hst', -⟩
        exact hfail₂ ⟨moved', m', outcome', hc', hst'⟩
    · intro _ hok
      rw [hr] at hok
      cases hok

/-- `Ok` means a whole sector exactly when no command of the call that is
answered status 0 has slipped: of a read its one command, of a write the first
and, if that one does not pass, the second. -/
theorem sector_moved_iff (w : Wire) (slotId : Byte) (lba tag : Nat) (data : List Byte)
    (hlba : lba < 2 ^ 32) :
    (ReadKept w slotId lba tag ↔
      ((∃ pipe, Resolves w slotId pipe) → ¬ ReadSlips w.fate w.next tag)) ∧
    (WriteKept w slotId lba tag data ↔
      ((∃ pipe, Resolves w slotId pipe) → sector ≤ data.length →
        ¬ WriteSlips w.fate w.next tag ∧ (¬ Passes w.fate w.next tag →
          ¬ WriteSlips w.fate (w.next + commandSpan w.fate w.next) tag))) := by
  rcases resolves_or w slotId with ⟨pipe, hp⟩ | ⟨e, he⟩
  · constructor
    · rw [readKept_iff hp hlba]
      exact ⟨fun h _ => h, fun h => h ⟨pipe, hp⟩⟩
    · by_cases hdata : sector ≤ data.length
      · rw [writeKept_iff hp hlba tag hdata]
        exact ⟨fun h _ _ => h, fun h => h ⟨pipe, hp⟩ hdata⟩
      · obtain ⟨e, he⟩ := mscWriteSector_short w slotId lba tag hdata
        constructor
        · intro _ _ h
          exact absurd h hdata
        · intro _ w' hok
          rw [he] at hok
          cases hok
  · have hnot : ¬ ∃ pipe, Resolves w slotId pipe := by
      rintro ⟨pipe, hp⟩
      rw [Resolves, he] at hp
      cases hp
    constructor
    · constructor
      · intro _ h
        exact absurd h hnot
      · intro _ bytes w' hok
        have : mscReadSector slotId lba sector tag w = (.error e, w) :=
          Fallible.run_bind_error (resolve_error he)
        rw [this] at hok
        cases hok
    · constructor
      · intro _ h
        exact absurd h hnot
      · intro _ w' hok
        have : mscWriteSector slotId lba data tag w = (.error e, w) :=
          Fallible.run_bind_error (resolve_error he)
        rw [this] at hok
        cases hok

/-- A drive on slot 1 that stalls every data stage and then reports a pass,
with the whole sector as residue. -/
def stallingDrive : Wire where
  fate n := match n with
    | 0 => .event 1 []
    | 1 => .event 6 []
    | _ => .event 1 (leBytes 4 cswSig ++ leBytes 4 7 ++ leBytes 4 sector ++ [0])
  next := 0
  log := []
  devices :=
    { XhciState.fresh with
      slots := [⟨1, 2, 3, [⟨0x81, 3, 2, 512, true⟩, ⟨0x02, 4, 2, 512, false⟩]⟩] }

theorem stallingDrive_resolves : Resolves stallingDrive 1 ⟨0, 0, 1⟩ := rfl

theorem stallingDrive_command :
    commandOf stallingDrive.fate 0 7 = some ([], leBytes 4 cswSig ++ leBytes 4 7 ++
      leBytes 4 sector ++ [0], ⟨0, sector⟩) := by decide

theorem sector_moved_stalling :
    (ReadKept stallingDrive 1 5 7 ↔ ((∃ pipe, Resolves stallingDrive 1 pipe) →
      ¬ ReadSlips stallingDrive.fate 0 7)) ∧
    (WriteKept stallingDrive 1 5 7 (List.replicate sector 0) ↔
      ((∃ pipe, Resolves stallingDrive 1 pipe) →
        sector ≤ (List.replicate sector (0 : Byte)).length →
        ¬ WriteSlips stallingDrive.fate 0 7 ∧ (¬ Passes stallingDrive.fate 0 7 →
          ¬ WriteSlips stallingDrive.fate (0 + commandSpan stallingDrive.fate 0) 7))) :=
  sector_moved_iff stallingDrive 1 5 7 (List.replicate sector 0) (by decide)

/-- The read of a sector answers 512 zero bytes that no device sent, and the
write of one answers `Ok` although the device took nothing. -/
theorem stalling_drive_passes :
    (∃ w', mscReadSector 1 5 sector 7 stallingDrive = (.ok (List.replicate sector 0), w')) ∧
    ¬ ReadKept stallingDrive 1 5 7 ∧
    (∃ w', mscWriteSector 1 5 (List.replicate sector 0xFF) 7 stallingDrive = (.ok (), w')) ∧
    ¬ WriteKept stallingDrive 1 5 7 (List.replicate sector 0xFF) := by
  have hpass : Passes stallingDrive.fate stallingDrive.next 7 :=
    ⟨_, _, _, stallingDrive_command, rfl⟩
  have hdata : sector ≤ (List.replicate sector (0xFF : Byte)).length :=
    Nat.le_of_eq List.length_replicate.symm
  refine ⟨?_, ?_, ?_, ?_⟩
  · obtain ⟨r, w', hrun, ⟨moved, m, outcome, hc, -, hr, -⟩ | ⟨hfail, -⟩⟩ :=
      mscReadSector_run stallingDrive_resolves 5 7
    · have hmoved : moved = [] :=
        (Prod.mk.inj (Option.some.inj (hc.symm.trans stallingDrive_command))).1
      rw [hmoved, fill_nil] at hr
      exact ⟨w', hrun.trans (by rw [hr])⟩
    · exact absurd hpass hfail
  · rw [readKept_iff stallingDrive_resolves (by decide)]
    exact fun h => h ⟨_, _, _, stallingDrive_command, rfl, by decide⟩
  · obtain ⟨r, w', hrun, ⟨n, moved, m, outcome, before, -, -, -, hr, -⟩ | ⟨hfail, -⟩⟩ :=
      mscWriteSector_run stallingDrive_resolves 5 7 hdata
    · exact ⟨w', hrun.trans (by rw [hr])⟩
    · exact absurd hpass hfail
  · rw [writeKept_iff stallingDrive_resolves (by decide) 7 hdata]
    exact fun h => h.1 ⟨_, _, _, stallingDrive_command, rfl, Or.inl (by decide)⟩

end Usb

end TablesOS
