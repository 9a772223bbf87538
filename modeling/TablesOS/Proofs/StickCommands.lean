import TablesOS.Proofs.StickRuns

/-!
# What the commands do to a stick

A stick that is `Calm` waits for a command. It may refuse a write, but not two
commands in a row, and it may spoil the first transfer of any status. From such
a stick each command of the driver gets what it asks for, and leaves it calm:
`Later` says what else has changed. The driver's second attempt at a write and
its second attempt at a status are what this rests on.
-/

namespace TablesOS

open Fallible Medium

namespace Usb

/-! ## Numbers and sectors as bytes -/

theorem upd_upd {α : Type} (V : Nat → α) (a : Nat) (x y : α) : upd (upd V a x) a y = upd V a y := by
  funext b
  simp only [upd]
  split
  · rfl
  · rfl

theorem upd_same {α : Type} (V : Nat → α) (a : Nat) : upd V a (V a) = V := by
  funext b
  simp only [upd]
  split
  · next hb => rw [hb]
  · rfl

@[simp] theorem length_sector_toList (x : Sector) : x.toList.length = 512 :=
  Buf.length_toList x

@[simp] theorem asSector_toList (x : Sector) : asSector x.toList = x := Buf.put_toList _ _

theorem length_blocksAt (V : Nat → Sector) (lba blocks : Nat) :
    (blocksAt V lba blocks).length = blocks * 512 := by
  simp [blocksAt, List.length_flatMap]

theorem blocksAt_one (V : Nat → Sector) (lba : Nat) : blocksAt V lba 1 = (V lba).toList := by
  simp [blocksAt]

/-- The fields of a command block wrapper, as the stick reads them. -/
theorem read_cbw {tag : Nat} {data : DataStage} {cb : List Byte} (lun : Byte) (hcb : cb.length ≤ 16)
    (htag : tag < 2 ^ 32) (hlen : data.length < 2 ^ 32) :
    (cbw tag data lun cb).length = cbwLen ∧ ofLe ((cbw tag data lun cb).take 4) = cbwSig ∧
      ofLe (((cbw tag data lun cb).drop 4).take 4) = tag ∧
      ofLe (((cbw tag data lun cb).drop 8).take 4) = data.length ∧
      (((cbw tag data lun cb).drop 15).take ((cbw tag data lun cb).getD 14 0).toNat) = cb := by
  have hcb' : (UInt8.ofNat cb.length).toNat = cb.length := by
    rw [UInt8.toNat_ofNat']
    omega
  have hsig : (cbw tag data lun cb).take 4 = leBytes 4 cbwSig := rfl
  have htag' : ((cbw tag data lun cb).drop 4).take 4 = leBytes 4 tag := rfl
  have hlen' : ((cbw tag data lun cb).drop 8).take 4 = leBytes 4 data.length := rfl
  have hsize : (cbw tag data lun cb).getD 14 0 = UInt8.ofNat cb.length := rfl
  have hrest : (cbw tag data lun cb).drop 15 = cb ++ List.replicate (16 - cb.length) 0 := rfl
  refine ⟨?_, ?_, ?_, ?_, ?_⟩
  · simp [cbw, cbwLen]
    omega
  · rw [hsig]
    exact ofLe_leBytes_of_lt (by decide)
  · rw [htag']
    exact ofLe_leBytes_of_lt htag
  · rw [hlen']
    exact ofLe_leBytes_of_lt hlen
  · rw [hsize, hrest, hcb', List.take_left]

/-- The fields of a command block, as the stick reads them. -/
theorem read_rw10 (op : Byte) {lba blocks : Nat} (hlba : lba < 2 ^ 32) (hblocks : blocks < 2 ^ 16) :
    ofBe (((rw10 op lba blocks).drop 2).take 4) = lba ∧
      ofBe (((rw10 op lba blocks).drop 7).take 2) = blocks ∧
      (rw10 op lba blocks).getD 0 0 = op := by
  refine ⟨?_, ?_, rfl⟩
  · simp [rw10, ofBe, ofLe]
    omega
  · simp [rw10, ofBe, ofLe]
    omega

/-- A status wrapper, as the driver reads it. -/
theorem readCsw_eq {tag residue : Nat} {status : Byte} (htag : tag < 2 ^ 32)
    (hres : residue < 2 ^ 32) :
    readCsw (leBytes 4 cswSig ++ leBytes 4 tag ++ leBytes 4 residue ++ [status]) tag =
      .ok ⟨status, residue⟩ := by
  generalize hcsw : leBytes 4 cswSig ++ leBytes 4 tag ++ leBytes 4 residue ++ [status] = csw
  have hsig : csw.take 4 = leBytes 4 cswSig := by
    subst hcsw
    rfl
  have htag' : (csw.drop 4).take 4 = leBytes 4 tag := by
    subst hcsw
    rfl
  have hres' : (csw.drop 8).take 4 = leBytes 4 residue := by
    subst hcsw
    rfl
  have hstatus : csw.getD 12 0 = status := by
    subst hcsw
    rfl
  rw [readCsw, hsig, htag', hres', hstatus, ofLe_leBytes_of_lt (by decide),
    ofLe_leBytes_of_lt htag, ofLe_leBytes_of_lt hres, if_neg fun h => h rfl, if_neg fun h => h rfl]

/-! ## Transfers -/

variable {devices : XhciState} {bus : Sticks} {pipe : Pipe} {s s₁ s₂ : Stick} {cc : Byte}
  {bytes moved buf : List Byte} {tag residue : Nat} {status : Byte} {spoilt : Option Byte}

theorem bulkOut_run (h : (bus pipe.slotIdx).takes bytes = (.event cc moved, s)) :
    MscM.onBus devices (bulkOut pipe bytes) bus = (.ok cc, upd bus pipe.slotIdx s) := by
  have hrun : MscM.onBus devices (transfer (.out pipe.slotIdx bytes)) bus = _ :=
    onBus_transfer (q := .out pipe.slotIdx bytes) fun _ => rfl
  simp only [Sticks.answer, h] at hrun
  unfold bulkOut
  rw [onBus_bind_ok (.transfer fun _ => rfl) (fun _ => .pure (n := 0) _) (by decide) hrun]
  rfl

theorem bulkIn_run (h : (bus pipe.slotIdx).gives buf.length = (.event cc moved, s)) :
    MscM.onBus devices (bulkIn pipe buf) bus =
      (.ok (cc, fill buf moved), upd bus pipe.slotIdx s) := by
  have hrun : MscM.onBus devices (transfer (.inn pipe.slotIdx buf.length)) bus = _ :=
    onBus_transfer (q := .inn pipe.slotIdx buf.length) fun _ => rfl
  simp only [Sticks.answer, h] at hrun
  unfold bulkIn
  rw [onBus_bind_ok (.transfer fun _ => rfl) (fun _ => .pure (n := 0) _) (by decide) hrun]
  rfl

theorem fill_all (h : moved.length = buf.length) : fill buf moved = moved := by
  rw [fill, h, List.drop_length, List.append_nil, ← h, List.take_length]

theorem fill_empty (buf : List Byte) : fill buf [] = buf := by
  simp [fill]

/-! ## Commands -/

/-- The driver gets a status that is spoilt at the first try only. -/
theorem statusStage_owed (hs : (bus pipe.slotIdx).stage = .owing tag residue status spoilt)
    (hspoilt : ∀ cc, spoilt = some cc → cc ≠ 1 ∧ cc ≠ 13) :
    MscM.onBus devices (statusStage pipe) bus =
      (.ok (leBytes 4 cswSig ++ leBytes 4 tag ++ leBytes 4 residue ++ [status]),
        upd bus pipe.slotIdx { bus pipe.slotIdx with stage := .waiting }) := by
  have hlast : ∀ (bus : Sticks) (buf : List Byte), buf.length = cswLen →
      (bus pipe.slotIdx).stage = .owing tag residue status none →
      MscM.onBus devices (bulkIn pipe buf) bus =
        (.ok (1, leBytes 4 cswSig ++ leBytes 4 tag ++ leBytes 4 residue ++ [status]),
          upd bus pipe.slotIdx { bus pipe.slotIdx with stage := .waiting }) := by
    intro bus buf hbuf hs
    have hrun : MscM.onBus devices (bulkIn pipe buf) bus = _ := bulkIn_run (by rw [Stick.gives, hs])
    rw [hrun, fill_all (by simp [hbuf])]
  unfold statusStage
  cases spoilt with
  | none =>
      rw [onBus_bind_ok (.bulkIn _) Says.statusRest (by decide)
        (hlast bus _ rfl hs)]
      rfl
  | some cc =>
      obtain ⟨h1, h13⟩ := hspoilt cc rfl
      have hfirst : MscM.onBus devices (bulkIn pipe (List.replicate cswLen 0)) bus = _ :=
        bulkIn_run (by rw [Stick.gives, hs])
      rw [onBus_bind_ok (.bulkIn _) Says.statusRest (by decide) hfirst,
        fill_empty]
      simp only [h1, h13, or_self, if_false]
      rw [onBus_bind_ok (.reset _)
          (fun _ => (Says.bulkIn _).bind (k := 0) Says.statusRetry)
        (by decide) (onBus_reset _ _),
        onBus_bind_ok (.bulkIn _) Says.statusRetry (by decide)
          (hlast _ _ rfl (by rw [upd_self]))]
      simp only [true_or, if_true, upd_self, upd_upd]
      rfl

/-- A waiting stick takes the wrapper. -/
theorem takes_cbw {lun : Byte} {cb : List Byte} {data : DataStage} (hcb : cb.length ≤ 16)
    (htag : tag < 2 ^ 32) (hlen : data.length < 2 ^ 32) (hs : s.stage = .waiting) :
    s.takes (cbw tag data lun cb) =
      (.event 1 (cbw tag data lun cb), s.obey cb data.length tag) := by
  obtain ⟨hlength, hsig, htag', hlen', hcb'⟩ := read_cbw lun hcb htag hlen
  simp only [Stick.takes, hs]
  rw [if_pos ⟨hlength, hsig⟩, htag', hlen', hcb']

/-- A command whose data stage leads to a status. -/
theorem mscCommand_served {lun : Byte} {cb : List Byte} {data : DataStage} (s₂ : Stick)
    (hne : cb ≠ [])
    (hcb : cb.length ≤ 16) (htag : tag < 2 ^ 32) (hlen : data.length < 2 ^ 32)
    (hres : residue < 2 ^ 32) (hs : (bus pipe.slotIdx).stage = .waiting)
    (hdata : MscM.onBus devices (dataStage pipe data)
      (upd bus pipe.slotIdx ((bus pipe.slotIdx).obey cb data.length tag)) =
        (.ok buf, upd bus pipe.slotIdx s₂))
    (hs₂ : s₂.stage = .owing tag residue status spoilt)
    (hspoilt : ∀ cc, spoilt = some cc → cc ≠ 1 ∧ cc ≠ 13) :
    MscM.onBus devices (mscCommand pipe lun cb data tag) bus =
      (.ok (⟨status, residue⟩, buf), upd bus pipe.slotIdx { s₂ with stage := .waiting }) := by
  have hfirst : MscM.onBus devices (bulkOut pipe (cbw tag data lun cb)) bus = _ :=
    bulkOut_run (takes_cbw hcb htag hlen hs)
  have hlast : MscM.onBus devices (statusStage pipe) (upd bus pipe.slotIdx s₂) = _ :=
    statusStage_owed (by rw [upd_self, hs₂]) hspoilt
  unfold mscCommand
  rw [if_neg (by simp [hne, hcb]),
    onBus_bind_ok (.bulkOut _) (Says.commandRest data tag) (by decide) hfirst,
    if_neg fun h => h rfl,
    onBus_bind_ok (.dataStage data) (Says.statusRead tag) (by decide) hdata,
    onBus_bind_ok .statusStage
      (fun _ => (Says.liftExcept (n := 0) _).bind (k := 0) fun _ => .pure _)
      (by decide) hlast,
    readCsw_eq htag hres, upd_self, upd_upd]
  rfl

/-! The data stages. -/

theorem dataStage_none : MscM.onBus devices (dataStage pipe .none) bus = (.ok [], bus) := rfl

theorem dataStage_read {wanted : Nat}
    (hs : (bus pipe.slotIdx).stage = .sending bytes wanted tag status) :
    MscM.onBus devices (dataStage pipe (.read bytes.length)) bus =
      (.ok bytes, upd bus pipe.slotIdx
        ((bus pipe.slotIdx).owe tag (wanted - bytes.length) status)) := by
  have hgives : (bus pipe.slotIdx).gives (List.replicate bytes.length (0 : Byte)).length =
      (.event 1 bytes, (bus pipe.slotIdx).owe tag (wanted - bytes.length) status) := by
    simp [Stick.gives, hs]
  unfold dataStage
  rw [onBus_bind_ok (.bulkIn _) (fun r => Says.dataRest r.1 r.2 true) (by decide)
    (bulkIn_run hgives), fill_all (by simp)]
  rfl

theorem dataStage_write (h : (bus pipe.slotIdx).takes bytes = (.event cc moved, s)) :
    MscM.onBus devices (dataStage pipe (.write bytes)) bus =
      (.ok bytes, upd bus pipe.slotIdx s) := by
  unfold dataStage
  rw [onBus_bind_ok (.bulkOut _) (fun cc => Says.dataRest cc bytes false)
    (by decide)    (bulkOut_run h)]
  split
  · rw [onBus_bind_ok (.reset _) (fun _ => .pure (n := 0) _) (by decide) (onBus_reset _ _)]
    rfl
  · rfl

/-! The four ways a command goes. -/

/-- The stick behind a command. -/
def Stick.over (s : Stick) : Stick := { s with stage := .waiting, steps := s.steps + 1 }

/-- A status transfer is spoilt for a reason that the driver sees. -/
def Stick.Plain (s : Stick) : Prop := ∀ n cc, s.spoils n = some cc → cc ≠ 1 ∧ cc ≠ 13

section Ways

variable (devices)

variable (lun : Byte) {cb : List Byte} (hne : cb ≠ []) (hcb : cb.length ≤ 16) (htag : tag < 2 ^ 32)
  (hs : (bus pipe.slotIdx).stage = .waiting)

include hne hcb htag hs

theorem command_none (hobey : (bus pipe.slotIdx).obey cb 0 tag = s.owe tag 0 status)
    (hplain : s.Plain) : MscM.onBus devices (mscCommand pipe lun cb .none tag) bus =
      (.ok (⟨status, 0⟩, []), upd bus pipe.slotIdx s.over) := by
  refine mscCommand_served (s.owe tag 0 status) hne hcb htag (by decide) (by decide) hs ?_ rfl
    fun cc h => hplain _ cc h
  rw [dataStage_none, DataStage.length, hobey]

theorem command_read (hobey : (bus pipe.slotIdx).obey cb bytes.length tag =
      { bus pipe.slotIdx with stage := .sending bytes bytes.length tag status })
    (hplain : (bus pipe.slotIdx).Plain) (hlen : bytes.length < 2 ^ 32) :
    MscM.onBus devices (mscCommand pipe lun cb (.read bytes.length) tag) bus =
      (.ok (⟨status, 0⟩, bytes), upd bus pipe.slotIdx (bus pipe.slotIdx).over) := by
  refine mscCommand_served ((bus pipe.slotIdx).owe tag 0 status) hne hcb htag hlen (by decide) hs
    ?_ rfl fun cc h => hplain _ cc h
  rw [DataStage.length, hobey, dataStage_read (by rw [upd_self]), upd_self, upd_upd, Nat.sub_self]
  rfl

theorem command_taken {lba blocks : Nat} (hobey : (bus pipe.slotIdx).obey cb bytes.length tag =
      { bus pipe.slotIdx with stage := .taking lba blocks tag })
    (hplain : (bus pipe.slotIdx).Plain) (hlen : bytes.length < 2 ^ 32) :
    MscM.onBus devices (mscCommand pipe lun cb (.write bytes) tag) bus =
      (.ok (⟨0, 0⟩, bytes), upd bus pipe.slotIdx
        { (bus pipe.slotIdx).over with
          medium := Stick.write (bus pipe.slotIdx).medium (blockWrites lba bytes blocks) }) := by
  refine mscCommand_served (Stick.owe
    { bus pipe.slotIdx with
      medium := Stick.write (bus pipe.slotIdx).medium (blockWrites lba bytes blocks) } tag 0 0)
    hne hcb htag hlen (by decide) hs ?_ rfl fun cc h => hplain _ cc h
  rw [DataStage.length, hobey, dataStage_write (by rw [upd_self, Stick.takes]), upd_upd]
  rfl

theorem command_refused {wanted : Nat} (hobey : (bus pipe.slotIdx).obey cb bytes.length tag =
      { bus pipe.slotIdx with stage := .refusing cc wanted tag })
    (hplain : (bus pipe.slotIdx).Plain) (hlen : bytes.length < 2 ^ 32) (hwanted : wanted < 2 ^ 32) :
    MscM.onBus devices (mscCommand pipe lun cb (.write bytes) tag) bus =
      (.ok (⟨1, wanted⟩, bytes), upd bus pipe.slotIdx (bus pipe.slotIdx).over) := by
  refine mscCommand_served ((bus pipe.slotIdx).owe tag wanted 1) hne hcb htag hlen hwanted hs
    ?_ rfl fun cc h => hplain _ cc h
  rw [DataStage.length, hobey, dataStage_write (by rw [upd_self, Stick.takes]), upd_upd]
  rfl

end Ways

/-! ## SCSI on a calm stick -/

namespace Stick

/-- A stick that waits for a command. What it refuses it does not refuse twice in
a row. -/
structure Calm (s : Stick) : Prop where
  waiting : s.stage = .waiting
  plain : s.Plain
  patient : ∀ n, s.refuses n ≠ none → s.refuses (n + 1) = none

/-- The stick `s`, later: it holds `V`. -/
structure Later (s : Stick) (V : Nat → Sector) (s' : Stick) : Prop where
  sectors : s'.sectors = s.sectors
  inquiry : s'.inquiry = s.inquiry
  refuses : s'.refuses = s.refuses
  spoils : s'.spoils = s.spoils
  waiting : s'.stage = .waiting
  view : s'.medium.view = V

theorem Later.calm {V : Nat → Sector} {s s' : Stick} (h : Later s V s') (hs : s.Calm) :
    s'.Calm := by
  refine ⟨h.waiting, ?_, ?_⟩
  · rw [Plain, h.spoils]
    exact hs.plain
  · rw [h.refuses]
    exact hs.patient

theorem Later.trans {V W : Nat → Sector} {s s' s'' : Stick} (h : Later s V s')
    (h' : Later s' W s'') : Later s W s'' :=
  ⟨h'.sectors.trans h.sectors, h'.inquiry.trans h.inquiry, h'.refuses.trans h.refuses,
    h'.spoils.trans h.spoils, h'.waiting, h'.view⟩

theorem later_over (s : Stick) : Later s s.medium.view s.over := ⟨rfl, rfl, rfl, rfl, rfl, rfl⟩

theorem view_write (m : Medium Sector) (ws : List (Nat × Sector)) :
    (write m ws).view = updAll m.view ws := by
  induction ws generalizing m with
  | nil => rfl
  | cons w ws ih =>
      exact (ih (m.write w.1 w.2)).trans (congrArg (updAll · ws) (Medium.view_write m w.1 w.2))

theorem blockWrites_one (lba : Nat) (x : Sector) : blockWrites lba x.toList 1 = [(lba, x)] := by
  have htake : List.take sectorSize x.toList = x.toList :=
    List.take_of_length_le (Nat.le_of_eq (length_sector_toList x))
  simp [blockWrites, htake]

/-! What a stick makes of the commands. -/

variable {s : Stick} {lba blocks tag : Nat}

theorem obey_read (hlba : lba < 2 ^ 32) (hpos : 0 < blocks) (hblocks : blocks < 2 ^ 16)
    (hfit : lba + blocks ≤ s.sectors) :
    s.obey (rw10 0x28 lba blocks) (blocksAt s.medium.view lba blocks).length tag =
      { s with
        stage := .sending (blocksAt s.medium.view lba blocks)
          (blocksAt s.medium.view lba blocks).length tag 0 } := by
  obtain ⟨hl, hb, ho⟩ := read_rw10 0x28 hlba hblocks
  have hlen := length_blocksAt s.medium.view lba blocks
  simp only [obey, hl, hb, ho, hfit, if_true, send]
  rw [if_neg (by decide), if_neg (by decide), if_neg (by decide), if_neg (by omega),
    List.take_length]

theorem obey_write (tag : Nat) (hlba : lba < 2 ^ 32) (hblocks : blocks < 2 ^ 16)
    (hfit : lba + blocks ≤ s.sectors) (hr : s.refuses s.steps = none) :
    s.obey (rw10 0x2A lba blocks) (blocks * sector) tag =
      { s with stage := .taking lba blocks tag } := by
  obtain ⟨hl, hb, ho⟩ := read_rw10 0x2A hlba hblocks
  simp only [obey, hl, hb, ho, hfit, hr]
  simp

theorem obey_refused {cc : Byte} (wanted : Nat) (hlba : lba < 2 ^ 32) (hblocks : blocks < 2 ^ 16)
    (hr : s.refuses s.steps = some cc) :
    s.obey (rw10 0x2A lba blocks) wanted tag = { s with stage := .refusing cc wanted tag } := by
  obtain ⟨hl, hb, ho⟩ := read_rw10 0x2A hlba hblocks
  simp only [obey, hl, hb, ho, hr]
  simp

end Stick

variable {lba blocks : Nat} {data : List Byte}

theorem rw10_shape (op : Byte) (lba blocks : Nat) :
    rw10 op lba blocks ≠ [] ∧ (rw10 op lba blocks).length ≤ 16 := by
  simp [rw10]

theorem scsiRead10_run (lun : Byte) (hc : (bus pipe.slotIdx).Calm) (htag : tag < 2 ^ 32)
    (hlba : lba < 2 ^ 32) (hpos : 0 < blocks) (hblocks : blocks < 2 ^ 16)
    (hfit : lba + blocks ≤ (bus pipe.slotIdx).sectors) :
    MscM.onBus devices (scsiRead10 pipe lun lba blocks sector tag) bus =
      (.ok (0, blocksAt (bus pipe.slotIdx).medium.view lba blocks),
        upd bus pipe.slotIdx (bus pipe.slotIdx).over) := by
  have hlen := length_blocksAt (bus pipe.slotIdx).medium.view lba blocks
  have hrun := command_read devices lun (rw10_shape 0x28 lba blocks).1
    (rw10_shape 0x28 lba blocks).2 htag hc.waiting
    (Stick.obey_read hlba hpos hblocks hfit) hc.plain (by rw [hlen]; omega)
  rw [hlen] at hrun
  unfold scsiRead10
  rw [onBus_bind_ok (.mscCommand _ _ _ _) (fun _ => .pure (n := 0) _) (by decide) hrun]
  rfl

/-- A write that the stick takes. -/
theorem scsiWrite10_run (lun : Byte) (hc : (bus pipe.slotIdx).Calm) (htag : tag < 2 ^ 32)
    (hlba : lba < 2 ^ 32) (hblocks : blocks < 2 ^ 16)
    (hfit : lba + blocks ≤ (bus pipe.slotIdx).sectors) (hdata : data.length = blocks * sector)
    (hr : (bus pipe.slotIdx).refuses (bus pipe.slotIdx).steps = none) :
    MscM.onBus devices (scsiWrite10 pipe lun lba blocks sector data tag) bus =
      (.ok 0, upd bus pipe.slotIdx
        { (bus pipe.slotIdx).over with
          medium := Stick.write (bus pipe.slotIdx).medium (blockWrites lba data blocks) }) := by
  have hobey := Stick.obey_write tag hlba hblocks hfit hr
  rw [← hdata] at hobey
  have hrun := command_taken devices lun (rw10_shape 0x2A lba blocks).1
    (rw10_shape 0x2A lba blocks).2 htag hc.waiting hobey hc.plain
    (by simp only [sector] at hdata; omega)
  unfold scsiWrite10
  rw [if_neg (by omega), ← hdata, List.take_length,
    onBus_bind_ok (.mscCommand _ _ _ _) (fun _ => .pure (n := 0) _) (by decide) hrun]
  rfl

/-- A write that the stick refuses. -/
theorem scsiWrite10_refused (lun : Byte) (hc : (bus pipe.slotIdx).Calm) (htag : tag < 2 ^ 32)
    (hlba : lba < 2 ^ 32) (hblocks : blocks < 2 ^ 16) (hdata : data.length = blocks * sector)
    (hr : (bus pipe.slotIdx).refuses (bus pipe.slotIdx).steps = some cc) :
    MscM.onBus devices (scsiWrite10 pipe lun lba blocks sector data tag) bus =
      (.ok 1, upd bus pipe.slotIdx (bus pipe.slotIdx).over) := by
  have hlen : data.length < 2 ^ 32 := by
    simp only [sector] at hdata
    omega
  have hrun := command_refused devices lun (rw10_shape 0x2A lba blocks).1
    (rw10_shape 0x2A lba blocks).2 htag hc.waiting
    (Stick.obey_refused data.length hlba hblocks hr) hc.plain hlen hlen
  unfold scsiWrite10
  rw [if_neg (by omega), ← hdata, List.take_length,
    onBus_bind_ok (.mscCommand _ _ _ _) (fun _ => .pure (n := 0) _) (by decide) hrun]
  rfl

end Usb

end TablesOS
