import TablesOS.Kernel.AtaPorts
import TablesOS.Proofs.Devices

/-!
# The ATA driver over a drive that works

A drive that is `Calm` waits for a command and will not fail one; how long it is
busy with each, what it shows while it is, and whether it takes the flush that
the driver sends right behind a sector, is left to it. A read and a write of a
sector leave it calm, and have moved that sector. So the driver stands for a
disk (`attached_stands`), and a store over its ports answers as the model does.
-/

namespace TablesOS

open Fallible Medium

namespace Pio

/-! ## Words -/

theorem bytesOf_wordOf (lo hi : Byte) : bytesOf (wordOf lo hi) = [lo, hi] := by
  have hlo : (wordOf lo hi).toUInt8 = lo := by
    apply UInt8.toBitVec_inj.mp
    ext i h
    simp [wordOf]
  have hhi : (wordOf lo hi >>> 8).toUInt8 = hi := by
    apply UInt8.toBitVec_inj.mp
    ext i h
    have h16 : i < 16 := by omega
    have h8 : 8 + i < 16 := by omega
    simp [wordOf, h16, h8, BitVec.getLsbD_eq_getElem h]
  rw [bytesOf, hlo, hhi]

@[simp] theorem length_sectorWords (x : Sector) : (sectorWords x).length = 256 := by
  simp [sectorWords]

/-- The bytes of the words, two by two. -/
theorem getElem?_flatMap_pairs {f : Nat → UInt16} {lo hi : Nat → Byte}
    (hf : ∀ i, bytesOf (f i) = [lo i, hi i]) (n : Nat) :
    ((List.range n).map f).flatMap bytesOf = (List.range n).flatMap fun i => [lo i, hi i] := by
  rw [List.flatMap_map]
  exact congrArg (List.flatMap · _) (funext hf)

theorem pairs_eq (x : Nat → Byte) (n : Nat) :
    ((List.range n).flatMap fun i => [x (2 * i), x (2 * i + 1)]) = (List.range (2 * n)).map x := by
  induction n with
  | zero => rfl
  | succ n ih =>
      rw [List.range_succ, List.flatMap_append, ih, show 2 * (n + 1) = 2 * n + 1 + 1 by omega,
        List.range_succ, List.range_succ]
      simp

/-- A sector comes through the data port as it went. -/
theorem ofWords_sectorWords (x : Sector) : ofWords (sectorWords x) = x := by
  have hbytes : (sectorWords x).flatMap bytesOf = x.toList := by
    rw [sectorWords, getElem?_flatMap_pairs fun i => bytesOf_wordOf _ _, pairs_eq]
    simp [Buf.toList, Buf.slice]
  unfold ofWords
  rw [hbytes]
  ext i hi
  rw [Buf.get_put _ _ _ hi, Buf.length_toList, if_pos ⟨Nat.zero_le _, by omega⟩, Nat.sub_zero,
    Buf.getD_toList hi]

/-! ## The status -/

/-- The drive after `k` reads of its status. -/
def Drive.waited (d : Drive) (k : Nat) : Drive :=
  { d with busy := d.busy - k, polls := d.polls + k }

theorem Drive.waited_waited (d : Drive) (j k : Nat) :
    (d.waited j).waited k = d.waited (j + k) := by
  simp only [waited, Nat.sub_sub, Nat.add_assoc]

/-- While the drive is busy that bit shows, and the error bit does not. -/
theorem busy_status (j : Byte) :
    (stBsy ||| j &&& 0x7E) &&& stBsy = stBsy ∧ (stBsy ||| j &&& 0x7E) &&& stErr = 0 := by
  constructor <;>
  · apply UInt8.toBitVec_inj.mp
    ext i hi
    have hbit : i = 0 ∨ i = 1 ∨ i = 2 ∨ i = 3 ∨ i = 4 ∨ i = 5 ∨ i = 6 ∨ i = 7 := by omega
    rcases hbit with rfl | rfl | rfl | rfl | rfl | rfl | rfl | rfl <;> simp

theorem readStatus_run (d : Drive) : ∃ s, readStatus d = (.ok s, d.waited 1) ∧
    (d.busy = 0 → s = d.phase.status) ∧
    (d.busy ≠ 0 → s &&& stBsy = stBsy ∧ s &&& stErr = 0) := by
  unfold readStatus
  cases hb : d.busy with
  | zero =>
      refine ⟨d.phase.status, ?_, fun _ => rfl, fun h => absurd rfl h⟩
      rw [Drive.waited, hb]
  | succ b =>
      refine ⟨stBsy ||| d.junk d.polls &&& 0x7E, ?_, fun h => by omega, fun _ => busy_status _⟩
      rw [Drive.waited, hb]
      rfl

/-- The drive is ready for what comes next. -/
def Able (d : Drive) : Prop := d.phase ≠ .ready true

theorem able_status {d : Drive} (h : Able d) : d.phase.status &&& stErr = 0 ∧
    d.phase.status &&& stBsy = 0 ∧ d.phase.status &&& stDrdy ≠ 0 := by
  unfold Able at h
  cases hp : d.phase with
  | ready failed =>
      cases failed with
      | false => decide
      | true => exact absurd hp h
  | sending ws => exact (by decide : (0x58 : Byte) &&& stErr = 0 ∧ (0x58 : Byte) &&& stBsy = 0 ∧
      (0x58 : Byte) &&& stDrdy ≠ 0)
  | taking lba ws => exact (by decide : (0x58 : Byte) &&& stErr = 0 ∧
      (0x58 : Byte) &&& stBsy = 0 ∧ (0x58 : Byte) &&& stDrdy ≠ 0)

theorem busy_ne : stBsy ≠ (0 : Byte) := by decide

theorem pause_run (d : Drive) : pause d = (.ok (), d.waited 4) := by
  have hround : ∀ (n : Nat) (xs : List Nat) (d : Drive), xs.length = n →
      (xs.forM fun _ => (do let _ ← readStatus; pure () : PortM Unit)) d =
        (.ok (), d.waited n) := by
    intro n
    induction n with
    | zero =>
        intro xs d hlen
        rw [List.length_eq_zero_iff.mp hlen]
        rfl
    | succ n ih =>
        intro xs d hlen
        obtain ⟨x, xs, rfl⟩ := List.exists_cons_of_length_eq_add_one hlen
        obtain ⟨s, hs, -⟩ := readStatus_run d
        have hone : (do let _ ← readStatus; pure () : PortM Unit) d = (.ok (), d.waited 1) :=
          run_bind_ok hs
        have hrest := ih xs (d.waited 1) (by simpa using hlen)
        rw [Drive.waited_waited, Nat.add_comm] at hrest
        exact (run_bind_ok hone).trans hrest
  exact hround 4 (List.range 4) d (List.length_range)

/-- The loops of `poll` and `flush` end with the drive. -/
theorem pollLoop_run {n : Nat} : ∀ {d : Drive}, Able d → d.busy < n →
    pollLoop n d = (.ok (), d.waited (d.busy + 1)) := by
  induction n with
  | zero => exact fun _ h => absurd h (Nat.not_lt_zero _)
  | succ n ih =>
      intro d hable hlt
      obtain ⟨s, hs, hzero, hbusy⟩ := readStatus_run d
      rw [pollLoop, run_bind_ok hs]
      by_cases hb : d.busy = 0
      · obtain ⟨herr, hbsy, hrdy⟩ := able_status hable
        rw [hzero hb, hb, if_neg (not_not.mpr herr)]
        split
        · rfl
        · rw [if_pos ⟨hbsy, hrdy⟩]
          rfl
      · obtain ⟨hbsy, herr⟩ := hbusy hb
        rw [if_neg (not_not.mpr herr), if_neg fun h => busy_ne (hbsy.symm.trans h.1),
          if_neg fun h => busy_ne (hbsy.symm.trans h.1)]
        rw [ih (d := d.waited 1) hable (show d.busy - 1 < n by omega), Drive.waited_waited]
        congr 2
        show 1 + (d.busy - 1 + 1) = d.busy + 1
        omega

theorem flushLoop_run {n : Nat} : ∀ {d : Drive}, Able d → d.busy < n →
    flushLoop n d = (.ok (), d.waited (d.busy + 1)) := by
  induction n with
  | zero => exact fun _ h => absurd h (Nat.not_lt_zero _)
  | succ n ih =>
      intro d hable hlt
      obtain ⟨s, hs, hzero, hbusy⟩ := readStatus_run d
      rw [flushLoop, run_bind_ok hs]
      by_cases hb : d.busy = 0
      · obtain ⟨herr, hbsy, -⟩ := able_status hable
        rw [hzero hb, hb, if_pos hbsy, if_neg (not_not.mpr herr)]
        rfl
      · obtain ⟨hbsy, -⟩ := hbusy hb
        rw [if_neg fun h => busy_ne (hbsy.symm.trans h)]
        rw [ih (d := d.waited 1) hable (show d.busy - 1 < n by omega), Drive.waited_waited]
        congr 2
        show 1 + (d.busy - 1 + 1) = d.busy + 1
        omega

/-! ## Calm drives -/

/-- A drive that works and waits for a command. -/
structure Calm (d : Drive) : Prop where
  size : d.sectors ≤ 2 ^ 28
  delay : ∀ i, d.delay i ≤ 5000000
  works : ∀ i, d.fails i = false
  phase : d.phase = .ready false
  idle : d.busy = 0

/-- The registers as `select` leaves them. -/
def Drive.aimed (d : Drive) (lba : Nat) (count : Byte) : Drive :=
  { d with
    device := driveMasterLba ||| (UInt8.ofNat (lba / 2 ^ 24) &&& 0x0F)
    seccount := count
    lba0 := UInt8.ofNat lba
    lba1 := UInt8.ofNat (lba / 2 ^ 8)
    lba2 := UInt8.ofNat (lba / 2 ^ 16) }

theorem writeReg_run {f : Drive → Drive} {d : Drive} (h : d.busy = 0) :
    writeReg f d = (.ok (), f d) := by
  rw [writeReg, if_pos h]

theorem select_run {d : Drive} (h : d.busy = 0) (lba : Nat) (count : Byte) :
    select lba count d = (.ok (), (d.waited 4).aimed lba count) := by
  unfold select
  rw [run_bind_ok (writeReg_run h), run_bind_ok (pause_run _)]
  rw [run_bind_ok (writeReg_run (show d.busy - 4 = 0 by omega))]
  rw [run_bind_ok (writeReg_run (show d.busy - 4 = 0 by omega))]
  rw [run_bind_ok (writeReg_run (show d.busy - 4 = 0 by omega))]
  exact writeReg_run (show d.busy - 4 = 0 by omega)

theorem device_low (k : Nat) :
    (driveMasterLba ||| (UInt8.ofNat k &&& 0x0F)).toNat % 16 = k % 16 := by
  rw [UInt8.toNat_or, UInt8.toNat_and, UInt8.toNat_ofNat']
  apply Nat.eq_of_testBit_eq
  intro i
  have hmod : ∀ m : Nat, (m % 16).testBit i = (decide (i < 4) && m.testBit i) := fun m =>
    Nat.testBit_mod_two_pow m 4 i
  rw [hmod, hmod]
  by_cases hi : i < 4
  · have hcases : i = 0 ∨ i = 1 ∨ i = 2 ∨ i = 3 := by omega
    have hhigh : driveMasterLba.toNat.testBit i = false := by
      rcases hcases with rfl | rfl | rfl | rfl <;> decide
    have hlow : (0x0F : Byte).toNat.testBit i = true := by
      rcases hcases with rfl | rfl | rfl | rfl <;> decide
    rw [Nat.testBit_or, Nat.testBit_and, hhigh, hlow, Nat.testBit_mod_two_pow k 8]
    simp [hi, show i < 8 by omega]
  · simp [hi]

/-- 28 bits of an address come through the registers. -/
theorem address_aimed (d : Drive) {lba : Nat} (h : lba < 2 ^ 28) (count : Byte) :
    (d.aimed lba count).address = lba := by
  show (UInt8.ofNat lba).toNat + 2 ^ 8 * (UInt8.ofNat (lba / 2 ^ 8)).toNat +
    2 ^ 16 * (UInt8.ofNat (lba / 2 ^ 16)).toNat +
    2 ^ 24 * ((driveMasterLba ||| (UInt8.ofNat (lba / 2 ^ 24) &&& 0x0F)).toNat % 16) = lba
  rw [device_low]
  simp only [UInt8.toNat_ofNat']
  omega

/-- The drive `d`, calm again, with the sectors `V`. -/
structure After (d : Drive) (V : Nat → Sector) (d' : Drive) : Prop where
  sectors : d'.sectors = d.sectors
  calm : Calm d'
  view : d'.medium.view = V

theorem Calm.after {d d' : Drive} (h : Calm d) (hsectors : d'.sectors = d.sectors)
    (hdelay : d'.delay = d.delay) (hfails : d'.fails = d.fails) (hphase : d'.phase = .ready false)
    (hbusy : d'.busy = 0) : After d d'.medium.view d' :=
  ⟨hsectors, ⟨hsectors ▸ h.size, hdelay ▸ h.delay, hfails ▸ h.works, hphase, hbusy⟩, rfl⟩

theorem step_works {d : Drive} (h : ∀ i, d.fails i = false) (phase : Phase) (m : Medium Sector) :
    d.step phase m =
      { d with steps := d.steps + 1, busy := d.busy + d.delay d.steps, phase, medium := m } := by
  rw [Drive.step, h, if_neg Bool.false_ne_true]

theorem poll_run {d : Drive} (h : Able d) (hb : d.busy ≤ spinLimit) :
    ∃ k, poll d = (.ok (), d.waited k) ∧ d.busy - k = 0 := by
  refine ⟨4 + (d.busy - 4 + 1), ?_, by omega⟩
  unfold poll
  rw [run_bind_ok (pause_run d), pollLoop_run (d := d.waited 4) h
    (show d.busy - 4 < spinLimit + 1 by omega), Drive.waited_waited]
  rfl

theorem readWords_run (ws : List UInt16) : ∀ {d : Drive} {w : UInt16},
    d.phase = .sending (w :: ws) →
    readWords (ws.length + 1) d = (.ok (w :: ws), { d with phase := .ready false }) := by
  induction ws with
  | nil =>
      intro d w h
      have hw : readData d = (.ok w, { d with phase := .ready false }) := by
        rw [readData, h]
      rw [List.length_nil, readWords, run_bind_ok hw]
      rfl
  | cons w' ws ih =>
      intro d w h
      have hw : readData d = (.ok w, { d with phase := .sending (w' :: ws) }) := by
        rw [readData, h]
      rw [List.length_cons, readWords, run_bind_ok hw, run_bind_ok (ih rfl)]
      rfl

/-- Taking the words of a sector, the last of which completes it. -/
theorem writeWords_run {lba : Nat} (ws : List UInt16) : ∀ {d : Drive} {got : List UInt16}
    {w : UInt16},
    d.phase = .taking lba got → got.length + (ws.length + 1) = 256 →
    ((w :: ws).forM writeData) d =
      (.ok (), d.step (.ready false) (d.medium.write lba (ofWords (got ++ w :: ws)))) := by
  induction ws with
  | nil =>
      intro d got w h hlen
      have hw : writeData w d =
          (.ok (), d.step (.ready false) (d.medium.write lba (ofWords (got ++ [w])))) := by
        rw [writeData, h]
        dsimp only
        rw [if_neg (by simp only [List.length_nil] at hlen; omega)]
      exact run_bind_ok hw
  | cons w' ws ih =>
      intro d got w h hlen
      have hw : writeData w d = (.ok (), { d with phase := .taking lba (got ++ [w]) }) := by
        rw [writeData, h]
        dsimp only
        rw [if_pos (by simp only [List.length_cons] at hlen; omega)]
      have hrest := ih (d := { d with phase := .taking lba (got ++ [w]) }) (w := w') rfl (by
        simp only [List.length_append, List.length_cons, List.length_nil] at hlen ⊢
        omega)
      refine (run_bind_ok hw).trans (hrest.trans ?_)
      rw [List.append_assoc]
      rfl

/-! ## The calls -/

/-- The drive has begun a step. -/
def Drive.begun (d : Drive) (phase : Phase) : Drive :=
  { d with steps := d.steps + 1, busy := d.delay d.steps, phase }

theorem poll_begun {d : Drive} (h : ∀ i, d.delay i ≤ 5000000) {phase : Phase}
    (hp : phase ≠ .ready true) :
    ∃ k, poll (d.begun phase) = (.ok (), (d.begun phase).waited k) ∧
      ((d.begun phase).waited k).busy = 0 :=
  poll_run hp (Nat.le_trans (h _) (by decide))

/-- A command for one sector of the disk, on the registers `select` leaves. -/
theorem command_aimed {d : Drive} (h : Calm d) {lba : Nat} (hlba : lba < d.sectors) :
    let d₁ := (d.waited 4).aimed lba 1
    command 0x20 d₁ = (.ok (), d₁.begun (.sending (sectorWords (d.medium.view lba)))) ∧
      command 0x30 d₁ = (.ok (), d₁.begun (.taking lba [])) := by
  intro d₁
  have hsize := h.size
  have hbusy : d₁.busy = 0 := show d.busy - 4 = 0 by rw [h.idle]
  have haddr : d₁.address = lba := address_aimed _ (by omega) 1
  have hrange : ¬ (d₁.seccount ≠ 1 ∨ d₁.sectors ≤ d₁.address) := by
    rw [haddr]
    exact not_or.mpr ⟨fun hc => hc rfl, Nat.not_le.mpr hlba⟩
  have hbegun : ∀ phase, d₁.step phase d₁.medium = d₁.begun phase := by
    intro phase
    rw [step_works (d := d₁) h.works, hbusy, Nat.zero_add]
    rfl
  constructor
  · rw [command, if_pos (Or.inl hbusy), Drive.obey, if_neg (by decide), if_neg (by decide),
      if_neg hrange, if_pos rfl, hbegun, haddr]
    rfl
  · rw [command, if_pos (Or.inl hbusy), Drive.obey, if_neg (by decide), if_neg (by decide),
      if_neg hrange, if_neg (by decide), if_pos rfl, hbegun, haddr]

theorem sectorWords_cons (x : Sector) :
    ∃ w ws, sectorWords x = w :: ws ∧ ws.length + 1 = 256 := by
  obtain ⟨w, ws, hwords⟩ : ∃ w ws, sectorWords x = w :: ws :=
    List.exists_cons_of_length_pos (by rw [length_sectorWords]; omega)
  exact ⟨w, ws, hwords, by rw [← List.length_cons, ← hwords, length_sectorWords]⟩

/-- A read hands over the sector. -/
theorem readAbsolute_run {d : Drive} (h : Calm d) {lba : Nat} (hlba : lba < d.sectors) :
    ∃ d', readAbsolute lba d = (.ok (d.medium.view lba), d') ∧ After d d.medium.view d' := by
  obtain ⟨w, ws, hwords, hlen⟩ := sectorWords_cons (d.medium.view lba)
  have hcommand := (command_aimed h hlba).1
  rw [hwords] at hcommand
  obtain ⟨k, hpoll, hk⟩ := poll_begun (d := (d.waited 4).aimed lba 1) h.delay
    (show Phase.sending (w :: ws) ≠ .ready true from fun hp => by cases hp)
  have hread := readWords_run ws
    (d := (((d.waited 4).aimed lba 1).begun (.sending (w :: ws))).waited k) rfl
  rw [hlen] at hread
  generalize hd' : ({ (((d.waited 4).aimed lba 1).begun (.sending (w :: ws))).waited k with
    phase := .ready false } : Drive) = d' at hread
  have hafter : After d d'.medium.view d' := by
    subst hd'
    exact h.after rfl rfl rfl rfl hk
  refine ⟨d', ?_, by subst hd'; exact hafter⟩
  unfold readAbsolute
  rw [run_bind_ok (select_run h.idle lba 1), run_bind_ok hcommand, run_bind_ok hpoll,
    run_bind_ok hread, ← hwords, ofWords_sectorWords]
  rfl

/-- A flush of a drive that may still be busy with a sector. -/
theorem flushCache_run {d : Drive} (hdelay : ∀ i, d.delay i ≤ 5000000)
    (hworks : ∀ i, d.fails i = false) (hphase : d.phase = .ready false)
    (hbusy : d.busy ≤ 5000000) : ∃ d', flushCache d = (.ok (), d') ∧
      d'.sectors = d.sectors ∧ d'.delay = d.delay ∧ d'.fails = d.fails ∧
      d'.phase = .ready false ∧ d'.busy = 0 ∧ d'.medium.view = d.medium.view := by
  have hloop : ∀ d₁ : Drive, d₁.phase = .ready false → d₁.busy ≤ spinLimit →
      flushLoop (spinLimit + 1) d₁ = (.ok (), d₁.waited (d₁.busy + 1)) := fun d₁ hp hb =>
    flushLoop_run (fun hc => by rw [hp] at hc; cases hc) (Nat.lt_succ_of_le hb)
  unfold flushCache
  by_cases htaken : d.busy = 0 ∨ d.heeds d.steps = true
  · have hcommand : command 0xE7 d =
        (.ok (), d.step (.ready false) d.medium.flush) := by
      rw [command, if_pos htaken, Drive.obey, if_neg (by decide), if_pos rfl]
    rw [step_works hworks] at hcommand
    have hd := hdelay d.steps
    refine ⟨_, (run_bind_ok hcommand).trans (hloop _ rfl ?_), rfl, rfl, rfl, rfl, ?_, rfl⟩
    · show d.busy + d.delay d.steps ≤ 10000000
      omega
    · show d.busy + d.delay d.steps - (d.busy + d.delay d.steps + 1) = 0
      omega
  · have hcommand : command 0xE7 d = (.ok (), d) := by
      rw [command, if_neg htaken]
    refine ⟨_, (run_bind_ok hcommand).trans (hloop _ hphase (Nat.le_trans hbusy (by decide))),
      rfl, rfl, rfl, hphase, ?_, rfl⟩
    show d.busy - (d.busy + 1) = 0
    omega

/-- A write stores the sector, whether or not the drive takes the flush behind it. -/
theorem writeAbsolute_run {d : Drive} (h : Calm d) {lba : Nat} (hlba : lba < d.sectors)
    (x : Sector) :
    ∃ d', writeAbsolute lba x d = (.ok (), d') ∧ After d (upd d.medium.view lba x) d' := by
  obtain ⟨w, ws, hwords, hlen⟩ := sectorWords_cons x
  obtain ⟨k, hpoll, hk⟩ := poll_begun (d := (d.waited 4).aimed lba 1) h.delay
    (show Phase.taking lba [] ≠ .ready true from fun hp => by cases hp)
  generalize hd₂ : (((d.waited 4).aimed lba 1).begun (.taking lba [])).waited k = d₂ at hpoll hk
  have hwrite := writeWords_run ws (d := d₂) (w := w) (by rw [← hd₂]; rfl) (by
    rw [List.length_nil, hlen])
  have hdelay₂ : d₂.delay = d.delay := by rw [← hd₂]; rfl
  have hfails₂ : d₂.fails = d.fails := by rw [← hd₂]; rfl
  have hmedium₂ : d₂.medium = d.medium := by rw [← hd₂]; rfl
  have hsectors₂ : d₂.sectors = d.sectors := by rw [← hd₂]; rfl
  rw [List.nil_append, ← hwords, ofWords_sectorWords,
    step_works (fun i => by rw [hfails₂]; exact h.works i), hk, Nat.zero_add] at hwrite
  obtain ⟨d', hflush, hsectors, hdelay, hfails, hphase, hbusy, hview⟩ := flushCache_run
    (d := { d₂ with
      steps := d₂.steps + 1, busy := d₂.delay d₂.steps, phase := .ready false
      medium := d₂.medium.write lba x })
    (fun i => by rw [hdelay₂]; exact h.delay i) (fun i => by rw [hfails₂]; exact h.works i) rfl
    (by rw [hdelay₂]; exact h.delay _)
  refine ⟨d', ?_, ?_⟩
  · unfold writeAbsolute
    rw [run_bind_ok (select_run h.idle lba 1), run_bind_ok (command_aimed h hlba).2,
      run_bind_ok hpoll, run_bind_ok hwrite, hflush]
  · have hafter := h.after (hsectors.trans hsectors₂) (hdelay.trans hdelay₂)
      (hfails.trans hfails₂) hphase hbusy
    refine ⟨hafter.sectors, hafter.calm, hview.trans ?_⟩
    rw [← hmedium₂]
    exact view_write _ _ _

/-! ## The driver as a disk -/

/-- The volume on the drive holds what `d` holds. -/
structure Attached (p : Ports) (d : Disk) : Prop where
  calm : Calm p.drive
  quiet : d.Quiet
  sectors : p.sectors = d.sectors
  room : p.base + p.sectors ≤ p.drive.sectors
  view : ∀ lba, lba < p.sectors → p.drive.medium.view (p.base + lba) = d.view lba

/-- A call that works is one on the drive. -/
theorem Attached.next {p : Ports} {d d' : Disk} (h : Attached p d) {V : Nat → Sector}
    {drive : Drive} (ha : After p.drive V drive) (hq : d'.Quiet) (hsectors : d'.sectors = d.sectors)
    (hview : ∀ lba, lba < p.sectors → V (p.base + lba) = d'.view lba) :
    Attached { p with drive } d' :=
  ⟨ha.calm, hq, h.sectors.trans hsectors.symm, ha.sectors.symm ▸ h.room, fun lba hlba => by
    rw [ha.view]
    exact hview lba hlba⟩

theorem ports_within {α : Type} {p : Ports} {lba : Nat} (hlba : lba < p.sectors)
    {m : Nat → PortM α} {a : α} {drive : Drive} (hm : m (p.base + lba) p.drive = (.ok a, drive)) :
    Ports.within lba m p = (.ok a, { p with drive }) := by
  rw [Ports.within, if_neg (Nat.not_le.mpr hlba), Ports.onDrive, hm]

theorem attached_stands : Stands Attached := by
  refine Stands.of_disk (fun p d h => h.sectors) (fun p d h => h.quiet)
    (fun p d h => ⟨h.calm, h.quiet, h.sectors, h.room, h.view⟩) (fun lba p d h hlt => ?_)
    (fun lba x p d h hlt => ?_) (fun p d h => ?_) fun lba p d h hout => ?_
  · have hsectors := h.sectors
    have hroom := h.room
    obtain ⟨drive, hread, ha⟩ := readAbsolute_run h.calm (show p.base + lba < _ by omega)
    rw [h.view lba (by omega)] at hread
    refine ⟨{ p with drive }, ports_within (by omega) hread, fun d' hq hs hv => ?_⟩
    refine h.next ha hq hs fun lba' hlt' => ?_
    rw [hv]
    exact h.view lba' hlt'
  · have hsectors := h.sectors
    have hroom := h.room
    obtain ⟨drive, hwrite, ha⟩ := writeAbsolute_run h.calm (show p.base + lba < _ by omega) x
    refine ⟨{ p with drive }, @ports_within Unit p lba (by omega)
      (fun lba => writeAbsolute lba x) _ _ hwrite, fun d' hq hs hv => ?_⟩
    refine h.next ha hq hs fun lba' hlt' => ?_
    rw [hv]
    by_cases heq : lba' = lba
    · rw [heq, upd_self, upd_self]
    · rw [upd_other (by omega), upd_other heq]
      exact h.view lba' hlt'
  · obtain ⟨drive, hflush, hsectors, hdelay, hfails, hphase, hbusy, hview⟩ :=
      flushCache_run h.calm.delay h.calm.works h.calm.phase (by rw [h.calm.idle]; omega)
    have hrun : (BlockDevice.flush : DevM Ports Unit) p = (.ok (), { p with drive }) := by
      show Ports.onDrive flushCache p = _
      rw [Ports.onDrive, hflush]
    refine ⟨{ p with drive }, hrun, fun d' hq hs hv => ?_⟩
    refine h.next (h.calm.after hsectors hdelay hfails hphase hbusy) hq hs fun lba hlt => ?_
    rw [hview, hv]
    exact h.view lba hlt
  · have hsectors := h.sectors
    exact ⟨if_pos (by omega), fun _ => if_pos (by omega)⟩

/-- The identification of a drive that works. -/
theorem identify_run {d : Drive} (h : Calm d) (hident : d.ident.length = 256) :
    ∃ d', identify d = (.ok d.ident, d') ∧ After d d.medium.view d' := by
  obtain ⟨w, ws, hwords⟩ : ∃ w ws, d.ident = w :: ws :=
    List.exists_cons_of_length_pos (by rw [hident]; omega)
  have hlen : ws.length + 1 = 256 := by rw [← List.length_cons, ← hwords, hident]
  let d₁ : Drive := { ({ d with device := driveMasterLba } : Drive).waited 4 with
    seccount := 0, lba0 := 0, lba1 := 0, lba2 := 0 }
  have hidle : d.busy - 4 = 0 := by rw [h.idle]
  have hcommand : command 0xEC d₁ = (.ok (), d₁.begun (.sending (w :: ws))) := by
    have hb : d₁.busy = 0 := hidle
    rw [command, if_pos (Or.inl hb), Drive.obey, if_pos rfl, step_works (d := d₁) h.works]
    show (Except.ok (), ({ d₁ with
      steps := d.steps + 1, busy := d.busy - 4 + d.delay d.steps,
      phase := .sending d.ident } : Drive)) = _
    rw [hidle, Nat.zero_add, hwords]
    rfl
  obtain ⟨s, hs, hzero, hbusy⟩ := readStatus_run (d₁.begun (.sending (w :: ws)))
  have hs0 : s ≠ 0 := by
    by_cases hb : (d₁.begun (.sending (w :: ws))).busy = 0
    · rw [hzero hb]
      exact (by decide : (0x58 : Byte) ≠ 0)
    · intro hs0
      have hbsy := (hbusy hb).1
      rw [hs0] at hbsy
      exact absurd hbsy (by decide)
  have hb : ((d₁.begun (.sending (w :: ws))).waited 1).busy ≤ spinLimit := by
    have hd := h.delay d.steps
    show d.delay d.steps - 1 ≤ 10000000
    omega
  obtain ⟨k, hpoll, hk⟩ := poll_run (d := (d₁.begun (.sending (w :: ws))).waited 1)
    (show Phase.sending (w :: ws) ≠ .ready true from fun hp => by cases hp) hb
  have hread := readWords_run ws (w := w)
    (d := ((d₁.begun (.sending (w :: ws))).waited 1).waited k) rfl
  rw [hlen] at hread
  generalize hd' : ({ ((d₁.begun (.sending (w :: ws))).waited 1).waited k with
    phase := .ready false } : Drive) = d' at hread
  have hafter : After d d'.medium.view d' := by
    subst hd'
    exact h.after rfl rfl rfl rfl hk
  refine ⟨d', ?_, by subst hd'; exact hafter⟩
  unfold identify
  rw [run_bind_ok (writeReg_run h.idle), run_bind_ok (pause_run _),
    run_bind_ok (writeReg_run hidle), run_bind_ok (writeReg_run hidle),
    run_bind_ok (writeReg_run hidle), run_bind_ok (writeReg_run hidle), run_bind_ok hcommand,
    run_bind_ok hs, if_neg hs0, run_bind_ok hpoll, hread, hwords]

/-- The driver finds the volume behind the boot region. -/
theorem probePorts_run {d : Drive} (h : Calm d) (hident : d.ident.length = 256)
    (hcap : capacityWords d.ident = d.sectors) (base : Nat) :
    ∃ p, probePorts base d = some p ∧ p.base = base ∧ p.sectors = d.sectors - base ∧
      After d d.medium.view p.drive := by
  obtain ⟨d', hid, ha⟩ := identify_run h hident
  unfold probePorts
  rw [hid]
  exact ⟨_, rfl, rfl, by rw [← hcap], ha⟩

end Pio

namespace Store

open Pio Pager

/-- A volume that some life of a store has left is mounted through the ports, and
from then on answers as the model does from the tables that were there. -/
theorem attached_life {d₀ : Disk} {led : Ledger RowId} {pg₀ : Pager Disk} {p : Ports}
    (hq : d₀.Quiet) (hreach : Reachable d₀ led pg₀) (h : Attached p pg₀.dev) :
    ∃ pg p', openStore p = (.ok pg, p') ∧
      ∃ db, (∀ op, op.writes = false → led.Covers (.call op) → ∀ fresh,
          (run op pg₀).1 = Outcome.ofExcept (db.step fresh op).1) ∧
        ∀ es, HandedOut es led pg → ∃ ids : List (Option RowId), ids.length = es.length ∧
          Database.AllNew (es.zip ids) db ∧
          (history es pg).1 = (Database.history (es.zip ids) db).1.map Outcome.ofExcept := by
  obtain ⟨db, hm⟩ := hreach.mirrored hq
  obtain ⟨pg, p', hopen, hreads, hlife⟩ := stands_life attached_stands hm h
  exact ⟨pg, p', hopen, db, hreads, hlife⟩

/-- The volume behind the boot region of a drive that works. -/
theorem attached_probe {d₀ : Disk} {led : Ledger RowId} {pg₀ : Pager Disk} {drive : Drive}
    {base : Nat} (hq : d₀.Quiet) (hreach : Reachable d₀ led pg₀) (h : Calm drive)
    (hident : drive.ident.length = 256) (hcap : capacityWords drive.ident = drive.sectors)
    (hsize : drive.sectors = base + pg₀.dev.sectors)
    (hview : ∀ lba, lba < pg₀.dev.sectors → drive.medium.view (base + lba) = pg₀.dev.view lba) :
    ∃ p, probePorts base drive = some p ∧ p.base = base ∧ Attached p pg₀.dev ∧
      After drive drive.medium.view p.drive := by
  obtain ⟨db, hm⟩ := hreach.mirrored hq
  obtain ⟨p, hprobe, rfl, hsectors, ha⟩ := probePorts_run h hident hcap base
  refine ⟨p, hprobe, rfl, ⟨ha.calm, hm.quiet, by omega, ?_, fun lba hlt => ?_⟩, ha⟩
  · rw [ha.sectors]
    omega
  · rw [ha.view]
    exact hview lba (by omega)

/-- The whole stack. The volume that some life of a store has left is behind the
boot region of a drive that works. The driver finds it, the store mounts it
through the ports, and from then on answers every history as the model does,
from the tables that were there. -/
theorem ports_refine {d₀ : Disk} {led : Ledger RowId} {pg₀ : Pager Disk} {drive : Drive}
    {base : Nat} (hq : d₀.Quiet) (hreach : Reachable d₀ led pg₀) (h : Calm drive)
    (hident : drive.ident.length = 256) (hcap : capacityWords drive.ident = drive.sectors)
    (hsize : drive.sectors = base + pg₀.dev.sectors)
    (hview : ∀ lba, lba < pg₀.dev.sectors → drive.medium.view (base + lba) = pg₀.dev.view lba) :
    ∃ p pg p', probePorts base drive = some p ∧ openStore p = (.ok pg, p') ∧
      ∃ db, (∀ op, op.writes = false → led.Covers (.call op) → ∀ fresh,
          (run op pg₀).1 = Outcome.ofExcept (db.step fresh op).1) ∧
        ∀ es, HandedOut es led pg → ∃ ids : List (Option RowId), ids.length = es.length ∧
          Database.AllNew (es.zip ids) db ∧
          (history es pg).1 = (Database.history (es.zip ids) db).1.map Outcome.ofExcept := by
  obtain ⟨p, hprobe, -, hattached, -⟩ := attached_probe hq hreach h hident hcap hsize hview
  obtain ⟨pg, p', hopen, hlife⟩ := attached_life hq hreach hattached
  exact ⟨p, pg, p', hprobe, hopen, hlife⟩

/-- A drive of 64 sectors and the volume behind them, busy for a while with every
step. -/
def shelfDrive (V : Nat → Sector) : Drive where
  sectors := 64 + 2100 * pageSectors
  ident := (List.range 256).map fun i => if i = 60 then 16864 else 0
  medium := ⟨fun lba => V (lba - 64), []⟩
  device := 0
  seccount := 0
  lba0 := 0
  lba1 := 0
  lba2 := 0
  phase := .ready false
  busy := 0
  steps := 0
  polls := 0
  delay := fun i => i % 1000
  fails := fun _ => false
  heeds := fun i => i % 2 == 0
  junk := fun i => UInt8.ofNat i

theorem calm_shelfDrive (V : Nat → Sector) : Calm (shelfDrive V) :=
  ⟨by show 64 + 2100 * pageSectors ≤ 2 ^ 28; decide, fun i => by
    show i % 1000 ≤ 5000000
    omega, fun _ => rfl, rfl, rfl⟩

theorem ident_shelfDrive (V : Nat → Sector) : (shelfDrive V).ident.length = 256 ∧
    capacityWords (shelfDrive V).ident = (shelfDrive V).sectors := by
  have hsectors : (shelfDrive V).sectors = 16864 := rfl
  rw [hsectors]
  simp [shelfDrive, capacityWords, List.getD_eq_getElem?_getD]

/-- Two notes are on the volume, and the first of them is deleted. -/
theorem ports_refine_notes : ∃ (a b : RowId) (pg₀ : Pager Disk) (p : Ports) (pg : Pager Ports)
    (p' : Ports), Reachable wideDisk [("notes", a), ("notes", b)] pg₀ ∧
    probePorts 64 (shelfDrive pg₀.dev.view) = some p ∧ openStore p = (.ok pg, p') ∧
    (run (.scan "notes") pg).1 =
      .ok (.rows [(a, [some (.str "a")]), (b, [some (.str "b")])]) ∧
    ∃ (db : Database RowId) (ids : List (Option RowId)), ids.length = 2 ∧
      (history [.call (.delete "notes" a), .call (.scan "notes")] pg).1 =
        (Database.history ([.call (.delete "notes" a), .call (.scan "notes")].zip ids)
          db).1.map Outcome.ofExcept := by
  obtain ⟨a, b, pg₀, hreach, hsectors, hscan⟩ :=
    notes_written wideDisk_quiet (by decide) (by decide)
  have hsize : pg₀.dev.sectors = 2100 * pageSectors := hsectors
  obtain ⟨p, pg, p', hprobe, hopen, db, hreads, hes⟩ := @ports_refine _ _ _
    (shelfDrive pg₀.dev.view) 64 wideDisk_quiet hreach (calm_shelfDrive _)
    (ident_shelfDrive _).1 (ident_shelfDrive _).2 (by rw [hsize]; rfl) (fun lba _ => by
      show pg₀.dev.view (64 + lba - 64) = _
      rw [Nat.add_sub_cancel_left])
  have hrows : (run (.scan "notes") pg).1 = (run (.scan "notes") pg₀).1 :=
    life_reads hreads hes rfl trivial
  obtain ⟨ids, hlen, -, hos⟩ := hes [.call (.delete "notes" a), .call (.scan "notes")]
    ⟨List.mem_cons_self, trivial, trivial⟩
  exact ⟨a, b, pg₀, p, pg, p', hreach, hprobe, hopen, hrows.trans hscan, db, ids, hlen, hos⟩

end Store

end TablesOS
