import TablesOS.Base.CycleBit
import TablesOS.Kernel.TrbRing

/-!
# Driver and controller agree on a ring

The ring is a ring of 255 places with a phase bit, and a Link that is passed by
the same bit. The driver writes the words of a TRB into its place, the cycle
bit with the last of them, so a TRB counts from that write on; the controller
never sees the others. The Link is written once a lap, when its last TRB has
been handed over, and the controller meets it once a lap.

The controller stands at a TRB or at the Link. At a TRB its cycle matches
exactly if that TRB has been posted and not fetched. At the Link it matches
once the lap is complete, and the room that the driver leaves keeps the next
lap from reaching the Link before the controller has passed it.
-/

namespace TablesOS

namespace Usb

open CycleBit

/-! ## Words -/

theorem and_one_or (a b : UInt32) : (a ||| b) &&& 1 = (a &&& 1) ||| (b &&& 1) :=
  UInt32.toBitVec_inj.mp BitVec.and_or_distrib_right

/-- The bits of a control word that are the type. -/
def typeBits (control : UInt32) : UInt32 := (control >>> 10) &&& 0x3F

theorem typeBits_or (a b : UInt32) : typeBits (a ||| b) = typeBits a ||| typeBits b := by
  rw [typeBits, UInt32.shiftRight_or]
  exact UInt32.toBitVec_inj.mp BitVec.and_or_distrib_right

/-- A producer cycle state. -/
def pcsOf (b : Bool) : Byte := if b then 1 else 0

@[simp] theorem pcsOf_true : pcsOf true = 1 := rfl

@[simp] theorem pcsOf_false : pcsOf false = 0 := rfl

/-- The cycle bit of a control word, as a bit. -/
def Trb.phase (t : Trb) : Bool := t.cycle == 1

/-- Nothing is where the cycle bit goes, and the type is not Link. -/
def SoundFlags (flags : UInt32) : Prop := flags &&& 1 = 0 ∧ typeBits flags ≠ 6

instance (flags : UInt32) : Decidable (SoundFlags flags) := inferInstanceAs (Decidable (_ ∧ _))

/-- A byte in the upper half of the word. -/
theorem field_byte (v : Byte) : field v.toUInt32 16 &&& 1 = 0 ∧ field v.toUInt32 24 &&& 1 = 0 ∧
    typeBits (field v.toUInt32 16) = 0 ∧ typeBits (field v.toUInt32 24) = 0 := by
  have hall : ∀ n : Fin 256, field (UInt8.ofFin n).toUInt32 16 &&& 1 = 0 ∧
      field (UInt8.ofFin n).toUInt32 24 &&& 1 = 0 ∧
      typeBits (field (UInt8.ofFin n).toUInt32 16) = 0 ∧
      typeBits (field (UInt8.ofFin n).toUInt32 24) = 0 := by
    decide +kernel
  exact hall v.toFin

theorem sound_command {ty : UInt32} (h : SoundFlags (field ty 10)) (slotId dci : Byte) :
    SoundFlags (commandFlags ty slotId dci) := by
  obtain ⟨hd, -, hd', -⟩ := field_byte dci
  obtain ⟨-, hs, -, hs'⟩ := field_byte slotId
  constructor
  · rw [commandFlags, and_one_or, and_one_or, h.1, hd, hs]
    rfl
  · rw [commandFlags, typeBits_or, typeBits_or, hd', hs', UInt32.or_zero, UInt32.or_zero]
    exact h.2

/-- Every TRB the driver posts leaves room for its cycle bit. -/
theorem Posting.sound (p : Posting) : SoundFlags p.words.flags := by
  cases p with
  | enableSlot => exact show SoundFlags (field 9 10) by decide
  | addressDevice inputCtx slotId => exact sound_command (by decide) slotId 0
  | configureEndpoint inputCtx slotId => exact sound_command (by decide) slotId 0
  | evaluateContext inputCtx slotId => exact sound_command (by decide) slotId 0
  | resetEndpoint slotId dci => exact sound_command (by decide) slotId dci
  | setTrDequeue dequeue slotId dci => exact sound_command (by decide) slotId dci
  | setup packet isIn length =>
      have hall (trt : UInt32) (htrt : trt = 0 ∨ trt = 2 ∨ trt = 3) :
          SoundFlags (field 1 6 ||| field 2 10 ||| field trt 16) := by
        rcases htrt with rfl | rfl | rfl <;> decide
      refine hall _ ?_
      rw [transferType]
      split
      · simp
      · split <;> simp
  | data buf isIn length =>
      have hall : SoundFlags (field 3 10 ||| field (dataDir isIn) 16) := by
        cases isIn <;> decide
      exact hall
  | status isIn length =>
      have hall (dir : UInt32) (hdir : dir = 0 ∨ dir = 1) :
          SoundFlags (field 1 5 ||| field 4 10 ||| field dir 16) := by
        rcases hdir with rfl | rfl <;> decide
      refine hall _ ?_
      rw [statusDir]
      split <;> simp
  | normal buf length => exact show SoundFlags (field 1 2 ||| field 1 5 ||| field 1 10) by decide

/-! ## The Link -/

/-- The control word of the Link: its type, Toggle Cycle, and its cycle bit. -/
def linkWord (b : Bool) : UInt32 := field 6 10 ||| field 1 1 ||| (pcsOf b).toUInt32

/-- The Link as the driver keeps it. -/
def linkTrb (base : UInt64) (b : Bool) : Trb := ⟨base, 0, linkWord b⟩

theorem cycle_bit (t : Trb) : t.cycle = 0 ∨ t.cycle = 1 := by
  have hmod : t.cycle.toNat = t.control.toNat % 2 := by
    rw [Trb.cycle, UInt32.toNat_and]
    exact Nat.and_one_is_mod _
  rcases Nat.mod_two_eq_zero_or_one t.control.toNat with h | h
  · exact Or.inl (UInt32.toNat_inj.mp (hmod.trans h))
  · exact Or.inr (UInt32.toNat_inj.mp (hmod.trans h))

/-- Where the controller stands, with `c` TRBs fetched and the Link followed
`v` times. -/
inductive Standing (c v : ℕ) : ℕ → Prop
  | trb (hlap : 255 * v ≤ c) (hlt : c < 255 * v + 255) : Standing c v (c % 255)
  | link (hend : c = 255 * v + 255) : Standing c v 255

/-- The posts that are complete, the position advanced. -/
def Channel.completed (s : Channel) : ℕ :=
  if s.writing = .control then s.posted.length - 1 else s.posted.length

/-- What is in the driver's place while it writes. -/
def Channel.Written (s : Channel) : Prop :=
  match s.writing with
  | .idle => True
  | .begun w => SoundFlags w.flags
  | .parameter w => SoundFlags w.flags ∧ s.slot.parameter = w.parameter
  | .status w =>
      SoundFlags w.flags ∧ s.slot.parameter = w.parameter ∧ s.slot.status = w.status
  | .control => s.posted ≠ []

/-- The room that a post was begun with. -/
def Channel.Roomy (s : Channel) : Prop :=
  match s.writing with
  | .idle => True
  | .control => s.position.enqueue + 1 = 255 → s.links ≤ s.followed
  | _ => s.posted.length < s.fetched.length + 255 ∧
      (s.position.enqueue + 1 = 255 → s.links ≤ s.followed)

structure Agreed (base : UInt64) (s : Channel) : Prop where
  ring : Holds 255 s.memory (fun i => (s.memory i).phase) s.posted s.fetched.length
  link : s.memory 255 = linkTrb base (lapBit (s.links - 1))
  types : ∀ t ∈ s.posted, t.trbType ≠ 6
  fetched : s.fetched = s.posted.take s.fetched.length
  position : s.position = ⟨s.completed % 255, pcsOf (bit 255 s.completed)⟩
  links : s.links = s.completed / 255
  written : s.Written
  roomy : s.Roomy
  standing : Standing s.fetched.length s.followed s.dequeue.index
  ccs : s.dequeue.ccs = (pcsOf (lapBit s.followed)).toUInt32
  ahead : s.links ≤ s.followed + 1

section

variable {base : UInt64} {s s' : Channel}

theorem Agreed.completed_of (hw : s.writing ≠ .control) : s.completed = s.posted.length :=
  if_neg hw

/-- While the driver writes, it writes into the place behind the last post. -/
theorem Agreed.place (h : Agreed base s) (hw : s.writing ≠ .control) :
    s.position.enqueue = s.posted.length % 255 ∧
      s.position.pcs = pcsOf (bit 255 s.posted.length) ∧ s.links = s.posted.length / 255 := by
  have hpos := h.position
  have hlinks := h.links
  rw [Agreed.completed_of hw] at hpos hlinks
  rw [hpos]
  exact ⟨rfl, rfl, hlinks⟩

/-- Every state that the two parties can come to. -/
def Channel.Reachable (base : UInt64) : Channel → Prop :=
  Relation.ReflTransGen (Channel.Step base) (Channel.fresh base)

/-- There is room for a post when all has been fetched. -/
theorem Agreed.room (h : Agreed base s) (hall : s.fetched = s.posted) :
    s.outstanding + s.handsOver ≤ 256 := by
  have hahead := h.ahead
  unfold Channel.outstanding Channel.handsOver
  rw [hall]
  split <;> omega

end

end Usb

end TablesOS
