import TablesOS.Kernel.Install
import TablesOS.Proofs.Devices
import TablesOS.Proofs.RowIds

/-!
# A store on part of a disk

`BaseOffsetDevice` is the part of a disk behind the boot region. On a disk that
works it stands for a disk of its own (`region_stands`), so a store on it
answers as one that has the whole disk does. And whatever the disk does, faults
and power cuts included, what a store does to it stays in that part
(`contained_stands`): a sector outside holds what it held, and can hold nothing
after a power cut that it could not have held before.
-/

namespace TablesOS

open Fallible Medium

namespace BaseOffsetDevice

/-! ## The part as a disk -/

/-- The part of a working disk holds what `d'` holds. -/
structure Region (d : BaseOffsetDevice Disk) (d' : Disk) : Prop where
  inner : d.inner.Quiet
  quiet : d'.Quiet
  sectors : d.sectors = d'.sectors
  room : d.base + d.sectors ≤ d.inner.sectors
  view : ∀ lba, lba < d.sectors → d.inner.view (d.base + lba) = d'.view lba

/-- One call on a sector. -/
theorem within_stands {α : Type} {act act' : Disk → α × Disk} {inRange inRange' : Disk → Bool}
    {lba : Nat} {m : Nat → DevM Disk α} {d : BaseOffsetDevice Disk} {d' : Disk} (h : Region d d')
    (hm : m (d.base + lba) = Disk.call inRange act)
    (hin : inRange d.inner = decide (d.base + lba < d.inner.sectors))
    (hin' : inRange' d' = decide (lba < d'.sectors))
    (hact : lba < d.sectors →
      (act { d.inner with clock := d.inner.clock + 1 }).1 =
        (act' { d' with clock := d'.clock + 1 }).1 ∧
      Region { d with inner := (act { d.inner with clock := d.inner.clock + 1 }).2 }
        (act' { d' with clock := d'.clock + 1 }).2) :
    Answered Eq (within lba m d).1 (Disk.call inRange' act' d').1 ∧
      Region (within lba m d).2 (Disk.call inRange' act' d').2 := by
  have hsec := h.sectors
  have hroom := h.room
  unfold within
  by_cases hlt : d.sectors ≤ lba
  · rw [if_pos hlt, Disk.call_outside (by rw [hin', decide_eq_false_iff_not]; omega)]
    exact ⟨.error _, h.inner, h.quiet, h.sectors, h.room, h.view⟩
  · obtain ⟨ho, hnext⟩ := hact (by omega)
    rw [if_neg hlt, Disk.call_quiet h.quiet (by rw [hin', decide_eq_true_eq]; omega)]
    unfold onInner
    rw [hm, Disk.call_quiet h.inner (by rw [hin, decide_eq_true_eq]; omega)]
    exact ⟨.ok ho, hnext⟩

theorem region_stands : Stands Region := by
  refine ⟨fun d d' h => h.sectors, fun lba d d' h => ?_, fun lba x d d' h => ?_, fun d d' h => ?_⟩
  · refine within_stands h rfl rfl rfl fun hlt => ⟨h.view lba hlt, ?_⟩
    exact ⟨h.inner, h.quiet, h.sectors, h.room, h.view⟩
  · refine within_stands h rfl rfl rfl fun hlt => ⟨rfl, ?_⟩
    refine ⟨h.inner, h.quiet, h.sectors, h.room, fun lba' hlt' => ?_⟩
    show (d.inner.medium.write (d.base + lba) x).view (d.base + lba') =
      (d'.medium.write lba x).view lba'
    have hview : d.inner.medium.view (d.base + lba') = d'.medium.view lba' := h.view lba' hlt'
    rw [view_write, view_write]
    by_cases heq : lba' = lba
    · rw [heq, upd_self, upd_self]
    · rw [upd_other (by omega), upd_other heq, hview]
  · have hflush : (BlockDevice.flush d).1 = .ok () ∧
        Region (BlockDevice.flush d).2 (BlockDevice.flush d').2 ∧
        (BlockDevice.flush d').1 = .ok () := by
      show (onInner (Disk.call _ _) d).1 = _ ∧ Region (onInner (Disk.call _ _) d).2
        (Disk.call _ _ d').2 ∧ (Disk.call _ _ d').1 = _
      unfold onInner
      rw [Disk.call_quiet h.inner rfl, Disk.call_quiet h.quiet rfl]
      exact ⟨rfl, ⟨h.inner, h.quiet, h.sectors, h.room, h.view⟩, rfl⟩
    obtain ⟨ho, hnext, ho'⟩ := hflush
    rw [ho, ho']
    exact ⟨.ok rfl, hnext⟩

/-- The part of the disk, as a disk of its own. -/
def alone (d : BaseOffsetDevice Disk) : Disk :=
  Disk.attach d.sectors d.sectors_lt (fun lba => d.inner.view (d.base + lba)) Disk.noFaults

theorem region_alone {d : BaseOffsetDevice Disk} (hq : d.inner.Quiet)
    (hroom : d.base + d.sectors ≤ d.inner.sectors) : Region d d.alone :=
  ⟨hq, fun _ => rfl, rfl, hroom, fun _ _ => rfl⟩

/-! ## The rest of the disk -/

/-- A sector lies outside the part that the device covers. -/
def Outside (d : BaseOffsetDevice Disk) (lba : Nat) : Prop :=
  lba < d.base ∨ d.base + d.sectors ≤ lba

/-- The block reads as before, and whatever it may be after a power loss it might
have been before. -/
structure Kept (m m' : Medium Sector) (a : Nat) : Prop where
  view : m'.view a = m.view a
  survives : ∀ x, x = m'.durable a ∨ (a, x) ∈ m'.pending → x = m.durable a ∨ (a, x) ∈ m.pending

theorem Kept.refl (m : Medium Sector) (a : Nat) : Kept m m a := ⟨rfl, fun _ h => h⟩

theorem Kept.write {m m' : Medium Sector} {a b : Nat} (h : Kept m m' a) (hne : b ≠ a)
    (x : Sector) : Kept m (m'.write b x) a := by
  refine ⟨?_, fun y hy => h.survives y ?_⟩
  · rw [view_write, upd_other (Ne.symm hne)]
    exact h.view
  · rcases hy with hy | hy
    · exact Or.inl hy
    · rcases List.mem_cons.mp hy with hy | hy
      · injection hy with hab
        exact absurd hab.symm hne
      · exact Or.inr hy

theorem Kept.flush {m m' : Medium Sector} {a : Nat} (h : Kept m m' a) : Kept m m'.flush a := by
  refine ⟨h.view, fun x hx => h.survives x ?_⟩
  rcases hx with rfl | hx
  · exact m'.survives_view a
  · cases hx

/-- The device still covers the part it covered in `d₀`, and the rest of the disk
has been left alone. -/
structure Contained (d₀ d : BaseOffsetDevice Disk) : Prop where
  base : d.base = d₀.base
  sectors : d.sectors = d₀.sectors
  rest : ∀ lba, d₀.Outside lba → Kept d₀.inner.medium d.inner.medium lba

theorem Contained.inner {d₀ d : BaseOffsetDevice Disk} (h : Contained d₀ d) {inner : Disk}
    (hinner : ∀ lba, d₀.Outside lba → Kept d₀.inner.medium inner.medium lba) :
    Contained d₀ { d with inner } := ⟨h.base, h.sectors, hinner⟩

theorem contained_stands (d₀ : BaseOffsetDevice Disk) :
    Stands fun d d' => d = d' ∧ Contained d₀ d := by
  refine Stands.of_invariant (fun lba d h => ?_) (fun lba x d h => ?_) fun d h => ?_
  · show Contained d₀ (within lba BlockDevice.readSector d).2
    unfold within
    split
    · exact h
    refine h.inner fun lba' hout => ?_
    rcases Disk.call_medium d.inner (fun i => decide (d.base + lba < i.sectors))
      (fun i => (i.view (d.base + lba), i)) with hm | hm
    · exact (congrArg (Kept _ · _) hm).mpr (h.rest lba' hout)
    · exact (congrArg (Kept _ ·.medium _) hm).mpr (h.rest lba' hout)
  · show Contained d₀ (within lba (fun lba => BlockDevice.writeSector lba x) d).2
    unfold within
    split
    · exact h
    next hlt =>
      refine h.inner fun lba' hout => ?_
      rcases Disk.call_medium d.inner (fun i => decide (d.base + lba < i.sectors))
        (fun i => ((), { i with medium := i.medium.write (d.base + lba) x })) with hm | hm
      · exact (congrArg (Kept _ · _) hm).mpr (h.rest lba' hout)
      · refine (congrArg (Kept _ ·.medium _) hm).mpr ((h.rest lba' hout).write ?_ x)
        have hbase := h.base
        have hsec := h.sectors
        unfold Outside at hout
        omega
  · refine h.inner fun lba' hout => ?_
    rcases Disk.call_medium d.inner (fun _ => true)
      (fun i => ((), { i with medium := i.medium.flush })) with hm | hm
    · exact (congrArg (Kept _ · _) hm).mpr (h.rest lba' hout)
    · exact (congrArg (Kept _ ·.medium _) hm).mpr (h.rest lba' hout).flush

theorem contained_refl (d : BaseOffsetDevice Disk) : Contained d d :=
  ⟨rfl, rfl, fun _ _ => Kept.refl _ _⟩

end BaseOffsetDevice

/-! ## A store on the part -/

namespace Store

open Pager BaseOffsetDevice

/-- A store behind the boot region of a disk that works answers every history as the
model does. -/
theorem region_refines {d d' : BaseOffsetDevice Disk} {pg : Pager (BaseOffsetDevice Disk)}
    (hq : d.inner.Quiet) (hroom : d.base + d.sectors ≤ d.inner.sectors)
    (h : formatStore d = (.ok pg, d')) (es : List (StoreEvent RowId)) (hes : HandedOut es [] pg) :
    ∃ ids : List (Option RowId), ids.length = es.length ∧ Database.AllNew (es.zip ids) [] ∧
      (history es pg).1 = (Database.history (es.zip ids) []).1.map Outcome.ofExcept := by
  obtain ⟨ho, -⟩ := format_stands region_stands (region_alone hq hroom)
  rw [h] at ho
  rcases hrun : formatStore d.alone with ⟨o, d₁⟩
  rw [hrun] at ho
  cases ho with
  | ok hlike =>
      have hes' := handedOut_stands region_stands es hlike hes
      obtain ⟨hos, -⟩ := history_stands region_stands es hlike
      obtain ⟨ids, hlen, hnew, hmodel, -⟩ :=
        history_mirrored es (format_mirrored (fun _ => rfl) hrun) hes'
      exact ⟨ids, hlen, hnew, hos.trans hmodel⟩

/-- The part of an empty disk behind 64 sectors. -/
def wideRegion : BaseOffsetDevice Disk :=
  ⟨Disk.attach (64 + 2100 * pageSectors) (by decide) (fun _ => Buf.zero sectorSize) Disk.noFaults,
    64, 2100 * pageSectors, wide_sectors⟩

/-- Two notes are written, and read after a remount. -/
def keptNotes : List (StoreEvent RowId) := noteCalls ++ [.remount, .call (.scan "notes")]

theorem region_refines_notes : ∃ pg d' a b, formatStore wideRegion = (.ok pg, d') ∧
    (history keptNotes pg).1 =
      [.ok .done, .ok .done, .ok (.inserted a), .ok (.inserted b), .ok .done,
        .ok (.rows [(a, [some (.str "a")]), (b, [some (.str "b")])])] ∧
    ∃ ids : List (Option RowId), ids.length = 6 ∧
      (history keptNotes pg).1 =
        (Database.history (keptNotes.zip ids) []).1.map Outcome.ofExcept := by
  have hq : wideRegion.inner.Quiet := fun _ => rfl
  have hroom : wideRegion.base + wideRegion.sectors ≤ wideRegion.inner.sectors := by decide
  -- on a disk of its own
  obtain ⟨pg₁, hrun, h₁⟩ := wideDisk_seated
  obtain ⟨a, b, pg₂, hcalls, h₂⟩ := @twoRows_seated _ _ _ h₁ "notes" "text" (by decide) (by decide)
    (by decide)
  have hscan : (history [.remount, .call (.scan "notes")] pg₂).1 =
      [.ok .done, .ok (.rows [(a, [some (.str "a")]), (b, [some (.str "b")])])] := by
    obtain ⟨fresh, -, ho, hm, -⟩ := happen_mirrored h₂.mirrored .remount trivial
    have hrows := hm.scan (List.mem_singleton_self (TableState.mk (oneColumn "notes" "text")
      [(a, [some (.str "a")]), (b, [some (.str "b")])] [a, b]))
    rw [history_cons, history_cons, ho]
    exact congrArg (fun o => [Outcome.ok Reply.done, o]) hrows
  have hanswers := answers_append noteCalls [.remount, .call (.scan "notes")] pg₁
  rw [show history noteCalls pg₁ = _ from hcalls, hscan] at hanswers
  obtain ⟨ho, -⟩ := format_stands region_stands (region_alone hq hroom)
  rw [show formatStore wideRegion.alone = _ from hrun] at ho
  rcases hformat : formatStore wideRegion with ⟨o, d'⟩
  rw [hformat] at ho
  cases ho with
  | @ok pg _ hlike =>
      have hes : HandedOut keptNotes [] pg :=
        ⟨trivial, trivial, trivial, trivial, trivial, trivial, trivial⟩
      obtain ⟨ids, hlen, -, hos⟩ := region_refines hq hroom hformat _ hes
      have hsame := (history_stands region_stands keptNotes hlike).1
      exact ⟨_, d', a, b, rfl, hsame.trans hanswers, ids, hlen, hos⟩

/-- Whatever the disk does, a store behind its boot region leaves the rest of it
alone: through formatting or mounting and every history after it. -/
theorem region_contained (d : BaseOffsetDevice Disk) (es : List (StoreEvent RowId)) :
    (∀ lba, d.Outside lba → Kept d.inner.medium (formatStore d).2.inner.medium lba ∧
      Kept d.inner.medium (openStore d).2.inner.medium lba) ∧
    ∀ pg, (formatStore d).1 = .ok pg ∨ (openStore d).1 = .ok pg →
      ∀ lba, d.Outside lba → Kept d.inner.medium (history es pg).2.dev.inner.medium lba := by
  have hd : d = d ∧ Contained d d := ⟨rfl, contained_refl d⟩
  obtain ⟨hof, hf⟩ := format_stands (contained_stands d) hd
  obtain ⟨hoo, ho⟩ := open_stands (contained_stands d) hd
  have hpg : ∀ pg, (formatStore d).1 = .ok pg ∨ (openStore d).1 = .ok pg →
      Like (fun d₁ d₂ => d₁ = d₂ ∧ Contained d d₁) pg pg := by
    rintro pg (hpg | hpg)
    · rw [hpg] at hof
      cases hof with
      | ok hlike => exact hlike
    · rw [hpg] at hoo
      cases hoo with
      | ok hlike => exact hlike
  refine ⟨fun lba hout => ⟨hf.2.rest lba hout, ho.2.rest lba hout⟩, fun pg h lba hout => ?_⟩
  obtain ⟨-, hlike⟩ := history_stands (contained_stands d) es (hpg pg h)
  exact hlike.dev.2.rest lba hout

end Store

end TablesOS
