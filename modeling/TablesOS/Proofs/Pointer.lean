import TablesOS.Base.Sweep
import TablesOS.Spec.Picture
import Mathlib.Data.List.GetD
import Mathlib.Data.List.Induction

/-!
# The pointer leaves the picture alone

The scene with one pointer over it, after every call. `put` changes one pixel;
stamping the pointer and repairing what was under it are two sweeps of one
rectangle, each cell of it one pixel, so both are the sweep lemma of `Sweep`
with `put` or a copy from the scene as the round. Where the rectangle hangs over
the right or the bottom edge its cells have no pixel.

That repairing is enough needs two facts: outside the rectangle the pointer has
no colour, and a pixel that is covered keeps nothing but its fourth byte, which
is the scene's.
-/

namespace TablesOS

open Framebuffer

variable {info : FbInfo}

/-! ## Where pixels are -/

theorem FbInfo.Accepted.bpp_le (h : info.Accepted) : 3 ≤ info.bpp ∧ info.bpp ≤ 4 := by
  rcases h.bpp with h | h <;> omega

theorem FbInfo.Accepted.len_lt (h : info.Accepted) : info.len < 2 ^ 64 := by
  have hp := h.pitch_lt
  have hh := h.height_lt
  have hmul : info.pitch * info.height < 2 ^ 32 * 2 ^ 32 := Nat.mul_lt_mul'' hp hh
  exact hmul

namespace Pixel

/-- A pixel lies in its own scanline. -/
theorem offset_lt (h : info.Accepted) (p : Pixel info) :
    p.offset + info.bpp ≤ (p.y + 1) * info.pitch := by
  have hx : (p.x + 1) * info.bpp ≤ info.width * info.bpp := Nat.mul_le_mul_right _ p.x_lt
  have hrow := h.row
  unfold offset
  rw [Nat.succ_mul] at hx ⊢
  omega

theorem offset_le (h : info.Accepted) (p : Pixel info) : p.offset + info.bpp ≤ info.len := by
  have hle : (p.y + 1) * info.pitch ≤ info.height * info.pitch := Nat.mul_le_mul_right _ p.y_lt
  have hlt := p.offset_lt h
  rw [Nat.mul_comm info.height] at hle
  exact Nat.le_trans hlt hle

/-- A pixel further down is behind. -/
theorem offset_below (h : info.Accepted) {p q : Pixel info} (hpq : p.y < q.y) :
    p.offset + info.bpp ≤ q.offset := by
  have hle : (p.y + 1) * info.pitch ≤ q.y * info.pitch := Nat.mul_le_mul_right _ hpq
  have hlt := p.offset_lt h
  show _ ≤ q.y * info.pitch + _
  omega

theorem offset_right {p q : Pixel info} (hy : p.y = q.y) (hpq : p.x < q.x) :
    p.offset + info.bpp ≤ q.offset := by
  have hle : (p.x + 1) * info.bpp ≤ q.x * info.bpp := Nat.mul_le_mul_right _ hpq
  unfold offset
  rw [Nat.succ_mul] at hle
  rw [hy]
  omega

/-- Two pixels have no byte in common. -/
theorem offset_apart (h : info.Accepted) {p q : Pixel info} (hne : ¬ (p.x = q.x ∧ p.y = q.y)) :
    p.offset + info.bpp ≤ q.offset ∨ q.offset + info.bpp ≤ p.offset := by
  rcases Nat.lt_trichotomy p.y q.y with hy | hy | hy
  · exact Or.inl (offset_below h hy)
  · rcases Nat.lt_trichotomy p.x q.x with hx | hx | hx
    · exact Or.inl (offset_right hy hx)
    · exact absurd ⟨hx, hy⟩ hne
    · exact Or.inr (offset_right hy.symm hx)
  · exact Or.inr (offset_below h hy)

/-- Writing at a pixel leaves the others as they were. -/
theorem bytes_put_other (h : info.Accepted) {p q : Pixel info} (hne : ¬ (p.x = q.x ∧ p.y = q.y))
    (buf : Buf info.len) {bs : List Byte} (hbs : bs.length ≤ info.bpp) :
    p.bytes (buf.put q.offset bs) = p.bytes buf := by
  refine Buf.slice_put_disjoint ?_
  have hapart := offset_apart h hne
  omega

end Pixel

/-! ## Pixels written -/

namespace Framebuffer

theorem usize_of_lt {n : Nat} (h : n < 2 ^ 64) : usize n = .ok n := if_pos h

theorem length_colourBytes (c : Rgb) : (colourBytes info c).length = 3 := by
  unfold colourBytes
  split <;> rfl

/-- `put` changes one pixel, or none. -/
theorem put_changes (h : info.Accepted) (buf : Buf info.len) (x y : Nat) (c : Rgb) :
    ∃ buf', put buf info x y c = .ok buf' ∧
      Changes (fun buf (p : Pixel info) => p.bytes buf) (fun p => p.x = x ∧ p.y = y)
        (fun _ px => inked info (some c) px) buf buf' := by
  have hbpp := h.bpp_le
  have hlen := h.len_lt
  have hbytes : (colourBytes info c).length = 3 := length_colourBytes c
  unfold put
  by_cases hin : info.width ≤ x ∨ info.height ≤ y
  · rw [if_pos hin]
    refine ⟨buf, rfl, Changes.refl (fun p hp => ?_) buf⟩
    have hx := p.x_lt
    have hy := p.y_lt
    omega
  · rw [not_or, Nat.not_le, Nat.not_le] at hin
    have hfit := Pixel.offset_le h ⟨x, y, hin.1, hin.2⟩
    simp only [Pixel.offset] at hfit
    rw [if_neg (by omega), usize_of_lt (by omega), Outcome.ok_bind, usize_of_lt (by omega),
      Outcome.ok_bind, if_neg (by omega), if_neg (by omega)]
    refine ⟨_, rfl, fun p hp => ?_, fun p hp => ?_⟩
    · obtain ⟨hx, hy⟩ := hp
      have hoff : p.offset = y * info.pitch + x * info.bpp := by rw [Pixel.offset, hx, hy]
      have hslice := @Buf.slice_put_front _ buf (y * info.pitch + x * info.bpp) info.bpp
        (colourBytes info c) (by omega) hfit
      rw [hbytes] at hslice
      simp only [Pixel.bytes, hoff]
      exact hslice
    · exact Pixel.bytes_put_other h (q := ⟨x, y, hin.1, hin.2⟩) hp buf (by omega)

end Framebuffer

/-! ## The pointer -/

theorem cursorCell_below {ry : Nat} (h : cursorH ≤ ry) (rx : Nat) : cursorCell ry rx = 0 := by
  have hrow : cursor.getD ry [] = [] := List.getD_eq_default _ _ h
  rw [cursorCell, hrow]
  rfl

theorem cursorCell_beside {rx : Nat} (h : cursorW ≤ rx) (ry : Nat) : cursorCell ry rx = 0 := by
  have hrows : ∀ row ∈ cursor, row.length = cursorW := by decide
  unfold cursorCell
  by_cases hry : ry < cursor.length
  · have hrow : cursor.getD ry [] ∈ cursor := by
      rw [List.getD_eq_getElem _ _ hry]
      exact List.getElem_mem hry
    exact List.getD_eq_default _ _ (by rw [hrows _ hrow]; exact h)
  · rw [show cursor.getD ry [] = [] from List.getD_eq_default _ _ (by omega)]
    rfl

theorem cellColour_zero : cellColour 0 = none := by decide

/-- The rectangle of a pointer whose tip is at `tip`. -/
def InRect (tip : Nat × Nat) (p : Pixel info) : Prop :=
  (tip.2 ≤ p.y ∧ p.y < tip.2 + cursorH) ∧ tip.1 ≤ p.x ∧ p.x < tip.1 + cursorW

theorem pointerAt_inside {tip : Nat × Nat} {p : Pixel info} (h : InRect tip p) :
    pointerAt tip p.x p.y = cellColour (cursorCell (p.y - tip.2) (p.x - tip.1)) :=
  if_pos ⟨h.2.1, h.1.1⟩

/-- The pointer has no colour outside its rectangle. -/
theorem pointerAt_outside {tip : Nat × Nat} {p : Pixel info} (h : ¬ InRect tip p) :
    pointerAt tip p.x p.y = none := by
  unfold pointerAt
  split
  · next hle =>
      unfold InRect at h
      by_cases hx : p.x < tip.1 + cursorW
      · rw [cursorCell_below (by omega), cellColour_zero]
      · rw [cursorCell_beside (by omega), cellColour_zero]
  · rfl

namespace Display

theorem paintCell_changes (h : info.Accepted) {cx cy ry rx : Nat} (hx : cx + rx < 2 ^ 64)
    (hy : cy + ry < 2 ^ 64) (fb : Buf info.len) :
    ∃ fb', paintCell cx cy ry fb rx = .ok fb' ∧
      Changes (fun buf (p : Pixel info) => p.bytes buf)
        (fun p => p.x = cx + rx ∧ p.y = cy + ry)
        (fun _ px => inked info (cellColour (cursorCell ry rx)) px) fb fb' := by
  unfold paintCell
  cases hcell : cellColour (cursorCell ry rx) with
  | none => exact ⟨fb, rfl, fun _ _ => rfl, fun _ _ => rfl⟩
  | some c =>
      simp only [usize_of_lt hx, usize_of_lt hy, Outcome.ok_bind]
      exact put_changes h fb (cx + rx) (cy + ry) c

/-- `paint_cursor` draws the pointer over what is there. -/
theorem paintCursor_run (h : info.Accepted) {d : Display info} {tip : Nat × Nat}
    (ht : Addressable tip) (hat : d.cursorAt = some tip) :
    ∃ d', d.paintCursor = .ok d' ∧ d'.scene = d.scene ∧ d'.cursorAt = some tip ∧
      ∀ p : Pixel info, p.bytes d'.fb = inked info (pointerAt tip p.x p.y) (p.bytes d.fb) := by
  obtain ⟨htx, hty⟩ := ht
  have hrow : ∀ ry, ry < cursorH → ∀ fb : Buf info.len, ∃ fb',
      (List.range cursorW).foldlM (paintCell tip.1 tip.2 ry) fb = .ok fb' ∧
      Changes (fun buf (p : Pixel info) => p.bytes buf)
        (fun p => p.y = tip.2 + ry ∧ tip.1 ≤ p.x ∧ p.x < tip.1 + cursorW)
        (fun p px => inked info (cellColour (cursorCell ry (p.x - tip.1))) px) fb fb' := by
    intro ry hry fb
    obtain ⟨fb', hrun, hchange⟩ := foldlM_line (n := cursorW) (fun rx hrx fb =>
      paintCell_changes h (show tip.1 + rx < 2 ^ 64 by omega)
        (show tip.2 + ry < 2 ^ 64 by omega) fb) fb
    exact ⟨fb', hrun, hchange.congr (fun p => And.comm) fun _ _ _ => rfl⟩
  obtain ⟨fb', hrun, hchange⟩ := foldlM_line hrow d.fb
  unfold paintCursor
  rw [hat]
  simp only [hrun, Outcome.ok_bind]
  refine ⟨_, rfl, rfl, rfl, fun p => ?_⟩
  by_cases hp : InRect tip p
  · rw [pointerAt_inside hp]
    exact hchange.inside p hp
  · rw [pointerAt_outside hp]
    exact hchange.outside p hp

theorem restoreCell_changes (h : info.Accepted) (scene : Buf info.len) {ox py rx : Nat}
    (hx : ox + rx < 2 ^ 64) (hpy : py < info.height) (fb : Buf info.len) :
    ∃ fb', restoreCell scene ox py fb rx = .ok fb' ∧
      Changes (fun buf (p : Pixel info) => p.bytes buf) (fun p => p.x = ox + rx ∧ p.y = py)
        (fun p _ => p.bytes scene) fb fb' := by
  have hlen := h.len_lt
  unfold restoreCell
  rw [usize_of_lt hx, Outcome.ok_bind]
  by_cases hin : info.width ≤ ox + rx
  · rw [if_pos hin]
    refine ⟨fb, rfl, Changes.refl (fun p hp => ?_) fb⟩
    have hx := p.x_lt
    omega
  · have hfit := Pixel.offset_le h ⟨ox + rx, py, by omega, hpy⟩
    simp only [Pixel.offset] at hfit
    rw [if_neg hin, usize_of_lt (by omega), Outcome.ok_bind, usize_of_lt (by omega),
      Outcome.ok_bind, if_pos hfit]
    refine ⟨_, rfl, fun p hp => ?_, fun p hp => ?_⟩
    · obtain ⟨hx, hy⟩ := hp
      have hoff : p.offset = py * info.pitch + (ox + rx) * info.bpp := by
        rw [Pixel.offset, hx, hy]
      have hslice := @Buf.slice_put_self _ fb (py * info.pitch + (ox + rx) * info.bpp)
        (scene.slice (py * info.pitch + (ox + rx) * info.bpp) info.bpp) (by
          rw [Buf.length_slice]
          exact hfit)
      rw [Buf.length_slice] at hslice
      simp only [Pixel.bytes, hoff]
      exact hslice
    · exact Pixel.bytes_put_other h (q := ⟨ox + rx, py, by omega, hpy⟩) hp fb
        (Nat.le_of_eq (Buf.length_slice _ _ _))

/-- `restore_cursor_bg` puts the scene back in the rectangle of the pointer. -/
theorem restoreCursorBg_run (h : info.Accepted) (d : Display info) {tip : Nat × Nat}
    (ht : Addressable tip) :
    ∃ d', d.restoreCursorBg tip.1 tip.2 = .ok d' ∧ d'.scene = d.scene ∧
      (∀ p : Pixel info, InRect tip p → p.bytes d'.fb = p.bytes d.scene) ∧
      ∀ p : Pixel info, ¬ InRect tip p → p.bytes d'.fb = p.bytes d.fb := by
  obtain ⟨htx, hty⟩ := ht
  have hrow : ∀ ry, ry < cursorH → ∀ fb : Buf info.len, ∃ fb',
      restoreRow d.scene tip.1 tip.2 fb ry = .ok fb' ∧
      Changes (fun buf (p : Pixel info) => p.bytes buf)
        (fun p => p.y = tip.2 + ry ∧ tip.1 ≤ p.x ∧ p.x < tip.1 + cursorW)
        (fun p _ => p.bytes d.scene) fb fb' := by
    intro ry hry fb
    unfold restoreRow
    rw [usize_of_lt (by omega), Outcome.ok_bind]
    by_cases hin : info.height ≤ tip.2 + ry
    · rw [if_pos hin]
      refine ⟨fb, rfl, Changes.refl (fun p hp => ?_) fb⟩
      have hy := p.y_lt
      omega
    · rw [if_neg hin]
      obtain ⟨fb', hrun, hchange⟩ := foldlM_line (n := cursorW) (fun rx hrx fb =>
        restoreCell_changes h d.scene (show tip.1 + rx < 2 ^ 64 by omega)
          (Nat.lt_of_not_le hin) fb) fb
      exact ⟨fb', hrun, hchange.congr (fun p => And.comm) fun _ _ _ => rfl⟩
  obtain ⟨fb', hrun, hchange⟩ := foldlM_line hrow d.fb
  unfold restoreCursorBg
  rw [hrun]
  exact ⟨_, rfl, rfl, fun p hp => hchange.inside p hp, fun p hp => hchange.outside p hp⟩

/-! ## Calls -/

theorem present_shows (h : info.Accepted) (d : Display info) {tip : Nat × Nat}
    (ht : Addressable tip) : ∃ d', d.present tip = .ok d' ∧ d'.Shows d.scene tip := by
  obtain ⟨d', hrun, hscene, hat, hpicture⟩ := paintCursor_run h
    (d := { d with fb := d.fb.put 0 d.scene.toList, cursorAt := some tip }) ht rfl
  refine ⟨d', hrun, hscene, hat, fun p => ?_⟩
  rw [hpicture p, Buf.put_toList]
  rfl

/-- `move_cursor` takes the pointer away where it was and draws it where it
goes. -/
theorem moveCursor_run (h : info.Accepted) (d : Display info) {x y : Nat}
    (hold : ∀ tip, d.cursorAt = some tip → Addressable tip) (ht : Addressable (x, y)) :
    ∃ d', d.moveCursor x y = .ok d' ∧ d'.cursorAt = some (x, y) ∧
      ∀ scene tip, d.Shows scene tip → d'.Shows scene (x, y) := by
  unfold moveCursor
  cases hat : d.cursorAt with
  | none =>
      obtain ⟨d', hrun, -, hat', -⟩ :=
        paintCursor_run h (d := { d with cursorAt := some (x, y) }) ht rfl
      refine ⟨d', hrun, hat', fun scene tip hshows => ?_⟩
      rw [hshows.cursorAt] at hat
      cases hat
  | some old =>
      by_cases hsame : old.1 = x ∧ old.2 = y
      · simp only [if_pos hsame]
        obtain ⟨rfl, rfl⟩ := hsame
        refine ⟨d, rfl, hat, fun scene tip hshows => ?_⟩
        obtain rfl : tip = old := Option.some_inj.mp (hshows.cursorAt.symm.trans hat)
        exact hshows
      · simp only [if_neg hsame]
        obtain ⟨d₁, hrun₁, hscene₁, hin, hout⟩ := restoreCursorBg_run h d (hold old hat)
        obtain ⟨d₂, hrun₂, hscene₂, hat₂, hpicture⟩ :=
          paintCursor_run h (d := { d₁ with cursorAt := some (x, y) }) ht rfl
        rw [hrun₁, Outcome.ok_bind]
        refine ⟨d₂, hrun₂, hat₂, fun scene tip hshows => ⟨?_, hat₂, fun p => ?_⟩⟩
        · exact hscene₂.trans (hscene₁.trans hshows.clean)
        · obtain rfl : tip = old := Option.some_inj.mp (hshows.cursorAt.symm.trans hat)
          have hclean : p.bytes d₁.fb = p.bytes scene := by
            by_cases hp : InRect tip p
            · rw [hin p hp, hshows.clean]
            · rw [hout p hp, hshows.picture p, overlaid, pointerAt_outside hp]
              rfl
          rw [hpicture p, hclean]
          rfl

/-- What a run keeps: the pointer is where it was put last, and once a scene has
been presented the screen shows it under that pointer. -/
structure Kept (calls : List (Call info)) (d : Display info) : Prop where
  cursorAt : d.cursorAt = lastPosition calls
  shows : ∀ scene, lastScene calls = some scene → ∃ tip, d.Shows scene tip

theorem lastPosition_concat (calls : List (Call info)) (c : Call info) :
    lastPosition (calls ++ [c]) = some c.position := by
  simp [lastPosition]

theorem step_kept (h : info.Accepted) {calls : List (Call info)} {d : Display info}
    (hpos : ∀ c ∈ calls, Addressable c.position) (hd : Kept calls d) {c : Call info}
    (hc : Addressable c.position) : ∃ d', d.step c = .ok d' ∧ Kept (calls ++ [c]) d' := by
  cases c with
  | present scene tip =>
      obtain ⟨d', hrun, hshows⟩ := present_shows h { d with scene } hc
      refine ⟨d', hrun, ?_, fun scene' hlast => ⟨tip, ?_⟩⟩
      · rw [lastPosition_concat]
        exact hshows.cursorAt
      · have heq : lastScene (calls ++ [.present scene tip]) = some scene := by
          simp [lastScene, Call.drawn]
        obtain rfl := Option.some_inj.mp (heq.symm.trans hlast)
        exact hshows
  | moveCursor x y =>
      have hold : ∀ tip, d.cursorAt = some tip → Addressable tip := by
        intro tip htip
        rw [hd.cursorAt] at htip
        obtain ⟨c, hcmem, rfl⟩ := List.mem_map.mp (List.mem_of_getLast? htip)
        exact hpos c hcmem
      obtain ⟨d', hrun, hat, hmoved⟩ := moveCursor_run h d hold hc
      refine ⟨d', hrun, ?_, fun scene hlast => ?_⟩
      · rw [lastPosition_concat]
        exact hat
      · have heq : lastScene (calls ++ [.moveCursor x y]) = lastScene calls := by
          simp [lastScene, Call.drawn]
        obtain ⟨tip, hshows⟩ := hd.shows scene (heq.symm.trans hlast)
        exact ⟨(x, y), hmoved scene tip hshows⟩

theorem run_kept (h : info.Accepted) (buffer : Buf info.len) (calls : List (Call info))
    (hpos : ∀ c ∈ calls, Addressable c.position) :
    ∃ d, run calls (init buffer) = .ok d ∧ Kept calls d := by
  induction calls using List.reverseRecOn with
  | nil => exact ⟨_, rfl, rfl, fun _ hlast => by cases hlast⟩
  | append_singleton calls c ih =>
      obtain ⟨d, hrun, hd⟩ := ih fun c hc => hpos c (List.mem_append_left _ hc)
      obtain ⟨d', hstep, hd'⟩ := step_kept h (fun c hc => hpos c (List.mem_append_left _ hc)) hd
        (hpos c (List.mem_append_right _ List.mem_cons_self))
      refine ⟨d', ?_, hd'⟩
      show (calls ++ [c]).foldlM step (init buffer) = _
      rw [List.foldlM_append, show calls.foldlM step (init buffer) = .ok d from hrun,
        Outcome.ok_bind, List.foldlM_cons, hstep]
      rfl

theorem picture_intact (h : info.Accepted) (buffer : Buf info.len) (calls : List (Call info))
    (hpos : ∀ c ∈ calls, Addressable c.position) {scene : Buf info.len}
    (hscene : lastScene calls = some scene) :
    ∃ d tip, run calls (init buffer) = .ok d ∧ lastPosition calls = some tip ∧
      ∀ p : Pixel info, p.bytes d.fb = overlaid scene tip p := by
  obtain ⟨d, hrun, hd⟩ := run_kept h buffer calls hpos
  obtain ⟨tip, hshows⟩ := hd.shows scene hscene
  exact ⟨d, tip, hrun, hd.cursorAt.symm.trans hshows.cursorAt, hshows.picture⟩

/-- A screen of 1024 by 720 pixels of four bytes, without padding. -/
def smallScreen : FbInfo := ⟨1024, 720, 4096, 4, true⟩

theorem accepted_smallScreen : smallScreen.Accepted :=
  ⟨Or.inr rfl, by decide, by decide, by decide⟩

/-- A pointer that hangs over the corner of the screen, then one in the middle. -/
theorem picture_intact_corner : ∃ (d : Display smallScreen) (tip : Nat × Nat),
    run [.present (Buf.zero _) (1020, 710), .moveCursor 500 300] (init (Buf.zero _)) = .ok d ∧
      tip = (500, 300) ∧ ∀ p, p.bytes d.fb = overlaid (Buf.zero _) tip p := by
  obtain ⟨d, tip, hrun, htip, hpicture⟩ := picture_intact accepted_smallScreen (Buf.zero _)
    [.present (Buf.zero _) (1020, 710), .moveCursor 500 300] (by
      intro c hc
      rcases List.mem_cons.mp hc with rfl | hc
      · exact ⟨by decide, by decide⟩
      · obtain rfl := List.mem_singleton.mp hc
        exact ⟨by decide, by decide⟩) rfl
  exact ⟨d, tip, hrun, Option.some_inj.mp htip.symm, hpicture⟩

/-- A pointer at the end of the address space does not come to be drawn. -/
theorem present_panics_at_max : smallScreen.Accepted ∧
    run [.present (Buf.zero _) (2 ^ 64 - 1, 0)] (init (Buf.zero smallScreen.len)) = .panic := by
  refine ⟨accepted_smallScreen, ?_⟩
  rfl

end Display

end TablesOS
