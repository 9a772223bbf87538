import TablesOS.Kernel.Ps2

/-!
# The shift flag and the shift keys

The decoder has one flag for two keys, and takes the fake shift codes for real
ones. The flag says whether a key is held as long as no shift key is released
while the other is held and no fake code contradicts the keys (`Allows`); the
first byte that does so makes it wrong, and a letter pressed next shows it. The
queue is not in question: what has been polled and what is still queued are
what was emitted, in order, but for events that found it full.
-/

namespace TablesOS

namespace Ps2

/-! ## One byte -/

/-- The byte leaves the flag in agreement with the keys. -/
def Shifts.Allows (s : Shifts) (code : UInt8) : Prop :=
  if s.prefixed then
    (code = 0x2A ∨ code = 0x36 → s.held = true) ∧ (code = 0xAA ∨ code = 0xB6 → s.held = false)
  else (code = 0xAA → s.right = false) ∧ (code = 0xB6 → s.left = false)

/-- A statement about every byte, checked for each. -/
theorem forall_byte {p : UInt8 → Prop} (h : ∀ n : Fin 256, p (UInt8.ofFin n)) (code : UInt8) :
    p code := h code.toFin

/-- The decoder after a byte: both keys and both fakes set or clear the flag. -/
theorem kbd_after (shift extended : Bool) (code : UInt8) :
    (onKeyboardByte ⟨shift, extended⟩ code).1 =
      ⟨if code = 0x2A ∨ code = 0x36 then true
        else if code = 0xAA ∨ code = 0xB6 then false else shift, code = 0xE0⟩ := by
  revert code
  refine forall_byte ?_
  revert shift extended
  decide +kernel

/-- A printable key sends this code when it is pressed. -/
def Printable (code : UInt8) : Prop :=
  code &&& 0x80 = 0 ∧ ∃ c, scancodeChar (code &&& 0x7F) false = some c

/-- Nothing is printed for the keys that are decoded otherwise. -/
theorem printable_ne {code other : UInt8} (h : Printable code)
    (hother : scancodeChar other false = none) : code &&& 0x7F ≠ other := by
  obtain ⟨-, c, hc⟩ := h
  rintro rfl
  rw [hother] at hc
  cases hc

/-- The key press is decoded with the flag. -/
theorem emit_printable (shift : Bool) {code : UInt8} (h : Printable code) :
    (onKeyboardByte ⟨shift, false⟩ code).2 =
      (scancodeChar (code &&& 0x7F) shift).map fun c => .key (.char c) := by
  have hE0 : code ≠ 0xE0 := by
    rintro rfl
    exact absurd h.1 (by decide)
  have hshift : ¬ (code &&& 0x7F = 0x2A ∨ code &&& 0x7F = 0x36) := by
    rintro (heq | heq)
    · exact printable_ne h rfl heq
    · exact printable_ne h rfl heq
  unfold onKeyboardByte
  rw [if_neg hE0]
  simp only [if_neg hshift, h.1, ne_eq, not_true_eq_false, if_false, Bool.false_eq_true]
  unfold plainKey
  rw [if_neg (printable_ne h rfl), if_neg (printable_ne h rfl), if_neg (printable_ne h rfl),
    if_neg (printable_ne h rfl), Option.map_map]
  rfl

/-- The letter that shows the flag. -/
theorem printable_letter : Printable 0x1E := ⟨by decide, 'a', rfl⟩

theorem letter_shows {shift held : Bool}
    (h : scancodeChar (0x1E &&& 0x7F) shift = scancodeChar (0x1E &&& 0x7F) held) :
    shift = held := by
  cases shift <;> cases held
  · rfl
  · exact absurd h (by decide)
  · exact absurd h (by decide)
  · rfl

/-! ## The flag over a run -/

/-- The flag and the prefix as the keyboard has them. -/
structure Driver.Agrees (d : Driver) : Prop where
  shift : d.kbd.shift = d.shifts.held
  extended : d.kbd.extended = d.shifts.prefixed

namespace Driver

theorem agrees_boot : boot.Agrees := ⟨rfl, rfl⟩

/-- A byte keeps the agreement exactly if it is allowed, and after one that is not
the next byte has no prefix. -/
theorem byte_agrees {d : Driver} (h : d.Agrees) (code : UInt8) :
    ((d.step (.byte code)).Agrees ↔ d.shifts.Allows code) ∧
    (¬ d.shifts.Allows code → (d.step (.byte code)).kbd.extended = false ∧
      (d.step (.byte code)).shifts.prefixed = false) := by
  obtain ⟨⟨shift, extended⟩, queue, ⟨left, right, prefixed⟩⟩ := d
  obtain ⟨hshift, hext⟩ := h
  have hkbd : (step ⟨⟨shift, extended⟩, queue, ⟨left, right, prefixed⟩⟩ (.byte code)).kbd = _ :=
    kbd_after shift extended code
  have hagree : ∀ d' : Driver, d'.Agrees ↔
      d'.kbd.shift = d'.shifts.held ∧ d'.kbd.extended = d'.shifts.prefixed :=
    fun d' => ⟨fun h => ⟨h.1, h.2⟩, fun h => ⟨h.1, h.2⟩⟩
  rw [hagree, hkbd]
  show _ ∧ (_ → _ ∧ (Shifts.byte ⟨left, right, prefixed⟩ code).prefixed = false)
  show (_ = (Shifts.byte ⟨left, right, prefixed⟩ code).held ∧
    _ = (Shifts.byte ⟨left, right, prefixed⟩ code).prefixed ↔ _) ∧ _
  have hshift : shift = (left || right) := hshift
  unfold Shifts.byte Shifts.Allows Shifts.held
  rw [hshift]
  by_cases hE0 : code = 0xE0
  · subst hE0
    cases prefixed <;> simp
  by_cases h2A : code = 0x2A
  · subst h2A
    cases prefixed <;> simp
  by_cases hAA : code = 0xAA
  · subst hAA
    cases prefixed <;> cases left <;> simp
  by_cases h36 : code = 0x36
  · subst h36
    cases prefixed <;> simp
  by_cases hB6 : code = 0xB6
  · subst hB6
    cases prefixed <;> cases right <;> simp
  cases prefixed <;> simp [hE0, h2A, hAA, h36, hB6]

/-- A press of any printable key is told as the keys that are held say. -/
def Told (d : Driver) : Prop :=
  d.shifts.prefixed = false → ∀ code, Printable code → d.emits (.byte code) =
    (scancodeChar (code &&& 0x7F) d.shifts.held).map fun c => .key (.char c)

theorem Agrees.told {d : Driver} (h : d.Agrees) : d.Told := by
  intro hprefixed code hcode
  obtain ⟨⟨shift, extended⟩, queue, shifts⟩ := d
  have hext : extended = false := h.extended.trans hprefixed
  have hshift : shift = shifts.held := h.shift
  subst hext hshift
  exact emit_printable _ hcode

/-- Where the flag is wrong, a letter shows it. -/
theorem not_told {d : Driver} (hext : d.kbd.extended = false)
    (hprefixed : d.shifts.prefixed = false)
    (hshift : d.kbd.shift ≠ d.shifts.held) : ¬ d.Told := by
  intro htold
  have hletter := htold hprefixed _ printable_letter
  obtain ⟨⟨shift, extended⟩, queue, shifts⟩ := d
  have hext : extended = false := hext
  subst hext
  have hemit : (Driver.mk ⟨shift, false⟩ queue shifts).emits (.byte 0x1E) = _ :=
    emit_printable shift printable_letter
  rw [hemit] at hletter
  refine hshift (letter_shows (Option.map_injective ?_ hletter))
  intro c c' hc
  injection hc with hc
  injection hc

/-- At every moment of a run. -/
def Follows (d : Driver) (is : List Input) : Prop := ∀ pre, pre <+: is → (d.run pre).Told

/-- Every byte of a run is allowed at its time. -/
def Allowed : List Input → Driver → Prop
  | [], _ => True
  | i :: is, d => (∀ code, i = .byte code → d.shifts.Allows code) ∧ Allowed is (d.step i)

theorem follows_cons {d : Driver} {i : Input} {is : List Input} :
    d.Follows (i :: is) ↔ d.Told ∧ (d.step i).Follows is := by
  constructor
  · intro h
    exact ⟨h [] List.nil_prefix, fun pre hpre => h (i :: pre)
      (List.cons_prefix_cons.mpr ⟨rfl, hpre⟩)⟩
  · rintro ⟨htold, hrest⟩ pre hpre
    rcases List.prefix_cons_iff.mp hpre with rfl | ⟨rest, rfl, hrest'⟩
    · exact htold
    · exact hrest rest hrest'

theorem follows_iff (is : List Input) : ∀ d : Driver, d.Agrees →
    (d.Follows is ↔ Allowed is d) := by
  induction is with
  | nil =>
      intro d h
      refine ⟨fun _ => trivial, fun _ pre hpre => ?_⟩
      rw [List.prefix_nil.mp hpre]
      exact h.told
  | cons i is ih =>
      intro d h
      rw [follows_cons, Allowed]
      -- the next state agrees again, unless the byte was not allowed
      have hnext : (∀ code, i = .byte code → d.shifts.Allows code) → (d.step i).Agrees := by
        intro hall
        cases i with
        | byte code => exact ((byte_agrees h code).1).mpr (hall code rfl)
        | push e => exact ⟨h.shift, h.extended⟩
        | poll => exact ⟨h.shift, h.extended⟩
      constructor
      · rintro ⟨-, hfollows⟩
        have hall : ∀ code, i = .byte code → d.shifts.Allows code := by
          rintro code rfl
          by_contra hno
          obtain ⟨hext, hprefixed⟩ := (byte_agrees h code).2 hno
          refine not_told hext hprefixed (fun hshift => hno ?_) (hfollows [] List.nil_prefix)
          exact ((byte_agrees h code).1).mp ⟨hshift, hext.trans hprefixed.symm⟩
        exact ⟨hall, (ih _ (hnext hall)).mp hfollows⟩
      · rintro ⟨hall, hrest⟩
        exact ⟨h.told, (ih _ (hnext hall)).mpr hrest⟩

/-! ## The queue -/

/-- The events of a run that find room. -/
def accepted : List Input → Driver → List Event
  | [], _ => []
  | i :: is, d =>
      (if d.queue.len = queueCap then [] else (d.emits i).toList) ++ accepted is (d.step i)

/-- What the UI gets in the course of it. -/
def polled : List Input → Driver → List Event
  | [], _ => []
  | i :: is, d => (d.polls i).toList ++ polled is (d.step i)

theorem step_queue (d : Driver) (i : Input) :
    d.queue.contents ++ (if d.queue.len = queueCap then [] else (d.emits i).toList) =
      (d.polls i).toList ++ (d.step i).queue.contents := by
  have hpush : ∀ e : Option Event,
      d.queue.contents ++ (if d.queue.len = queueCap then [] else e.toList) =
        (e.elim d.queue d.queue.push).contents := by
    intro e
    cases e with
    | none => simp
    | some e =>
        rw [Option.elim_some, DropRing.contents_push]
        split <;> simp
  cases i with
  | byte code => exact hpush _
  | push e => exact hpush (some e)
  | poll =>
      obtain ⟨htail, hhead⟩ := d.queue.contents_pop
      show d.queue.contents ++ _ = d.queue.pop.1.toList ++ d.queue.pop.2.contents
      rw [htail, hhead]
      cases d.queue.contents <;> simp [emits]

theorem run_queue (is : List Input) : ∀ d : Driver,
    d.queue.contents ++ accepted is d = polled is d ++ (d.run is).queue.contents := by
  induction is with
  | nil => exact fun d => List.append_nil _
  | cons i is ih =>
      intro d
      rw [accepted, polled, ← List.append_assoc, step_queue, List.append_assoc, ih,
        List.append_assoc]
      rfl

end Driver

/-- In every run the printable keys follow the shift keys exactly if every byte of
the run is allowed; and what was emitted is polled or queued in order, but for
what found the ring full. -/
theorem shift_follows_iff (is : List Input) :
    (Driver.boot.Follows is ↔ Driver.Allowed is Driver.boot) ∧
      Driver.accepted is Driver.boot =
        Driver.polled is Driver.boot ++ (Driver.boot.run is).queue.contents :=
  ⟨Driver.follows_iff is _ Driver.agrees_boot, Driver.run_queue is Driver.boot⟩

/-- Both keys down, one of them up again, and a letter: it comes in lower case
though a key is held. So it does between the fake codes around a navigation key. -/
theorem shift_lost :
    (Driver.boot.run [.byte 0x2A, .byte 0x36, .byte 0xAA]).shifts.held = true ∧
    (Driver.boot.run [.byte 0x2A, .byte 0x36, .byte 0xAA]).emits (.byte 0x1E) =
      some (.key (.char 'a')) ∧
    scancodeChar 0x1E true = some 'A' ∧
    ¬ Driver.boot.Follows [.byte 0x2A, .byte 0x36, .byte 0xAA] ∧
    ¬ Driver.boot.Follows [.byte 0x2A, .byte 0xE0, .byte 0xAA] := by
  refine ⟨rfl, rfl, rfl, fun h => ?_, fun h => ?_⟩
  · exact Driver.not_told rfl rfl (by decide) (h _ List.prefix_rfl)
  · exact Driver.not_told rfl rfl (by decide) (h _ List.prefix_rfl)

end Ps2

end TablesOS
