import TablesOS.Kernel.Ps2

/-!
# Key-hint bars (`ui.rs`)

A screen is drawn as lines of text. A line of key hints is a bar: a click on it
is resolved by the bracketed token under the pointer, and a bar that is wider
than the screen is cut between its options. Texts are lists of characters, since
every position the source counts is one of a character.
-/

namespace TablesOS

namespace Bar

/-! ## Lines and frames -/

/-- `enum LineKind` -/
inductive LineKind where
  | normal
  | dim
  | selected
  | error
  | accent
  deriving DecidableEq, Repr

/-- `enum Hit` -/
inductive Hit where
  | none
  | focus (i : Nat)
  | activate (i : Nat)
  | shortcuts
  deriving DecidableEq, Repr

/-- `struct TextLine` -/
structure TextLine where
  text : List Char
  kind : LineKind
  hit : Hit
  deriving DecidableEq, Repr

/-- `struct Rgb` -/
structure Rgb where
  r : UInt8
  g : UInt8
  b : UInt8
  deriving DecidableEq, Repr

/-- `struct Frame`, as far as lines and places on lines go. -/
structure Frame where
  body : List TextLine
  /-- Line, column, width and color. -/
  cellHls : List (Nat × Nat × Nat × Rgb)
  /-- Line and column. -/
  cursor : Option (Nat × Nat)
  deriving DecidableEq, Repr

/-! ## Clicks -/

/-- `key_for_token` -/
def keyForToken (tok : List Char) : Option Ps2.Key :=
  if tok = "Enter".toList ∨ tok = "Enter/Space".toList then some .enter
  else if tok = "Esc".toList then some .esc
  else if tok = "Del".toList then some .delete
  else if tok = "Tab".toList then some .tab
  else if tok = "PgDn".toList then some .pageDown
  else if tok = "PgUp".toList then some .pageUp
  else if tok = "Space".toList then some (.char ' ')
  else if tok = "→".toList then some .right
  else if tok = "←".toList then some .left
  else if tok = "↑".toList then some .up
  else if tok = "↓".toList then some .down
  else match tok with
    | [c] => if c ∈ "↑↓←→".toList then none else some (.char c)
    | _ => none

/-- What stands behind the hot word that the bracket before `chars` opens. -/
def afterWord (chars : List Char) : List Char :=
  (((chars.dropWhile (· ≠ ']')).drop 1).dropWhile (· ≠ ' '))

theorem length_afterWord (chars : List Char) : (afterWord chars).length ≤ chars.length := by
  have hclose := (List.dropWhile_sublist (l := chars) (· ≠ ']')).length_le
  have hdrop := List.length_drop (i := 1) (l := chars.dropWhile (· ≠ ']'))
  have hspace := (List.dropWhile_sublist (l := (chars.dropWhile (· ≠ ']')).drop 1)
    (· ≠ ' ')).length_le
  unfold afterWord
  omega

/-- The loop of `shortcut_at`, from the character at column `i` on. -/
def shortcutFrom (i : Nat) (chars : List Char) (cc : Nat) : Option Ps2.Key :=
  match chars with
  | [] => none
  | c :: chars =>
      if c ≠ '[' then shortcutFrom (i + 1) chars cc
      else
        let stop := i + 1 + (chars.length - (afterWord chars).length)
        if i ≤ cc ∧ cc < stop then keyForToken (chars.takeWhile (· ≠ ']'))
        else shortcutFrom stop (afterWord chars) cc
termination_by chars.length
decreasing_by
  · exact Nat.lt_succ_self _
  · exact Nat.lt_succ_of_le (length_afterWord chars)

/-- `shortcut_at` -/
def shortcutAt (text : List Char) (cc : Nat) : Option Ps2.Key := shortcutFrom 0 text cc

/-! ## Options -/

/-- The locals of `split_options`. -/
structure Splitting where
  segs : List (List Char)
  cur : List Char
  spaces : Nat

/-- What ends with a run of spaces. -/
def Splitting.close (s : Splitting) : Splitting :=
  if 2 ≤ s.spaces then
    if s.cur = [] then s else { s with segs := s.segs ++ [s.cur], cur := [] }
  else if s.spaces = 1 ∧ s.cur ≠ [] then { s with cur := s.cur ++ [' '] }
  else s

/-- A round of `split_options`. -/
def Splitting.next (s : Splitting) (ch : Char) : Splitting :=
  if ch = ' ' then { s with spaces := s.spaces + 1 }
  else { s.close with spaces := 0, cur := s.close.cur ++ [ch] }

def Splitting.finish (s : Splitting) : List (List Char) :=
  if s.cur = [] then s.segs else s.segs ++ [s.cur]

/-- `split_options` -/
def splitOptions (text : List Char) : List (List Char) :=
  (text.foldl Splitting.next ⟨[], [], 0⟩).finish

/-- The locals of `wrap_options`. -/
structure Packing where
  lines : List (List Char)
  cur : List Char

/-- A round of `wrap_options`. -/
def Packing.next (maxCols : Nat) (s : Packing) (seg : List Char) : Packing :=
  if s.cur = [] then { s with cur := seg }
  else if s.cur.length + 2 + seg.length ≤ maxCols then
    { s with cur := s.cur ++ [' ', ' '] ++ seg }
  else ⟨s.lines ++ [s.cur], seg⟩

def Packing.finish (s : Packing) : List (List Char) :=
  let lines := if s.cur = [] then s.lines else s.lines ++ [s.cur]
  if lines = [] then [[]] else lines

/-- `wrap_options` -/
def wrapOptions (text : List Char) (maxCols : Nat) : List (List Char) :=
  ((splitOptions text).foldl (Packing.next maxCols) ⟨[], []⟩).finish

/-! ## Reflowing a frame -/

/-- A line of a bar. -/
def hintLine (kind : LineKind) (text : List Char) : TextLine := ⟨text, kind, .shortcuts⟩

/-- The locals of `wrap_shortcut_bars`. -/
structure Reflow where
  newBody : List TextLine
  extra : List Nat
  acc : Nat

/-- A round of `wrap_shortcut_bars`. -/
def Reflow.next (maxCols : Nat) (s : Reflow) (l : TextLine) : Reflow :=
  let extra := s.extra ++ [s.acc]
  if l.hit = .shortcuts then
    let chunks := wrapOptions l.text maxCols
    ⟨s.newBody ++ chunks.map (hintLine l.kind), extra, s.acc + (chunks.length - 1)⟩
  else ⟨s.newBody ++ [l], extra, s.acc⟩

/-- Where a line has gone. -/
def Reflow.shift (s : Reflow) (li : Nat) : Nat :=
  li + (s.extra[li]?).getD (s.extra.getLast?.getD 0)

/-- Nothing to do. -/
def fits (frame : Frame) (maxCols : Nat) : Bool :=
  maxCols = 0 || !frame.body.any fun l => l.hit = .shortcuts && maxCols < l.text.length

/-- `wrap_shortcut_bars` -/
def wrapShortcutBars (frame : Frame) (maxCols : Nat) : Frame :=
  if fits frame maxCols then frame
  else
    let s := frame.body.foldl (Reflow.next maxCols) ⟨[], [], 0⟩
    { body := s.newBody
      cellHls := frame.cellHls.map fun hl => (s.shift hl.1, hl.2)
      cursor := frame.cursor.map fun at_ => (s.shift at_.1, at_.2) }

end Bar

end TablesOS
