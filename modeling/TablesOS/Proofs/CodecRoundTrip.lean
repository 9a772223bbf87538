import TablesOS.Engine.Schema
import TablesOS.Proofs.ValueRoundTrip

/-!
# What is encoded decodes back

Rows and schemas are written as counts, length-prefixed strings and single
bytes, one after the other, and read in the same order. Each piece gets a
`Reads` lemma; rows and schemas are compositions of them. The only numbers
that do not survive are lengths from `2 ^ 64` on, which no buffer in memory
has, so the hypothesis everywhere is that the encoding itself is shorter than
that.
-/

namespace TablesOS.Codec

open Decoder

/-! ## Varints -/

theorem or_shift {r x s : Nat} (hr : r < 2 ^ s) (hx : x * 2 ^ s < 2 ^ 64) :
    r ||| (x <<< s) % 2 ^ 64 = r + x * 2 ^ s := by
  rw [Nat.shiftLeft_eq, Nat.mod_eq_of_lt hx, ← Nat.shiftLeft_eq, Nat.or_comm,
    ← Nat.shiftLeft_add_eq_or_of_lt hr, Nat.shiftLeft_eq, Nat.add_comm]

/-- The reader's loop undoes the writer's: `r` holds the groups read so far,
`v` is what the writer has left. -/
theorem getUvarintLoop_put : ∀ (n v r s : Nat) (rest : List Byte),
    v < 128 ^ n → 0 < n → r < 2 ^ s → s < 64 → r + v * 2 ^ s < 2 ^ 64 →
      getUvarintLoop r s (putUvarintLoop n v ++ rest) = .ok (r + v * 2 ^ s, rest) := by
  intro n
  induction n with
  | zero => intro v r s rest _ h0; omega
  | succ n ih =>
      intro v r s rest hv _ hr hs hlt
      have hmod : v % 128 * 2 ^ s ≤ v * 2 ^ s :=
        Nat.mul_le_mul_right _ (Nat.mod_le v 128)
      have hor : r ||| ((v % 128) <<< s) % 2 ^ 64 = r + v % 128 * 2 ^ s :=
        or_shift hr (by omega)
      have hpow : 2 ^ (s + 7) = 2 ^ s * 128 := by rw [Nat.pow_add]
      have hdiv : v * 2 ^ s = v / 128 * 2 ^ (s + 7) + v % 128 * 2 ^ s := by
        conv => lhs; rw [← Nat.div_add_mod v 128]
        rw [hpow, Nat.add_mul, Nat.mul_comm 128, Nat.mul_assoc, Nat.mul_comm 128]
      unfold putUvarintLoop
      split
      · next hne =>
          have h7 : s + 7 < 64 := by
            have hle : 2 ^ (s + 7) ≤ v / 128 * 2 ^ (s + 7) :=
              Nat.le_mul_of_pos_left _ (by omega)
            exact (Nat.pow_lt_pow_iff_right (show 1 < 2 by omega)).mp (by omega)
          have hb : (UInt8.ofNat (v % 128 + 128)).toNat = v % 128 + 128 := by
            rw [UInt8.toNat_ofNat']
            omega
          rw [List.cons_append, getUvarintLoop, if_neg (by omega), hb,
            if_neg (by omega), show (v % 128 + 128) % 128 = v % 128 by omega, hor]
          have hr' : r + v % 128 * 2 ^ s < 2 ^ (s + 7) := by
            have h127 : v % 128 * 2 ^ s ≤ 127 * 2 ^ s :=
              Nat.mul_le_mul_right _ (by omega)
            omega
          have hn : 0 < n := by
            rcases Nat.eq_zero_or_pos n with rfl | h
            · rw [Nat.zero_add, Nat.pow_one] at hv
              omega
            · exact h
          have hv' : v / 128 < 128 ^ n := by
            rw [Nat.pow_succ] at hv
            exact Nat.div_lt_of_lt_mul (by rwa [Nat.mul_comm] at hv)
          rw [ih (v / 128) _ (s + 7) rest hv' hn hr' h7 (by omega)]
          congr 2
          omega
      · next hz =>
          have hb : (UInt8.ofNat (v % 128)).toNat = v % 128 := by
            rw [UInt8.toNat_ofNat']
            omega
          have hsmall : v % 128 = v := by omega
          rw [List.cons_append, List.nil_append, getUvarintLoop, if_neg (by omega),
            hb, if_pos (by omega), Nat.mod_mod, hor, hsmall]

theorem reads_uvarint {v : Nat} (hv : v < 2 ^ 64) :
    Reads getUvarint (putUvarint v) v := fun rest => by
  rw [getUvarint, putUvarint, Nat.mod_eq_of_lt hv,
    getUvarintLoop_put 10 v 0 0 rest (by omega) (by omega) (by omega) (by omega)
      (by omega)]
  simp

theorem length_putUvarint_pos (v : Nat) : 0 < (putUvarint v).length := by
  unfold putUvarint putUvarintLoop
  split <;> simp

/-! ## Strings -/

theorem reads_byte (what : String) (b : Byte) : Reads (getByte what) [b] b :=
  fun _ => rfl

theorem reads_bytes {b : List Byte} (h : b.length < 2 ^ 64) :
    Reads getBytes (putBytes b) b :=
  (reads_uvarint h).bind fun rest => by
    show (if b.length ≤ (b ++ rest).length then _ else _) = _
    rw [if_pos (by simp)]
    simp

theorem fromUtf8_strBytes (s : String) : fromUtf8 (strBytes s) = some s := by
  show String.fromUTF8? s.toByteArray = some s
  rw [String.fromUTF8?, dif_pos s.isValidUTF8]
  rfl

theorem reads_str {s : String} (h : (strBytes s).length < 2 ^ 64) :
    Reads getStr (putStr s) s := by
  refine (reads_bytes h).bind_last ?_
  rw [fromUtf8_strBytes]
  exact reads_pure s

theorem length_strBytes_le (s : String) :
    (strBytes s).length ≤ (putStr s).length := by
  simp [putStr, putBytes]

/-! ## Rows -/

theorem reads_cell {c : Option Value} (h : (putCell c).length < 2 ^ 64) :
    Reads getCell (putCell c) c := by
  cases c with
  | none =>
      exact (reads_byte "cell eof" 0).bind_last (reads_pure none)
  | some v =>
      have hs : (strBytes v.display).length < 2 ^ 64 := by
        have hle := length_strBytes_le v.display
        simp only [putCell, List.length_cons] at h
        omega
      show Reads getCell ([1] ++ ([v.typeOf.tag] ++ putStr v.display)) (some v)
      refine (reads_byte "cell eof" 1).bind ?_
      rw [if_neg (by decide)]
      refine (reads_byte "cell tag eof" v.typeOf.tag).bind ?_
      rw [Ty.fromTag_tag]
      refine (reads_str hs).bind_last ?_
      rw [Value.parse_display]
      exact reads_pure (some v)

theorem length_le_flatMap {α : Type} {enc : α → List Byte} {x : α} {xs : List α}
    (h : x ∈ xs) : (enc x).length ≤ (xs.flatMap enc).length := by
  obtain ⟨a, b, rfl⟩ := List.append_of_mem h
  simp only [List.flatMap_append, List.flatMap_cons, List.length_append]
  omega

theorem count_le_flatMap {α : Type} {enc : α → List Byte}
    (henc : ∀ x, 0 < (enc x).length) (xs : List α) :
    xs.length ≤ (xs.flatMap enc).length := by
  induction xs with
  | nil => simp
  | cons x xs ih =>
      have hx := henc x
      rw [List.flatMap_cons, List.length_append, List.length_cons]
      omega

theorem length_putCell_pos (c : Option Value) : 0 < (putCell c).length := by
  cases c <;> simp [putCell]

/-- A counted list of encodings, read back. -/
theorem reads_vec {α : Type} {d : Dec α} {enc : α → List Byte} {xs : List α}
    (henc : ∀ x, 0 < (enc x).length) (h : (putVec enc xs).length < 2 ^ 64)
    (hd : ∀ x ∈ xs, (enc x).length < 2 ^ 64 → Reads d (enc x) x) :
    Reads (getVec d) (putVec enc xs) xs := by
  rw [putVec, List.length_append] at h
  have hcount := count_le_flatMap henc xs
  refine (reads_uvarint (by omega)).bind (Reads.many fun x hx => hd x hx ?_)
  have hle : (enc x).length ≤ (xs.flatMap enc).length := length_le_flatMap hx
  omega

/-- A row that fits in memory comes back as it was written. -/
theorem decodeRow_encodeRow {row : Row} (h : (encodeRow row).length < 2 ^ 64) :
    decodeRow (encodeRow row) = .ok row :=
  (reads_vec length_putCell_pos h fun _ _ => reads_cell).run'

/-! ## Schemas -/

theorem length_putStr_pos (s : String) : 0 < (putStr s).length := by
  have h := length_putUvarint_pos (strBytes s).length
  simp only [putStr, putBytes, List.length_append]
  omega

theorem reads_str_of_put {s : String} (h : (putStr s).length < 2 ^ 64) :
    Reads getStr (putStr s) s :=
  reads_str (by have := length_strBytes_le s; omega)

end TablesOS.Codec

namespace TablesOS.Table

open Decoder Codec

/-- A column as `decode` first reads it, before the widths are known. -/
def clearWidth (c : Column) : Column := { c with displayWidth := none }

theorem reads_column {c : Column} (h : (putColumn c).length < 2 ^ 64) :
    Reads getColumn (putColumn c) (clearWidth c) := by
  rw [putColumn, List.length_append] at h
  refine (reads_str_of_put (by omega)).bind ?_
  rw [← List.singleton_append, ← List.singleton_append (l := [_])]
  refine (reads_byte "schema eof" c.ty.tag).bind ?_
  rw [Ty.fromTag_tag]
  refine (reads_byte "schema eof" _).bind ?_
  refine (reads_byte "schema eof" _).bind_last ?_
  have hn : ∀ b : Bool, decide ((if b then (1 : Byte) else 0) ≠ 0) = b := by decide
  rw [hn, hn]
  exact reads_pure _

theorem reads_fk {f : ForeignKey} (h : (putFk f).length < 2 ^ 64) :
    Reads getFk (putFk f) f := by
  simp only [putFk, List.length_append] at h
  rw [putFk, List.append_assoc, List.append_assoc]
  refine (reads_str_of_put (by omega)).bind ((reads_str_of_put (by omega)).bind ?_)
  refine (reads_str_of_put (by omega)).bind ((reads_str_of_put (by omega)).bind_last ?_)
  exact reads_pure f

theorem reads_ifMore {α : Type} {absent : α} {d : Dec α} {b : List Byte} {a : α}
    (hd : Reads d b a) (hb : 0 < b.length) : Reads (ifMore absent d) b a := by
  cases b with
  | nil => simp at hb
  | cons x xs => exact fun rest => hd rest

theorem length_putVec_pos {α : Type} (enc : α → List Byte) (xs : List α) :
    0 < (putVec enc xs).length := by
  have h := length_putUvarint_pos xs.length
  rw [putVec, List.length_append]
  omega

/-- The widths of the columns from index `k` on. -/
def widthsFrom (k : Nat) (cs : List Column) : List (Nat × UInt16) :=
  (cs.zipIdx k).filterMap fun (c, i) => c.displayWidth.map fun w => (i, w)

theorem widthsFrom_cons (k : Nat) (c : Column) (cs : List Column) :
    widthsFrom k (c :: cs) =
      (c.displayWidth.map fun w => (k, w)).toList ++ widthsFrom (k + 1) cs := by
  rw [widthsFrom, List.zipIdx_cons, List.filterMap_cons]
  cases h : c.displayWidth <;> simp [h, widthsFrom]

theorem lt_of_mem_widthsFrom {k : Nat} {cs : List Column} {cw : Nat × UInt16}
    (h : cw ∈ widthsFrom k cs) : cw.1 < k + cs.length := by
  obtain ⟨⟨c, i⟩, hi, hw⟩ := List.mem_filterMap.mp h
  obtain ⟨w, _, rfl⟩ := Option.map_eq_some_iff.mp hw
  have hlt := List.snd_lt_of_mem_zipIdx hi
  simp only at hlt ⊢
  omega

theorem modify_append_length {α : Type} (f : α → α) (pre : List α) (x : α)
    (xs : List α) : (pre ++ x :: xs).modify pre.length f = pre ++ f x :: xs := by
  induction pre with
  | nil => rfl
  | cons p pre ih => simpa using ih

/-- Setting the stored widths over cleared columns gives the columns. -/
theorem foldl_setWidth (pre cs : List Column) :
    ((widthsFrom pre.length cs).map fun cw => (cw.1, cw.2.toNat)).foldl setWidth
      (pre ++ cs.map clearWidth) = pre ++ cs := by
  induction cs generalizing pre with
  | nil => rfl
  | cons c cs ih =>
      have hnext := ih (pre ++ [c])
      rw [List.length_append, List.length_singleton, List.append_assoc,
        List.append_assoc] at hnext
      rw [widthsFrom_cons, List.map_append, List.foldl_append, List.map_cons]
      cases hw : c.displayWidth with
      | none =>
          have hc : clearWidth c = c := by
            obtain ⟨_, _, _, _, _⟩ := c
            cases hw
            rfl
          rw [hc]
          exact hnext
      | some w =>
          have hset : setWidth (pre ++ clearWidth c :: cs.map clearWidth)
              (pre.length, w.toNat) = pre ++ c :: cs.map clearWidth := by
            rw [setWidth, modify_append_length, UInt16.ofNat_toNat]
            obtain ⟨_, _, _, _, _⟩ := c
            cases hw
            rfl
          simp only [Option.map_some, Option.toList_some, List.map_cons, List.map_nil,
            List.foldl_cons, List.foldl_nil, hset]
          exact hnext

theorem widths_eq (t : Table) : t.widths = widthsFrom 0 t.columns := rfl

theorem length_putColumn_pos (c : Column) : 0 < (putColumn c).length := by
  simp [putColumn]

theorem length_putFk_pos (f : ForeignKey) : 0 < (putFk f).length := by
  have h := length_putStr_pos f.name
  simp only [putFk, List.length_append]
  omega

theorem reads_columns {cs : List Column} (h : (putVec putColumn cs).length < 2 ^ 64) :
    Reads (getVec getColumn) (putVec putColumn cs) (cs.map clearWidth) := by
  have henc : putVec putColumn cs = putVec putColumn (cs.map clearWidth) := by
    simp only [putVec, List.length_map, List.flatMap_map]
    rfl
  rw [henc] at h ⊢
  refine reads_vec length_putColumn_pos h fun c hc hlen => ?_
  obtain ⟨c, _, rfl⟩ := List.mem_map.mp hc
  exact reads_column hlen

/-- The width list as `decode` sees it: the widths as plain numbers. -/
theorem reads_widths {t : Table} (hcols : t.columns.length < 2 ^ 64)
    (h : (putVec putWidth t.widths).length < 2 ^ 64) :
    Reads (ifMore [] (getVec getWidth)) (putVec putWidth t.widths)
      (t.widths.map fun cw => (cw.1, cw.2.toNat)) := by
  let enc : Nat × Nat → List Byte := fun cw => putUvarint cw.1 ++ putUvarint cw.2
  have henc : putVec putWidth t.widths =
      putVec enc (t.widths.map fun cw => (cw.1, cw.2.toNat)) := by
    simp only [putVec, List.length_map, List.flatMap_map]
    rfl
  have hpos : ∀ cw, 0 < (enc cw).length := fun cw => by
    have := length_putUvarint_pos cw.1
    simp only [enc, List.length_append]
    omega
  rw [henc] at h ⊢
  refine reads_ifMore (reads_vec hpos h fun cw hcw _ => ?_) (length_putVec_pos _ _)
  obtain ⟨⟨i, w⟩, hmem, rfl⟩ := List.mem_map.mp hcw
  have hi : i < 0 + t.columns.length := lt_of_mem_widthsFrom hmem
  have hw : w.toNat < 2 ^ 16 := w.toNat_lt
  exact (reads_uvarint (show i < 2 ^ 64 by omega)).bind
    ((reads_uvarint (show w.toNat < 2 ^ 64 by omega)).bind_last (reads_pure _))

/-- A schema that fits in memory comes back as it was written. -/
theorem decode_encode {t : Table} (h : t.encode.length < 2 ^ 64) :
    decode t.encode = .ok t := by
  simp only [encode, List.length_append] at h
  have hcols := @reads_columns t.columns (by omega)
  have hfks : Reads (getVec getFk) (putVec putFk t.fks) t.fks :=
    reads_vec length_putFk_pos (by omega) fun _ _ => reads_fk
  have hrefs : Reads (ifMore [] (getVec getStr)) (putVec putStr t.refCols) t.refCols :=
    reads_ifMore (reads_vec length_putStr_pos (by omega) fun _ _ => reads_str_of_put)
      (length_putVec_pos _ _)
  have hcount : t.columns.length ≤ (putVec putColumn t.columns).length := by
    have hle := count_le_flatMap length_putColumn_pos t.columns
    rw [putVec, List.length_append]
    omega
  have hws := reads_widths (t := t) (by omega) (by omega)
  refine Reads.run' ((reads_str_of_put (by omega)).bind (hcols.bind (hfks.bind
    (hrefs.bind (hws.bind_last ?_)))))
  have hset := foldl_setWidth [] t.columns
  rw [List.nil_append, List.nil_append] at hset
  rw [widths_eq, show (0 : Nat) = ([] : List Column).length from rfl, hset]
  exact reads_pure t

/-! ## Images of older versions -/

/-- The image as it was written before there were reference columns. -/
def throughFks (t : Table) : List Byte :=
  putStr t.name ++ (putVec putColumn t.columns ++ putVec putFk t.fks)

/-- The image as it was written before there were display widths. -/
def throughRefCols (t : Table) : List Byte := t.throughFks ++ putVec putStr t.refCols

theorem encode_through (t : Table) :
    t.encode = t.throughRefCols ++ putVec putWidth t.widths := by
  simp only [encode, throughRefCols, throughFks, List.append_assoc]

/-- The columns, without their widths. -/
def bare (t : Table) : List Column := t.columns.map fun c => { c with displayWidth := none }

/-- An image that stops behind the foreign keys. -/
theorem decode_throughFks {t : Table} (h : t.encode.length < 2 ^ 64) :
    decode t.throughFks = .ok { t with columns := t.bare, refCols := [] } := by
  simp only [encode, List.length_append] at h
  have hname := @reads_str_of_put t.name (by omega)
  have hcols := @reads_columns t.columns (by omega)
  have hfks : Reads (getVec getFk) (putVec putFk t.fks) t.fks :=
    reads_vec length_putFk_pos (by omega) fun _ _ => reads_fk
  refine run'_ok (s := []) ?_
  rw [throughFks, bind_ok (hname _), bind_ok (hcols _), bind_ok hfks.at_end]
  rfl

/-- An image that stops behind the reference columns. -/
theorem decode_throughRefCols {t : Table} (h : t.encode.length < 2 ^ 64) :
    decode t.throughRefCols = .ok { t with columns := t.bare } := by
  simp only [encode, List.length_append] at h
  have hname := @reads_str_of_put t.name (by omega)
  have hcols := @reads_columns t.columns (by omega)
  have hfks : Reads (getVec getFk) (putVec putFk t.fks) t.fks :=
    reads_vec length_putFk_pos (by omega) fun _ _ => reads_fk
  have hrefs : Reads (ifMore [] (getVec getStr)) (putVec putStr t.refCols) t.refCols :=
    reads_ifMore (reads_vec length_putStr_pos (by omega) fun _ _ => reads_str_of_put)
      (length_putVec_pos _ _)
  refine run'_ok (s := []) ?_
  rw [throughRefCols, throughFks, List.append_assoc, List.append_assoc, bind_ok (hname _),
    bind_ok (hcols _), bind_ok (hfks _), bind_ok hrefs.at_end]
  rfl

/-- A schema comes back as it was written; written by an older version, it
comes back without what that version did not know. -/
theorem schema_round_trip (t : Table) (h : t.encode.length < 2 ^ 64) :
    decode t.encode = .ok t ∧
      (t.throughFks <+: t.throughRefCols ∧
        decode t.throughFks = .ok { t with columns := t.bare, refCols := [] }) ∧
      (t.throughRefCols <+: t.encode ∧
        decode t.throughRefCols = .ok { t with columns := t.bare }) := by
  refine ⟨decode_encode h, ⟨List.prefix_append _ _, decode_throughFks h⟩, ?_,
    decode_throughRefCols h⟩
  rw [encode_through]
  exact List.prefix_append _ _

/-- A table that refers to itself, with a reference column and a width. -/
theorem schema_round_trip_person :
    let t : Table := ⟨"person", [⟨"id", .unsignedInteger, false, true, some 6⟩,
      ⟨"boss", .unsignedInteger, true, false, none⟩], [⟨"boss_fk", "boss", "person", "id"⟩], ["id"]⟩
    decode t.encode = .ok t ∧
      (t.throughFks <+: t.throughRefCols ∧
        decode t.throughFks = .ok { t with columns := t.bare, refCols := [] }) ∧
      (t.throughRefCols <+: t.encode ∧
        decode t.throughRefCols = .ok { t with columns := t.bare }) :=
  schema_round_trip _ (by decide)

end TablesOS.Table

namespace TablesOS

open Codec

/-! ## Values and rows together -/

/-- Displaying loses nothing and neither does storing: what `parse` accepted
it accepts again, as the same value, from the display text; a row decodes to
itself, whatever its values, as long as its encoding is a byte string a `usize`
can measure; and two parsed values of one type with the same text are equal. -/
theorem value_row_round_trip :
    (∀ (ty : Ty) (s : String) (v : Value), Value.parse ty s = .ok v →
      Value.parse ty v.display = .ok v) ∧
    (∀ row : Row, (encodeRow row).length < 2 ^ 64 →
      decodeRow (encodeRow row) = .ok row) ∧
    (∀ (ty : Ty) (s s' : String) (v v' : Value), Value.parse ty s = .ok v →
      Value.parse ty s' = .ok v' → v.display = v'.display → v = v') := by
  have hparse : ∀ (ty : Ty) (s : String) (v : Value), Value.parse ty s = .ok v →
      Value.parse ty v.display = .ok v := by
    intro ty s v h
    rw [← Value.typeOf_of_parse h]
    exact v.parse_display
  refine ⟨hparse, fun row => decodeRow_encodeRow, ?_⟩
  intro ty s s' v v' h h' hd
  have hv := hparse ty s v h
  rw [hd, hparse ty s' v' h'] at hv
  cases hv
  rfl

/-- A negative decimal and a `NULL`, stored and read back. -/
theorem value_row_round_trip_decimal :
    ∃ v, Value.parse .decimal "-03.140" = .ok v ∧
      Value.parse .decimal v.display = .ok v ∧
      decodeRow (encodeRow [some v, none]) = .ok [some v, none] := by
  refine ⟨.decimal ⟨true, ⟨[3], by decide⟩, [1, 4], by decide, by decide⟩, rfl, ?_, ?_⟩
  · exact value_row_round_trip.1 .decimal "-03.140" _ rfl
  · exact value_row_round_trip.2.1 _ (by decide)

end TablesOS
