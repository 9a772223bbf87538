import TablesOS.Spec.AcpiMemory
import Mathlib.Data.List.Find
import Mathlib.Tactic.Linarith

/-!
# What the ACPI search reads

Each reader is shown to stay below the limit by the check in front of it. Two
have none of their own size: `parse_fadt` reads up to 196 bytes of a table of
which 36 are known to be readable, and the decoder of the `_S5_` package looks
at the end of the table and not at that of the package. So the search is safe
exactly if the FADTs it meets reach no further than the limit, and the package
it settles for holds the elements that are taken from it.
-/

namespace TablesOS

namespace Acpi

open Probe

variable {P : ℕ → Prop} {mem : ℕ → UInt8}

/-- Below `PHYS_LIMIT`. -/
abbrev Below (a : ℕ) : Prop := a < physLimit

/-! ## The readers -/

theorem readable_iff {pa len : ℕ} : readable pa len = true ↔ pa ≠ 0 ∧ pa + len ≤ physLimit := by
  simp [readable]

theorem stays_rd {n pa : ℕ} : Stays P (rd n pa) mem ↔ ∀ i < n, P (pa + i) := by
  have hround : ∀ i ∈ List.range n, ∀ v : ℕ, Stays P
      ((fun b : UInt8 => v + b.toNat * 256 ^ i) <$> rdU8 (pa + i)) mem ↔ P (pa + i) := by
    intro i _ v
    rw [stays_map, stays_cell]
  rw [rd, stays_foldlM hround]
  simp only [List.mem_range]

/-- A number below the limit. -/
theorem below_rd {n pa : ℕ} : Stays Below (rd (n + 1) pa) mem ↔ pa + (n + 1) ≤ physLimit := by
  rw [stays_rd]
  constructor
  · intro h
    have := h n (Nat.lt_succ_self n)
    omega
  · intro h i hi
    show pa + i < physLimit
    omega

theorem value_rd (n pa : ℕ) : (rd n pa).value mem = word mem n pa := value_foldlM _ _

theorem value_bytesAt (pa : ℕ) (bytes : List UInt8) :
    (bytesAt pa bytes).value mem = decide (bytesFrom mem pa bytes.length = bytes) := by
  rw [bytesAt, value_allM, Bool.eq_iff_iff, List.all_eq_true, decide_eq_true_iff]
  constructor
  · intro h
    refine List.ext_getElem (by simp [bytesFrom]) fun i _ hi => ?_
    have hbyte := h (bytes[i], i) (List.mk_mem_zipIdx_iff_getElem?.mpr
      (List.getElem?_eq_getElem hi))
    simpa [bytesFrom] using hbyte
  · intro h b hb
    have hget := List.mem_zipIdx_iff_getElem?.mp hb
    rw [← h] at hget
    obtain ⟨hi, hget⟩ := List.getElem?_eq_some_iff.mp hget
    simp only [bytesFrom, List.getElem_map, List.getElem_range] at hget
    simp [hget]

theorem below_bytesAt {pa : ℕ} {bytes : List UInt8} (h : pa + bytes.length ≤ physLimit) :
    Stays Below (bytesAt pa bytes) mem := by
  refine stays_allM fun b hb => ?_
  have hlt := List.snd_lt_of_mem_zipIdx hb
  rw [stays_map, stays_cell]
  show pa + b.2 < physLimit
  omega

theorem below_checksumOk (pa len : ℕ) : Stays Below (checksumOk pa len) mem := by
  unfold checksumOk
  split
  · next h =>
      have hround : ∀ i ∈ List.range len, ∀ sum : UInt8, Stays Below
          ((fun b : UInt8 => sum + b) <$> rdU8 (pa + i)) mem ↔ pa + i < physLimit := by
        intro i _ sum
        rw [stays_map, stays_cell]
      rw [stays_bind, stays_foldlM hround]
      refine ⟨fun i hi => ?_, stays_pure _⟩
      have := (readable_iff.mp h).2
      have := List.mem_range.mp hi
      omega
  · exact stays_pure _

theorem value_checksumOk {pa len : ℕ} (h : readable pa len = true) :
    (checksumOk pa len).value mem = decide ((bytesFrom mem pa len).sum = 0) := by
  have hsum : ((List.range len).foldlM (fun sum i => (sum + ·) <$> rdU8 (pa + i))
      (0 : UInt8)).value mem = (bytesFrom mem pa len).sum := by
    rw [value_foldlM, List.sum_eq_foldl, bytesFrom, List.foldl_map]
    rfl
  rw [checksumOk, if_pos h, value_bind, hsum]
  rfl

theorem mem_places {start stop pa : ℕ} (h : pa ∈ places start stop) :
    start / 16 * 16 ≤ pa ∧ pa + 20 ≤ stop := by
  obtain ⟨i, hi, rfl⟩ := List.mem_range'.mp h
  have hdiv := Nat.div_mul_le_self (stop + 16 - (start / 16 * 16 + 20)) 16
  omega

theorem below_scanRsdp {start stop : ℕ} (h : stop ≤ physLimit) :
    Stays Below (scanRsdp start stop) mem := by
  refine stays_findM? fun pa hpa => ?_
  have hplace := (mem_places hpa).2
  rw [stays_bind]
  refine ⟨below_bytesAt (Nat.le_trans ?_ h), ?_⟩
  · show pa + 8 ≤ stop
    omega
  · split
    · exact below_checksumOk _ _
    · exact stays_pure _

theorem value_scanRsdp {start stop : ℕ} (hstart : 16 ≤ start) (h : stop ≤ physLimit) :
    (scanRsdp start stop).value mem
      = (places start stop).find? fun pa => decide (IsRsdp mem pa) := by
  rw [scanRsdp, value_findM?]
  refine List.find?_congr fun pa hpa => ?_
  obtain ⟨hlow, hhigh⟩ := mem_places hpa
  have hread : readable pa 20 = true := readable_iff.mpr ⟨by omega, by omega⟩
  have hsig : (bytesAt pa rsdpSig).value mem = decide (bytesFrom mem pa 8 = rsdpSig) :=
    value_bytesAt pa rsdpSig
  show _ = decide (bytesFrom mem pa 8 = rsdpSig ∧ (bytesFrom mem pa 20).sum = 0)
  rw [value_bind, hsig, Bool.decide_and, ← value_checksumOk hread]
  cases decide (bytesFrom mem pa 8 = rsdpSig) <;> rfl

theorem below_scanRegions (ebda : ℕ) : Stays Below (scanRegions ebda) mem := by
  unfold scanRegions
  split
  · next h =>
      rw [stays_bind]
      refine ⟨below_scanRsdp (by simp only [physLimit]; omega), ?_⟩
      split
      · exact stays_pure _
      · exact below_scanRsdp (by decide)
  · exact below_scanRsdp (by decide)

theorem below_findRsdp : Stays Below findRsdp mem := by
  unfold findRsdp
  rw [stays_bind]
  exact ⟨below_rd.mpr (by decide), below_scanRegions _⟩

theorem value_findRsdp : findRsdp.value mem = rsdpOf mem := by
  have hbios : (scanRsdp 0xE0000 0x100000).value mem
      = (places 0xE0000 0x100000).find? fun pa => decide (IsRsdp mem pa) :=
    value_scanRsdp (by decide) (by decide)
  rw [findRsdp, value_bind, value_rd, rsdpOf, List.find?_append, scanRegions, ebdaPlaces]
  split
  · next h =>
      have hlimit : word mem 2 0x40E * 16 + 0x400 ≤ physLimit := by
        simp only [physLimit]
        omega
      rw [value_bind, value_scanRsdp (by omega) hlimit]
      cases hscan : (places (word mem 2 0x40E * 16) (word mem 2 0x40E * 16 + 0x400)).find?
        fun pa => decide (IsRsdp mem pa) with
      | some p => rfl
      | none => exact hbios
  · exact hbios

theorem rsdpOf_low {rsdp : ℕ} (h : rsdpOf mem = some rsdp) : rsdp + 20 ≤ 0x100000 := by
  rcases List.mem_append.mp (List.mem_of_find?_eq_some h) with hebda | hbios
  · unfold ebdaPlaces at hebda
    split at hebda
    · have := (mem_places hebda).2
      omega
    · cases hebda
  · exact (mem_places hbios).2

theorem below_rootOf {rsdp : ℕ} (h : rsdp + 20 ≤ 0x100000) : Stays Below (rootOf rsdp) mem := by
  have hlow : ∀ n, rsdp + n ≤ 0x100000 + n := fun n => by omega
  unfold rootOf
  have hrsdt : Stays Below ((fun x => (x, 4)) <$> rd 4 (rsdp + 16)) mem := by
    rw [stays_map, below_rd]
    simp only [physLimit]
    omega
  rw [stays_bind, stays_cell]
  refine ⟨by simp only [Below, physLimit]; omega, ?_⟩
  split
  · rw [stays_bind, below_rd]
    refine ⟨by simp only [physLimit]; omega, ?_⟩
    split
    · exact stays_pure _
    · exact hrsdt
  · exact hrsdt

theorem below_lengthOf (table : ℕ) : Stays Below (lengthOf table) mem := by
  unfold lengthOf
  split
  · next h =>
      have := (readable_iff.mp h).2
      exact below_rd.mpr (by omega)
  · exact stays_pure _

theorem value_rootOf (rsdp : ℕ) : (rootOf rsdp).value mem = rootAt mem rsdp := by
  unfold rootOf rootAt
  rw [value_bind, value_cell]
  by_cases hrev : 2 ≤ mem (rsdp + 15)
  · rw [if_pos hrev, value_bind, value_rd]
    cases hread : readable (word mem 8 (rsdp + 24)) 36 with
    | true =>
        rw [if_pos rfl, if_pos ⟨hrev, rfl⟩, value_pure]
    | false =>
        rw [if_neg Bool.false_ne_true, if_neg fun h => Bool.false_ne_true h.2, value_map, value_rd]
  · rw [if_neg hrev, if_neg fun h => hrev h.1, value_map, value_rd]

theorem entry_width (rsdp : ℕ) : (rootAt mem rsdp).2 = 8 ∨ (rootAt mem rsdp).2 = 4 := by
  unfold rootAt
  split
  · exact Or.inl rfl
  · exact Or.inr rfl

/-- The two checks in front of a loop over a table. -/
theorem whole_iff {table : ℕ} : Whole mem table ↔
    ((lengthOf table).value mem < 36 || !readable table ((lengthOf table).value mem)) = false := by
  unfold Whole lengthOf
  cases hhead : readable table 36 with
  | true =>
      rw [if_pos rfl, value_rd]
      simp [tableLen]
  | false =>
      rw [if_neg Bool.false_ne_true]
      simp

theorem Whole.length_eq {table : ℕ} (h : Whole mem table) :
    (lengthOf table).value mem = tableLen mem table := by
  rw [lengthOf, if_pos h.1, value_rd]
  rfl

theorem Whole.end_le {table : ℕ} (h : Whole mem table) : tableEnd mem table ≤ physLimit :=
  (readable_iff.mp h.2.2).2

/-! ## The walk over the root table -/

variable {σ : Type}

theorem value_visit (f : List UInt8 → ℕ → σ → Phys σ) (root size : ℕ) (s : σ) (i : ℕ) :
    (visit f root size s i).value mem
      = if readable (word mem size (root + 36 + i * size)) 36 = true then
          (f (bytesFrom mem (word mem size (root + 36 + i * size)) 4)
            (word mem size (root + 36 + i * size)) s).value mem
        else s := by
  rw [visit, value_bind, value_rd]
  split
  · rfl
  · rfl

theorem stays_visit {f : List UInt8 → ℕ → σ → Phys σ} {root size i : ℕ} {Q : ℕ → Prop}
    (hentry : root + 36 + i * size + size ≤ physLimit) (hsize : 0 < size)
    (hf : ∀ table s, Stays Below (f (bytesFrom mem table 4) table s) mem ↔ Q table) (s : σ) :
    Stays Below (visit f root size s i) mem
      ↔ (readable (word mem size (root + 36 + i * size)) 36 = true →
          Q (word mem size (root + 36 + i * size))) := by
  obtain ⟨n, rfl⟩ := Nat.exists_eq_succ_of_ne_zero hsize.ne'
  rw [visit, stays_bind, value_rd, below_rd]
  refine ⟨fun h hread => ?_, fun h => ⟨hentry, ?_⟩⟩
  · rw [if_pos hread] at h
    simp only [stays_bind] at h
    exact (hf _ s).mp h.2.2.2.2.2
  · split
    · next hread =>
        have := (readable_iff.mp hread).2
        simp only [stays_bind, stays_cell, Below]
        exact ⟨by omega, by omega, by omega, by omega, (hf _ s).mpr (h hread)⟩
    · exact stays_pure _

/-- An entry lies within its table. -/
theorem entry_le {root : ℕ × ℕ} {i : ℕ} (h : Whole mem root.1) (hi : i < rootCount mem root) :
    root.1 + 36 + i * root.2 + root.2 ≤ tableEnd mem root.1 := by
  have hdiv := Nat.div_mul_le_self (tableLen mem root.1 - 36) root.2
  have hlt : i + 1 ≤ (tableLen mem root.1 - 36) / root.2 :=
    Nat.le_trans hi (Nat.min_le_left _ _)
  have hmul := Nat.mul_le_mul_right root.2 hlt
  rw [Nat.succ_mul] at hmul
  have := h.2.1
  show _ ≤ root.1 + tableLen mem root.1
  omega

theorem value_forEachSdt (f : List UInt8 → ℕ → σ → Phys σ) (s : σ) :
    (forEachSdt f s).value mem
      = (listed mem).foldl (fun s table => (f (bytesFrom mem table 4) table s).value mem) s := by
  rw [forEachSdt, value_bind, value_findRsdp, listed]
  cases rsdpOf mem with
  | none => rfl
  | some rsdp =>
      show (rootOf rsdp >>= _).value mem = _
      rw [value_bind, value_rootOf, value_bind, Option.elim_some, entriesAt]
      by_cases hwhole : Whole mem (rootAt mem rsdp).1
      · rw [whole_iff.mp hwhole, if_neg Bool.false_ne_true, value_foldlM, if_pos hwhole,
          hwhole.length_eq, List.foldl_filter, List.foldl_map]
        refine congrArg (fun step => List.foldl step s _) ?_
        funext s i
        exact value_visit f _ _ s i
      · rw [if_neg hwhole, if_pos (Bool.eq_true_of_not_eq_false (mt whole_iff.mpr hwhole))]
        rfl

theorem stays_forEachSdt {f : List UInt8 → ℕ → σ → Phys σ} {Q : ℕ → Prop}
    (hf : ∀ table s, Stays Below (f (bytesFrom mem table 4) table s) mem ↔ Q table) (s : σ) :
    Stays Below (forEachSdt f s) mem ↔ ∀ table ∈ listed mem, Q table := by
  rw [forEachSdt, stays_bind, value_findRsdp, and_iff_right below_findRsdp, listed]
  cases hrsdp : rsdpOf mem with
  | none => simp
  | some rsdp =>
      have hlow := rsdpOf_low hrsdp
      show Stays Below (rootOf rsdp >>= _) mem ↔ _
      rw [stays_bind, and_iff_right (below_rootOf hlow), value_rootOf, stays_bind,
        and_iff_right (below_lengthOf _), Option.elim_some, entriesAt]
      by_cases hwhole : Whole mem (rootAt mem rsdp).1
      · have hwidth : 0 < (rootAt mem rsdp).2 := by
          rcases @entry_width mem rsdp with h | h <;> omega
        have hround : ∀ i ∈ List.range (rootCount mem (rootAt mem rsdp)), ∀ s, Stays Below
            (visit f (rootAt mem rsdp).1 (rootAt mem rsdp).2 s i) mem ↔ _ := fun i hi =>
          stays_visit (Nat.le_trans (entry_le hwhole (List.mem_range.mp hi)) hwhole.end_le)
            hwidth hf
        rw [whole_iff.mp hwhole, if_neg Bool.false_ne_true, if_pos hwhole, hwhole.length_eq]
        refine (stays_foldlM hround s).trans ?_
        simp only [List.mem_filter, List.mem_map, and_imp, forall_exists_index,
          forall_apply_eq_imp_iff₂]
      · rw [if_neg hwhole, if_pos (Bool.eq_true_of_not_eq_false (mt whole_iff.mpr hwhole))]
        simp

/-! ## The FADT -/

/-- What is read of a FADT lies below the limit: its fields up to `PM1b`, and the later
ones that its length says are there. -/
structure FadtFits (mem : ℕ → UInt8) (pa : ℕ) : Prop where
  fields : pa + 72 ≤ physLimit
  xDsdt : 148 ≤ tableLen mem pa → pa + 148 ≤ physLimit
  pm1a : 184 ≤ tableLen mem pa → pa + 184 ≤ physLimit
  pm1b : 196 ≤ tableLen mem pa → pa + 196 ≤ physLimit

theorem below_extended {pa len least off cnt : ℕ} :
    Stays Below (extended pa len least off cnt) mem ↔
      (least ≤ len → pa + (off + 12) ≤ physLimit) := by
  unfold extended gasIoPort
  split
  · next h =>
      simp only [stays_map, stays_bind, stays_cell, below_rd, stays_pure, h, true_imp_iff, and_true]
      constructor
      · intro hread
        exact hread.2
      · intro hfit
        exact ⟨by simp only [Below]; omega, hfit⟩
  · next h => simp [h]

theorem below_xDsdt {pa len dsdt : ℕ} :
    Stays Below (xDsdt pa len dsdt) mem ↔ (148 ≤ len → pa + 148 ≤ physLimit) := by
  unfold xDsdt
  split
  · next h =>
      simp only [stays_map, below_rd, h, true_imp_iff]
  · next h => simp [h]

theorem below_parseFadt {pa : ℕ} : Stays Below (parseFadt pa) mem ↔ FadtFits mem pa := by
  unfold parseFadt
  simp only [stays_bind, stays_cell, below_rd, below_extended, below_xDsdt, stays_pure, and_true,
    value_rd]
  constructor
  · rintro ⟨-, -, -, -, hb, -, hx, h₁, h₂⟩
    exact ⟨by omega, hx, h₁, h₂⟩
  · rintro ⟨hb, hx, h₁, h₂⟩
    exact ⟨by omega, by omega, by simp only [Below]; omega, by omega, by omega, by omega, hx, h₁,
      h₂⟩

theorem value_dsdt (pa : ℕ) : ((parseFadt pa).value mem).dsdt = dsdtOf mem pa := by
  have hdsdt : ((parseFadt pa).value mem).dsdt
      = (xDsdt pa ((rd 4 (pa + 4)).value mem) ((rd 4 (pa + 40)).value mem)).value mem := by
    rw [parseFadt]
    repeat rw [value_bind]
    rw [value_pure]
  rw [hdsdt, value_rd, value_rd, xDsdt, dsdtOf, tableLen]
  by_cases hlen : 148 ≤ word mem 4 (pa + 4)
  · rw [if_pos hlen, value_map, value_rd]
    exact if_congr (and_iff_right hlen).symm rfl rfl
  · rw [if_neg hlen, if_neg fun h => hlen h.1, value_pure]

/-! ## Gathering -/

theorem below_gather (table : ℕ) (s : Option Fadt × List ℕ) :
    Stays Below (gather (bytesFrom mem table 4) table s) mem
      ↔ (bytesFrom mem table 4 = facp → FadtFits mem table) := by
  unfold gather
  split
  · next h => rw [stays_map, below_parseFadt, forall_prop_of_true h]
  · next h =>
      rw [forall_prop_of_false h, iff_true]
      split
      · exact stays_pure _
      · exact stays_pure _

theorem value_gather (ts : List ℕ) (s : Option Fadt × List ℕ) (hs : s.2.length ≤ 8) :
    ts.foldl (fun s table => (gather (bytesFrom mem table 4) table s).value mem) s
      = (((ts.filter (bytesFrom mem · 4 = facp)).getLast?.map fun pa =>
            (parseFadt pa).value mem).or s.1,
          (s.2 ++ ts.filter (bytesFrom mem · 4 = ssdt)).take 8) := by
  induction ts generalizing s with
  | nil => simp [List.take_of_length_le hs]
  | cons t ts ih =>
      rw [List.foldl_cons]
      by_cases hfacp : bytesFrom mem t 4 = facp
      · have hssdt : bytesFrom mem t 4 ≠ ssdt := by
          rw [hfacp]
          decide
        have hvalue : (gather (bytesFrom mem t 4) t s).value mem
            = (some ((parseFadt t).value mem), s.2) := by
          rw [gather, if_pos hfacp, value_map]
        have hs' : (some ((parseFadt t).value mem), s.2).2.length ≤ 8 := hs
        rw [hvalue, ih _ hs', List.filter_cons_of_pos (by simpa using hfacp),
          List.filter_cons_of_neg (by simpa using hssdt), List.getLast?_cons]
        cases (ts.filter (bytesFrom mem · 4 = facp)).getLast? <;> rfl
      · rw [List.filter_cons_of_neg (by simpa using hfacp)]
        by_cases hssdt : bytesFrom mem t 4 = ssdt
        · rw [List.filter_cons_of_pos (by simpa using hssdt)]
          by_cases hroom : s.2.length < 8
          · have hvalue : (gather (bytesFrom mem t 4) t s).value mem = (s.1, s.2 ++ [t]) := by
              rw [gather, if_neg hfacp, if_pos ⟨hssdt, hroom⟩, value_pure]
            have hroom' : (s.1, s.2 ++ [t]).2.length ≤ 8 := by
              rw [List.length_append]
              exact hroom
            rw [hvalue, ih _ hroom', List.append_assoc, List.singleton_append]
          · have hvalue : (gather (bytesFrom mem t 4) t s).value mem = s := by
              rw [gather, if_neg hfacp, if_neg fun h => hroom h.2, value_pure]
            rw [hvalue, ih _ hs, List.take_append_of_le_length (by omega),
              List.take_append_of_le_length (by omega)]
        · have hvalue : (gather (bytesFrom mem t 4) t s).value mem = s := by
            rw [gather, if_neg hfacp, if_neg fun h => hssdt h.1, value_pure]
          rw [hvalue, ih _ hs, List.filter_cons_of_neg (by simpa using hssdt)]

/-! ## The package -/

theorem stays_readAmlByte {q stop : ℕ} :
    Stays P (readAmlByte q stop) mem ↔ ∀ i < elementWidth mem q stop, P (q + i) := by
  unfold readAmlByte elementWidth readAmlConst
  by_cases hstop : stop ≤ q
  · simp [hstop]
  · rw [if_neg hstop, if_neg hstop, stays_bind, stays_cell, value_cell]
    by_cases hpre : mem q = 0x0A
    · rw [if_pos hpre]
      by_cases hlast : stop ≤ q + 1
      · rw [if_pos hlast, if_neg fun h => absurd h.2 (Nat.not_lt.mpr hlast)]
        simp
      · rw [if_neg hlast, if_pos ⟨hpre, Nat.lt_of_not_le hlast⟩, stays_map, stays_cell]
        constructor
        · rintro ⟨hfirst, hsecond⟩ i hi
          match i, hi with
          | 0, _ => exact hfirst
          | 1, _ => exact hsecond
        · intro h
          exact ⟨h 0 (by omega), h 1 (by omega)⟩
    · rw [if_neg hpre, if_neg hstop, if_neg fun h => hpre h.1, stays_map, stays_cell]
      simp

theorem value_readAmlByte {q stop : ℕ} (h : HasElement mem q stop) :
    ∃ v, (readAmlByte q stop).value mem = (some v, q + elementWidth mem q stop) := by
  have hstop : ¬stop ≤ q := Nat.not_le.mpr h.1
  unfold readAmlByte elementWidth readAmlConst
  rw [if_neg hstop, if_neg hstop, value_bind, value_cell]
  by_cases hpre : mem q = 0x0A
  · have hlast := h.2 hpre
    rw [if_pos hpre, if_neg (Nat.not_le.mpr hlast), if_pos ⟨hpre, hlast⟩]
    exact ⟨mem (q + 1), rfl⟩
  · rw [if_neg hpre, if_neg hstop, if_neg fun h => hpre h.1]
    exact ⟨mem q, rfl⟩

theorem value_readAmlByte_none {q stop : ℕ} (h : ¬HasElement mem q stop) :
    ((readAmlByte q stop).value mem).1 = none := by
  unfold readAmlByte readAmlConst
  by_cases hstop : stop ≤ q
  · rw [if_pos hstop, value_pure]
  · rw [if_neg hstop, value_bind, value_cell]
    by_cases hpre : mem q = 0x0A
    · have hlast : stop ≤ q + 1 := by
        by_contra hlt
        exact h ⟨Nat.lt_of_not_le hstop, fun _ => Nat.lt_of_not_le hlt⟩
      rw [if_pos hpre, if_pos hlast, value_pure]
    · exact absurd ⟨Nat.lt_of_not_le hstop, fun heq => absurd heq hpre⟩ h

theorem elementWidth_le (q stop : ℕ) : elementWidth mem q stop ≤ stop - q := by
  unfold elementWidth
  split
  · omega
  · split
    · next h => omega
    · omega

theorem HasElement.width_pos {q stop : ℕ} (h : HasElement mem q stop) :
    0 < elementWidth mem q stop := by
  unfold elementWidth
  rw [if_neg (Nat.not_le.mpr h.1)]
  split <;> omega

theorem HasElement.lead_lt {q stop : ℕ} (h : HasElement mem (firstElement mem q) stop) :
    ¬stop ≤ q := by
  have hfirst := h.1
  unfold firstElement at hfirst
  omega

theorem elementsEnd_eq (q stop : ℕ) : elementsEnd mem q stop
    = firstElement mem q + elementWidth mem (firstElement mem q) stop + elementWidth mem
        (firstElement mem q + elementWidth mem (firstElement mem q) stop) stop := rfl

/-- What the decoder reads is the start of the package, and what stands between its first
element and the end of its second. -/
theorem stays_parse {q stop : ℕ} (h : HasElement mem (firstElement mem q) stop) :
    Stays P (parseS5Package q stop) mem
      ↔ P q ∧ ∀ a, firstElement mem q ≤ a → a < elementsEnd mem q stop → P a := by
  obtain ⟨v, hv⟩ := value_readAmlByte h
  have hsecond : parseSecond stop
      (some v, firstElement mem q + elementWidth mem (firstElement mem q) stop)
      = (fun r' => some ⟨v, r'.1.getD 0⟩) <$> readAmlByte
          (firstElement mem q + elementWidth mem (firstElement mem q) stop) stop := rfl
  have hread : Stays P (readAmlByte (q + (mem q >>> 6).toNat + 2) stop >>= parseSecond stop) mem
      ↔ Stays P (readAmlByte (firstElement mem q) stop >>= parseSecond stop) mem := Iff.rfl
  rw [parseS5Package, if_neg h.lead_lt, stays_bind, stays_cell, value_cell, hread, stays_bind, hv,
    hsecond, stays_map, stays_readAmlByte, stays_readAmlByte]
  refine and_congr_right fun _ => ?_
  rw [elementsEnd_eq]
  generalize elementWidth mem (firstElement mem q) stop = w
  constructor
  · rintro ⟨hfirst, hsecond⟩ a hlow hhigh
    by_cases hin : a < firstElement mem q + w
    · have ha := hfirst (a - firstElement mem q) (by omega)
      rwa [Nat.add_sub_cancel' hlow] at ha
    · have ha := hsecond (a - (firstElement mem q + w)) (by omega)
      rwa [Nat.add_sub_cancel' (Nat.le_of_not_lt hin)] at ha
  · intro hall
    exact ⟨fun i hi => hall _ (by omega) (by omega), fun i hi => hall _ (by omega) (by omega)⟩

theorem elementsEnd_le {q stop : ℕ} (h : HasElement mem (firstElement mem q) stop) :
    firstElement mem q < elementsEnd mem q stop ∧ elementsEnd mem q stop ≤ stop := by
  have hpos := h.width_pos
  have hlt := h.1
  rw [elementsEnd_eq]
  have hfirst := @elementWidth_le mem (firstElement mem q) stop
  have hsecond := @elementWidth_le mem
    (firstElement mem q + elementWidth mem (firstElement mem q) stop) stop
  omega

/-- Without a first element the decoder still reads within the table. -/
theorem stays_parse_none {q stop : ℕ} (h : ¬HasElement mem (firstElement mem q) stop)
    (hP : ∀ a, q ≤ a → a < stop → P a) : Stays P (parseS5Package q stop) mem := by
  have hnone : parseSecond stop ((readAmlByte (firstElement mem q) stop).value mem)
      = pure none := by
    unfold parseSecond
    rw [value_readAmlByte_none h]
  unfold parseS5Package
  split
  · exact stays_pure _
  · next hq =>
      rw [stays_bind, stays_cell, value_cell]
      refine ⟨hP q (Nat.le_refl q) (Nat.lt_of_not_le hq), ?_⟩
      have hread : Stays P (readAmlByte (firstElement mem q) stop >>= parseSecond stop) mem := by
        rw [stays_bind, hnone, stays_readAmlByte]
        refine ⟨fun i hi => ?_, stays_pure _⟩
        have hwidth := @elementWidth_le mem (firstElement mem q) stop
        have hlow : q ≤ firstElement mem q := by
          unfold firstElement
          omega
        exact hP _ (by omega) (by omega)
      exact hread

theorem value_parse_isSome (q stop : ℕ) :
    ((parseS5Package q stop).value mem).isSome
      = decide (HasElement mem (firstElement mem q) stop) := by
  by_cases h : HasElement mem (firstElement mem q) stop
  · obtain ⟨v, hv⟩ := value_readAmlByte h
    have hread : (readAmlByte (q + (mem q >>> 6).toNat + 2) stop).value mem = _ := hv
    rw [parseS5Package, if_neg h.lead_lt, value_bind, value_cell, value_bind, hread,
      decide_eq_true h]
    rfl
  · rw [decide_eq_false h]
    unfold parseS5Package
    split
    · rfl
    · have hread : ((readAmlByte (q + (mem q >>> 6).toNat + 2) stop).value mem).1 = none :=
        value_readAmlByte_none h
      rw [value_bind, value_cell, value_bind, parseSecond, hread]
      rfl

theorem below_parse {q stop : ℕ} (h : stop ≤ physLimit) :
    Stays Below (parseS5Package q stop) mem := by
  by_cases hel : HasElement mem (firstElement mem q) stop
  · have hlead := hel.lead_lt
    have hend := (elementsEnd_le hel).2
    refine (stays_parse hel).mpr ⟨?_, fun a _ ha => ?_⟩
    · show q < physLimit
      omega
    · show a < physLimit
      omega
  · exact stays_parse_none hel fun a _ ha => Nat.lt_of_lt_of_le ha h

/-- What a scan makes of a package: nothing more is looked at, even without a sleep type. -/
def decoded (mem : ℕ → UInt8) (table stop p : ℕ) : Option Found :=
  ((parseS5Package (p + 5) stop).value mem).map (⟨·, table, p⟩)

theorem value_s5At {table stop p : ℕ} (h : table + 2 ≤ p) : (s5At table stop p).value mem
    = if IsS5 mem stop p then some (decoded mem table stop p) else none := by
  have hname : (bytesAt p s5Name).value mem = decide (bytesFrom mem p 4 = s5Name) :=
    value_bytesAt p s5Name
  have hop : (packageOp p stop).value mem = decide (p + 4 < stop ∧ mem (p + 4) = 0x12) := by
    unfold packageOp
    by_cases hlt : p + 4 < stop
    · rw [if_pos hlt, value_map, value_cell]
      simp [hlt, beq_eq_decide]
    · rw [if_neg hlt, value_pure]
      simp [hlt]
  have htwo : (secondBefore table p).value mem = mem (p - 2) := by
    rw [secondBefore, if_pos h, value_cell]
  rw [s5At, value_bind, hname]
  by_cases hs : bytesFrom mem p 4 = s5Name
  · rw [decide_eq_true hs]
    show (rdU8 (p - 1) >>= _).value mem = _
    rw [value_bind, value_bind, value_bind, value_cell, htwo, hop]
    by_cases hintro : mem (p - 1) = 0x08 ∨ mem (p - 1) = 0x5C ∧ mem (p - 2) = 0x08
    · by_cases hpkg : p + 4 < stop ∧ mem (p + 4) = 0x12
      · rw [if_pos (by simpa using ⟨hintro, hpkg⟩), if_pos ⟨hs, hintro, hpkg⟩, value_map]
        rfl
      · rw [if_neg fun hcond => hpkg (by simpa using (Bool.and_eq_true_iff.mp hcond).2),
          if_neg fun his => hpkg his.2.2, value_pure]
    · rw [if_neg fun hcond => hintro (by simpa using (Bool.and_eq_true_iff.mp hcond).1),
        if_neg fun his => hintro his.2.1, value_pure]
  · rw [decide_eq_false hs, if_neg fun his => hs his.1]
    rfl

theorem below_s5At {table stop p : ℕ} (hp : p + 4 ≤ stop) (h : stop ≤ physLimit) :
    Stays Below (s5At table stop p) mem := by
  have hpos : p < physLimit := by omega
  unfold s5At
  rw [stays_bind]
  refine ⟨below_bytesAt (Nat.le_trans hp h), ?_⟩
  split
  · exact stays_pure _
  · rw [stays_bind, stays_cell, stays_bind, stays_bind]
    refine ⟨Nat.lt_of_le_of_lt (Nat.sub_le p 1) hpos, ?_, ?_, ?_⟩
    · unfold secondBefore
      split
      · exact stays_cell.mpr (Nat.lt_of_le_of_lt (Nat.sub_le p 2) hpos)
      · exact stays_pure _
    · unfold packageOp
      split
      · next hlt =>
          rw [stays_map, stays_cell]
          exact Nat.lt_of_lt_of_le hlt h
      · exact stays_pure _
    · split
      · rw [stays_map]
        exact below_parse h
      · exact stays_pure _

/-- The names that the scan of a table looks for. -/
theorem mem_names {table p : ℕ} (h : p ∈ List.range' (table + 36) (tableLen mem table - 39)) :
    table + 36 ≤ p ∧ p + 4 ≤ tableEnd mem table := by
  obtain ⟨i, hi, rfl⟩ := List.mem_range'.mp h
  unfold tableEnd
  omega

theorem below_findS5 (table : ℕ) : Stays Below (findS5 table) mem := by
  unfold findS5
  split
  · next hread =>
      have hhead := (readable_iff.mp hread).2
      rw [stays_bind, value_rd]
      refine ⟨below_rd.mpr (by omega), ?_⟩
      split
      · exact stays_pure _
      · next hlen =>
          have hwhole : readable table (word mem 4 (table + 4)) = true := by
            by_contra hnot
            exact hlen (by simp [hnot])
          rw [stays_map]
          exact stays_findSomeM? fun p hp =>
            below_s5At (mem_names hp).2 (readable_iff.mp hwhole).2
  · exact stays_pure _

/-- The first of some that satisfy `p`, with what `g` says of it. -/
theorem findSome?_of_ite {α β : Type} {f : α → Option β} {p : α → Prop} [DecidablePred p]
    {g : α → β} {xs : List α} (h : ∀ x ∈ xs, f x = if p x then some (g x) else none) :
    xs.findSome? f = (xs.find? fun x => decide (p x)).map g := by
  induction xs with
  | nil => rfl
  | cons x xs ih =>
      rw [List.findSome?_cons, List.find?_cons, h x List.mem_cons_self]
      by_cases hx : p x
      · rw [if_pos hx, decide_eq_true hx]
        rfl
      · rw [if_neg hx, decide_eq_false hx]
        exact ih fun y hy => h y (List.mem_cons_of_mem _ hy)

theorem value_findS5 (table : ℕ) : (findS5 table).value mem
    = (s5Of mem table).bind (decoded mem table (tableEnd mem table)) := by
  unfold findS5 s5Of
  by_cases hwhole : Whole mem table
  · have hcheck : ¬(word mem 4 (table + 4) < 36
        || !readable table (word mem 4 (table + 4))) = true := by
      have hlen : 36 ≤ word mem 4 (table + 4) := hwhole.2.1
      have hall : readable table (word mem 4 (table + 4)) = true := hwhole.2.2
      simp [hall, hlen]
    have hscan : ((List.range' (table + 36) (word mem 4 (table + 4) - 39)).findSomeM?
        (s5At table (table + word mem 4 (table + 4)))).value mem = ((List.range' (table + 36)
          (tableLen mem table - 39)).find? fun p => decide (IsS5 mem (tableEnd mem table) p)).map
            (decoded mem table (tableEnd mem table)) := by
      rw [value_findSomeM?]
      refine findSome?_of_ite fun p hp => value_s5At ?_
      have := (mem_names hp).1
      omega
    rw [if_pos hwhole.1, value_bind, value_rd, if_neg hcheck, value_map, hscan, if_pos hwhole]
    cases (List.range' (table + 36) (tableLen mem table - 39)).find? fun p =>
      decide (IsS5 mem (tableEnd mem table) p) <;> rfl
  · rw [if_neg hwhole]
    by_cases hread : readable table 36 = true
    · have hcheck : (word mem 4 (table + 4) < 36
          || !readable table (word mem 4 (table + 4))) = true := by
        by_contra hnot
        simp only [Bool.or_eq_true, decide_eq_true_eq, Bool.not_eq_true', not_or, not_lt,
          Bool.not_eq_false] at hnot
        exact hwhole ⟨hread, hnot⟩
      rw [if_pos hread, value_bind, value_rd, if_pos hcheck]
      rfl
    · rw [if_neg hread]
      rfl

theorem s5Of_some {table p : ℕ} (h : s5Of mem table = some p) :
    Whole mem table ∧ table + 36 ≤ p ∧ IsS5 mem (tableEnd mem table) p := by
  unfold s5Of at h
  split at h
  · next hwhole =>
      have hs5 := List.find?_some h
      exact ⟨hwhole, (mem_names (List.mem_of_find?_eq_some h)).1, of_decide_eq_true hs5⟩
  · cases h

theorem findS5_some {table : ℕ} {f : Found} : (findS5 table).value mem = some f ↔
    sleepName mem table = some f.name ∧ f.table = table ∧
      (parseS5Package (f.name + 5) (tableEnd mem table)).value mem = some f.s5 := by
  rw [value_findS5, sleepName]
  cases s5Of mem table with
  | none => simp
  | some p =>
      have hsome := @value_parse_isSome mem (p + 5) (tableEnd mem table)
      rw [Option.bind_some, Option.filter_some, ← hsome, decoded]
      constructor
      · intro h
        obtain ⟨s5, hs5, rfl⟩ := Option.map_eq_some_iff.mp h
        exact ⟨by rw [hs5]; rfl, rfl, hs5⟩
      · rintro ⟨hname, htable, hs5⟩
        split at hname
        · cases hname
          rw [hs5, ← htable]
          rfl
        · cases hname

theorem findS5_isSome (table : ℕ) :
    ((findS5 table).value mem).isSome = (sleepName mem table).isSome := by
  rw [value_findS5, sleepName]
  cases s5Of mem table with
  | none => rfl
  | some p =>
      rw [Option.bind_some, Option.filter_some, ← value_parse_isSome, decoded, Option.isSome_map]
      cases ((parseS5Package (p + 5) (tableEnd mem table)).value mem).isSome <;> rfl

/-! ## The search -/

theorem value_walk : (forEachSdt gather (none, [])).value mem
    = ((tables mem facp).getLast?.map fun pa => (parseFadt pa).value mem,
        (tables mem ssdt).take 8) := by
  have hroom : ((none, []) : Option Fadt × List ℕ).2.length ≤ 8 := Nat.zero_le 8
  rw [value_forEachSdt, value_gather _ _ hroom, Option.or_none]
  rfl

theorem value_search : search.value mem = (tables mem facp).getLast?.map fun pa =>
    ((parseFadt pa).value mem, (amlTables mem).findSome? fun table =>
      (findS5 table).value mem) := by
  rw [search, value_bind, value_walk, sleepType, amlTables]
  cases (tables mem facp).getLast? with
  | none => rfl
  | some pa =>
      rw [Option.map_some, value_map, value_findSomeM?, value_dsdt]
      rfl

theorem below_search : Stays Below search mem ↔ ∀ pa ∈ tables mem facp, FadtFits mem pa := by
  have hwalk : Stays Below (forEachSdt gather (none, [])) mem
      ↔ ∀ table ∈ listed mem, bytesFrom mem table 4 = facp → FadtFits mem table :=
    stays_forEachSdt below_gather (none, [])
  have hsleep : ∀ s, Stays Below (sleepType s) mem := by
    intro s
    unfold sleepType
    split
    · exact stays_pure _
    · rw [stays_map]
      exact stays_findSomeM? fun table _ => below_findS5 table
  rw [search, stays_bind, hwalk, and_iff_left (hsleep _)]
  simp [tables]

theorem search_some {fadt : Fadt} {f : Found} (h : search.value mem = some (fadt, some f)) :
    Chosen mem f.table f.name ∧
      (parseS5Package (f.name + 5) (tableEnd mem f.table)).value mem = some f.s5 := by
  rw [value_search] at h
  obtain ⟨pa, hpa, heq⟩ := Option.map_eq_some_iff.mp h
  obtain ⟨before, table, after, htables, hsome, hnone⟩ :=
    List.findSome?_eq_some_iff.mp (Prod.mk.inj heq).2
  obtain ⟨hname, rfl, hs5⟩ := findS5_some.mp hsome
  refine ⟨⟨before, after, htables, fun t ht => ?_, hname⟩, hs5⟩
  have hnot := @findS5_isSome mem t
  rw [hnone t ht] at hnot
  exact Option.isSome_eq_false_iff.mp hnot.symm |> Option.isNone_iff_eq_none.mp

theorem search_chosen {table p : ℕ} (h : Chosen mem table p) :
    ∃ fadt f, search.value mem = some (fadt, some f) ∧ f.table = table ∧ f.name = p := by
  obtain ⟨before, after, htables, hnone, hname⟩ := h
  obtain ⟨pa, hpa⟩ : ∃ pa, (tables mem facp).getLast? = some pa := by
    cases hlast : (tables mem facp).getLast? with
    | none => simp [amlTables, hlast] at htables
    | some pa => exact ⟨pa, rfl⟩
  have hsome := @findS5_isSome mem table
  rw [hname] at hsome
  obtain ⟨f, hf⟩ := Option.isSome_iff_exists.mp hsome
  obtain ⟨hfname, hftable, -⟩ := findS5_some.mp hf
  refine ⟨(parseFadt pa).value mem, f, ?_, hftable, ?_⟩
  · rw [value_search, hpa, Option.map_some]
    refine congrArg (fun s5 => some (_, s5)) (List.findSome?_eq_some_iff.mpr
      ⟨before, table, after, htables, hf, fun t ht => ?_⟩)
    have hnot := @findS5_isSome mem t
    rw [hnone t ht] at hnot
    exact Option.isNone_iff_eq_none.mp (Option.isSome_eq_false_iff.mp hnot)
  · rw [hname] at hfname
    exact (Option.some.inj hfname).symm

/-! ## Safety -/

/-- A sleep type with the name that it belongs to: in a table that can be read, with a
package behind it, and from bytes of that package. -/
structure InPackage (mem : ℕ → UInt8) (f : Found) : Prop where
  whole : Whole mem f.table
  named : f.table + 36 ≤ f.name ∧ IsS5 mem (tableEnd mem f.table) f.name
  decodes : (parseS5Package (f.name + 5) (tableEnd mem f.table)).value mem = some f.s5
  inside : Stays (fun a => f.name + 5 ≤ a ∧ a < f.name + 5 + pkgLength mem (f.name + 5) ∧
    a < tableEnd mem f.table) (parseS5Package (f.name + 5) (tableEnd mem f.table)) mem

/-- The search reads only what is mapped, and takes a sleep type only from its package. -/
structure Safe (mem : ℕ → UInt8) : Prop where
  mapped : ∀ a ∈ search.reads mem, a < physLimit
  inside : ∀ fadt f, search.value mem = some (fadt, some f) → InPackage mem f

/-- The package that follows the name is long enough for the elements that are taken. -/
def PackageHolds (mem : ℕ → UInt8) (table p : ℕ) : Prop :=
  elementsEnd mem (p + 5) (tableEnd mem table) ≤ p + 5 + pkgLength mem (p + 5)

theorem sleepName_some {table p : ℕ} (h : sleepName mem table = some p) :
    s5Of mem table = some p ∧ HasElement mem (firstElement mem (p + 5)) (tableEnd mem table) := by
  obtain ⟨hs5, hel⟩ := Option.filter_eq_some_iff.mp h
  exact ⟨hs5, of_decide_eq_true hel⟩

/-- Inside its package is the same as a package that is long enough. -/
theorem inside_iff {table p : ℕ} (h : sleepName mem table = some p) :
    Stays (fun a => p + 5 ≤ a ∧ a < p + 5 + pkgLength mem (p + 5) ∧ a < tableEnd mem table)
      (parseS5Package (p + 5) (tableEnd mem table)) mem ↔ PackageHolds mem table p := by
  have hel := (sleepName_some h).2
  obtain ⟨hlt, hend⟩ := elementsEnd_le hel
  have hfirst : p + 5 ≤ firstElement mem (p + 5) := by
    unfold firstElement
    omega
  rw [stays_parse hel, PackageHolds]
  constructor
  · rintro ⟨-, hall⟩
    have hlast := hall (elementsEnd mem (p + 5) (tableEnd mem table) - 1) (by omega) (by omega)
    omega
  · intro hle
    exact ⟨by omega, fun a hlow hhigh => by omega⟩

/-- The search is safe exactly on the memories whose FADTs lie below the limit as far as they
are read, and where the package that the sleep type is taken from holds its two elements. -/
theorem search_safe_iff (mem : ℕ → UInt8) : Safe mem ↔
    (∀ pa ∈ tables mem facp, FadtFits mem pa) ∧
      ∀ table p, Chosen mem table p → PackageHolds mem table p := by
  constructor
  · rintro ⟨hmapped, hinside⟩
    refine ⟨below_search.mp hmapped, fun table p hchosen => ?_⟩
    obtain ⟨fadt, f, hsearch, rfl, rfl⟩ := search_chosen hchosen
    obtain ⟨-, -, -, -, hname⟩ := hchosen
    exact (inside_iff hname).mp (hinside fadt f hsearch).inside
  · rintro ⟨hfadt, hholds⟩
    refine ⟨below_search.mpr hfadt, fun fadt f hsearch => ?_⟩
    obtain ⟨hchosen, hs5⟩ := search_some hsearch
    have hholds := hholds f.table f.name hchosen
    obtain ⟨-, -, -, -, hname⟩ := hchosen
    obtain ⟨hwhole, hlow, his⟩ := s5Of_some (sleepName_some hname).1
    exact ⟨hwhole, ⟨hlow, his⟩, hs5, (inside_iff hname).mpr hholds⟩

/-- An RSDP with an RSDT of one entry, and a FADT that only its header keeps below the
limit. -/
def edgeMemory (a : ℕ) : UInt8 :=
  ([(0xE0000, 0x52), (0xE0001, 0x53), (0xE0002, 0x44), (0xE0003, 0x20), (0xE0004, 0x50),
    (0xE0005, 0x54), (0xE0006, 0x52), (0xE0007, 0x20), (0xE0008, 209), (0xE0011, 0x10),
    (0x1004, 40), (0x1024, 0xDC), (0x1025, 0xFF), (0x1026, 0xFF), (0x1027, 0xFF),
    (0xFFFFFFDC, 0x46), (0xFFFFFFDD, 0x41), (0xFFFFFFDE, 0x43), (0xFFFFFFDF, 0x50)].lookup a).getD 0

/-- It is read past the limit. -/
theorem fadt_past_limit : ¬Safe edgeMemory := by
  have hlisted : 0xFFFFFFDC ∈ tables edgeMemory facp := by decide +kernel
  intro hsafe
  have hfits := ((search_safe_iff edgeMemory).mp hsafe).1 _ hlisted
  exact absurd hfits.fields (by decide)

end Acpi

end TablesOS
