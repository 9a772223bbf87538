import TablesOS.Proofs.BrowserRows
import TablesOS.Proofs.Parsing

/-!
# The next unique value is a new one

One more than a number, on its digits: a carry that has come to place `i` is
worth the place behind it, and a borrow likewise, so the loops are followed by
what the digits are worth and not by what they look like. What the builder
offers is one more than the greatest value of the column, and the greatest by
the comparison of values is the greatest number.
-/

namespace TablesOS

open Numeral

/-! ## One more and one less -/

namespace BigUint

theorem succ_digit {d : Digit} (h : d ≠ 9) : (d + 1).val = d.val + 1 := by
  revert d
  decide

theorem pred_digit {d : Digit} (h : d ≠ 0) : (d - 1).val + 1 = d.val := by
  revert d
  decide

theorem getElem?_of_lt {ds : List Digit} {i : ℕ} (h : i < ds.length) :
    ds[i]? = some (ds.getD i 0) := by
  rw [List.getElem?_eq_getElem h, List.getD_eq_getElem _ _ h]

/-- A carry at place `i` is worth the place behind it. -/
theorem value_carry (i : ℕ) : ∀ ds : List Digit, i ≤ ds.length →
    value (carry i ds) = value ds + 10 ^ (ds.length - i) := by
  induction i with
  | zero =>
      intro ds _
      rw [carry, value_cons, Nat.sub_zero]
      show 1 * _ + _ = _
      omega
  | succ i ih =>
      intro ds hi
      have hset := fun x => value_set x ds i _ (getElem?_of_lt hi)
      have hplace : 10 ^ (ds.length - i) = 10 * 10 ^ (ds.length - (i + 1)) := by
        rw [← pow_succ', show ds.length - (i + 1) + 1 = ds.length - i by omega]
      rw [carry]
      split
      · next hd =>
          have h := hset 0
          rw [hd] at h
          have h : value (ds.set i 0) + 9 * 10 ^ (ds.length - (i + 1)) =
            value ds + 0 * 10 ^ (ds.length - (i + 1)) := h
          rw [ih _ (by rw [List.length_set]; omega), List.length_set]
          omega
      · next hd =>
          have h := hset (ds.getD i 0 + 1)
          rw [succ_digit hd, Nat.add_mul] at h
          omega

/-- A borrow at place `i` is worth the place behind it, as long as there is
something to take it from. -/
theorem value_borrow (i : ℕ) : ∀ ds : List Digit, i ≤ ds.length → value (ds.take i) ≠ 0 →
    value (borrow i ds) + 10 ^ (ds.length - i) = value ds := by
  induction i with
  | zero => exact fun ds _ h => absurd rfl h
  | succ i ih =>
      intro ds hi hne
      have hset := fun x => value_set x ds i _ (getElem?_of_lt hi)
      have hplace : 10 ^ (ds.length - i) = 10 * 10 ^ (ds.length - (i + 1)) := by
        rw [← pow_succ', show ds.length - (i + 1) + 1 = ds.length - i by omega]
      rw [borrow]
      split
      · next hd =>
          have h := hset 9
          rw [hd] at h
          have h : value (ds.set i 9) + 0 * 10 ^ (ds.length - (i + 1)) =
            value ds + 9 * 10 ^ (ds.length - (i + 1)) := h
          have hfront : value ((ds.set i 9).take i) ≠ 0 := by
            intro h0
            rw [List.take_set_of_le (Nat.le_refl i)] at h0
            refine hne ?_
            rw [List.take_add_one, getElem?_of_lt hi, hd, value, List.foldl_append, foldl_value]
            show (value (ds.take i)) * 10 + 0 = 0
            omega
          have h' := ih (ds.set i 9) (by rw [List.length_set]; omega) hfront
          rw [List.length_set] at h'
          omega
      · next hd =>
          have h := hset (ds.getD i 0 - 1)
          have hdigit := pred_digit hd
          rw [← hdigit, Nat.add_mul] at h
          omega

theorem toNat_succ (v : BigUint) : v.succ.toNat = v.toNat + 1 := by
  rw [succ, toNat_normalize, value_carry _ _ (Nat.le_refl _), Nat.sub_self]
  rfl

theorem toNat_pred (v : BigUint) : v.pred.toNat = v.toNat - 1 := by
  rw [pred, toNat_normalize]
  by_cases h0 : v.toNat = 0
  · have hzero : v = .zero := toNat_inj h0
    rw [hzero]
    rfl
  · have h := value_borrow _ v.digits (Nat.le_refl _) (by rw [List.take_length]; exact h0)
    rw [Nat.sub_self, pow_zero] at h
    show _ = value v.digits - 1
    omega

end BigUint

namespace BigInt

theorem toInt_succ (v : BigInt) : v.succ.toInt = v.toInt + 1 := by
  rw [succ]
  split
  · next h =>
      have hpos := mag_pos h
      rw [toInt_fromParts, BigUint.toNat_pred, toInt, if_pos h]
      show -((v.mag.toNat - 1 : ℕ) : ℤ) = _
      omega
  · next h =>
      rw [toInt_fromParts, BigUint.toNat_succ, toInt, if_neg h]
      show ((v.mag.toNat + 1 : ℕ) : ℤ) = _
      push_cast
      rfl

end BigInt

/-! ## The greatest value of a column -/

namespace Views

open Asking Store Journal

variable {led : Ledger RowId} {pg : Pager Disk}

theorem greater_max (best : Option Value) (v : Value) : ∃ m, greater best v = some m ∧
    (m = v ∨ best = some m) ∧ v.cmp m ≠ .gt ∧ ∀ w, best = some w → w.cmp m ≠ .gt := by
  have hself : ∀ x : Value, x.cmp x ≠ .gt := fun x => by
    rw [(Value.cmp_eq x x).mpr rfl]
    exact nofun
  cases best with
  | none => exact ⟨v, rfl, Or.inl rfl, hself v, fun w hw => by cases hw⟩
  | some w =>
      unfold greater
      by_cases hgt : w.cmp v = .gt
      · refine ⟨w, if_pos hgt, Or.inr rfl, ?_, ?_⟩
        · rw [Value.cmp_swap w v, hgt]
          exact nofun
        · rintro x ⟨⟩
          exact hself w
      · refine ⟨v, if_neg hgt, Or.inl rfl, hself v, ?_⟩
        rintro x ⟨⟩
        exact hgt

/-- The maximum of an iterator: one of its values, and none is greater. -/
theorem foldl_greater (vs : List Value) : ∀ best : Option Value,
    (vs.foldl greater best = none ∧ vs = [] ∧ best = none) ∨
    ∃ m, vs.foldl greater best = some m ∧ (m ∈ vs ∨ best = some m) ∧
      (∀ w ∈ vs, w.cmp m ≠ .gt) ∧ ∀ w, best = some w → w.cmp m ≠ .gt := by
  induction vs with
  | nil =>
      intro best
      cases best with
      | none => exact Or.inl ⟨rfl, rfl, rfl⟩
      | some m =>
          refine Or.inr ⟨m, rfl, Or.inr rfl, fun w hw => absurd hw List.not_mem_nil, ?_⟩
          rintro w ⟨⟩
          rw [(Value.cmp_eq m m).mpr rfl]
          exact nofun
  | cons v vs ih =>
      intro best
      obtain ⟨m, hm, hfrom, hv, hbest⟩ := greater_max best v
      rw [List.foldl_cons, hm]
      rcases ih (some m) with ⟨-, -, hnone⟩ | ⟨n, hn, hin, hall, hle⟩
      · cases hnone
      · have hmn := hle m rfl
        refine Or.inr ⟨n, hn, ?_, ?_, fun w hw => Value.cmp_trans (hbest w hw) hmn⟩
        · rcases hin with hin | hin
          · exact Or.inl (List.mem_cons_of_mem _ hin)
          · cases hin
            rcases hfrom with rfl | hbest
            · exact Or.inl List.mem_cons_self
            · exact Or.inr hbest
        · intro w hw
          rcases List.mem_cons.mp hw with rfl | hw
          · exact Value.cmp_trans hv hmn
          · exact hall w hw

/-- Above every value of the column. -/
def Above (t : TableState RowId) (i : Nat) (v : Value) : Prop :=
  ∀ r ∈ t.rows, ∀ w, cellAt r.2 i = some w → w.meaning.Less v.meaning ∧ w.cmp v = .lt

/-- A value of the column's type that lies above the greatest one. -/
theorem above_max {t : TableState RowId} {i : Nat} {ty : Ty} {m v : Value}
    (htypes : ∀ r ∈ t.rows, ∀ w, cellAt r.2 i = some w → w.typeOf = ty)
    (hmax : ∀ r ∈ t.rows, ∀ w, cellAt r.2 i = some w → w.cmp m ≠ .gt) (hm : m.typeOf = ty)
    (hv : v.typeOf = ty) (hless : m.meaning.Less v.meaning) : Above t i v := by
  intro r hr w hw
  have hwm := Value.ordered_of_typeOf w m v ((htypes r hr w hw).trans hm.symm)
    (hm.trans hv.symm)
  have hwv := Value.ordered_of_typeOf w v v ((htypes r hr w hw).trans hv.symm) rfl
  have hmv : m.cmp v = .lt := (Value.ordered_of_typeOf m v v (hm.trans hv.symm) rfl).lt.mpr hless
  have hle : w.cmp v ≠ .gt := hwm.trans (hmax r hr w hw) (by rw [hmv]; exact nofun)
  have hlt : w.cmp v = .lt := by
    cases hc : w.cmp v with
    | lt => rfl
    | gt => exact absurd hc hle
    | eq =>
        -- then `m` would be below `w`
        have hvw : v = w := ((Value.cmp_eq w v).mp hc).symm
        have hgt : w.cmp m = .gt := by
          rw [Value.cmp_swap m w, ← hvw, hmv]
          rfl
        exact absurd hgt (hmax r hr w hw)
  exact ⟨hwv.lt.mp hlt, hlt⟩

/-- What the field builder offers is the canonical text of a value of the column's
type that lies above every value of the column. -/
theorem next_value_above {d : Disk} (hq : d.Quiet) (h : Reachable d led pg) :
    (∀ v : BigUint, v.succ.toNat = v.toNat + 1 ∧ v.pred.toNat = v.toNat - 1) ∧
    (∀ v : BigInt, v.succ.toInt = v.toInt + 1) ∧
    ∃ db, Mirrored led pg db ∧ ∀ t ∈ db, ∀ i c, t.schema.columns[i]? = some c →
      c.ty = .integer ∨ c.ty = .unsignedInteger →
        ∃ v pg', nextUniqueValue t.schema.name i c.ty pg = .ok (some v.display, pg') ∧
          Value.parse c.ty v.display = .ok v ∧ Above t i v := by
  refine ⟨fun v => ⟨v.toNat_succ, v.toNat_pred⟩, fun v => v.toInt_succ, ?_⟩
  obtain ⟨db, hdb⟩ := h.mirrored hq
  refine ⟨db, hdb, fun t ht i c hc hty => ?_⟩
  have hok := hdb.intact.tables t ht
  have htypes : ∀ r ∈ t.rows, ∀ w, cellAt r.2 i = some w → w.typeOf = c.ty := by
    intro r hr w hw
    rw [← Database.cell_at hok.columns hc] at hw
    exact hok.types r hr c (List.mem_of_getElem? hc) w hw
  have hmem : ∀ w, w ∈ t.rows.filterMap (fun r => cellAt r.2 i) ↔
      ∃ r ∈ t.rows, cellAt r.2 i = some w := fun w => List.mem_filterMap
  -- one scan, and a value that is found from its rows
  suffices hmain : ∃ v : Value, v.typeOf = c.ty ∧ Above t i v ∧
      textAbove ((t.rows.filterMap fun r => cellAt r.2 i).foldl greater none) = v.display by
    obtain ⟨v, hvty, habove, hdisplay⟩ := hmain
    have hseen : Sees led db (nextUniqueValue t.schema.name i c.ty) (some v.display) := by
      unfold nextUniqueValue
      rw [if_neg (by rcases hty with h | h <;> simp [h])]
      refine (sees_scan hdb.intact ht).bind ?_
      exact hdisplay ▸ sees_pure _
    obtain ⟨pg', hrun, -⟩ := hseen pg hdb
    exact ⟨v, pg', hrun, hvty ▸ Value.parse_display v, habove⟩
  rcases foldl_greater (t.rows.filterMap fun r => cellAt r.2 i) none with
    ⟨hmax, hnil, -⟩ | ⟨m, hmax, hin, hall, -⟩
  · have hnone : ∀ v : Value, Above t i v := fun v r hr w hw =>
      absurd ((hmem w).mpr ⟨r, hr, hw⟩) (by rw [hnil]; exact List.not_mem_nil)
    rw [hmax]
    rcases hty with hty | hty
    · exact ⟨.integer (.fromParts false (.normalize [1])), hty.symm, hnone _, rfl⟩
    · exact ⟨.unsigned (.normalize [1]), hty.symm, hnone _, rfl⟩
  · rw [hmax]
    have hin : m ∈ t.rows.filterMap fun r => cellAt r.2 i := hin.resolve_right nofun
    obtain ⟨r, hr, hrm⟩ := (hmem m).mp hin
    have hmty := htypes r hr m hrm
    have hbelow : ∀ r ∈ t.rows, ∀ w, cellAt r.2 i = some w → w.cmp m ≠ .gt := fun r hr w hw =>
      hall w ((hmem w).mpr ⟨r, hr, hw⟩)
    have habove := fun v hv => @above_max t i c.ty m v htypes hbelow hmty hv
    cases m with
    | integer n =>
        refine ⟨.integer n.succ, hmty, habove _ hmty ?_, rfl⟩
        show n.toInt < n.succ.toInt
        rw [n.toInt_succ]
        exact Int.lt_succ n.toInt
    | unsigned n =>
        refine ⟨.unsigned n.succ, hmty, habove _ hmty ?_, rfl⟩
        show n.toNat < n.succ.toNat
        rw [n.toNat_succ]
        exact Nat.lt_succ_self n.toNat
    | _ => rcases hty with hty | hty <;> rw [hty] at hmty <;> cases hmty

/-- A table of one key. -/
def keys : Table := ⟨"keys", [⟨"id", .integer, true, true, none⟩], [], []⟩

/-- A number below zero. -/
def minusOne : Value := .integer (.fromParts true (.normalize [1]))

theorem keys_room :
    nchunks (Codec.encodeRow [some minusOne]) + 1 + Database.catalogPages
      [(⟨keys, [], []⟩ : TableState RowId)] + Database.pages
        [(⟨keys, [], []⟩ : TableState RowId)] ≤ 2100 - firstDataPage := by
  decide

theorem noKeys_seated : ∃ pg, Seated wideDisk 2100 [] pg [⟨keys, [], []⟩] ∧
    pg.sb.generation ≤ 3 := by
  obtain ⟨pg, -, h, hgen⟩ := wideDisk_fresh
  obtain ⟨-, h₁⟩ := @Seated.createTable _ _ _ _ _ h "keys" (by decide) (by simp) (by decide)
  have hgen₁ := @Seated.tick _ _ _ _ _ h (.createTable "keys") trivial 1 hgen
  obtain ⟨-, h₂⟩ := @Seated.addColumn _ _ _ _ _ h₁ _ (List.mem_singleton_self _)
    ⟨"id", .integer, true, true, none⟩ rfl rfl rfl (by decide) _ rfl
  exact ⟨_, h₂, @Seated.tick _ _ _ _ _ h₁ (.addColumn "keys" _) trivial 2 hgen₁⟩

theorem keys_seated : ∃ key pg, Seated wideDisk 2100 [("keys", key)] pg
    [⟨keys, [(key, [some minusOne])], [key]⟩] := by
  obtain ⟨pg, h, -⟩ := noKeys_seated
  obtain ⟨key, -, -, h₃⟩ := @Seated.insert _ _ _ _ _ h _ (List.mem_singleton_self _)
    [some minusOne] rfl keys_room
  exact ⟨key, _, h₃⟩

theorem next_value_above_minusOne : ∃ (pg pg' : Pager Disk) (v : Value),
    nextUniqueValue "keys" 0 .integer pg = .ok (some v.display, pg') ∧
      Value.parse .integer v.display = .ok v ∧ minusOne.cmp v = .lt := by
  obtain ⟨key, pg, h⟩ := keys_seated
  obtain ⟨-, -, db, hdb, hall⟩ := next_value_above wideDisk_quiet h.reach
  obtain ⟨t, ht, hname, hrows⟩ := hdb.of_scan (h.mirrored.scan (List.mem_singleton_self _))
  have hschema : t.schema = keys := by
    have hnew := hdb.shown ht
    rw [hname, h.mirrored.shown (List.mem_singleton_self _)] at hnew
    injection hnew with hnew
    exact hnew.symm
  obtain ⟨v, pg', hrun, hparse, habove⟩ := hall t ht 0 ⟨"id", .integer, true, true, none⟩
    (hschema ▸ rfl) (Or.inl rfl)
  rw [show t.schema.name = "keys" from hname] at hrun
  refine ⟨pg, pg', v, hrun, hparse, (habove (key, [some minusOne]) ?_ minusOne rfl).2⟩
  rw [hrows]
  exact List.mem_singleton_self _

end Views

end TablesOS
