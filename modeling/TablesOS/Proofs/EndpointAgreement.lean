import TablesOS.Kernel.EndpointContexts
import TablesOS.Proofs.Configurations
import Mathlib.Data.List.Induction
import Mathlib.Data.List.Nodup
import Mathlib.Data.Nat.Bitwise

/-!
# Endpoint contexts and endpoint records

The driver and the controller each keep a table of a device's endpoints, and
`configure_endpoints` fills in both in one loop: a context in the input buffer
and a record in a list. A context has a place, the endpoint's index; a record
has only its turn. So the tables agree exactly if the endpoints of the
interface have indices of their own, none of them 0 or 1, which are the places
of the slot context and of the control endpoint. The parser takes the address
from the device as it is, and nothing after it looks.

The loop is followed from its end: what is known after some endpoints is known
after one more, an entry keeping what it holds until an endpoint of the same
index comes.
-/

namespace TablesOS

namespace Usb

/-! ## Words and entries -/

theorem slotSpeed_bumpEntries (dw0 : UInt32) (maxDci : Byte) :
    slotSpeed (bumpEntries dw0 maxDci) = slotSpeed dw0 := by
  have hmask : (~~~(field 0x1F 27)).toNat = 2 ^ 27 - 1 := by decide
  have hnibble : (0xF : UInt32).toNat = 2 ^ 4 - 1 := by decide
  apply UInt32.toNat_inj.mp
  simp only [slotSpeed, bumpEntries, field, UInt32.toNat_and, UInt32.toNat_or,
    UInt32.toNat_shiftRight, UInt32.toNat_shiftLeft] at hmask ⊢
  rw [hmask, hnibble]
  apply Nat.eq_of_testBit_eq
  intro i
  simp only [Nat.and_two_pow_sub_one_eq_mod, Nat.testBit_mod_two_pow, Nat.testBit_or,
    Nat.testBit_shiftLeft, Nat.testBit_shiftRight]
  by_cases hi : i < 4
  · have hlow : 20 + i < 27 := by omega
    have hhigh : ¬ 27 ≤ 20 + i := by omega
    simp [hi, hlow, hhigh]
  · simp [hi]

/-- A `u64` is its two halves. -/
theorem halves (v : UInt64) :
    v.toUInt32.toUInt64 ||| ((v >>> 32).toUInt32.toUInt64 <<< 32) = v := by
  have hv := v.toNat_lt
  have h32 : (32 : UInt64).toNat % 64 = 32 := by decide
  apply UInt64.toNat_inj.mp
  apply Nat.eq_of_testBit_eq
  intro i
  simp only [UInt64.toNat_or, UInt64.toNat_shiftLeft, UInt64.toNat_shiftRight,
    UInt32.toNat_toUInt64, UInt64.toNat_toUInt32, h32, Nat.testBit_or, Nat.testBit_mod_two_pow,
    Nat.testBit_shiftLeft, Nat.testBit_shiftRight]
  by_cases hlow : i < 32
  · have hhigh : ¬ 32 ≤ i := by omega
    simp [hlow, hhigh]
  · have hhigh : 32 ≤ i := by omega
    have hback : 32 + (i - 32) = i := by omega
    by_cases hword : i < 64
    · have hrest : i - 32 < 32 := by omega
      simp [hlow, hhigh, hback, hword, hrest]
    · have hzero : v.toNat.testBit i = false :=
        Nat.testBit_lt_two_pow (Nat.lt_of_lt_of_le hv (Nat.pow_le_pow_right (by decide) (by omega)))
      simp [hlow, hword, hzero]

namespace InputContext

variable {csz64 : Bool} {c : InputContext} {entry entry' k k' : Nat}

theorem entryWords_ge : 8 ≤ entryWords csz64 := by
  cases csz64 <;> decide

theorem wordIndex_inj (hk : k < entryWords csz64) (hk' : k' < entryWords csz64)
    (h : wordIndex csz64 entry k = wordIndex csz64 entry' k') : entry = entry' ∧ k = k' := by
  have hpos : 0 < entryWords csz64 := Nat.lt_of_le_of_lt (Nat.zero_le k) hk
  have hentry := congrArg (· / entryWords csz64) h
  simp only [wordIndex, Nat.mul_add_div hpos, Nat.div_eq_of_lt hk, Nat.div_eq_of_lt hk',
    Nat.add_zero] at hentry
  subst hentry
  exact ⟨rfl, Nat.add_left_cancel h⟩

@[simp] theorem dword_write_self (v : UInt32) :
    (c.write csz64 entry k v).dword csz64 entry k = v :=
  Function.update_self ..

theorem dword_write_of_ne (v : UInt32) (hk : k < entryWords csz64) (hk' : k' < entryWords csz64)
    (h : entry' ≠ entry ∨ k' ≠ k) :
    (c.write csz64 entry k v).dword csz64 entry' k' = c.dword csz64 entry' k' := by
  refine Function.update_of_ne (fun heq => ?_) _ _
  obtain ⟨he, hw⟩ := wordIndex_inj hk' hk heq
  exact h.elim (· he) (· hw)

/-- A write to one entry leaves the others alone. -/
theorem dword_write_entry (v : UInt32) (hk : k < entryWords csz64) (hk' : k' < entryWords csz64)
    (h : entry' ≠ entry) :
    (c.write csz64 entry k v).dword csz64 entry' k' = c.dword csz64 entry' k' :=
  dword_write_of_ne v hk hk' (.inl h)

theorem dword_write64_entry (v : UInt64) (hk : k + 1 < entryWords csz64)
    (hk' : k' < entryWords csz64) (h : entry' ≠ entry) :
    (c.write64 csz64 entry k v).dword csz64 entry' k' = c.dword csz64 entry' k' := by
  rw [write64, dword_write_entry _ hk hk' h, dword_write_entry _ (by omega) hk' h]

theorem dword_zeroEntry (hk' : k' < entryWords csz64) (h : entry' ≠ entry) :
    (c.zeroEntry csz64 entry).dword csz64 entry' k' = c.dword csz64 entry' k' := by
  have hloop : ∀ (ks : List Nat) (c : InputContext), (∀ k ∈ ks, k < entryWords csz64) →
      (ks.foldl (fun c k => c.write csz64 entry k 0) c).dword csz64 entry' k' =
        c.dword csz64 entry' k' := by
    intro ks
    induction ks with
    | nil =>
        intro c _
        rfl
    | cons k ks ih =>
        intro c hks
        rw [List.foldl_cons, ih _ fun k hk => hks k (List.mem_cons_of_mem _ hk),
          dword_write_entry 0 (hks k List.mem_cons_self) hk' h]
  exact hloop _ c fun k hk => List.mem_range.mp hk

theorem qword_write64 (v : UInt64) (hk : k + 1 < entryWords csz64) :
    (c.write64 csz64 entry k v).qword csz64 entry k = v := by
  rw [qword, write64, dword_write_self,
    dword_write_of_ne _ hk (by omega) (.inr (Nat.ne_of_lt (Nat.lt_succ_self k))),
    dword_write_self, halves]

theorem qword_congr {c' : InputContext}
    (h : ∀ k < entryWords csz64, c'.dword csz64 entry k = c.dword csz64 entry k)
    (hk : k + 1 < entryWords csz64) : c'.qword csz64 entry k = c.qword csz64 entry k := by
  rw [qword, qword, h k (by omega), h (k + 1) hk]

end InputContext

open InputContext

/-! ## One endpoint -/

variable {csz64 : Bool} {speed : Byte} {alloc : Nat → UInt64}

/-- An endpoint's context leaves the other entries alone. -/
theorem fillEntry_frame {ep : Endpoint} {epType : Byte} {tr : UInt64} {entry entry' k : Nat}
    {c : InputContext} (h : entry' ≠ entry) (hk : k < entryWords csz64) :
    (fillEntry csz64 speed ep epType tr entry c).dword csz64 entry' k =
      c.dword csz64 entry' k := by
  have hwords := @entryWords_ge csz64
  rw [fillEntry, dword_write_entry _ (by omega) hk h, dword_write64_entry _ (by omega) hk h,
    dword_write_entry _ (by omega) hk h, dword_write_entry _ (by omega) hk h,
    dword_zeroEntry hk h]

/-- The context names the ring. -/
theorem fillEntry_ring (ep : Endpoint) (epType : Byte) (tr : UInt64) (entry : Nat)
    (c : InputContext) :
    (fillEntry csz64 speed ep epType tr entry c).qword csz64 entry 2 = tr ||| 1 := by
  have hwords := @entryWords_ge csz64
  have hlast (c : InputContext) (v : UInt32) (k : Nat) (hk : k < 4) :
      (c.write csz64 entry 4 v).dword csz64 entry k = c.dword csz64 entry k :=
    dword_write_of_ne v (by omega) (by omega) (.inr (Nat.ne_of_lt hk))
  rw [fillEntry, qword, hlast _ _ 2 (by decide), hlast _ _ 3 (by decide)]
  exact qword_write64 _ (by omega)

/-- What the loop has made of `before` when it has been through `eps`. -/
structure Filled (csz64 : Bool) (before : InputContext) (eps : List Endpoint) (f : Filling) :
    Prop where
  records : f.newEndpoints.map (·.toEndpointState) = eps.filterMap setUp
  flags : ∀ i < 32,
    f.addFlags.toNat.testBit i = true ↔ i = 0 ∨ ∃ r ∈ f.newEndpoints, r.dci.toNat = i
  frame : ∀ entry, (∀ r ∈ f.newEndpoints, r.dci.toNat + 1 ≠ entry) →
    ∀ k < entryWords csz64, f.inputCtx.dword csz64 entry k = before.dword csz64 entry k
  rings : (f.newEndpoints.map (·.dci.toNat)).Nodup →
    ∀ r ∈ f.newEndpoints, f.inputCtx.qword csz64 (r.dci.toNat + 1) 2 = r.trRing ||| 1

theorem Filled.start (before : InputContext) : Filled csz64 before [] (.start before) where
  records := rfl
  flags := by
    intro i _
    have hone : (Filling.start before).addFlags.toNat = 2 ^ 0 := rfl
    rw [hone, Nat.testBit_two_pow]
    simp [Filling.start, eq_comm]
  frame := fun _ _ _ _ => rfl
  rings := fun _ r hr => absurd hr List.not_mem_nil

theorem setUp_eq_none {ep : Endpoint} (h : xhciEpType ep.transferType ep.directionIn = 0) :
    setUp ep = none := by
  rw [setUp, if_pos h]

theorem setUp_eq_some {ep : Endpoint} (h : xhciEpType ep.transferType ep.directionIn ≠ 0) :
    setUp ep = some ⟨ep.address, ep.dci, ep.transferType, ep.maxPacketSize, ep.directionIn⟩ := by
  rw [setUp, if_neg h]
  rfl

theorem testBit_field_one {d : Byte} (hd : d.toNat < 32) (i : Nat) :
    (field 1 d.toUInt32).toNat.testBit i = true ↔ d.toNat = i := by
  have hshift : d.toUInt32.toNat % 32 = d.toNat := by
    rw [UInt8.toNat_toUInt32]
    exact Nat.mod_eq_of_lt hd
  rw [field, UInt32.toNat_shiftLeft, hshift, UInt32.toNat_one, Nat.one_shiftLeft,
    Nat.mod_eq_of_lt (Nat.pow_lt_pow_right (by decide) hd), Nat.testBit_two_pow]
  exact decide_eq_true_iff

/-- The loop takes one more endpoint. -/
theorem Filled.step {before : InputContext} {eps : List Endpoint} {f : Filling}
    (h : Filled csz64 before eps f) {ep : Endpoint} (hdci : ep.dci.toNat < 32) :
    Filled csz64 before (eps ++ [ep]) (fillEndpoint csz64 speed alloc f ep) := by
  rw [fillEndpoint]
  by_cases htype : xhciEpType ep.transferType ep.directionIn = 0
  · simp only [if_pos htype]
    refine ⟨?_, h.flags, h.frame, h.rings⟩
    rw [List.filterMap_append, List.filterMap_cons_none (setUp_eq_none htype), h.records]
    exact (List.append_nil _).symm
  · simp only [if_neg htype]
    refine ⟨?_, ?_, ?_, ?_⟩
    · simp only [List.filterMap_append, List.map_append, h.records,
        List.filterMap_cons_some (setUp_eq_some htype)]
      rfl
    · intro i hi
      simp only [UInt32.toNat_or, Nat.testBit_or, Bool.or_eq_true, h.flags i hi,
        testBit_field_one hdci i, List.mem_append, List.mem_singleton, or_and_right, exists_or,
        exists_eq_left, or_assoc]
    · intro entry hne k hk
      have hnew : entry ≠ ep.dci.toNat + 1 :=
        (hne _ (List.mem_append_right _ (List.mem_singleton_self _))).symm
      rw [fillEntry_frame hnew hk]
      exact h.frame entry (fun r hr => hne r (List.mem_append_left _ hr)) k hk
    · intro hnodup r hr
      rw [List.map_append, List.nodup_append] at hnodup
      obtain ⟨hold, -, hapart⟩ := hnodup
      rcases List.mem_append.mp hr with hr | hr
      · have hwords := @entryWords_ge csz64
        have hne : r.dci.toNat + 1 ≠ ep.dci.toNat + 1 := by
          intro heq
          exact hapart _ (List.mem_map_of_mem hr) _ (List.mem_singleton_self _)
            (Nat.succ.inj heq)
        rw [← h.rings hold r hr]
        exact qword_congr (fun k hk => fillEntry_frame hne hk) (by omega)
      · rw [List.mem_singleton.mp hr]
        exact fillEntry_ring ..

theorem filled {before : InputContext} {eps : List Endpoint} (h : ∀ ep ∈ eps, ep.dci.toNat < 32) :
    Filled csz64 before eps (eps.foldl (fillEndpoint csz64 speed alloc) (.start before)) := by
  induction eps using List.reverseRecOn with
  | nil => exact Filled.start before
  | append_singleton eps ep ih =>
      rw [List.foldl_append]
      exact (ih fun e he => h e (List.mem_append_left _ he)).step
        (h ep (List.mem_append_right _ (List.mem_singleton_self _)))

/-! ## The property -/

/-- The endpoints that are given a context. -/
def accepted (it : Interface) : List Endpoint :=
  it.endpoints.filter fun ep => xhciEpType ep.transferType ep.directionIn ≠ 0

/-- The add flag of context `i` is set. -/
def addFlag (c : InputContext) (csz64 : Bool) (i : Nat) : Prop :=
  (c.dword csz64 0 1).toNat.testBit i = true

instance (c : InputContext) (csz64 : Bool) (i : Nat) : Decidable (addFlag c csz64 i) :=
  inferInstanceAs (Decidable (_ = _))

/-- The saved records are one for each endpoint context of the input context,
with its ring. -/
structure Corresponds (csz64 : Bool) (res : SlotContexts) : Prop where
  apart : (res.endpoints.map (·.dci.toNat)).Nodup
  flagged : ∀ i, (∃ r ∈ res.endpoints, r.dci.toNat = i) ↔
    (2 ≤ i ∧ i < 32) ∧ addFlag res.inputCtx csz64 i
  rings : ∀ r ∈ res.endpoints, res.inputCtx.qword csz64 (r.dci.toNat + 1) 2 = r.trRing ||| 1

/-- The input context that was submitted, and the records kept of it. -/
structure ContextsAgree (csz64 : Bool) (it : Interface) (cfgEpCc : Byte)
    (before after : SlotContexts) : Prop where
  ep0 : ∀ k < entryWords csz64,
    after.inputCtx.dword csz64 2 k = before.inputCtx.dword csz64 2 k
  speed : slotSpeed (after.inputCtx.dword csz64 1 0) = slotSpeed (before.inputCtx.dword csz64 1 0)
  port : slotPort (after.inputCtx.dword csz64 1 1) = slotPort (before.inputCtx.dword csz64 1 1)
  flags : ∀ i < 32, addFlag after.inputCtx csz64 i ↔
    i = 0 ∨ 2 ≤ i ∧ ∃ ep ∈ accepted it, ep.dci.toNat = i
  records : cfgEpCc = 1 → Corresponds csz64 after

/-! ## What the parser promises of an address -/

/-- The four bits of an endpoint's number. -/
theorem walk_number : ∀ (fuel : Nat) (b : List Byte) (current : Option Interface)
    (interfaces : List Interface),
    (∀ it ∈ interfaces ++ current.toList, ∀ ep ∈ it.endpoints, ep.number.toNat < 16) →
    ∀ it ∈ walk fuel b current interfaces, ∀ ep ∈ it.endpoints, ep.number.toNat < 16 := by
  intro fuel b current interfaces
  fun_induction walk fuel b current interfaces with
  | case1 fuel len dtype rest current interfaces b hstop => exact id
  | case2 fuel len dtype rest current interfaces b hgo htype ih =>
      intro h
      refine ih fun it hit => ?_
      rcases List.mem_append.mp hit with hit | hit
      · exact h it hit
      · rw [Option.toList_some, List.mem_singleton] at hit
        intro ep hep
        rw [hit] at hep
        exact absurd hep List.not_mem_nil
  | case3 fuel len dtype rest current interfaces b hgo hno htype ih =>
      intro h
      refine ih fun it hit ep hep => ?_
      rcases List.mem_append.mp hit with hit | hit
      · exact h it (List.mem_append_left _ hit) ep hep
      · rw [Option.mem_toList, Option.map_eq_some_iff] at hit
        obtain ⟨old, hold, rfl⟩ := hit
        rcases List.mem_append.mp hep with hep | hep
        · exact h old (List.mem_append_right _ (Option.mem_toList.mpr hold)) ep hep
        · rw [List.mem_singleton.mp hep]
          show (b.getD 2 0 &&& 0x0F).toNat < 16
          rw [UInt8.toNat_and]
          exact Nat.lt_succ_of_le Nat.and_le_right
  | case4 fuel len dtype rest current interfaces b hgo hno hno' ih => exact ih
  | case5 => exact id

theorem parsed_number {bytes : List Byte} {cfg : Configuration}
    (hcfg : parseConfiguration bytes = some cfg) {it : Interface} (hit : it ∈ cfg.interfaces)
    {ep : Endpoint} (hep : ep ∈ it.endpoints) : ep.number.toNat < 16 := by
  rw [parseConfiguration] at hcfg
  split at hcfg
  · cases hcfg
  · cases hcfg
    exact walk_number _ _ none [] (fun it hit => absurd hit List.not_mem_nil) it hit ep hep

theorem Endpoint.dci_toNat {ep : Endpoint} (h : ep.number.toNat < 16) :
    ep.dci.toNat = 2 * ep.number.toNat + ep.directionIn.toNat := by
  rw [Endpoint.dci]
  cases ep.directionIn with
  | false => simp; omega
  | true => simp; omega

/-! ## What is submitted -/

theorem closeContext_entry (f : Filling) {entry k : Nat} (hentry : 2 ≤ entry)
    (hk : k < entryWords csz64) :
    (closeContext csz64 f).dword csz64 entry k = f.inputCtx.dword csz64 entry k := by
  have hwords := @entryWords_ge csz64
  simp only [closeContext]
  rw [dword_write_entry _ (by omega) hk (by omega), dword_write_entry _ (by omega) hk (by omega),
    dword_write_entry _ (by omega) hk (by omega)]

theorem closeContext_addFlags (f : Filling) :
    (closeContext csz64 f).dword csz64 0 1 = f.addFlags := by
  have hwords := @entryWords_ge csz64
  simp only [closeContext]
  rw [dword_write_entry _ (by omega) (by omega) (by decide), dword_write_self]

theorem closeContext_speed (f : Filling) :
    slotSpeed ((closeContext csz64 f).dword csz64 1 0) =
      slotSpeed (f.inputCtx.dword csz64 1 0) := by
  have hwords := @entryWords_ge csz64
  simp only [closeContext]
  rw [dword_write_self, slotSpeed_bumpEntries,
    dword_write_entry _ (by omega) (by omega) (by decide),
    dword_write_entry _ (by omega) (by omega) (by decide)]

theorem closeContext_port (f : Filling) :
    (closeContext csz64 f).dword csz64 1 1 = f.inputCtx.dword csz64 1 1 := by
  have hwords := @entryWords_ge csz64
  simp only [closeContext]
  rw [dword_write_of_ne _ (by omega) (by omega) (.inr (by decide)),
    dword_write_entry _ (by omega) (by omega) (by decide),
    dword_write_entry _ (by omega) (by omega) (by decide)]

variable {it : Interface} {before after : SlotContexts} {cfgEpCc : Byte}

/-- The records in the order of the endpoints. -/
theorem records_dci {c : InputContext} {eps : List Endpoint} {f : Filling}
    (h : Filled csz64 c eps f) :
    f.newEndpoints.map (·.dci.toNat) =
      (eps.filter fun ep => xhciEpType ep.transferType ep.directionIn ≠ 0).map (·.dci.toNat) := by
  have hstates : f.newEndpoints.map (·.dci.toNat) =
      (eps.filterMap setUp).map (·.dci.toNat) := by
    rw [← h.records, List.map_map]
    rfl
  rw [hstates, List.map_filterMap, ← List.filterMap_eq_map, List.filterMap_filter]
  refine List.filterMap_congr fun ep _ => ?_
  by_cases htype : xhciEpType ep.transferType ep.directionIn = 0
  · simp [setUp_eq_none htype, htype]
  · simp [setUp_eq_some htype, htype]

theorem configureSlot_eq_some
    (h : configureSlot csz64 alloc before it cfgEpCc = some after) :
    after.inputCtx =
        closeContext csz64 (fillEndpoints csz64 before.speed alloc before.inputCtx it) ∧
      (cfgEpCc = 1 → after.endpoints =
        (fillEndpoints csz64 before.speed alloc before.inputCtx it).newEndpoints) := by
  simp only [configureSlot] at h
  split at h
  · cases h
  · cases h
    exact ⟨rfl, fun hcc => if_pos hcc⟩

/-- Where the indices are those of endpoint contexts and differ, the tables
agree. -/
theorem contextsAgree (hbound : ∀ ep ∈ it.endpoints, ep.dci.toNat < 32)
    (hlow : ∀ ep ∈ accepted it, 2 ≤ ep.dci.toNat)
    (hnodup : ((accepted it).map (·.dci.toNat)).Nodup)
    (h : configureSlot csz64 alloc before it cfgEpCc = some after) :
    ContextsAgree csz64 it cfgEpCc before after := by
  have hfilled := @filled csz64 before.speed alloc before.inputCtx it.endpoints hbound
  obtain ⟨hctx, hrecords⟩ := configureSlot_eq_some h
  rw [fillEndpoints] at hctx hrecords
  generalize it.endpoints.foldl _ _ = f at hfilled hctx hrecords
  have hdcis : f.newEndpoints.map (·.dci.toNat) = (accepted it).map (·.dci.toNat) :=
    records_dci hfilled
  have hmem (i : Nat) : (∃ r ∈ f.newEndpoints, r.dci.toNat = i) ↔
      ∃ ep ∈ accepted it, ep.dci.toNat = i := by
    rw [← List.mem_map, hdcis, List.mem_map]
  have hindex : ∀ r ∈ f.newEndpoints, 2 ≤ r.dci.toNat ∧ r.dci.toNat < 32 := by
    intro r hr
    obtain ⟨ep, hep, heq⟩ := (hmem _).mp ⟨r, hr, rfl⟩
    rw [← heq]
    exact ⟨hlow ep hep, hbound ep (List.mem_of_mem_filter hep)⟩
  have hkeeps : ∀ entry ≤ 2, ∀ k < entryWords csz64,
      f.inputCtx.dword csz64 entry k = before.inputCtx.dword csz64 entry k := by
    intro entry hentry k hk
    refine hfilled.frame entry (fun r hr heq => ?_) k hk
    have := (hindex r hr).1
    omega
  have hwords := @entryWords_ge csz64
  have hflag (i : Nat) (hi : i < 32) : addFlag after.inputCtx csz64 i ↔
      i = 0 ∨ ∃ r ∈ f.newEndpoints, r.dci.toNat = i := by
    rw [addFlag, hctx, closeContext_addFlags]
    exact hfilled.flags i hi
  refine ⟨?_, ?_, ?_, ?_, ?_⟩
  · intro k hk
    rw [hctx, closeContext_entry f (Nat.le_refl 2) hk]
    exact hkeeps 2 (Nat.le_refl 2) k hk
  · rw [hctx, closeContext_speed, hkeeps 1 (by decide) 0 (by omega)]
  · rw [hctx, closeContext_port, hkeeps 1 (by decide) 1 (by omega)]
  · intro i hi
    rw [hflag i hi, hmem]
    refine or_congr_right ⟨fun hex => ⟨?_, hex⟩, And.right⟩
    obtain ⟨ep, hep, rfl⟩ := hex
    exact hlow ep hep
  · intro hcc
    refine ⟨?_, fun i => ?_, fun r hr => ?_⟩
    · rw [hrecords hcc, hdcis]
      exact hnodup
    · rw [hrecords hcc]
      constructor
      · rintro ⟨r, hr, rfl⟩
        exact ⟨hindex r hr, (hflag _ (hindex r hr).2).mpr (.inr ⟨r, hr, rfl⟩)⟩
      · rintro ⟨⟨hge, hlt⟩, hset⟩
        exact ((hflag i hlt).mp hset).resolve_left (by omega)
    · rw [hrecords hcc] at hr
      have hge := (hindex r hr).1
      have hring := hfilled.rings (hdcis ▸ hnodup) r hr
      rw [hctx, ← hring]
      exact qword_congr (fun k hk => closeContext_entry f (by omega) hk) (by omega)

/-- The tables agree for every answer to the command exactly if no endpoint
that gets a context has number 0 and no two have number and direction in
common. -/
theorem contexts_agree_iff {bytes : List Byte} {cfg : Configuration}
    (hcfg : parseConfiguration bytes = some cfg) (hit : it ∈ cfg.interfaces) (csz64 : Bool)
    (alloc : Nat → UInt64) (before : SlotContexts) :
    (∀ cfgEpCc after, configureSlot csz64 alloc before it cfgEpCc = some after →
      ContextsAgree csz64 it cfgEpCc before after) ↔
    (∀ ep ∈ accepted it, ep.number ≠ 0) ∧
      ((accepted it).map fun ep => (ep.number, ep.directionIn)).Nodup := by
  have hnumber : ∀ ep ∈ it.endpoints, ep.dci.toNat = 2 * ep.number.toNat + ep.directionIn.toNat :=
    fun ep hep => Endpoint.dci_toNat (parsed_number hcfg hit hep)
  have hbound : ∀ ep ∈ it.endpoints, ep.dci.toNat < 32 := by
    intro ep hep
    have hn := parsed_number hcfg hit hep
    have hd := Bool.toNat_le ep.directionIn
    rw [hnumber ep hep]
    omega
  have hdcis : (accepted it).map (·.dci.toNat) =
      ((accepted it).map fun ep => (ep.number, ep.directionIn)).map
        (fun p => 2 * p.1.toNat + p.2.toNat) := by
    rw [List.map_map]
    exact List.map_congr_left fun ep hep => hnumber ep (List.mem_of_mem_filter hep)
  constructor
  · intro h
    have hfilled := @filled csz64 before.speed alloc before.inputCtx it.endpoints hbound
    have hrecords := records_dci hfilled
    have hsome := h 1
    simp only [configureSlot, fillEndpoints] at hsome
    generalize it.endpoints.foldl _ _ = f at hrecords hsome
    cases hnone : f.newEndpoints.isEmpty with
    | true =>
        rw [List.isEmpty_iff.mp hnone] at hrecords
        have hempty : accepted it = [] := List.map_eq_nil_iff.mp hrecords.symm
        simp [hempty]
    | false =>
        rw [hnone] at hsome
        obtain ⟨hapart, hflagged, -⟩ := (hsome _ rfl).records rfl
        simp only [if_true] at hapart hflagged
        constructor
        · intro ep hep hzero
          have hmem : ep.dci.toNat ∈ f.newEndpoints.map (·.dci.toNat) :=
            hrecords ▸ List.mem_map_of_mem hep
          have hge := ((hflagged _).mp (List.mem_map.mp hmem)).1.1
          have hd := Bool.toNat_le ep.directionIn
          rw [hnumber ep (List.mem_of_mem_filter hep), hzero] at hge
          simp at hge
          omega
        · rw [hrecords] at hapart
          exact List.Nodup.of_map _ (hdcis ▸ hapart)
  · rintro ⟨hnonzero, hnodup⟩ cfgEpCc after h
    refine contextsAgree hbound (fun ep hep => ?_) ?_ h
    · have hne : ep.number.toNat ≠ 0 := fun h0 => hnonzero ep hep (UInt8.toNat_inj.mp h0)
      rw [hnumber ep (List.mem_of_mem_filter hep)]
      omega
    · rw [hdcis]
      refine hnodup.map ?_
      rintro ⟨n, d⟩ ⟨n', d'⟩ heq
      have hd := Bool.toNat_le d
      have hd' := Bool.toNat_le d'
      simp only at heq
      have hn : n = n' := UInt8.toNat_inj.mp (by omega)
      subst hn
      cases d <;> cases d' <;> simp at heq ⊢

/-- A mass-storage interface with bulk endpoints `0x81` and `address`. -/
def bulkPair (address : Byte) : List Byte :=
  [9, 2, 32, 0, 1, 1, 0, 0x80, 50,
    9, 4, 0, 0, 2, 0x08, 0x06, 0x50, 0,
    7, 5, 0x81, 2, 0, 2, 0,
    7, 5, address, 2, 0, 2, 0]

theorem contexts_agree_bulk_pair :
    ∃ cfg ∈ parseConfiguration (bulkPair 0x02), ∃ it ∈ cfg.interfaces,
      ∀ cfgEpCc after,
        configureSlot false (fun k => 0x2000 + 0x1000 * UInt64.ofNat k)
          (buildSlotResources false 1 2 3 64 0x1000) it cfgEpCc = some after →
        ContextsAgree false it cfgEpCc (buildSlotResources false 1 2 3 64 0x1000) after := by
  have hcfg : parseConfiguration (bulkPair 0x02) = some ⟨32, 1, 1, 0x80, 100,
      [⟨0, 0, 0x08, 0x06, 0x50, [⟨0x81, true, 1, 2, 512, 0⟩, ⟨0x02, false, 2, 2, 512, 0⟩]⟩]⟩ := by
    decide
  refine ⟨_, hcfg, _, List.mem_cons_self, ?_⟩
  exact (contexts_agree_iff hcfg List.mem_cons_self _ _ _).mpr ⟨by decide, by decide⟩

/-- An endpoint descriptor with address 0 takes the place of the slot context:
the device's speed and port are gone from what is submitted. -/
theorem endpoint_zero_overwrites :
    ∃ cfg ∈ parseConfiguration (bulkPair 0x00), ∃ it ∈ cfg.interfaces,
      ∃ after, configureSlot false (fun k => 0x2000 + 0x1000 * UInt64.ofNat k)
          (buildSlotResources false 1 2 3 64 0x1000) it 1 = some after ∧
        slotSpeed ((buildSlotResources false 1 2 3 64 0x1000).inputCtx.dword false 1 0) = 3 ∧
        slotSpeed (after.inputCtx.dword false 1 0) = 0 ∧
        slotPort (after.inputCtx.dword false 1 1) = 0 ∧
        ¬ ContextsAgree false it 1 (buildSlotResources false 1 2 3 64 0x1000) after := by
  refine ⟨_, rfl, _, List.mem_cons_self, _, rfl, by decide, by decide, by decide, fun h => ?_⟩
  exact absurd h.speed (by decide)

end Usb

end TablesOS
