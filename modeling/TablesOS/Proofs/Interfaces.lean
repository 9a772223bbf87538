import TablesOS.Kernel.Descriptors
import Mathlib.Data.List.Nodup

/-!
# Which interface the driver talks to

`configure_endpoints` sets up the endpoints of the first interface record of a
configuration; the probes match any record. What follows is the exact
condition under which the endpoints in use are those of the record matched,
over every run of the pipeline and every descriptor a device can send.

The invariant is that a configured device is settled: nothing later changes
its record, the index of its slot or the endpoints of that slot.
-/

namespace TablesOS

namespace Usb

/-! ## The parser's loop ends on its own -/

/-- The length of the buffer is fuel enough: more of it changes nothing. -/
theorem walk_fuel : ∀ (n m : Nat) (b : List Byte) (current : Option Interface)
    (interfaces : List Interface), b.length ≤ n → b.length ≤ m →
      walk n b current interfaces = walk m b current interfaces := by
  intro n
  induction n with
  | zero =>
      intro m b current interfaces hn _
      rw [List.length_eq_zero_iff.mp (Nat.le_zero.mp hn)]
      cases m <;> rfl
  | succ n ih =>
      intro m b current interfaces hn hm
      rcases b with _ | ⟨len, _ | ⟨dtype, rest⟩⟩
      · cases m <;> rfl
      · cases m <;> rfl
      · cases m with
        | zero => simp at hm
        | succ m =>
            have hrest : ∀ current interfaces, len ≠ 0 →
                walk n ((len :: dtype :: rest).drop len.toNat) current interfaces =
                  walk m ((len :: dtype :: rest).drop len.toNat) current interfaces := by
              intro current interfaces hlen
              have hpos : len.toNat ≠ 0 := fun h0 => hlen (UInt8.toNat_inj.mp h0)
              have hdrop := List.length_drop (i := len.toNat) (l := len :: dtype :: rest)
              simp only [List.length_cons] at hn hm hdrop
              exact ih m _ current interfaces (by omega) (by omega)
            simp only [walk]
            split
            · rfl
            · next hgo =>
                have hlen : len ≠ 0 := fun h0 => hgo (Or.inl h0)
                split
                · exact hrest _ _ hlen
                · split
                  · exact hrest _ _ hlen
                  · exact hrest _ _ hlen

/-! ## Slots and their endpoints -/

variable {st st' : XhciState}

theorem slotIndex_eq (st : XhciState) (slotId : Byte) :
    st.slotIndex slotId = (st.slots.map (·.slotId)).findIdx? (· == slotId) := by
  rw [List.findIdx?_map]
  rfl

/-- The slots of `st'` are those of `st` or more, and the endpoints of an old
slot changed at most at one index. -/
theorem slotIndex_of_prefix {slotId : Byte} {idx : Nat}
    (h : ∃ more, st'.slots.map (·.slotId) = st.slots.map (·.slotId) ++ more)
    (hidx : st.slotIndex slotId = some idx) : st'.slotIndex slotId = some idx := by
  obtain ⟨more, hmore⟩ := h
  rw [slotIndex_eq] at hidx ⊢
  rw [hmore, List.findIdx?_append, hidx]
  rfl

theorem slotIndex_lt {slotId : Byte} {idx : Nat} (h : st.slotIndex slotId = some idx) :
    ∃ s, st.slots[idx]? = some s ∧ s.slotId = slotId := by
  obtain ⟨hlt, hs, -⟩ := List.findIdx?_eq_some_iff_getElem.mp h
  exact ⟨st.slots[idx], List.getElem?_eq_getElem hlt, by simpa using hs⟩

theorem map_modify_same {α β : Type} (f : α → β) {g : α → α} (hg : ∀ a, f (g a) = f a)
    (l : List α) (i : Nat) : (l.modify i g).map f = l.map f := by
  refine List.ext_getElem? fun j => ?_
  rw [List.getElem?_map, List.getElem?_map, List.getElem?_modify]
  split
  · cases l[j]? with
    | none => rfl
    | some a => exact congrArg some (hg a)
  · cases l[j]? <;> rfl

/-! ## Configured devices are settled -/

/-- The endpoints of the first interface record, set up. -/
def firstEndpoints (cfg : Configuration) : List EndpointState :=
  (cfg.interfaces.head?.elim [] (·.endpoints)).filterMap setUp

/-- What `configure_endpoints` has done for a configured device. -/
structure Wired (st : XhciState) (d : AddressedDevice) (cfg : Configuration) (idx : Nat) :
    Prop where
  mem : d ∈ st.addressed
  configured : d.setConfigCc = 1
  config : d.config = some cfg
  slot : st.slotIndex d.slotId = some idx
  endpoints : st.endpointsAt idx = firstEndpoints cfg

/-- The invariant of the pipeline. -/
structure Settled (st : XhciState) : Prop where
  ids : (st.addressed.map (·.slotId)).Nodup
  wired : ∀ d ∈ st.addressed, d.setConfigCc = 1 → ∃ cfg idx, Wired st d cfg idx

/-- Configured devices stay as they are. -/
structure Keeps (st st' : XhciState) : Prop where
  wired : ∀ {d cfg idx}, Wired st d cfg idx → Wired st' d cfg idx

theorem Keeps.refl : Keeps st st := ⟨fun h => h⟩

theorem Keeps.trans {st'' : XhciState} (h : Keeps st st') (h' : Keeps st' st'') :
    Keeps st st'' := ⟨fun hw => h'.wired (h.wired hw)⟩

theorem endpointsAt_append {s : XhciState} {idx : Nat} {slotId : Byte} (more : List SlotResources)
    (h : st.slotIndex slotId = some idx) (hs : s.slots = st.slots ++ more) :
    s.endpointsAt idx = st.endpointsAt idx := by
  obtain ⟨r, hr, -⟩ := slotIndex_lt h
  obtain ⟨hlt, -⟩ := List.getElem?_eq_some_iff.mp hr
  unfold XhciState.endpointsAt
  rw [hs, List.getElem?_append_left hlt]

theorem addressSlot_settled (hs : Settled st) {slotId : Byte} (port speed : Byte)
    (answered described : Bool) (fresh : ∀ d ∈ st.addressed, d.slotId ≠ slotId) :
    Keeps st (addressSlot slotId port speed answered described st) ∧
      Settled (addressSlot slotId port speed answered described st) := by
  have hslots : ∃ more, (addressSlot slotId port speed answered described st).slots =
      st.slots ++ more := by
    unfold addressSlot
    cases answered
    · exact ⟨[], (List.append_nil _).symm⟩
    · exact ⟨_, rfl⟩
  obtain ⟨more, hmore⟩ := hslots
  have hkeeps : Keeps st (addressSlot slotId port speed answered described st) := by
    refine ⟨fun {d cfg idx} hw => ⟨List.mem_append_left _ hw.mem, hw.configured, hw.config, ?_, ?_⟩⟩
    · exact slotIndex_of_prefix ⟨_, by rw [hmore, List.map_append]⟩ hw.slot
    · rw [endpointsAt_append more hw.slot hmore]
      exact hw.endpoints
  refine ⟨hkeeps, ?_, fun d hd hcfg => ?_⟩
  · show ((st.addressed ++ _).map (fun d : AddressedDevice => d.slotId)).Nodup
    rw [List.map_append, List.nodup_append]
    refine ⟨hs.ids, List.nodup_singleton _, fun x hx y hy => ?_⟩
    obtain ⟨d, hd, rfl⟩ := List.mem_map.mp hx
    rw [List.map_singleton, List.mem_singleton] at hy
    rw [hy]
    exact fresh d hd
  · rcases List.mem_append.mp hd with hd | hd
    · obtain ⟨cfg, idx, hw⟩ := hs.wired d hd hcfg
      exact ⟨cfg, idx, hkeeps.wired hw⟩
    · rw [List.mem_singleton.mp hd] at hcfg
      exact absurd hcfg (show (0 : Byte) ≠ 1 by decide)

theorem mem_set_of_ne {l : List AddressedDevice} {i : Nat} {d e e' : AddressedDevice}
    (he : l[i]? = some e) (hd : d ∈ l) (hne : d ≠ e) : d ∈ l.set i e' := by
  obtain ⟨j, hj⟩ := List.mem_iff_getElem?.mp hd
  have hij : i ≠ j := by
    rintro rfl
    rw [he] at hj
    exact hne (Option.some.inj hj).symm
  refine List.mem_iff_getElem?.mpr ⟨j, ?_⟩
  rw [List.getElem?_set_ne hij, hj]

theorem map_slotId_set {l : List AddressedDevice} {i : Nat} {d e : AddressedDevice}
    (hd : l[i]? = some d) (hid : e.slotId = d.slotId) :
    (l.set i e).map (·.slotId) = l.map (·.slotId) := by
  refine List.ext_getElem? fun j => ?_
  rw [List.getElem?_map, List.getElem?_map, List.getElem?_set]
  split
  · next hij =>
      subst hij
      obtain ⟨hlt, -⟩ := List.getElem?_eq_some_iff.mp hd
      rw [if_pos hlt, hd]
      exact congrArg some hid
  · rfl

theorem fetchConfiguration_settled (hs : Settled st) (i : Nat) (bytes : List Byte) :
    Keeps st (fetchConfiguration i bytes st) ∧ Settled (fetchConfiguration i bytes st) := by
  unfold fetchConfiguration
  split
  · exact ⟨Keeps.refl, hs⟩
  · next d hd =>
      split
      · next hfetch =>
          simp only [Bool.and_eq_true, Option.isNone_iff_eq_none] at hfetch
          have hunset : d.setConfigCc ≠ 1 := by
            intro hcfg
            obtain ⟨cfg, idx, hw⟩ := hs.wired d (List.mem_of_getElem? hd) hcfg
            rw [hw.config] at hfetch
            exact absurd hfetch.1.2 (by simp)
          have hkeeps : ∀ d', Keeps st { st with addressed := st.addressed.set i d' } :=
            fun d' => ⟨fun hw => ⟨mem_set_of_ne hd hw.mem fun h => hunset (h ▸ hw.configured),
              hw.configured, hw.config, hw.slot, hw.endpoints⟩⟩
          refine ⟨hkeeps _, ?_, fun e he hcfg => ?_⟩
          · refine (map_slotId_set hd ?_).symm ▸ hs.ids
            rfl
          · rcases List.mem_or_eq_of_mem_set he with he | rfl
            · obtain ⟨cfg, idx, hw⟩ := hs.wired e he hcfg
              exact ⟨cfg, idx, (hkeeps _).wired hw⟩
            · exact absurd hcfg hunset
      · exact ⟨Keeps.refl, hs⟩

/-- Two devices with slots of their own: setting up one leaves the endpoints of
the other alone. -/
theorem endpointsAt_modify_ne {idx j : Nat} (hne : j ≠ idx)
    (f : SlotResources → SlotResources) (addressed : List AddressedDevice) :
    XhciState.endpointsAt { st with slots := st.slots.modify j f, addressed } idx =
      st.endpointsAt idx := by
  unfold XhciState.endpointsAt
  rw [List.getElem?_modify_ne f st.slots hne]

theorem configureDevice_settled (hs : Settled st) (i : Nat) (cfgEpCc setCc : Byte) :
    Keeps st (configureDevice i cfgEpCc setCc st) ∧
      Settled (configureDevice i cfgEpCc setCc st) := by
  unfold configureDevice
  split
  · exact ⟨Keeps.refl, hs⟩
  next d hd =>
  split
  · exact ⟨Keeps.refl, hs⟩
  next hunset =>
  split
  · exact ⟨Keeps.refl, hs⟩
  next cfg hcfg =>
  split
  · exact ⟨Keeps.refl, hs⟩
  next interface rest hifs =>
  split
  · exact ⟨Keeps.refl, hs⟩
  next j hj =>
  simp only
  split
  · exact ⟨Keeps.refl, hs⟩
  next hsome =>
  set f : SlotResources → SlotResources := fun s =>
    if cfgEpCc = 1 then { s with endpoints := interface.endpoints.filterMap setUp } else s
    with hf
  set d' : AddressedDevice :=
    { d with configureEndpointCc := cfgEpCc, setConfigCc := if cfgEpCc = 1 then setCc else 0 }
    with hd'
  set st₁ : XhciState :=
    { st with slots := st.slots.modify j f, addressed := st.addressed.set i d' } with hst₁
  have hids : st₁.slots.map (·.slotId) = st.slots.map (·.slotId) :=
    map_modify_same _ (fun s => by
      simp only [hf]
      split <;> rfl) _ _
  have hslot : ∀ slotId, st₁.slotIndex slotId = st.slotIndex slotId := fun slotId => by
    rw [slotIndex_eq, slotIndex_eq, hids]
  have hkeeps : Keeps st st₁ := by
    refine ⟨fun {e ecfg idx} hw => ?_⟩
    have hne : e ≠ d := fun h => hunset (h ▸ hw.configured)
    have hidx : j ≠ idx := by
      rintro rfl
      obtain ⟨s, hs1, hid⟩ := slotIndex_lt hj
      obtain ⟨s', hs2, hid'⟩ := slotIndex_lt hw.slot
      rw [hs1] at hs2
      cases hs2
      exact hne (List.inj_on_of_nodup_map hs.ids hw.mem (List.mem_of_getElem? hd)
        (hid'.symm.trans hid))
    exact ⟨mem_set_of_ne hd hw.mem hne, hw.configured, hw.config, (hslot _).trans hw.slot,
      (endpointsAt_modify_ne hidx f _).trans hw.endpoints⟩
  refine ⟨hkeeps, ?_, fun e he hset => ?_⟩
  · exact (map_slotId_set hd (e := d') rfl).symm ▸ hs.ids
  · rcases List.mem_or_eq_of_mem_set he with he' | rfl
    · obtain ⟨ecfg, idx, hw⟩ := hs.wired e he' hset
      exact ⟨ecfg, idx, hkeeps.wired hw⟩
    · have hcc : cfgEpCc = 1 := by
        by_contra hcc
        simp only [hd', if_neg hcc] at hset
        exact absurd hset (by decide)
      obtain ⟨s, hs1, -⟩ := slotIndex_lt hj
      refine ⟨cfg, j, he, hset, hcfg, (hslot _).trans hj, ?_⟩
      show (((st.slots.modify j f)[j]?).elim [] (·.endpoints)) = _
      rw [List.getElem?_modify_eq, hs1, firstEndpoints, hifs]
      simp only [hf, if_pos hcc]
      rfl

theorem configureEndpoints_settled (hs : Settled st) (answers : Nat → Byte × Byte) :
    Keeps st (configureEndpoints answers st) ∧ Settled (configureEndpoints answers st) := by
  unfold configureEndpoints
  generalize List.range st.addressed.length = is
  induction is generalizing st with
  | nil => exact ⟨Keeps.refl, hs⟩
  | cons i is ih =>
      obtain ⟨hk, hs'⟩ := configureDevice_settled hs i (answers i).1 (answers i).2
      obtain ⟨hk', hs''⟩ := ih hs'
      exact ⟨hk.trans hk', hs''⟩

/-! ## What the probes bind -/

/-- A device that a probe for `P` found, with its slot and configuration. -/
def Found (st : XhciState) (P : Interface → Bool) (slotId : Byte) (idx : Nat)
    (cfg : Configuration) : Prop :=
  ∃ d, Wired st d cfg idx ∧ d.slotId = slotId ∧ ∃ ifd, cfg.interfaces.find? P = some ifd

/-- What the recorded bindings point at. -/
structure Bindings (st : XhciState) : Prop where
  mouse : ∀ m, st.mouse = some m → ∃ cfg, Found st Interface.isBootMouse m.slotId m.slotIdx cfg ∧
    (firstEndpoints cfg).findIdx? EndpointState.isInterruptIn = some m.epIdx
  msc : ∀ t ∈ st.msc, ∃ cfg, Found st Interface.isMassStorage t.slotId t.slotIdx cfg ∧
    (firstEndpoints cfg).findIdx? EndpointState.isBulkIn = some t.bulkInIdx ∧
    (firstEndpoints cfg).findIdx? EndpointState.isBulkOut = some t.bulkOutIdx

theorem Keeps.found (h : Keeps st st') {P : Interface → Bool} {slotId : Byte} {idx : Nat}
    {cfg : Configuration} : Found st P slotId idx cfg → Found st' P slotId idx cfg
  | ⟨d, hw, hid, hm⟩ => ⟨d, h.wired hw, hid, hm⟩

theorem Bindings.keep (hb : Bindings st) (h : Keeps st st') (hm : st'.mouse = st.mouse)
    (hc : st'.msc = st.msc) : Bindings st' := by
  constructor
  · intro m hmouse
    obtain ⟨cfg, hf, hi⟩ := hb.mouse m (hm ▸ hmouse)
    exact ⟨cfg, h.found hf, hi⟩
  · intro t ht
    obtain ⟨cfg, hf, hi⟩ := hb.msc t (hc ▸ ht)
    exact ⟨cfg, h.found hf, hi⟩

theorem found_of_candidate (hs : Settled st) {P : Interface → Bool} {d : AddressedDevice}
    {c : Byte × Byte} (hd : d ∈ st.addressed) (hc : d.candidate P = some c) :
    ∃ cfg idx, st.slotIndex c.1 = some idx ∧ st.endpointsAt idx = firstEndpoints cfg ∧
      Found st P c.1 idx cfg := by
  unfold AddressedDevice.candidate at hc
  split at hc
  · next hcfg =>
      obtain ⟨cfg, idx, hw⟩ := hs.wired d hd hcfg
      rw [hw.config, Option.bind_some] at hc
      obtain ⟨ifd, hifd, rfl⟩ := Option.map_eq_some_iff.mp hc
      exact ⟨cfg, idx, hw.slot, hw.endpoints, d, hw, rfl, ifd, hifd⟩
  · cases hc

theorem probeHidMouse_bindings (hs : Settled st) (hb : Bindings st) (setProtocol : Bool) :
    Keeps st (probeHidMouse setProtocol st) ∧ Settled (probeHidMouse setProtocol st) ∧
      Bindings (probeHidMouse setProtocol st) := by
  have hsame : ∀ mouse, Keeps st { st with mouse } ∧ Settled { st with mouse } := by
    intro mouse
    have hk : Keeps st { st with mouse } :=
      ⟨fun hw => ⟨hw.mem, hw.configured, hw.config, hw.slot, hw.endpoints⟩⟩
    refine ⟨hk, hs.ids, fun d hd hcfg => ?_⟩
    obtain ⟨cfg, idx, hw⟩ := hs.wired d hd hcfg
    exact ⟨cfg, idx, hk.wired hw⟩
  unfold probeHidMouse
  split
  · exact ⟨Keeps.refl, hs, hb⟩
  split
  · exact ⟨Keeps.refl, hs, hb⟩
  next slotId number hfirst =>
  obtain ⟨d, hd, hc⟩ := List.exists_of_findSome?_eq_some hfirst
  obtain ⟨cfg, idx, hslot, heps, hf⟩ := found_of_candidate hs hd hc
  split
  · exact ⟨Keeps.refl, hs, hb⟩
  next slotIdx hslot' =>
  obtain rfl : idx = slotIdx := Option.some.inj (hslot.symm.trans hslot')
  split
  · exact ⟨Keeps.refl, hs, hb⟩
  next epIdx hep =>
  simp only
  split
  · exact ⟨Keeps.refl, hs, hb⟩
  · refine ⟨(hsame _).1, (hsame _).2, fun m hm => ?_, fun t ht => ?_⟩
    · cases hm
      rw [heps] at hep
      exact ⟨cfg, (hsame _).1.found hf, hep⟩
    · obtain ⟨tcfg, htf, hi⟩ := hb.msc t ht
      exact ⟨tcfg, (hsame _).1.found htf, hi⟩

theorem mscResolveBulk_ok {slotId : Byte} {idx i o : Nat}
    (h : mscResolveBulk st slotId = .ok (idx, i, o)) :
    st.slotIndex slotId = some idx ∧
      (st.endpointsAt idx).findIdx? EndpointState.isBulkIn = some i ∧
      (st.endpointsAt idx).findIdx? EndpointState.isBulkOut = some o := by
  unfold mscResolveBulk at h
  split at h
  · cases h
  next hslot =>
  split at h
  · cases h
  next hin =>
  split at h
  · cases h
  next hout =>
  cases h
  exact ⟨hslot, hin, hout⟩

theorem probeMassStorage_bindings (hs : Settled st) (hb : Bindings st) :
    Keeps st (probeMassStorage st) ∧ Settled (probeMassStorage st) ∧
      Bindings (probeMassStorage st) := by
  have hk : Keeps st (probeMassStorage st) :=
    ⟨fun hw => ⟨hw.mem, hw.configured, hw.config, hw.slot, hw.endpoints⟩⟩
  refine ⟨hk, ⟨hs.ids, fun d hd hcfg => ?_⟩, fun m hm => ?_, fun t ht => ?_⟩
  · obtain ⟨cfg, idx, hw⟩ := hs.wired d hd hcfg
    exact ⟨cfg, idx, hk.wired hw⟩
  · obtain ⟨cfg, hf, hi⟩ := hb.mouse m hm
    exact ⟨cfg, hk.found hf, hi⟩
  · obtain ⟨c, hc, ht⟩ := List.mem_filterMap.mp ht
    obtain ⟨d, hd, hcand⟩ := List.mem_filterMap.mp hc
    obtain ⟨cfg, idx, hslot, heps, hf⟩ := found_of_candidate hs hd hcand
    split at ht
    · cases ht
    · next slotIdx bulkInIdx bulkOutIdx hresolve =>
        cases ht
        obtain ⟨hslot', hin, hout⟩ := mscResolveBulk_ok hresolve
        obtain rfl : idx = slotIdx := Option.some.inj (hslot.symm.trans hslot')
        rw [heps] at hin hout
        exact ⟨cfg, hk.found hf, hin, hout⟩

theorem configureDevice_bindings (st : XhciState) (i : Nat) (cfgEpCc setCc : Byte) :
    (configureDevice i cfgEpCc setCc st).mouse = st.mouse ∧
      (configureDevice i cfgEpCc setCc st).msc = st.msc := by
  unfold configureDevice
  split
  · exact ⟨rfl, rfl⟩
  split
  · exact ⟨rfl, rfl⟩
  split
  · exact ⟨rfl, rfl⟩
  split
  · exact ⟨rfl, rfl⟩
  split
  · exact ⟨rfl, rfl⟩
  simp only
  split <;> exact ⟨rfl, rfl⟩

theorem configureEndpoints_bindings (st : XhciState) (answers : Nat → Byte × Byte) :
    (configureEndpoints answers st).mouse = st.mouse ∧
      (configureEndpoints answers st).msc = st.msc := by
  unfold configureEndpoints
  generalize List.range st.addressed.length = is
  induction is generalizing st with
  | nil => exact ⟨rfl, rfl⟩
  | cons i is ih =>
      obtain ⟨hm, hc⟩ := configureDevice_bindings st i (answers i).1 (answers i).2
      obtain ⟨hm', hc'⟩ := ih (configureDevice i (answers i).1 (answers i).2 st)
      exact ⟨hm'.trans hm, hc'.trans hc⟩

/-- One step of the pipeline. -/
theorem Step.settled (h : Step st st') (hs : Settled st) (hb : Bindings st) :
    Settled st' ∧ Bindings st' := by
  cases h with
  | address slotId port speed answered described fresh =>
      obtain ⟨hk, hs'⟩ := addressSlot_settled hs port speed answered described fresh
      exact ⟨hs', hb.keep hk rfl rfl⟩
  | fetch i bytes =>
      obtain ⟨hk, hs'⟩ := fetchConfiguration_settled hs i bytes
      refine ⟨hs', hb.keep hk ?_ ?_⟩ <;> unfold fetchConfiguration <;> split
      · rfl
      · split <;> rfl
      · rfl
      · split <;> rfl
  | configure answers =>
      obtain ⟨hk, hs'⟩ := configureEndpoints_settled hs answers
      obtain ⟨hm, hc⟩ := configureEndpoints_bindings st answers
      exact ⟨hs', hb.keep hk hm hc⟩
  | probeMouse setProtocol => exact (probeHidMouse_bindings hs hb setProtocol).2
  | probeMsc => exact (probeMassStorage_bindings hs hb).2

/-- Every run of the pipeline. -/
theorem Reachable.settled (h : Reachable st) : Settled st ∧ Bindings st := by
  induction h with
  | fresh =>
      refine ⟨⟨List.nodup_nil, fun d hd => ?_⟩, fun m hm => ?_, fun t ht => ?_⟩
      · cases hd
      · cases hm
      · cases ht
  | step _ hstep ih => exact hstep.settled ih.1 ih.2

/-! ## The condition -/

/-- The endpoints are endpoints of the interface record that matched. -/
def FromMatched (P : Interface → Bool) (cfg : Configuration) (es : List EndpointState) : Prop :=
  ∃ ifd, cfg.interfaces.find? P = some ifd ∧ ∀ e ∈ es, e ∈ ifd.endpoints.filterMap setUp

/-- What the driver picks among the endpoints of the first interface record is
listed in the record that matched as well: so when they are the same record,
or when the one repeats the endpoints of the other. -/
def FirstServes (P : Interface → Bool) (Qs : List (EndpointState → Bool))
    (cfg : Configuration) : Prop :=
  ∃ ifd, cfg.interfaces.find? P = some ifd ∧
    ∀ Q ∈ Qs, ∀ e, (firstEndpoints cfg).find? Q = some e → e ∈ ifd.endpoints.filterMap setUp

theorem find?_of_findIdx? {Q : EndpointState → Bool} {es : List EndpointState} {i : Nat}
    (h : es.findIdx? Q = some i) : ∃ e, es.find? Q = some e ∧ es[i]? = some e := by
  obtain ⟨hlt, -, -⟩ := List.findIdx?_eq_some_iff_getElem.mp h
  have hget : es[i]? = some es[i] := List.getElem?_eq_getElem hlt
  refine ⟨es[i], ?_, hget⟩
  rw [List.find?_eq_bind_findIdx?_getElem?, h]
  exact hget

/-- The mouse the driver polls: its device is configured, the endpoint polled is
one that `configure_endpoints` set up, and it belongs to the boot-mouse
interface exactly if the first record serves. -/
theorem Reachable.mouse (h : Reachable st) {m : MouseDevice} (hm : st.mouse = some m) :
    ∃ cfg e, Found st Interface.isBootMouse m.slotId m.slotIdx cfg ∧
      (st.endpointsAt m.slotIdx)[m.epIdx]? = some e ∧ e ∈ firstEndpoints cfg ∧
      (FromMatched Interface.isBootMouse cfg [e] ↔
        FirstServes Interface.isBootMouse [EndpointState.isInterruptIn] cfg) := by
  obtain ⟨-, hb⟩ := h.settled
  obtain ⟨cfg, hf, hi⟩ := hb.mouse m hm
  obtain ⟨e, hfind, hget⟩ := find?_of_findIdx? hi
  obtain ⟨d, hw, hid, hmatch⟩ := hf
  refine ⟨cfg, e, ⟨d, hw, hid, hmatch⟩, hw.endpoints ▸ hget, List.mem_of_find?_eq_some hfind, ?_⟩
  constructor
  · rintro ⟨ifd, hifd, hall⟩
    refine ⟨ifd, hifd, fun Q hQ e' he' => ?_⟩
    rw [List.mem_singleton.mp hQ, hfind] at he'
    cases he'
    exact hall e List.mem_cons_self
  · rintro ⟨ifd, hifd, hall⟩
    refine ⟨ifd, hifd, fun e' he' => ?_⟩
    rw [List.mem_singleton.mp he']
    exact hall _ List.mem_cons_self e hfind

/-- The same for a disk, its two endpoints, and `msc_resolve_bulk`. -/
theorem Reachable.disk (h : Reachable st) {t : MscTarget} (ht : t ∈ st.msc) :
    ∃ cfg i o, Found st Interface.isMassStorage t.slotId t.slotIdx cfg ∧
      mscResolveBulk st t.slotId = .ok (t.slotIdx, t.bulkInIdx, t.bulkOutIdx) ∧
      (st.endpointsAt t.slotIdx)[t.bulkInIdx]? = some i ∧
      (st.endpointsAt t.slotIdx)[t.bulkOutIdx]? = some o ∧
      i ∈ firstEndpoints cfg ∧ o ∈ firstEndpoints cfg ∧
      (FromMatched Interface.isMassStorage cfg [i, o] ↔
        FirstServes Interface.isMassStorage [EndpointState.isBulkIn, EndpointState.isBulkOut]
          cfg) := by
  obtain ⟨-, hb⟩ := h.settled
  obtain ⟨cfg, hf, hi, ho⟩ := hb.msc t ht
  obtain ⟨i, hfindi, hgeti⟩ := find?_of_findIdx? hi
  obtain ⟨o, hfindo, hgeto⟩ := find?_of_findIdx? ho
  obtain ⟨d, hw, hid, hmatch⟩ := hf
  have hresolve : mscResolveBulk st t.slotId = .ok (t.slotIdx, t.bulkInIdx, t.bulkOutIdx) := by
    unfold mscResolveBulk
    rw [← hid, hw.slot]
    simp only [hw.endpoints, hi, ho]
  refine ⟨cfg, i, o, ⟨d, hw, hid, hmatch⟩, hresolve, hw.endpoints ▸ hgeti, hw.endpoints ▸ hgeto,
    List.mem_of_find?_eq_some hfindi, List.mem_of_find?_eq_some hfindo, ?_⟩
  constructor
  · rintro ⟨ifd, hifd, hall⟩
    refine ⟨ifd, hifd, fun Q hQ e he => ?_⟩
    rcases List.mem_cons.mp hQ with rfl | hQ
    · rw [hfindi] at he
      cases he
      exact hall i List.mem_cons_self
    · rw [List.mem_singleton.mp hQ, hfindo] at he
      cases he
      exact hall o (List.mem_cons_of_mem _ List.mem_cons_self)
  · rintro ⟨ifd, hifd, hall⟩
    refine ⟨ifd, hifd, fun e he => ?_⟩
    rcases List.mem_cons.mp he with rfl | he
    · exact hall _ List.mem_cons_self e hfindi
    · rw [List.mem_singleton.mp he]
      exact hall _ (List.mem_cons_of_mem _ List.mem_cons_self) o hfindo

/-- Which interface the driver talks to, over every run: the endpoint polled
for a bound mouse and the two used for a bound disk are endpoints that
`configure_endpoints` set up; they are endpoints of the interface that matched
exactly if what the driver picks from the first interface record is listed in
the matching one too. -/
theorem bound_interface {st : XhciState} (h : Reachable st) :
    (∀ m, st.mouse = some m → ∃ cfg e,
      Found st Interface.isBootMouse m.slotId m.slotIdx cfg ∧
      (st.endpointsAt m.slotIdx)[m.epIdx]? = some e ∧ e ∈ firstEndpoints cfg ∧
      (FromMatched Interface.isBootMouse cfg [e] ↔
        FirstServes Interface.isBootMouse [EndpointState.isInterruptIn] cfg)) ∧
    ∀ t ∈ st.msc, ∃ cfg i o,
      Found st Interface.isMassStorage t.slotId t.slotIdx cfg ∧
      mscResolveBulk st t.slotId = .ok (t.slotIdx, t.bulkInIdx, t.bulkOutIdx) ∧
      (st.endpointsAt t.slotIdx)[t.bulkInIdx]? = some i ∧
      (st.endpointsAt t.slotIdx)[t.bulkOutIdx]? = some o ∧
      i ∈ firstEndpoints cfg ∧ o ∈ firstEndpoints cfg ∧
      (FromMatched Interface.isMassStorage cfg [i, o] ↔
        FirstServes Interface.isMassStorage [EndpointState.isBulkIn, EndpointState.isBulkOut]
          cfg) :=
  ⟨fun _ hm => h.mouse hm, fun _ ht => h.disk ht⟩

/-- A receiver for a keyboard and a mouse: interface 0 is the boot keyboard,
with endpoint 0x81, interface 1 the boot mouse, with endpoint 0x82. -/
def receiver : List Byte :=
  [9, 2, 59, 0, 2, 1, 0, 0xA0, 50,
   9, 4, 0, 0, 1, 3, 1, 1, 0,  9, 0x21, 0x11, 1, 0, 1, 0x22, 65, 0,  7, 5, 0x81, 3, 8, 0, 10,
   9, 4, 1, 0, 1, 3, 1, 2, 0,  9, 0x21, 0x11, 1, 0, 1, 0x22, 52, 0,  7, 5, 0x82, 3, 8, 0, 10]

/-- The pipeline over one device that answers everything with success. -/
def enumerate (bytes : List Byte) : XhciState :=
  probeMassStorage (probeHidMouse true (configureEndpoints (fun _ => (1, 1))
    (fetchConfiguration 0 bytes (addressSlot 1 2 1 true true XhciState.fresh))))

theorem enumerate_reachable (bytes : List Byte) : Reachable (enumerate bytes) := by
  have h₁ : Reachable (addressSlot 1 2 1 true true XhciState.fresh) :=
    Reachable.fresh.step (.address 1 2 1 true true fun d hd => by cases hd)
  have h₂ := h₁.step (.fetch 0 bytes)
  have h₃ := h₂.step (.configure fun _ => (1, 1))
  exact (h₃.step (.probeMouse true)).step .probeMsc

theorem bound_interface_receiver : ∃ cfg e,
    Found (enumerate receiver) Interface.isBootMouse 1 0 cfg ∧
      ((enumerate receiver).endpointsAt 0)[0]? = some e ∧ e ∈ firstEndpoints cfg ∧
      (FromMatched Interface.isBootMouse cfg [e] ↔
        FirstServes Interface.isBootMouse [EndpointState.isInterruptIn] cfg) :=
  (bound_interface (enumerate_reachable receiver)).1 ⟨0, 0, 1, 8⟩ (by decide)

/-- With the receiver, the mouse that is bound is polled on the endpoint of
the keyboard. -/
theorem receiver_polls_keyboard : ∃ m e cfg, (enumerate receiver).mouse = some m ∧
    ((enumerate receiver).endpointsAt m.slotIdx)[m.epIdx]? = some e ∧ e.address = 0x81 ∧
    parseConfiguration receiver = some cfg ∧ ¬ FromMatched Interface.isBootMouse cfg [e] := by
  have hmatch : (parseConfiguration receiver).bind (·.interfaces.find? Interface.isBootMouse) =
      some ⟨1, 0, 3, 1, 2, [⟨0x82, true, 2, 3, 8, 10⟩]⟩ := by decide
  cases hcfg : parseConfiguration receiver with
  | none =>
      rw [hcfg] at hmatch
      cases hmatch
  | some cfg =>
      rw [hcfg, Option.bind_some] at hmatch
      refine ⟨⟨0, 0, 1, 8⟩, ⟨0x81, 3, 3, 8, true⟩, cfg, by decide, by decide, rfl, rfl, ?_⟩
      rintro ⟨ifd, hifd, hall⟩
      rw [hmatch] at hifd
      cases hifd
      exact absurd (hall _ List.mem_cons_self) (by decide)

end Usb

end TablesOS
