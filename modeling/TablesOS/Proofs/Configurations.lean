import TablesOS.Proofs.Interfaces
import TablesOS.Spec.Configuration
import Mathlib.Data.Nat.Bitwise

/-!
# What `parse_configuration` makes of a configuration

The parser goes from descriptor to descriptor by the lengths they carry,
except for the first step: behind the header it starts at byte nine, whatever
length the header has. So a configuration is parsed as its device means it when
the bytes that a longer header has behind its ninth are themselves passed over
as descriptors, and for any other header there is a configuration that comes
out wrong.
-/

namespace TablesOS

namespace Usb

open Spec

/-! ## Every index is in range -/

theorem byteAt_eq {b : List Byte} {i : Nat} (h : i < b.length) :
    byteAt b i = .ok (b.getD i 0) := by
  simp [byteAt, h]

theorem le16At_eq {b : List Byte} {i : Nat} (h : i + 1 < b.length) :
    le16At b i = .ok (le16 b i) := by
  simp [le16At, le16, byteAt_eq h, byteAt_eq (Nat.lt_of_succ_lt h)]

theorem interfaceAt_eq {b : List Byte} {pos : Nat} (h : pos + 9 ≤ b.length) :
    interfaceAt b pos = .ok (parseInterface (b.drop pos)) := by
  simp only [interfaceAt, byteAt_eq (show pos + 2 < b.length by omega),
    byteAt_eq (show pos + 3 < b.length by omega), byteAt_eq (show pos + 5 < b.length by omega),
    byteAt_eq (show pos + 6 < b.length by omega), byteAt_eq (show pos + 7 < b.length by omega),
    Outcome.ok_bind, Outcome.pure_eq, parseInterface, List.getD_eq_getElem?_getD,
    List.getElem?_drop]

theorem endpointAt_eq {b : List Byte} {pos : Nat} (h : pos + 7 ≤ b.length) :
    endpointAt b pos = .ok (parseEndpoint (b.drop pos)) := by
  have hle : le16 (b.drop pos) 4 = le16 b (pos + 4) := by
    simp only [le16, List.getD_eq_getElem?_getD, List.getElem?_drop, Nat.add_assoc]
  simp only [endpointAt, byteAt_eq (show pos + 2 < b.length by omega),
    byteAt_eq (show pos + 3 < b.length by omega), byteAt_eq (show pos + 6 < b.length by omega),
    le16At_eq (show pos + 4 + 1 < b.length by omega), Outcome.ok_bind, Outcome.pure_eq,
    parseEndpoint, hle]
  simp only [List.getD_eq_getElem?_getD, List.getElem?_drop]

/-! ## One round of the walk -/

/-- The walk with as much fuel as it can need. -/
abbrev walked (b : List Byte) (current : Option Interface) (interfaces : List Interface) :
    List Interface :=
  walk b.length b current interfaces

theorem walked_short {b : List Byte} (h : b.length < 2) (current : Option Interface)
    (interfaces : List Interface) : walked b current interfaces = interfaces ++ current.toList := by
  rcases b with _ | ⟨len, _ | ⟨dtype, rest⟩⟩
  · rfl
  · rfl
  · simp only [List.length_cons] at h
    omega

/-- A length byte that is zero or leads out of the buffer stops the walk. -/
theorem walked_stop {len dtype : Byte} {rest : List Byte}
    (h : len = 0 ∨ (len :: dtype :: rest).length < len.toNat) (current : Option Interface)
    (interfaces : List Interface) :
    walked (len :: dtype :: rest) current interfaces = interfaces ++ current.toList := by
  simp only [walked, List.length_cons, walk] at h ⊢
  rw [if_pos h]

theorem walked_drop {len : Byte} (hlen : len ≠ 0) {n : Nat} {b : List Byte}
    (hb : b.length = n + 1) (current : Option Interface) (interfaces : List Interface) :
    walk n (b.drop len.toNat) current interfaces =
      walked (b.drop len.toNat) current interfaces := by
  have hpos : len.toNat ≠ 0 := fun h0 => hlen (UInt8.toNat_inj.mp h0)
  have hdrop := List.length_drop (i := len.toNat) (l := b)
  exact walk_fuel _ _ _ _ _ (by omega) (Nat.le_refl _)

/-- Any other takes it to the next descriptor. -/
theorem walked_step {len dtype : Byte} {rest : List Byte} (hlen : len ≠ 0)
    (hfit : len.toNat ≤ (len :: dtype :: rest).length) (current : Option Interface)
    (interfaces : List Interface) :
    walked (len :: dtype :: rest) current interfaces =
      let b := len :: dtype :: rest
      if dtype = 4 ∧ 9 ≤ len then
        walked (b.drop len.toNat) (some (parseInterface b)) (interfaces ++ current.toList)
      else if dtype = 5 ∧ 7 ≤ len then
        walked (b.drop len.toNat)
          (current.map fun it => { it with endpoints := it.endpoints ++ [parseEndpoint b] })
          interfaces
      else walked (b.drop len.toNat) current interfaces := by
  have hgo : ¬ (len = 0 ∨ (len :: dtype :: rest).length < len.toNat) := by
    rintro (h0 | hlt)
    · exact hlen h0
    · omega
  have hb : (len :: dtype :: rest).length = (rest.length + 1) + 1 := rfl
  show walk ((rest.length + 1) + 1) _ _ _ = _
  rw [walk, if_neg hgo]
  simp only [walked_drop hlen hb]

/-- The walk by position is the walk over what is left. -/
theorem walkAt_eq (b : List Byte) : ∀ (fuel pos : Nat) (current : Option Interface)
    (interfaces : List Interface), pos ≤ b.length → b.length < pos + fuel →
      walkAt b fuel pos current interfaces = .ok (walked (b.drop pos) current interfaces) := by
  intro fuel
  induction fuel with
  | zero =>
      intro pos current interfaces hle hlt
      omega
  | succ fuel ih =>
      intro pos current interfaces hle hlt
      have hlength := List.length_drop (i := pos) (l := b)
      by_cases hend : b.length < pos + 2
      · rw [walked_short (by omega)]
        simp only [walkAt, if_pos hend, Outcome.pure_eq]
      · obtain ⟨len, dtype, rest, hdrop⟩ :
            ∃ len dtype rest, b.drop pos = len :: dtype :: rest := by
          rcases hd : b.drop pos with _ | ⟨len, _ | ⟨dtype, rest⟩⟩
          · rw [hd] at hlength
            simp at hlength
            omega
          · rw [hd] at hlength
            simp at hlength
            omega
          · exact ⟨len, dtype, rest, rfl⟩
        have hget : ∀ i, (b.drop pos).getD i 0 = b.getD (pos + i) 0 := fun i => by
          simp only [List.getD_eq_getElem?_getD, List.getElem?_drop]
        have hlen : byteAt b pos = .ok len := by
          have := hget 0
          rw [hdrop] at this
          rw [byteAt_eq (by omega)]
          exact congrArg Outcome.ok this.symm
        have hdtype : byteAt b (pos + 1) = .ok dtype := by
          have := hget 1
          rw [hdrop] at this
          rw [byteAt_eq (by omega)]
          exact congrArg Outcome.ok this.symm
        simp only [walkAt, if_neg hend, hlen, hdtype, Outcome.ok_bind, Outcome.pure_eq]
        rw [hdrop] at hlength
        by_cases hstop : len = 0 ∨ b.length < pos + len.toNat
        · rw [if_pos hstop, hdrop, walked_stop (hstop.imp_right fun h => by omega)]
        · have hpos : len.toNat ≠ 0 := fun h0 => hstop (Or.inl (UInt8.toNat_inj.mp h0))
          have hfit : pos + len.toNat ≤ b.length := by omega
          have hnext : ∀ current interfaces,
              walkAt b fuel (pos + len.toNat) current interfaces =
                .ok (walked ((b.drop pos).drop len.toNat) current interfaces) := by
            intro current interfaces
            rw [List.drop_drop]
            exact ih _ _ _ hfit (by omega)
          rw [if_neg hstop, hdrop, walked_step (fun h0 => hstop (Or.inl h0)) (by omega)]
          rw [← hdrop]
          by_cases hinterface : dtype = 4 ∧ 9 ≤ len
          · have hnine : 9 ≤ len.toNat := UInt8.le_iff_toNat_le.mp hinterface.2
            simp only [if_pos hinterface, interfaceAt_eq (show pos + 9 ≤ b.length by omega),
              Outcome.ok_bind, hnext]
          · rw [if_neg hinterface, if_neg hinterface]
            by_cases hendpoint : dtype = 5 ∧ 7 ≤ len
            · have hseven : 7 ≤ len.toNat := UInt8.le_iff_toNat_le.mp hendpoint.2
              cases current with
              | none => simp only [if_pos hendpoint, hnext, Option.map_none]
              | some it =>
                  simp only [if_pos hendpoint, endpointAt_eq (show pos + 7 ≤ b.length by omega),
                    Outcome.ok_bind, hnext, Option.map_some]
            · simp only [if_neg hendpoint, hnext]

/-- `parse_configuration` returns on every buffer, and no index of it is out of
range. -/
theorem parseConfigurationAt_eq (b : List Byte) :
    parseConfigurationAt b = .ok (parseConfiguration b) := by
  by_cases hshort : b.length < 9
  · simp [parseConfigurationAt, parseConfiguration, hshort]
  · have hbyte : ∀ i < 9, byteAt b i = .ok (b.getD i 0) := fun i hi => byteAt_eq (by omega)
    simp only [parseConfigurationAt, parseConfiguration, hshort, false_or, if_false,
      hbyte 0 (by decide), hbyte 1 (by decide), hbyte 4 (by decide), hbyte 5 (by decide),
      hbyte 7 (by decide), hbyte 8 (by decide), le16At_eq (show 2 + 1 < b.length by omega),
      walkAt_eq b (b.length + 1) 9 none [] (by omega) (by omega), Outcome.ok_bind,
      Outcome.pure_eq]
    have hfuel : walk b.length (b.drop 9) none [] = walked (b.drop 9) none [] :=
      walk_fuel _ _ _ _ _ (by rw [List.length_drop]; omega) (Nat.le_refl _)
    rw [hfuel]
    split <;> rfl

/-! ## The walk over what the device sends -/

theorem toNat_record (rest : List Byte) (h : rest.length + 2 < 256) :
    (UInt8.ofNat (rest.length + 2)).toNat = rest.length + 2 :=
  UInt8.toNat_ofNat_of_lt h

/-- The walk over one descriptor. -/
theorem walked_record {type : Byte} {rest : List Byte} (h : rest.length + 2 < 256)
    (r : List Byte) (current : Option Interface) (interfaces : List Interface) :
    walked (record type rest ++ r) current interfaces =
      if type = 4 ∧ 7 ≤ rest.length then
        walked r (some (parseInterface (record type rest ++ r))) (interfaces ++ current.toList)
      else if type = 5 ∧ 5 ≤ rest.length then
        walked r (current.map fun it =>
          { it with endpoints := it.endpoints ++ [parseEndpoint (record type rest ++ r)] })
          interfaces
      else walked r current interfaces := by
  have hlen := toNat_record rest h
  have hne : UInt8.ofNat (rest.length + 2) ≠ 0 := by
    intro h0
    rw [h0] at hlen
    exact absurd hlen (by simp)
  have hdrop : (record type rest ++ r).drop (UInt8.ofNat (rest.length + 2)).toNat = r := by
    rw [hlen]
    exact List.drop_left' rfl
  have hnine : 9 ≤ UInt8.ofNat (rest.length + 2) ↔ 7 ≤ rest.length := by
    rw [UInt8.le_iff_toNat_le, hlen]
    show 9 ≤ _ ↔ _
    omega
  have hseven : 7 ≤ UInt8.ofNat (rest.length + 2) ↔ 5 ≤ rest.length := by
    rw [UInt8.le_iff_toNat_le, hlen]
    show 7 ≤ _ ↔ _
    omega
  refine (@walked_step _ _ (rest ++ r) hne ?_ current interfaces).trans ?_
  · rw [hlen]
    simp only [List.length_cons, List.length_append]
    omega
  · show (if _ then walked ((record type rest ++ r).drop _) _ _ else _) = _
    simp only [hnine, hseven]
    rw [show (UInt8.ofNat (rest.length + 2) :: type :: (rest ++ r)) = record type rest ++ r from
      rfl, hdrop]

theorem walked_other (d : OtherDescriptor) (r : List Byte) (current : Option Interface)
    (interfaces : List Interface) :
    walked (d.bytes ++ r) current interfaces = walked r current interfaces := by
  have hshort := d.short
  unfold OtherDescriptor.bytes
  rw [walked_record (by omega), if_neg fun h => d.noInterface h.1,
    if_neg fun h => d.noEndpoint h.1]

theorem walked_preamble (preamble : List OtherDescriptor) (r : List Byte)
    (current : Option Interface) (interfaces : List Interface) :
    walked (preamble.flatMap OtherDescriptor.bytes ++ r) current interfaces =
      walked r current interfaces := by
  induction preamble with
  | nil => rfl
  | cons d ds ih => rw [List.flatMap_cons, List.append_assoc, walked_other, ih]

theorem walked_interface (d : InterfaceDescriptor) (r : List Byte) (current : Option Interface)
    (interfaces : List Interface) :
    walked (d.bytes ++ r) current interfaces =
      walked r (some ⟨d.number, d.altSetting, d.cls, d.subclass, d.protocol, []⟩)
        (interfaces ++ current.toList) := by
  have hshort := d.short
  unfold InterfaceDescriptor.bytes
  rw [walked_record (by simp; omega), if_pos ⟨rfl, by simp⟩]
  rfl

theorem and_low_bits (x : Byte) {k : Nat} (h : k ≤ 8) :
    x &&& UInt8.ofNat (2 ^ k - 1) = UInt8.ofNat (x.toNat % 2 ^ k) := by
  have hx := x.toNat_lt
  have hk : 2 ^ k ≤ 256 := Nat.pow_le_pow_right (by decide) h
  have hpos := Nat.two_pow_pos k
  have hmask : (UInt8.ofNat (2 ^ k - 1)).toNat = 2 ^ k - 1 :=
    UInt8.toNat_ofNat_of_lt (show _ < 256 by omega)
  have hlow : (UInt8.ofNat (x.toNat % 2 ^ k)).toNat = x.toNat % 2 ^ k :=
    UInt8.toNat_ofNat_of_lt (Nat.lt_of_le_of_lt (Nat.mod_le _ _) hx)
  apply UInt8.toNat_inj.mp
  rw [UInt8.toNat_and, hmask, hlow, Nat.and_two_pow_sub_one_eq_mod]

theorem and_top_bit (x : Byte) : decide (x &&& 0x80 ≠ 0) = x.toNat.testBit 7 := by
  have h : (x &&& 0x80).toNat = x.toNat &&& 2 ^ 7 := UInt8.toNat_and ..
  have hz : x &&& 0x80 = 0 ↔ (x &&& 0x80).toNat = 0 := by
    rw [← UInt8.toNat_inj]
    rfl
  rw [Nat.and_two_pow] at h
  cases hb : x.toNat.testBit 7 with
  | false => simp [hz, h, hb]
  | true => simp [hz, h, hb]

/-- The bit operations of the parser are the fields of the format. -/
theorem parseEndpoint_bytes (d : EndpointDescriptor) (r : List Byte) :
    parseEndpoint (d.bytes ++ r) = d.denoted := by
  have hpacket : le16 (d.bytes ++ r) 4 = d.maxPacketSize.toNat := by
    have hlt := d.maxPacketSize.toNat_lt
    show (UInt8.ofNat d.maxPacketSize.toNat).toNat +
      256 * (UInt8.ofNat (d.maxPacketSize.toNat / 256)).toNat = _
    simp only [UInt8.toNat_ofNat']
    omega
  show (⟨d.address, decide (d.address &&& 0x80 ≠ 0), d.address &&& 0x0F, d.attributes &&& 0x03,
    le16 (d.bytes ++ r) 4 % 0x800, d.interval⟩ : Endpoint) = _
  rw [hpacket, and_top_bit, EndpointDescriptor.denoted, ← and_low_bits d.address (by decide),
    ← and_low_bits d.attributes (by decide)]
  rfl

theorem walked_endpoint (d : EndpointDescriptor) (r : List Byte) (it : Interface)
    (interfaces : List Interface) :
    walked (d.bytes ++ r) (some it) interfaces =
      walked r (some { it with endpoints := it.endpoints ++ [d.denoted] }) interfaces := by
  have hshort := d.short
  rw [← parseEndpoint_bytes d r]
  unfold EndpointDescriptor.bytes
  rw [walked_record (by simp; omega), if_neg (by simp), if_pos ⟨rfl, by simp; omega⟩,
    Option.map_some]

theorem walked_items (items : List Item) (r : List Byte) (it : Interface)
    (interfaces : List Interface) :
    walked (items.flatMap Item.bytes ++ r) (some it) interfaces =
      walked r (some { it with endpoints := it.endpoints ++ items.filterMap Item.endpoint? })
        interfaces := by
  induction items generalizing it with
  | nil => simp
  | cons item items ih =>
      rw [List.flatMap_cons, List.append_assoc]
      cases item with
      | endpoint d =>
          rw [Item.bytes, walked_endpoint, ih]
          simp [Item.endpoint?]
      | other d =>
          rw [Item.bytes, walked_other, ih]
          rfl

theorem walked_groups (groups : List Group) (current : Option Interface)
    (interfaces : List Interface) :
    walked (groups.flatMap Group.bytes) current interfaces =
      interfaces ++ current.toList ++ groups.map Group.denoted := by
  induction groups generalizing current interfaces with
  | nil =>
      rw [List.flatMap_nil, walked_short (by simp), List.map_nil, List.append_nil]
  | cons g groups ih =>
      rw [List.flatMap_cons, Group.bytes, List.append_assoc, walked_interface, walked_items, ih]
      simp only [List.nil_append, Option.toList_some, List.map_cons, List.append_assoc,
        List.cons_append]
      rfl

/-! ## What a longer header puts in the way -/

/-- Read by the lengths they carry, these are whole descriptors, none of which
the parser takes for an interface. -/
inductive Skipped : List Byte → Prop
  | nil : Skipped []
  | cons {len : Byte} {d rest : List Byte} (whole : len.toNat = d.length + 1)
      (other : ¬ (d.head? = some 4 ∧ 9 ≤ len)) (h : Skipped rest) : Skipped (len :: d ++ rest)

theorem walked_over {len : Byte} {d : List Byte} (whole : len.toNat = d.length + 1)
    (other : ¬ (d.head? = some 4 ∧ 9 ≤ len)) (r : List Byte) :
    walked (len :: d ++ r) none [] = walked r none [] := by
  have hne : len ≠ 0 := by
    rintro rfl
    exact absurd whole (by simp)
  cases hb : d ++ r with
  | nil =>
      -- A single byte: it is not even looked at.
      obtain ⟨rfl, rfl⟩ := List.append_eq_nil_iff.mp hb
      rfl
  | cons dtype tail =>
      have hbytes : len :: d ++ r = len :: dtype :: tail := by
        rw [List.cons_append, hb]
      have hlength : d.length + r.length = tail.length + 1 := by
        have := congrArg List.length hb
        rwa [List.length_append] at this
      have hdrop : (len :: dtype :: tail).drop len.toNat = r := by
        rw [← hb, whole, List.drop_succ_cons]
        exact List.drop_left' rfl
      have hno : ¬ (dtype = 4 ∧ 9 ≤ len) := by
        rintro ⟨rfl, hnine⟩
        refine other ⟨?_, hnine⟩
        have hnine : 9 ≤ len.toNat := UInt8.le_iff_toNat_le.mp hnine
        cases d with
        | nil =>
            simp only [List.length_nil] at whole
            omega
        | cons x d =>
            rw [List.cons_append] at hb
            exact congrArg some (List.cons.inj hb).1
      rw [hbytes, walked_step hne (by simp only [List.length_cons]; omega)]
      simp only [if_neg hno, hdrop, Option.map_none, ite_self]

theorem walked_skipped {e : List Byte} (h : Skipped e) (r : List Byte) :
    walked (e ++ r) none [] = walked r none [] := by
  induction h with
  | nil => rfl
  | cons whole other h ih => rw [List.append_assoc, walked_over whole other, ih]

/-- What is recorded stays recorded. -/
theorem length_walk (fuel : Nat) (b : List Byte) (current : Option Interface)
    (interfaces : List Interface) :
    interfaces.length + current.toList.length ≤ (walk fuel b current interfaces).length := by
  fun_induction walk fuel b current interfaces with
  | case1 => simp
  | case2 fuel len dtype rest current interfaces b hgo hinterface ih =>
      simp only [List.length_append, Option.toList_some, List.length_singleton] at ih
      omega
  | case3 fuel len dtype rest current interfaces b hgo hinterface hendpoint ih =>
      refine Nat.le_trans (Nat.le_of_eq ?_) ih
      cases current <;> rfl
  | case4 fuel len dtype rest current interfaces b hgo hinterface hendpoint ih => exact ih
  | case5 => simp

/-- Less than nine bytes hold no interface, and leave the number of the one
under way as it is. -/
theorem walk_few (fuel : Nat) (b : List Byte) (current : Option Interface)
    (interfaces : List Interface) (h : b.length < 9) :
    ∃ last : Option Interface, walk fuel b current interfaces = interfaces ++ last.toList ∧
      last.map (·.number) = current.map (·.number) := by
  fun_induction walk fuel b current interfaces with
  | case1 => exact ⟨_, rfl, rfl⟩
  | case2 fuel len dtype rest current interfaces b hgo hinterface ih =>
      have hnine : 9 ≤ len.toNat := UInt8.le_iff_toNat_le.mp hinterface.2
      exact absurd (Or.inr (Nat.lt_of_lt_of_le h hnine)) hgo
  | case3 fuel len dtype rest current interfaces b hgo hinterface hendpoint ih =>
      obtain ⟨last, hlast, hnumber⟩ := ih (Nat.lt_of_le_of_lt (List.drop_sublist ..).length_le h)
      refine ⟨last, hlast, hnumber.trans ?_⟩
      cases current <;> rfl
  | case4 fuel len dtype rest current interfaces b hgo hinterface hendpoint ih =>
      exact ih (Nat.lt_of_le_of_lt (List.drop_sublist ..).length_le h)
  | case5 => exact ⟨_, rfl, rfl⟩

/-- An interface with nothing to it but its number. -/
def bareGroup (n : Byte) : Group := ⟨⟨n, 0, 0, 0, 0, 0, 0, [], by decide⟩, []⟩

theorem bytes_bareGroup (n : Byte) : (bareGroup n).bytes = [9, 4, n, 0, 0, 0, 0, 0, 0] := rfl

theorem append_bareGroup (t : List Byte) (m : Byte) :
    ∃ dtype rest, t ++ (bareGroup m).bytes = dtype :: rest ∧ rest.length = t.length + 8 := by
  cases t with
  | nil => exact ⟨_, _, rfl, rfl⟩
  | cons x t => exact ⟨_, _, rfl, by simp [bytes_bareGroup]⟩

/-- A zero in the way stops the walk. -/
theorem walked_zero (t : List Byte) (m : Byte) :
    walked (0 :: t ++ (bareGroup m).bytes) none [] = [] := by
  obtain ⟨dtype, rest, hcons, -⟩ := append_bareGroup t m
  rw [List.cons_append, hcons, walked_stop (Or.inl rfl)]
  rfl

/-- An interface in the way is recorded. -/
theorem walked_recorded {len : Byte} {d : List Byte} (whole : len.toNat = d.length + 1)
    (hinterface : d.head? = some 4 ∧ 9 ≤ len) (r : List Byte) :
    walked (len :: d ++ r) none [] ≠ [] := by
  have hnine : 9 ≤ len.toNat := UInt8.le_iff_toNat_le.mp hinterface.2
  have hne : len ≠ 0 := by
    rintro rfl
    exact absurd hnine (by decide)
  obtain ⟨rest, rfl⟩ : ∃ rest, d = 4 :: rest := by
    cases d with
    | nil => exact absurd hinterface.1 (by simp)
    | cons x d => exact ⟨d, by rw [Option.some.inj hinterface.1]⟩
  intro hnil
  rw [List.cons_append, List.cons_append, walked_step hne (by
    simp only [List.length_cons, List.length_append] at whole ⊢
    omega)] at hnil
  simp only [hinterface.2, and_self, if_true] at hnil
  have hsome := length_walk ((len :: 4 :: (rest ++ r)).drop len.toNat).length
    ((len :: 4 :: (rest ++ r)).drop len.toNat) (some (parseInterface (len :: 4 :: (rest ++ r))))
      ([] ++ Option.toList none)
  rw [show walk _ _ _ _ = [] from hnil] at hsome
  simp at hsome

/-- A descriptor in the way that runs into the interface hides it: if it is
taken for an interface itself, its number is another one. -/
theorem walked_overrun {len : Byte} {t : List Byte} (hlen : (len :: t).length < len.toNat) :
    ∃ m, walked (len :: t ++ (bareGroup m).bytes) none [] ≠ [(bareGroup m).denoted] := by
  obtain ⟨m, hfour, hnine, hm⟩ : ∃ m : Byte, m ≠ 4 ∧ m ≠ 9 ∧ m ≠ t.getD 1 0 := by
    by_cases h0 : t.getD 1 0 = 0
    · exact ⟨1, by decide, by decide, by rw [h0]; decide⟩
    · exact ⟨0, by decide, by decide, fun h => h0 h.symm⟩
  have hnumber : (t ++ (bareGroup m).bytes).getD 1 0 ≠ m := by
    rcases t with _ | ⟨x, _ | ⟨y, t⟩⟩
    · exact hfour.symm
    · exact hnine.symm
    · exact hm.symm
  obtain ⟨dtype, rest, hcons, hlength⟩ := append_bareGroup t m
  have hne : len ≠ 0 := by
    rintro rfl
    simp at hlen
  refine ⟨m, ?_⟩
  rw [List.cons_append, hcons]
  rw [hcons] at hnumber
  by_cases hover : (len :: dtype :: rest).length < len.toNat
  · rw [walked_stop (Or.inr hover)]
    exact (List.cons_ne_nil _ _).symm
  have hfew : ((len :: dtype :: rest).drop len.toNat).length < 9 := by
    rw [List.length_drop]
    simp only [List.length_cons] at hlen ⊢
    omega
  rw [walked_step hne (Nat.not_lt.mp hover)]
  by_cases hinterface : dtype = 4 ∧ 9 ≤ len
  · obtain ⟨last, hlast, hsame⟩ := walk_few
      ((len :: dtype :: rest).drop len.toNat).length _
      (some (parseInterface (len :: dtype :: rest))) ([] ++ Option.toList none) hfew
    simp only [if_pos hinterface, walked, hlast]
    cases last with
    | none => exact (List.cons_ne_nil _ _).symm
    | some it =>
        intro heq
        have hit : it.number = m := congrArg Interface.number (List.cons.inj heq).1
        exact hnumber ((Option.some.inj hsame).symm.trans hit)
  · obtain ⟨last, hlast, hsame⟩ := walk_few
      ((len :: dtype :: rest).drop len.toNat).length _ none [] hfew
    simp only [if_neg hinterface, Option.map_none, ite_self, walked, hlast,
      Option.map_eq_none_iff.mp hsame]
    exact (List.cons_ne_nil _ _).symm

/-- Bytes that are not passed over get in the way of some configuration. -/
theorem exists_lost {e : List Byte} (h : ¬ Skipped e) :
    ∃ groups : List Group, (groups.flatMap Group.bytes).length ≤ 9 ∧
      walked (e ++ groups.flatMap Group.bytes) none [] ≠ groups.map Group.denoted := by
  induction hn : e.length using Nat.strongRecOn generalizing e with
  | _ n ih =>
  cases e with
  | nil => exact absurd .nil h
  | cons len t =>
  have hone : ∀ m, walked (len :: t ++ (bareGroup m).bytes) none [] ≠ [(bareGroup m).denoted] →
      ∃ groups : List Group, (groups.flatMap Group.bytes).length ≤ 9 ∧
        walked (len :: t ++ groups.flatMap Group.bytes) none [] ≠ groups.map Group.denoted :=
    fun m hm => ⟨[bareGroup m], by simp [bytes_bareGroup], by
      rwa [List.flatMap_singleton, List.map_singleton]⟩
  by_cases hzero : len = 0
  · subst hzero
    refine hone 0 ?_
    rw [walked_zero]
    exact (List.cons_ne_nil _ _).symm
  by_cases hover : (len :: t).length < len.toNat
  · obtain ⟨m, hm⟩ := walked_overrun hover
    exact hone m hm
  obtain ⟨k, hk⟩ : ∃ k, len.toNat = k + 1 :=
    Nat.exists_eq_succ_of_ne_zero fun h0 => hzero (UInt8.toNat_inj.mp h0)
  have hwhole : len.toNat = (t.take k).length + 1 := by
    rw [List.length_take]
    simp only [List.length_cons] at hover
    omega
  have hsplit : len :: t = len :: t.take k ++ t.drop k := by
    rw [List.cons_append, List.take_append_drop]
  by_cases hinterface : (t.take k).head? = some 4 ∧ 9 ≤ len
  · refine ⟨[], by simp, ?_⟩
    rw [hsplit, List.append_assoc]
    exact walked_recorded hwhole hinterface _
  · have hrest : ¬ Skipped (t.drop k) := by
      intro hrest
      rw [hsplit] at h
      exact h (.cons hwhole hinterface hrest)
    have hshorter : (t.drop k).length < n := by
      rw [← hn, List.length_drop, List.length_cons]
      omega
    obtain ⟨groups, hfew, hlost⟩ := ih _ hshorter hrest rfl
    refine ⟨groups, hfew, ?_⟩
    rwa [hsplit, List.append_assoc, walked_over hwhole hinterface]

/-! ## The parser -/

/-- `parse_configuration` behind a header: it returns on every buffer without
reading outside it, and a configuration with this header comes out as the
device means it. -/
structure ParsesFaithfully (h : Header) : Prop where
  safe : ∀ b, ∃ r, parseConfigurationAt b = .ok r
  exact : ∀ c : ConfigurationDescriptor, c.header = h →
    parseConfigurationAt c.bytes = .ok (some c.denoted)

theorem parseConfiguration_bytes (c : ConfigurationDescriptor) :
    parseConfiguration c.bytes =
      some { c.denoted with interfaces := walked (c.header.extra ++ c.body) none [] } := by
  have hshort := c.header.short
  have hfits : c.totalLength < 2 ^ 16 := c.fits
  have hbytes : c.bytes = UInt8.ofNat (c.header.extra.length + 9) :: 2 ::
      UInt8.ofNat c.totalLength :: UInt8.ofNat (c.totalLength / 256) :: c.header.numInterfaces ::
      c.header.configValue :: c.header.iConfiguration :: c.header.attributes ::
      c.header.maxPower :: (c.header.extra ++ c.body) := by
    have hrest : (leBytes 2 c.totalLength ++ [c.header.numInterfaces, c.header.configValue,
        c.header.iConfiguration, c.header.attributes, c.header.maxPower] ++
          c.header.extra).length + 2 = c.header.extra.length + 9 := by
      simp only [List.length_append, length_leBytes, List.length_cons, List.length_nil]
      omega
    rw [ConfigurationDescriptor.bytes, Spec.record, hrest]
    rfl
  have hlength : ¬ c.bytes.length < 9 := by
    rw [hbytes]
    simp
  have hheader : ¬ UInt8.ofNat (c.header.extra.length + 9) < 9 := by
    have hlen : (UInt8.ofNat (c.header.extra.length + 9)).toNat = c.header.extra.length + 9 :=
      UInt8.toNat_ofNat_of_lt (show c.header.extra.length + 9 < 256 by omega)
    rw [UInt8.lt_iff_toNat_lt, hlen]
    show ¬ c.header.extra.length + 9 < 9
    omega
  have htotal : le16 c.bytes 2 = c.totalLength := by
    rw [hbytes]
    show (UInt8.ofNat c.totalLength).toNat + 256 * (UInt8.ofNat (c.totalLength / 256)).toNat = _
    simp only [UInt8.toNat_ofNat']
    omega
  have hwalk : walk c.bytes.length (c.bytes.drop 9) none [] =
      walked (c.header.extra ++ c.body) none [] := by
    rw [show c.bytes.drop 9 = c.header.extra ++ c.body from congrArg (List.drop 9) hbytes]
    refine walk_fuel _ _ _ _ _ ?_ (Nat.le_refl _)
    rw [hbytes]
    simp only [List.length_cons]
    omega
  unfold parseConfiguration
  rw [hwalk, htotal, if_neg]
  · rw [hbytes]
    simp only [List.getD_cons_succ, List.getD_cons_zero, ConfigurationDescriptor.denoted,
      Nat.mul_comm]
  · rw [hbytes]
    rintro (h | h | h)
    · exact hlength (hbytes ▸ h)
    · exact hheader h
    · exact h rfl

/-- The parser is faithful to the headers whose bytes behind the ninth are
passed over; those of nine bytes are among them. -/
theorem parses_faithfully_iff (h : Header) : ParsesFaithfully h ↔ Skipped h.extra := by
  constructor
  · intro hp
    by_contra hno
    obtain ⟨groups, hfew, hlost⟩ := exists_lost hno
    have hshort := h.short
    have hexact := hp.exact ⟨h, [], groups, by
      simp only [bodyBytes, List.flatMap_nil, List.nil_append]
      omega⟩ rfl
    rw [parseConfigurationAt_eq, parseConfiguration_bytes] at hexact
    exact hlost (congrArg Configuration.interfaces (Option.some.inj (Outcome.ok.inj hexact)))
  · intro hskip
    refine ⟨fun b => ⟨_, parseConfigurationAt_eq b⟩, ?_⟩
    rintro c rfl
    rw [parseConfigurationAt_eq, parseConfiguration_bytes, walked_skipped hskip]
    rw [show walked c.body none [] = c.groups.map Group.denoted from
      (walked_preamble ..).trans (walked_groups ..)]
    rfl

/-- A header of ten bytes. -/
def longHeader : Header := ⟨1, 1, 0, 0x80, 50, [0], by decide⟩

/-- A drive with that header: one mass-storage interface, with an endpoint. -/
def longHeaderDrive : ConfigurationDescriptor where
  header := longHeader
  preamble := []
  groups :=
    [⟨⟨0, 0, 1, 8, 6, 0x50, 0, [], by decide⟩, [.endpoint ⟨0x81, 2, 512, 0, [], by decide⟩]⟩]
  fits := by decide

/-- Its interface is lost. -/
theorem long_header_loses_interface : ¬ ParsesFaithfully longHeader := by
  intro h
  have hparse : parseConfigurationAt longHeaderDrive.bytes = .ok (some
      ⟨26, 1, 1, 0x80, 100, []⟩) := by decide
  have hexact := h.exact longHeaderDrive rfl
  rw [hparse] at hexact
  exact absurd (congrArg Configuration.interfaces (Option.some.inj (Outcome.ok.inj hexact)))
    (List.cons_ne_nil _ _).symm

end Usb

end TablesOS
