import Mathlib.Data.Multiset.Bind
import Mathlib.Data.List.Nodup

/-!
# Objects that own the addresses they lie on

A memory `Nat → B` holds a bag of objects. An object has a footprint, the
addresses it lies on, and whether it is there depends on those alone. `Owned`
says that the free addresses and the footprints make up a given range, each
address once: nothing is lost and nothing is shared.

There is one rule, `Owned.step`. A step takes some free addresses and some
objects and leaves others on the same addresses; the rest of the bag needs no
argument, because no address of it can have been touched.
-/

namespace TablesOS

/-- Objects over blocks `B`. -/
structure Objects (B O : Type) where
  foot : O → List Nat
  ok : O → (Nat → B) → Prop
  frame : ∀ {o : O} {v v' : Nat → B}, (∀ p ∈ foot o, v' p = v p) → ok o v → ok o v'

variable {B O : Type}

namespace Objects

/-- All addresses of a bag of objects. -/
def feet (K : Objects B O) (objs : Multiset O) : Multiset Nat :=
  objs.bind fun o => (K.foot o : Multiset Nat)

variable (K : Objects B O)

@[simp] theorem feet_zero : K.feet 0 = 0 := Multiset.zero_bind _

@[simp] theorem feet_cons (o : O) (objs : Multiset O) :
    K.feet (o ::ₘ objs) = (K.foot o : Multiset Nat) + K.feet objs :=
  Multiset.cons_bind _ _ _

@[simp] theorem feet_add (s t : Multiset O) : K.feet (s + t) = K.feet s + K.feet t :=
  Multiset.add_bind _ _ _

@[simp] theorem feet_singleton (o : O) : K.feet {o} = (K.foot o : Multiset Nat) :=
  Multiset.singleton_bind _ _

theorem mem_feet {K : Objects B O} {objs : Multiset O} {p : Nat} :
    p ∈ K.feet objs ↔ ∃ o ∈ objs, p ∈ K.foot o := by
  rw [feet, Multiset.mem_bind]
  exact Iff.rfl

end Objects

/-- The free addresses and the objects of a memory, over the addresses
`range`. -/
structure Owned (K : Objects B O) (range : Multiset Nat) (view : Nat → B)
    (free : List Nat) (objs : Multiset O) : Prop where
  ok : ∀ o ∈ objs, K.ok o view
  cover : (free : Multiset Nat) + K.feet objs = range

namespace Owned

variable {K : Objects B O} {range : Multiset Nat} {view view' : Nat → B}
  {free free' : List Nat} {objs objs' rest : Multiset O}

theorem nodup (h : Owned K range view free objs) (hr : range.Nodup) :
    ((free : Multiset Nat) + K.feet objs).Nodup := by
  rw [h.cover]
  exact hr

theorem free_nodup (h : Owned K range view free objs) (hr : range.Nodup) : free.Nodup := by
  have hn := h.nodup hr
  rw [Multiset.nodup_add] at hn
  exact Multiset.coe_nodup.mp hn.1

/-- No address is both free and owned. -/
theorem not_mem_free (h : Owned K range view free objs) (hr : range.Nodup) {o : O}
    (ho : o ∈ objs) {p : Nat} (hp : p ∈ K.foot o) : p ∉ free := by
  have hn := h.nodup hr
  rw [Multiset.nodup_add] at hn
  intro hf
  exact Multiset.disjoint_left.mp hn.2.2 hf (Objects.mem_feet.mpr ⟨o, ho, hp⟩)

theorem foot_nodup (h : Owned K range view free objs) (hr : range.Nodup) {o : O}
    (ho : o ∈ objs) : (K.foot o).Nodup := by
  have hn := h.nodup hr
  obtain ⟨t, rfl⟩ := Multiset.exists_cons_of_mem ho
  rw [Multiset.nodup_add, Objects.feet_cons, Multiset.nodup_add] at hn
  exact Multiset.coe_nodup.mp hn.2.1.1

theorem mem_range_of_foot (h : Owned K range view free objs) {o : O} (ho : o ∈ objs)
    {p : Nat} (hp : p ∈ K.foot o) : p ∈ range := by
  rw [← h.cover, Multiset.mem_add]
  exact Or.inr (Objects.mem_feet.mpr ⟨o, ho, hp⟩)

theorem mem_range_of_free (h : Owned K range view free objs) {p : Nat} (hp : p ∈ free) :
    p ∈ range := by
  rw [← h.cover, Multiset.mem_add]
  exact Or.inl hp

/-- Two bags side by side share no address. -/
theorem disjoint (h : Owned K range view free (objs + rest)) (hr : range.Nodup) {p : Nat}
    (hp : p ∈ K.feet objs) : p ∉ K.feet rest := by
  have hn := h.nodup hr
  rw [Multiset.nodup_add, Objects.feet_add, Multiset.nodup_add] at hn
  exact Multiset.disjoint_left.mp hn.2.1.2.2 hp

/-- A step on some of the objects and free addresses. -/
theorem step (h : Owned K range view free (objs + rest)) (hr : range.Nodup)
    (hfeet : (free' : Multiset Nat) + K.feet objs' = (free : Multiset Nat) + K.feet objs)
    (hview : ∀ p, p ∉ free → p ∉ K.feet objs → view' p = view p)
    (hok : ∀ o ∈ objs', K.ok o view') : Owned K range view' free' (objs' + rest) := by
  refine ⟨fun o ho => ?_, ?_⟩
  · rcases Multiset.mem_add.mp ho with ho | ho
    · exact hok o ho
    · have hin : o ∈ objs + rest := Multiset.mem_add.mpr (Or.inr ho)
      refine K.frame (fun p hp => ?_) (h.ok o hin)
      refine hview p (h.not_mem_free hr hin hp) fun hobjs => ?_
      exact h.disjoint hr hobjs (Objects.mem_feet.mpr ⟨o, ho, hp⟩)
  · rw [← h.cover, Objects.feet_add, Objects.feet_add, ← add_assoc, hfeet, add_assoc]

/-- The same on one object. -/
theorem step_one {o o' : O} (h : Owned K range view free (o ::ₘ rest)) (hr : range.Nodup)
    (hfeet : (free' : Multiset Nat) + (K.foot o' : Multiset Nat) =
      (free : Multiset Nat) + (K.foot o : Multiset Nat))
    (hview : ∀ p, p ∉ free → p ∉ K.foot o → view' p = view p) (hok : K.ok o' view') :
    Owned K range view' free' (o' ::ₘ rest) := by
  rw [← Multiset.singleton_add] at h ⊢
  refine h.step hr (by simpa using hfeet) (fun p hp ho => hview p hp ?_) ?_
  · simpa using ho
  · intro x hx
    rw [Multiset.mem_singleton.mp hx]
    exact hok

end Owned

end TablesOS
