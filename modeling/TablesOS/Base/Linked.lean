import Mathlib.Algebra.GroupWithZero.Nat
import Mathlib.Data.List.Basic

/-!
# Sequences cut over linked blocks

A sequence of any length is stored in blocks of a fixed capacity, each with
the address of the next one, 0 after the last. Every block but the last is
full, so which block an element lies in is a division. `Layout` says how one
block is read; `Linked` says that a list of addresses holds a sequence.

A free list is the same thing with nothing in the blocks.
-/

namespace TablesOS

/-- How a block holds a link and at most `cap` items. -/
structure Layout (B α : Type) where
  cap : Nat
  cap_pos : 0 < cap
  holds : B → Nat → List α → Prop

variable {B α : Type}

/-- The blocks at `ps`, in order, hold the sequence `xs`. -/
inductive Linked (L : Layout B α) (view : Nat → B) : List Nat → List α → Prop where
  | last {p : Nat} {xs : List α} :
      xs.length ≤ L.cap → L.holds (view p) 0 xs → Linked L view [p] xs
  | more {p q : Nat} {ps : List Nat} {xs ys : List α} :
      xs.length = L.cap → ys ≠ [] → L.holds (view p) q xs → Linked L view (q :: ps) ys →
        Linked L view (p :: q :: ps) (xs ++ ys)

theorem getD_mem {l : List Nat} {i : Nat} (h : i < l.length) : l.getD i 0 ∈ l := by
  rw [List.getD_eq_getElem?_getD, List.getElem?_eq_getElem h]
  exact List.getElem_mem h

namespace Linked

variable {L : Layout B α} {view view' : Nat → B} {ps : List Nat} {xs : List α}

theorem ne_nil (h : Linked L view ps xs) : ps ≠ [] := by
  cases h <;> simp

theorem frame (h : Linked L view ps xs) (hv : ∀ p ∈ ps, view' p = view p) :
    Linked L view' ps xs := by
  induction h with
  | last hlen hh =>
      refine .last hlen ?_
      rw [hv _ List.mem_cons_self]
      exact hh
  | more hlen hne hh _ ih =>
      refine .more hlen hne ?_ (ih fun p hp => hv p (List.mem_cons_of_mem _ hp))
      rw [hv _ List.mem_cons_self]
      exact hh

theorem length_le (h : Linked L view ps xs) : xs.length ≤ ps.length * L.cap := by
  induction h with
  | last hlen _ => simpa using hlen
  | more hlen _ _ _ ih =>
      rw [List.length_append, List.length_cons, Nat.succ_mul]
      omega

/-- An element's block is in the list. -/
theorem div_lt (h : Linked L view ps xs) {k : Nat} (hk : k < xs.length) :
    k / L.cap < ps.length := by
  have hle := h.length_le
  exact (Nat.div_lt_iff_lt_mul L.cap_pos).mpr (by omega)

/-- All blocks but the last are full. -/
theorem length_gt (h : Linked L view ps xs) : (ps.length - 1) * L.cap ≤ xs.length ∧
    (2 ≤ ps.length → (ps.length - 1) * L.cap < xs.length) := by
  induction h with
  | last _ _ => simp
  | @more p q ps xs ys hlen hne _ _ ih =>
      have hpos : 0 < ys.length := List.length_pos_of_ne_nil hne
      simp only [List.length_cons, List.length_append, Nat.add_sub_cancel] at ih ⊢
      rw [Nat.succ_mul]
      refine ⟨by omega, fun _ => ?_⟩
      rcases Nat.eq_zero_or_pos ps.length with h0 | h0
      · rw [h0]
        omega
      · have := ih.2 (by omega)
        omega

/-- The block that element `k` lies in: its link, its items, and what writing
it anew does to the sequence. -/
theorem block (h : Linked L view ps xs) (hnd : ps.Nodup) {k : Nat}
    (hk : k < xs.length) : ∃ link pre chunk post, xs = pre ++ chunk ++ post ∧
      pre.length = k / L.cap * L.cap ∧ k - pre.length < chunk.length ∧
      chunk.length ≤ L.cap ∧ L.holds (view (ps.getD (k / L.cap) 0)) link chunk ∧
      ∀ (view' : Nat → B) (x : B) (chunk' : List α), chunk'.length = chunk.length →
        L.holds x link chunk' →
        (∀ p, p ≠ ps.getD (k / L.cap) 0 → view' p = view p) →
        view' (ps.getD (k / L.cap) 0) = x → Linked L view' ps (pre ++ chunk' ++ post) := by
  induction h generalizing k with
  | @last p xs hlen hh =>
      have h0 : k / L.cap = 0 := Nat.div_eq_of_lt (by omega)
      refine ⟨0, [], xs, [], by simp, by rw [h0]; simp, by simpa using hk, hlen, ?_, ?_⟩
      · rw [h0]
        exact hh
      · intro view' x chunk' hlen' hx _ hp
        rw [h0] at hp
        rw [List.nil_append, List.append_nil]
        refine .last (by omega) ?_
        rw [show view' p = x from hp]
        exact hx
  | @more p q ps xs ys hlen hne hh ht ih =>
      rw [List.nodup_cons] at hnd
      by_cases hlt : k < L.cap
      · have h0 : k / L.cap = 0 := Nat.div_eq_of_lt hlt
        refine ⟨q, [], xs, ys, by simp, by rw [h0]; simp, by simp only [List.length_nil]; omega,
          by omega, ?_, ?_⟩
        · rw [h0]
          exact hh
        · intro view' x chunk' hlen' hx hv hp
          rw [h0] at hp hv
          rw [List.nil_append]
          refine .more (by omega) hne ?_ (ht.frame fun r hr => hv r ?_)
          · rw [show view' p = x from hp]
            exact hx
          · rintro rfl
            exact hnd.1 hr
      · have hdiv : k / L.cap = (k - L.cap) / L.cap + 1 :=
          Nat.div_eq_sub_div L.cap_pos (by omega)
        rw [List.length_append] at hk
        obtain ⟨link, pre, chunk, post, hxs, hpre, hin, hcap, hh', hset⟩ :=
          @ih hnd.2 (k - L.cap) (by omega)
        have hget : (p :: q :: ps).getD (k / L.cap) 0 =
            (q :: ps).getD ((k - L.cap) / L.cap) 0 := by
          rw [hdiv, List.getD_cons_succ]
        have hmem : (q :: ps).getD ((k - L.cap) / L.cap) 0 ∈ q :: ps := by
          have hd := ht.div_lt (k := k - L.cap) (by omega)
          exact getD_mem hd
        rw [hget]
        refine ⟨link, xs ++ pre, chunk, post, ?_, ?_, ?_, hcap, hh', ?_⟩
        · rw [hxs]
          simp only [List.append_assoc]
        · rw [List.length_append, hpre, hdiv, Nat.succ_mul]
          omega
        · rw [List.length_append]
          omega
        · intro view' x chunk' hlen' hx hv hp
          have hys : (pre ++ chunk' ++ post) ≠ [] := by
            intro hnil
            have hl := congrArg List.length hnil
            simp only [List.length_append, List.length_nil] at hl
            omega
          have hrest := hset view' x chunk' hlen' hx hv hp
          rw [List.append_assoc, List.append_assoc, ← List.append_assoc pre]
          refine .more hlen hys ?_ hrest
          rw [hv p fun heq => hnd.1 (heq ▸ hmem)]
          exact hh

/-- Overwriting one element: the block it lies in is written anew. -/
theorem set (h : Linked L view ps xs) (hnd : ps.Nodup) {k : Nat} (hk : k < xs.length)
    (v : α) : ∃ link chunk, L.holds (view (ps.getD (k / L.cap) 0)) link chunk ∧
      k % L.cap < chunk.length ∧ chunk.length ≤ L.cap ∧
      chunk[k % L.cap]? = xs[k]? ∧
      ∀ (view' : Nat → B) (x : B), L.holds x link (chunk.set (k % L.cap) v) →
        (∀ p, p ≠ ps.getD (k / L.cap) 0 → view' p = view p) →
        view' (ps.getD (k / L.cap) 0) = x → Linked L view' ps (xs.set k v) := by
  obtain ⟨link, pre, chunk, post, rfl, hpre, hin, hcap, hh, hset⟩ := h.block hnd hk
  have hmod : k - pre.length = k % L.cap := by
    rw [hpre]
    have h := Nat.div_add_mod' k L.cap
    omega
  have hge : pre.length ≤ k := by
    rw [hpre]
    exact Nat.div_mul_le_self k L.cap
  rw [hmod] at hin
  refine ⟨link, chunk, hh, hin, hcap, ?_, fun view' x hx hv hp => ?_⟩
  · rw [List.append_assoc, List.getElem?_append_right hge, hmod,
      List.getElem?_append_left hin]
  · have hnew := hset view' x (chunk.set (k % L.cap) v) List.length_set hx hv hp
    rw [List.append_assoc, List.set_append_right _ _ hge, hmod, List.set_append_left _ _ hin,
      ← List.append_assoc]
    exact hnew

theorem getLastD_mem {l : List Nat} (h : l ≠ []) : l.getLastD 0 ∈ l := by
  rw [List.getLastD_eq_getLast?, List.getLast?_eq_some_getLast h]
  exact List.getLast_mem h

/-- The last block: its items, and what writing it anew or linking a block
behind it does to the sequence. -/
theorem tail (h : Linked L view ps xs) (hnd : ps.Nodup) : ∃ pre chunk, xs = pre ++ chunk ∧
    pre.length = (ps.length - 1) * L.cap ∧ chunk.length ≤ L.cap ∧
    L.holds (view (ps.getLastD 0)) 0 chunk ∧
    ∀ view' : Nat → B, (∀ p, p ≠ ps.getLastD 0 → p ∈ ps → view' p = view p) →
      (∀ chunk' : List α, chunk' ≠ [] → chunk'.length ≤ L.cap →
        L.holds (view' (ps.getLastD 0)) 0 chunk' → Linked L view' ps (pre ++ chunk')) ∧
      ∀ (q : Nat) (ys : List α), chunk.length = L.cap →
        L.holds (view' (ps.getLastD 0)) q chunk → ys ≠ [] → ys.length ≤ L.cap →
        L.holds (view' q) 0 ys → Linked L view' (ps ++ [q]) (xs ++ ys) := by
  induction h with
  | @last p xs hlen hh =>
      refine ⟨[], xs, rfl, by simp, hlen, hh, fun view' _ => ⟨fun chunk' _ hc hh' => ?_,
        fun q ys hfull hq hne hy hh' => ?_⟩⟩
      · exact .last hc hh'
      · exact .more hfull hne hq (.last hy hh')
  | @more p q ps xs ys hlen hne hh ht ih =>
      rw [List.nodup_cons] at hnd
      obtain ⟨pre, chunk, hxs, hpre, hcap, hh', hset⟩ := ih hnd.2
      have hlast : (p :: q :: ps).getLastD 0 = (q :: ps).getLastD 0 := by
        simp only [List.getLastD_cons]
      have hmem : (q :: ps).getLastD 0 ∈ q :: ps := getLastD_mem (by simp)
      rw [hlast]
      refine ⟨xs ++ pre, chunk, by rw [hxs, List.append_assoc], ?_, hcap, hh',
        fun view' hv => ?_⟩
      · simp only [List.length_append, List.length_cons, Nat.add_sub_cancel] at hpre ⊢
        rw [hlen, hpre, Nat.succ_mul]
        omega
      · obtain ⟨h1, h2⟩ := hset view' fun r hr hin => hv r hr (List.mem_cons_of_mem _ hin)
        have hp : view' p = view p :=
          hv p (fun h => hnd.1 (h ▸ hmem)) List.mem_cons_self
        refine ⟨fun chunk' hc hlen' hh'' => ?_, fun r zs hfull hr hz hzl hh'' => ?_⟩
        · rw [List.append_assoc]
          refine .more hlen (by simp [hc]) ?_ (h1 chunk' hc hlen' hh'')
          rw [hp]
          exact hh
        · rw [List.append_assoc, List.cons_append, List.cons_append]
          refine .more hlen (by simp [hz]) ?_ (h2 r zs hfull hr hz hzl hh'')
          rw [hp]
          exact hh

end Linked

/-! ## Counting blocks -/

/-- How many blocks a sequence of `n` items is cut over. -/
def blocks (cap n : Nat) : Nat := max 1 ((n + cap - 1) / cap)

theorem blocks_mono {cap m n : Nat} (h : m ≤ n) : blocks cap m ≤ blocks cap n := by
  have hdiv : (m + cap - 1) / cap ≤ (n + cap - 1) / cap := Nat.div_le_div_right (by omega)
  unfold blocks
  omega

/-- The contents say how many blocks there are. -/
theorem Linked.length_blocks {L : Layout B α} {view : Nat → B} {ps : List Nat} {xs : List α}
    (h : Linked L view ps xs) : ps.length = blocks L.cap xs.length := by
  have hle := h.length_le
  obtain ⟨-, hgt⟩ := h.length_gt
  have hpos := List.length_pos_of_ne_nil h.ne_nil
  have hcap := L.cap_pos
  have hup : (xs.length + L.cap - 1) / L.cap ≤ ps.length := by
    rw [Nat.div_le_iff_le_mul_add_pred hcap, Nat.mul_comm]
    omega
  unfold blocks
  rcases Nat.lt_or_ge 1 ps.length with h2 | h1
  · have hmany := hgt h2
    have hlow : ps.length ≤ (xs.length + L.cap - 1) / L.cap := by
      rw [Nat.le_div_iff_mul_le hcap]
      obtain ⟨n, hn⟩ := Nat.exists_eq_succ_of_ne_zero (by omega : ps.length ≠ 0)
      rw [hn, Nat.succ_sub_one] at hmany
      rw [hn, Nat.succ_mul]
      omega
    omega
  · omega

/-! ## Free lists -/

/-- `F` is the list of free blocks that starts at `head`. -/
inductive FreeList (next : B → Nat) (view : Nat → B) : Nat → List Nat → Prop where
  | nil : FreeList next view 0 []
  | cons {p : Nat} {F : List Nat} : p ≠ 0 → FreeList next view (next (view p)) F →
      FreeList next view p (p :: F)

namespace FreeList

variable {next : B → Nat} {view view' : Nat → B} {head : Nat} {F : List Nat}

theorem frame (h : FreeList next view head F) (hv : ∀ p ∈ F, view' p = view p) :
    FreeList next view' head F := by
  induction h with
  | nil => exact .nil
  | cons hp _ ih =>
      refine .cons hp ?_
      rw [hv _ List.mem_cons_self]
      exact ih fun q hq => hv q (List.mem_cons_of_mem _ hq)

theorem head_eq_zero (h : FreeList next view head F) : head = 0 ↔ F = [] := by
  cases h with
  | nil => simp
  | cons hp _ => simp [hp]

theorem ne_zero (h : FreeList next view head F) : ∀ p ∈ F, p ≠ 0 := by
  induction h with
  | nil => exact fun p hp => absurd hp List.not_mem_nil
  | cons hp _ ih =>
      intro q hq
      rcases List.mem_cons.mp hq with rfl | hq
      · exact hp
      · exact ih q hq

/-- Only one list starts at a given head. -/
theorem unique (h : FreeList next view head F) {G : List Nat} (hG : FreeList next view head G) :
    F = G := by
  induction h generalizing G with
  | nil =>
      cases hG with
      | nil => rfl
      | cons hp _ => exact absurd rfl hp
  | cons hp _ ih =>
      cases hG with
      | nil => exact absurd rfl hp
      | cons _ hG => rw [ih hG]

theorem from_mem {l G : List Nat} {q : Nat} (h : FreeList next view head (l ++ q :: G)) :
    FreeList next view q (q :: G) := by
  induction l generalizing head with
  | nil =>
      cases h with
      | cons hp h => exact .cons hp h
  | cons p l ih =>
      cases h with
      | cons _ h => exact ih h

/-- A list that ends has no block twice. -/
theorem nodup (h : FreeList next view head F) : F.Nodup := by
  induction h with
  | nil => exact List.nodup_nil
  | @cons p F hp h ih =>
      refine List.nodup_cons.mpr ⟨fun hmem => ?_, ih⟩
      obtain ⟨l, G, rfl⟩ := List.append_of_mem hmem
      -- from `p` on there would be two lists, one of them longer
      have htwo := (FreeList.cons hp h).unique (from_mem h)
      have hlen := congrArg List.length htwo
      simp only [List.length_cons, List.length_append] at hlen
      omega

end FreeList

end TablesOS
