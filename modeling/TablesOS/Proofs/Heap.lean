import TablesOS.Base.Arena
import TablesOS.Base.Linked
import TablesOS.Proofs.Steady
import Mathlib.Data.List.GetD
import Mathlib.Data.List.TakeDrop

/-!
# Pages, chains and the allocator

The data pages of a volume are split among the free pages and the objects of
the store: blob chains, index chains and pages just taken. `Holds` says so of
the state of a transaction body, and each primitive of the store is one lemma
about what it does to the free pages and to the objects it names. The other
objects need no argument: no page of theirs can have been touched.

The free list and the never-used pages are one list here, the order in which
the allocator hands pages out.
-/

namespace TablesOS

open Prog Medium Journal

/-! ## Volumes -/

/-- The committed pages of a volume, and how the device answers for them. -/
structure Volume where
  total : Nat
  pages : Nat → Page
  load : Nat → Outcome StoreError Page
  total_lt : total < 2 ^ 64
  load_eq : ∀ p, firstDataPage ≤ p → p < total → load p = .ok (pages p)

namespace Volume

variable (V : Volume)

/-- What a body reads when nothing is staged. -/
abbrev base : Superblock → Nat → Outcome StoreError Page := Pager.base V.load

/-- Page `p` as a body sees it. -/
def view (s : Staged Superblock Page) (p : Nat) : Page := (s.dirty[p]?).getD (V.pages p)

variable {V} {s : Staged Superblock Page}

theorem read_eq (hT : s.ctl.totalPages = V.total) {p : Nat} (hp : firstDataPage ≤ p)
    (hlt : p < V.total) : s.read V.base p = .ok (V.view s p) := by
  unfold Staged.read view
  cases s.dirty[p]? with
  | some x => rfl
  | none =>
      simp only [base, Pager.base]
      rw [if_neg (by omega), if_neg (by omega), V.load_eq p hp hlt]
      rfl

@[simp] theorem view_ctl (sb : Superblock) : V.view { s with ctl := sb } = V.view s := rfl

theorem view_insert (sb : Superblock) (p : Nat) (x : Page) :
    V.view ⟨sb, s.dirty.insert p x⟩ = upd (V.view s) p x := by
  funext q
  unfold view upd
  rw [Std.TreeMap.getElem?_insert]
  by_cases hqp : q = p
  · rw [if_pos (Nat.compare_eq_eq.mpr hqp.symm), if_pos hqp]
    rfl
  · rw [if_neg fun h => hqp (Nat.compare_eq_eq.mp h).symm, if_neg hqp]

end Volume

/-- The data pages of a volume of `T` pages. -/
def dataPages (T : Nat) : Multiset Nat := (List.range' firstDataPage (T - firstDataPage) : List Nat)

theorem nodup_dataPages (T : Nat) : (dataPages T).Nodup :=
  Multiset.coe_nodup.mpr List.nodup_range'

theorem mem_dataPages {T p : Nat} : p ∈ dataPages T ↔ firstDataPage ≤ p ∧ p < T := by
  rw [dataPages, Multiset.mem_coe, List.mem_range'_1]
  omega

namespace Store

open Pager

@[simp] theorem eval_getSb (rd : Nat → Outcome StoreError Page) (sb : Superblock) :
    getSb.eval rd sb = .ok sb := rfl

@[simp] theorem eval_getPage (rd : Nat → Outcome StoreError Page) (sb : Superblock) (p : Nat) :
    (getPage p).eval rd sb = rd p :=
  Query.eval_fetch rd sb p

/-! ## Objects -/

/-- The link word that every chain and the free list share. -/
def linkOf (page : Page) : Nat := rdU64 page 0

/-- A page of a blob chain. -/
def blobLayout : Layout Page Byte where
  cap := chainCap
  cap_pos := by decide
  holds page link chunk := linkOf page = link ∧ rdU64 page 8 = chunk.length ∧
    page.slice chainHdr chunk.length = chunk

/-- A page of an index chain. -/
def indexLayout : Layout Page Nat where
  cap := idxCap
  cap_pos := by decide
  holds page link slots := linkOf page = link ∧ rdU64 page 8 = slots.length ∧
    ∀ i, i < slots.length → rdU64 page (idxHdr + i * 8) = slots.getD i 0

@[simp] theorem cap_blobLayout : blobLayout.cap = chainCap := rfl

@[simp] theorem cap_indexLayout : indexLayout.cap = idxCap := rfl

/-- What data pages are used for: pages just taken, a byte string, the row
heads of a table. -/
inductive Obj where
  | raw (ps : List Nat)
  | blob (ps : List Nat) (bytes : List Byte)
  | index (ps : List Nat) (slots : List Nat)

namespace Obj

/-- The pages an object lies on, in order. -/
def pages : Obj → List Nat
  | raw ps => ps
  | blob ps _ => ps
  | index ps _ => ps

def ok : Obj → (Nat → Page) → Prop
  | raw _, _ => True
  | blob ps bytes, v => Linked blobLayout v ps bytes
  | index ps slots, v => Linked indexLayout v ps slots

end Obj

/-- The objects of the store. -/
def objects : Objects Page Obj where
  foot := Obj.pages
  ok := Obj.ok
  frame {o} := by
    intro v v' hv h
    cases o with
    | raw ps => trivial
    | blob ps bytes => exact Linked.frame h hv
    | index ps slots => exact Linked.frame h hv

@[simp] theorem foot_raw (ps : List Nat) : objects.foot (.raw ps) = ps := rfl

@[simp] theorem foot_blob (ps : List Nat) (bytes : List Byte) :
    objects.foot (.blob ps bytes) = ps := rfl

@[simp] theorem foot_index (ps slots : List Nat) : objects.foot (.index ps slots) = ps := rfl

/-! ## States -/

/-- The pages the allocator hands out next, in order: the free list, then the
pages above the high-water mark. -/
def Avail (sb : Superblock) (v : Nat → Page) (avail : List Nat) : Prop :=
  ∃ F, FreeList linkOf v sb.freeHead F ∧
    avail = F ++ List.range' sb.hwm (sb.totalPages - sb.hwm)

/-- The free pages and the objects of the state of a body. -/
structure Holds (V : Volume) (s : Staged Superblock Page) (avail : List Nat)
    (objs : Multiset Obj) : Prop where
  size : s.ctl.totalPages = V.total
  low : firstDataPage ≤ s.ctl.hwm
  high : s.ctl.hwm ≤ V.total
  free : Avail s.ctl (V.view s) avail
  owned : Owned objects (dataPages V.total) (V.view s) avail objs

/-- What a step on the pages `ps` leaves alone. -/
structure Moves (s s' : Staged Superblock Page) (ps : List Nat) : Prop where
  catalog : s'.ctl.catalogHead = s.ctl.catalogHead
  generation : s'.ctl.generation = s.ctl.generation
  staged : ∀ q, q ∈ s'.dirty ↔ q ∈ s.dirty ∨ q ∈ ps

namespace Moves

variable {s s' s'' : Staged Superblock Page} {ps qs : List Nat}

theorem refl (s : Staged Superblock Page) : Moves s s [] := ⟨rfl, rfl, fun q => by simp⟩

theorem trans (h : Moves s s' ps) (h' : Moves s' s'' qs) : Moves s s'' (ps ++ qs) :=
  ⟨h'.catalog.trans h.catalog, h'.generation.trans h.generation, fun q => by
    rw [h'.staged, h.staged, List.mem_append, or_assoc]⟩

theorem congr (h : Moves s s' ps) (hps : ∀ q, q ∈ ps ↔ q ∈ qs) : Moves s s' qs :=
  ⟨h.catalog, h.generation, fun q => by rw [h.staged, hps]⟩

end Moves

theorem mem_insert_iff {m : PageMap} {p q : Nat} {x : Page} :
    q ∈ m.insert p x ↔ q ∈ m ∨ q = p := by
  rw [Std.TreeMap.mem_insert, Nat.compare_eq_eq, or_comm, eq_comm]

namespace Holds

variable {V : Volume} {s : Staged Superblock Page} {avail : List Nat} {objs : Multiset Obj}

theorem mem_range_of_foot (h : Holds V s avail objs) {o : Obj} (ho : o ∈ objs) {p : Nat}
    (hp : p ∈ objects.foot o) : firstDataPage ≤ p ∧ p < V.total :=
  mem_dataPages.mp (h.owned.mem_range_of_foot ho hp)

theorem mem_range_of_avail (h : Holds V s avail objs) {p : Nat} (hp : p ∈ avail) :
    firstDataPage ≤ p ∧ p < V.total :=
  mem_dataPages.mp (h.owned.mem_range_of_free hp)

theorem avail_nodup (h : Holds V s avail objs) : avail.Nodup :=
  h.owned.free_nodup (nodup_dataPages _)

theorem foot_nodup (h : Holds V s avail objs) {o : Obj} (ho : o ∈ objs) :
    (objects.foot o).Nodup :=
  h.owned.foot_nodup (nodup_dataPages _) ho

theorem read_foot (h : Holds V s avail objs) {o : Obj} (ho : o ∈ objs) {p : Nat}
    (hp : p ∈ objects.foot o) : s.read V.base p = .ok (V.view s p) :=
  Volume.read_eq h.size (h.mem_range_of_foot ho hp).1 (h.mem_range_of_foot ho hp).2

theorem freeHead_mem (h : Holds V s avail objs) (hne : s.ctl.freeHead ≠ 0) :
    s.ctl.freeHead ∈ avail := by
  obtain ⟨F, hF, rfl⟩ := h.free
  generalize s.ctl.freeHead = head at hF hne
  cases hF with
  | nil => exact absurd rfl hne
  | cons _ _ => exact List.mem_append_left _ List.mem_cons_self

/-- The free-list head is a page of the volume or 0. -/
theorem freeHead_lt (h : Holds V s avail objs) : s.ctl.freeHead < 2 ^ 64 := by
  by_cases hne : s.ctl.freeHead = 0
  · rw [hne]
    decide
  · have hlt := (h.mem_range_of_avail (h.freeHead_mem hne)).2
    have hT := V.total_lt
    omega

end Holds

/-! ## Taking a page -/

section Alloc

variable {V : Volume} {s : Staged Superblock Page} {p : Nat} {avail : List Nat}
  {objs : Multiset Obj} {rd : Superblock → Nat → Outcome StoreError Page}

/-- The state after page `p` is taken, `sb` being the superblock without it. -/
theorem Holds.take (h : Holds V s (p :: avail) objs) (sb : Superblock)
    (hsize : sb.totalPages = V.total) (hlow : firstDataPage ≤ sb.hwm)
    (hhigh : sb.hwm ≤ V.total) (x : Page)
    (hfree : Avail sb (upd (V.view s) p x) avail) :
    Holds V ⟨sb, s.dirty.insert p x⟩ avail (.raw [p] ::ₘ objs) := by
  have hview : V.view ⟨sb, s.dirty.insert p x⟩ = upd (V.view s) p x := V.view_insert _ p x
  refine ⟨hsize, hlow, hhigh, by rw [hview]; exact hfree, ?_⟩
  rw [hview, ← Multiset.singleton_add]
  have h0 : Owned objects (dataPages V.total) (V.view s) (p :: avail) (0 + objs) := by
    rw [zero_add]
    exact h.owned
  refine h0.step (nodup_dataPages _) ?_ (fun q hq _ => ?_) ?_
  · simp only [Objects.feet_singleton, foot_raw, Objects.feet_zero, add_zero]
    exact Multiset.coe_eq_coe.mpr (List.perm_append_singleton p avail)
  · exact upd_other fun hqp => hq (hqp ▸ List.mem_cons_self)
  · intro o ho
    rw [Multiset.mem_singleton.mp ho]
    trivial

theorem allocPage_reuse (hne : s.ctl.freeHead ≠ 0) {img : Page}
    (hread : s.read rd s.ctl.freeHead = .ok img) :
    allocPage.eval rd s = (.ok s.ctl.freeHead,
      ⟨{ s.ctl with freeHead := linkOf img }, s.dirty.insert s.ctl.freeHead zeroedPage⟩) := by
  unfold allocPage
  refine (eval_query_bind _ (eval_getSb _ _)).trans ?_
  rw [if_pos hne]
  refine (eval_query_bind _ ((eval_getPage _ _ _).trans hread)).trans ?_
  rfl

theorem allocPage_extend (h0 : s.ctl.freeHead = 0) (hlt : s.ctl.hwm < s.ctl.totalPages) :
    allocPage.eval rd s = (.ok s.ctl.hwm,
      ⟨{ s.ctl with hwm := s.ctl.hwm + 1 }, s.dirty.insert s.ctl.hwm zeroedPage⟩) := by
  unfold allocPage
  refine (eval_query_bind _ (eval_getSb _ _)).trans ?_
  rw [if_neg (not_not.mpr h0), if_pos hlt]
  rfl

theorem allocPage_none (h0 : s.ctl.freeHead = 0) (hge : ¬ s.ctl.hwm < s.ctl.totalPages) :
    allocPage.eval rd s = (.err .outOfSpace, s) := by
  unfold allocPage
  refine (eval_query_bind _ (eval_getSb _ _)).trans ?_
  rw [if_neg (not_not.mpr h0), if_neg hge]
  rfl

/-- `alloc_page` takes the first of the pages there are to hand out, and the
rest stay. -/
theorem allocPage_avail (h : Avail s.ctl (V.view s) (p :: avail)) (hnd : (p :: avail).Nodup)
    (hread : s.ctl.freeHead ≠ 0 →
      s.read rd s.ctl.freeHead = .ok (V.view s s.ctl.freeHead)) :
    ∃ sb : Superblock, allocPage.eval rd s = (.ok p, ⟨sb, s.dirty.insert p zeroedPage⟩) ∧
      Avail sb (upd (V.view s) p zeroedPage) avail ∧ sb.totalPages = s.ctl.totalPages ∧
      sb.catalogHead = s.ctl.catalogHead ∧ sb.generation = s.ctl.generation ∧
      (sb.hwm = s.ctl.hwm ∨ sb.hwm = s.ctl.hwm + 1 ∧ s.ctl.hwm < s.ctl.totalPages) := by
  obtain ⟨F, hF, havail⟩ := h
  rw [List.nodup_cons] at hnd
  generalize hhead : s.ctl.freeHead = head at hF
  cases hF with
  | @cons p' F hp0 hF =>
      injection havail with hpe havail
      subst hpe hhead
      refine ⟨_, allocPage_reuse hp0 (hread hp0), ⟨F, ?_, havail⟩, rfl, rfl, rfl, Or.inl rfl⟩
      refine hF.frame fun q hq => upd_other fun hqp => hnd.1 ?_
      rw [havail, ← hqp]
      exact List.mem_append_left _ hq
  | nil =>
      have hlt : s.ctl.hwm < s.ctl.totalPages := by
        by_contra hge
        rw [show s.ctl.totalPages - s.ctl.hwm = 0 by omega] at havail
        cases havail
      rw [show s.ctl.totalPages - s.ctl.hwm = (s.ctl.totalPages - (s.ctl.hwm + 1)) + 1 by omega,
        List.range'_succ, List.nil_append] at havail
      injection havail with hpe havail
      subst hpe
      refine ⟨_, allocPage_extend hhead hlt, ⟨[], ?_, havail⟩, rfl, rfl, rfl, Or.inr ⟨rfl, hlt⟩⟩
      show FreeList linkOf _ s.ctl.freeHead []
      rw [hhead]
      exact .nil

/-- `alloc_page` hands out the first free page, zeroed. -/
theorem allocPage_run (h : Holds V s (p :: avail) objs) :
    ∃ s', allocPage.eval V.base s = (.ok p, s') ∧
      Holds V s' avail (.raw [p] ::ₘ objs) ∧ Moves s s' [p] ∧
      V.view s' = upd (V.view s) p zeroedPage := by
  have hstaged : ∀ q, q ∈ s.dirty.insert p zeroedPage ↔ q ∈ s.dirty ∨ q ∈ [p] := fun q => by
    rw [mem_insert_iff, List.mem_singleton]
  have hread : s.ctl.freeHead ≠ 0 →
      s.read V.base s.ctl.freeHead = .ok (V.view s s.ctl.freeHead) := by
    intro hne
    obtain ⟨hlow, hhigh⟩ := h.mem_range_of_avail (h.freeHead_mem hne)
    exact Volume.read_eq h.size hlow hhigh
  obtain ⟨sb, he, havail, hsize, hcat, hgen, hhwm⟩ := allocPage_avail h.free h.avail_nodup hread
  have hlow := h.low
  have hhigh := h.high
  have hsize' := hsize.trans h.size
  have hT := h.size
  refine ⟨_, he, h.take sb hsize' ?_ ?_ zeroedPage havail, ⟨hcat, hgen, hstaged⟩,
    V.view_insert _ _ _⟩
  · omega
  · omega

/-- With no page left it reports so. -/
theorem allocPage_empty {v : Nat → Page} (h : Avail s.ctl v []) :
    allocPage.eval rd s = (.err .outOfSpace, s) := by
  obtain ⟨F, hF, havail⟩ := h
  obtain ⟨rfl, hrange⟩ := List.append_eq_nil_iff.mp havail.symm
  have hfree : s.ctl.freeHead = 0 := hF.head_eq_zero.mpr rfl
  have hge : ¬ s.ctl.hwm < s.ctl.totalPages := by
    rw [List.range'_eq_nil_iff] at hrange
    omega
  exact allocPage_none hfree hge

theorem allocPage_full (h : Holds V s [] objs) :
    allocPage.eval V.base s = (.err .outOfSpace, s) :=
  allocPage_empty h.free

end Alloc

/-! ## Writing a chain -/

theorem nchunks_le {bytes : List Byte} (h : bytes.length ≤ chainCap) : nchunks bytes = 1 := by
  unfold nchunks
  cases bytes with
  | nil => rfl
  | cons b bytes =>
      rw [if_neg (by simp)]
      simp only [List.length_cons] at h ⊢
      have hcap : 0 < chainCap := by decide
      rw [Nat.div_eq_iff hcap]
      omega

theorem nchunks_gt {bytes : List Byte} (h : chainCap < bytes.length) :
    nchunks bytes = nchunks (bytes.drop chainCap) + 1 := by
  have hcap : 0 < chainCap := by decide
  have hne : bytes.isEmpty = false := by
    cases bytes with
    | nil => simp at h
    | cons b bytes => rfl
  have hne' : (bytes.drop chainCap).isEmpty = false := by
    rw [List.isEmpty_eq_false_iff, ne_eq, List.drop_eq_nil_iff]
    omega
  unfold nchunks
  rw [hne, hne', List.length_drop]
  simp only [Bool.false_eq_true, if_false]
  rw [show bytes.length + chainCap - 1 = (bytes.length - chainCap + chainCap - 1) + chainCap by
    omega, Nat.add_div_right _ hcap]

theorem nchunks_pos (bytes : List Byte) : 0 < nchunks bytes := by
  by_cases h : bytes.length ≤ chainCap
  · rw [nchunks_le h]
    exact Nat.one_pos
  · rw [nchunks_gt (by omega)]
    exact Nat.succ_pos _

theorem holds_chunkPage {next : Nat} {chunk : List Byte} (hn : next < 2 ^ 64)
    (hc : chunk.length ≤ chainCap) :
    blobLayout.holds (chunkPage next chunk) next chunk := by
  have hsize : chainHdr + chunk.length ≤ pageSize := by
    simp only [chainCap] at hc
    have hle : chainHdr ≤ pageSize := by decide
    omega
  have hhdr : chainHdr = 16 := rfl
  unfold chunkPage
  refine ⟨?_, ?_, ?_⟩
  · unfold linkOf rdU64 wrU64
    rw [Buf.getLe_put_disjoint (by omega), Buf.getLe_putLe_disjoint (by omega)]
    exact Buf.getLe_putLe_self (by decide) hn
  · unfold rdU64 wrU64
    rw [Buf.getLe_put_disjoint (by omega)]
    refine Buf.getLe_putLe_self (by decide) ?_
    have hpage : pageSize < 256 ^ 8 := by decide
    omega
  · exact Buf.slice_put_self hsize

section Chains

variable {V : Volume} {rd : Superblock → Nat → Outcome StoreError Page}

/-- The same pages, put to another use. -/
theorem Holds.recast {s : Staged Superblock Page} {avail : List Nat}
    {a b objs : Multiset Obj} (h : Holds V s avail (a + objs))
    (hfeet : objects.feet b = objects.feet a)
    (hok : ∀ o ∈ b, objects.ok o (V.view s)) : Holds V s avail (b + objs) :=
  ⟨h.size, h.low, h.high, h.free, h.owned.step (nodup_dataPages _) (by rw [hfeet])
    (fun _ _ _ => rfl) hok⟩

theorem allocPages_run {n : Nat} : ∀ {s : Staged Superblock Page} {avail : List Nat}
    {objs : Multiset Obj}, Holds V s avail objs → n ≤ avail.length →
    ∃ s', (allocPages n).eval V.base s = (.ok (avail.take n), s') ∧
      Holds V s' (avail.drop n) (.raw (avail.take n) ::ₘ objs) ∧
      Moves s s' (avail.take n) := by
  induction n with
  | zero =>
      intro s avail objs h _
      refine ⟨s, rfl, ?_, Moves.refl s⟩
      rw [List.take_zero, List.drop_zero, ← Multiset.singleton_add]
      rw [← zero_add objs] at h
      refine h.recast (by simp) fun o ho => ?_
      rw [Multiset.mem_singleton.mp ho]
      trivial
  | succ n ih =>
      intro s avail objs h hn
      cases avail with
      | nil => simp at hn
      | cons p avail =>
          obtain ⟨s₁, he₁, h₁, hm₁, -⟩ := allocPage_run h
          obtain ⟨s₂, he₂, h₂, hm₂⟩ := ih h₁ (Nat.le_of_succ_le_succ hn)
          refine ⟨s₂, ?_, ?_, hm₁.trans hm₂⟩
          · rw [allocPages, eval_bind_ok _ he₁, eval_bind_ok _ he₂]
            rfl
          · rw [List.take_succ_cons, List.drop_succ_cons, ← Multiset.singleton_add]
            rw [← Multiset.singleton_add, ← Multiset.singleton_add, ← add_assoc] at h₂
            refine h₂.recast ?_ fun o ho => ?_
            · simp only [Objects.feet_add, Objects.feet_singleton, foot_raw]
              rw [Multiset.coe_add]
              exact Multiset.coe_eq_coe.mpr (@List.perm_append_comm _ [p] _)
            · rw [Multiset.mem_singleton.mp ho]
              trivial

theorem allocPages_full {n : Nat} : ∀ {s : Staged Superblock Page} {avail : List Nat}
    {objs : Multiset Obj}, Holds V s avail objs → avail.length < n →
    ∃ s', (allocPages n).eval V.base s = (.err .outOfSpace, s') := by
  induction n with
  | zero => exact fun _ hn => absurd hn (Nat.not_lt_zero _)
  | succ n ih =>
      intro s avail objs h hn
      cases avail with
      | nil => exact ⟨s, eval_bind_err _ (allocPage_full h)⟩
      | cons p avail =>
          obtain ⟨s₁, he₁, h₁, -⟩ := allocPage_run h
          obtain ⟨s₂, he₂⟩ := ih h₁ (Nat.lt_of_succ_lt_succ hn)
          refine ⟨s₂, ?_⟩
          rw [allocPages, eval_bind_ok _ he₁, eval_bind_err _ he₂]

/-- The second loop of `write_chain` lays the bytes out on the pages it is
given. -/
theorem writeChunks_run {ps : List Nat} : ∀ {bytes : List Byte} {s : Staged Superblock Page},
    ps.length = nchunks bytes → ps.Nodup → (∀ p ∈ ps, p < 2 ^ 64) →
    ∃ s', (writeChunks ps bytes).eval rd s = (.ok (), s') ∧ s'.ctl = s.ctl ∧
      (∀ q, q ∉ ps → V.view s' q = V.view s q) ∧
      (∀ q, q ∈ s'.dirty ↔ q ∈ s.dirty ∨ q ∈ ps) ∧
      Linked blobLayout (V.view s') ps bytes := by
  induction ps with
  | nil =>
      intro bytes s hlen
      have hpos := nchunks_pos bytes
      simp only [List.length_nil] at hlen
      omega
  | cons p ps ih =>
      intro bytes s hlen hnd hlt
      rw [List.nodup_cons] at hnd
      rw [List.length_cons] at hlen
      have hstaged : ∀ x q, q ∈ s.dirty.insert p x ↔ q ∈ s.dirty ∨ q = p :=
        fun x q => mem_insert_iff
      have hself : ∀ x, V.view { s with dirty := s.dirty.insert p x } p = x := fun x => by
        rw [Volume.view_insert, upd_self]
      have hother : ∀ x q, q ≠ p →
          V.view { s with dirty := s.dirty.insert p x } q = V.view s q := fun x q hq => by
        rw [Volume.view_insert, upd_other hq]
      have hhead : ps.headD 0 < 2 ^ 64 := by
        cases ps with
        | nil => decide
        | cons q ps => exact hlt q (List.mem_cons_of_mem _ List.mem_cons_self)
      have hchunk := @holds_chunkPage (ps.headD 0) (bytes.take chainCap) hhead
        (by rw [List.length_take]; omega)
      rw [writeChunks, eval_bind_ok _ (eval_stage _ _ _ _)]
      by_cases hcap : bytes.length ≤ chainCap
      · rw [nchunks_le hcap] at hlen
        obtain rfl : ps = [] := List.eq_nil_of_length_eq_zero (by omega)
        rw [List.take_of_length_le hcap] at hchunk ⊢
        refine ⟨_, rfl, rfl, fun q hq => hother _ q fun h => hq (by simp [h]), fun q => ?_,
          .last hcap ?_⟩
        · rw [List.mem_singleton]
          exact hstaged _ q
        · rw [hself]
          exact hchunk
      · rw [nchunks_gt (by omega)] at hlen
        obtain ⟨s', he, hctl, hview, hdirty, hlinked⟩ :=
          @ih (bytes.drop chainCap) ⟨s.ctl, s.dirty.insert p
              (chunkPage (ps.headD 0) (bytes.take chainCap))⟩
            (by omega) hnd.2 fun q hq => hlt q (List.mem_cons_of_mem _ hq)
        refine ⟨s', he, hctl, fun q hq => ?_, fun q => ?_, ?_⟩
        · rw [List.mem_cons, not_or] at hq
          rw [hview q hq.2, hother _ q hq.1]
        · rw [hdirty, hstaged, List.mem_cons, or_assoc]
        · cases ps with
          | nil => exact absurd rfl hlinked.ne_nil
          | cons q ps =>
              have hbytes : bytes.take chainCap ++ bytes.drop chainCap = bytes :=
                List.take_append_drop _ _
              rw [← hbytes]
              refine .more (by rw [List.length_take]; simp only [blobLayout]; omega) ?_ ?_ hlinked
              · rw [ne_eq, List.drop_eq_nil_iff]
                omega
              · rw [hview p hnd.1, hself]
                exact hchunk

theorem moves_of_ctl {s s' : Staged Superblock Page} {ps : List Nat} (hctl : s'.ctl = s.ctl)
    (hdirty : ∀ q, q ∈ s'.dirty ↔ q ∈ s.dirty ∨ q ∈ ps) : Moves s s' ps :=
  ⟨by rw [hctl], by rw [hctl], hdirty⟩

/-- A step on one object that leaves the superblock and the free pages as they
were. -/
theorem Holds.rewrite {s s' : Staged Superblock Page} {avail : List Nat} {o o' : Obj}
    {objs : Multiset Obj} (h : Holds V s avail (o ::ₘ objs)) (hctl : s'.ctl = s.ctl)
    (hfoot : objects.foot o' = objects.foot o)
    (hview : ∀ q, q ∉ objects.foot o → V.view s' q = V.view s q)
    (hok : objects.ok o' (V.view s')) : Holds V s' avail (o' ::ₘ objs) := by
  obtain ⟨F, hF, havail⟩ := h.free
  refine ⟨by rw [hctl]; exact h.size, by rw [hctl]; exact h.low, by rw [hctl]; exact h.high,
    ⟨F, ?_, by rw [hctl]; exact havail⟩, ?_⟩
  · rw [hctl]
    refine hF.frame fun q hq => hview q fun hfo => ?_
    refine h.owned.not_mem_free (nodup_dataPages _) (Multiset.mem_cons_self o objs) hfo ?_
    rw [havail]
    exact List.mem_append_left _ hq
  · exact h.owned.step_one (nodup_dataPages _) (by rw [hfoot]) (fun q _ hq => hview q hq) hok

/-- `write_chain` takes as many free pages as the bytes need. -/
theorem writeChain_run {s : Staged Superblock Page} {avail : List Nat} {objs : Multiset Obj}
    (h : Holds V s avail objs) {bytes : List Byte} (hn : nchunks bytes ≤ avail.length) :
    ∃ s', (writeChain bytes).eval V.base s =
        (.ok ((avail.take (nchunks bytes)).headD 0), s') ∧
      Holds V s' (avail.drop (nchunks bytes))
        (.blob (avail.take (nchunks bytes)) bytes ::ₘ objs) ∧
      Moves s s' (avail.take (nchunks bytes)) := by
  obtain ⟨s₁, he₁, h₁, hm₁⟩ := allocPages_run h hn
  have hlen : (avail.take (nchunks bytes)).length = nchunks bytes := by
    rw [List.length_take]
    omega
  generalize avail.take (nchunks bytes) = ps at *
  have hraw := Multiset.mem_cons_self (Obj.raw ps) objs
  have hT := V.total_lt
  have hnd : ps.Nodup := h₁.foot_nodup hraw
  obtain ⟨s₂, he₂, hctl, hview, hdirty, hlinked⟩ := writeChunks_run (V := V) (s := s₁) hlen hnd
    fun p hp => Nat.lt_trans (h₁.mem_range_of_foot hraw hp).2 hT
  refine ⟨s₂, ?_, h₁.rewrite hctl rfl hview hlinked, ?_⟩
  · rw [writeChain, eval_bind_ok _ he₁, eval_bind_ok _ he₂]
    rfl
  · refine (hm₁.trans (moves_of_ctl hctl hdirty)).congr fun q => ?_
    rw [List.mem_append, or_self]

theorem writeChain_full {s : Staged Superblock Page} {avail : List Nat} {objs : Multiset Obj}
    (h : Holds V s avail objs) {bytes : List Byte} (hn : avail.length < nchunks bytes) :
    ∃ s', (writeChain bytes).eval V.base s = (.err .outOfSpace, s') := by
  obtain ⟨s', he⟩ := allocPages_full h hn
  exact ⟨s', eval_bind_err _ he⟩

/-! ## Reading and freeing a chain -/

theorem Holds.length_foot_le {s : Staged Superblock Page} {avail : List Nat}
    {objs : Multiset Obj} (h : Holds V s avail objs) {o : Obj} (ho : o ∈ objs) :
    (objects.foot o).length ≤ V.total := by
  have hsub : (objects.foot o : Multiset Nat) ≤ dataPages V.total := by
    rw [Multiset.le_iff_subset (Multiset.coe_nodup.mpr (h.foot_nodup ho))]
    exact fun p hp => h.owned.mem_range_of_foot ho hp
  have hcard := Multiset.card_le_card hsub
  rw [Multiset.coe_card, dataPages, Multiset.coe_card, List.length_range'] at hcard
  omega

theorem readChainLoop_run {rd : Nat → Outcome StoreError Page} {sb : Superblock}
    {v : Nat → Page} {ps : List Nat} {bytes : List Byte} (h : Linked blobLayout v ps bytes) :
    ∀ {fuel : Nat} {out : List Byte}, (∀ p ∈ ps, p ≠ 0 ∧ rd p = .ok (v p)) →
      ps.length < fuel →
      (readChainLoop fuel (ps.headD 0) out).eval rd sb = .ok (out ++ bytes) := by
  have hstep : ∀ {fuel p : Nat} {link : Nat} {chunk out : List Byte}, p ≠ 0 →
      rd p = .ok (v p) → blobLayout.holds (v p) link chunk → chunk.length ≤ chainCap →
      (readChainLoop (fuel + 1) p out).eval rd sb =
        (readChainLoop fuel link (out ++ chunk)).eval rd sb := by
    intro fuel p link chunk out hp hrd hh hlen
    obtain ⟨hlink, hcount, hslice⟩ := hh
    rw [readChainLoop, if_neg hp, Query.eval_bind_ok _ _ ((eval_getPage _ _ _).trans hrd)]
    simp only [hcount, hslice]
    rw [if_neg (by omega), ← hlink]
    rfl
  induction h with
  | @last p xs hlen hh =>
      intro fuel out hrd hfuel
      obtain ⟨hp, hread⟩ := hrd p List.mem_cons_self
      obtain ⟨fuel, rfl⟩ : ∃ n, fuel = n + 2 := ⟨fuel - 2, by
        simp only [List.length_singleton] at hfuel
        omega⟩
      rw [List.headD_cons, hstep hp hread hh hlen, readChainLoop, if_pos rfl]
      rfl
  | @more p q ps xs ys hlen _ hh _ ih =>
      intro fuel out hrd hfuel
      obtain ⟨hp, hread⟩ := hrd p List.mem_cons_self
      obtain ⟨fuel, rfl⟩ : ∃ n, fuel = n + 1 := ⟨fuel - 1, by omega⟩
      rw [List.headD_cons, hstep hp hread hh (Nat.le_of_eq hlen)]
      have hrest := @ih fuel (out ++ xs) (fun r hr => hrd r (List.mem_cons_of_mem _ hr))
        (Nat.lt_of_succ_lt_succ hfuel)
      rw [List.headD_cons] at hrest
      rw [hrest, List.append_assoc]

theorem ne_zero_of_data {p : Nat} (h : firstDataPage ≤ p) : p ≠ 0 := by
  have hpos : 0 < firstDataPage := by decide
  omega

/-- `read_chain` reads the bytes of a chain back. -/
theorem readChain_run {s : Staged Superblock Page} {avail : List Nat} {objs : Multiset Obj}
    (h : Holds V s avail objs) {ps : List Nat} {bytes : List Byte}
    (ho : Obj.blob ps bytes ∈ objs) :
    (readChain (ps.headD 0)).eval (s.read V.base) s.ctl = .ok bytes := by
  have hlen := h.length_foot_le ho
  rw [foot_blob, ← h.size] at hlen
  rw [readChain, Query.eval_bind_ok _ _ (eval_getSb _ _)]
  exact readChainLoop_run (h.owned.ok _ ho) (fun p hp =>
    ⟨ne_zero_of_data (h.mem_range_of_foot ho hp).1, h.read_foot ho hp⟩) (by omega)

theorem threaded_of_linked {α : Type} {L : Layout Page α} {v : Nat → Page} {ps : List Nat}
    {xs : List α} (hL : ∀ b q xs, L.holds b q xs → linkOf b = q) (h : Linked L v ps xs)
    (hps : ∀ p ∈ ps, p ≠ 0) : FreeList linkOf v (ps.headD 0) ps := by
  induction h with
  | @last p xs _ hh =>
      refine .cons (hps p List.mem_cons_self) ?_
      rw [List.headD_cons, hL _ _ _ hh]
      exact .nil
  | @more p q ps xs ys _ _ hh _ ih =>
      refine .cons (hps p List.mem_cons_self) ?_
      rw [List.headD_cons, hL _ _ _ hh]
      exact ih fun r hr => hps r (List.mem_cons_of_mem _ hr)

/-- The pages of a chain, threaded by their links. -/
theorem Holds.threaded {s : Staged Superblock Page} {avail : List Nat} {objs : Multiset Obj}
    (h : Holds V s avail objs) {o : Obj} (ho : o ∈ objs) (hraw : ∀ ps, o ≠ .raw ps) :
    FreeList linkOf (V.view s) ((objects.foot o).headD 0) (objects.foot o) := by
  have hps : ∀ p ∈ objects.foot o, p ≠ 0 := fun p hp =>
    ne_zero_of_data (h.mem_range_of_foot ho hp).1
  have hok := h.owned.ok o ho
  cases o with
  | raw ps => exact absurd rfl (hraw ps)
  | blob ps bytes => exact threaded_of_linked (L := blobLayout) (fun _ _ _ hh => hh.1) hok hps
  | index ps slots => exact threaded_of_linked (L := indexLayout) (fun _ _ _ hh => hh.1) hok hps

theorem freePage_eval (s : Staged Superblock Page) (p : Nat) :
    (freePage p).eval rd s = (.ok (), ⟨{ s.ctl with freeHead := p },
      s.dirty.insert p (zeroedPage.putLe 8 0 s.ctl.freeHead)⟩) := by
  unfold freePage
  exact eval_query_bind _ (eval_getSb _ _)

/-- The loop of `free_chain` pushes the pages of a chain onto the free list one
by one; the links of those still to come are read before they go. -/
theorem freeChainLoop_run {ps : List Nat} : ∀ {p fuel : Nat} {F : List Nat}
    {s : Staged Superblock Page}, FreeList linkOf (V.view s) p ps → ps.Nodup →
    (∀ q ∈ ps, q < 2 ^ 64 ∧ ∀ sb : Superblock, sb.totalPages = s.ctl.totalPages →
      Staged.read rd ⟨sb, s.dirty⟩ q = .ok (V.view s q)) →
    FreeList linkOf (V.view s) s.ctl.freeHead F → s.ctl.freeHead < 2 ^ 64 →
    (∀ q ∈ ps, q ∉ F) → ps.length < fuel →
    ∃ s', (freeChainLoop fuel p).eval rd s = (.ok (), s') ∧
      FreeList linkOf (V.view s') s'.ctl.freeHead (ps.reverse ++ F) ∧
      s'.ctl = { s.ctl with freeHead := s'.ctl.freeHead } ∧
      (∀ q, q ∉ ps → V.view s' q = V.view s q) ∧
      ∀ q, q ∈ s'.dirty ↔ q ∈ s.dirty ∨ q ∈ ps := by
  induction ps with
  | nil =>
      intro p fuel F s hps _ _ hF _ _ hfuel
      obtain rfl : p = 0 := hps.head_eq_zero.mpr rfl
      obtain ⟨fuel, rfl⟩ : ∃ n, fuel = n + 1 := ⟨fuel - 1, by
        simp only [List.length_nil] at hfuel
        omega⟩
      refine ⟨s, ?_, by simpa using hF, rfl, fun _ _ => rfl, fun q => by simp⟩
      rw [freeChainLoop, if_pos rfl]
      rfl
  | cons p ps ih =>
      intro head fuel F s hps hnd hread hF hhead hdisj hfuel
      cases hps with
      | cons hp hrest =>
          rw [List.nodup_cons] at hnd
          obtain ⟨fuel, rfl⟩ : ∃ n, fuel = n + 1 := ⟨fuel - 1, by omega⟩
          obtain ⟨hlt, hrd⟩ := hread p List.mem_cons_self
          have hview : V.view ⟨{ s.ctl with freeHead := p },
              s.dirty.insert p (zeroedPage.putLe 8 0 s.ctl.freeHead)⟩ =
              upd (V.view s) p (zeroedPage.putLe 8 0 s.ctl.freeHead) := V.view_insert _ _ _
          have hlink : linkOf (zeroedPage.putLe 8 0 s.ctl.freeHead) = s.ctl.freeHead :=
            Buf.getLe_putLe_self (by decide) hhead
          have hpF := hdisj p List.mem_cons_self
          obtain ⟨s', he, hF', hctl, hv, hdirty⟩ := @ih (linkOf (V.view s p)) fuel (p :: F)
            ⟨{ s.ctl with freeHead := p },
              s.dirty.insert p (zeroedPage.putLe 8 0 s.ctl.freeHead)⟩
            (by
              rw [hview]
              exact hrest.frame fun q hq => upd_other fun h => hnd.1 (h ▸ hq))
            hnd.2
            (fun q hq => by
              have hqp : q ≠ p := fun h => hnd.1 (h ▸ hq)
              obtain ⟨hql, hqr⟩ := hread q (List.mem_cons_of_mem _ hq)
              refine ⟨hql, fun sb hsb => ?_⟩
              rw [hview, upd_other hqp, ← hqr sb hsb]
              unfold Staged.read
              rw [Std.TreeMap.getElem?_insert,
                if_neg fun h => hqp (Nat.compare_eq_eq.mp h).symm])
            (by
              rw [hview]
              refine .cons hp ?_
              rw [upd_self, hlink]
              exact hF.frame fun q hq => upd_other fun h => hpF (h ▸ hq))
            hlt
            (fun q hq hqF => by
              rcases List.mem_cons.mp hqF with rfl | hqF
              · exact hnd.1 hq
              · exact hdisj q (List.mem_cons_of_mem _ hq) hqF)
            (Nat.lt_of_succ_lt_succ hfuel)
          refine ⟨s', ?_, ?_, hctl, fun q hq => ?_, fun q => ?_⟩
          · rw [freeChainLoop, if_neg hp,
              eval_query_bind _ ((eval_getPage _ _ _).trans (hrd s.ctl rfl))]
            exact (eval_bind_ok _ (freePage_eval s p)).trans he
          · rw [List.reverse_cons, List.append_assoc]
            exact hF'
          · rw [List.mem_cons, not_or] at hq
            rw [hv q hq.2, hview, upd_other hq.1]
          · rw [hdirty, mem_insert_iff, List.mem_cons, or_assoc]

/-- `free_chain` gives the pages of a chain back, the last one first. -/
theorem freeChain_run {s : Staged Superblock Page} {avail : List Nat} {o : Obj}
    {objs : Multiset Obj} (h : Holds V s avail (o ::ₘ objs)) (hraw : ∀ ps, o ≠ .raw ps) :
    ∃ s', (freeChain ((objects.foot o).headD 0)).eval V.base s = (.ok (), s') ∧
      Holds V s' ((objects.foot o).reverse ++ avail) objs ∧ Moves s s' (objects.foot o) := by
  have ho := Multiset.mem_cons_self o objs
  obtain ⟨F, hF, havail⟩ := h.free
  have hlen := h.length_foot_le ho
  have hT := V.total_lt
  have hF0 : ∀ q ∈ objects.foot o, q ∉ F := fun q hq hqF =>
    h.owned.not_mem_free (nodup_dataPages _) ho hq (by
      rw [havail]
      exact List.mem_append_left _ hqF)
  obtain ⟨s', he, hF', hctl, hview, hdirty⟩ := @freeChainLoop_run V V.base _ _
    (2 * (s.ctl.totalPages + 1)) F s (h.threaded ho hraw) (h.foot_nodup ho)
    (fun q hq => ⟨Nat.lt_trans (h.mem_range_of_foot ho hq).2 hT, fun sb hsb =>
      @Volume.read_eq V ⟨sb, s.dirty⟩ (hsb.trans h.size) q (h.mem_range_of_foot ho hq).1
        (h.mem_range_of_foot ho hq).2⟩)
    hF h.freeHead_lt hF0 (by rw [h.size]; omega)
  have hsb : s'.ctl.totalPages = s.ctl.totalPages ∧ s'.ctl.hwm = s.ctl.hwm ∧
      s'.ctl.catalogHead = s.ctl.catalogHead ∧ s'.ctl.generation = s.ctl.generation := by
    rw [hctl]
    exact ⟨rfl, rfl, rfl, rfl⟩
  obtain ⟨hsize, hhwm, hcat, hgen⟩ := hsb
  refine ⟨s', ?_, ⟨hsize.trans h.size, by rw [hhwm]; exact h.low, by rw [hhwm]; exact h.high,
    ⟨_, hF', by rw [havail, hsize, hhwm, List.append_assoc]⟩, ?_⟩, hcat, hgen, hdirty⟩
  · rw [freeChain]
    exact (eval_query_bind _ (eval_getSb _ _)).trans he
  · have h0 := h.owned
    rw [← Multiset.singleton_add] at h0
    have h1 : Owned objects (dataPages V.total) (V.view s')
        ((objects.foot o).reverse ++ avail) (0 + objs) := by
      refine h0.step (nodup_dataPages _) ?_ (fun q _ hq => hview q (by simpa using hq)) (by simp)
      simp only [Objects.feet_singleton, Objects.feet_zero, add_zero]
      rw [Multiset.coe_add]
      exact Multiset.coe_eq_coe.mpr
        (((List.reverse_perm _).append_right avail).trans List.perm_append_comm)
    rwa [zero_add] at h1

/-! ## Index chains -/

/-- The row id of slot `k` of an index chain. -/
def rowIdAt (ps : List Nat) (k : Nat) : RowId := ⟨ps.getD (k / idxCap) 0, k % idxCap⟩

/-- The live slots of an index chain, in order. -/
def liveRows (ps slots : List Nat) : List (RowId × Nat) :=
  (List.range slots.length).filterMap fun k =>
    if slots.getD k 0 ≠ 0 then some (rowIdAt ps k, slots.getD k 0) else none

theorem liveSlots_eq {p : Nat} {page : Page} {link : Nat} {slots : List Nat}
    (h : indexLayout.holds page link slots) : liveSlots p page slots.length =
      (List.range slots.length).filterMap fun k =>
        if slots.getD k 0 ≠ 0 then some (⟨p, k⟩, slots.getD k 0) else none := by
  refine List.filterMap_congr fun k hk => ?_
  rw [List.mem_range] at hk
  simp only [h.2.2 k hk]

theorem indexCollectLoop_run {rd : Nat → Outcome StoreError Page} {sb : Superblock}
    {v : Nat → Page} {ps : List Nat} {slots : List Nat} (h : Linked indexLayout v ps slots) :
    ∀ {fuel : Nat} {out : List (RowId × Nat)}, (∀ p ∈ ps, p ≠ 0 ∧ rd p = .ok (v p)) →
      ps.length < fuel →
      (indexCollectLoop fuel (ps.headD 0) out).eval rd sb = .ok (out ++ liveRows ps slots) := by
  have hstep : ∀ {fuel p : Nat} {link : Nat} {slots : List Nat} {out : List (RowId × Nat)},
      p ≠ 0 → rd p = .ok (v p) → indexLayout.holds (v p) link slots → slots.length ≤ idxCap →
      (indexCollectLoop (fuel + 1) p out).eval rd sb =
        (indexCollectLoop fuel link (out ++ liveSlots p (v p) slots.length)).eval rd sb := by
    intro fuel p link slots out hp hrd hh hlen
    obtain ⟨hlink, hcount, -⟩ := hh
    rw [indexCollectLoop, if_neg hp, Query.eval_bind_ok _ _ ((eval_getPage _ _ _).trans hrd)]
    simp only [hcount]
    rw [if_neg (by omega), ← hlink]
    rfl
  induction h with
  | @last p xs hlen hh =>
      intro fuel out hrd hfuel
      obtain ⟨hp, hread⟩ := hrd p List.mem_cons_self
      obtain ⟨fuel, rfl⟩ : ∃ n, fuel = n + 2 := ⟨fuel - 2, by
        simp only [List.length_singleton] at hfuel
        omega⟩
      rw [List.headD_cons, hstep hp hread hh hlen, indexCollectLoop, if_pos rfl,
        liveSlots_eq hh]
      show Outcome.ok _ = _
      refine congrArg (fun l => Outcome.ok (out ++ l)) (List.filterMap_congr fun k hk => ?_)
      rw [List.mem_range] at hk
      have hk' : k < idxCap := Nat.lt_of_lt_of_le hk hlen
      rw [rowIdAt, Nat.div_eq_of_lt hk', Nat.mod_eq_of_lt hk']
      rfl
  | @more p q ps xs ys hlen _ hh _ ih =>
      intro fuel out hrd hfuel
      obtain ⟨hp, hread⟩ := hrd p List.mem_cons_self
      obtain ⟨fuel, rfl⟩ : ∃ n, fuel = n + 1 := ⟨fuel - 1, by omega⟩
      rw [List.headD_cons, hstep hp hread hh (Nat.le_of_eq hlen)]
      have hrest := @ih fuel (out ++ liveSlots p (v p) xs.length)
        (fun r hr => hrd r (List.mem_cons_of_mem _ hr)) (Nat.lt_of_succ_lt_succ hfuel)
      rw [List.headD_cons] at hrest
      rw [hrest, List.append_assoc, liveSlots_eq hh]
      refine congrArg (fun l => Outcome.ok (out ++ l)) ?_
      change xs.length = idxCap at hlen
      have hcap : 0 < idxCap := by decide
      unfold liveRows
      rw [List.length_append, List.range_add, List.filterMap_append, List.filterMap_map]
      congr 1
      · refine List.filterMap_congr fun k hk => ?_
        rw [List.mem_range] at hk
        have hk' : k < idxCap := by omega
        rw [rowIdAt, Nat.div_eq_of_lt hk', Nat.mod_eq_of_lt hk', List.getD_append _ _ _ _ hk]
        rfl
      · refine List.filterMap_congr fun k hk => ?_
        have hid : rowIdAt (p :: q :: ps) (xs.length + k) = rowIdAt (q :: ps) k := by
          unfold rowIdAt
          rw [hlen, Nat.add_div_left _ hcap, Nat.add_mod_left, List.getD_cons_succ]
        simp only [Function.comp_apply, hid]
        rw [List.getD_append_right _ _ _ _ (Nat.le_add_right _ _), Nat.add_sub_cancel_left]

/-- `index_collect` lists the live slots in order. -/
theorem indexCollect_run {s : Staged Superblock Page} {avail : List Nat} {objs : Multiset Obj}
    (h : Holds V s avail objs) {ps slots : List Nat} (ho : Obj.index ps slots ∈ objs) :
    (indexCollect (ps.headD 0)).eval (s.read V.base) s.ctl = .ok (liveRows ps slots) := by
  have hlen := h.length_foot_le ho
  rw [foot_index, ← h.size] at hlen
  rw [indexCollect, Query.eval_bind_ok _ _ (eval_getSb _ _)]
  exact indexCollectLoop_run (h.owned.ok _ ho) (fun p hp =>
    ⟨ne_zero_of_data (h.mem_range_of_foot ho hp).1, h.read_foot ho hp⟩) (by omega)

/-- `row_head_at`, at a slot of a table. -/
theorem rowHeadAt_run {s : Staged Superblock Page} {avail : List Nat} {objs : Multiset Obj}
    (h : Holds V s avail objs) {ps slots : List Nat} (ho : Obj.index ps slots ∈ objs)
    {k : Nat} (hk : k < slots.length) :
    (rowHeadAt (rowIdAt ps k)).eval (s.read V.base) s.ctl =
      if slots.getD k 0 = 0 then .err (.notFound "row (deleted)")
      else .ok (slots.getD k 0) := by
  have hlinked : Linked indexLayout (V.view s) ps slots := h.owned.ok _ ho
  obtain ⟨link, chunk, hh, hin, hcap, hget, -⟩ := hlinked.set (h.foot_nodup ho) hk 0
  simp only [cap_indexLayout] at hh hin hcap hget
  have hmem : (rowIdAt ps k).indexPage ∈ ps := getD_mem (hlinked.div_lt hk)
  obtain ⟨-, hcount, hslot⟩ := hh
  have hval : rdU64 (V.view s (rowIdAt ps k).indexPage) (idxHdr + (rowIdAt ps k).slot * 8) =
      slots.getD k 0 := by
    refine (hslot _ hin).trans ?_
    rw [List.getD_eq_getElem?_getD, hget, List.getD_eq_getElem?_getD]
  have hmod : ¬ idxCap ≤ (rowIdAt ps k).slot :=
    Nat.not_le.mpr (Nat.mod_lt k (by decide))
  have hin' : ¬ rdU64 (V.view s (rowIdAt ps k).indexPage) 8 ≤ (rowIdAt ps k).slot := by
    refine Nat.not_le.mpr (Nat.lt_of_lt_of_eq hin ?_)
    exact hcount.symm
  rw [rowHeadAt, Query.eval_bind_ok _ _ ((eval_getPage _ _ _).trans (h.read_foot ho hmem))]
  simp only [hval]
  rw [if_neg hin', if_neg hmod]
  split <;> rfl

theorem holds_setSlot {page : Page} {link k v : Nat} {chunk : List Nat}
    (h : indexLayout.holds page link chunk) (hk : k < chunk.length)
    (hcap : chunk.length ≤ idxCap) (hv : v < 2 ^ 64) :
    indexLayout.holds (wrU64 page (idxHdr + k * 8) v) link (chunk.set k v) := by
  obtain ⟨hlink, hcount, hslot⟩ := h
  have hidx : idxCap = 510 := rfl
  have hpage : pageSize = 4096 := rfl
  have hhdr : idxHdr = 16 := rfl
  unfold linkOf at hlink
  unfold rdU64 at hlink hcount hslot
  refine ⟨?_, ?_, fun i hi => ?_⟩
  · unfold linkOf rdU64 wrU64
    rw [Buf.getLe_putLe_disjoint (by omega)]
    exact hlink
  · unfold rdU64 wrU64
    rw [Buf.getLe_putLe_disjoint (by omega), List.length_set]
    exact hcount
  · unfold rdU64 wrU64
    rw [List.length_set] at hi
    by_cases hik : i = k
    · subst hik
      rw [Buf.getLe_putLe_self (by omega) hv]
      simp [List.getD_eq_getElem?_getD, hi]
    · rw [Buf.getLe_putLe_disjoint (by omega), hslot i hi, List.getD_eq_getElem?_getD,
        List.getD_eq_getElem?_getD, List.getElem?_set_ne (Ne.symm hik)]

/-- `index_set`, at a slot of a table. -/
theorem indexSet_run {s : Staged Superblock Page} {avail : List Nat} {objs : Multiset Obj}
    {ps slots : List Nat} (h : Holds V s avail (.index ps slots ::ₘ objs)) {k v : Nat}
    (hk : k < slots.length) (hv : v < 2 ^ 64) :
    ∃ s', (indexSet (rowIdAt ps k).indexPage (rowIdAt ps k).slot v).eval V.base s =
        (.ok (), s') ∧
      Holds V s' avail (.index ps (slots.set k v) ::ₘ objs) ∧
      Moves s s' [(rowIdAt ps k).indexPage] := by
  have ho := Multiset.mem_cons_self (Obj.index ps slots) objs
  have hlinked : Linked indexLayout (V.view s) ps slots := h.owned.ok _ ho
  obtain ⟨link, chunk, hh, hin, hcap, -, hset⟩ := hlinked.set (h.foot_nodup ho) hk v
  simp only [cap_indexLayout] at hh hin hcap hset
  have hmem : (rowIdAt ps k).indexPage ∈ ps := getD_mem (hlinked.div_lt hk)
  have hmod : ¬ idxCap ≤ (rowIdAt ps k).slot :=
    Nat.not_le.mpr (Nat.mod_lt k (by decide))
  have hin' : ¬ rdU64 (V.view s (rowIdAt ps k).indexPage) 8 ≤ (rowIdAt ps k).slot := by
    refine Nat.not_le.mpr (Nat.lt_of_lt_of_eq hin ?_)
    exact hh.2.1.symm
  refine ⟨⟨s.ctl, s.dirty.insert (rowIdAt ps k).indexPage
    (wrU64 (V.view s (rowIdAt ps k).indexPage) (idxHdr + (rowIdAt ps k).slot * 8) v)⟩,
    ?_, h.rewrite rfl rfl (fun q hq => ?_) ?_, rfl, rfl, fun q => ?_⟩
  · rw [indexSet, eval_query_bind _ ((eval_getPage _ _ _).trans (h.read_foot ho hmem))]
    simp only []
    rw [if_neg hin', if_neg hmod]
    rfl
  · refine (congrFun (V.view_insert _ _ _) q).trans (upd_other fun hqp => hq ?_)
    rw [hqp]
    exact hmem
  · refine hset _ _ (holds_setSlot hh hin hcap hv) (fun p hp => ?_) ?_
    · exact (congrFun (V.view_insert _ _ _) p).trans (upd_other hp)
    · exact (congrFun (V.view_insert _ _ _) _).trans (upd_self _ _ _)
  · rw [mem_insert_iff, List.mem_singleton]

theorem holds_pushSlot {page : Page} {link v : Nat} {chunk : List Nat}
    (h : indexLayout.holds page link chunk) (hcap : chunk.length < idxCap) (hv : v < 2 ^ 64) :
    indexLayout.holds (wrU64 (wrU64 page (idxHdr + chunk.length * 8) v) 8 (chunk.length + 1))
      link (chunk ++ [v]) := by
  obtain ⟨hlink, hcount, hslot⟩ := h
  have hidx : idxCap = 510 := rfl
  have hpage : pageSize = 4096 := rfl
  have hhdr : idxHdr = 16 := rfl
  unfold linkOf at hlink
  unfold rdU64 at hlink hcount hslot
  refine ⟨?_, ?_, fun i hi => ?_⟩
  · unfold linkOf rdU64 wrU64
    rw [Buf.getLe_putLe_disjoint (by omega), Buf.getLe_putLe_disjoint (by omega)]
    exact hlink
  · unfold rdU64 wrU64
    rw [Buf.getLe_putLe_self (by decide) (by omega), List.length_append]
    rfl
  · unfold rdU64 wrU64
    rw [List.length_append, List.length_singleton] at hi
    rw [Buf.getLe_putLe_disjoint (by omega)]
    by_cases hik : i = chunk.length
    · subst hik
      rw [Buf.getLe_putLe_self (by omega) hv]
      simp [List.getD_eq_getElem?_getD]
    · rw [Buf.getLe_putLe_disjoint (by omega), hslot i (by omega),
        List.getD_append _ _ _ _ (by omega)]

theorem holds_relink {page : Page} {link q : Nat} {chunk : List Nat}
    (h : indexLayout.holds page link chunk) (hq : q < 2 ^ 64) :
    indexLayout.holds (wrU64 page 0 q) q chunk := by
  obtain ⟨-, hcount, hslot⟩ := h
  have hhdr : idxHdr = 16 := rfl
  unfold rdU64 at hcount hslot
  refine ⟨Buf.getLe_putLe_self (by decide) hq, ?_, fun i hi => ?_⟩
  · unfold rdU64 wrU64
    rw [Buf.getLe_putLe_disjoint (by omega)]
    exact hcount
  · unfold rdU64 wrU64
    rw [Buf.getLe_putLe_disjoint (by omega)]
    exact hslot i hi

theorem holds_oneSlot {v : Nat} (hv : v < 2 ^ 64) :
    indexLayout.holds (wrU64 (wrU64 zeroedPage 8 1) idxHdr v) 0 [v] := by
  have hhdr : idxHdr = 16 := rfl
  refine ⟨?_, ?_, fun i hi => ?_⟩
  · unfold linkOf rdU64 wrU64
    rw [Buf.getLe_putLe_disjoint (by omega), Buf.getLe_putLe_disjoint (by omega)]
    exact Buf.getLe_zero 8 0
  · unfold rdU64 wrU64
    rw [Buf.getLe_putLe_disjoint (by omega)]
    exact Buf.getLe_putLe_self (by decide) (by decide)
  · obtain rfl : i = 0 := by
      simp only [List.length_singleton] at hi
      omega
    exact Buf.getLe_putLe_self (by decide) hv

/-- The walk of `index_append` ends at the last page. -/
theorem indexAppendLoop_walk {s : Staged Superblock Page} {v : Nat → Page} {ps slots : List Nat}
    (h : Linked indexLayout v ps slots) (rowHead : Nat) :
    ∀ {fuel : Nat}, (∀ p ∈ ps, p ≠ 0 ∧ s.read V.base p = .ok (v p)) → ps.length ≤ fuel →
      (indexAppendLoop rowHead fuel (ps.headD 0)).eval V.base s =
        (indexAppendLoop rowHead 1 (ps.getLastD 0)).eval V.base s := by
  induction h with
  | @last p xs hlen hh =>
      intro fuel hrd hfuel
      obtain ⟨hp, hread⟩ := hrd p List.mem_cons_self
      obtain ⟨fuel, rfl⟩ : ∃ n, fuel = n + 1 := ⟨fuel - 1, by
        simp only [List.length_singleton] at hfuel
        omega⟩
      have hlink : rdU64 (v p) 0 = 0 := hh.1
      rw [List.headD_cons, List.getLastD_cons, List.getLastD_nil, indexAppendLoop,
        indexAppendLoop, eval_query_bind _ ((eval_getPage _ _ _).trans hread),
        eval_query_bind _ ((eval_getPage _ _ _).trans hread)]
      simp only [hlink, if_true]
  | @more p q ps xs ys _ _ hh _ ih =>
      intro fuel hrd hfuel
      obtain ⟨hp, hread⟩ := hrd p List.mem_cons_self
      obtain ⟨hq, -⟩ := hrd q (List.mem_cons_of_mem _ List.mem_cons_self)
      obtain ⟨fuel, rfl⟩ : ∃ n, fuel = n + 1 := ⟨fuel - 1, by
        simp only [List.length_cons] at hfuel
        omega⟩
      have hlink : rdU64 (v p) 0 = q := hh.1
      have hrest := ih (fun r hr => hrd r (List.mem_cons_of_mem _ hr))
        (Nat.le_of_succ_le_succ hfuel)
      rw [List.getLastD_cons]
      rw [List.getLastD_cons, List.headD_cons] at hrest
      rw [List.headD_cons, List.getLastD_cons, indexAppendLoop,
        eval_query_bind _ ((eval_getPage _ _ _).trans hread)]
      simp only [hlink]
      rw [if_neg hq]
      exact hrest

theorem getD_length_sub_one (ps : List Nat) :
    ps.getD (ps.length - 1) 0 = ps.getLastD 0 := by
  rw [List.getLastD_eq_getLast?, List.getLast?_eq_getElem?, List.getD_eq_getElem?_getD]

/-- What `index_append` does on a chain whose last page has room: the slot
behind the last one. -/
theorem indexAppend_room {s : Staged Superblock Page} {avail : List Nat} {objs : Multiset Obj}
    {ps slots : List Nat} (h : Holds V s avail (.index ps slots ::ₘ objs)) {v : Nat}
    (hv : v < 2 ^ 64) (hroom : slots.length < ps.length * idxCap) :
    ∃ s', (indexAppend (ps.headD 0) v).eval V.base s = (.ok (rowIdAt ps slots.length), s') ∧
      Holds V s' avail (.index ps (slots ++ [v]) ::ₘ objs) ∧
      Moves s s' [ps.getLastD 0] := by
  have ho := Multiset.mem_cons_self (Obj.index ps slots) objs
  have hlinked : Linked indexLayout (V.view s) ps slots := h.owned.ok _ ho
  have hlen := h.length_foot_le ho
  obtain ⟨pre, chunk, hslots, hpre, hcap, hh, hset⟩ := hlinked.tail (h.foot_nodup ho)
  simp only [cap_indexLayout] at hpre hcap hset
  have hlast : ps.getLastD 0 ∈ ps := Linked.getLastD_mem hlinked.ne_nil
  have hlt : chunk.length < idxCap := by
    have hpos := List.length_pos_of_ne_nil hlinked.ne_nil
    rw [hslots, List.length_append, hpre, Nat.sub_mul, Nat.one_mul] at hroom
    have := Nat.mul_le_mul_right idxCap hpos
    omega
  obtain ⟨hlink, hcount, hslot⟩ := hh
  have hwalk := @indexAppendLoop_walk V s _ _ _ hlinked v (s.ctl.totalPages + 1) (fun p hp =>
      ⟨ne_zero_of_data (h.mem_range_of_foot ho hp).1, h.read_foot ho hp⟩)
    (by rw [h.size]; rw [foot_index] at hlen; omega)
  have hid : rowIdAt ps slots.length = ⟨ps.getLastD 0, chunk.length⟩ := by
    have hpos : 0 < idxCap := by decide
    unfold rowIdAt
    rw [hslots, List.length_append, hpre, Nat.mul_comm, Nat.mul_add_div hpos,
      Nat.mul_add_mod, Nat.div_eq_of_lt hlt, Nat.mod_eq_of_lt hlt, Nat.add_zero,
      getD_length_sub_one]
  have hself : ∀ x, V.view ⟨s.ctl, s.dirty.insert (ps.getLastD 0) x⟩ =
      upd (V.view s) (ps.getLastD 0) x := fun x => V.view_insert _ _ _
  refine ⟨⟨s.ctl, s.dirty.insert (ps.getLastD 0)
    (wrU64 (wrU64 (V.view s (ps.getLastD 0)) (idxHdr + chunk.length * 8) v) 8
      (chunk.length + 1))⟩, ?_, h.rewrite rfl rfl (fun q hq => ?_) ?_, rfl, rfl, fun q => ?_⟩
  · rw [indexAppend]
    refine (eval_query_bind _ (eval_getSb _ _)).trans (hwalk.trans ?_)
    rw [indexAppendLoop, eval_query_bind _ ((eval_getPage _ _ _).trans (h.read_foot ho hlast)),
      hid]
    unfold linkOf at hlink
    simp only [hlink, if_true, hcount]
    rw [if_pos hlt]
    rfl
  · rw [hself]
    exact upd_other fun hqp => hq (hqp ▸ hlast)
  · show Linked indexLayout _ ps (slots ++ [v])
    rw [hslots, List.append_assoc]
    refine (hset _ fun p hp _ => ?_).1 (chunk ++ [v]) (by simp) ?_ ?_
    · rw [hself, upd_other hp]
    · rw [List.length_append]
      exact hlt
    · rw [hself, upd_self]
      exact holds_pushSlot ⟨hlink, hcount, hslot⟩ hlt hv
  · rw [mem_insert_iff, List.mem_singleton]

/-- On a chain whose last page is full `index_append` comes to the allocator
with the full page in hand. -/
theorem indexAppend_full {s : Staged Superblock Page} {avail : List Nat} {objs : Multiset Obj}
    {ps slots : List Nat} (h : Holds V s avail (.index ps slots ::ₘ objs)) {v : Nat}
    (hfull : slots.length = ps.length * idxCap) :
    (indexAppend (ps.headD 0) v).eval V.base s = (do
      let np ← allocPage
      Prog.stage np (wrU64 (wrU64 zeroedPage 8 1) idxHdr v)
      Prog.stage (ps.getLastD 0) (wrU64 (V.view s (ps.getLastD 0)) 0 np)
      pure ⟨np, 0⟩ : PageProg RowId).eval V.base s := by
  have ho := Multiset.mem_cons_self (Obj.index ps slots) objs
  have hlinked : Linked indexLayout (V.view s) ps slots := h.owned.ok _ ho
  have hlen := h.length_foot_le ho
  obtain ⟨pre, chunk, hslots, hpre, hcap, ⟨hlink, hcount, -⟩, -⟩ :=
    hlinked.tail (h.foot_nodup ho)
  simp only [cap_indexLayout] at hpre hcap
  have hlast : ps.getLastD 0 ∈ ps := Linked.getLastD_mem hlinked.ne_nil
  have heq : chunk.length = idxCap := by
    have hpos := List.length_pos_of_ne_nil hlinked.ne_nil
    rw [hslots, List.length_append, hpre, Nat.sub_mul, Nat.one_mul] at hfull
    have := Nat.mul_le_mul_right idxCap hpos
    omega
  have hwalk := @indexAppendLoop_walk V s _ _ _ hlinked v (s.ctl.totalPages + 1) (fun p hp =>
      ⟨ne_zero_of_data (h.mem_range_of_foot ho hp).1, h.read_foot ho hp⟩)
    (by rw [h.size]; rw [foot_index] at hlen; omega)
  rw [indexAppend]
  refine (eval_query_bind _ (eval_getSb _ _)).trans (hwalk.trans ?_)
  rw [indexAppendLoop, eval_query_bind _ ((eval_getPage _ _ _).trans (h.read_foot ho hlast))]
  unfold linkOf at hlink
  simp only [hlink, if_true, hcount, heq, lt_self_iff_false, if_false]

/-- A new page behind the last one, with the new slot in it. -/
theorem indexAppend_grow {s : Staged Superblock Page} {np : Nat} {avail : List Nat}
    {objs : Multiset Obj} {ps slots : List Nat}
    (h : Holds V s (np :: avail) (.index ps slots ::ₘ objs)) {v : Nat} (hv : v < 2 ^ 64)
    (hfull : slots.length = ps.length * idxCap) :
    ∃ s', (indexAppend (ps.headD 0) v).eval V.base s =
        (.ok (rowIdAt (ps ++ [np]) slots.length), s') ∧
      Holds V s' avail (.index (ps ++ [np]) (slots ++ [v]) ::ₘ objs) ∧
      Moves s s' [ps.getLastD 0, np] := by
  have ho := Multiset.mem_cons_self (Obj.index ps slots) objs
  have hlinked : Linked indexLayout (V.view s) ps slots := h.owned.ok _ ho
  have hlast : ps.getLastD 0 ∈ ps := Linked.getLastD_mem hlinked.ne_nil
  have hnp := h.mem_range_of_avail (p := np) List.mem_cons_self
  have hT := V.total_lt
  have hnpps : np ∉ ps := fun hmem =>
    h.owned.not_mem_free (nodup_dataPages _) ho hmem List.mem_cons_self
  have hne : ps.getLastD 0 ≠ np := fun heq => hnpps (heq ▸ hlast)
  have hnd : ps.Nodup := h.foot_nodup ho
  obtain ⟨pre, chunk, hslots, hpre, hcap, hh, hset⟩ := hlinked.tail hnd
  simp only [cap_indexLayout] at hpre hcap hset
  have heq : chunk.length = idxCap := by
    have hpos := List.length_pos_of_ne_nil hlinked.ne_nil
    rw [hslots, List.length_append, hpre, Nat.sub_mul, Nat.one_mul] at hfull
    have := Nat.mul_le_mul_right idxCap hpos
    omega
  have hid : rowIdAt (ps ++ [np]) slots.length = ⟨np, 0⟩ := by
    have hpos : 0 < idxCap := by decide
    unfold rowIdAt
    rw [hfull, Nat.mul_div_cancel _ hpos, Nat.mul_mod_left,
      List.getD_append_right _ _ _ _ (Nat.le_refl _), Nat.sub_self]
    rfl
  obtain ⟨s₁, he₁, h₁, hm₁, hv₁⟩ := allocPage_run h
  generalize hnew : wrU64 (wrU64 zeroedPage 8 1) idxHdr v = new
  generalize hold : wrU64 (V.view s (ps.getLastD 0)) 0 np = old
  have hview : V.view ⟨s₁.ctl, (s₁.dirty.insert np new).insert (ps.getLastD 0) old⟩ =
      upd (upd (V.view s₁) np new) (ps.getLastD 0) old := by
    rw [V.view_insert (s := ⟨s₁.ctl, s₁.dirty.insert np new⟩), V.view_insert]
  have h₂ : Holds V s₁ avail (.raw (ps ++ [np]) ::ₘ objs) := by
    rw [← Multiset.singleton_add]
    rw [← Multiset.singleton_add, ← Multiset.singleton_add, ← add_assoc] at h₁
    refine h₁.recast ?_ fun o ho => ?_
    · simp only [Objects.feet_add, Objects.feet_singleton, foot_raw, foot_index]
      rw [Multiset.coe_add]
      exact Multiset.coe_eq_coe.mpr List.perm_append_comm
    · rw [Multiset.mem_singleton.mp ho]
      trivial
  refine ⟨⟨s₁.ctl, (s₁.dirty.insert np new).insert (ps.getLastD 0) old⟩, ?_,
    h₂.rewrite rfl rfl (fun q hq => ?_) ?_, ?_⟩
  · rw [indexAppend_full h hfull, eval_bind_ok _ he₁, hnew, hid, hold]
    rfl
  · rw [foot_raw, List.mem_append, List.mem_singleton, not_or] at hq
    have hql : q ≠ ps.getLastD 0 := fun hqp => hq.1 (hqp ▸ hlast)
    rw [hview, upd_other hql, upd_other hq.2]
  · refine (hset _ fun p hp hin => ?_).2 np [v] heq ?_ (by simp)
      (show 1 ≤ idxCap by decide) ?_
    · have hpn : p ≠ np := fun hpn => hnpps (hpn ▸ hin)
      rw [hview, upd_other hp, upd_other hpn, hv₁, upd_other hpn]
    · rw [hview, upd_self, ← hold]
      exact holds_relink hh (by omega)
    · rw [hview, upd_other (Ne.symm hne), upd_self, ← hnew]
      exact holds_oneSlot hv
  · refine ⟨hm₁.catalog, hm₁.generation, fun q => ?_⟩
    rw [mem_insert_iff, mem_insert_iff, hm₁.staged, List.mem_singleton, List.mem_cons,
      List.mem_singleton]
    tauto

theorem indexAppend_none {s : Staged Superblock Page} {objs : Multiset Obj}
    {ps slots : List Nat} (h : Holds V s [] (.index ps slots ::ₘ objs)) (v : Nat)
    (hfull : slots.length = ps.length * idxCap) :
    (indexAppend (ps.headD 0) v).eval V.base s = (.err .outOfSpace, s) := by
  rw [indexAppend_full h hfull]
  exact eval_bind_err _ (allocPage_full h)

end Chains

end Store

end TablesOS
