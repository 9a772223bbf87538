import TablesOS.Base.Ends
import TablesOS.Boot.Loader

/-!
# What the boot stages do to the memory

One lemma for each routine of stage 2, on a machine whose A20 line is open and,
where the routine goes beyond 64 KiB, whose limits do. A routine that copies
leaves the memory with the copy put at its place; one that may stop says why.
-/

namespace TablesOS

namespace Boot

open Fallible

variable {fw : Firmware} {m m' : Machine} {k a v n : Nat}

/-! ## Accesses -/

theorem line_open (h : m.a20 = true) (a : Nat) : m.line a = a := if_pos h

theorem line_low (h : a < 2 ^ 20) : m.line a = a := by
  unfold Machine.line
  split
  · rfl
  · omega

theorem reaches_big (h : m.big = true) (k a : Nat) : m.reaches k a = true := by
  simp [Machine.reaches, h]

theorem reaches_low (h : a + k ≤ 0x10000) : m.reaches k a = true := by
  simp [Machine.reaches, h]

theorem load_run (ha : m.a20 = true) (hr : m.reaches k a = true) :
    load k a m = (.ok (m.mem.getLe k a), m) := by
  rw [load, if_pos hr, line_open ha]

theorem store_run (ha : m.a20 = true) (hr : m.reaches k a = true) :
    store k a v m = (.ok (), { m with mem := m.mem.putLe k a v }) := by
  rw [store, if_pos hr, line_open ha]

/-! ## The A20 line -/

theorem line_check (m : Machine) : m.line 0x100500 = if m.a20 then 0x100500 else 0x500 := by
  unfold Machine.line
  split <;> rfl

/-- The check tells, and puts back what it wrote. -/
theorem a20Check_run (m : Machine) : a20Check m = (.ok m.a20, m) := by
  have hmem : ∀ (f : Mem) (a b : Nat),
      (((f.put a [0x00]).put b [0xFF]).put a [f a]).put b [f b] = f := by
    intro f a b
    funext i
    simp only [Mem.put_one_apply]
    by_cases hb : i = b
    · rw [if_pos hb, hb]
    · by_cases ha : i = a
      · rw [if_neg hb, if_pos ha, ha]
      · rw [if_neg hb, if_neg ha, if_neg hb, if_neg ha]
  have h0 : m.line 0x500 = 0x500 := line_low (by decide)
  simp only [a20Check, hmem, h0, line_check, Mem.put_one_apply]
  obtain ⟨mem, a20, big, nreads⟩ := m
  cases a20 <;> simp

/-- Whether stage 2 gets the A20 line open. -/
def Firmware.opensA20 (fw : Firmware) (a20 : Bool) : Bool :=
  a20 || fw.a20Bios || (fw.port92 &&& 2 = 0 && fw.a20Fast)

theorem a20Enable_run (fw : Firmware) (m : Machine) : a20Enable fw m =
    if fw.opensA20 m.a20 then (.ok (), { m with a20 := true }) else (.error .die, m) := by
  obtain ⟨mem, a20, big, nreads⟩ := m
  unfold a20Enable Firmware.opensA20
  rw [run_bind_ok (a20Check_run _)]
  cases a20 with
  | true => rfl
  | false =>
      have hbios : firmware (fun m => { m with a20 := m.a20 || fw.a20Bios })
          ⟨mem, false, big, nreads⟩ = (.ok (), ⟨mem, fw.a20Bios, big, nreads⟩) := by
        simp [firmware]
      rw [if_neg (by simp), run_bind_ok hbios, run_bind_ok (a20Check_run _)]
      cases hb : fw.a20Bios with
      | true => rfl
      | false =>
          have hfast : fastA20 fw ⟨mem, false, big, nreads⟩ =
              (.ok (), ⟨mem, decide (fw.port92 &&& 2 = 0) && fw.a20Fast, big, nreads⟩) := by
            unfold fastA20 firmware
            by_cases hp : fw.port92 &&& 2 = 0 <;> simp [hp]
          rw [if_neg (by simp), run_bind_ok hfast, run_bind_ok (a20Check_run _)]
          cases decide (fw.port92 &&& 2 = 0) && fw.a20Fast <;> rfl

/-! ## Copies -/

/-- The copy loop, in front of its destination. -/
theorem lkCopy_run (ecx : Nat) : ∀ (m : Machine) (esi edi : Nat), m.a20 = true → m.big = true →
    esi + 4 * ecx ≤ edi → edi + 4 * ecx < 2 ^ 32 →
    lkCopy ecx esi edi m = (.ok (edi + 4 * ecx),
      { m with mem := m.mem.put edi (m.mem.bytes esi (4 * ecx)) }) := by
  induction ecx with
  | zero =>
      intro m esi edi _ _ _ _
      rw [lkCopy, run_pure, Nat.mul_zero, Nat.add_zero, Mem.bytes_zero, Mem.put_nil]
  | succ ecx ih =>
      intro m esi edi ha hb hapart hlt
      have hload := load_run (k := 4) (a := esi) ha (reaches_big hb _ _)
      have hstore := store_run (k := 4) (a := edi) (v := m.mem.getLe 4 esi) ha (reaches_big hb _ _)
      have hrounds := ih { m with mem := m.mem.putLe 4 edi (m.mem.getLe 4 esi) } (esi + 4) (edi + 4)
        ha hb (by omega) (by omega)
      rw [lkCopy, run_bind_ok hload, run_bind_ok hstore, Nat.mod_eq_of_lt (by omega),
        Nat.mod_eq_of_lt (by omega), hrounds]
      have hrest : (m.mem.putLe 4 edi (m.mem.getLe 4 esi)).bytes (esi + 4) (4 * ecx) =
          m.mem.bytes (esi + 4) (4 * ecx) :=
        Mem.bytes_put_of_disjoint (Or.inr (by omega))
      have hsplit : m.mem.bytes esi (4 * (ecx + 1)) =
          m.mem.bytes esi 4 ++ m.mem.bytes (esi + 4) (4 * ecx) := by
        rw [← Mem.bytes_add, Nat.mul_succ, Nat.add_comm]
      have hnext : edi + 4 + 4 * ecx = edi + 4 * (ecx + 1) := by omega
      dsimp only
      rw [hrest, hsplit, Mem.put_append, Mem.length_bytes, Mem.putLe_getLe, hnext]

theorem cpguid_run (ecx : Nat) : ∀ (m : Machine) (esi edi : Nat), m.a20 = true →
    edi + ecx ≤ esi → esi + ecx ≤ 0x10000 →
    cpguid ecx esi edi m = (.ok (), { m with mem := m.mem.put edi (m.mem.bytes esi ecx) }) := by
  induction ecx with
  | zero =>
      intro m esi edi _ _ _
      rw [cpguid, run_pure, Mem.bytes_zero, Mem.put_nil]
  | succ ecx ih =>
      intro m esi edi ha hapart hlt
      have hload := load_run (k := 1) (a := esi) ha (reaches_low (by omega))
      have hstore := store_run (k := 1) (a := edi) (v := m.mem.getLe 1 esi) ha
        (reaches_low (by omega))
      have hrounds := ih { m with mem := m.mem.putLe 1 edi (m.mem.getLe 1 esi) } (esi + 1) (edi + 1)
        ha (by omega) (by omega)
      rw [cpguid, run_bind_ok hload, run_bind_ok hstore, hrounds]
      have hrest : (m.mem.putLe 1 edi (m.mem.getLe 1 esi)).bytes (esi + 1) ecx =
          m.mem.bytes (esi + 1) ecx :=
        Mem.bytes_put_of_disjoint (Or.inl (by rw [length_leBytes]; omega))
      dsimp only
      rw [hrest, Nat.add_comm ecx 1, Mem.bytes_add, Mem.put_append, Mem.length_bytes,
        Mem.putLe_getLe]

theorem zeroDwords_run (ecx : Nat) : ∀ (m : Machine) (edi : Nat), m.a20 = true → m.big = true →
    zeroDwords ecx edi m =
      (.ok (), { m with mem := m.mem.put edi (List.replicate (4 * ecx) 0) }) := by
  induction ecx with
  | zero =>
      intro m edi _ _
      rw [zeroDwords, run_pure, Nat.mul_zero, List.replicate_zero, Mem.put_nil]
  | succ ecx ih =>
      intro m edi ha hb
      have hstore := store_run (k := 4) (a := edi) (v := 0) ha (reaches_big hb _ _)
      have hsplit : List.replicate (4 * (ecx + 1)) (0 : Byte) =
          leBytes 4 0 ++ List.replicate (4 * ecx) 0 := by
        rw [Nat.mul_succ, Nat.add_comm, List.replicate_add]
        rfl
      have hrounds := ih { m with mem := m.mem.putLe 4 edi 0 } (edi + 4) ha hb
      rw [zeroDwords, run_bind_ok hstore, hrounds, hsplit, Mem.put_append,
        length_leBytes, Mem.putLe]

/-! ## Sectors -/

@[simp] theorem length_sectorsAt (fw : Firmware) (n : Nat) : ∀ lba,
    (fw.sectorsAt lba n).length = n * sectorSize := by
  induction n with
  | zero =>
      intro _
      rw [Firmware.sectorsAt, List.length_nil, Nat.zero_mul]
  | succ n ih =>
      intro lba
      rw [Firmware.sectorsAt, List.length_append, ih, Buf.length_toList, Nat.succ_mul, Nat.add_comm]

theorem sectorsAt_add (fw : Firmware) (n n' : Nat) : ∀ lba,
    fw.sectorsAt lba (n + n') = fw.sectorsAt lba n ++ fw.sectorsAt (lba + n) n' := by
  induction n with
  | zero =>
      intro lba
      rw [Nat.zero_add, Firmware.sectorsAt, List.nil_append, Nat.add_zero]
  | succ n ih =>
      intro lba
      have hnext : lba + 1 + n = lba + (n + 1) := by omega
      rw [Nat.succ_add, Firmware.sectorsAt, ih, Firmware.sectorsAt, List.append_assoc, hnext]

/-- A read that succeeds has the sectors in the bounce buffer and the limits
open. Giving up takes as many failures as there were retries. -/
theorem diskRead_ends (fw : Firmware) (n lba cx : Nat) : ∀ m : Machine,
    Ends (diskRead fw n lba cx) m
      (fun _ m' => m'.a20 = m.a20 ∧ m'.big = true ∧
        m'.mem.bytes bounce (n * sectorSize) = fw.sectorsAt lba n ∧
        Mem.Apart m.mem m'.mem bounce (bounce + n * sectorSize))
      (fun e => e = .die ∧ ∀ k < cx, fw.reads (m.nreads + k) = false) := by
  induction cx with
  | zero =>
      intro m
      exact .throw ⟨rfl, fun k hk => absurd hk (Nat.not_lt_zero k)⟩
  | succ cx ih =>
      intro m
      unfold diskRead
      cases hr : fw.reads m.nreads with
      | true =>
          have hread : extendedRead fw lba n bounce m = (.ok true, { m with
              mem := m.mem.put bounce (fw.sectorsAt lba n)
              big := m.big && fw.readKeeps m.nreads
              nreads := m.nreads + 1 }) := by
            rw [extendedRead, if_pos hr, hr]
          refine .bind_ok hread (.of_ok rfl ⟨rfl, rfl, Mem.bytes_put_self ?_, ?_⟩)
          · exact length_sectorsAt fw n lba
          · have happart := Mem.apart_put m.mem bounce (fw.sectorsAt lba n)
            rwa [length_sectorsAt] at happart
      | false =>
          have hread : extendedRead fw lba n bounce m = (.ok false, { m with
              mem := m.mem.put bounce ((fw.junk m.nreads).take (n * sectorSize))
              big := m.big && fw.readKeeps m.nreads
              nreads := m.nreads + 1 }) := by
            rw [extendedRead, if_neg (by rw [hr]; decide), hr]
          refine .bind_ok hread (.bind_ok rfl ((ih _).imp ?_ ?_))
          · rintro - m' ⟨ha, hb, hbytes, happart⟩
            refine ⟨ha, hb, hbytes, ?_⟩
            have hjunk := Mem.apart_put m.mem bounce ((fw.junk m.nreads).take (n * sectorSize))
            refine (hjunk.mono (Nat.le_refl _) (Nat.add_le_add_left ?_ _)).trans happart
            rw [List.length_take]
            exact Nat.min_le_left _ _
          · rintro e ⟨rfl, hall⟩
            refine ⟨rfl, fun k hk => ?_⟩
            cases k with
            | zero => exact hr
            | succ k =>
                have := hall k (by omega)
                rwa [Nat.add_assoc, Nat.add_comm 1 k] at this

/-- Five reads in a row that fail. -/
def Firmware.GivesUp (fw : Firmware) : Prop := ∃ i, ∀ k < 5, fw.reads (i + k) = false

/-- The rounds of the load leave the sectors at the destination, and nothing else
changed but the bounce buffer. -/
theorem lkLoop_ends (fw : Firmware) (edx : Nat) : ∀ (ebx edi : Nat) (m : Machine),
    m.a20 = true → m.big = true → bounce + chunkSecs * sectorSize ≤ edi →
    edi + edx * sectorSize < 2 ^ 32 → ebx + edx < 2 ^ 32 →
    Ends (lkLoop fw ebx edx edi) m
      (fun _ m' => m'.a20 = true ∧ m'.big = true ∧
        m'.mem.bytes edi (edx * sectorSize) = fw.sectorsAt ebx edx ∧
        ∀ i, i < bounce ∨ bounce + chunkSecs * sectorSize ≤ i ∧ i < edi ∨
          edi + edx * sectorSize ≤ i → m'.mem i = m.mem i)
      (fun e => e = .die ∧ fw.GivesUp) := by
  induction edx using Nat.strong_induction_on with
  | _ edx ih =>
      intro ebx edi m ha hb hedi hfit hlba
      unfold lkLoop
      by_cases h : edx = 0
      · rw [dif_pos h]
        subst h
        refine .pure ⟨ha, hb, ?_, fun _ _ => rfl⟩
        rw [Nat.zero_mul, Mem.bytes_zero, Firmware.sectorsAt]
      · rw [dif_neg h]
        obtain ⟨n, hn, hpos, hle, hchunk⟩ : ∃ n, min chunkSecs edx = n ∧ 0 < n ∧ n ≤ edx ∧ n ≤ 64 :=
          ⟨_, rfl, by simp only [chunkSecs]; omega, by omega, by simp only [chunkSecs]; omega⟩
        simp only [bounce, chunkSecs, sectorSize] at hedi hfit hn ⊢
        simp only [hn]
        refine ((diskRead_ends fw n ebx 5 m).imp (fun _ _ hq => hq)
          fun e he => ⟨he.1, _, he.2⟩).bind fun _ m₁ h₁ => ?_
        obtain ⟨ha₁, hb₁, hread, happart₁⟩ := h₁
        simp only [bounce, sectorSize] at hread happart₁
        have hcount : 4 * (n * 128) = n * 512 := by omega
        have hcopy := lkCopy_run (n * 128) m₁ bounce edi (ha₁.trans ha) hb₁
          (by simp only [bounce]; omega) (by omega)
        simp only [bounce] at hcopy
        rw [hcount, hread] at hcopy
        refine .bind_ok hcopy ?_
        have hlen : (fw.sectorsAt ebx n).length = n * 512 := length_sectorsAt fw n ebx
        rw [Nat.mod_eq_of_lt (by omega)]
        refine (ih (edx - n) (by omega) (ebx + n) (edi + n * 512)
          { m₁ with mem := m₁.mem.put edi (fw.sectorsAt ebx n) } (ha₁.trans ha) hb₁
          (by simp only [bounce, chunkSecs, sectorSize]; omega)
          (by simp only [sectorSize]; omega) (by omega)).imp ?_ fun _ he => he
        rintro - m₃ ⟨ha₃, hb₃, hrest, hframe⟩
        simp only [bounce, chunkSecs, sectorSize] at hrest hframe
        have hmem : ∀ i, i < 65536 ∨ 65536 + 64 * 512 ≤ i ∧ i < edi + n * 512 ∨
            edi + edx * 512 ≤ i → m₃.mem i = m₁.mem.put edi (fw.sectorsAt ebx n) i :=
          fun i hi => hframe i (by omega)
        refine ⟨ha₃, hb₃, ?_, fun i hi => ?_⟩
        · have hsplit : edx * 512 = n * 512 + (edx - n) * 512 := by omega
          have hfirst : m₃.mem.bytes edi (n * 512) = fw.sectorsAt ebx n := by
            rw [Mem.bytes_congr fun j hj hj' => hmem j (by omega), Mem.bytes_put_self hlen]
          have hsum : n + (edx - n) = edx := by omega
          rw [hsplit, Mem.bytes_add, hfirst, hrest, ← sectorsAt_add, hsum]
        · rw [hmem i (by omega), Mem.put_apply_out (by omega), happart₁ i (by omega)]

end Boot

end TablesOS
