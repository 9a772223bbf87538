import TablesOS.Base.Outcome

/-!
# Loops that write each place once

A state is looked at place by place: `view s k` is what it has at place `k`. A
round of a loop changes what is at some places, as a function of what was there,
and leaves the others alone: `Changes`. Where no two rounds have a place in
common the order of the rounds does not matter, and the loop has changed each
place as its own round did.

Rounds can be loops themselves. A sweep over a rectangle is a loop over its
rows, and the places of one row are those its own loop over the columns has.
-/

namespace TablesOS

variable {ε σ K V : Type}

/-- From `s` to `s'` the places `hit` have changed by `g`, and no others. -/
structure Changes (view : σ → K → V) (hit : K → Prop) (g : K → V → V) (s s' : σ) : Prop where
  inside : ∀ k, hit k → view s' k = g k (view s k)
  outside : ∀ k, ¬ hit k → view s' k = view s k

namespace Changes

variable {view : σ → K → V} {hit hit' : K → Prop} {g g' : K → V → V} {s s' : σ}

theorem refl (hnone : ∀ k, ¬ hit k) (s : σ) : Changes view hit g s s :=
  ⟨fun k hk => absurd hk (hnone k), fun _ _ => rfl⟩

theorem congr (h : Changes view hit g s s') (hhit : ∀ k, hit' k ↔ hit k)
    (hg : ∀ k v, hit k → g' k v = g k v) : Changes view hit' g' s s' := by
  refine ⟨fun k hk => ?_, fun k hk => h.outside k fun hin => hk ((hhit k).mpr hin)⟩
  have hin := (hhit k).mp hk
  rw [h.inside k hin, hg k _ hin]

end Changes

/-- A loop whose rounds have no place in common. -/
theorem foldlM_changes {view : σ → K → V} {hit : Nat → K → Prop} {g : Nat → K → V → V}
    {step : σ → Nat → Outcome ε σ} (hapart : ∀ i j k, hit i k → hit j k → i = j) {n : Nat}
    (hstep : ∀ i, i < n → ∀ s, ∃ s', step s i = .ok s' ∧ Changes view (hit i) (g i) s s')
    (s : σ) : ∃ s', (List.range n).foldlM step s = .ok s' ∧
      (∀ i, i < n → ∀ k, hit i k → view s' k = g i k (view s k)) ∧
      ∀ k, (∀ i, i < n → ¬ hit i k) → view s' k = view s k := by
  induction n with
  | zero => exact ⟨s, rfl, fun i hi => absurd hi (Nat.not_lt_zero i), fun _ _ => rfl⟩
  | succ n ih =>
      obtain ⟨s₁, hrun, hin, hout⟩ := ih fun i hi => hstep i (Nat.lt_succ_of_lt hi)
      obtain ⟨s₂, hlast, hchange⟩ := hstep n (Nat.lt_succ_self n) s₁
      refine ⟨s₂, ?_, fun i hi k hk => ?_, fun k hk => ?_⟩
      · rw [List.range_succ, List.foldlM_append, hrun, Outcome.ok_bind, List.foldlM_cons, hlast]
        rfl
      · by_cases hlt : i < n
        · have hnot : ¬ hit n k := fun hn => absurd (hapart i n k hk hn) (by omega)
          rw [hchange.outside k hnot, hin i hlt k hk]
        · obtain rfl : i = n := by omega
          have hbefore : ∀ j, j < i → ¬ hit j k := fun j hj hjk =>
            absurd (hapart j i k hjk hk) (by omega)
          rw [hchange.inside k hk, hout k hbefore]
      · rw [hchange.outside k (hk n (Nat.lt_succ_self n)),
          hout k fun i hi => hk i (Nat.lt_succ_of_lt hi)]

/-- Rounds at consecutive places, `a` the first: `number k` is the number of
place `k`. -/
theorem foldlM_line {view : σ → K → V} {number : K → Nat} {within : K → Prop}
    {g : Nat → K → V → V} {step : σ → Nat → Outcome ε σ} {a n : Nat}
    (hstep : ∀ i, i < n → ∀ s, ∃ s', step s i = .ok s' ∧
      Changes view (fun k => number k = a + i ∧ within k) (g i) s s') (s : σ) :
    ∃ s', (List.range n).foldlM step s = .ok s' ∧
      Changes view (fun k => (a ≤ number k ∧ number k < a + n) ∧ within k)
        (fun k => g (number k - a) k) s s' := by
  have hapart : ∀ i j k, (number k = a + i ∧ within k) → (number k = a + j ∧ within k) →
      i = j := fun i j k hi hj => by omega
  obtain ⟨s', hrun, hin, hout⟩ := foldlM_changes hapart hstep s
  refine ⟨s', hrun, fun k hk => ?_, fun k hk => hout k fun i hi hk' => hk ?_⟩
  · obtain ⟨⟨hle, hlt⟩, hk⟩ := hk
    exact hin (number k - a) (by omega) k ⟨by omega, hk⟩
  · exact ⟨by omega, hk'.2⟩

end TablesOS
