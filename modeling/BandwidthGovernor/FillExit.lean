import Mathlib
import BandwidthGovernor.FillPerm

/-! How an allocation ends.

    Every round of the loop uses up the remainder or removes a slot, whatever the entries, so the
    rounds are counted by the active slots. The report that goes with the grants is right wherever
    there is capacity; without capacity the allocator returns before it looks at the demand. -/

namespace BG

namespace Fill
variable {st : Fill}

/-! ### The rounds -/

/-- The loop goes on. -/
def Goes (st : Fill) : Prop := kEps < st.remaining ∧ st.active ≠ []

instance (st : Fill) : Decidable st.Goes := inferInstanceAs (Decidable (_ ∧ _))

theorem Sound.iterate (h : Sound st) : ∀ k : ℕ, Sound (Fill.step^[k] st)
  | 0 => h
  | k + 1 => by
    rw [Function.iterate_succ_apply']
    exact (h.iterate k).step

/-- With a slot less in every round but the last, the rounds are at most one more than the slots. -/
theorem Sound.rounds : ∀ (n : ℕ) {st : Fill}, Sound st → st.active.length ≤ n →
    ∃ k ≤ n + 1, (∀ j < k, Goes (Fill.step^[j] st)) ∧ ¬ Goes (Fill.step^[k] st)
  | n, st, h, hn => by
    by_cases hgo : Goes st
    · rcases h.step_progress hgo.2 with hrem | hlen
      · refine ⟨1, by omega, fun j hj => ?_, fun hgo' => absurd hgo'.1 (not_lt.mpr hrem)⟩
        obtain rfl : j = 0 := by omega
        exact hgo
      · cases n with
        | zero => omega
        | succ n =>
          obtain ⟨k, hk, hgoes, hstop⟩ := Sound.rounds n h.step (by omega)
          refine ⟨k + 1, by omega, fun j hj => ?_, hstop⟩
          cases j with
          | zero => exact hgo
          | succ j => exact hgoes j (by omega)
    · exact ⟨0, by omega, fun j hj => absurd hj (Nat.not_lt_zero j), hgo⟩

/-- The loop is its rounds, as soon as the fuel lasts for them. -/
theorem Sound.loop_eq_iterate : ∀ (n : ℕ) {k : ℕ} {st : Fill}, Sound st → k ≤ n →
    (∀ j < k, Goes (Fill.step^[j] st)) → ¬ Goes (Fill.step^[k] st) →
      Fill.loop n st = Fill.step^[k] st
  | n, 0, st, _, _, _, hstop => by
    cases n with
    | zero => rfl
    | succ n => exact if_neg hstop
  | n + 1, k + 1, st, h, hk, hgoes, hstop => by
    have hgo : kEps < st.remaining ∧ st.active ≠ [] := hgoes 0 k.succ_pos
    have ih := Sound.loop_eq_iterate n h.step (Nat.le_of_succ_le_succ hk)
      (fun j hj => hgoes (j + 1) (Nat.succ_lt_succ hj)) hstop
    unfold Fill.loop
    rw [if_pos hgo, if_neg (not_le.mpr (h.weightSum_pos hgo.2)), ih]
    rfl

end Fill

/-- For any entries and any capacity: a round with which the loop goes on finds weight to share
    among the active slots and uses up the remainder or removes a slot; there are at most one more
    rounds than active slots at the start, and what the loop leaves is the state after the last of
    them. -/
theorem waterFill_terminates (entries : List AllocEntry) (capacity : ℚ) :
    (∀ k, Fill.Goes (Fill.step^[k] (Fill.start entries capacity)) →
      0 < (Fill.step^[k] (Fill.start entries capacity)).weightSum ∧
      ((Fill.step^[k + 1] (Fill.start entries capacity)).remaining ≤ kEps ∨
        (Fill.step^[k + 1] (Fill.start entries capacity)).active.length <
          (Fill.step^[k] (Fill.start entries capacity)).active.length)) ∧
    ∃ k ≤ (Fill.start entries capacity).active.length + 1,
      (∀ j < k, Fill.Goes (Fill.step^[j] (Fill.start entries capacity))) ∧
      ¬ Fill.Goes (Fill.step^[k] (Fill.start entries capacity)) ∧
      Fill.run entries capacity = Fill.step^[k] (Fill.start entries capacity) := by
  have hsound := start_sound entries capacity
  refine ⟨fun k hgo => ?_, ?_⟩
  · rw [Function.iterate_succ_apply']
    exact ⟨(hsound.iterate k).weightSum_pos hgo.2, (hsound.iterate k).step_progress hgo.2⟩
  · obtain ⟨k, hk, hgoes, hstop⟩ := hsound.rounds _ (le_refl _)
    exact ⟨k, hk, hgoes, hstop, hsound.loop_eq_iterate _ hk hgoes hstop⟩

/-- The theorem at two entries of which the second is full after the first round. -/
theorem waterFill_terminates_two :
    let start := Fill.start [⟨⟨0, 1⟩, 1, 0, 10, 10⟩, ⟨⟨0, 2⟩, 1, 0, 1, 4⟩] 6
    start.Goes ∧ start.step.Goes ∧ start.step.active.length < start.active.length ∧
      ∃ k ≤ 3, ¬ Fill.Goes (Fill.step^[k] start) := by
  intro start
  have hgoes : start.Goes ∧ start.step.Goes := by decide +kernel
  obtain ⟨hround, k, hk, -, hstop, -⟩ :=
    waterFill_terminates [⟨⟨0, 1⟩, 1, 0, 10, 10⟩, ⟨⟨0, 2⟩, 1, 0, 1, 4⟩] 6
  have hlen : start.active.length + 1 = 3 := by decide +kernel
  exact ⟨hgoes.1, hgoes.2, (hround 0 hgoes.1).2.resolve_left (not_le.mpr hgoes.2.1), k,
    hk.trans_eq hlen, hstop⟩

/-! ### The report -/

/-- The report of an allocation matches the entries, the grants and the capacity. -/
structure AllocResult.Reports (r : AllocResult) (entries : List AllocEntry) (capacity : ℚ) :
    Prop where
  requested : r.totalRequested = (entries.map AllocEntry.want).sum
  granted : r.totalGranted = r.granted.sum
  unserved : r.unserved = r.totalRequested - r.totalGranted
  saturated : r.saturated = true ↔ capacity + kEps < r.totalRequested

theorem sum_granted_le {entries : List AllocEntry} (hv : ∀ e ∈ entries, e.Valid) (capacity : ℚ) :
    (allocateWeighted entries capacity).granted.sum ≤ (entries.map AllocEntry.want).sum := by
  have hle := (allocateWeighted_allotment hv capacity).each
  exact (List.forall₂_map_right_iff.mpr (hle.imp fun g e h => h.2)).sum_le_sum

/-- The report is right exactly where there is capacity or nothing is wanted. -/
theorem report_matches_iff {entries : List AllocEntry} (hv : ∀ e ∈ entries, e.Valid) {capacity : ℚ}
    (hnn : 0 ≤ capacity) : (allocateWeighted entries capacity).Reports entries capacity ↔
      0 < capacity ∨ (entries.map AllocEntry.want).sum = 0 := by
  obtain ⟨hreq, hgr, hun, hsat⟩ := allocateWeighted_totals hv capacity
  constructor
  · intro h
    rcases hnn.eq_or_lt with hzero | hpos
    · rw [← hzero] at h hreq
      rw [if_pos (le_refl _), h.requested] at hreq
      exact Or.inr hreq
    · exact Or.inl hpos
  · intro h
    have hall : (allocateWeighted entries capacity).totalRequested =
        (entries.map AllocEntry.want).sum := by
      rw [hreq]
      rcases h with hpos | hzero
      · rw [if_neg (not_le.mpr hpos)]
      · rw [hzero, ite_self]
    refine ⟨hall, hgr, ?_, ?_⟩
    · rw [hun, max_eq_right]
      rw [hall, hgr]
      exact sub_nonneg.mpr (sum_granted_le hv capacity)
    · rw [hsat, decide_eq_true_iff]
      refine and_iff_right_of_imp fun hlt => ?_
      rcases h with hpos | hzero
      · exact hpos
      · rw [hall, hzero] at hlt
        linarith [kEps_pos]

/-- The theorem at one entry that wants 10 of 4. -/
theorem report_matches_scarce : (∀ e ∈ [AllocEntry.mk ⟨0, 1⟩ 1 0 10 10], e.Valid) ∧
    (allocateWeighted [AllocEntry.mk ⟨0, 1⟩ 1 0 10 10] 4).Reports
      [AllocEntry.mk ⟨0, 1⟩ 1 0 10 10] 4 := by
  have hv : ∀ e ∈ [AllocEntry.mk ⟨0, 1⟩ 1 0 10 10], e.Valid := by
    intro e he
    obtain rfl := List.mem_singleton.mp he
    constructor <;> norm_num
  exact ⟨hv, (report_matches_iff hv (by norm_num)).mpr (Or.inl (by norm_num))⟩

/-- On a link without capacity an entry that wants 10 is reported as no demand. -/
theorem zero_capacity_hides_demand : (∀ e ∈ [AllocEntry.mk ⟨0, 1⟩ 1 0 10 10], e.Valid) ∧
    (allocateWeighted [AllocEntry.mk ⟨0, 1⟩ 1 0 10 10] 0).totalRequested = 0 ∧
    ¬ (allocateWeighted [AllocEntry.mk ⟨0, 1⟩ 1 0 10 10] 0).Reports
      [AllocEntry.mk ⟨0, 1⟩ 1 0 10 10] 0 := by
  refine ⟨fun e he => ?_, rfl, fun h => ?_⟩
  · obtain rfl := List.mem_singleton.mp he
    constructor <;> norm_num
  · have hreq := h.requested
    have hwant : ([AllocEntry.mk ⟨0, 1⟩ 1 0 10 10].map AllocEntry.want).sum = 10 := by norm_num
    rw [hwant] at hreq
    norm_num [allocateWeighted] at hreq

end BG
