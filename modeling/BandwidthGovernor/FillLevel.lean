import Mathlib
import BandwidthGovernor.FillOrder

/-! The water level.

    One number `l` describes every grant the loop has handed out so far: an active slot sits exactly
    at its minimum plus `l` per weight unit, and a slot that left the active list is below that mark
    and within `kEps` of its target. Each round moves the level up by its rise. At the exit either
    the remainder or the active list is used up, and both say that no capacity was left lying. -/

namespace BG

namespace Fill

variable {entries : List AllocEntry} {budget l : ℚ} {st : Fill}

/-- The slots stand at the level `l`. -/
structure Level (l : ℚ) (st : Fill) : Prop where
  nonneg : 0 ≤ l
  active : ∀ s ∈ st.slots, s.index ∈ st.active → s.granted = s.min + l * s.weight
  left : ∀ s ∈ st.slots, s.index ∉ st.active →
    s.want ≤ s.granted + kEps ∧ s.granted ≤ s.min + l * s.weight

theorem mem_step_slots {s : Slot} : s ∈ st.step.slots ↔ ∃ s₀ ∈ st.slots, st.raised s₀ = s := by
  simp only [Fill.step, raise, List.mem_map, raised]

/-- A round lifts the level by its rise. -/
theorem Inv.step_level (h : Inv entries budget st) (hne : st.active ≠ []) (hl : Level l st) :
    Level (l + st.rise) st.step := by
  have hrise := h.rise_nonneg hne
  refine ⟨by linarith [hl.nonneg], ?_, ?_⟩
  · intro s hs hact
    obtain ⟨s₀, hs₀, rfl⟩ := mem_step_slots.mp hs
    rw [raised_index, mem_step_active (h.indexed.getElem? hs₀)] at hact
    rw [raised_granted, if_pos hact.1, raised_min, raised_weight, hl.active s₀ hs₀ hact.1]
    ring
  · intro s hs hout
    obtain ⟨s₀, hs₀, rfl⟩ := mem_step_slots.mp hs
    rw [raised_index, mem_step_active (h.indexed.getElem? hs₀), not_and, not_lt] at hout
    rw [raised_want, raised_min, raised_weight]
    by_cases hact : s₀.index ∈ st.active
    · have hfull := hout hact
      rw [raised_granted, if_pos hact] at hfull ⊢
      have hat := hl.active s₀ hs₀ hact
      exact ⟨by linarith, by rw [hat]; linarith⟩
    · rw [raised_granted, if_neg hact]
      obtain ⟨hwant, hbelow⟩ := hl.left s₀ hs₀ hact
      have hup := mul_nonneg hrise (h.weight_pos hs₀).le
      exact ⟨hwant, by linarith⟩

theorem Inv.loop_level : ∀ (n : ℕ) {l : ℚ} {st : Fill}, Inv entries budget st → Level l st →
    ∃ l', Level l' (Fill.loop n st)
  | 0, l, _, _, hl => ⟨l, hl⟩
  | n + 1, l, st, h, hl => by
    unfold Fill.loop
    split
    · rename_i hc
      rw [if_neg (not_le.mpr (h.weightSum_pos hc.2))]
      exact Inv.loop_level n (h.step hc.2) (h.step_level hc.2 hl)
    · exact ⟨l, hl⟩

/-- The loop starts at level zero. -/
theorem start_level (entries : List AllocEntry) (capacity : ℚ) :
    Level 0 (start entries capacity) := by
  refine ⟨le_refl _, fun s hs _ => ?_, fun s hs hout => ?_⟩
  · rw [toSlots_granted hs]
    ring
  · refine ⟨?_, by rw [toSlots_granted hs]; linarith⟩
    by_contra hlt
    refine hout
      ((List.mem_insertionSort _).mpr (List.mem_map_of_mem (List.mem_filter.mpr ⟨hs, ?_⟩)))
    simpa using hlt

/-- At any level a grant lies within `kEps` below the mark and never above it. -/
theorem Level.mark (hl : Level l st) (hwithin : ∀ s ∈ st.slots, s.granted ≤ s.want) {s : Slot}
    (hs : s ∈ st.slots) : Min.min s.want (s.min + l * s.weight) - kEps ≤ s.granted ∧
      s.granted ≤ Min.min s.want (s.min + l * s.weight) := by
  have hk := kEps_pos
  by_cases hact : s.index ∈ st.active
  · have hat := hl.active s hs hact
    refine ⟨?_, le_min (hwithin s hs) hat.le⟩
    linarith [min_le_right s.want (s.min + l * s.weight)]
  · obtain ⟨hwant, hbelow⟩ := hl.left s hs hact
    refine ⟨?_, le_min (hwithin s hs) hbelow⟩
    linarith [min_le_left s.want (s.min + l * s.weight)]

end Fill

/-! ### The level of a whole allocation -/

section Allocation
variable {entries : List AllocEntry} {capacity : ℚ}

theorem sum_want_of {slots : List Slot} (h : List.Forall₂ Slot.Of slots entries) :
    (slots.map Slot.want).sum = (entries.map AllocEntry.want).sum := by
  induction h with
  | nil => rfl
  | cons hse _ ih => simp only [List.map_cons, List.sum_cons, hse.want, ih]

/-- Slots that are full up to `kEps` fall short of the targets by at most `kEps` each. -/
theorem sum_granted_of_full : ∀ {slots : List Slot}, (∀ s ∈ slots, s.want ≤ s.granted + kEps) →
    (slots.map Slot.want).sum - slots.length * kEps ≤ (slots.map Slot.granted).sum
  | [], _ => by simp
  | s :: slots, h => by
    rw [List.forall_mem_cons] at h
    have ih := sum_granted_of_full h.2
    simp only [List.map_cons, List.sum_cons, List.length_cons, Nat.cast_add, Nat.cast_one]
    linarith [h.1]

theorem run_level (hv : ∀ e ∈ entries, e.Valid) (capacity : ℚ) :
    ∃ l, Fill.Level l (Fill.run entries capacity) := by
  rcases le_or_gt (entries.map AllocEntry.min).sum capacity with hle | hgt
  · exact (start_inv hv hle).loop_level _ (Fill.start_level entries capacity)
  · rw [run_eq_start hv hgt]
    exact ⟨0, Fill.start_level entries capacity⟩

theorem run_shape (hv : ∀ e ∈ entries, e.Valid) (capacity : ℚ) :
    List.Forall₂ Slot.Of (Fill.run entries capacity).slots entries := by
  rcases le_or_gt (entries.map AllocEntry.min).sum capacity with hle | hgt
  · exact ((start_inv hv hle).loop _).shape
  · rw [run_eq_start hv hgt]
    exact toSlots_of hv

/-- The loop stops with every slot full up to `kEps` or on an exhausted remainder. -/
theorem run_settles (hv : ∀ e ∈ entries, e.Valid) (capacity : ℚ) :
    (∀ s ∈ (Fill.run entries capacity).slots, s.want ≤ s.granted + kEps) ∨
      capacity - kEps ≤ ((Fill.run entries capacity).slots.map Slot.granted).sum := by
  have hk := kEps_pos
  rcases le_or_gt (entries.map AllocEntry.min).sum capacity with hle | hgt
  · have hinv := (start_inv hv hle).loop ((Fill.start entries capacity).active.length + 1)
    have hexit := (start_inv hv hle).loop_exit _ (Nat.lt_succ_self _)
    obtain ⟨l, hl⟩ := run_level hv capacity
    change Fill.Inv entries capacity (Fill.run entries capacity) at hinv
    change ¬ (kEps < (Fill.run entries capacity).remaining ∧
      (Fill.run entries capacity).active ≠ []) at hexit
    rw [not_and_or, not_lt, not_not] at hexit
    rcases hexit with hrem | hnil
    · have htot := hinv.total
      exact Or.inr (by linarith)
    · exact Or.inl fun s hs => (hl.left s hs (by simp [hnil])).1
  · rw [run_eq_start hv hgt]
    have hsum : ((Fill.start entries capacity).slots.map Slot.granted).sum =
        (entries.map AllocEntry.min).sum := toSlots_sum_granted hv
    exact Or.inr (by linarith)

/-- The loop leaves no capacity while a slot has room. -/
theorem run_conserves (hv : ∀ e ∈ entries, e.Valid) (capacity : ℚ) :
    Min.min capacity (entries.map AllocEntry.want).sum - entries.length * kEps ≤
      ((Fill.run entries capacity).slots.map Slot.granted).sum := by
  have hk := kEps_pos
  have hshape := run_shape hv capacity
  rcases run_settles hv capacity with hfull | hrem
  · have hsum := sum_granted_of_full hfull
    rw [sum_want_of hshape, hshape.length_eq] at hsum
    linarith [min_le_right capacity (entries.map AllocEntry.want).sum]
  · rcases entries with - | ⟨e, rest⟩
    · have hslots : (Fill.run [] capacity).slots = [] :=
        List.length_eq_zero_iff.mp hshape.length_eq
      simp [hslots]
    · have hmin := min_le_left capacity ((e :: rest).map AllocEntry.want).sum
      have hn : kEps ≤ ((e :: rest).length : ℚ) * kEps := by
        rw [List.length_cons, Nat.cast_add, Nat.cast_one]
        nlinarith [(Nat.cast_nonneg rest.length : (0 : ℚ) ≤ rest.length)]
      linarith

/-- The mark of an entry when the level is `l`. -/
def AllocEntry.mark (l : ℚ) (e : AllocEntry) : ℚ :=
  Min.min e.want (e.min + l * sanitiseWeight e.weight)

/-- The figures of the water-fill branch are those of the loop's last state. -/
theorem allocateWeighted_filled (hv : ∀ e ∈ entries, e.Valid) (hne : entries ≠ [])
    (hpos : 0 < capacity) (hfits : (entries.map AllocEntry.min).sum ≤ capacity + kEps) :
    (allocateWeighted entries capacity).granted =
        (Fill.run entries capacity).slots.map Slot.granted ∧
      (allocateWeighted entries capacity).totalGranted =
        ((Fill.run entries capacity).slots.map Slot.granted).sum := by
  have hsome : ¬ (entries.isEmpty = true ∨ capacity ≤ 0) := by simp [hne, hpos]
  have hmin : ¬ capacity + kEps < ((toSlots entries).map Slot.min).sum := by
    rw [sum_map_of (toSlots_of hv)]
    exact not_lt.mpr hfits
  unfold allocateWeighted
  rw [if_neg hsome]
  dsimp only
  rw [if_neg hmin, run_clamp hv hfits]
  exact ⟨rfl, rfl⟩

/-- One level describes the grants of the water-fill branch. -/
theorem filled_marks (hv : ∀ e ∈ entries, e.Valid) (hne : entries ≠ []) (hpos : 0 < capacity)
    (hfits : (entries.map AllocEntry.min).sum ≤ capacity + kEps) :
    ∃ l, 0 ≤ l ∧ List.Forall₂ (fun g (e : AllocEntry) => e.mark l - kEps ≤ g ∧ g ≤ e.mark l)
      (allocateWeighted entries capacity).granted entries := by
  obtain ⟨hof, hin, -⟩ := run_spec hv hfits
  obtain ⟨l, hl⟩ := run_level hv capacity
  have hmark := fun s (hs : s ∈ (Fill.run entries capacity).slots) =>
    hl.mark (fun x hx => (hin x hx).2) hs
  rw [(allocateWeighted_filled hv hne hpos hfits).1]
  refine ⟨l, hl.nonneg, List.forall₂_map_left_iff.mpr
    (((List.forall₂_and_left _ _).mpr ⟨hmark, hof⟩).imp fun s e h => ?_)⟩
  rw [AllocEntry.mark, ← h.2.want, ← h.2.min, ← h.2.weight]
  exact h.1

/-- The grants of the branch that cuts the minima. -/
theorem allocateWeighted_cut (hv : ∀ e ∈ entries, e.Valid) (hpos : 0 < capacity)
    (hover : capacity + kEps < (entries.map AllocEntry.min).sum) :
    (allocateWeighted entries capacity).granted =
      entries.map fun e => e.min * capacity / (entries.map AllocEntry.min).sum := by
  have hk := kEps_pos
  have hsum := sum_map_of (toSlots_of hv)
  have hne : entries ≠ [] := by
    rintro rfl
    rw [List.map_nil, List.sum_nil] at hover
    linarith
  have hsome : ¬ (entries.isEmpty = true ∨ capacity ≤ 0) := by simp [hne, hpos]
  have hmin : capacity + kEps < ((toSlots entries).map Slot.min).sum := hsum ▸ hover
  have hof : ∀ {slots : List Slot} {es : List AllocEntry} (f : ℚ → ℚ),
      List.Forall₂ Slot.Of slots es →
        slots.map (fun s => f s.min) = es.map fun e => f e.min := by
    intro slots es f h
    induction h with
    | nil => rfl
    | cons hse _ ih => rw [List.map_cons, List.map_cons, hse.min, ih]
  unfold allocateWeighted
  rw [if_neg hsome]
  dsimp only
  rw [if_pos hmin, (scaled_granted hv hpos hmin).1, hsum, hof (fun x => x * _) (toSlots_of hv)]
  exact List.map_congr_left fun e _ => (mul_div_assoc _ _ _).symm

/-- `allocate_weighted` is a weighted water-fill: minima that do not fit are cut in proportion;
    otherwise one level describes every grant up to `kEps`, the grants fit the capacity, and none of
    it is left while an entry wants more. -/
theorem allocateWeighted_waterFill (entries : List AllocEntry) (hv : ∀ e ∈ entries, e.Valid)
    (capacity : ℚ) (hpos : 0 < capacity) :
    (capacity + kEps < (entries.map AllocEntry.min).sum →
      (allocateWeighted entries capacity).granted =
        entries.map fun e => e.min * capacity / (entries.map AllocEntry.min).sum) ∧
    ((entries.map AllocEntry.min).sum ≤ capacity + kEps →
      (∃ l, 0 ≤ l ∧ List.Forall₂ (fun g e => e.mark l - kEps ≤ g ∧ g ≤ e.mark l)
        (allocateWeighted entries capacity).granted entries) ∧
      (allocateWeighted entries capacity).totalGranted =
        (allocateWeighted entries capacity).granted.sum ∧
      (allocateWeighted entries capacity).totalGranted ≤ capacity + kEps ∧
      Min.min capacity (entries.map AllocEntry.want).sum - entries.length * kEps ≤
        (allocateWeighted entries capacity).totalGranted) := by
  refine ⟨allocateWeighted_cut hv hpos, fun hfits => ?_⟩
  rcases eq_or_ne entries [] with rfl | hne
  · have hk := kEps_pos
    refine ⟨⟨0, le_refl _, List.Forall₂.nil⟩, rfl, ?_, ?_⟩
    · change (0 : ℚ) ≤ capacity + kEps
      linarith
    · change Min.min capacity 0 - (0 : ℕ) * kEps ≤ 0
      simp [hpos.le]
  · obtain ⟨hgranted, htotal⟩ := allocateWeighted_filled hv hne hpos hfits
    obtain ⟨-, -, hcap⟩ := run_spec hv hfits
    refine ⟨filled_marks hv hne hpos hfits, ?_⟩
    rw [hgranted, htotal]
    exact ⟨rfl, hcap, run_conserves hv capacity⟩

/-- Three flows on one link: a minimum to honour, a small target that fills early, a double
    share. -/
theorem allocateWeighted_waterFill_three :
    let entries : List AllocEntry :=
      [⟨⟨0, 1⟩, 1, 2, 10, 10⟩, ⟨⟨0, 2⟩, 1, 0, 1, 4⟩, ⟨⟨0, 3⟩, 2, 0, 10, 10⟩]
    (∀ e ∈ entries, e.Valid) ∧ (0 : ℚ) < 12 ∧ ∃ l, 0 ≤ l ∧
      List.Forall₂ (fun g e => e.mark l - kEps ≤ g ∧ g ≤ e.mark l)
        (allocateWeighted entries 12).granted entries := by
  intro entries
  have hv : ∀ e ∈ entries, e.Valid := by
    intro e he
    simp only [entries, List.mem_cons, List.not_mem_nil, or_false] at he
    rcases he with rfl | rfl | rfl <;> constructor <;> norm_num
  refine ⟨hv, by norm_num, ((allocateWeighted_waterFill entries hv 12 (by norm_num)).2 ?_).1⟩
  simp only [entries, List.map_cons, List.map_nil, List.sum_cons, List.sum_nil]
  linarith [kEps_pos]

end Allocation

end BG
