import Mathlib
import BandwidthGovernor.Policy

/-! What the water-fill guarantees.

    The loop invariant `Fill.Inv` ties the slots to the entries and says that grants plus remaining
    capacity never change. From it: the loop ends within its fuel, every grant lies between zero
    and the entry's target, the grants fit the capacity up to `kEps` on every branch, and minima
    that fit are honoured. -/

namespace BG

/-- The envelope the allocator is called with. -/
structure AllocEntry.Valid (e : AllocEntry) : Prop where
  min_nonneg : 0 ≤ e.min
  min_le : e.min ≤ e.want
  want_le : e.want ≤ e.max

theorem sanitiseWeight_pos (w : ℚ) : 0 < sanitiseWeight w := by
  unfold sanitiseWeight
  split
  · exact one_pos
  · rename_i h; rw [not_or, not_not] at h; exact h.1

/-- The slot of a valid entry carries the entry's own envelope. -/
structure Slot.Of (s : Slot) (e : AllocEntry) : Prop where
  weight : s.weight = sanitiseWeight e.weight
  min : s.min = e.min
  want : s.want = e.want
  max : s.max = e.max

theorem toSlot_of {e : AllocEntry} (he : e.Valid) (i : ℕ) : (toSlot i e).Of e := by
  have hmin : clamp e.min 0 e.max = e.min :=
    clamp_of_mem he.min_nonneg (he.min_le.trans he.want_le)
  refine ⟨rfl, hmin, ?_, rfl⟩
  change clamp e.want (clamp e.min 0 e.max) e.max = e.want
  rw [hmin, clamp_of_mem he.min_le he.want_le]

theorem forall₂_exists_right {α β : Type} {R : α → β → Prop} {l : List α} {u : List β}
    (h : List.Forall₂ R l u) {a : α} (ha : a ∈ l) : ∃ b ∈ u, R a b := by
  induction h with
  | nil => cases ha
  | cons hab _ ih =>
    rcases List.mem_cons.mp ha with rfl | hl
    · exact ⟨_, List.mem_cons_self .., hab⟩
    · obtain ⟨b, hb, hr⟩ := ih hl
      exact ⟨b, List.mem_cons_of_mem _ hb, hr⟩

theorem toSlots_of : ∀ {entries : List AllocEntry} (_ : ∀ e ∈ entries, e.Valid),
    List.Forall₂ Slot.Of (toSlots entries) entries := by
  intro entries hv
  rw [List.forall₂_iff_get]
  refine ⟨by simp [toSlots], fun i h₁ h₂ => ?_⟩
  simp only [toSlots, List.get_eq_getElem, List.getElem_mapIdx]
  exact toSlot_of (hv _ (List.getElem_mem _)) i

/-! ### Slots and their indices -/

/-- Every slot sits at its own index. -/
def Indexed (slots : List Slot) : Prop := ∀ (i : ℕ) (s : Slot), slots[i]? = some s → s.index = i

theorem toSlots_indexed (entries : List AllocEntry) : Indexed (toSlots entries) := by
  intro i s h
  simp only [toSlots, List.getElem?_mapIdx, Option.map_eq_some_iff] at h
  obtain ⟨e, -, rfl⟩ := h
  rfl

theorem Indexed.map {slots : List Slot} (h : Indexed slots) {f : Slot → Slot}
    (hf : ∀ s, (f s).index = s.index) : Indexed (slots.map f) := by
  intro i s hs
  rw [List.getElem?_map, Option.map_eq_some_iff] at hs
  obtain ⟨s₀, hs₀, rfl⟩ := hs
  rw [hf, h i s₀ hs₀]

theorem Indexed.getElem? {slots : List Slot} (h : Indexed slots) {s : Slot} (hs : s ∈ slots) :
    slots[s.index]? = some s := by
  obtain ⟨i, hi⟩ := List.mem_iff_getElem?.mp hs
  rw [h i s hi, hi]

theorem Indexed.nodup {slots : List Slot} (h : Indexed slots) : slots.Nodup := by
  rw [List.nodup_iff_getElem?_ne_getElem?]
  intro i j hij hj heq
  have hs : slots[i]? = some (slots[i]) := List.getElem?_eq_getElem (hij.trans hj)
  have hs' : slots[j]? = some (slots[i]) := heq ▸ hs
  exact absurd ((h i _ hs).symm.trans (h j _ hs')) hij.ne

theorem mem_activeSlots {slots : List Slot} (h : Indexed slots) {active : List ℕ} {s : Slot} :
    s ∈ activeSlots slots active ↔ s ∈ slots ∧ s.index ∈ active := by
  simp only [activeSlots, List.mem_filterMap]
  constructor
  · rintro ⟨i, hi, hs⟩
    exact ⟨List.mem_of_getElem? hs, (h i s hs).symm ▸ hi⟩
  · rintro ⟨hs, hi⟩
    exact ⟨s.index, hi, h.getElem? hs⟩

/-- The active slots are the slots whose index is active, in another order. -/
theorem activeSlots_perm {slots : List Slot} (h : Indexed slots) {active : List ℕ}
    (hnd : active.Nodup) :
    (activeSlots slots active).Perm (slots.filter fun s => decide (s.index ∈ active)) := by
  refine (List.perm_ext_iff_of_nodup ?_ (h.nodup.filter _)).mpr fun s => ?_
  · refine hnd.filterMap fun i j s hi hj => ?_
    rw [Option.mem_def] at hi hj
    rw [← h i s hi, ← h j s hj]
  · rw [mem_activeSlots h, List.mem_filter, decide_eq_true_iff]

/-- Raising the active slots adds `step` per weight unit to the total. -/
theorem sum_raise (active : List ℕ) (step : ℚ) : ∀ slots : List Slot,
    ((Fill.raise active step slots).map Slot.granted).sum = (slots.map Slot.granted).sum +
      step * ((slots.filter fun s => decide (s.index ∈ active)).map Slot.weight).sum
  | [] => by simp [Fill.raise]
  | s :: slots => by
    have ih := sum_raise active step slots
    simp only [Fill.raise, List.map_map] at ih
    by_cases hs : s.index ∈ active
    · simp only [Fill.raise, List.map_cons, List.map_map, List.sum_cons, hs, if_true,
        List.filter_cons_of_pos, decide_true, ih]
      ring
    · simp only [Fill.raise, List.map_cons, List.map_map, List.sum_cons, hs, if_false,
        List.filter_cons_of_neg, decide_false, Bool.false_eq_true, not_false_eq_true, ih]
      ring

/-! ### The smallest room -/

/-- One comparison of the `min_room` scan. -/
def roomMin (m : Option ℚ) (s : Slot) : Option ℚ :=
  match m with
  | none => some ((s.want - s.granted) / s.weight)
  | some m => if (s.want - s.granted) / s.weight < m then some ((s.want - s.granted) / s.weight)
    else some m

theorem minRoom_eq (st : Fill) :
    st.minRoom = (activeSlots st.slots st.active).foldl roomMin none := rfl

theorem foldl_roomMin_le_acc : ∀ (l : List Slot) (a : ℚ),
    ∃ m, l.foldl roomMin (some a) = some m ∧ m ≤ a
  | [], a => ⟨a, rfl, le_refl _⟩
  | s :: l, a => by
    rw [List.foldl_cons]
    by_cases h : (s.want - s.granted) / s.weight < a
    · obtain ⟨m, hm, hle⟩ := foldl_roomMin_le_acc l ((s.want - s.granted) / s.weight)
      exact ⟨m, by simpa [roomMin, h] using hm, hle.trans h.le⟩
    · obtain ⟨m, hm, hle⟩ := foldl_roomMin_le_acc l a
      exact ⟨m, by simpa [roomMin, h] using hm, hle⟩

theorem foldl_roomMin_le : ∀ (l : List Slot) (acc : Option ℚ) {s : Slot}, s ∈ l →
    ∃ m, l.foldl roomMin acc = some m ∧ m ≤ (s.want - s.granted) / s.weight
  | x :: l, acc, s, hs => by
    rw [List.foldl_cons]
    rcases List.mem_cons.mp hs with rfl | hl
    · obtain ⟨a, ha, hle⟩ : ∃ a, roomMin acc s = some a ∧ a ≤ (s.want - s.granted) / s.weight := by
        cases acc with
        | none => exact ⟨_, rfl, le_refl _⟩
        | some a =>
          by_cases h : (s.want - s.granted) / s.weight < a
          · exact ⟨_, by simp [roomMin, h], le_refl _⟩
          · exact ⟨a, by simp [roomMin, h], not_lt.mp h⟩
      rw [ha]
      obtain ⟨m, hm, hma⟩ := foldl_roomMin_le_acc l a
      exact ⟨m, hm, hma.trans hle⟩
    · exact foldl_roomMin_le l _ hl

theorem foldl_roomMin_mem : ∀ (l : List Slot) (acc : Option ℚ) {m : ℚ},
    l.foldl roomMin acc = some m →
      acc = some m ∨ ∃ s ∈ l, m = (s.want - s.granted) / s.weight
  | [], acc, m, h => Or.inl h
  | s :: l, acc, m, h => by
    rw [List.foldl_cons] at h
    rcases foldl_roomMin_mem l _ h with hacc | ⟨x, hx, rfl⟩
    · cases acc with
      | none => exact Or.inr ⟨s, List.mem_cons_self .., by simpa [roomMin] using hacc.symm⟩
      | some a =>
        by_cases hlt : (s.want - s.granted) / s.weight < a
        · exact Or.inr ⟨s, List.mem_cons_self .., by simpa [roomMin, hlt] using hacc.symm⟩
        · exact Or.inl (by simpa [roomMin, hlt] using hacc)
    · exact Or.inr ⟨x, List.mem_cons_of_mem _ hx, rfl⟩

namespace Fill

variable {entries : List AllocEntry} {budget : ℚ} {st : Fill}

/-- Every slot sits at its index with a positive weight, and the active list points at slots. -/
structure Sound (st : Fill) : Prop where
  indexed : Indexed st.slots
  bound : ∀ i ∈ st.active, i < st.slots.length
  weight_pos : ∀ s ∈ st.slots, 0 < s.weight

theorem Sound.exists_active (h : Sound st) {i : ℕ} (hi : i ∈ st.active) :
    ∃ s ∈ activeSlots st.slots st.active, s.index = i := by
  have hs := List.getElem?_eq_getElem (h.bound i hi)
  have hidx := h.indexed i _ hs
  exact ⟨_, (mem_activeSlots h.indexed).mpr ⟨List.getElem_mem _, hidx.symm ▸ hi⟩, hidx⟩

theorem Sound.weightSum_pos (h : Sound st) (hne : st.active ≠ []) : 0 < st.weightSum := by
  obtain ⟨i, hi⟩ := List.exists_mem_of_ne_nil _ hne
  obtain ⟨s, hs, -⟩ := h.exists_active hi
  have hpos : ∀ x ∈ (activeSlots st.slots st.active).map Slot.weight, 0 < x := by
    intro x hx
    obtain ⟨y, hy, rfl⟩ := List.mem_map.mp hx
    exact h.weight_pos y ((mem_activeSlots h.indexed).mp hy).1
  exact List.sum_pos _ hpos (List.ne_nil_of_mem (List.mem_map_of_mem hs))

theorem rise_le_inc (st : Fill) : st.rise ≤ st.remaining / st.weightSum := by
  unfold rise
  cases st.minRoom with
  | none => exact le_refl _
  | some m =>
    by_cases h : m < st.remaining / st.weightSum
    · simp [h, h.le]
    · simp [h]

theorem rise_le_room (st : Fill) {s : Slot} (hs : s ∈ activeSlots st.slots st.active) :
    st.rise ≤ (s.want - s.granted) / s.weight := by
  obtain ⟨m, hm, hle⟩ := foldl_roomMin_le _ none hs
  rw [← minRoom_eq] at hm
  unfold rise
  rw [hm]
  by_cases h : m < st.remaining / st.weightSum
  · simpa [h] using hle
  · simpa [h] using (not_lt.mp h).trans hle

/-- The rise is the whole remainder per weight unit, or the room of some active slot. -/
theorem rise_cases (st : Fill) : st.rise = st.remaining / st.weightSum ∨
    ∃ s ∈ activeSlots st.slots st.active, st.rise = (s.want - s.granted) / s.weight := by
  unfold rise
  cases hm : st.minRoom with
  | none => exact Or.inl rfl
  | some m =>
    by_cases h : m < st.remaining / st.weightSum
    · rw [minRoom_eq] at hm
      rcases foldl_roomMin_mem _ none hm with h0 | ⟨s, hs, rfl⟩
      · cases h0
      · exact Or.inr ⟨s, hs, by simp [h]⟩
    · exact Or.inl (by simp [h])

/-- The loop body keeps the slots sound. -/
theorem Sound.step (h : Sound st) : Sound st.step := by
  refine ⟨h.indexed.map fun s => by split <;> rfl, fun i hi => ?_, fun s hs => ?_⟩
  · have := h.bound i (List.mem_of_mem_filter hi)
    simpa [Fill.step, raise] using this
  · obtain ⟨s₀, hs₀, rfl⟩ := List.mem_map.mp hs
    split
    · exact h.weight_pos s₀ hs₀
    · exact h.weight_pos s₀ hs₀

/-- Every round exhausts the remainder or removes a slot. -/
theorem Sound.step_progress (h : Sound st) (hne : st.active ≠ []) :
    st.step.remaining ≤ kEps ∨ st.step.active.length < st.active.length := by
  rcases st.rise_cases with hr | ⟨s, hs, hr⟩
  · left
    have hzero : st.remaining - st.rise * st.weightSum = 0 := by
      rw [hr, div_mul_cancel₀ _ (h.weightSum_pos hne).ne', sub_self]
    simp [Fill.step, hzero, kEps_pos.le]
  · right
    obtain ⟨hmem, hact⟩ := (mem_activeSlots h.indexed).mp hs
    have hfull : s.granted + st.rise * s.weight = s.want := by
      rw [hr, div_mul_cancel₀ _ (h.weight_pos s hmem).ne']; ring
    have hout : unfilled (raise st.active st.rise st.slots) s.index = false := by
      simp [unfilled, raise, h.indexed.getElem? hmem, hact, hfull, kEps_pos.le]
    exact List.length_filter_lt_length_iff_exists.mpr ⟨s.index, hact, by simp [hout]⟩

/-- Loop invariant: slots match entries, grants stay in `[min, want]`, and what is granted plus what
    remains is the budget. -/
structure Inv (entries : List AllocEntry) (budget : ℚ) (st : Fill) : Prop where
  shape : List.Forall₂ Slot.Of st.slots entries
  indexed : Indexed st.slots
  nodup : st.active.Nodup
  bound : ∀ i ∈ st.active, i < st.slots.length
  within : ∀ s ∈ st.slots, s.min ≤ s.granted ∧ s.granted ≤ s.want
  remaining : 0 ≤ st.remaining
  total : (st.slots.map Slot.granted).sum + st.remaining = budget

theorem Inv.weight_pos (h : Inv entries budget st) {s : Slot} (hs : s ∈ st.slots) :
    0 < s.weight := by
  obtain ⟨e, -, hse⟩ := forall₂_exists_right h.shape hs
  exact hse.weight ▸ sanitiseWeight_pos _

theorem Inv.sound (h : Inv entries budget st) : Sound st :=
  ⟨h.indexed, h.bound, fun _ hs => h.weight_pos hs⟩

theorem Inv.weightSum_eq (h : Inv entries budget st) : st.weightSum =
    ((st.slots.filter fun s => decide (s.index ∈ st.active)).map Slot.weight).sum :=
  ((activeSlots_perm h.indexed h.nodup).map _).sum_eq

theorem Inv.weightSum_pos (h : Inv entries budget st) (hne : st.active ≠ []) :
    0 < st.weightSum := h.sound.weightSum_pos hne

theorem Inv.rise_nonneg (h : Inv entries budget st) (hne : st.active ≠ []) : 0 ≤ st.rise := by
  rcases st.rise_cases with hr | ⟨s, hs, hr⟩
  · rw [hr]; exact div_nonneg h.remaining (h.weightSum_pos hne).le
  · have hm := ((mem_activeSlots h.indexed).mp hs).1
    rw [hr]
    exact div_nonneg (sub_nonneg.mpr (h.within s hm).2) (h.weight_pos hm).le

theorem Inv.consumed_le (h : Inv entries budget st) (hne : st.active ≠ []) :
    st.rise * st.weightSum ≤ st.remaining :=
  (le_div_iff₀ (h.weightSum_pos hne)).mp st.rise_le_inc

theorem Inv.raise_within (h : Inv entries budget st) (hne : st.active ≠ []) {s : Slot}
    (hs : s ∈ st.slots) (ha : s.index ∈ st.active) :
    s.min ≤ s.granted + st.rise * s.weight ∧ s.granted + st.rise * s.weight ≤ s.want := by
  have hw := h.weight_pos hs
  have hroom := (le_div_iff₀ hw).mp
    (st.rise_le_room ((mem_activeSlots h.indexed).mpr ⟨hs, ha⟩))
  have hup := mul_nonneg (h.rise_nonneg hne) hw.le
  exact ⟨by linarith [(h.within s hs).1], by linarith⟩

/-- The loop body keeps the invariant. -/
theorem Inv.step (h : Inv entries budget st) (hne : st.active ≠ []) :
    Inv entries budget st.step := by
  have hrem : ¬ st.remaining - st.rise * st.weightSum < 0 := by
    linarith [h.consumed_le hne]
  refine ⟨?_, ?_, h.nodup.filter _, ?_, ?_, ?_, ?_⟩
  · refine List.forall₂_map_left_iff.mpr (h.shape.imp fun s e hse => ?_)
    split
    · exact ⟨hse.weight, hse.min, hse.want, hse.max⟩
    · exact hse
  · exact h.indexed.map fun s => by split <;> rfl
  · intro i hi
    have := h.bound i (List.mem_of_mem_filter hi)
    simpa [Fill.step, raise] using this
  · intro s hs
    obtain ⟨s₀, hs₀, rfl⟩ := List.mem_map.mp hs
    by_cases ha : s₀.index ∈ st.active
    · simpa [ha] using h.raise_within hne hs₀ ha
    · simpa [ha] using h.within s₀ hs₀
  · simp only [Fill.step, hrem, if_false]; exact not_lt.mp hrem
  · simp only [Fill.step, hrem, if_false, sum_raise, ← h.weightSum_eq]
    linarith [h.total]

theorem Inv.loop : ∀ (n : ℕ) {st : Fill}, Inv entries budget st → Inv entries budget (loop n st)
  | 0, _, h => h
  | n + 1, st, h => by
    unfold Fill.loop
    split
    · rename_i hc
      rw [if_neg (not_le.mpr (h.weightSum_pos hc.2))]
      exact Inv.loop n (h.step hc.2)
    · exact h

/-- Fuel beyond the number of active slots is enough: the loop condition is false at the end. -/
theorem Inv.loop_exit : ∀ (n : ℕ) {st : Fill}, Inv entries budget st → st.active.length < n →
    ¬ (kEps < (Fill.loop n st).remaining ∧ (Fill.loop n st).active ≠ [])
  | n + 1, st, h, hn => by
    unfold Fill.loop
    split
    · rename_i hc
      rw [if_neg (not_le.mpr (h.weightSum_pos hc.2))]
      rcases h.sound.step_progress hc.2 with hrem | hlen
      · have hstop : ¬ (kEps < st.step.remaining ∧ st.step.active ≠ []) :=
          fun hx => absurd hx.1 (not_lt.mpr hrem)
        cases n with
        | zero => exact hstop
        | succ n => rw [Fill.loop, if_neg hstop]; exact hstop
      · exact Inv.loop_exit n (h.step hc.2) (by omega)
    · assumption

end Fill

/-! ### The allocator's guarantees -/

section Guarantees
variable {entries : List AllocEntry}

theorem sum_map_of {slots : List Slot} (h : List.Forall₂ Slot.Of slots entries) :
    (slots.map Slot.min).sum = (entries.map AllocEntry.min).sum := by
  induction h with
  | nil => rfl
  | cons hse _ ih => simp only [List.map_cons, List.sum_cons, hse.min, ih]

theorem toSlots_granted {s : Slot} (hs : s ∈ toSlots entries) : s.granted = s.min := by
  simp only [toSlots, List.mem_mapIdx] at hs
  obtain ⟨i, hi, rfl⟩ := hs
  rfl

theorem toSlots_within (hv : ∀ e ∈ entries, e.Valid) {s : Slot} (hs : s ∈ toSlots entries) :
    s.min ≤ s.granted ∧ s.granted ≤ s.want := by
  obtain ⟨e, he, hse⟩ := forall₂_exists_right (toSlots_of hv) hs
  rw [toSlots_granted hs, hse.min, hse.want]
  exact ⟨le_refl _, (hv e he).min_le⟩

theorem toSlots_sum_granted (hv : ∀ e ∈ entries, e.Valid) :
    ((toSlots entries).map Slot.granted).sum = (entries.map AllocEntry.min).sum := by
  rw [List.map_congr_left fun s hs => toSlots_granted hs, sum_map_of (toSlots_of hv)]

/-- The loop starts on sound slots, whatever the entries. -/
theorem start_sound (entries : List AllocEntry) (capacity : ℚ) :
    Fill.Sound (Fill.start entries capacity) := by
  refine ⟨toSlots_indexed entries, fun i hi => ?_, fun s hs => ?_⟩
  · obtain ⟨s, hs, rfl⟩ := List.mem_map.mp ((List.mem_insertionSort _).mp hi)
    exact (List.getElem?_eq_some_iff.mp
      ((toSlots_indexed entries).getElem? (List.mem_of_mem_filter hs))).1
  · obtain ⟨i, hi, rfl⟩ := List.mem_mapIdx.mp (show s ∈ toSlots entries from hs)
    exact sanitiseWeight_pos _

theorem start_inv (hv : ∀ e ∈ entries, e.Valid) {capacity : ℚ}
    (hcap : (entries.map AllocEntry.min).sum ≤ capacity) :
    Fill.Inv entries capacity (Fill.start entries capacity) := by
  have hidx := toSlots_indexed entries
  refine ⟨toSlots_of hv, hidx, ?_, (start_sound entries capacity).bound,
    fun s hs => toSlots_within hv hs, ?_, ?_⟩
  · refine (List.perm_insertionSort _ _).nodup_iff.mpr ?_
    refine List.Nodup.map_on (fun a ha b hb hab => ?_) (hidx.nodup.filter _)
    have := hidx.getElem? (List.mem_of_mem_filter ha)
    rw [hab, hidx.getElem? (List.mem_of_mem_filter hb)] at this
    exact (Option.some.inj this).symm
  · simp only [Fill.start, sum_map_of (toSlots_of hv)]; linarith
  · simp only [Fill.start, toSlots_sum_granted hv, sum_map_of (toSlots_of hv)]; ring

/-- When the minima already use up the capacity the loop is not entered. -/
theorem run_eq_start (hv : ∀ e ∈ entries, e.Valid) {capacity : ℚ}
    (hover : capacity < (entries.map AllocEntry.min).sum) :
    Fill.run entries capacity = Fill.start entries capacity := by
  have hstop : ¬ (kEps < (Fill.start entries capacity).remaining ∧
      (Fill.start entries capacity).active ≠ []) := by
    rintro ⟨h, -⟩
    simp only [Fill.start, sum_map_of (toSlots_of hv)] at h
    linarith [kEps_pos]
  rw [Fill.run, Fill.loop, if_neg hstop]

/-- What the water-fill leaves behind when the minima fit up to `kEps`. -/
theorem run_spec (hv : ∀ e ∈ entries, e.Valid) {capacity : ℚ}
    (hcap : (entries.map AllocEntry.min).sum ≤ capacity + kEps) :
    List.Forall₂ Slot.Of (Fill.run entries capacity).slots entries ∧
      (∀ s ∈ (Fill.run entries capacity).slots, s.min ≤ s.granted ∧ s.granted ≤ s.want) ∧
      ((Fill.run entries capacity).slots.map Slot.granted).sum ≤ capacity + kEps := by
  rcases le_or_gt (entries.map AllocEntry.min).sum capacity with hle | hgt
  · have hinv := (start_inv hv hle).loop ((Fill.start entries capacity).active.length + 1)
    refine ⟨hinv.shape, hinv.within, ?_⟩
    have htot := hinv.total
    have hrem := hinv.remaining
    have := kEps_pos
    rw [Fill.run]; linarith
  · rw [run_eq_start hv hgt]
    exact ⟨toSlots_of hv, fun s hs => toSlots_within hv hs, toSlots_sum_granted hv ▸ hcap⟩

/-- The final clamp does nothing to the slots the water-fill leaves. -/
theorem run_clamp (hv : ∀ e ∈ entries, e.Valid) {capacity : ℚ}
    (hcap : (entries.map AllocEntry.min).sum ≤ capacity + kEps) :
    (Fill.run entries capacity).slots.map (fun s => clamp s.granted 0 s.max) =
      (Fill.run entries capacity).slots.map Slot.granted := by
  obtain ⟨hof, hin, -⟩ := run_spec hv hcap
  refine List.map_congr_left fun s hs => ?_
  obtain ⟨e, he, hse⟩ := forall₂_exists_right hof hs
  have hmin : 0 ≤ s.min := hse.min ▸ (hv e he).min_nonneg
  have hmax : s.want ≤ s.max := by
    rw [hse.want, hse.max]
    exact (hv e he).want_le
  exact clamp_of_mem (hmin.trans (hin s hs).1) ((hin s hs).2.trans hmax)

/-- Over exact rationals the scaled minima use the capacity exactly, so no leftovers remain. -/
theorem scaleMinima_eq {slots : List Slot} (capacity : ℚ) (hpos : 0 < (slots.map Slot.min).sum) :
    scaleMinima slots capacity =
        slots.map (fun s => s.min * (capacity / (slots.map Slot.min).sum)) ∧
      (scaleMinima slots capacity).sum = capacity := by
  have hsum :
    (slots.map fun s => s.min * (capacity / (slots.map Slot.min).sum)).sum = capacity := by
    rw [List.sum_map_mul_right, mul_div_cancel₀ _ hpos.ne']
  have heq : scaleMinima slots capacity =
      slots.map (fun s => s.min * (capacity / (slots.map Slot.min).sum)) := by
    simp only [scaleMinima, hsum, sub_self, not_lt.mpr kEps_pos.le, if_false, gt_iff_lt]
  exact ⟨heq, heq ▸ hsum⟩

theorem zipWith_clamp_of {slots : List Slot} (h : List.Forall₂ Slot.Of slots entries)
    (f : Slot → ℚ) (hf : ∀ s ∈ slots, 0 ≤ f s ∧ f s ≤ s.max) :
    List.zipWith (fun v (e : AllocEntry) => clamp v 0 e.max) (slots.map f) entries =
      slots.map f := by
  induction h with
  | nil => rfl
  | cons hse _ ih =>
    rw [List.forall_mem_cons] at hf
    simp only [List.map_cons, List.zipWith_cons_cons, ih hf.2,
      clamp_of_mem hf.1.1 (hse.max ▸ hf.1.2)]

/-- The grants of one allocation, entry by entry: between zero and the target, and no less than the
    minimum when the minima fit; in total within the capacity up to `kEps`. -/
structure Allotment (entries : List AllocEntry) (capacity : ℚ) (granted : List ℚ) : Prop where
  each : List.Forall₂ (fun g (e : AllocEntry) => 0 ≤ g ∧ g ≤ e.want) granted entries
  floor : (entries.map AllocEntry.min).sum ≤ max 0 capacity →
    List.Forall₂ (fun g (e : AllocEntry) => e.min ≤ g) granted entries
  total : granted.sum ≤ max 0 capacity + kEps

/-- Without capacity every grant is zero. -/
theorem allotment_zero (hv : ∀ e ∈ entries, e.Valid) {capacity : ℚ}
    (hcap : entries = [] ∨ capacity ≤ 0) :
    Allotment entries capacity (entries.map fun _ => 0) := by
  have hzero : ∀ e ∈ entries, 0 ≤ e.min := fun e he => (hv e he).min_nonneg
  refine ⟨?_, fun hfit => ?_, ?_⟩
  · refine List.forall₂_map_left_iff.mpr (List.forall₂_same.mpr fun e he => ⟨le_refl _, ?_⟩)
    exact (hzero e he).trans (hv e he).min_le
  · refine List.forall₂_map_left_iff.mpr (List.forall₂_same.mpr fun e he => ?_)
    have hle := List.single_le_sum (fun x hx => by
      obtain ⟨e, he, rfl⟩ := List.mem_map.mp hx; exact hzero e he) _
      (List.mem_map_of_mem (f := AllocEntry.min) he)
    rcases hcap with rfl | hcap
    · cases he
    · exact hle.trans (hfit.trans (max_eq_left hcap).le)
  · have := kEps_pos
    simp only [List.map_const', List.sum_replicate, smul_zero]
    linarith [le_max_left 0 capacity]

/-- What the scaled-minima branch grants: every minimum times the same factor, within the target. -/
theorem scaled_granted (hv : ∀ e ∈ entries, e.Valid) {capacity : ℚ} (hpos : 0 < capacity)
    (hover : capacity + kEps < ((toSlots entries).map Slot.min).sum) :
    List.zipWith (fun v (e : AllocEntry) => clamp v 0 e.max)
        (scaleMinima (toSlots entries) capacity) entries = (toSlots entries).map (fun s =>
          s.min * (capacity / ((toSlots entries).map Slot.min).sum)) ∧
      ∀ s ∈ toSlots entries, 0 ≤ s.min * (capacity / ((toSlots entries).map Slot.min).sum) ∧
        s.min * (capacity / ((toSlots entries).map Slot.min).sum) ≤ s.want := by
  have hof := toSlots_of hv
  have hmpos : 0 < ((toSlots entries).map Slot.min).sum := by linarith [kEps_pos]
  have hscale0 : 0 ≤ capacity / ((toSlots entries).map Slot.min).sum := by positivity
  have hscale1 : capacity / ((toSlots entries).map Slot.min).sum ≤ 1 := by
    rw [div_le_one hmpos]; linarith [kEps_pos]
  have hslot : ∀ s ∈ toSlots entries, 0 ≤ s.min ∧ s.min ≤ s.want ∧ s.want ≤ s.max := by
    intro s hs
    obtain ⟨e, he, hse⟩ := forall₂_exists_right hof hs
    rw [hse.min, hse.want, hse.max]
    exact ⟨(hv e he).min_nonneg, (hv e he).min_le, (hv e he).want_le⟩
  have hval : ∀ s ∈ toSlots entries,
      0 ≤ s.min * (capacity / ((toSlots entries).map Slot.min).sum) ∧
        s.min * (capacity / ((toSlots entries).map Slot.min).sum) ≤ s.want := by
    intro s hs
    obtain ⟨h0, hw, -⟩ := hslot s hs
    exact ⟨mul_nonneg h0 hscale0, (mul_le_of_le_one_right h0 hscale1).trans hw⟩
  refine ⟨?_, hval⟩
  rw [(scaleMinima_eq capacity hmpos).1]
  exact zipWith_clamp_of hof _ fun s hs => ⟨(hval s hs).1, (hval s hs).2.trans (hslot s hs).2.2⟩

/-- The scaled-minima branch. -/
theorem allotment_scaled (hv : ∀ e ∈ entries, e.Valid) {capacity : ℚ} (hpos : 0 < capacity)
    (hover : capacity + kEps < ((toSlots entries).map Slot.min).sum) :
    Allotment entries capacity (List.zipWith (fun v (e : AllocEntry) => clamp v 0 e.max)
      (scaleMinima (toSlots entries) capacity) entries) := by
  have hof := toSlots_of hv
  have hk := kEps_pos
  have hmpos : 0 < ((toSlots entries).map Slot.min).sum := by linarith
  obtain ⟨heq, hsum⟩ := scaleMinima_eq capacity hmpos
  obtain ⟨hgr, hval⟩ := scaled_granted hv hpos hover
  rw [hgr]
  refine ⟨?_, fun hfit => ?_, ?_⟩
  · refine List.forall₂_map_left_iff.mpr
      (((List.forall₂_and_left _ _).mpr ⟨hval, hof⟩).imp fun s e h => ?_)
    exact ⟨h.1.1, h.2.want ▸ h.1.2⟩
  · exfalso
    rw [← sum_map_of hof, max_eq_right hpos.le] at hfit
    linarith
  · rw [heq] at hsum
    rw [hsum, max_eq_right hpos.le]; linarith

/-- The water-fill branch. -/
theorem allotment_filled (hv : ∀ e ∈ entries, e.Valid) {capacity : ℚ} (hpos : 0 < capacity)
    (hfits : ((toSlots entries).map Slot.min).sum ≤ capacity + kEps) :
    Allotment entries capacity
      ((Fill.run entries capacity).slots.map fun s => clamp s.granted 0 s.max) := by
  have hcap := sum_map_of (toSlots_of hv) ▸ hfits
  obtain ⟨hof, hin, htot⟩ := run_spec hv hcap
  rw [run_clamp hv hcap]
  refine ⟨?_, fun _ => ?_, ?_⟩
  · have hpos : ∀ s ∈ (Fill.run entries capacity).slots, 0 ≤ s.granted ∧ s.granted ≤ s.want := by
      intro s hs
      obtain ⟨e, he, hse⟩ := forall₂_exists_right hof hs
      have hmin : 0 ≤ s.min := hse.min ▸ (hv e he).min_nonneg
      exact ⟨hmin.trans (hin s hs).1, (hin s hs).2⟩
    refine List.forall₂_map_left_iff.mpr
      (((List.forall₂_and_left _ _).mpr ⟨hpos, hof⟩).imp fun s e h => ?_)
    exact ⟨h.1.1, h.2.want ▸ h.1.2⟩
  · refine List.forall₂_map_left_iff.mpr
      (((List.forall₂_and_left _ _).mpr ⟨hin, hof⟩).imp fun s e h => ?_)
    exact h.2.min ▸ h.1.1
  · rw [max_eq_right hpos.le]; exact htot

/-- On every branch the allocator returns an allotment of the capacity. -/
theorem allocateWeighted_allotment (hv : ∀ e ∈ entries, e.Valid) (capacity : ℚ) :
    Allotment entries capacity (allocateWeighted entries capacity).granted := by
  unfold allocateWeighted
  split
  · rename_i h
    exact allotment_zero hv (h.imp_left List.isEmpty_iff.mp)
  · rename_i h
    rw [not_or, not_le] at h
    dsimp only
    split
    · rename_i hover
      exact allotment_scaled hv h.2 hover
    · rename_i hfits
      exact allotment_filled hv h.2 (not_lt.mp hfits)

end Guarantees

/-! ### Bounds without a valid envelope -/

/-- Raising slots leaves their caps alone. -/
theorem Fill.loop_max {P : ℚ → Prop} : ∀ (n : ℕ) {st : Fill}, (∀ s ∈ st.slots, P s.max) →
    ∀ s ∈ (Fill.loop n st).slots, P s.max
  | 0, _, h => h
  | n + 1, st, h => by
    unfold Fill.loop
    split
    · split
      · exact h
      · refine Fill.loop_max n fun s hs => ?_
        obtain ⟨s₀, hs₀, rfl⟩ := List.mem_map.mp hs
        split
        · exact h s₀ hs₀
        · exact h s₀ hs₀
    · exact h

/-- Rounds change grants, not slots. -/
theorem Fill.loop_length : ∀ (n : ℕ) (st : Fill), (Fill.loop n st).slots.length = st.slots.length
  | 0, _ => rfl
  | n + 1, st => by
    unfold Fill.loop
    split
    · split
      · rfl
      · rw [Fill.loop_length n]
        simp [Fill.step, Fill.raise]
    · rfl

theorem allocateWeighted_length (entries : List AllocEntry) (capacity : ℚ) :
    (allocateWeighted entries capacity).granted.length = entries.length := by
  have hslots : (toSlots entries).length = entries.length := by simp [toSlots]
  unfold allocateWeighted
  split
  · simp
  · dsimp only
    split
    · have hval : (scaleMinima (toSlots entries) capacity).length = entries.length := by
        unfold scaleMinima
        dsimp only
        split
        · split <;> simp [hslots]
        · simp [hslots]
      simp [hval]
    · rw [List.length_map, Fill.run, Fill.loop_length]
      exact hslots

/-- Whatever the entries ask for, a grant lies between zero and the largest cap. -/
theorem allocateWeighted_bounds {entries : List AllocEntry} {b : ℚ} (hb : 0 ≤ b)
    (he : ∀ e ∈ entries, 0 ≤ e.max ∧ e.max ≤ b) (capacity : ℚ) :
    ∀ q ∈ (allocateWeighted entries capacity).granted, 0 ≤ q ∧ q ≤ b := by
  have hclamp : ∀ {v m : ℚ}, 0 ≤ m ∧ m ≤ b → 0 ≤ clamp v 0 m ∧ clamp v 0 m ≤ b := fun hm =>
    ⟨(clamp_mem hm.1).1, (clamp_mem hm.1).2.trans hm.2⟩
  unfold allocateWeighted
  intro q hq
  split at hq
  · obtain ⟨-, -, rfl⟩ := List.mem_map.mp hq
    exact ⟨le_refl _, hb⟩
  · dsimp only at hq
    split at hq
    · simp only [← List.map_uncurry_zip_eq_zipWith, List.mem_map] at hq
      obtain ⟨⟨v, e⟩, hve, rfl⟩ := hq
      exact hclamp (he e (List.of_mem_zip hve).2)
    · obtain ⟨s, hs, rfl⟩ := List.mem_map.mp hq
      refine hclamp (Fill.loop_max (P := fun m => 0 ≤ m ∧ m ≤ b) _ (fun s hs => ?_) s hs)
      have hs' : s ∈ toSlots entries := hs
      simp only [toSlots, List.mem_mapIdx] at hs'
      obtain ⟨i, hi, rfl⟩ := hs'
      exact he _ (List.getElem_mem hi)

end BG
