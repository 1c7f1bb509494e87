import Mathlib
import BandwidthGovernor.Fill

/-! How the water-fill orders its entries.

    Of two entries with the same envelope, the one with the smaller sanitised weight never ends more
    than `kEps` above the other: while the heavier one is active it is ahead, and it only becomes
    inactive within `kEps` of the common target. -/

namespace BG

/-! ### Entries without a consistent envelope -/

/-- The entry with its envelope made consistent, as phase 1 does. -/
def AllocEntry.normal (e : AllocEntry) : AllocEntry :=
  { e with min := clamp e.min 0 e.max, want := clamp e.want (clamp e.min 0 e.max) e.max }

theorem AllocEntry.normal_valid {e : AllocEntry} (h : 0 ≤ e.max) : e.normal.Valid := by
  obtain ⟨hmin, hmax⟩ := clamp_mem (v := e.min) h
  obtain ⟨hlo, hhi⟩ := clamp_mem (v := e.want) hmax
  exact ⟨hmin, hlo, hhi⟩

theorem toSlot_normal {e : AllocEntry} (h : 0 ≤ e.max) (i : ℕ) :
    toSlot i e.normal = toSlot i e := by
  obtain ⟨hmin, hmax⟩ := clamp_mem (v := e.min) h
  obtain ⟨hlo, hhi⟩ := clamp_mem (v := e.want) hmax
  simp only [toSlot, AllocEntry.normal, clamp_of_mem hmin hmax, clamp_of_mem hlo hhi]

theorem toSlots_normal {entries : List AllocEntry} (h : ∀ e ∈ entries, 0 ≤ e.max) :
    toSlots (entries.map AllocEntry.normal) = toSlots entries := by
  refine List.ext_getElem (by simp [toSlots]) fun i h₁ h₂ => ?_
  simp only [toSlots, List.getElem_mapIdx, List.getElem_map]
  exact toSlot_normal (h _ (List.getElem_mem _)) i

theorem slotLess_normal (entries : List AllocEntry) :
    slotLess (entries.map AllocEntry.normal) = slotLess entries := by
  funext a b
  unfold slotLess
  rw [List.getElem?_map, List.getElem?_map]
  cases entries[a]? <;> cases entries[b]? <;> rfl

/-- The allocator sees entries only through their slots. -/
theorem allocateWeighted_normal {entries : List AllocEntry} (h : ∀ e ∈ entries, 0 ≤ e.max)
    (capacity : ℚ) : (allocateWeighted (entries.map AllocEntry.normal) capacity).granted =
      (allocateWeighted entries capacity).granted := by
  have hstart : Fill.start (entries.map AllocEntry.normal) capacity =
      Fill.start entries capacity := by
    simp only [Fill.start, toSlots_normal h, slotLess_normal]
  have hempty :
    (entries.map AllocEntry.normal).isEmpty = entries.isEmpty := by cases entries <;> rfl
  unfold allocateWeighted
  rw [hempty, toSlots_normal h, Fill.run, Fill.run, hstart]
  split
  · rw [List.map_map]
    rfl
  · dsimp only
    split
    · rw [List.zipWith_map_right]
      rfl
    · rfl

/-! ### Two entries with the same envelope -/

/-- Slot `a` has the target of `b` and no more weight; while `b` is active it is ahead of `a`. -/
structure Trails (active : List ℕ) (a b : Slot) : Prop where
  weight : a.weight ≤ b.weight
  want : a.want = b.want
  ahead : b.index ∈ active → a.granted ≤ b.granted
  full : b.index ∉ active → b.want ≤ b.granted + kEps

theorem Trails.le {active : List ℕ} {a b : Slot} (h : Trails active a b) (ha : a.granted ≤ a.want) :
    a.granted ≤ b.granted + kEps := by
  by_cases hb : b.index ∈ active
  · linarith [h.ahead hb, kEps_pos]
  · linarith [h.full hb, h.want]

namespace Fill

variable {entries : List AllocEntry} {budget : ℚ} {st : Fill} {i j : ℕ}

/-- The slots at two positions, one trailing the other. -/
def Paired (i j : ℕ) (st : Fill) : Prop :=
  ∃ a b, st.slots[i]? = some a ∧ st.slots[j]? = some b ∧ Trails st.active a b

/-- A slot after a round. -/
def raised (st : Fill) (s : Slot) : Slot :=
  if s.index ∈ st.active then { s with granted := s.granted + st.rise * s.weight } else s

@[simp] theorem raised_index (s : Slot) : (st.raised s).index = s.index := by
  unfold raised
  split <;> rfl

@[simp] theorem raised_weight (s : Slot) : (st.raised s).weight = s.weight := by
  unfold raised
  split <;> rfl

@[simp] theorem raised_min (s : Slot) : (st.raised s).min = s.min := by
  unfold raised
  split <;> rfl

@[simp] theorem raised_want (s : Slot) : (st.raised s).want = s.want := by
  unfold raised
  split <;> rfl

theorem raised_granted (s : Slot) : (st.raised s).granted =
    if s.index ∈ st.active then s.granted + st.rise * s.weight else s.granted := by
  unfold raised
  split <;> rfl

theorem step_getElem? {s : Slot} (hs : st.slots[i]? = some s) :
    st.step.slots[i]? = some (st.raised s) := by
  simp [Fill.step, raise, hs, raised]

theorem mem_step_active {s : Slot} (hs : st.slots[i]? = some s) :
    i ∈ st.step.active ↔ i ∈ st.active ∧ (st.raised s).granted < s.want - kEps := by
  have hraised : (raise st.active st.rise st.slots)[i]? = some (st.raised s) := step_getElem? hs
  simp [Fill.step, List.mem_filter, unfilled, hraised, lt_sub_iff_add_lt]

/-- A round keeps the order. -/
theorem Inv.step_paired (h : Inv entries budget st) (hne : st.active ≠ []) (hp : Paired i j st) :
    Paired i j st.step := by
  obtain ⟨a, b, ha, hb, ht⟩ := hp
  have hbi : b.index = j := h.indexed j b hb
  have hrise := h.rise_nonneg hne
  refine ⟨_, _, step_getElem? ha, step_getElem? hb, ?_⟩
  refine ⟨?_, ?_, fun hact => ?_, fun hout => ?_⟩
  · rw [raised_weight, raised_weight]
    exact ht.weight
  · rw [raised_want, raised_want]
    exact ht.want
  · rw [raised_index, hbi, mem_step_active hb] at hact
    have hahead := ht.ahead (hbi ▸ hact.1)
    have haw := h.weight_pos (List.mem_of_getElem? ha)
    have hup : (st.raised a).granted ≤ a.granted + st.rise * a.weight := by
      unfold raised
      split
      · exact le_refl _
      · linarith [mul_nonneg hrise haw.le]
    have hb' : (st.raised b).granted = b.granted + st.rise * b.weight := by
      rw [raised, if_pos (hbi ▸ hact.1)]
    rw [hb']
    linarith [mul_le_mul_of_nonneg_left ht.weight hrise]
  · rw [raised_index, hbi, mem_step_active hb, not_and, not_lt] at hout
    rw [raised_want]
    by_cases hact : j ∈ st.active
    · linarith [hout hact]
    · rw [raised, if_neg (hbi ▸ hact)]
      exact ht.full (hbi ▸ hact)

theorem Inv.loop_paired : ∀ (n : ℕ) {st : Fill}, Inv entries budget st → Paired i j st →
    Paired i j (Fill.loop n st)
  | 0, _, _, hp => hp
  | n + 1, st, h, hp => by
    unfold Fill.loop
    split
    · rename_i hc
      rw [if_neg (not_le.mpr (h.weightSum_pos hc.2))]
      exact Inv.loop_paired n (h.step hc.2) (h.step_paired hc.2 hp)
    · exact hp

end Fill

/-- Two entries with the same minimum and target start level. -/
theorem start_paired {entries : List AllocEntry} (capacity : ℚ) (hv : ∀ e ∈ entries, e.Valid)
    {i j : ℕ} {e e' : AllocEntry} (hi : entries[i]? = some e) (hj : entries[j]? = some e')
    (hmin : e.min = e'.min) (hwant : e.want = e'.want)
    (hw : sanitiseWeight e.weight ≤ sanitiseWeight e'.weight) :
    Fill.Paired i j (Fill.start entries capacity) := by
  have hof := toSlot_of (hv e (List.mem_of_getElem? hi)) i
  have hof' := toSlot_of (hv e' (List.mem_of_getElem? hj)) j
  refine ⟨toSlot i e, toSlot j e', ?_, ?_, ?_⟩
  · simp [Fill.start, toSlots, hi]
  · simp [Fill.start, toSlots, hj]
  · refine ⟨hw, ?_, fun _ => ?_, fun hout => ?_⟩
    · rw [hof.want, hof'.want, hwant]
    · have hg : (toSlot i e).granted = (toSlot i e).min := rfl
      have hg' : (toSlot j e').granted = (toSlot j e').min := rfl
      rw [hg, hg', hof.min, hof'.min, hmin]
    · by_contra hlt
      refine hout ((List.mem_insertionSort _).mpr (List.mem_map.mpr ⟨toSlot j e', ?_, rfl⟩))
      refine List.mem_filter.mpr ⟨List.mem_of_getElem? (i := j) ?_, ?_⟩
      · simp [toSlots, hj]
      · simpa using hlt

/-- The water-fill keeps the order, whether or not its loop is entered. -/
theorem run_paired {entries : List AllocEntry} (capacity : ℚ) (hv : ∀ e ∈ entries, e.Valid)
    {i j : ℕ} {e e' : AllocEntry} (hi : entries[i]? = some e) (hj : entries[j]? = some e')
    (hmin : e.min = e'.min) (hwant : e.want = e'.want)
    (hw : sanitiseWeight e.weight ≤ sanitiseWeight e'.weight) :
    Fill.Paired i j (Fill.run entries capacity) := by
  have hstart := start_paired capacity hv hi hj hmin hwant hw
  rcases le_or_gt (entries.map AllocEntry.min).sum capacity with hle | hgt
  · exact (start_inv hv hle).loop_paired _ hstart
  · rw [run_eq_start hv hgt]
    exact hstart

/-- The allocator is monotone in the weight: of two entries with the same envelope the one with the
    smaller sanitised weight gets at most `kEps` more. -/
theorem allocateWeighted_mono {entries : List AllocEntry} (hv : ∀ e ∈ entries, e.Valid)
    (capacity : ℚ) {i j : ℕ} {e e' : AllocEntry} {v v' : ℚ}
    (hi : entries[i]? = some e) (hj : entries[j]? = some e')
    (hgi : (allocateWeighted entries capacity).granted[i]? = some v)
    (hgj : (allocateWeighted entries capacity).granted[j]? = some v')
    (hmin : e.min = e'.min) (hwant : e.want = e'.want)
    (hw : sanitiseWeight e.weight ≤ sanitiseWeight e'.weight) : v ≤ v' + kEps := by
  have hk := kEps_pos
  unfold allocateWeighted at hgi hgj
  split at hgi
  · rename_i hzero
    rw [if_pos hzero] at hgj
    rw [List.getElem?_map, hi, Option.map_some, Option.some.injEq] at hgi
    rw [List.getElem?_map, hj, Option.map_some, Option.some.injEq] at hgj
    linarith
  · rename_i hpos
    rw [if_neg hpos] at hgj
    dsimp only at hgi hgj
    split at hgi
    · rename_i hover
      rw [if_pos hover] at hgj
      -- scaled minima: the same minimum gives the same grant
      rw [not_or, not_le] at hpos
      have hat : ∀ {k : ℕ} {x : AllocEntry}, entries[k]? = some x → (toSlots entries)[k]? =
          some (toSlot k x) ∧ (toSlot k x).min = x.min := fun {k x} hx =>
        ⟨by simp [toSlots, hx], (toSlot_of (hv x (List.mem_of_getElem? hx)) k).min⟩
      rw [(scaled_granted hv hpos.2 hover).1, List.getElem?_map] at hgi hgj
      rw [(hat hi).1, Option.map_some, (hat hi).2, Option.some.injEq] at hgi
      rw [(hat hj).1, Option.map_some, (hat hj).2, Option.some.injEq] at hgj
      rw [← hgi, ← hgj, hmin]
      linarith
    · rename_i hfits
      rw [if_neg hfits] at hgj
      have hcap := sum_map_of (toSlots_of hv) ▸ not_lt.mp hfits
      obtain ⟨a, b, ha, hb, ht⟩ := run_paired capacity hv hi hj hmin hwant hw
      rw [run_clamp hv hcap, List.getElem?_map, ha, Option.map_some, Option.some.injEq] at hgi
      rw [run_clamp hv hcap, List.getElem?_map, hb, Option.map_some, Option.some.injEq] at hgj
      rw [← hgi, ← hgj]
      exact ht.le ((run_spec hv hcap).2.1 a (List.mem_of_getElem? ha)).2

end BG
