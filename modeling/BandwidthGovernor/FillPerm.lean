import Mathlib
import BandwidthGovernor.FillLevel

/-! The water-fill does not depend on the order of its entries.

    What the loop does to a slot depends on the slot's own figures, on whether it is active and on
    the rise of the round, and the rise is the same for any order of the slots. So a state is viewed
    as its list of `Cell`s, without indices: a round maps one function over that list, and two runs
    whose cells are permutations of each other stay so. -/

namespace BG

/-- What a round reads of a slot. -/
structure Cell where
  weight : ℚ
  min : ℚ
  want : ℚ
  max : ℚ
  granted : ℚ
  active : Bool

def Slot.cell (active : List ℕ) (s : Slot) : Cell :=
  ⟨s.weight, s.min, s.want, s.max, s.granted, decide (s.index ∈ active)⟩

/-- The cell of an entry before the first round. -/
def AllocEntry.cell (e : AllocEntry) : Cell :=
  let s := toSlot 0 e
  ⟨s.weight, s.min, s.want, s.max, s.granted, decide (s.want > s.granted + kEps)⟩

/-- A cell after a round that rises by `r`. -/
def Cell.raise (r : ℚ) (c : Cell) : Cell :=
  if c.active then
    { c with
      granted := c.granted + r * c.weight
      active := decide (c.granted + r * c.weight < c.want - kEps) }
  else c

namespace Fill

variable {entries entries' : List AllocEntry} {budget budget' : ℚ} {st st' : Fill}

def cells (st : Fill) : List Cell := st.slots.map (Slot.cell st.active)

theorem Inv.mem_cells (h : Inv entries budget st) {c : Cell} (hc : c ∈ st.cells) (ha : c.active) :
    ∃ s ∈ activeSlots st.slots st.active, s.cell st.active = c := by
  obtain ⟨s, hs, rfl⟩ := List.mem_map.mp hc
  exact ⟨s, (mem_activeSlots h.indexed).mpr ⟨hs, by simpa [Slot.cell] using ha⟩, rfl⟩

theorem Inv.cell_mem (h : Inv entries budget st) {s : Slot}
    (hs : s ∈ activeSlots st.slots st.active) :
    s.cell st.active ∈ st.cells ∧ (s.cell st.active).active := by
  obtain ⟨hmem, hact⟩ := (mem_activeSlots h.indexed).mp hs
  exact ⟨List.mem_map_of_mem hmem, by simpa [Slot.cell] using hact⟩

theorem Inv.active_ne_nil (h : Inv entries budget st) :
    st.active ≠ [] ↔ ∃ c ∈ st.cells, c.active := by
  constructor
  · intro hne
    obtain ⟨i, hi⟩ := List.exists_mem_of_ne_nil _ hne
    obtain ⟨s, hs, -⟩ := h.sound.exists_active hi
    exact ⟨_, h.cell_mem hs⟩
  · rintro ⟨c, hc, ha⟩ hnil
    obtain ⟨s, hs, -⟩ := h.mem_cells hc ha
    have hact := ((mem_activeSlots h.indexed).mp hs).2
    rw [hnil] at hact
    cases hact

theorem Inv.weightSum_cells (h : Inv entries budget st) :
    st.weightSum = ((st.cells.filter Cell.active).map Cell.weight).sum := by
  rw [h.weightSum_eq, cells, List.filter_map, List.map_map]
  rfl

section Perm
variable (h : Inv entries budget st) (h' : Inv entries' budget' st')
  (hperm : st.cells.Perm st'.cells) (hrem : st.remaining = st'.remaining)
include h h' hperm

theorem Inv.active_perm : st.active ≠ [] ↔ st'.active ≠ [] := by
  rw [h.active_ne_nil, h'.active_ne_nil]
  simp only [hperm.mem_iff]

theorem Inv.weightSum_perm : st.weightSum = st'.weightSum := by
  rw [h.weightSum_cells, h'.weightSum_cells]
  exact ((hperm.filter _).map _).sum_eq

include hrem

theorem Inv.rise_le_perm : st.rise ≤ st'.rise := by
  rcases st'.rise_cases with hr | ⟨s', hs', hr⟩
  · rw [hr, ← hrem, ← h.weightSum_perm h' hperm]
    exact st.rise_le_inc
  · obtain ⟨hc, ha⟩ := h'.cell_mem hs'
    obtain ⟨s, hs, hcell⟩ := h.mem_cells (hperm.mem_iff.mpr hc) ha
    simp only [Slot.cell, Cell.mk.injEq] at hcell
    obtain ⟨hw, -, hwant, -, hg, -⟩ := hcell
    rw [hr, ← hw, ← hwant, ← hg]
    exact st.rise_le_room hs

end Perm

/-- The rise is the same for any order of the cells. -/
theorem Inv.rise_perm (h : Inv entries budget st) (h' : Inv entries' budget' st')
    (hperm : st.cells.Perm st'.cells) (hrem : st.remaining = st'.remaining) :
    st.rise = st'.rise :=
  le_antisymm (h.rise_le_perm h' hperm hrem) (h'.rise_le_perm h hperm.symm hrem.symm)

/-- A round maps `Cell.raise` over the cells. -/
theorem Inv.cells_step (h : Inv entries budget st) :
    st.step.cells = st.cells.map (Cell.raise st.rise) := by
  have hslots : st.step.slots = st.slots.map st.raised := rfl
  rw [cells, cells, hslots, List.map_map, List.map_map]
  refine List.map_congr_left fun s hs => ?_
  have hiff := mem_step_active (h.indexed.getElem? hs)
  rw [Function.comp_apply, Function.comp_apply]
  by_cases hact : s.index ∈ st.active
  · rw [raised_granted, if_pos hact, and_iff_right hact] at hiff
    have hraise : (s.cell st.active).raise st.rise = ⟨s.weight, s.min, s.want, s.max,
        s.granted + st.rise * s.weight, decide (s.granted + st.rise * s.weight < s.want - kEps)⟩ :=
      if_pos (decide_eq_true hact)
    have hstay : decide (s.index ∈ st.step.active) =
        decide (s.granted + st.rise * s.weight < s.want - kEps) := decide_eq_decide.mpr hiff
    rw [hraise, ← hstay]
    simp only [Slot.cell, raised, if_pos hact]
  · have hraise : (s.cell st.active).raise st.rise = s.cell st.active :=
      if_neg (by simpa [Slot.cell] using hact)
    rw [hraise]
    simp [Slot.cell, raised, hact, hiff]

/-- Two states whose cells are the same up to the permutation `σ`. -/
structure Mirrors {n : ℕ} (σ : Equiv.Perm (Fin n)) (st st' : Fill) : Prop where
  remaining : st.remaining = st'.remaining
  cells : ∃ c : Fin n → Cell, st.cells = List.ofFn c ∧ st'.cells = List.ofFn (c ∘ σ)

variable {n : ℕ} {σ : Equiv.Perm (Fin n)}

theorem Mirrors.perm (hm : Mirrors σ st st') : st.cells.Perm st'.cells := by
  obtain ⟨c, hc, hc'⟩ := hm.cells
  rw [hc, hc']
  exact (σ.ofFn_comp_perm c).symm

/-- A round of both keeps them mirrored. -/
theorem Inv.step_mirrors (h : Inv entries budget st) (h' : Inv entries' budget' st')
    (hm : Mirrors σ st st') : Mirrors σ st.step st'.step := by
  have hrise := h.rise_perm h' hm.perm hm.remaining
  refine ⟨?_, ?_⟩
  · simp only [Fill.step, hrise, hm.remaining, h.weightSum_perm h' hm.perm]
  · obtain ⟨c, hc, hc'⟩ := hm.cells
    refine ⟨Cell.raise st.rise ∘ c, ?_, ?_⟩
    · rw [h.cells_step, hc, List.map_ofFn]
    · rw [h'.cells_step, hc', List.map_ofFn, hrise]
      rfl

/-- The two loops go through the same rounds. -/
theorem Inv.loop_mirrors : ∀ (k : ℕ) {st st' : Fill}, Inv entries budget st →
    Inv entries' budget' st' → Mirrors σ st st' → Mirrors σ (Fill.loop k st) (Fill.loop k st')
  | 0, _, _, _, _, hm => hm
  | k + 1, st, st', h, h', hm => by
    have hcond : (kEps < st.remaining ∧ st.active ≠ []) ↔
        (kEps < st'.remaining ∧ st'.active ≠ []) := by
      rw [hm.remaining, h.active_perm h' hm.perm]
    rw [Fill.loop, Fill.loop]
    by_cases hc : kEps < st.remaining ∧ st.active ≠ []
    · have hc' := hcond.mp hc
      rw [if_pos hc, if_pos hc', if_neg (not_le.mpr (h.weightSum_pos hc.2)),
        if_neg (not_le.mpr (h'.weightSum_pos hc'.2))]
      exact Inv.loop_mirrors k (h.step hc.2) (h'.step hc'.2) (h.step_mirrors h' hm)
    · rw [if_neg hc, if_neg (mt hcond.mpr hc)]
      exact hm

end Fill

/-! ### The totals of an allocation -/

theorem allocateWeighted_idle {entries : List AllocEntry} {capacity : ℚ}
    (h : entries = [] ∨ capacity ≤ 0) :
    (allocateWeighted entries capacity).granted = entries.map fun _ => 0 := by
  unfold allocateWeighted
  rw [if_pos (h.imp_left List.isEmpty_iff.mpr)]

/-- Every total is a figure of the targets and of the grants. -/
theorem allocateWeighted_totals {entries : List AllocEntry} (hv : ∀ e ∈ entries, e.Valid)
    (capacity : ℚ) :
    (allocateWeighted entries capacity).totalRequested =
        (if capacity ≤ 0 then 0 else (entries.map AllocEntry.want).sum) ∧
      (allocateWeighted entries capacity).totalGranted =
        (allocateWeighted entries capacity).granted.sum ∧
      (allocateWeighted entries capacity).unserved =
        max 0 ((allocateWeighted entries capacity).totalRequested -
          (allocateWeighted entries capacity).totalGranted) ∧
      (allocateWeighted entries capacity).saturated =
        decide (0 < capacity ∧
          (allocateWeighted entries capacity).totalRequested > capacity + kEps) := by
  have hk := kEps_pos
  have hwant := sum_want_of (toSlots_of hv)
  unfold allocateWeighted
  split
  · rename_i h
    refine ⟨?_, by simp, by simp, ?_⟩
    · rcases h with hnil | hcap
      · rw [List.isEmpty_iff.mp hnil]
        simp
      · rw [if_pos hcap]
    · refine (decide_eq_false ?_).symm
      rintro ⟨h₁, h₂⟩
      linarith
  · rename_i h
    rw [not_or, not_le] at h
    dsimp only
    split
    · rename_i hover
      have hmpos : 0 < ((toSlots entries).map Slot.min).sum := by linarith
      refine ⟨by rw [if_neg (not_le.mpr h.2), hwant], ?_, rfl, by simp [h.2]⟩
      rw [(scaled_granted hv h.2 hover).1, (scaleMinima_eq capacity hmpos).1]
    · exact ⟨by rw [if_neg (not_le.mpr h.2), hwant], rfl, rfl, by simp [h.2]⟩

/-! ### Two orders of the same entries -/

section Orders

theorem mem_start_active {entries : List AllocEntry} {capacity : ℚ} {s : Slot}
    (hs : s ∈ toSlots entries) :
    s.index ∈ (Fill.start entries capacity).active ↔ s.want > s.granted + kEps := by
  simp only [Fill.start, List.mem_insertionSort, List.mem_map, List.mem_filter, decide_eq_true_eq]
  constructor
  · rintro ⟨x, ⟨hx, hlt⟩, hidx⟩
    have hsame := (toSlots_indexed entries).getElem? hx
    rw [hidx, (toSlots_indexed entries).getElem? hs, Option.some.injEq] at hsame
    rwa [hsame]
  · exact fun hlt => ⟨s, ⟨hs, hlt⟩, rfl⟩

/-- Before the first round the cells are those of the entries. -/
theorem cells_start (entries : List AllocEntry) (capacity : ℚ) :
    (Fill.start entries capacity).cells = entries.map AllocEntry.cell := by
  refine List.ext_getElem (by simp [Fill.cells, Fill.start, toSlots]) fun i h₁ h₂ => ?_
  have hlen : i < entries.length := by simpa using h₂
  have hslot : toSlot i entries[i] ∈ toSlots entries := by
    rw [toSlots, List.mem_mapIdx]
    exact ⟨i, hlen, rfl⟩
  have hslots : (Fill.start entries capacity).slots = toSlots entries := rfl
  simp only [Fill.cells, List.getElem_map, hslots, toSlots, List.getElem_mapIdx]
  simp only [Slot.cell, AllocEntry.cell, mem_start_active hslot]
  rfl

theorem start_active_length (entries : List AllocEntry) (capacity : ℚ) :
    (Fill.start entries capacity).active.length =
      (entries.map AllocEntry.cell).countP Cell.active := by
  rw [← cells_start entries capacity, Fill.cells, List.countP_map]
  simp only [Fill.start, List.length_insertionSort, List.length_map]
  rw [← List.countP_eq_length_filter]
  refine List.countP_congr fun s hs => ?_
  have hmem : s.index ∈ (Fill.start entries capacity).active ↔ s.want > s.granted + kEps :=
    mem_start_active hs
  simp only [Fill.start] at hmem
  simp [Slot.cell, hmem]

variable {n : ℕ} (e : Fin n → AllocEntry) (σ : Equiv.Perm (Fin n)) (capacity : ℚ)

theorem start_mirrors (hmin : ((toSlots (List.ofFn e)).map Slot.min).sum =
      ((toSlots (List.ofFn (e ∘ σ))).map Slot.min).sum) :
    Fill.Mirrors σ (Fill.start (List.ofFn e) capacity)
      (Fill.start (List.ofFn (e ∘ σ)) capacity) := by
  refine ⟨?_, AllocEntry.cell ∘ e, ?_, ?_⟩
  · simp only [Fill.start, hmin]
  · rw [cells_start, List.map_ofFn]
  · rw [cells_start, List.map_ofFn]
    rfl

variable (hv : ∀ i, (e i).Valid)
include hv

theorem ofFn_valid : ∀ x ∈ List.ofFn e, x.Valid := by
  intro x hx
  obtain ⟨i, rfl⟩ := (List.mem_ofFn' _ _).mp hx
  exact hv i

/-- The whole water-fill keeps the two orders mirrored. -/
theorem run_mirrors : Fill.Mirrors σ (Fill.run (List.ofFn e) capacity)
    (Fill.run (List.ofFn (e ∘ σ)) capacity) := by
  have hperm := σ.ofFn_comp_perm e
  have hvs := ofFn_valid e hv
  have hvs' := ofFn_valid (e ∘ σ) fun i => hv (σ i)
  have hsum : ((List.ofFn (e ∘ σ)).map AllocEntry.min).sum =
      ((List.ofFn e).map AllocEntry.min).sum := (hperm.map _).sum_eq
  have hstart := start_mirrors e σ capacity (by
    rw [sum_map_of (toSlots_of hvs), sum_map_of (toSlots_of hvs'), hsum])
  rcases le_or_gt ((List.ofFn e).map AllocEntry.min).sum capacity with hle | hgt
  · have hlen : (Fill.start (List.ofFn (e ∘ σ)) capacity).active.length =
        (Fill.start (List.ofFn e) capacity).active.length := by
      rw [start_active_length, start_active_length]
      exact (hperm.map _).countP_eq _
    rw [Fill.run, Fill.run, hlen]
    exact (start_inv hvs hle).loop_mirrors _ (start_inv hvs' (hsum.trans_le hle)) hstart
  · rw [run_eq_start hvs hgt, run_eq_start hvs' (hgt.trans_eq hsum.symm)]
    exact hstart

theorem run_granted_perm : ∃ g : Fin n → ℚ,
    (Fill.run (List.ofFn e) capacity).slots.map Slot.granted = List.ofFn g ∧
      (Fill.run (List.ofFn (e ∘ σ)) capacity).slots.map Slot.granted = List.ofFn (g ∘ σ) := by
  obtain ⟨c, hc, hc'⟩ := (run_mirrors e σ capacity hv).cells
  have hcells : ∀ st : Fill, st.slots.map Slot.granted = st.cells.map Cell.granted := by
    intro st
    rw [Fill.cells, List.map_map]
    rfl
  refine ⟨Cell.granted ∘ c, ?_, ?_⟩
  · rw [hcells, hc, List.map_ofFn]
  · rw [hcells, hc', List.map_ofFn]
    rfl

/-- The grants follow the entries. -/
theorem granted_perm : ∃ g : Fin n → ℚ,
    (allocateWeighted (List.ofFn e) capacity).granted = List.ofFn g ∧
      (allocateWeighted (List.ofFn (e ∘ σ)) capacity).granted = List.ofFn (g ∘ σ) := by
  have hvs := ofFn_valid e hv
  have hvs' := ofFn_valid (e ∘ σ) fun i => hv (σ i)
  have hsum : ((List.ofFn (e ∘ σ)).map AllocEntry.min).sum =
      ((List.ofFn e).map AllocEntry.min).sum := ((σ.ofFn_comp_perm e).map _).sum_eq
  have hempty : ∀ f : Fin n → AllocEntry, List.ofFn f = [] ↔ n = 0 := fun f => List.ofFn_eq_nil_iff
  by_cases hidle : n = 0 ∨ capacity ≤ 0
  · refine ⟨fun _ => 0, ?_, ?_⟩
    · rw [allocateWeighted_idle (hidle.imp_left (hempty e).mpr), List.map_ofFn]
      rfl
    · rw [allocateWeighted_idle (hidle.imp_left (hempty (e ∘ σ)).mpr), List.map_ofFn]
      rfl
  rw [not_or, not_le] at hidle
  rcases lt_or_ge (capacity + kEps) ((List.ofFn e).map AllocEntry.min).sum with hover | hfits
  · refine ⟨fun i => (e i).min * capacity / ((List.ofFn e).map AllocEntry.min).sum, ?_, ?_⟩
    · rw [allocateWeighted_cut hvs hidle.2 hover, List.map_ofFn]
      rfl
    · rw [allocateWeighted_cut hvs' hidle.2 (hover.trans_eq hsum.symm), hsum, List.map_ofFn]
      rfl
  · obtain ⟨g, hg, hg'⟩ := run_granted_perm e σ capacity hv
    refine ⟨g, ?_, ?_⟩
    · rw [(allocateWeighted_filled hvs (mt (hempty e).mp hidle.1) hidle.2 hfits).1, hg]
    · rw [(allocateWeighted_filled hvs' (mt (hempty (e ∘ σ)).mp hidle.1) hidle.2
        (hsum.trans_le hfits)).1, hg']

/-- `allocate_weighted` is order-independent: permuting the entries permutes the grants and leaves
    every total as it was. -/
theorem allocateWeighted_perm : ∃ g : Fin n → ℚ,
    (allocateWeighted (List.ofFn e) capacity).granted = List.ofFn g ∧
      (allocateWeighted (List.ofFn (e ∘ σ)) capacity).granted = List.ofFn (g ∘ σ) ∧
      (allocateWeighted (List.ofFn (e ∘ σ)) capacity).totalRequested =
        (allocateWeighted (List.ofFn e) capacity).totalRequested ∧
      (allocateWeighted (List.ofFn (e ∘ σ)) capacity).totalGranted =
        (allocateWeighted (List.ofFn e) capacity).totalGranted ∧
      (allocateWeighted (List.ofFn (e ∘ σ)) capacity).unserved =
        (allocateWeighted (List.ofFn e) capacity).unserved ∧
      (allocateWeighted (List.ofFn (e ∘ σ)) capacity).saturated =
        (allocateWeighted (List.ofFn e) capacity).saturated := by
  obtain ⟨g, hg, hg'⟩ := granted_perm e σ capacity hv
  obtain ⟨hreq, hgr, hun, hsat⟩ := allocateWeighted_totals (ofFn_valid e hv) capacity
  obtain ⟨hreq', hgr', hun', hsat'⟩ :=
    allocateWeighted_totals (ofFn_valid (e ∘ σ) fun i => hv (σ i)) capacity
  have hwant : ((List.ofFn (e ∘ σ)).map AllocEntry.want).sum =
      ((List.ofFn e).map AllocEntry.want).sum := ((σ.ofFn_comp_perm e).map _).sum_eq
  have hsame := hreq'.trans ((congrArg (ite (capacity ≤ 0) 0) hwant).trans hreq.symm)
  have htotal : (allocateWeighted (List.ofFn (e ∘ σ)) capacity).totalGranted =
      (allocateWeighted (List.ofFn e) capacity).totalGranted := by
    rw [hgr, hgr', hg, hg']
    exact (σ.ofFn_comp_perm g).sum_eq
  refine ⟨g, hg, hg', hsame, htotal, ?_, ?_⟩
  · rw [hun, hun', hsame, htotal]
  · rw [hsat, hsat', hsame]

omit hv in
/-- Three entries, the first two exchanged; the last repeats the first one's flow id. -/
theorem allocateWeighted_perm_swap :
    let e : Fin 3 → AllocEntry :=
      ![⟨⟨0, 1⟩, 1, 2, 10, 10⟩, ⟨⟨0, 2⟩, 1, 0, 1, 4⟩, ⟨⟨0, 1⟩, 2, 0, 10, 10⟩]
    (∀ i, (e i).Valid) ∧ ∃ g : Fin 3 → ℚ,
      (allocateWeighted (List.ofFn e) 12).granted = List.ofFn g ∧
        (allocateWeighted (List.ofFn (e ∘ Equiv.swap 0 1)) 12).granted =
          List.ofFn (g ∘ Equiv.swap 0 1) := by
  intro e
  have hv : ∀ i, (e i).Valid := by
    intro i
    fin_cases i <;> constructor <;> norm_num [e]
  obtain ⟨g, hg, hg', -⟩ := allocateWeighted_perm e (Equiv.swap 0 1) 12 hv
  exact ⟨hv, g, hg, hg'⟩

end Orders

/-! ### Any list of entries -/

/-- A permutation of a list, as one of its positions. -/
theorem exists_ofFn_of_perm {α : Type} {l l' : List α} (h : l.Perm l') :
    ∃ (n : ℕ) (f : Fin n → α) (σ : Equiv.Perm (Fin n)), l = List.ofFn f ∧
      l' = List.ofFn (f ∘ σ) := by
  induction h with
  | nil => exact ⟨0, Fin.elim0, 1, rfl, rfl⟩
  | cons x _ ih =>
    obtain ⟨n, f, σ, rfl, rfl⟩ := ih
    refine ⟨n + 1, Fin.cons x f, Equiv.Perm.decomposeFin.symm (0, σ), ?_, ?_⟩
    · simp [List.ofFn_succ]
    · simp [List.ofFn_succ, Function.comp_def]
  | swap x y l =>
    refine ⟨l.length + 2, Fin.cons y (Fin.cons x l.get), Equiv.swap 0 1, ?_, ?_⟩
    · simp [List.ofFn_succ]
    · have hswap : ∀ i : Fin l.length,
          Equiv.swap (0 : Fin (l.length + 2)) 1 i.succ.succ = i.succ.succ :=
        fun i => Equiv.swap_apply_of_ne_of_ne (Fin.succ_ne_zero _)
          (fun h => Fin.succ_ne_zero i (Fin.succ_injective _ h))
      simp [List.ofFn_succ, hswap]
  | trans _ _ ih₁ ih₂ =>
    obtain ⟨n, f, σ, rfl, rfl⟩ := ih₁
    obtain ⟨m, f', τ, hf, rfl⟩ := ih₂
    rw [List.ofFn_inj'] at hf
    cases hf
    exact ⟨n, f, σ * τ, rfl, rfl⟩

/-- Whatever the order of the entries, the same offers are made. -/
theorem offers_perm {entries entries' : List AllocEntry} (hcaps : ∀ e ∈ entries, 0 ≤ e.max)
    (h : entries.Perm entries') (capacity : ℚ) :
    (entries.zip (allocateWeighted entries capacity).granted).Perm
      (entries'.zip (allocateWeighted entries' capacity).granted) := by
  have hcaps' : ∀ e ∈ entries', 0 ≤ e.max := fun e he => hcaps e (h.mem_iff.mpr he)
  obtain ⟨n, e, σ, rfl, rfl⟩ := exists_ofFn_of_perm h
  have hv : ∀ i, ((AllocEntry.normal ∘ e) i).Valid := fun i =>
    AllocEntry.normal_valid (hcaps _ ((List.mem_ofFn' _ _).mpr ⟨i, rfl⟩))
  obtain ⟨g, hg, hg'⟩ := granted_perm (AllocEntry.normal ∘ e) σ capacity hv
  rw [← List.map_ofFn, allocateWeighted_normal hcaps] at hg
  rw [Function.comp_assoc, ← List.map_ofFn, allocateWeighted_normal hcaps'] at hg'
  have hzip : ∀ (a : Fin n → AllocEntry) (b : Fin n → ℚ),
      (List.ofFn a).zip (List.ofFn b) = List.ofFn fun i => (a i, b i) := fun a b =>
    List.ext_getElem (by simp) fun i _ _ => by simp
  rw [hg, hg', hzip, hzip]
  exact (σ.ofFn_comp_perm fun i => (e i, g i)).symm

end BG
