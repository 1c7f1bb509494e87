import Mathlib
import BandwidthGovernor.FillPerm

/-! Two allocations side by side.

    With more capacity the loop takes the same rounds as long as the poorer run goes on: a round
    that fills a slot does not depend on the remainder, and one that does not is the last. With one
    more entry the rounds differ, and the two runs are compared by their levels: below the old level
    every mark is lower, and above it the grants together would exceed the capacity. -/

namespace BG

theorem forall₂_comp {α β γ : Type} {R : α → β → Prop} {S : β → γ → Prop} {T : α → γ → Prop}
    (hT : ∀ {a b c}, R a b → S b c → T a c) {l : List α} {l' : List β} {l'' : List γ}
    (h : List.Forall₂ R l l') (h' : List.Forall₂ S l' l'') : List.Forall₂ T l l'' := by
  induction h generalizing l'' with
  | nil =>
    cases h'
    exact .nil
  | cons hr _ ih =>
    cases h' with
    | cons hs h' => exact .cons (hT hr hs) (ih h')

namespace Fill
variable {entries : List AllocEntry} {budget budget' : ℚ} {st st' : Fill}

/-! ### Grants only grow -/

/-- Slot by slot, no less granted. -/
def Below (st st' : Fill) : Prop :=
  List.Forall₂ (fun s s' : Slot => s.granted ≤ s'.granted) st.slots st'.slots

theorem Below.refl (st : Fill) : Below st st := List.forall₂_same.mpr fun _ _ => le_refl _

theorem Below.trans {st'' : Fill} (h : Below st st') (h' : Below st' st'') : Below st st'' :=
  forall₂_comp (R := fun s s' : Slot => s.granted ≤ s'.granted)
    (S := fun s s' : Slot => s.granted ≤ s'.granted) le_trans h h'

/-- Of two states with the same slots, the one that rises further ends above. -/
theorem Inv.step_below (h : Inv entries budget st) (hslots : st'.slots = st.slots)
    (hactive : st'.active = st.active) (hrise : st.rise ≤ st'.rise) : Below st.step st'.step := by
  rw [Below, Fill.step, Fill.step]
  dsimp only
  rw [raise, raise, hslots, hactive, List.forall₂_map_left_iff, List.forall₂_map_right_iff]
  refine List.forall₂_same.mpr fun s hs => ?_
  split
  · have := mul_le_mul_of_nonneg_right hrise (h.weight_pos hs).le
    dsimp only
    linarith
  · exact le_refl _

theorem Inv.below_step (h : Inv entries budget st) (hne : st.active ≠ []) : Below st st.step := by
  rw [Below, Fill.step]
  dsimp only
  rw [raise, List.forall₂_map_right_iff]
  refine List.forall₂_same.mpr fun s hs => ?_
  split
  · have := mul_nonneg (h.rise_nonneg hne) (h.weight_pos hs).le
    dsimp only
    linarith
  · exact le_refl _

theorem Inv.below_loop : ∀ (n : ℕ) {st : Fill}, Inv entries budget st → Below st (Fill.loop n st)
  | 0, st, _ => Below.refl st
  | n + 1, st, h => by
    unfold Fill.loop
    split
    · rename_i hc
      rw [if_neg (not_le.mpr (h.weightSum_pos hc.2))]
      exact (h.below_step hc.2).trans (Inv.below_loop n (h.step hc.2))
    · exact Below.refl st

/-! ### More capacity -/

/-- A larger remainder never shortens the rise. -/
theorem rise_mono (hslots : st'.slots = st.slots) (hactive : st'.active = st.active)
    (hpos : 0 < st.weightSum) (hrem : st.remaining ≤ st'.remaining) : st.rise ≤ st'.rise := by
  have hsum : st'.weightSum = st.weightSum := by rw [weightSum, weightSum, hslots, hactive]
  have hinc : st.remaining / st.weightSum ≤ st'.remaining / st'.weightSum := by
    rw [hsum]
    exact div_le_div_of_nonneg_right hrem hpos.le
  rcases st'.rise_cases with h | ⟨s, hs, h⟩
  · rw [h]
    exact st.rise_le_inc.trans hinc
  · rw [h]
    rw [hslots, hactive] at hs
    exact st.rise_le_room hs

/-- The induction follows the rounds of the poorer run. While both runs rise by the same room they
    share slots and active list; the first time they do not, the poorer run has used up its
    remainder. -/
theorem Inv.loop_below :
    ∀ (n : ℕ) {st st' : Fill}, Inv entries budget st → Inv entries budget' st' →
    st'.slots = st.slots → st'.active = st.active → st.remaining ≤ st'.remaining →
      Below (Fill.loop n st) (Fill.loop n st')
  | 0, st, st', _, _, hslots, _, _ => by
    rw [Fill.loop, Fill.loop, Below, hslots]
    exact Below.refl st
  | n + 1, st, st', h, h', hslots, hactive, hrem => by
    by_cases hc : kEps < st.remaining ∧ st.active ≠ []
    · have hc' : kEps < st'.remaining ∧ st'.active ≠ [] := ⟨hc.1.trans_le hrem, hactive ▸ hc.2⟩
      have hpos := h.weightSum_pos hc.2
      rw [Fill.loop, if_pos hc, if_neg (not_le.mpr hpos), Fill.loop, if_pos hc',
        if_neg (not_le.mpr (h'.weightSum_pos hc'.2))]
      have hrise := rise_mono hslots hactive hpos hrem
      have hsum : st'.weightSum = st.weightSum := by rw [weightSum, weightSum, hslots, hactive]
      rcases hrise.eq_or_lt with heq | hlt
      · refine Inv.loop_below n (h.step hc.2) (h'.step hc'.2) ?_ ?_ ?_
        · simp only [Fill.step, hslots, hactive, heq]
        · simp only [Fill.step, hslots, hactive, heq]
        · simp only [Fill.step, ← heq, hsum]
          split <;> split <;> linarith
      · have hlast : st.step.remaining = 0 := by
          rcases st.rise_cases with hr | ⟨s, hs, hr⟩
          · simp [Fill.step, hr, div_mul_cancel₀ _ hpos.ne']
          · rw [← hslots, ← hactive] at hs
            exact absurd (st'.rise_le_room hs) (not_le.mpr (hr ▸ hlt))
        have hstop : ∀ m, Fill.loop m st.step = st.step := by
          intro m
          cases m with
          | zero => rfl
          | succ m =>
            refine if_neg fun hgo => ?_
            rw [hlast] at hgo
            exact absurd hgo.1 (not_lt.mpr kEps_pos.le)
        rw [hstop]
        exact (h.step_below hslots hactive hrise).trans ((h'.step hc'.2).below_loop n)
    · rw [Fill.loop, if_neg hc]
      have hstart : Below st st' := by
        rw [Below, hslots]
        exact Below.refl st
      exact hstart.trans (h'.below_loop (n + 1))

end Fill

section Compare
variable {entries : List AllocEntry} {capacity capacity' : ℚ}

theorem run_below (hv : ∀ e ∈ entries, e.Valid) (hle : capacity ≤ capacity') :
    Fill.Below (Fill.run entries capacity) (Fill.run entries capacity') := by
  have hstart : Fill.Below (Fill.start entries capacity) (Fill.start entries capacity') :=
    Fill.Below.refl (Fill.start entries capacity)
  rcases le_or_gt (entries.map AllocEntry.min).sum capacity with hfit | hover
  · refine (start_inv hv hfit).loop_below _ (start_inv hv (hfit.trans hle)) rfl rfl ?_
    exact sub_le_sub_right hle _
  · rw [run_eq_start hv hover]
    rcases le_or_gt (entries.map AllocEntry.min).sum capacity' with hfit | hover'
    · exact hstart.trans ((start_inv hv hfit).below_loop _)
    · rw [run_eq_start hv hover']
      exact hstart

/-- Where the minima fit, every grant lies between the minimum and the target. -/
theorem filled_within (hv : ∀ e ∈ entries, e.Valid) (hne : entries ≠ []) (hpos : 0 < capacity)
    (hfits : (entries.map AllocEntry.min).sum ≤ capacity + kEps) :
    List.Forall₂ (fun g (e : AllocEntry) => e.min ≤ g ∧ g ≤ e.want)
      (allocateWeighted entries capacity).granted entries := by
  obtain ⟨hof, hin, -⟩ := run_spec hv hfits
  rw [(allocateWeighted_filled hv hne hpos hfits).1]
  refine List.forall₂_map_left_iff.mpr
    (((List.forall₂_and_left _ _).mpr ⟨hin, hof⟩).imp fun s e h => ?_)
  exact ⟨h.2.min ▸ h.1.1, h.2.want ▸ h.1.2⟩

/-- More capacity never hurts: whichever branches the two allocations take, no entry is granted less
    under the larger capacity. -/
theorem allocateWeighted_capacity_mono (hv : ∀ e ∈ entries, e.Valid) (hle : capacity ≤ capacity') :
    List.Forall₂ (· ≤ ·) (allocateWeighted entries capacity).granted
      (allocateWeighted entries capacity').granted := by
  have hk := kEps_pos
  by_cases hidle : entries = [] ∨ capacity ≤ 0
  · rw [allocateWeighted_idle hidle, List.forall₂_map_left_iff]
    exact ((allocateWeighted_allotment hv capacity').each.imp fun _ _ h => h.1).flip
  · rw [not_or, not_le] at hidle
    obtain ⟨hne, hpos⟩ := hidle
    have hpos' := hpos.trans_le hle
    rcases le_or_gt (entries.map AllocEntry.min).sum (capacity + kEps) with hfit | hover
    · rw [(allocateWeighted_filled hv hne hpos hfit).1,
        (allocateWeighted_filled hv hne hpos' (by linarith)).1, List.forall₂_map_left_iff,
        List.forall₂_map_right_iff]
      exact run_below hv hle
    · have hsum : 0 < (entries.map AllocEntry.min).sum := by linarith
      rw [allocateWeighted_cut hv hpos hover, List.forall₂_map_left_iff]
      rcases le_or_gt (entries.map AllocEntry.min).sum (capacity' + kEps) with hfit' | hover'
      · refine ((List.forall₂_and_left _ _).mpr
          ⟨hv, (filled_within hv hne hpos' hfit').flip⟩).imp fun e g h => ?_
        refine le_trans ?_ h.2.1
        rw [mul_div_assoc]
        exact mul_le_of_le_one_right h.1.min_nonneg ((div_le_one hsum).mpr (by linarith))
      · rw [allocateWeighted_cut hv hpos' hover', List.forall₂_map_right_iff]
        refine List.forall₂_same.mpr fun e he => ?_
        exact div_le_div_of_nonneg_right
          (mul_le_mul_of_nonneg_left hle (hv e he).min_nonneg) hsum.le

/-- The theorem from a capacity that cuts the minima to one that fills both entries. -/
theorem allocateWeighted_capacity_mono_two :
    let entries : List AllocEntry := [⟨⟨0, 1⟩, 1, 5, 6, 10⟩, ⟨⟨0, 2⟩, 2, 0, 4, 4⟩]
    (∀ e ∈ entries, e.Valid) ∧ (3 : ℚ) ≤ 12 ∧ List.Forall₂ (· ≤ ·)
      (allocateWeighted entries 3).granted (allocateWeighted entries 12).granted := by
  intro entries
  have hv : ∀ e ∈ entries, e.Valid := by
    intro e he
    simp only [entries, List.mem_cons, List.not_mem_nil, or_false] at he
    rcases he with rfl | rfl <;> constructor <;> norm_num
  exact ⟨hv, by norm_num, allocateWeighted_capacity_mono hv (by norm_num)⟩

/-! ### One more entry -/

/-- Lists that fall short of each other by little entry by entry, and little in total, do so entry
    by entry the other way round. -/
theorem gap_le_of_sums {k : ℚ} (hk : 0 ≤ k) {xs ys : List ℚ}
    (h : List.Forall₂ (fun x y => y ≤ x + k) xs ys) :
    ys.sum ≤ xs.sum + xs.length * k ∧
      List.Forall₂ (fun x y => x - y ≤ xs.sum - ys.sum + xs.length * k) xs ys := by
  induction h with
  | nil => exact ⟨by simp, .nil⟩
  | @cons x y xs ys hle _ ih =>
    obtain ⟨hsum, heach⟩ := ih
    simp only [List.sum_cons, List.length_cons, Nat.cast_add, Nat.cast_one, add_mul, one_mul]
    refine ⟨by linarith, .cons (by linarith) (heach.imp fun x' y' h' => by linarith)⟩

/-- Either every entry has its target up to `kEps`, or the capacity is used up to `kEps`. -/
theorem filled_settles (hv : ∀ e ∈ entries, e.Valid) (hne : entries ≠ []) (hpos : 0 < capacity)
    (hfits : (entries.map AllocEntry.min).sum ≤ capacity + kEps) :
    List.Forall₂ (fun g (e : AllocEntry) => e.want ≤ g + kEps)
        (allocateWeighted entries capacity).granted entries ∨
      capacity - kEps ≤ (allocateWeighted entries capacity).granted.sum := by
  rw [(allocateWeighted_filled hv hne hpos hfits).1]
  refine (run_settles hv capacity).imp (fun hfull => ?_) id
  refine List.forall₂_map_left_iff.mpr
    (((List.forall₂_and_left _ _).mpr ⟨hfull, run_shape hv capacity⟩).imp fun s e h => ?_)
  exact h.2.want ▸ h.1

/-- The grants of the water-fill branch fit the capacity, or are the minima. -/
theorem filled_sum (hv : ∀ e ∈ entries, e.Valid) (hne : entries ≠ []) (hpos : 0 < capacity)
    (hfits : (entries.map AllocEntry.min).sum ≤ capacity + kEps) :
    (allocateWeighted entries capacity).granted.sum ≤ capacity ∨
      List.Forall₂ (fun g (e : AllocEntry) => g = e.min)
        (allocateWeighted entries capacity).granted entries := by
  rw [(allocateWeighted_filled hv hne hpos hfits).1]
  rcases le_or_gt (entries.map AllocEntry.min).sum capacity with hle | hgt
  · have hinv := (start_inv hv hle).loop ((Fill.start entries capacity).active.length + 1)
    have htot := hinv.total
    have hrem := hinv.remaining
    rw [Fill.run]
    exact Or.inl (by linarith)
  · rw [run_eq_start hv hgt]
    refine Or.inr (List.forall₂_map_left_iff.mpr (((List.forall₂_and_left _ _).mpr
      ⟨fun s hs => toSlots_granted hs, toSlots_of hv⟩).imp fun s e h => ?_))
    exact h.1.trans h.2.min

/-- No grant is negative, so some of them sum up to no more than all. -/
theorem sum_take_le (hv : ∀ e ∈ entries, e.Valid) (capacity : ℚ) (n : ℕ) :
    ((allocateWeighted entries capacity).granted.take n).sum ≤
      (allocateWeighted entries capacity).granted.sum := by
  have hnn : ∀ g ∈ (allocateWeighted entries capacity).granted, 0 ≤ g := by
    intro g hg
    obtain ⟨e, -, h⟩ := forall₂_exists_right (allocateWeighted_allotment hv capacity).each hg
    exact h.1
  have hrest : 0 ≤ ((allocateWeighted entries capacity).granted.drop n).sum :=
    List.sum_nonneg fun g hg => hnn g (List.mem_of_mem_drop hg)
  rw [← List.sum_take_add_sum_drop (allocateWeighted entries capacity).granted n]
  linarith

theorem mark_mono {l l' : ℚ} (h : l ≤ l') (e : AllocEntry) : e.mark l ≤ e.mark l' := by
  have := mul_le_mul_of_nonneg_right h (sanitiseWeight_pos e.weight).le
  exact min_le_min_left _ (by linarith)

/-- When the minima are cut with the newcomer, nobody is granted more than before. -/
theorem newcomer_cut {e : AllocEntry} (hv : ∀ x ∈ entries ++ [e], x.Valid) (hne : entries ≠ [])
    (hpos : 0 < capacity) (hover : capacity + kEps < ((entries ++ [e]).map AllocEntry.min).sum) :
    List.Forall₂ (· ≤ ·)
      ((allocateWeighted (entries ++ [e]) capacity).granted.take entries.length)
      (allocateWeighted entries capacity).granted := by
  have hk := kEps_pos
  have hall : ∀ x ∈ entries, x.Valid := fun x hx => hv x (List.mem_append_left _ hx)
  have he := (hv e (List.mem_append_right _ (List.mem_singleton.mpr rfl))).min_nonneg
  have hsum : ((entries ++ [e]).map AllocEntry.min).sum =
      (entries.map AllocEntry.min).sum + e.min := by simp
  have hlen : entries.length = (entries.map fun x =>
      x.min * capacity / ((entries ++ [e]).map AllocEntry.min).sum).length := by simp
  have htotal : 0 < ((entries ++ [e]).map AllocEntry.min).sum := by linarith
  rw [allocateWeighted_cut hv hpos hover, List.map_append, hlen, List.take_left,
    List.forall₂_map_left_iff]
  rcases le_or_gt (entries.map AllocEntry.min).sum (capacity + kEps) with hfits | hcut
  · refine ((List.forall₂_and_left _ _).mpr
      ⟨hall, (filled_within hall hne hpos hfits).flip⟩).imp fun x g h => ?_
    refine le_trans ?_ h.2.1
    rw [mul_div_assoc]
    exact mul_le_of_le_one_right h.1.min_nonneg ((div_le_one htotal).mpr (by linarith))
  · rw [allocateWeighted_cut hall hpos hcut, List.forall₂_map_right_iff]
    refine List.forall₂_same.mpr fun x hx => ?_
    have hnum := mul_nonneg (hall x hx).min_nonneg hpos.le
    exact div_le_div_of_nonneg_left hnum (by linarith) (by linarith)

/-- When the minima fit with the newcomer, the level decides: at a level that is no higher every
    mark is lower, and at a higher one the newcomer's share keeps the sum of the others down. -/
theorem newcomer_filled {e : AllocEntry} (hv : ∀ x ∈ entries ++ [e], x.Valid) (hne : entries ≠ [])
    (hpos : 0 < capacity) (hfits : ((entries ++ [e]).map AllocEntry.min).sum ≤ capacity + kEps) :
    List.Forall₂ (fun g' g => g' ≤ g + (entries.length + 1) * kEps)
      ((allocateWeighted (entries ++ [e]) capacity).granted.take entries.length)
      (allocateWeighted entries capacity).granted := by
  have hk := kEps_pos
  have hslack : kEps ≤ ((entries.length : ℚ) + 1) * kEps := by
    have := mul_nonneg (Nat.cast_nonneg entries.length : (0 : ℚ) ≤ entries.length) hk.le
    linarith
  have hall : ∀ x ∈ entries, x.Valid := fun x hx => hv x (List.mem_append_left _ hx)
  have he := (hv e (List.mem_append_right _ (List.mem_singleton.mpr rfl))).min_nonneg
  have hsum : ((entries ++ [e]).map AllocEntry.min).sum =
      (entries.map AllocEntry.min).sum + e.min := by simp
  have hfits₀ : (entries.map AllocEntry.min).sum ≤ capacity + kEps := by linarith
  have hne' : entries ++ [e] ≠ [] := by simp
  have hin := filled_within hall hne hpos hfits₀
  have hin' := List.forall₂_take_append _ _ _ (filled_within hv hne' hpos hfits)
  rcases filled_sum hv hne' hpos hfits with htotal | hminima
  · rcases filled_settles hall hne hpos hfits₀ with hfull | hused
    · exact forall₂_comp (fun {g' x g} h h' => by linarith [h.2]) hin' hfull.flip
    · obtain ⟨l, -, hmark⟩ := filled_marks hall hne hpos hfits₀
      obtain ⟨l', -, hmark'⟩ := filled_marks hv hne' hpos hfits
      replace hmark' := List.forall₂_take_append _ _ _ hmark'
      rcases le_or_gt l' l with hlow | hhigh
      · exact forall₂_comp (fun {g' x g} h h' => by linarith [h.2, h'.1, mark_mono hlow x])
          hmark' hmark.flip
      · have hshort : List.Forall₂ (fun g' g => g ≤ g' + kEps)
            ((allocateWeighted (entries ++ [e]) capacity).granted.take entries.length)
            (allocateWeighted entries capacity).granted :=
          forall₂_comp (fun {g' x g} h h' => by linarith [h.1, h'.2, mark_mono hhigh.le x])
            hmark' hmark.flip
        have hothers := sum_take_le hv capacity entries.length
        obtain ⟨-, hgap⟩ := gap_le_of_sums hk.le hshort
        rw [hin'.length_eq] at hgap
        exact hgap.imp fun g' g h => by linarith
  · have hminima' := List.forall₂_take_append _ _ _ hminima
    exact forall₂_comp (fun {g' x g} h h' => by linarith [h'.1]) hminima' hin.flip

/-- A newcomer never helps the others: with one more entry, each of the first `n` is granted at most
    what it was granted before and `(n + 1) * kEps`. -/
theorem allocateWeighted_newcomer {e : AllocEntry} (hv : ∀ x ∈ entries, x.Valid) (he : e.Valid)
    (capacity : ℚ) : List.Forall₂ (fun g' g => g' ≤ g + (entries.length + 1) * kEps)
      ((allocateWeighted (entries ++ [e]) capacity).granted.take entries.length)
      (allocateWeighted entries capacity).granted := by
  have hk := kEps_pos
  have hslack : 0 ≤ ((entries.length : ℚ) + 1) * kEps := by positivity
  have hall : ∀ x ∈ entries ++ [e], x.Valid := by
    intro x hx
    rcases List.mem_append.mp hx with h | h
    · exact hv x h
    · exact List.mem_singleton.mp h ▸ he
  rcases eq_or_ne entries [] with rfl | hne
  · rw [allocateWeighted_idle (Or.inl rfl)]
    exact .nil
  rcases le_or_gt capacity 0 with hidle | hpos
  · rw [allocateWeighted_idle (Or.inr hidle), allocateWeighted_idle (Or.inr hidle), List.map_append,
      List.take_left' (by simp)]
    exact List.forall₂_same.mpr fun g _ => by linarith
  · rcases le_or_gt ((entries ++ [e]).map AllocEntry.min).sum (capacity + kEps) with hfits | hover
    · exact newcomer_filled hall hne hpos hfits
    · exact (newcomer_cut hall hne hpos hover).imp fun g' g h => by linarith

/-- The theorem for a heavy newcomer beside one entry. -/
theorem allocateWeighted_newcomer_heavy :
    let old : AllocEntry := ⟨⟨0, 1⟩, 1, 2, 10, 10⟩
    let new : AllocEntry := ⟨⟨0, 2⟩, 3, 0, 10, 10⟩
    (∀ x ∈ [old], x.Valid) ∧ new.Valid ∧
      List.Forall₂ (fun g' g => g' ≤ g + (([old].length : ℚ) + 1) * kEps)
        ((allocateWeighted ([old] ++ [new]) 8).granted.take [old].length)
        (allocateWeighted [old] 8).granted := by
  intro old new
  have hv : ∀ x ∈ [old], x.Valid := by
    intro x hx
    obtain rfl := List.mem_singleton.mp hx
    constructor <;> norm_num [old]
  have hnew : new.Valid := by constructor <;> norm_num [new]
  exact ⟨hv, hnew, allocateWeighted_newcomer hv hnew 8⟩

end Compare

end BG
