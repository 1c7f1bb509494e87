import Mathlib
import BandwidthGovernor.Governor.Refine

/-! What a tick guarantees from any reachable state: it commits no resource beyond what was left for
    arbitration, and it honours the minima that fit there. -/

namespace BG

open Lib

namespace Governor

/-- The sum of the minima of the scheduled flows that cross a resource. -/
def minimaOn (g : Governor) (rid : ResourceId) : ℚ :=
  g.flows.sum fun _ f => if isScheduled f.state && g.crosses rid f then
    f.spec.requestedMin.value else 0

/-! ### A settled flow -/

theorem settled_spec (g : Governor) (t : ℚ) (fid : FlowId) (f : FlowRT) :
    (g.settled t fid f).spec = f.spec := by
  unfold settled
  dsimp only
  split
  · exact (dispatchTo_spec _ _).1
  · split <;> rfl

/-- Only flows that contended move after arbitration, at the rate they were granted. -/
theorem settled_moving {g : Governor} {t : ℚ} {fid : FlowId} {f : FlowRT}
    (h : isMoving (g.settled t fid f).state = true) :
    isScheduled f.state = true ∧ (g.settled t fid f).granted = g.grantOf t fid := by
  unfold settled at h ⊢
  dsimp only at h ⊢
  by_cases hr : f.state = .named .reserved
  · rw [if_pos hr]
    exact ⟨by simp [isScheduled, hr], (dispatchTo_spec _ _).2.1⟩
  · rw [if_neg hr] at h ⊢
    by_cases hm : isMoving f.state = true
    · rw [if_pos hm]
      exact ⟨by simp [isScheduled_eq, hm], rfl⟩
    · rw [if_neg hm] at h
      exact absurd h hm

/-- A scheduled flow gets the grant, whatever state it ends in. -/
theorem settled_granted {g : Governor} {t : ℚ} {fid : FlowId} {f : FlowRT}
    (h : isScheduled f.state = true) : (g.settled t fid f).granted = g.grantOf t fid := by
  unfold settled
  dsimp only
  by_cases hr : f.state = .named .reserved
  · rw [if_pos hr]
    exact (dispatchTo_spec _ _).2.1
  · rw [if_neg hr, if_pos (by simpa [isScheduled_eq, hr] using h)]

/-- A positive grant keeps a scheduled flow moving. -/
theorem settled_of_pos {g : Governor} {t : ℚ} {fid : FlowId} {f : FlowRT}
    (h : isScheduled f.state = true) (hpos : 0 < g.grantOf t fid) :
    isMoving (g.settled t fid f).state = true := by
  unfold settled
  dsimp only
  by_cases hr : f.state = .named .reserved
  · rw [if_pos hr]; rfl
  · rw [if_neg hr, if_pos (by simpa [isScheduled_eq, hr] using h)]
    have hgrade : gradeOf f (g.grantOf t fid) = .throttled ∨
        gradeOf f (g.grantOf t fid) = .running := by
      unfold gradeOf
      rw [if_neg fun hle => absurd hle.1 (not_le.mpr hpos)]
      split
      · exact Or.inl rfl
      · exact Or.inr rfl
    rcases hgrade with h | h <;> simp [isMoving, h]

/-! ### Offers and contenders -/

theorem ratesOn_pairs (g : Governor) (t : ℚ) (rid : ResourceId) (r : ResRT) :
    (g.contenders rid).length = (g.ratesOn t rid r).length := by
  rw [ratesOn, allocateWeighted_length, List.length_map]

/-- On a registered resource every contender's grant is at most the rate offered there. -/
theorem grantOf_le_rates {g : Governor} (hwf : g.view.WF) {t : ℚ} {rid : ResourceId} {r : ResRT}
    (hr : g.resources.find? rid = some r) :
    List.Forall₂ (fun (f : FlowRT) v => g.grantOf t f.spec.id ≤ v) (g.contenders rid)
      (g.ratesOn t rid r) := by
  refine List.forall₂_iff_zip.mpr ⟨g.ratesOn_pairs t rid r, fun {f v} h => ?_⟩
  refine grantOf_le_offer (keyed_of_wf hwf) hr (x := (g.allocEntry t f, v)) ?_
  rw [List.zip_map_left]
  exact List.mem_map.mpr ⟨(f, v), h, rfl⟩

theorem sum_contenders (g : Governor) (rid : ResourceId) (q : FlowRT → ℚ) :
    ((g.contenders rid).map q).sum =
      g.flows.sum fun _ f => if isScheduled f.state && g.crosses rid f then q f else 0 := by
  have : ∀ l : List FlowRT, ((l.filter fun f => isScheduled f.state && g.crosses rid f).map q).sum =
      (l.map fun f => if isScheduled f.state && g.crosses rid f then q f else 0).sum := by
    intro l
    induction l with
    | nil => rfl
    | cons f l ih =>
      rw [List.filter_cons, List.map_cons, List.sum_cons, ← ih]
      split <;> simp
  rw [contenders, this, Table.vals, List.map_map]
  rfl

/-- The grants of the contenders of a registered resource fit what arbitration had to give. -/
theorem sum_grantOf_le {g : Governor} (hwf : g.view.WF) (t : ℚ) {rid : ResourceId} {r : ResRT}
    (hr : g.resources.find? rid = some r) :
    (g.flows.sum fun fid f =>
      if isScheduled f.state && g.crosses rid f then g.grantOf t fid else 0) ≤
      max 0 (r.governed - r.reserved) + kEps := by
  have hkey : (g.flows.sum fun fid f =>
      if isScheduled f.state && g.crosses rid f then g.grantOf t fid else 0) =
      ((g.contenders rid).map fun f => g.grantOf t f.spec.id).sum := by
    rw [sum_contenders]
    exact Table.sum_congr fun fid f hf => by rw [hwf.keyed fid f (Table.find?_of_mem hf)]
  have hle : ((g.contenders rid).map fun f => g.grantOf t f.spec.id).sum ≤
      (g.ratesOn t rid r).sum :=
    List.Forall₂.sum_le_sum (List.forall₂_map_left_iff.mpr (grantOf_le_rates hwf hr))
  have htot := (ratesOn_allotment (enveloped_of_wf hwf) t rid r).total
  rw [max_eq_right (le_max_left 0 (r.governed - r.reserved))] at htot
  exact hkey.le.trans (hle.trans htot)

/-! ### No overcommit -/

theorem arbitrated_load_le {g : Governor} (hwf : g.view.WF) {rid : ResourceId} {r : ResRT}
    (hr : g.resources.find? rid = some r) :
    g.arbitrated.loadOn rid ≤ max 0 (r.governed - r.reserved) + kEps := by
  refine le_trans ?_ (sum_grantOf_le hwf g.now hr)
  rw [loadOn, arbitrated_flows, Table.sum_mapVals]
  refine Table.sum_le_sum fun fid f hf => ?_
  have hcross := crosses_congr (g := g) (h := g.arbitrated) rfl
    (congrArg FlowSpec.path (g.settled_spec g.now fid f)) rid
  have hnn := (grantOf_mem (keyed_of_wf hwf) (enveloped_of_wf hwf) g.now
    (Table.find?_of_mem hf)).1
  rw [hcross]
  by_cases hm : isMoving (g.settled g.now fid f).state = true
  · obtain ⟨hs, hg⟩ := settled_moving hm
    rw [hm, hs, hg]
  · simp only [hm, Bool.false_and, Bool.false_eq_true, if_false]
    split
    · exact hnn
    · exact le_refl _

/-- On well-formed states the recomputed `allocated` is the load. -/
theorem allocatedOn_of_wf {g : Governor} (hwf : g.view.WF) (rid : ResourceId) :
    g.allocatedOn rid = g.loadOn rid := by
  refine allocatedOn_eq_load (fun f hf => ?_) (fun f hf => ?_)
  · unfold hopsOf
    cases hp : g.paths.find? f.spec.path with
    | none => exact List.nodup_nil
    | some p => exact hwf.simple _ p hp
  · obtain ⟨e, he, rfl⟩ := List.mem_map.mp hf
    exact (hwf.granted e.1 e.2 (Table.find?_of_mem he)).1

theorem arbitrated_wf {g : Governor} (hwf : g.view.WF) : g.arbitrated.view.WF := by
  obtain ⟨g', h, hr⟩ := arbitrate_ran hwf
  rw [arbitrate_eq, Except.ok.injEq] at h
  exact h ▸ hr.wf hwf

/-- A tick arbitrates a well-formed state whose figures are fresh. -/
theorem tick_eq {g : Governor} (hwf : g.view.WF) :
    ∃ g' : Governor, g'.view.WF ∧ g.prepareTick = .ok g'.recomputeGoverned.recomputeReserved ∧
      g.tick = .ok g'.recomputeGoverned.recomputeReserved.arbitrated := by
  obtain ⟨g', hok, hr⟩ := prepareTick_ran hwf
  refine ⟨g', hr.wf hwf, hok, ?_⟩
  simp only [tick, hok]
  exact arbitrate_eq _

/-- The figures a tick arbitrates with. -/
theorem fresh_figures {g : Governor} {rid : ResourceId} {r : ResRT}
    (h : g.recomputeGoverned.recomputeReserved.resources.find? rid = some r) :
    0 ≤ r.governed ∧ 0 ≤ r.reserved := by
  rw [recomputeReserved_find?, recomputeGoverned_find?, Option.map_map] at h
  obtain ⟨r₀, -, rfl⟩ := Option.map_eq_some_iff.mp h
  exact ⟨governedOf_nonneg _ _ _ _ _, reservedOn_nonneg _ _⟩

end Governor

/-- No overcommit. After a tick from any reachable state, the grants of the moving flows across a
    registered resource fit what was left of it for arbitration, its allocated figure fits its
    governed capacity, and every moving flow is granted between zero and its preferred rate. -/
theorem tick_no_overcommit {es : List Event} {g : Governor} (h : Reaches es g) :
    ∃ g₁ g₂, g.prepareTick = .ok g₁ ∧ g.tick = .ok g₂ ∧
      (∀ rid r₂, g₂.resources.find? rid = some r₂ → ∃ r₁, g₁.resources.find? rid = some r₁ ∧
        g₂.loadOn rid ≤ max 0 (r₁.governed - r₁.reserved) + kEps ∧
        r₂.governed = r₁.governed ∧ r₂.allocated ≤ r₂.governed + kEps) ∧
      ∀ fid f, g₂.flows.find? fid = some f → isMoving f.state = true →
        0 ≤ f.granted ∧ f.granted ≤ f.spec.requestedPreferred.value := by
  obtain ⟨g', hwf', hprep, htick⟩ := Governor.tick_eq h.wf
  have hwf : g'.recomputeGoverned.recomputeReserved.view.WF := hwf'
  refine ⟨_, _, hprep, htick, fun rid r₂ hr₂ => ?_, fun fid f hf hm => ?_⟩
  · generalize hg₁ : g'.recomputeGoverned.recomputeReserved = g₁ at hr₂ hwf ⊢
    rw [Governor.arbitrated, Governor.recomputeUsage_find?] at hr₂
    obtain ⟨r₁, hr₁, rfl⟩ := Option.map_eq_some_iff.mp hr₂
    have hload := Governor.arbitrated_load_le hwf hr₁
    obtain ⟨hgov, hres⟩ := Governor.fresh_figures (hg₁ ▸ hr₁)
    refine ⟨r₁, hr₁, hload, rfl, ?_⟩
    have halloc := Governor.allocatedOn_of_wf (Governor.arbitrated_wf hwf) rid
    change g₁.arbitrated.allocatedOn rid ≤ r₁.governed + kEps
    rw [halloc]
    have hmax : max 0 (r₁.governed - r₁.reserved) ≤ r₁.governed := max_le hgov (by linarith)
    linarith
  · generalize g'.recomputeGoverned.recomputeReserved = g₁ at hf hwf
    rw [Governor.arbitrated_flows, Table.find?_mapVals] at hf
    obtain ⟨f₁, hf₁, rfl⟩ := Option.map_eq_some_iff.mp hf
    rw [(Governor.settled_moving hm).2, Governor.settled_spec]
    exact Governor.grantOf_mem (Governor.keyed_of_wf hwf) (Governor.enveloped_of_wf hwf) _ hf₁

/-- The theorem at a link shared by two flows. -/
theorem tick_no_overcommit_shared : ∃ g₁ g₂,
    (Sample.start.after (Sample.oneLink ++ [.submitFlow (Sample.flow 1 1 40 80 100),
      .submitFlow (Sample.flow 2 1 40 80 100)])).prepareTick = .ok g₁ ∧
    (Sample.start.after (Sample.oneLink ++ [.submitFlow (Sample.flow 1 1 40 80 100),
      .submitFlow (Sample.flow 2 1 40 80 100)])).tick = .ok g₂ ∧
      (∀ rid r₂, g₂.resources.find? rid = some r₂ → ∃ r₁, g₁.resources.find? rid = some r₁ ∧
        g₂.loadOn rid ≤ max 0 (r₁.governed - r₁.reserved) + kEps ∧
        r₂.governed = r₁.governed ∧ r₂.allocated ≤ r₂.governed + kEps) ∧
      ∀ fid f, g₂.flows.find? fid = some f → isMoving f.state = true →
        0 ≤ f.granted ∧ f.granted ≤ f.spec.requestedPreferred.value :=
  tick_no_overcommit (Sample.reaches rfl)

/-! ### Minima -/

namespace Governor

/-- A contender is offered a rate on every registered resource it crosses. -/
theorem exists_offer {g : Governor} (t : ℚ) {fid : FlowId} {f : FlowRT}
    (hf : g.flows.find? fid = some f) (hs : isScheduled f.state = true) {rid : ResourceId}
    (r : ResRT) (hc : g.crosses rid f = true) :
    ∃ v, (g.allocEntry t f, v) ∈
      ((g.contenders rid).map (g.allocEntry t)).zip (g.ratesOn t rid r) := by
  have hmem : f ∈ ((g.contenders rid).zip (g.ratesOn t rid r)).map Prod.fst := by
    rw [List.map_fst_zip (g.ratesOn_pairs t rid r).le]
    refine List.mem_filter.mpr ⟨?_, by simp [hs, hc]⟩
    exact List.mem_map_of_mem (f := Prod.snd) (Table.mem_of_find? hf)
  obtain ⟨⟨f', v⟩, hp, rfl⟩ := List.mem_map.mp hmem
  refine ⟨v, ?_⟩
  rw [List.zip_map_left]
  exact List.mem_map.mpr ⟨(f', v), hp, rfl⟩

/-- A contender of a registered resource has a grant entry. -/
theorem grantMin_ne_none {g : Governor} (hk : g.FlowsKeyed) (t : ℚ) {fid : FlowId} {f : FlowRT}
    (hf : g.flows.find? fid = some f) (hs : isScheduled f.state = true) {rid : ResourceId}
    {r : ResRT}
    (hr : g.resources.find? rid = some r) (hc : g.crosses rid f = true) :
    (g.grantMin t).find? fid ≠ none := by
  obtain ⟨v, hv⟩ := exists_offer t hf hs r hc
  obtain ⟨m, hm, -⟩ := foldl_lowerGrant_le _ .empty
    ((mem_offers hk).mpr ⟨rid, r, hr, hv⟩)
  have hid : (g.allocEntry t f).flow = fid := hk fid f hf
  rw [grantMin_eq, ← hid, hm]
  exact Option.some_ne_none m

/-- Where the minima fit what arbitration has to give, a contender gets its minimum. -/
theorem min_le_grantOf {g : Governor} (hwf : g.view.WF) (t : ℚ)
    (hfit : ∀ rid r, g.resources.find? rid = some r →
      g.minimaOn rid ≤ max 0 (r.governed - r.reserved)) {fid : FlowId} {f : FlowRT}
    (hf : g.flows.find? fid = some f) (hs : isScheduled f.state = true) {rid : ResourceId}
    (hreg : g.resources.contains rid = true) (hc : g.crosses rid f = true) :
    f.spec.requestedMin.value ≤ g.grantOf t fid := by
  obtain ⟨r, hr⟩ := Option.isSome_iff_exists.mp hreg
  rcases grantOf_cases (keyed_of_wf hwf) t fid with ⟨h, -⟩ | ⟨rid', r', ⟨e, v⟩, hr', hx, hxf, hxg⟩
  · exact absurd h (grantMin_ne_none (keyed_of_wf hwf) t hf hs hr hc)
  · obtain ⟨f', hf', rfl⟩ := List.mem_map.mp (List.of_mem_zip hx).1
    have hff : f' = f := (keyed_of_wf hwf).contender_eq hf' hxf hf
    have hsum : (((g.contenders rid').map (g.allocEntry t)).map AllocEntry.min).sum =
        g.minimaOn rid' := by
      rw [List.map_map]
      exact g.sum_contenders rid' fun f => f.spec.requestedMin.value
    have hfloor := (ratesOn_allotment (enveloped_of_wf hwf) t rid' r').floor (by
      rw [hsum]
      exact (hfit rid' r' hr').trans (le_max_right _ _))
    rw [← hxg, ← hff]
    exact forall₂_offer hfloor hx

end Governor

/-- Minima are honoured where they fit. When on every registered resource the minima of the
    scheduled flows fit what the held reservations leave of the governed capacity, a tick grants
    every scheduled flow with a registered hop its minimum, and preempts none with a positive
    one. -/
theorem tick_honours_minima {es : List Event} {g : Governor} (h : Reaches es g) :
    ∃ g₁ g₂, g.prepareTick = .ok g₁ ∧ g.tick = .ok g₂ ∧
      ((∀ rid r, g₁.resources.find? rid = some r →
          g₁.minimaOn rid ≤ max 0 (r.governed - r.reserved)) →
        ∀ fid f rid, g₁.flows.find? fid = some f → isScheduled f.state = true →
          g₁.resources.contains rid = true → g₁.crosses rid f = true →
          ∃ f₂, g₂.flows.find? fid = some f₂ ∧ f₂.spec = f.spec ∧
            f.spec.requestedMin.value - kEps ≤ f₂.granted ∧
            (0 < f.spec.requestedMin.value → f₂.state ≠ .named .preempted)) := by
  obtain ⟨g', hwf', hprep, htick⟩ := Governor.tick_eq h.wf
  have hwf : g'.recomputeGoverned.recomputeReserved.view.WF := hwf'
  refine ⟨_, _, hprep, htick, fun hfit fid f rid hf hs hreg hc => ?_⟩
  generalize g'.recomputeGoverned.recomputeReserved = g₁ at hfit hf hs hreg hc hwf ⊢
  have hmin := Governor.min_le_grantOf hwf g₁.now hfit hf hs hreg hc
  have hk := kEps_pos
  refine ⟨g₁.settled g₁.now fid f, ?_, g₁.settled_spec g₁.now fid f, ?_, fun hpos hpre => ?_⟩
  · rw [Governor.arbitrated_flows, Table.find?_mapVals, hf]
    rfl
  · rw [Governor.settled_granted hs]
    linarith
  · have hmov : isMoving (g₁.settled g₁.now fid f).state = true :=
      Governor.settled_of_pos hs (by linarith)
    rw [hpre] at hmov
    cases hmov

/-- The theorem at two flows whose minima fill a link. -/
theorem tick_honours_minima_full : ∃ g₁ g₂,
    (Sample.start.after (Sample.oneLink ++ [.submitFlow (Sample.flow 1 1 50 80 100),
      .submitFlow (Sample.flow 2 1 50 80 100)])).prepareTick = .ok g₁ ∧
    (Sample.start.after (Sample.oneLink ++ [.submitFlow (Sample.flow 1 1 50 80 100),
      .submitFlow (Sample.flow 2 1 50 80 100)])).tick = .ok g₂ ∧
    ∀ fid f rid, g₁.flows.find? fid = some f → isScheduled f.state = true →
      g₁.resources.contains rid = true → g₁.crosses rid f = true →
      ∃ f₂, g₂.flows.find? fid = some f₂ ∧ f₂.spec = f.spec ∧
        f.spec.requestedMin.value - kEps ≤ f₂.granted ∧
        (0 < f.spec.requestedMin.value → f₂.state ≠ .named .preempted) := by
  have hreach : Reaches _ (Sample.start.after (Sample.oneLink ++
    [.submitFlow (Sample.flow 1 1 50 80 100), .submitFlow (Sample.flow 2 1 50 80 100)])) :=
    Sample.reaches rfl
  obtain ⟨g₁, g₂, hprep, htick, himp⟩ := tick_honours_minima hreach
  refine ⟨g₁, g₂, hprep, htick, himp fun rid r hr => ?_⟩
  have hfit : (match (Sample.start.after (Sample.oneLink ++
      [.submitFlow (Sample.flow 1 1 50 80 100),
        .submitFlow (Sample.flow 2 1 50 80 100)])).prepareTick with
    | .ok g₁ => g₁.resources.entries.all fun e =>
        decide (g₁.minimaOn e.1 ≤ max 0 (e.2.governed - e.2.reserved))
    | .error _ => false) = true := by decide +kernel
  rw [hprep] at hfit
  simpa using List.all_eq_true.mp hfit (rid, r) (Table.mem_of_find? hr)

/-- Whether a tick leaves a scheduled flow short of its minimum although on every registered
    resource the minima fit the governed capacity. -/
def Governor.shortfall (g : Governor) (fid : FlowId) : Bool :=
  match g.prepareTick, g.tick with
  | .ok g₁, .ok g₂ => (g₁.resources.entries.all fun e => decide (g₁.minimaOn e.1 ≤ e.2.governed)) &&
    match g₁.flows.find? fid, g₂.flows.find? fid with
    | some f, some f₂ =>
      isScheduled f.state && decide (f₂.granted < f.spec.requestedMin.value - kEps)
    | _, _ => false
  | _, _ => false

theorem Governor.shortfall_spec {g : Governor} {fid : FlowId} (h : g.shortfall fid = true) :
    ∃ g₁ g₂ f f₂, g.prepareTick = .ok g₁ ∧ g.tick = .ok g₂ ∧
      (∀ rid r, g₁.resources.find? rid = some r → g₁.minimaOn rid ≤ r.governed) ∧
      g₁.flows.find? fid = some f ∧ isScheduled f.state = true ∧ g₂.flows.find? fid = some f₂ ∧
      f₂.granted < f.spec.requestedMin.value - kEps := by
  unfold shortfall at h
  split at h
  · rename_i g₁ g₂ hprep htick
    rw [Bool.and_eq_true] at h
    obtain ⟨hfit, h⟩ := h
    split at h
    · rename_i f f₂ hf hf₂
      rw [Bool.and_eq_true, decide_eq_true_eq] at h
      refine ⟨g₁, g₂, f, f₂, hprep, htick, fun rid r hr => ?_, hf, h.1, hf₂, h.2⟩
      simpa using List.all_eq_true.mp hfit (rid, r) (Table.mem_of_find? hr)
    · cases h
  · cases h

/-- Governed capacity alone is not enough. First run: flow 1 was preempted while the link was down
    and still holds its reservation of the whole link, so flow 2 gets nothing. Second run: path 1
    was replaced by one over an unregistered link. -/
theorem tick_minima_short :
    (∃ es g g₁ g₂ f f₂, Reaches es g ∧ g.prepareTick = .ok g₁ ∧ g.tick = .ok g₂ ∧
      (∀ rid r, g₁.resources.find? rid = some r → g₁.minimaOn rid ≤ r.governed) ∧
      g = Sample.start.after (Sample.oneLink ++ [.submitFlow (Sample.flow 1 1 50 100 100),
        .submitFlow (Sample.flow 2 1 50 100 100), .tick, .setResourceEnabled ⟨0, 1⟩ false, .tick,
        .setResourceEnabled ⟨0, 1⟩ true, .resumeFlow ⟨0, 2⟩]) ∧
      g₁.flows.find? ⟨0, 2⟩ = some f ∧ isScheduled f.state = true ∧
      g₂.flows.find? ⟨0, 2⟩ = some f₂ ∧ f₂.granted < f.spec.requestedMin.value - kEps) ∧
    ∃ es g g₁ g₂ f f₂, Reaches es g ∧ g.prepareTick = .ok g₁ ∧ g.tick = .ok g₂ ∧
      (∀ rid r, g₁.resources.find? rid = some r → g₁.minimaOn rid ≤ r.governed) ∧
      g = Sample.start.after (Sample.oneLink ++ [.submitFlow (Sample.flow 1 1 50 100 100),
        .addPath (Sample.path 1 [2])]) ∧
      g₁.flows.find? ⟨0, 1⟩ = some f ∧ isScheduled f.state = true ∧
      g₂.flows.find? ⟨0, 1⟩ = some f₂ ∧ f₂.granted < f.spec.requestedMin.value - kEps := by
  constructor
  · have hs : (Sample.start.after (Sample.oneLink ++ [.submitFlow (Sample.flow 1 1 50 100 100),
        .submitFlow (Sample.flow 2 1 50 100 100), .tick, .setResourceEnabled ⟨0, 1⟩ false, .tick,
        .setResourceEnabled ⟨0, 1⟩ true, .resumeFlow ⟨0, 2⟩])).shortfall ⟨0, 2⟩ = true := by
      decide +kernel
    obtain ⟨g₁, g₂, f, f₂, hprep, htick, hfit, hf, hsch, hf₂, hlt⟩ := Governor.shortfall_spec hs
    exact ⟨_, _, g₁, g₂, f, f₂, Sample.reaches rfl, hprep, htick, hfit, rfl, hf, hsch, hf₂,
      hlt⟩
  · have hs : (Sample.start.after (Sample.oneLink ++ [.submitFlow (Sample.flow 1 1 50 100 100),
        .addPath (Sample.path 1 [2])])).shortfall ⟨0, 1⟩ = true := by decide +kernel
    obtain ⟨g₁, g₂, f, f₂, hprep, htick, hfit, hf, hsch, hf₂, hlt⟩ := Governor.shortfall_spec hs
    exact ⟨_, _, g₁, g₂, f, f₂, Sample.reaches rfl, hprep, htick, hfit, rfl, hf, hsch, hf₂,
      hlt⟩

end BG
