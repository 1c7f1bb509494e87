import Mathlib
import BandwidthGovernor.Governor.Guarantees

/-! Admission against minimum guarantees.

    `submit_flow` measures what is free on a hop as governed less `reserved` less `allocated`. A
    Reserved flow is in neither figure, and a moving flow is in `allocated` at its grant, which may
    be below its minimum: what such flows were promised counts as free. -/

namespace BG

open Lib

namespace Governor

/-! ### The hop scan -/

theorem scanHops_feasible {g : Governor} {m : ℚ} : ∀ {hops : List PathHop} {s : Scan},
    (g.scanHops m s hops).feasible = true → s.feasible = true ∧ ∀ hop ∈ hops, ∃ r,
      g.resources.find? hop.resource = some r ∧ m ≤ availability r + kEps
  | [], s, h => ⟨h, by simp⟩
  | hop :: hops, s, h => by
    unfold scanHops at h
    cases hr : g.resources.find? hop.resource with
    | none => rw [hr] at h; cases h
    | some r =>
      rw [hr] at h
      obtain ⟨hs, hrest⟩ := scanHops_feasible h
      simp only [Bool.and_eq_true, Bool.not_eq_true', decide_eq_false_iff_not, not_lt] at hs
      exact ⟨hs.1, List.forall_mem_cons.mpr ⟨⟨r, hr, hs.2⟩, hrest⟩⟩

theorem scanned_find? (g : Governor) (rid : ResourceId) : g.scanned.resources.find? rid =
    (g.resources.find? rid).map fun r => { r with
      governed := g.governedNow r, reserved := g.reservedOn rid
      allocated := g.allocatedOn rid } := by
  have hres : g.recomputeGoverned.reservedOn rid = g.reservedOn rid := rfl
  have hall : g.recomputeGoverned.recomputeReserved.allocatedOn rid = g.allocatedOn rid := rfl
  simp only [scanned, recomputeAllocated_find?, recomputeReserved_find?, recomputeGoverned_find?,
    Option.map_map, Function.comp_def, hres, hall]

theorem countSubmission_paths (g : Governor) (spec : FlowSpec) :
    (g.scanned.countSubmission spec).paths = g.paths := rfl

/-! ### Minima before and after -/

/-- Whether the figures of `submit_flow` account for the minimum of a scheduled flow. -/
def counted (f : FlowRT) : Bool :=
  decide (f.spec.requestedMin.value = 0) ||
    isMoving f.state && decide (f.spec.requestedMin.value ≤ f.granted)

/-- Where every flow is counted, the minima are part of what is allocated. -/
theorem minimaOn_le_allocated {g : Governor} {rid : ResourceId}
    (h : ∀ fid f, g.flows.find? fid = some f → isScheduled f.state = true →
      g.crosses rid f = true → counted f = true) : g.minimaOn rid ≤ g.allocatedOn rid := by
  have hsum : g.allocatedOn rid = g.flows.sum fun _ f =>
      if isMoving f.state && !decide (f.granted ≤ 0) then g.crossings rid f * f.granted else 0 := by
    simp only [allocatedOn, Table.sum, Table.vals, List.map_map, Function.comp_def]
  rw [hsum]
  refine Table.sum_le_sum fun fid f hf => ?_
  have hnn : 0 ≤ if isMoving f.state && !decide (f.granted ≤ 0) then
      g.crossings rid f * f.granted else 0 := by
    split
    · rename_i hd
      simp only [Bool.and_eq_true, Bool.not_eq_true', decide_eq_false_iff_not, not_le] at hd
      exact mul_nonneg (Nat.cast_nonneg _) hd.2.le
    · exact le_refl _
  by_cases hs : (isScheduled f.state && g.crosses rid f) = true
  · rw [if_pos hs]
    rw [Bool.and_eq_true] at hs
    have hc := h fid f (Table.find?_of_mem hf) hs.1 hs.2
    simp only [counted, Bool.or_eq_true, Bool.and_eq_true, decide_eq_true_eq] at hc
    rcases hc with h0 | ⟨hm, hle⟩
    · rw [h0]; exact hnn
    · by_cases hg : f.granted ≤ 0
      · exact (hle.trans hg).trans hnn
      · have hone : (1 : ℚ) ≤ g.crossings rid f :=
          Nat.one_le_cast.mpr (List.count_pos_iff.mpr (of_decide_eq_true hs.2))
        rw [if_pos (by simp [hm, hg])]
        exact hle.trans (le_mul_of_one_le_left (not_le.mp hg).le hone)
  · rw [if_neg hs]; exact hnn

theorem minimaOn_admitted {g : Governor} {spec : FlowSpec} {path : Path} {c : Capacity}
    (hnew : g.flows.find? spec.id = none) (hp : g.paths.find? spec.path = some path)
    {rid : ResourceId} (hrid : rid ∈ path.resources) :
    (g.admitted spec path.hops c).recomputeUsage.minimaOn rid =
      g.minimaOn rid + spec.requestedMin.value := by
  have hcross : ∀ f : FlowRT, (g.admitted spec path.hops c).recomputeUsage.crosses rid f =
      g.crosses rid f := fun f => crosses_congr rfl rfl rid
  have hself : ∀ t v r, g.crosses rid (reservedFlow spec t v r) = true := fun t v r => by
    have : g.hopsOf (reservedFlow spec t v r) = path.hops := by
      unfold hopsOf
      rw [show g.paths.find? (reservedFlow spec t v r).spec.path = some path from hp]
    rw [crosses, this, decide_eq_true_eq]
    exact hrid
  have hflows : (g.admitted spec path.hops c).recomputeUsage.flows = g.flows.insert spec.id
      (reservedFlow spec g.now c.value g.gen.next.1) := rfl
  simp only [minimaOn, hcross, hflows]
  rw [Table.sum_insert_new hnew]
  simp only [hself, Bool.and_true]
  rfl

/-! ### Submissions -/

/-- On every registered resource the minima of the scheduled flows fit the governed capacity of the
    current clock. -/
def MinimaFit (g : Governor) : Prop :=
  ∀ rid r, g.resources.find? rid = some r → g.minimaOn rid ≤ g.governedNow r

/-- A spec promises nothing new (it is refused, its id is known or its minimum is zero), or every
    scheduled flow that shares a resource with its path is counted. -/
def countedFor (g : Governor) (spec : FlowSpec) : Bool :=
  (validateFlowSpec spec).isSome || g.flows.contains spec.id ||
    decide (spec.requestedMin.value = 0) ||
    match g.paths.find? spec.path with
    | none => true
    | some path => g.flows.vals.all fun f =>
        !isScheduled f.state || !(path.resources.any fun rid => g.crosses rid f) || counted f

/-- For a spec that is admitted: its minimum is zero or the flows on its path are counted. -/
theorem countedFor_spec {g : Governor} {spec : FlowSpec} (h : g.countedFor spec = true)
    (hv : validateFlowSpec spec = none) (hnew : g.flows.find? spec.id = none) {path : Path}
    (hp : g.paths.find? spec.path = some path) {rid : ResourceId} (hrid : rid ∈ path.resources) :
    spec.requestedMin.value = 0 ∨ ∀ fid f, g.flows.find? fid = some f →
      isScheduled f.state = true → g.crosses rid f = true → counted f = true := by
  have hid : g.flows.contains spec.id = false := by simp [Table.contains, hnew]
  simp only [countedFor, hv, hid, hp, Option.isSome_none, Bool.false_or, Bool.or_eq_true,
    decide_eq_true_eq] at h
  refine h.imp_right fun hall fid f hf hs hc => ?_
  have hthis := List.all_eq_true.mp hall f
    (List.mem_map_of_mem (f := Prod.snd) (Table.mem_of_find? hf))
  have hany : (path.resources.any fun rid => g.crosses rid f) = true :=
    List.any_eq_true.mpr ⟨rid, hrid, hc⟩
  simpa [hs, hany] using hthis

/-- One hop of an admission: what the scan found free covers the new minimum. -/
theorem fits_of_available {r : ResRT} {minima m : ℚ} (havail : m ≤ availability r + kEps)
    (hres : 0 ≤ r.reserved) (hcount : minima ≤ r.allocated) (hfit : minima ≤ r.governed) :
    minima + m ≤ r.governed + kEps := by
  unfold availability at havail
  split at havail
  · linarith
  · linarith

/-- What an admission does to the figures a promise depends on. -/
theorem admitted_figures {g : Governor} {spec : FlowSpec} {path : Path} {c : Capacity}
    (hnew : g.flows.find? spec.id = none) (hp : g.paths.find? spec.path = some path)
    {rid : ResourceId} (hrid : rid ∈ path.resources) {r : ResRT}
    (hr : g.resources.find? rid = some r) :
    ((g.scanned.countSubmission spec).admitted spec path.hops c).recomputeUsage.minimaOn rid =
        g.minimaOn rid + spec.requestedMin.value ∧
      ∃ r', ((g.scanned.countSubmission spec).admitted spec path.hops
        c).recomputeUsage.resources.find? rid = some r' ∧ r'.governed = g.governedNow r := by
  have hflows : (g.scanned.countSubmission spec).flows = g.flows := rfl
  have hpaths : (g.scanned.countSubmission spec).paths = g.paths := rfl
  have hresources : ((g.scanned.countSubmission spec).admitted spec path.hops c).resources =
    g.scanned.resources := rfl
  have hminima : (g.scanned.countSubmission spec).minimaOn rid = g.minimaOn rid := rfl
  constructor
  · rw [minimaOn_admitted (hflows ▸ hnew) (hpaths ▸ hp) hrid, hminima]
  · rw [recomputeUsage_find?, hresources, scanned_find?, hr]
    exact ⟨_, rfl, rfl⟩

/-- When every flow on the path is counted, an admission keeps the minima within the governed
    capacity. -/
theorem submitFlow_fits {g : Governor} {spec : FlowSpec}
    (hcount : g.countedFor spec = true) (hfit : g.MinimaFit) {g' : Governor} {res : AdmissionResult}
    (hok : g.submitFlow spec = .ok (g', res)) (hadm : res.admitted = true) {path : Path}
    (hpath : g'.paths.find? spec.path = some path) {rid : ResourceId}
    (hrid : rid ∈ path.resources) :
    ∃ r, g'.resources.find? rid = some r ∧ g'.minimaOn rid ≤ r.governed + kEps := by
  obtain ⟨g'', res', hok', hs⟩ := g.submitFlow_spec spec
  rw [hok, Except.ok.injEq, Prod.mk.injEq] at hok'
  obtain ⟨rfl, rfl⟩ := hok'
  rw [hadm] at hs
  cases hs with
  | admitted p c hv hnew hp hfeas _ =>
    have hpaths : ((g.scanned.countSubmission spec).admitted spec p.hops c).recomputeUsage.paths =
      (g.scanned.countSubmission spec).paths := rfl
    rw [hpaths, countSubmission_paths, hp, Option.some.injEq] at hpath
    subst hpath
    obtain ⟨hop, hhop, rfl⟩ := List.mem_map.mp hrid
    obtain ⟨r, hr, havail⟩ := (scanHops_feasible hfeas).2 hop hhop
    rw [scanned_find?] at hr
    obtain ⟨r₀, hr₀, rfl⟩ := Option.map_eq_some_iff.mp hr
    obtain ⟨hsum, r', hr', hgov⟩ := admitted_figures (c := c) hnew hp hrid hr₀
    refine ⟨r', hr', ?_⟩
    rw [hsum, hgov]
    rcases countedFor_spec hcount hv hnew hp hrid with hzero | hall
    · rw [hzero, add_zero]
      exact (hfit _ r₀ hr₀).trans (le_add_of_nonneg_right kEps_pos.le)
    · exact fits_of_available havail (reservedOn_nonneg g hop.resource)
        (minimaOn_le_allocated hall) (hfit _ r₀ hr₀)

/-- What a submission in a run may assume: the flows on its path are counted. -/
def submitsCounted (g : Governor) : Event → Bool
  | .call (.submitFlow spec) => g.countedFor spec
  | _ => true

/-- What a submission in a run achieves: minima that fit still do on the hops of an admitted
    flow. -/
def SubmitsSafely (g : Governor) : Event → Governor → Prop
  | .call (.submitFlow spec), g' => g.MinimaFit →
    (∃ res, g.submitFlow spec = .ok (g', res) ∧ res.admitted = true) →
      ∀ path, g'.paths.find? spec.path = some path → ∀ rid ∈ path.resources, ∃ r,
        g'.resources.find? rid = some r ∧ g'.minimaOn rid ≤ r.governed + kEps
  | _, _ => True

theorem submitsSafely_of_counted {g g' : Governor} {e : Event}
    (hcount : g.submitsCounted e = true) : g.SubmitsSafely e g' := by
  unfold SubmitsSafely
  split
  · rintro hfit ⟨res, hok, hadm⟩ path hpath rid hrid
    exact submitFlow_fits hcount hfit hok hadm hpath hrid
  · trivial

end Governor

/-- In every run, restorations included, a submission that finds the flows on its path counted does
    not overcommit the minimum guarantees. -/
theorem submissions_never_overcommit {g₀ g : Governor} {es : List Event}
    (hrun : Lib.Run Governor.Step g₀ es g) : Lib.Run (fun g e g' => g.Step e g' ∧
      (g.submitsCounted e = true → g.SubmitsSafely e g')) g₀ es g :=
  hrun.mono fun _ _ _ hstep => ⟨hstep, Governor.submitsSafely_of_counted⟩

namespace Sample

/-- Two submissions with a tick between them. -/
def spaced : List Op :=
  oneLink ++ [.submitFlow (flow 1 1 80 90 100), .tick, .submitFlow (flow 2 1 10 10 10)]

end Sample

/-- The theorem at two submissions with a tick between them, which both meet the condition. -/
theorem submissions_never_overcommit_spaced :
    Sample.start.checks Governor.submitsCounted Sample.spaced = true ∧
    Lib.Run (fun g e g' => g.Step e g' ∧ (g.submitsCounted e = true → g.SubmitsSafely e g'))
      Sample.start (Sample.spaced.map Event.call) (Sample.start.after Sample.spaced) :=
  ⟨by decide +kernel, submissions_never_overcommit (Governor.run_after _ _)⟩

/-- Whether a submission is admitted over a resource whose minima then exceed its governed capacity,
    although all minima fitted before. -/
def Governor.overpromises (g : Governor) (spec : FlowSpec) (rid : ResourceId) : Bool :=
  (g.resources.entries.all fun e => decide (g.minimaOn e.1 ≤ g.governedNow e.2)) &&
    match g.submitFlow spec with
    | .error _ => false
    | .ok (g', res) => res.admitted &&
      match g'.paths.find? spec.path, g'.resources.find? rid with
      | some path, some r =>
        decide (rid ∈ path.resources) && decide (r.governed + kEps < g'.minimaOn rid)
      | _, _ => false

theorem Governor.overpromises_spec {g : Governor} {spec : FlowSpec} {rid : ResourceId}
    (h : g.overpromises spec rid = true) : g.MinimaFit ∧ ∃ g' res path r,
      g.submitFlow spec = .ok (g', res) ∧ res.admitted = true ∧
      g'.paths.find? spec.path = some path ∧ rid ∈ path.resources ∧
      g'.resources.find? rid = some r ∧ r.governed + kEps < g'.minimaOn rid := by
  unfold overpromises at h
  rw [Bool.and_eq_true] at h
  obtain ⟨hall, h⟩ := h
  refine ⟨fun rid r hr => ?_, ?_⟩
  · simpa using List.all_eq_true.mp hall (rid, r) (Table.mem_of_find? hr)
  · split at h
    · cases h
    · rename_i g' res hok
      rw [Bool.and_eq_true] at h
      obtain ⟨hadm, h⟩ := h
      split at h
      · rename_i path r hp hr
        rw [Bool.and_eq_true, decide_eq_true_eq, decide_eq_true_eq] at h
        exact ⟨g', res, path, r, hok, hadm, hp, h.1, hr, h.2⟩
      · cases h

/-- Two flows of minimum 80 are both admitted to a link of 100: the first is Reserved, so it is in
    neither figure. -/
theorem submitFlow_overcommits : ∃ es g g' res path r, Reaches es g ∧
    g = Sample.start.after (Sample.oneLink ++ [.submitFlow (Sample.flow 1 1 80 90 100)]) ∧
    g.MinimaFit ∧ g.submitFlow (Sample.flow 2 1 80 90 100) = .ok (g', res) ∧ res.admitted = true ∧
    g'.paths.find? ⟨0, 1⟩ = some path ∧ ⟨0, 1⟩ ∈ path.resources ∧
    g'.resources.find? ⟨0, 1⟩ = some r ∧ r.governed + kEps < g'.minimaOn ⟨0, 1⟩ := by
  have ho : (Sample.start.after (Sample.oneLink ++
      [.submitFlow (Sample.flow 1 1 80 90 100)])).overpromises (Sample.flow 2 1 80 90 100)
        ⟨0, 1⟩ = true := by decide +kernel
  obtain ⟨hfit, g', res, path, r, hok, hadm, hp, hmem, hr, hlt⟩ := Governor.overpromises_spec ho
  exact ⟨_, _, g', res, path, r, Sample.reaches rfl, rfl, hfit, hok, hadm, hp, hmem, hr, hlt⟩

end BG
