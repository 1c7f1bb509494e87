import Mathlib
import BandwidthGovernor.Governor.Queries
import BandwidthGovernor.Governor.Admission

/-! The admission preview against admission.

    `explain_admission` repeats the checks of `submit_flow` by hand. It reads the figures as they
    are stored, passes over hops that are not registered, does not look for the flow id and knows
    nothing of the reject policy. Both come down to what is free on the hops, so they are compared
    there. -/

namespace BG

open Lib

namespace Governor

/-! ### What is free on a path -/

/-- What the stored figures leave free. -/
def storedFree (_ : ResourceId) (r : ResRT) : ℚ := max 0 (r.governed - r.reserved - r.allocated)

/-- What the tables and the clock leave free now. -/
def freeNow (g : Governor) (rid : ResourceId) (r : ResRT) : ℚ :=
  max 0 (g.governedNow r - g.reservedOn rid - g.allocatedOn rid)

/-- The least that is free on a registered hop. -/
def tightest (g : Governor) (free : ResourceId → ResRT → ℚ) : ℚ → List PathHop → ℚ
  | b, [] => b
  | b, hop :: hops =>
    match g.resources.find? hop.resource with
    | none => g.tightest free b hops
    | some r => g.tightest free (min b (free hop.resource r)) hops

/-- The minimum fits on every registered hop. -/
def Fits (g : Governor) (free : ResourceId → ResRT → ℚ) (minimum : ℚ)
    (hops : List PathHop) : Prop :=
  ∀ hop ∈ hops, ∀ r, g.resources.find? hop.resource = some r → minimum ≤ free hop.resource r + kEps

/-- Every hop is registered. -/
def Registered (g : Governor) (hops : List PathHop) : Prop :=
  ∀ hop ∈ hops, ∃ r, g.resources.find? hop.resource = some r

theorem Fits.cons_iff {g : Governor} {free : ResourceId → ResRT → ℚ} {minimum : ℚ} {hop : PathHop}
    {hops : List PathHop} : g.Fits free minimum (hop :: hops) ↔
      (∀ r, g.resources.find? hop.resource = some r → minimum ≤ free hop.resource r + kEps) ∧
        g.Fits free minimum hops := List.forall_mem_cons

/-! ### The two scans -/

theorem previewHop_some {g : Governor} {hop : PathHop} {r : ResRT}
    (hr : g.resources.find? hop.resource = some r) (minimum : ℚ) (s : Scan) :
    ((g.previewHop minimum s hop).feasible = true ↔
      s.feasible = true ∧ minimum ≤ storedFree hop.resource r + kEps) ∧
    (g.previewHop minimum s hop).bottleneckAvail =
      min s.bottleneckAvail (storedFree hop.resource r) := by
  unfold previewHop
  rw [hr]
  dsimp only
  rw [show max 0 (r.governed - r.reserved - r.allocated) = storedFree hop.resource r from rfl]
  generalize storedFree hop.resource r = avail
  constructor
  · split <;> split <;> simp_all
  · split <;> split <;> simp_all [min_def]

/-- The loop of the preview. -/
theorem previewHop_foldl (g : Governor) (minimum : ℚ) : ∀ (hops : List PathHop) (s : Scan),
    ((hops.foldl (g.previewHop minimum) s).feasible = true ↔
      s.feasible = true ∧ g.Fits storedFree minimum hops) ∧
    (hops.foldl (g.previewHop minimum) s).bottleneckAvail =
      g.tightest storedFree s.bottleneckAvail hops
  | [], s => ⟨by simp [Fits], rfl⟩
  | hop :: hops, s => by
    obtain ⟨hf, hb⟩ := previewHop_foldl g minimum hops (g.previewHop minimum s hop)
    rw [List.foldl_cons, hf, hb, Fits.cons_iff, tightest]
    cases hr : g.resources.find? hop.resource with
    | none => simp [previewHop, hr]
    | some r =>
      obtain ⟨hf₁, hb₁⟩ := previewHop_some hr minimum s
      rw [hf₁, hb₁]
      simp [and_assoc]

theorem availability_eq (r : ResRT) :
    availability r = max 0 (r.governed - r.reserved - r.allocated) := by
  unfold availability
  split
  · rename_i h
    exact (max_eq_left h.le).symm
  · rename_i h
    exact (max_eq_right (not_lt.mp h)).symm

theorem scanned_find?_some {g : Governor} {rid : ResourceId} {r : ResRT}
    (hr : g.resources.find? rid = some r) : ∃ r', g.scanned.resources.find? rid = some r' ∧
      availability r' = g.freeNow rid r := by
  rw [scanned_find?, hr]
  exact ⟨_, rfl, availability_eq _⟩

/-- The loop of a submission, over refreshed figures. -/
theorem scanHops_scanned (g : Governor) (minimum : ℚ) : ∀ (hops : List PathHop) (s : Scan),
    ((g.scanned.scanHops minimum s hops).feasible = true ↔
      s.feasible = true ∧ g.Registered hops ∧ g.Fits g.freeNow minimum hops) ∧
    (g.Registered hops → (g.scanned.scanHops minimum s hops).bottleneckAvail =
      g.tightest g.freeNow s.bottleneckAvail hops)
  | [], s => ⟨by simp [Fits, Registered, scanHops], fun _ => rfl⟩
  | hop :: hops, s => by
    rw [scanHops, Fits.cons_iff, tightest, Registered, List.forall_mem_cons]
    cases hr : g.resources.find? hop.resource with
    | none =>
      have hs : g.scanned.resources.find? hop.resource = none := by rw [scanned_find?, hr]; rfl
      rw [hs]
      simp
    | some r =>
      obtain ⟨r', hr', havail⟩ := scanned_find?_some hr
      rw [hr']
      dsimp only
      rw [havail]
      obtain ⟨hf, hb⟩ := scanHops_scanned g minimum hops
        { feasible := s.feasible && !decide (g.freeNow hop.resource r + kEps < minimum)
          bottleneckAvail := if g.freeNow hop.resource r < s.bottleneckAvail then
            g.freeNow hop.resource r else s.bottleneckAvail
          bottleneck := if g.freeNow hop.resource r < s.bottleneckAvail then
            some hop.resource else s.bottleneck }
      constructor
      · rw [hf, Registered]
        simp only [Bool.and_eq_true, Bool.not_eq_true', decide_eq_false_iff_not, not_lt,
          Option.some.injEq, forall_eq', exists_eq', true_and]
        tauto
      · rintro ⟨-, hreg⟩
        rw [hb hreg]
        congr 1
        exact (min_def_lt _ _).symm.trans (min_comm _ _)

/-! ### The two decisions -/

/-- The grant of a feasible admission is the same function of what is free. -/
theorem initialGrant_eq {spec : FlowSpec} (h : spec.Envelope) (avail : ℚ) :
    clamp (min (min spec.requestedPreferred.value spec.requestedMax.value) avail)
      spec.requestedMin.value spec.requestedMax.value = initialGrant spec avail := by
  have hle : spec.requestedMin.value ≤ spec.requestedMax.value := h.min_le.trans h.le_max
  unfold initialGrant
  dsimp only
  split
  · rename_i hlt
    rw [clamp_of_mem (le_refl _) hle, clamp, if_pos hlt]
  · rfl

/-- The initial grant is what is free, between the minimum and the preferred rate. -/
theorem initialGrant_eq_max {spec : FlowSpec} (h : spec.Envelope) (avail : ℚ) :
    initialGrant spec avail =
      max spec.requestedMin.value (min spec.requestedPreferred.value avail) := by
  have hle : spec.requestedMin.value ≤ spec.requestedMax.value := h.min_le.trans h.le_max
  have hpref : min spec.requestedPreferred.value spec.requestedMax.value =
      spec.requestedPreferred.value := min_eq_left h.le_max
  unfold initialGrant
  dsimp only
  rw [hpref]
  split
  · rename_i hlt
    rw [clamp_of_mem (le_refl _) hle, max_eq_left hlt.le]
  · rename_i hge
    rw [not_lt] at hge
    rw [clamp_of_mem hge ((min_le_left _ _).trans h.le_max), max_eq_right hge]

/-- Two free rates that are the same to a spec: they are equal, both leave room for the preferred
    rate, both are used up by the minimum, or the spec leaves no choice between the two. -/
def AlikeFor (spec : FlowSpec) (a b : ℚ) : Prop :=
  a = b ∨ spec.requestedPreferred.value ≤ a ∧ spec.requestedPreferred.value ≤ b ∨
    a ≤ spec.requestedMin.value ∧ b ≤ spec.requestedMin.value ∨
    spec.requestedMin.value = spec.requestedPreferred.value

theorem max_min_eq_iff {m p a b : ℚ} (h : m ≤ p) :
    max m (min p a) = max m (min p b) ↔ a = b ∨ p ≤ a ∧ p ≤ b ∨ a ≤ m ∧ b ≤ m ∨ m = p := by
  constructor
  · intro heq
    rcases le_total p a with ha | ha <;> rcases le_total p b with hb | hb
    · exact Or.inr (Or.inl ⟨ha, hb⟩)
    · rw [min_eq_left ha, min_eq_right hb, max_eq_right h] at heq
      grind
    · rw [min_eq_right ha, min_eq_left hb, max_eq_right h] at heq
      grind
    · rw [min_eq_right ha, min_eq_right hb] at heq
      grind
  · rintro (rfl | ⟨ha, hb⟩ | ⟨ha, hb⟩ | rfl)
    · rfl
    · rw [min_eq_left ha, min_eq_left hb]
    · rw [min_eq_right (ha.trans h), min_eq_right (hb.trans h), max_eq_left ha, max_eq_left hb]
    · rw [max_eq_left (min_le_left _ _), max_eq_left (min_le_left _ _)]

theorem initialGrant_eq_iff {spec : FlowSpec} (h : spec.Envelope) {a b : ℚ} :
    initialGrant spec a = initialGrant spec b ↔ AlikeFor spec a b := by
  rw [initialGrant_eq_max h, initialGrant_eq_max h, max_min_eq_iff h.min_le, AlikeFor]

/-- Kind and granted rate of a decision. -/
def verdict (d : Decision) : Coded DecisionKind × Capacity := (d.kind, d.granted)

theorem explainAdmission_spec {g : Governor} {spec : FlowSpec} (hv : validateFlowSpec spec = none)
    {path : Path} (hp : g.paths.find? spec.path = some path) :
    ∃ d, g.explainAdmission spec = .ok d ∧
      (g.Fits storedFree spec.requestedMin.value path.hops → ∃ c : Capacity,
        c.value = initialGrant spec (g.tightest storedFree kMaxRate path.hops) ∧
          verdict d = (.named .admits, c)) ∧
      (¬ g.Fits storedFree spec.requestedMin.value path.hops →
        verdict d = (.named .defer, .zero)) := by
  obtain ⟨hf, hb⟩ := g.previewHop_foldl spec.requestedMin.value path.hops {}
  have havail : (path.hops.foldl (g.previewHop spec.requestedMin.value) {}).bottleneckAvail =
      g.tightest storedFree kMaxRate path.hops := hb
  unfold explainAdmission
  rw [hv, hp]
  dsimp only
  by_cases hfit : g.Fits storedFree spec.requestedMin.value path.hops
  · obtain ⟨c, hc⟩ := initialGrant_capacity (validateFlowSpec_envelope hv)
      (g.tightest storedFree kMaxRate path.hops)
    rw [if_neg (by simp [hf.mpr ⟨rfl, hfit⟩]), havail,
      initialGrant_eq (validateFlowSpec_envelope hv), ← hc, Capacity.make_value]
    exact ⟨_, rfl, fun _ => ⟨c, rfl, rfl⟩, fun h => absurd hfit h⟩
  · have hno : (path.hops.foldl (g.previewHop spec.requestedMin.value) {}).feasible = false := by
      rw [← Bool.not_eq_true, hf]
      exact fun h => hfit h.2
    rw [if_pos (by rw [hno]; rfl)]
    exact ⟨_, rfl, fun h => absurd h hfit, fun _ => rfl⟩

theorem parkFlow_verdict (g : Governor) (spec : FlowSpec) (scan : Scan) :
    verdict (g.parkFlow spec scan).2.decision =
      (.named (if g.policy.rejectIfNoSlack then .reject else .defer), .zero) := by
  unfold parkFlow
  dsimp only
  cases g.policy.rejectIfNoSlack <;> rfl

theorem submitFlow_verdict {g : Governor} {spec : FlowSpec} (hv : validateFlowSpec spec = none)
    (hnew : g.flows.find? spec.id = none) {path : Path}
    (hp : g.paths.find? spec.path = some path) :
    ∃ g' res, g.submitFlow spec = .ok (g', res) ∧
      (g.Registered path.hops ∧ g.Fits g.freeNow spec.requestedMin.value path.hops →
        ∃ c : Capacity, c.value = initialGrant spec (g.tightest g.freeNow kMaxRate path.hops) ∧
          verdict res.decision = (.named .admits, c)) ∧
      (¬ (g.Registered path.hops ∧ g.Fits g.freeNow spec.requestedMin.value path.hops) →
        verdict res.decision =
          (.named (if g.policy.rejectIfNoSlack then .reject else .defer), .zero)) := by
  obtain ⟨hf, hb⟩ := g.scanHops_scanned spec.requestedMin.value path.hops {}
  have hfeas : (g.scanFor spec path).feasible = true ↔
      g.Registered path.hops ∧ g.Fits g.freeNow spec.requestedMin.value path.hops :=
    hf.trans (and_iff_right rfl)
  have hdup : ¬ g.flows.contains spec.id = true := by simp [Table.contains, hnew]
  unfold submitFlow
  rw [hv]
  dsimp only
  rw [if_neg hdup, hp]
  change ∃ g' res, (if (g.scanFor spec path).feasible = true then
      (g.scanned.countSubmission spec).reserveFlow spec path.hops (g.scanFor spec path)
    else .ok ((g.scanned.countSubmission spec).parkFlow spec (g.scanFor spec path))) = _ ∧ _
  by_cases hfit : g.Registered path.hops ∧ g.Fits g.freeNow spec.requestedMin.value path.hops
  · rw [if_pos (hfeas.mpr hfit)]
    have havail : (g.scanFor spec path).bottleneckAvail =
        g.tightest g.freeNow kMaxRate path.hops := hb hfit.1
    obtain ⟨c, hc⟩ := initialGrant_capacity (validateFlowSpec_envelope hv)
      (g.tightest g.freeNow kMaxRate path.hops)
    unfold reserveFlow
    simp only [havail, ← hc, mintReservation_ok, Capacity.make_value]
    exact ⟨_, _, rfl, fun _ => ⟨c, rfl, rfl⟩, fun h => absurd hfit h⟩
  · rw [if_neg fun h => hfit (hfeas.mp h)]
    exact ⟨_, _, rfl, fun h => absurd h hfit,
      fun _ => parkFlow_verdict (g.scanned.countSubmission spec) spec (g.scanFor spec path)⟩

theorem submitFlow_duplicate {g : Governor} {spec : FlowSpec} (hv : validateFlowSpec spec = none)
    {f : FlowRT} (hf : g.flows.find? spec.id = some f) :
    ∃ res, g.submitFlow spec = .ok (g, res) ∧ verdict res.decision = (.named .reject, .zero) := by
  have hdup : g.flows.contains spec.id = true := by simp [Table.contains, hf]
  unfold submitFlow
  rw [hv]
  dsimp only
  rw [if_pos hdup]
  exact ⟨_, rfl, rfl⟩

/-! ### Agreement -/

/-- The preview reports the decision kind and the granted rate that the submission then returns. -/
def PreviewAgrees (g : Governor) (spec : FlowSpec) : Prop :=
  ∃ d g' res, g.explainAdmission spec = .ok d ∧ g.submitFlow spec = .ok (g', res) ∧
    verdict d = verdict res.decision

/-- The spec is refused before any figure is read; or its id is new, and either the minimum fits on
    every hop, all of them registered, by the stored figures and by those of now, and what is free
    on the tightest hop is alike by the two, or the minimum fits by neither and infeasible flows are
    not rejected. -/
def PreviewHolds (g : Governor) (spec : FlowSpec) : Prop :=
  validateFlowSpec spec ≠ none ∨ g.paths.find? spec.path = none ∨
  ∃ path, g.paths.find? spec.path = some path ∧ g.flows.find? spec.id = none ∧
    (g.Fits storedFree spec.requestedMin.value path.hops ∧
        (g.Registered path.hops ∧ g.Fits g.freeNow spec.requestedMin.value path.hops) ∧
        AlikeFor spec (g.tightest storedFree kMaxRate path.hops)
          (g.tightest g.freeNow kMaxRate path.hops) ∨
      ¬ g.Fits storedFree spec.requestedMin.value path.hops ∧
        ¬ (g.Registered path.hops ∧ g.Fits g.freeNow spec.requestedMin.value path.hops) ∧
        g.policy.rejectIfNoSlack = false)

theorem preview_refused {g : Governor} {spec : FlowSpec}
    (h : validateFlowSpec spec ≠ none ∨ g.paths.find? spec.path = none) : g.PreviewAgrees spec := by
  unfold PreviewAgrees explainAdmission submitFlow
  cases hv : validateFlowSpec spec with
  | some err => exact ⟨_, _, _, rfl, rfl, rfl⟩
  | none =>
    rw [h.resolve_left (fun hn => hn hv)]
    dsimp only
    split
    · exact ⟨_, _, _, rfl, rfl, rfl⟩
    · exact ⟨_, _, _, rfl, rfl, rfl⟩

/-- Two admitting decisions agree when they grant the same rate. -/
theorem verdict_admits_iff {c c' : Capacity} :
    ((Coded.named DecisionKind.admits, c) : Coded DecisionKind × Capacity) = (.named .admits, c') ↔
      c.value = c'.value := by
  rw [Prod.mk.injEq]
  constructor
  · rintro ⟨-, rfl⟩
    rfl
  · intro h
    cases c
    cases c'
    cases h
    exact ⟨rfl, rfl⟩

/-- A valid spec on a known path: what the preview finds against what the submission finds. -/
theorem preview_agrees_of_path {g : Governor} {spec : FlowSpec} (hv : validateFlowSpec spec = none)
    {path : Path} (hp : g.paths.find? spec.path = some path) :
    g.PreviewAgrees spec ↔ g.PreviewHolds spec := by
  obtain ⟨d, hd, hfit, hnot⟩ := explainAdmission_spec hv hp
  have hholds : g.PreviewHolds spec ↔ g.flows.find? spec.id = none ∧
      (g.Fits storedFree spec.requestedMin.value path.hops ∧
          (g.Registered path.hops ∧ g.Fits g.freeNow spec.requestedMin.value path.hops) ∧
          AlikeFor spec (g.tightest storedFree kMaxRate path.hops)
            (g.tightest g.freeNow kMaxRate path.hops) ∨
        ¬ g.Fits storedFree spec.requestedMin.value path.hops ∧
          ¬ (g.Registered path.hops ∧ g.Fits g.freeNow spec.requestedMin.value path.hops) ∧
          g.policy.rejectIfNoSlack = false) := by
    unfold PreviewHolds
    simp [hv, hp]
  rw [hholds]
  cases hid : g.flows.find? spec.id with
  | some f =>
    obtain ⟨res, hs, hrej⟩ := submitFlow_duplicate hv hid
    refine iff_of_false ?_ (fun h => by cases h.1)
    rintro ⟨d', g', res', hd', hs', heq⟩
    rw [hd, Except.ok.injEq] at hd'
    rw [hs, Except.ok.injEq, Prod.mk.injEq] at hs'
    rw [← hd', ← hs'.2, hrej] at heq
    by_cases hf : g.Fits storedFree spec.requestedMin.value path.hops
    · obtain ⟨c, -, hc⟩ := hfit hf
      rw [hc] at heq
      cases heq
    · rw [hnot hf] at heq
      cases heq
  | none =>
    obtain ⟨g₁, res, hs, hnow, hnever⟩ := submitFlow_verdict hv hid hp
    have hagree : g.PreviewAgrees spec ↔ verdict d = verdict res.decision := by
      constructor
      · rintro ⟨d', g', res', hd', hs', heq⟩
        rw [hd, Except.ok.injEq] at hd'
        rw [hs, Except.ok.injEq, Prod.mk.injEq] at hs'
        rwa [← hd', ← hs'.2] at heq
      · exact fun heq => ⟨d, g₁, res, hd, hs, heq⟩
    rw [hagree]
    by_cases hf : g.Fits storedFree spec.requestedMin.value path.hops
    · obtain ⟨c, hcv, hc⟩ := hfit hf
      by_cases hn : g.Registered path.hops ∧ g.Fits g.freeNow spec.requestedMin.value path.hops
      · obtain ⟨c', hcv', hc'⟩ := hnow hn
        rw [hc, hc', verdict_admits_iff, hcv, hcv',
          initialGrant_eq_iff (validateFlowSpec_envelope hv)]
        simp [hf, hn]
      · rw [hc, hnever hn]
        refine iff_of_false (fun h => ?_) (fun h => ?_)
        · have hk := congrArg Prod.fst h
          cases hpol : g.policy.rejectIfNoSlack <;> rw [hpol] at hk <;> cases hk
        · rcases h.2 with h | h
          · exact hn h.2.1
          · exact h.1 hf
    · rw [hnot hf]
      by_cases hn : g.Registered path.hops ∧ g.Fits g.freeNow spec.requestedMin.value path.hops
      · obtain ⟨c', -, hc'⟩ := hnow hn
        rw [hc']
        refine iff_of_false (fun h => by cases h) (fun h => ?_)
        rcases h.2 with h | h
        · exact hf h.1
        · exact h.2.1 hn
      · rw [hnever hn]
        cases hpol : g.policy.rejectIfNoSlack with
        | false => simp [hf, hn]
        | true =>
          refine iff_of_false (fun h => by cases h) (fun h => ?_)
          rcases h.2 with h | h
          · exact hf h.1
          · cases h.2.2

end Governor

/-- When the admission preview agrees with the admission that follows, for every state and spec. -/
theorem preview_agrees_iff (g : Governor) (spec : FlowSpec) :
    g.PreviewAgrees spec ↔ g.PreviewHolds spec := by
  by_cases hrefused : validateFlowSpec spec ≠ none ∨ g.paths.find? spec.path = none
  · refine iff_of_true (Governor.preview_refused hrefused) ?_
    rcases hrefused with h | h
    · exact Or.inl h
    · exact Or.inr (Or.inl h)
  · rw [not_or, not_not] at hrefused
    obtain ⟨hv, hpath⟩ := hrefused
    obtain ⟨path, hp⟩ := Option.ne_none_iff_exists'.mp hpath
    exact Governor.preview_agrees_of_path hv hp

/-- A path over a link that is not registered: the preview admits flow 1 at 80, the submission that
    follows defers it. -/
theorem preview_passes_missing_link :
    Reaches [.call (.addPath (Sample.path 1 [1]))]
      (Sample.start.after [.addPath (Sample.path 1 [1])]) ∧
    ¬ (Sample.start.after [.addPath (Sample.path 1 [1])]).PreviewAgrees
      (Sample.flow 1 1 40 80 100) := by
  refine ⟨Sample.reaches (show [Op.addPath (Sample.path 1 [1])].all _ = true from rfl), ?_⟩
  rintro ⟨d, g', res, hd, hs, heq⟩
  have hkind : ((Sample.start.after [.addPath (Sample.path 1 [1])]).explainAdmission
      (Sample.flow 1 1 40 80 100)).toOption.map Decision.kind = some (.named .admits) := by
    decide +kernel
  have hkind' : ((Sample.start.after [.addPath (Sample.path 1 [1])]).submitFlow
      (Sample.flow 1 1 40 80 100)).toOption.map (fun x => x.2.decision.kind) =
        some (.named .defer) := by decide +kernel
  rw [hd] at hkind
  rw [hs] at hkind'
  have hk := congrArg Prod.fst heq
  rw [show (Governor.verdict d).1 = .named .admits from Option.some.inj hkind,
    show (Governor.verdict res.decision).1 = .named .defer from Option.some.inj hkind'] at hk
  cases hk

end BG
