import Mathlib
import BandwidthGovernor.Governor.Preview
import BandwidthGovernor.Governor.Writes

/-! What a rejected submission leaves behind.

    `submit_flow` rejects in four places. The first three return before anything is written. The
    fourth, an infeasible minimum under `reject_if_no_slack`, shares its code with the deferral: the
    submission is counted and the flow is stored as queued before the verdict is chosen, so a later
    tick may admit it. -/

namespace BG

open Lib

/-- Events that do not submit the flow `fid` and do not restore. -/
def Event.Leaves (e : Event) (fid : FlowId) : Prop :=
  e.live = true ∧ ∀ spec, e = .call (.submitFlow spec) → spec.id ≠ fid

namespace Governor

/-- A submission whose minimum its path cannot carry, under the policy that rejects such flows. -/
def RejectsForSlack (g : Governor) (spec : FlowSpec) : Prop :=
  validateFlowSpec spec = none ∧ g.flows.find? spec.id = none ∧ g.policy.rejectIfNoSlack = true ∧
    ∃ path, g.paths.find? spec.path = some path ∧
      ¬ (g.Registered path.hops ∧ g.Fits g.freeNow spec.requestedMin.value path.hops)

/-- A rejection of `spec` changes no table; a flow that was not on file is on file in no later state
    unless it is submitted again, and a new submission is answered as if the rejected one had not
    been made. -/
def RejectsCleanly (g : Governor) (spec : FlowSpec) : Prop :=
  ∀ g' res, g.submitFlow spec = .ok (g', res) → res.decision.kind = .named .reject →
    (g'.flows = g.flows ∧ g'.reservations = g.reservations ∧ g'.tenants = g.tenants ∧
      g'.workloads = g.workloads) ∧
    (g.flows.find? spec.id = none →
      (∀ spec', g'.submitFlow spec' = g.submitFlow spec') ∧
      ∀ es g'', (∀ e ∈ es, e.Leaves spec.id) → Lib.Run Governor.Step g' es g'' →
        g''.flows.find? spec.id = none)

/-! ### Flows that are not on file -/

theorem absent_of_write {op : Op} {fid : FlowId}
    (hop : ∀ spec, op = .submitFlow spec → spec.id ≠ fid)
    {g g' : Governor} (hw : Write op g g') (h : g.flows.find? fid = none) :
    g'.flows.find? fid = none := by
  cases hw with
  | rest _ _ hfl => rw [hfl, h]
  | draw => exact h
  | resources => exact h
  | install => exact h
  | path => exact h
  | paths => exact h
  | file => exact h
  | submit spec f hs =>
    rw [Table.find?_insert, if_neg (hop spec hs).symm, h]
  | flows fs hfs =>
    refine Option.eq_none_iff_forall_ne_some.mpr fun f' hf' => ?_
    obtain ⟨f, hf, -⟩ := hfs fid f' hf'
    rw [h] at hf
    cases hf
  | release rid =>
    obtain ⟨rs, hrs⟩ := g.releaseReservationInternal_eq rid
    rw [hrs, h]

theorem absent_of_step {fid : FlowId} {g g' : Governor} {e : Event} (hs : g.Step e g')
    (he : e.Leaves fid) (h : g.flows.find? fid = none) : g'.flows.find? fid = none := by
  cases hs with
  | call op =>
    refine (apply_writes g he.1).inv (fun x y hw hx => absent_of_write (fun spec hop => ?_) hw hx) h
    exact he.2 spec (congrArg Event.call hop)
  | clock t => exact h
  | rehash hr => exact (hr.flows.find? fid).symm.trans h

theorem absent_of_run {fid : FlowId} {g g' : Governor} {es : List Event}
    (hes : ∀ e ∈ es, e.Leaves fid) (hrun : Lib.Run Governor.Step g es g')
    (h : g.flows.find? fid = none) : g'.flows.find? fid = none :=
  hrun.inv_of (P := fun g => g.flows.find? fid = none) (Q := fun e => e.Leaves fid)
    (fun _ _ _ he h hs => absent_of_step hs he h) hes h

/-! ### The verdict and the state -/

/-- On a known path the verdict of a new, valid submission is a rejection only for want of slack. -/
theorem submitFlow_reject_iff {g g' : Governor} {spec : FlowSpec} {res : AdmissionResult}
    {path : Path}
    (hv : validateFlowSpec spec = none) (hnew : g.flows.find? spec.id = none)
    (hp : g.paths.find? spec.path = some path) (h : g.submitFlow spec = .ok (g', res)) :
    res.decision.kind = .named .reject ↔ g.RejectsForSlack spec := by
  obtain ⟨g₁, res₁, h₁, hfits, hnot⟩ := submitFlow_verdict hv hnew hp
  rw [h, Except.ok.injEq, Prod.mk.injEq] at h₁
  obtain ⟨-, rfl⟩ := h₁
  by_cases hfit : g.Registered path.hops ∧ g.Fits g.freeNow spec.requestedMin.value path.hops
  · obtain ⟨c, -, hc⟩ := hfits hfit
    have hkind : res.decision.kind = .named .admits := congrArg Prod.fst hc
    refine iff_of_false (by rw [hkind]; decide) ?_
    rintro ⟨-, -, -, path', hp', hno⟩
    rw [hp, Option.some.injEq] at hp'
    exact hno (hp' ▸ hfit)
  · have hkind : res.decision.kind =
        .named (if g.policy.rejectIfNoSlack then .reject else .defer) :=
          congrArg Prod.fst (hnot hfit)
    rw [hkind]
    constructor
    · intro hrej
      refine ⟨hv, hnew, ?_, path, hp, hfit⟩
      cases hpol : g.policy.rejectIfNoSlack with
      | true => rfl
      | false =>
        rw [hpol] at hrej
        cases hrej
    · rintro ⟨-, -, hpol, -⟩
      rw [hpol]
      rfl

/-- A rejection that is not for want of slack returns the state it was given. -/
theorem submitFlow_refused {g g' : Governor} {spec : FlowSpec} {res : AdmissionResult}
    (hslack : ¬ g.RejectsForSlack spec) (h : g.submitFlow spec = .ok (g', res))
    (hkind : res.decision.kind = .named .reject) : g' = g := by
  obtain ⟨g₁, res₁, h₁, hsub⟩ := g.submitFlow_spec spec
  have heq := h
  rw [h₁, Except.ok.injEq, Prod.mk.injEq] at heq
  obtain ⟨rfl, rfl⟩ := heq
  generalize res₁.admitted = adm at hsub
  cases hsub with
  | refused => rfl
  | parked path hv hnew hp => exact absurd ((submitFlow_reject_iff hv hnew hp h).mp hkind) hslack
  | admitted path c hv hnew hp =>
    exact absurd ((submitFlow_reject_iff hv hnew hp h).mp hkind) hslack

/-- The flow rejected for want of slack is on file afterwards. -/
theorem submitFlow_parks {g : Governor} {spec : FlowSpec} (hslack : g.RejectsForSlack spec) :
    ∃ g' res, g.submitFlow spec = .ok (g', res) ∧ res.decision.kind = .named .reject ∧
      g'.flows.find? spec.id ≠ none := by
  obtain ⟨hv, hnew, -, path, hp, hno⟩ := id hslack
  have hdup : ¬ g.flows.contains spec.id = true := by simp [Table.contains, hnew]
  have hfeas : ¬ (g.scanFor spec path).feasible = true := fun h =>
    hno ((g.scanHops_scanned spec.requestedMin.value path.hops {}).1.mp h).2
  have hpark : g.submitFlow spec =
      .ok ((g.scanned.countSubmission spec).parkFlow spec (g.scanFor spec path)) := by
    unfold submitFlow
    rw [hv]
    dsimp only
    rw [if_neg hdup, hp]
    exact if_neg hfeas
  refine ⟨_, _, hpark, (submitFlow_reject_iff hv hnew hp hpark).mpr hslack, ?_⟩
  change (g.flows.insert spec.id _).find? spec.id ≠ none
  rw [Table.find?_insert, if_pos rfl]
  exact Option.some_ne_none _

end Governor

/-- Exactly when a rejected submission changes nothing, for every state and spec. -/
theorem rejects_cleanly_iff (g : Governor) (spec : FlowSpec) :
    g.RejectsCleanly spec ↔ ¬ g.RejectsForSlack spec := by
  constructor
  · intro hclean hslack
    obtain ⟨g', res, h, hkind, hstored⟩ := Governor.submitFlow_parks hslack
    obtain ⟨⟨hflows, -⟩, -⟩ := hclean g' res h hkind
    exact hstored (hflows ▸ hslack.2.1)
  · intro hslack g' res h hkind
    obtain rfl := Governor.submitFlow_refused hslack h hkind
    exact ⟨⟨rfl, rfl, rfl, rfl⟩, fun hnew =>
      ⟨fun _ => rfl, fun es g'' hes hrun => Governor.absent_of_run hes hrun hnew⟩⟩

/-! ### A rejected flow that runs -/

namespace Sample

/-- A coordinator that rejects flows whose minimum does not fit. -/
def strict : Governor := .new 0 { idSalt := 7, policy := { rejectIfNoSlack := true } } 0

/-- Flow 1 asks for 200 on a link of 100; later the link is measured at 300. -/
def rejected : List Op := oneLink ++ [.submitFlow (flow 1 1 200 200 200)]

def later : List Op := [.updateCapacity ⟨0, 1⟩ 300 1 [] 0 0 false, .tick]

end Sample

/-- The submission of flow 1 is rejected and yet stored: once the link can carry it, a tick runs
    it. -/
theorem rejected_flow_runs :
    Reaches (Sample.oneLink.map Event.call) (Sample.strict.after Sample.oneLink) ∧
    ¬ (Sample.strict.after Sample.oneLink).RejectsCleanly (Sample.flow 1 1 200 200 200) ∧
    (((Sample.strict.after Sample.rejected).after Sample.later).flows.find? ⟨0, 1⟩).map
      FlowRT.state = some (.named .running) := by
  refine ⟨reaches_after 0 _ 0 (by decide), ?_, by decide +kernel⟩
  intro hclean
  obtain ⟨g', res, h, -⟩ :=
    (Sample.strict.after Sample.oneLink).submitFlow_spec (Sample.flow 1 1 200 200 200)
  have hout : ((Sample.strict.after Sample.oneLink).submitFlow
      (Sample.flow 1 1 200 200 200)).toOption.map (fun x => (x.2.decision.kind,
        (x.1.flows.find? ⟨0, 1⟩).isSome)) = some (.named .reject, true) := by decide +kernel
  rw [h] at hout
  obtain ⟨hkind, hstored⟩ := Prod.mk.inj (Option.some.inj hout)
  obtain ⟨⟨hflows, -⟩, -⟩ := hclean g' res h hkind
  have habsent : ((Sample.strict.after Sample.oneLink).flows.find? ⟨0, 1⟩).isSome = false := by
    decide +kernel
  rw [hflows, habsent] at hstored
  cases hstored

end BG
