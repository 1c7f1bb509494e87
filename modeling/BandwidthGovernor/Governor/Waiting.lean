import Mathlib
import BandwidthGovernor.Governor.Freshness

/-! Starvation ages against time spent waiting.

    A tick adds to the age of every flow that is not Running the time since the flow's last stamp,
    and stamps it. A Running flow is passed over without a stamp, so a flow that leaves Running
    still carries the stamp from when it entered, or from its last progress report: the next tick
    counts the time it ran as waiting. Where flows leave Running only with a current stamp, ages
    count waiting time only. -/

namespace BG

open Lib

/-! ### What a step does to stamp and age -/

/-- How stamp and age of a flow may change at time `now`. -/
inductive FlowRT.Ages (now : ℚ) (f f' : FlowRT) : Prop where
  | kept : f'.lastMs = f.lastMs → f'.starvationMs = f.starvationMs →
      (f'.state = .named .running → f.state = .named .running) → Ages now f f'
  | stamped : f.state = .named .running → f'.lastMs = now → f'.starvationMs = f.starvationMs →
      Ages now f f'
  | aged : f.state ≠ .named .running → f'.lastMs = now →
      f'.starvationMs = f.starvationMs + max 0 (now - f.lastMs) → Ages now f f'

theorem FlowRT.Ages.refl {now : ℚ} (f : FlowRT) : f.Ages now f := .kept rfl rfl id

/-- An edit that keeps stamp and age and does not start the flow. -/
theorem FlowRT.Ages.of_moved {now : ℚ} {f f' : FlowRT} (hl : f'.lastMs = f.lastMs)
    (hs : f'.starvationMs = f.starvationMs)
    (hst : f'.state = f.state ∨ f'.state = .named .reserved) :
    f.Ages now f' := by
  refine .kept hl hs fun h => ?_
  rcases hst with he | he
  · exact he ▸ h
  · rw [he] at h
    cases h

/-- A flow as a submission enters it. -/
structure FlowRT.Enters (now : ℚ) (f : FlowRT) : Prop where
  lastMs : f.lastMs = now
  starvationMs : f.starvationMs = 0
  state : f.state ≠ .named .running

/-- Whether an operation completes the flow. -/
def Op.completes (fid : FlowId) : Op → Bool
  | .reportCompletion flow _ _ _ _ => decide (flow = fid)
  | _ => false

namespace Governor

/-- Every flow entered or was aged. -/
def AgesTo (g g' : Governor) : Prop := ∀ fid f', g'.flows.find? fid = some f' →
  (g.flows.find? fid = none ∧ f'.Enters g.now) ∨
    ∃ f, g.flows.find? fid = some f ∧ f.Ages g.now f'

theorem AgesTo.of_eq {g g' : Governor} (h : g'.flows = g.flows) : g.AgesTo g' := fun _ f' hf' =>
  Or.inr ⟨f', h ▸ hf', .refl f'⟩

theorem AgesTo.insert {g g' : Governor} {fid : FlowId} {f f₁ : FlowRT}
    (hf : g.flows.find? fid = some f) (h : f.Ages g.now f₁)
    (hg : g'.flows = g.flows.insert fid f₁) : g.AgesTo g' := by
  intro x f' hf'
  rw [hg, Table.find?_insert] at hf'
  split at hf'
  · rename_i he
    subst he
    rw [← Option.some.inj hf']
    exact Or.inr ⟨f, hf, h⟩
  · exact Or.inr ⟨f', hf', .refl f'⟩

theorem AgesTo.mapVals {g g' : Governor} {F : FlowId → FlowRT → FlowRT}
    (h : ∀ (fid : FlowId) (f : FlowRT), f.Ages g.now (F fid f))
    (hg : g'.flows = g.flows.mapVals F) : g.AgesTo g' := by
  intro x f' hf'
  rw [hg, Table.find?_mapVals] at hf'
  obtain ⟨f, hf, rfl⟩ := Option.map_eq_some_iff.mp hf'
  exact Or.inr ⟨f, hf, h x f⟩

theorem submitFlow_ages (g : Governor) (spec : FlowSpec) :
    g.AgesTo (stateAfter Prod.fst (g.submitFlow spec)) := by
  have hnew : ∀ {g' : Governor} {f₁ : FlowRT}, g.flows.find? spec.id = none → f₁.Enters g.now →
      g'.flows = g.flows.insert spec.id f₁ → g.AgesTo g' := by
    intro g' f₁ hnone hent hg x f' hf'
    rw [hg, Table.find?_insert] at hf'
    split at hf'
    · rename_i he
      subst he
      rw [← Option.some.inj hf']
      exact Or.inl ⟨hnone, hent⟩
    · exact Or.inr ⟨f', hf', .refl f'⟩
  obtain ⟨g', res, hok, hs⟩ := g.submitFlow_spec spec
  rw [hok, stateAfter]
  generalize res.admitted = b at hs
  cases hs with
  | refused => exact .of_eq rfl
  | parked path hv hnone => exact hnew hnone ⟨rfl, rfl, fun h => by cases h⟩ rfl
  | admitted path c hv hnone => exact hnew hnone ⟨rfl, rfl, fun h => by cases h⟩ rfl

theorem releaseOf_flows (g : Governor) (f : FlowRT) : (g.releaseOf f).flows = g.flows := by
  obtain ⟨rs, h⟩ := g.releaseOf_eq f
  rw [h]

theorem cancelFlow_ages (g : Governor) (fid : FlowId) (reason : Str) :
    g.AgesTo (stateAfter Prod.fst (g.cancelFlow fid reason)) := by
  unfold cancelFlow
  cases hf : g.flows.find? fid with
  | none => exact .of_eq rfl
  | some f =>
    dsimp only
    split
    · exact .of_eq rfl
    · cases hset : setFlowState f .cancelled with
      | error e => exact .of_eq rfl
      | ok f' =>
        obtain rfl := setFlowState_eq_ok hset
        have hk : f.Ages g.now { f with state := .named .cancelled, lastError := reason } :=
          .kept rfl rfl fun h => by cases h
        exact .insert hf hk (releaseOf_flows _ _)

theorem resumeFlow_ages (g : Governor) (fid : FlowId) :
    g.AgesTo (stateAfter Prod.fst (g.resumeFlow fid)) := by
  rcases g.resumeFlow_rest fid with ⟨gen, h⟩ | ⟨f, f', rs, gen, hf, h, hl, hs, hst⟩
  · rw [h]
    exact .of_eq rfl
  · rw [h]
    exact .insert hf (.of_moved hl hs hst) rfl

theorem aged_find? (g : Governor) (fid : FlowId) : ∃ age : FlowRT → FlowRT,
    g.aged.flows.find? fid = (g.flows.find? fid).map age ∧
    ∀ f, (age f).state = f.state ∧ (f.state = .named .running → age f = f) ∧
      (f.state ≠ .named .running → (age f).lastMs = g.now ∧
        (age f).starvationMs = f.starvationMs + max 0 (g.now - f.lastMs)) := by
  refine ⟨_, Table.find?_mapVals _ _ fid, fun f => ?_⟩
  dsimp only
  by_cases hr : f.state = .named .running
  · rw [if_pos hr]
    exact ⟨rfl, fun _ => rfl, fun h => absurd hr h⟩
  · rw [if_neg hr]
    refine ⟨rfl, fun h => absurd h hr, fun _ => ⟨rfl, ?_⟩⟩
    dsimp only
    split
    · rename_i hpos
      rw [max_eq_right hpos.le]
    · rename_i hneg
      rw [max_eq_left (not_lt.mp hneg), add_zero]

/-- Queue admission keeps stamp and age, and starts no flow. -/
theorem served_ages (g : Governor) (rid : ReservationId) (f : FlowRT) :
    (g.served rid f).lastMs = f.lastMs ∧ (g.served rid f).starvationMs = f.starvationMs ∧
      (f.state = .named .running → (g.served rid f) = f) := by
  unfold served
  split
  · rename_i hq
    split
    · exact ⟨rfl, rfl, fun _ => rfl⟩
    · exact ⟨rfl, rfl, fun h => by rw [hq] at h; cases h⟩
  · exact ⟨rfl, rfl, fun _ => rfl⟩

theorem settled_ages (g : Governor) (t : ℚ) (fid : FlowId) (f : FlowRT) :
    (g.settled t fid f).lastMs = f.lastMs ∧ (g.settled t fid f).starvationMs = f.starvationMs := by
  unfold settled
  dsimp only
  split
  · cases g.pickWorkerForPath f.spec.path <;> exact ⟨rfl, rfl⟩
  · split
    · exact ⟨rfl, rfl⟩
    · exact ⟨rfl, rfl⟩

theorem tick_ages (g : Governor) : g.AgesTo (g.apply .tick) := by
  intro fid f' hf'
  rw [Governor.apply, tick_prepared] at hf'
  change (g.prepared.flows.mapVals (g.prepared.settled g.prepared.now)).find? fid = some f' at hf'
  obtain ⟨age, hage, hspec⟩ := g.aged_find? fid
  obtain ⟨rid, hdrained⟩ := g.aged.drained_flows
  have hprep : g.prepared.flows.find? fid =
      (g.flows.find? fid).map fun f => g.aged.served (rid fid) (age f) := by
    change g.aged.drained.flows.find? fid = _
    rw [hdrained, hage, Option.map_map]
    rfl
  rw [Table.find?_mapVals, hprep, Option.map_map] at hf'
  obtain ⟨f, hf, rfl⟩ := Option.map_eq_some_iff.mp hf'
  refine Or.inr ⟨f, hf, ?_⟩
  rw [Function.comp_apply]
  obtain ⟨hl₁, hs₁⟩ := g.prepared.settled_ages g.prepared.now fid (g.aged.served (rid fid) (age f))
  obtain ⟨hl₂, hs₂, hrun₂⟩ := g.aged.served_ages (rid fid) (age f)
  obtain ⟨hstate, hrun, hwait⟩ := hspec f
  by_cases hr : f.state = .named .running
  · rw [hrun hr] at hl₁ hs₁ hl₂ hs₂ ⊢
    exact .kept (hl₁.trans hl₂) (hs₁.trans hs₂) fun _ => hr
  · obtain ⟨hl, hs⟩ := hwait hr
    exact .aged hr (hl₁.trans (hl₂.trans hl)) (hs₁.trans (hs₂.trans hs))

/-- Rolling flows that are still as they were in `G`. -/
theorem foldlM_rollFlow_ages {G : Governor} (worker : WorkerId) (boot : WorkerBootId) :
    ∀ (l : List (FlowId × FlowRT)) (g : Governor), (∀ e ∈ l, G.flows.find? e.1 = some e.2) →
      G.AgesTo g → G.AgesTo (stateAfter id (l.foldlM
        (fun g e => if rolls worker e.2 then g.rollFlow worker boot e.1 e.2 else .ok g) g))
  | [], _, _, h => h
  | e :: l, g, hl, h => by
    rw [List.forall_mem_cons] at hl
    rw [List.foldlM_cons]
    split
    · obtain ⟨f', rs, gen, hroll, hlast, hstarve, hst⟩ := g.rollFlow_rest worker boot e.1 e.2
      have hnext : G.AgesTo
          { g with flows := g.flows.insert e.1 f', reservations := rs, gen := gen } := by
        intro x f₁ hf₁
        rw [Table.find?_insert] at hf₁
        split at hf₁
        · rename_i he
          subst he
          rw [← Option.some.inj hf₁]
          exact Or.inr ⟨e.2, hl.1, .of_moved hlast hstarve hst⟩
        · exact h x f₁ hf₁
      cases hr : g.rollFlow worker boot e.1 e.2 with
      | error x =>
        rw [hr] at hroll
        obtain ⟨err, g₁⟩ := x
        obtain rfl : g₁ = _ := hroll
        exact hnext
      | ok g₁ =>
        rw [hr] at hroll
        obtain rfl : g₁ = _ := hroll
        exact foldlM_rollFlow_ages worker boot l _ hl.2 hnext
    · exact foldlM_rollFlow_ages worker boot l g hl.2 h

theorem registerWorker_ages (g : Governor) (reg : WorkerRegistration) :
    g.AgesTo (stateAfter id (g.registerWorker reg)) := by
  have hfl := g.enrol_flows reg
  have henrol : g.AgesTo (g.enrol reg) := .of_eq hfl
  unfold registerWorker
  dsimp only
  split
  · have h := foldlM_rollFlow_ages reg.worker reg.boot (g.enrol reg).flows.entries (g.enrol reg)
      (fun e he => Table.find?_of_mem (hfl ▸ he)) henrol
    cases hl : (g.enrol reg).flows.entries.foldlM (fun g e =>
        if rolls reg.worker e.2 then g.rollFlow reg.worker reg.boot e.1 e.2 else .ok g)
        (g.enrol reg) with
    | error x =>
      rw [hl] at h
      exact h
    | ok g₁ =>
      rw [hl] at h
      exact h
  · exact henrol

theorem reportProgress_ages (g : Governor) (fid : FlowId) (attempt : AttemptId)
    (fgen : FlowGeneration) (boot : WorkerBootId) (bytes : UInt64) :
    g.AgesTo (g.reportProgress fid attempt fgen boot bytes).1 := by
  unfold reportProgress
  cases hf : g.flows.find? fid with
  | none => exact .of_eq rfl
  | some f =>
    dsimp only
    split
    · rename_i ha
      have hk : f.Ages g.now { f with bytesDone := max f.bytesDone bytes, lastMs := g.now } :=
        .stamped (authorised_running ha) rfl rfl
      exact .insert hf hk rfl
    · exact .of_eq rfl

theorem reportCompletion_ages (g : Governor) (fid : FlowId) (attempt : AttemptId)
    (fgen : FlowGeneration) (boot : WorkerBootId) (bytes : UInt64) :
    g.AgesTo (stateAfter Prod.fst (g.reportCompletion fid attempt fgen boot bytes)) := by
  unfold reportCompletion
  cases hf : g.flows.find? fid with
  | none => exact .of_eq rfl
  | some f =>
    dsimp only
    split
    · rename_i ha
      have hrun := authorised_running ha
      cases hset : setFlowState { f with bytesDone := max f.bytesDone bytes } .completed with
      | error e =>
        have hk : f.Ages g.now { f with bytesDone := max f.bytesDone bytes } := .kept rfl rfl id
        exact .insert hf hk rfl
      | ok f' =>
        obtain rfl := setFlowState_eq_ok hset
        have hk : f.Ages g.now { f with
            bytesDone := max f.bytesDone bytes, state := .named .completed, lastMs := g.now } :=
          .stamped hrun rfl rfl
        exact .insert hf hk (releaseOf_flows _ _)
    · exact .of_eq rfl

/-- What an operation does to stamps and ages. -/
theorem apply_ages (g : Governor) {op : Op} (hlive : (Event.call op).live = true) :
    g.AgesTo (g.apply op) := by
  cases op with
  | submitFlow spec => exact g.submitFlow_ages spec
  | cancelFlow flow reason => exact g.cancelFlow_ages flow reason
  | resumeFlow flow => exact g.resumeFlow_ages flow
  | tick => exact g.tick_ages
  | registerWorker reg => exact g.registerWorker_ages reg
  | deregisterWorker worker =>
    have hflows : (g.deregisterWorker worker).flows = g.flows.mapVals fun _ f =>
        if rolls worker f then { f with assignedWorker := none, lastError := ascii "worker lost" }
        else f := rfl
    refine .mapVals (fun fid f => ?_) hflows
    split
    · exact .kept rfl rfl id
    · exact .refl f
  | reportProgress flow attempt fgen boot bytes =>
    exact g.reportProgress_ages flow attempt fgen boot bytes
  | reportCompletion flow attempt fgen boot bytes =>
    exact g.reportCompletion_ages flow attempt fgen boot bytes
  | restore snap => cases hlive
  | _ => exact .of_eq (g.apply_flows rfl)

/-! ### Time spent waiting -/

/-- The clock time each flow has spent on file in another state than Running, one step later. -/
def waitedAfter (g g' : Governor) (w : FlowId → ℚ) (fid : FlowId) : ℚ :=
  match g.flows.find? fid with
  | none => 0
  | some f => if f.state = .named .running then w fid else w fid + (g'.now - g.now)

/-- A step without restoration, on a clock that does not go back, with the waiting times. -/
def TimedStep (s : Governor × (FlowId → ℚ)) (e : Event) (s' : Governor × (FlowId → ℚ)) : Prop :=
  s.1.Step e s'.1 ∧ e.live = true ∧ s.1.now ≤ s'.1.now ∧ s'.2 = s.1.waitedAfter s'.1 s.2

/-- Every flow that the step takes out of Running, other than by its completion, has a current
    stamp before it. -/
def stampsLeavers (g : Governor) : Event → Bool
  | .call op => g.flows.entries.all fun e =>
      !decide (e.2.state = .named .running) ||
        (match (g.apply op).flows.find? e.1 with
          | none => true
          | some f' => decide (f'.state = .named .running)) ||
        decide (e.2.lastMs = g.now) || op.completes e.1
  | _ => true

/-- Stamps are not in the future; ages, with what the next tick would add, are within the waiting
    times. -/
def Timely (g : Governor) (w : FlowId → ℚ) : Prop := ∀ fid f, g.flows.find? fid = some f →
  f.lastMs ≤ g.now ∧ f.starvationMs ≤ w fid ∧
    (f.state ≠ .named .running → f.starvationMs + (g.now - f.lastMs) ≤ w fid)

/-- Time passes. -/
theorem Timely.idle {g g' : Governor} {w : FlowId → ℚ} (h : g.Timely w)
    (hfl : ∀ fid, g'.flows.find? fid = g.flows.find? fid) (hnow : g.now ≤ g'.now) :
    g'.Timely (g.waitedAfter g' w) := by
  intro fid f hf
  rw [hfl] at hf
  obtain ⟨hl, hs, hw⟩ := h fid f hf
  rw [waitedAfter, hf]
  dsimp only
  by_cases hr : f.state = .named .running
  · rw [if_pos hr]
    exact ⟨hl.trans hnow, hs, fun hne => absurd hr hne⟩
  · rw [if_neg hr]
    have := hw hr
    exact ⟨hl.trans hnow, by linarith, fun _ => by linarith⟩

theorem reportCompletion_leaves {g : Governor} {fid : FlowId} {attempt : AttemptId}
    {fgen : FlowGeneration} {boot : WorkerBootId} {bytes : UInt64} {f f' : FlowRT}
    (hf : g.flows.find? fid = some f)
    (hf' : (stateAfter Prod.fst (g.reportCompletion fid attempt fgen boot bytes)).flows.find? fid =
      some f') (hne : f'.state ≠ f.state) : f'.lastMs = g.now := by
  unfold reportCompletion at hf'
  rw [hf] at hf'
  dsimp only at hf'
  split at hf'
  · rename_i ha
    have hset : setFlowState { f with bytesDone := max f.bytesDone bytes } .completed = .ok _ :=
      setFlowState_ok (authorised_running ha) (Or.inr (by decide))
    rw [hset] at hf'
    change (Governor.releaseOf _ _).flows.find? fid = some f' at hf'
    rw [releaseOf_flows] at hf'
    change (g.flows.insert fid _).find? fid = some f' at hf'
    rw [Table.find?_insert_self, Option.some.injEq] at hf'
    rw [← hf']
  · change g.flows.find? fid = some f' at hf'
    rw [hf, Option.some.injEq] at hf'
    exact absurd (congrArg FlowRT.state hf').symm hne

/-- A flow that an operation takes out of Running is stamped. -/
theorem leaver_stamped {g : Governor} {op : Op} (hok : g.stampsLeavers (.call op) = true)
    {fid : FlowId} {f f' : FlowRT} (hf : g.flows.find? fid = some f)
    (hf' : (g.apply op).flows.find? fid = some f') (hr : f.state = .named .running)
    (hne : f'.state ≠ .named .running) : f.lastMs = g.now ∨ f'.lastMs = g.now := by
  have hall := List.all_eq_true.mp hok (fid, f) (Table.mem_of_find? hf)
  simp only [hf', hr, hne, decide_true, Bool.not_true, decide_false, Bool.false_or, Bool.or_eq_true,
    decide_eq_true_eq] at hall
  rcases hall with h | h
  · exact Or.inl h
  · cases op with
    | reportCompletion flow attempt fgen boot bytes =>
      obtain rfl : flow = fid := by simpa [Op.completes] using h
      exact Or.inr (reportCompletion_leaves hf hf' (hr ▸ hne))
    | _ => cases h

/-- An operation at one time. -/
theorem Timely.apply {g : Governor} {w : FlowId → ℚ} (h : g.Timely w) {op : Op}
    (hlive : (Event.call op).live = true) (hok : g.stampsLeavers (.call op) = true)
    (hnow : (g.apply op).now = g.now) : (g.apply op).Timely (g.waitedAfter (g.apply op) w) := by
  intro fid f' hf'
  rw [hnow]
  rcases apply_ages g hlive fid f' hf' with ⟨hnone, hent⟩ | ⟨f, hf, hages⟩
  · rw [waitedAfter, hnone, hent.lastMs, hent.starvationMs]
    exact ⟨le_refl _, le_refl _, fun _ => by simp⟩
  · obtain ⟨hl, hs, hw⟩ := h fid f hf
    have hsame : g.waitedAfter (g.apply op) w fid = w fid := by
      simp only [waitedAfter, hf, hnow, sub_self, add_zero, ite_self]
    rw [hsame]
    cases hages with
    | kept hl' hs' hstart =>
      rw [hl', hs']
      refine ⟨hl, hs, fun hne => ?_⟩
      by_cases hr : f.state = .named .running
      · have hstamp : f.lastMs = g.now := by
          rcases leaver_stamped hok hf hf' hr hne with he | he
          · exact he
          · exact hl'.symm.trans he
        rw [hstamp, sub_self, add_zero]
        exact hs
      · exact hw hr
    | stamped hr hl' hs' =>
      rw [hl', hs', sub_self, add_zero]
      exact ⟨le_refl _, hs, fun _ => hs⟩
    | aged hr hl' hs' =>
      have hle := hw hr
      rw [hl', hs', sub_self, add_zero, max_eq_right (sub_nonneg.mpr hl)]
      exact ⟨le_refl _, hle, fun _ => hle⟩

/-- Every step under the condition keeps ages within waiting times. -/
theorem Timely.step {g g' : Governor} {w : FlowId → ℚ} (h : g.Timely w) {e : Event}
    (hs : g.Step e g') (hlive : e.live = true) (hnow : g.now ≤ g'.now)
    (hok : g.stampsLeavers e = true) : g'.Timely (g.waitedAfter g' w) := by
  cases hs with
  | call op =>
    by_cases hc : op.MovesClock
    · refine h.idle (fun fid => ?_) hnow
      cases op with
      | setAutoClock auto => rfl
      | advanceMs dt => rfl
      | _ => exact hc.elim
    · exact h.apply hlive hok (now_congr (apply_frame g hlive hc))
  | clock t => exact h.idle (fun _ => rfl) hnow
  | rehash hr => exact h.idle (fun fid => (hr.flows.find? fid).symm) hnow

end Governor

/-- In every run from a fresh coordinator, without restoration and on a clock that does not go back,
    whose steps take flows out of Running only with a current stamp, the starvation age of a flow is
    at most the clock time it has spent since its submission in other states than Running. -/
theorem starvation_counts_waiting {g₀ g : Governor} {w : FlowId → ℚ} {es : List Event}
    (hfresh : g₀.Fresh) (hrun : Lib.Run (fun s e s' => Governor.TimedStep s e s' ∧
      s.1.stampsLeavers e = true) (g₀, fun _ => 0) es (g, w)) :
    ∀ fid f, g.flows.find? fid = some f → f.starvationMs ≤ w fid := by
  have htimely : g.Timely w := by
    refine hrun.inv (P := fun s => s.1.Timely s.2) (fun s e s' h hs => ?_) fun fid f hf => ?_
    · obtain ⟨⟨hs, hlive, hnow, hw⟩, hok⟩ := hs
      rw [hw]
      exact h.step hs hlive hnow hok
    · rw [← Governor.view_flows, hfresh.view.1] at hf
      cases hf
  exact fun fid f hf => (htimely fid f hf).2.1

/-! ### Two histories -/

/-- The waiting times along a sequence of operations. -/
def Governor.waitedAlong : Governor → List Op → (FlowId → ℚ) → FlowId → ℚ
  | _, [], w => w
  | g, op :: ops, w => waitedAlong (g.apply op) ops (g.waitedAfter (g.apply op) w)

/-- Whether an operation is part of a run on a clock that does not go back. -/
def Governor.timely (g : Governor) : Event → Bool
  | .call op => (Event.call op).live && decide (g.now ≤ (g.apply op).now)
  | _ => false

theorem Governor.run_timed {ok : Governor → Event → Bool} : ∀ {ops : List Op} {g : Governor}
    (w : FlowId → ℚ), checks (fun g e => g.timely e && ok g e) g ops = true →
    Lib.Run (fun s e s' => TimedStep s e s' ∧ ok s.1 e = true) (g, w) (ops.map Event.call)
      (g.after ops, g.waitedAlong ops w)
  | [], g, w, _ => .nil _
  | op :: ops, g, w, h => by
    rw [checks, Bool.and_eq_true, Bool.and_eq_true, Governor.timely, Bool.and_eq_true,
      decide_eq_true_eq] at h
    obtain ⟨⟨⟨hlive, hnow⟩, hok⟩, hrest⟩ := h
    exact .cons ⟨⟨.call g op, hlive, hnow, rfl⟩, hok⟩ (run_timed _ hrest)

namespace Sample

/-- Flow 1 waits 5 ms for its first tick. -/
def patient : List Op := .setAutoClock false :: oneLink ++
  [.submitFlow (flow 1 1 10 50 100), .advanceMs 5, .tick]

/-- Flow 1 runs for a second, is preempted when its link goes down, and the scheduler ticks. -/
def halted : List Op := .setAutoClock false :: oneLink ++
  [.submitFlow (flow 1 1 10 50 100), .tick, .advanceMs 1000, .setResourceEnabled ⟨0, 1⟩ false,
    .tick, .tick]

end Sample

/-- The theorem for flow 1, which has waited 5 ms and says so. -/
theorem starvation_counts_waiting_patient :
    ((Sample.start.after Sample.patient).flows.find? ⟨0, 1⟩).map FlowRT.starvationMs = some 5 ∧
    ∀ fid f, (Sample.start.after Sample.patient).flows.find? fid = some f →
      f.starvationMs ≤ Sample.start.waitedAlong Sample.patient (fun _ => 0) fid :=
  ⟨by decide +kernel, starvation_counts_waiting Sample.start_fresh
    (Governor.run_timed (fun _ => 0) (by decide +kernel))⟩

/-- Flow 1 is admitted, runs for a second and is preempted, all without waiting; its age is a
    second. -/
theorem running_time_counted :
    (∃ es, Lib.Run Governor.TimedStep (Sample.start, fun _ => 0) es
      (Sample.start.after Sample.halted,
        Sample.start.waitedAlong Sample.halted fun _ => 0)) ∧
    Sample.start.waitedAlong Sample.halted (fun _ => 0) ⟨0, 1⟩ = 0 ∧
    ((Sample.start.after Sample.halted).flows.find? ⟨0, 1⟩).map FlowRT.starvationMs =
      some 1000 := by
  have hrun := Governor.run_timed (fun _ => 0) (by decide +kernel :
    Governor.checks (fun g e => g.timely e && true) Sample.start Sample.halted = true)
  exact ⟨⟨_, hrun.mono fun _ _ _ h => h.1⟩, by decide +kernel, by decide +kernel⟩

end BG
