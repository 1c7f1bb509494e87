import Mathlib
import BandwidthGovernor.Governor.Links

/-! The bytes a flow is credited with.

    The byte count of a flow stands for good. Reports apart, a flow keeps the bytes of its attempt,
    and a new attempt starts at zero; so what is credited to an attempt was reported on that
    attempt. -/

namespace BG

open Lib

/-! ### The byte count -/

/-- The byte count of a flow on file. -/
def View.byteCount (v : View) (fid : FlowId) : Option UInt64 :=
  (v.flows fid).map fun f => f.spec.byteCount

namespace View
variable {v : View} {x : FlowId} {n : UInt64}

theorem byteCount_setFlow {u : View} (hu : u.flows = v.flows) (h : v.byteCount x = some n)
    {fid : FlowId} {f : FlowRT} (hf : v.flows fid = none ∨
      ∃ f₀, v.flows fid = some f₀ ∧ f.spec.byteCount = f₀.spec.byteCount) :
    (u.setFlow fid f).byteCount x = some n := by
  by_cases hx : x = fid
  · subst hx
    rcases hf with hn | ⟨f₀, hf₀, hcount⟩
    · simp [byteCount, hn] at h
    · rw [byteCount, hf₀] at h
      rw [byteCount, setFlow_self, Option.map_some, hcount]
      exact h
  · rw [byteCount, setFlow_of_ne u f hx, hu]
    exact h

theorem byteCount_mapFlows (h : v.byteCount x = some n) {F : FlowId → FlowRT → FlowRT}
    (hF : ∀ fid f, v.flows fid = some f → (F fid f).spec.byteCount = f.spec.byteCount) :
    ({ v with flows := fun fid => (v.flows fid).map (F fid) } : View).byteCount x = some n := by
  obtain ⟨f, hf, rfl⟩ := Option.map_eq_some_iff.mp h
  simp [byteCount, hf, hF x f hf]

end View

/-- No transaction changes the byte count of a flow on file. -/
theorem Txn.byteCount {v w : View} {k : Kind} (ht : Txn v k w) {x : FlowId} {n : UInt64}
    (h : v.byteCount x = some n) : w.byteCount x = some n := by
  cases ht with
  | lose worker =>
    exact View.byteCount_mapFlows (F := fun _ f => if Governor.rolls worker f then
        { f with assignedWorker := none, lastError := ascii "worker lost" } else f) h
      fun fid f _ => by split <;> rfl
  | moves k F hF =>
    refine View.byteCount_mapFlows h fun fid f hf => ?_
    rcases hF fid f hf with he | hm
    · rw [he]
    · rw [hm.keeps.1]
  | park spec t hnew => exact View.byteCount_setFlow rfl h (Or.inl hnew)
  | reserve spec p c t hnew => exact View.byteCount_setFlow rfl h (Or.inl hnew)
  | dequeue fid f p c t hf => exact View.byteCount_setFlow rfl h (Or.inr ⟨f, hf, rfl⟩)
  | cancel fid f reason hf =>
    rw [View.setFlow_releaseOf]
    exact View.byteCount_setFlow (v.releaseOf_flows f) h (Or.inr ⟨f, hf, rfl⟩)
  | complete fid f b t hf =>
    rw [View.setFlow_releaseOf]
    exact View.byteCount_setFlow (v.releaseOf_flows f) h (Or.inr ⟨f, hf, rfl⟩)
  | release rid =>
    rw [View.byteCount, (View.release_rest v rid).1]
    exact h
  | remint fid f p c hf => exact View.byteCount_setFlow rfl h (Or.inr ⟨f, hf, rfl⟩)
  | roll fid f p c worker boot hf =>
    exact View.byteCount_setFlow (v.releaseOf_flows f) h (Or.inr ⟨f, hf, rfl⟩)
  | rollStray fid f worker boot hf =>
    exact View.byteCount_setFlow (v.releaseOf_flows f) h (Or.inr ⟨f, hf, rfl⟩)
  | _ => exact h

/-- Nor does an event of a run without restoration. -/
theorem Governor.Step.byteCount {g g' : Governor} {e : Event} (hs : g.Step e g') (hwf : g.view.WF)
    (hlive : e.live = true) {x : FlowId} {n : UInt64} (h : g.view.byteCount x = some n) :
    g'.view.byteCount x = some n :=
  (step_ran hwf hlive hs).inv (I := fun v => v.byteCount x = some n)
    (fun _ _ _ _ hv ht => ht.byteCount hv) h

/-! ### What is credited -/

/-- A flow that nobody has reported on: nothing is credited. -/
def FlowRT.Blank (f : FlowRT) : Prop := f.bytesDone = 0 ∧ f.state ≠ .named .completed

/-- `f'` has the credit of `f`: the same bytes for the same attempt. -/
structure FlowRT.Kept (f f' : FlowRT) : Prop where
  bytes : f'.bytesDone = f.bytesDone
  attempt : f'.spec.attempt = f.spec.attempt
  generation : f'.spec.generation = f.spec.generation
  completed : f'.state = .named .completed → f.state = .named .completed

theorem FlowRT.Kept.refl (f : FlowRT) : f.Kept f := ⟨rfl, rfl, rfl, id⟩

/-- The transactions that stand for a report. -/
def Kind.reports : Kind → Bool
  | .progress _ => true
  | .complete _ => true
  | _ => false

/-- A flow of a later view is blank, or has the credit it had. -/
def View.Keeps (v : View) (fid : FlowId) (f' : FlowRT) : Prop :=
  f'.Blank ∨ ∃ f, v.flows fid = some f ∧ f.Kept f'

theorem View.keeps_setFlow {u v : View} (hu : u.flows = v.flows) {x fid : FlowId} {f₀ f' : FlowRT}
    (hf' : (u.setFlow fid f₀).flows x = some f') (h₀ : v.Keeps fid f₀) : v.Keeps x f' := by
  rcases View.setFlow_cases hf' with ⟨rfl, rfl⟩ | ⟨-, hf'⟩
  · exact h₀
  · exact Or.inr ⟨f', hu ▸ hf', .refl f'⟩

theorem FlowMove.kept {v : View} {k : Kind} {fid : FlowId} {f f' : FlowRT}
    (hm : FlowMove v k fid f f') (hk : k.reports = false) : f.Kept f' := by
  cases hm with
  | age => exact ⟨rfl, rfl, rfl, id⟩
  | dispatch o ng t =>
    cases o with
    | none => exact ⟨rfl, rfl, rfl, fun h => by cases h⟩
    | some o => exact ⟨rfl, rfl, rfl, fun h => by cases h⟩
  | regrade ng t =>
    refine ⟨rfl, rfl, rfl, fun h => ?_⟩
    dsimp only at h
    rcases Governor.gradeOf_cases f ng with hg | hg | hg
    all_goals
      rw [hg] at h
      cases h
  | resume => exact ⟨rfl, rfl, rfl, fun h => by cases h⟩
  | progress => cases hk

/-- A transaction that is no report credits nothing. -/
theorem Txn.kept {v w : View} {k : Kind} (ht : Txn v k w) (hk : k.reports = false) {x : FlowId}
    {f' : FlowRT} (hf' : w.flows x = some f') : v.Keeps x f' := by
  have hsame : v.flows x = some f' → v.Keeps x f' := fun h => Or.inr ⟨f', h, .refl f'⟩
  cases ht with
  | draw => exact hsame hf'
  | bump => exact hsame hf'
  | path => exact hsame hf'
  | join => exact hsame hf'
  | lose worker =>
    obtain ⟨f, hf, rfl⟩ := Option.map_eq_some_iff.mp hf'
    refine Or.inr ⟨f, hf, ?_⟩
    split <;> exact ⟨rfl, rfl, rfl, id⟩
  | moves k F hF =>
    obtain ⟨f, hf, rfl⟩ := Option.map_eq_some_iff.mp hf'
    refine Or.inr ⟨f, hf, ?_⟩
    rcases hF x f hf with he | hm
    · rw [he]
      exact .refl f
    · exact hm.kept hk
  | park spec t => exact View.keeps_setFlow rfl hf' (Or.inl ⟨rfl, by simp [parkedFlow]⟩)
  | reserve spec p c t =>
    exact View.keeps_setFlow rfl hf' (Or.inl ⟨rfl, by simp [reservedFlow]⟩)
  | dequeue fid f p c t hf =>
    exact View.keeps_setFlow rfl hf' (Or.inr ⟨f, hf, rfl, rfl, rfl, fun h => by cases h⟩)
  | cancel fid f reason hf =>
    rw [View.setFlow_releaseOf] at hf'
    exact View.keeps_setFlow (v.releaseOf_flows f) hf'
      (Or.inr ⟨f, hf, rfl, rfl, rfl, fun h => by cases h⟩)
  | complete => cases hk
  | release rid => exact hsame ((View.release_rest v rid).1 ▸ hf')
  | remint fid f p c hf =>
    exact View.keeps_setFlow rfl hf' (Or.inr ⟨f, hf, rfl, rfl, rfl, fun h => by cases h⟩)
  | roll fid f p c worker boot =>
    exact View.keeps_setFlow (v.releaseOf_flows f) hf' (Or.inl ⟨rfl, by simp⟩)
  | rollStray fid f worker boot =>
    exact View.keeps_setFlow (v.releaseOf_flows f) hf' (Or.inl ⟨rfl, by simp⟩)

/-- A statement on credits that holds of blank flows outlives every event that is no report. -/
theorem Governor.Step.kept {g g' : Governor} {e : Event} (hs : g.Step e g') (hwf : g.view.WF)
    (hlive : e.live = true) (hk : ∀ k, e.kinds k → k.reports = false)
    {P : FlowId → FlowRT → Prop} (hblank : ∀ fid f, f.Blank → P fid f)
    (hkept : ∀ fid f f', f.Kept f' → P fid f → P fid f')
    (h : ∀ fid f, g.flows.find? fid = some f → P fid f) :
    ∀ fid f, g'.flows.find? fid = some f → P fid f := by
  refine (step_ran hwf hlive hs).inv (I := fun v => ∀ fid f, v.flows fid = some f → P fid f)
    (fun v k w hp hv ht fid f' hf' => ?_) h
  rcases ht.kept (hk k hp) hf' with hb | ⟨f, hf, hkeep⟩
  · exact hblank fid f' hb
  · exact hkept fid f f' hkeep (hv fid f hf)

/-! ### Reports -/

namespace Governor

/-- The flows after a report on `flow`: it is credited, the others are as they were. -/
def Credits (g g' : Governor) (flow : FlowId) (attempt : AttemptId) (fgen : FlowGeneration)
    (boot : WorkerBootId) (bytes : UInt64) (state : Coded FlowState) : Prop :=
  ∀ x f', g'.flows.find? x = some f' → ∃ f, g.flows.find? x = some f ∧
    (f' = f ∨ x = flow ∧ g.authorised f attempt fgen boot = true ∧ f'.spec = f.spec ∧
      f'.bytesDone = max f.bytesDone bytes ∧ f'.state = state)

variable (g : Governor) (flow : FlowId) (attempt : AttemptId) (fgen : FlowGeneration)
  (boot : WorkerBootId) (bytes : UInt64)

theorem reportProgress_credits : g.Credits (g.reportProgress flow attempt fgen boot bytes).1
    flow attempt fgen boot bytes (.named .running) := by
  intro x f' hf'
  unfold reportProgress at hf'
  cases hf : g.flows.find? flow with
  | none =>
    rw [hf] at hf'
    exact ⟨f', hf', Or.inl rfl⟩
  | some f =>
    rw [hf] at hf'
    dsimp only at hf'
    split at hf'
    · rename_i ha
      rw [Table.find?_insert] at hf'
      split at hf'
      · rename_i hx
        refine ⟨f, hx ▸ hf, Or.inr ?_⟩
        rw [← Option.some.inj hf']
        exact ⟨hx, ha, rfl, rfl, authorised_running ha⟩
      · exact ⟨f', hf', Or.inl rfl⟩
    · exact ⟨f', hf', Or.inl rfl⟩

theorem reportCompletion_credits :
    g.Credits (stateAfter Prod.fst (g.reportCompletion flow attempt fgen boot bytes))
      flow attempt fgen boot bytes (.named .completed) := by
  intro x f' hf'
  unfold reportCompletion at hf'
  cases hf : g.flows.find? flow with
  | none =>
    rw [hf] at hf'
    exact ⟨f', hf', Or.inl rfl⟩
  | some f =>
    rw [hf] at hf'
    dsimp only at hf'
    split at hf'
    · rename_i ha
      rw [setFlowState_ok (f := { f with bytesDone := max f.bytesDone bytes }) (a := .running)
        (authorised_running ha) (Or.inr (by decide))] at hf'
      change (Governor.view _).flows x = some f' at hf'
      simp only [stateAfter, view_recomputeUsage, view_releaseOf, view_countCompletion,
        view_insertFlow, View.releaseOf_flows] at hf'
      rcases View.setFlow_cases hf' with ⟨rfl, rfl⟩ | ⟨-, hf'⟩
      · exact ⟨f, hf, Or.inr ⟨rfl, ha, rfl, rfl, rfl⟩⟩
      · exact ⟨f', hf', Or.inl rfl⟩
    · exact ⟨f', hf', Or.inl rfl⟩

end Governor

end BG
