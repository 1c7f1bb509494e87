import Mathlib
import BandwidthGovernor.Governor.Effects

/-! Every operation is a run of transactions.

    `Op.kinds` says which transactions an operation may make; `apply_ran` that on a well-formed
    state it makes no others. `Reaches.inv` turns an invariant of the transactions into one of the
    coordinator. -/

namespace BG

open Lib

/-- The worker table entry of a registration. -/
def WorkerRegistration.entry (reg : WorkerRegistration) : WorkerRT :=
  { id := reg.worker, boot := reg.boot, backend := reg.backend, protocol := reg.protocolVersion
    alive := true, backResources := reg.inventory.map ResourceSpec.id }

/-- The transactions an operation may make. -/
def Op.kinds : Op → Kind → Prop
  | .setAutoClock _, _ => False
  | .advanceMs _, _ => False
  | .addResource _, k => k = .draw
  | .updateCapacity _ _ _ _ _ _ _, k => k = .bump
  | .setResourceEnabled _ _, _ => False
  | .invalidateResourceCapacity _, k => k = .bump
  | .addPath _, k => k = .path
  | .invalidatePath _, k => k = .path
  | .submitFlow spec, k => k = .submit spec
  | .cancelFlow flow _, k => k = .cancel flow
  | .resumeFlow flow, k => k = .resume flow
  | .tick, k => k = .age ∨ k = .settle ∨ ∃ fid, k = .dequeue fid
  | .releaseReservation rid, k => k = .release rid
  | .registerWorker reg, k =>
    k = .draw ∨ k = .join reg.entry ∨ ∃ fid, k = .roll fid reg.worker reg.boot
  | .deregisterWorker worker, k => k = .lose worker
  | .reportProgress flow _ _ _ _, k => k = .progress flow
  | .reportCompletion flow _ _ _ _, k => k = .complete flow
  | .restore _, _ => True

def Event.kinds : Event → Kind → Prop
  | .call op => op.kinds
  | _ => fun _ => False

/-- The views of two states are joined by transactions of the kinds in `P`. -/
def Ran (P : Kind → Prop) (g g' : Governor) : Prop :=
  ∃ ks, Run Txn g.view ks g'.view ∧ ∀ k ∈ ks, P k

namespace Ran
variable {P Q : Kind → Prop} {g g' g'' : Governor}

theorem of_view (h : g'.view = g.view) : Ran P g g' := ⟨[], h ▸ Run.nil _, by simp⟩

theorem one {k : Kind} (h : Txn g.view k g'.view) (hk : P k) : Ran P g g' :=
  ⟨[k], Run.single h, by simpa using hk⟩

theorem trans (h : Ran P g g') (h' : Ran P g' g'') : Ran P g g'' := by
  obtain ⟨ks, hr, hk⟩ := h
  obtain ⟨ks', hr', hk'⟩ := h'
  exact ⟨ks ++ ks', hr.append hr', fun k hm => (List.mem_append.mp hm).elim (hk k) (hk' k)⟩

theorem mono (h : Ran P g g') (hPQ : ∀ k, P k → Q k) : Ran Q g g' := by
  obtain ⟨ks, hr, hk⟩ := h
  exact ⟨ks, hr, fun k hm => hPQ k (hk k hm)⟩

/-- An invariant of the transactions of the kinds in `P` holds at the end. -/
theorem inv {I : View → Prop} (h : Ran P g g')
    (hstep : ∀ v k w, P k → I v → Txn v k w → I w) (h₀ : I g.view) : I g'.view := by
  obtain ⟨ks, hr, hk⟩ := h
  exact hr.inv_of hstep hk h₀

theorem wf (h : Ran P g g') (hwf : g.view.WF) : g'.view.WF :=
  h.inv (fun _ _ _ _ hv ht => ht.wf hv) hwf

end Ran

/-- A loop each of whose turns is a run of transactions is one. -/
theorem foldlM_ran {α : Type} {P : Kind → Prop} {body : Governor → α → Except Fault Governor}
    (hbody : ∀ g a, g.view.WF → ∃ g', body g a = .ok g' ∧ Ran P g g') :
    ∀ (l : List α) (g : Governor), g.view.WF → ∃ g', l.foldlM body g = .ok g' ∧ Ran P g g'
  | [], g, _ => ⟨g, rfl, .of_view rfl⟩
  | a :: l, g, hwf => by
    obtain ⟨g₁, h₁, hr₁⟩ := hbody g a hwf
    obtain ⟨g₂, h₂, hr₂⟩ := foldlM_ran hbody l g₁ (hr₁.wf hwf)
    refine ⟨g₂, ?_, hr₁.trans hr₂⟩
    rw [List.foldlM_cons, h₁]
    exact h₂

namespace Governor

/-! ### Resources and paths -/

theorem installResource_ran (g : Governor) (spec : ResourceSpec) (write : ResRT → ResRT) :
    Ran (· = .draw) g (g.installResource spec write) := by
  unfold installResource
  by_cases h : spec.generation.isNull = true
  · simp only [h, if_true]
    exact .one (.draw g.view) rfl
  · simp only [h]
    exact .of_view rfl

theorem updateCapacity_ran (g : Governor) (res : ResourceId) (measured confidence : ℚ)
    (provenance : Str) (latency : ℚ) (depth : UInt64) (bump : Bool) : Ran (· = .bump) g
      (stateAfter id (g.updateCapacity res measured confidence provenance latency depth bump)) := by
  unfold updateCapacity
  cases g.resources.find? res with
  | none => exact .of_view rfl
  | some r =>
    dsimp only
    split
    · exact .of_view rfl
    · cases bump
      · exact .of_view rfl
      · exact .one (.bump g.view) rfl

theorem view_setResourceEnabled (g : Governor) (res : ResourceId) (enabled : Bool) :
    (g.setResourceEnabled res enabled).view = g.view := by
  unfold setResourceEnabled
  cases g.resources.find? res <;> rfl

theorem invalidateResourceCapacity_ran (g : Governor) (res : ResourceId) :
    Ran (· = .bump) g (g.invalidateResourceCapacity res) := by
  unfold invalidateResourceCapacity
  cases g.resources.find? res with
  | none => exact .of_view rfl
  | some r => exact .one (.bump g.view) rfl

theorem view_withPaths (g : Governor) (t : Table PathId Path) :
    ({ g with paths := t } : Governor).view = { g.view with paths := t.find? } := rfl

theorem addPath_ran (g : Governor) (path : Path) :
    Ran (· = .path) g (stateAfter id (g.addPath path)) := by
  unfold addPath
  cases hv : validatePath path with
  | some err => exact .of_view rfl
  | none =>
    refine .one (k := .path) ?_ rfl
    simp only [stateAfter, id, view_withPaths g (g.paths.insert path.id path), find?_insert_eq]
    exact .path g.view path (validatePath_nodup hv)

theorem invalidatePath_ran {g : Governor} (hwf : g.view.WF) (pid : PathId) :
    Ran (· = .path) g (g.invalidatePath pid) := by
  cases hp : g.paths.find? pid with
  | none =>
    refine .of_view ?_
    have hpaths : (g.paths.modify pid fun p =>
        { p with pathGeneration := nextGeneration p.pathGeneration }).find? = g.paths.find? := by
      funext pid'
      rw [Table.find?_modify]
      split
      · rename_i h; rw [h, hp]; rfl
      · rfl
    rw [invalidatePath, view_withPaths g (g.paths.modify pid _), hpaths]
    rfl
  | some p =>
    have hid : p.id = pid := hwf.pathKeyed pid p hp
    have hpaths : (g.paths.modify pid fun p =>
        { p with pathGeneration := nextGeneration p.pathGeneration }).find? =
        Function.update g.paths.find? p.id
          (some { p with pathGeneration := nextGeneration p.pathGeneration }) := by
      funext pid'
      rw [Table.find?_modify, Function.update_apply]
      subst hid
      split
      · rename_i h; rw [h, hp]; rfl
      · rfl
    refine .one (k := .path) ?_ rfl
    rw [invalidatePath, view_withPaths g (g.paths.modify pid _), hpaths]
    exact .path g.view { p with pathGeneration := nextGeneration p.pathGeneration }
      (hwf.simple pid p hp)

/-! ### Flows -/

theorem submitFlow_ran (g : Governor) (spec : FlowSpec) :
    Ran (· = .submit spec) g (stateAfter Prod.fst (g.submitFlow spec)) := by
  obtain ⟨g', res, hok, hs⟩ := g.submitFlow_spec spec
  rw [hok, stateAfter]
  generalize res.admitted = b at hs
  cases hs with
  | refused => exact .of_view rfl
  | parked path hv hnew hp _ =>
    refine .one (k := .submit spec) ?_ rfl
    rw [parked, view_insertFlow]
    exact .park spec _ hnew hv ⟨path, hp⟩
  | admitted path c hv hnew hp _ hc =>
    refine .one (k := .submit spec) ?_ rfl
    rw [view_recomputeUsage, admitted, view_insertFlow, view_fileReservation]
    exact .reserve spec path c _ hnew hv hp
      (hc ▸ (initialGrant_mem (validateFlowSpec_envelope hv) _).2)

theorem cancelFlow_ran (g : Governor) (fid : FlowId) (reason : Str) :
    Ran (· = .cancel fid) g (stateAfter Prod.fst (g.cancelFlow fid reason)) := by
  unfold cancelFlow
  cases hf : g.flows.find? fid with
  | none => exact .of_view rfl
  | some f =>
    dsimp only
    by_cases ht : isTerminal f.state = true
    · rw [if_pos ht]; exact .of_view rfl
    · rw [if_neg ht]
      cases hset : setFlowState f .cancelled with
      | error e => exact .of_view rfl
      | ok f' =>
        refine .one (k := .cancel fid) ?_ rfl
        rw [setFlowState_eq_ok hset]
        simp only [stateAfter, view_recomputeUsage, view_releaseOf, view_insertFlow]
        exact .cancel fid f reason hf (by simpa using ht)

theorem max_granted_capacity {fid : FlowId} {f : FlowRT} (h : FlowOk fid f) :
    ∃ c : Capacity, c.value = max f.granted f.spec.requestedMin.value ∧
      c.value ≤ f.spec.requestedMax.value := by
  have hle : max f.granted f.spec.requestedMin.value ≤ f.spec.requestedMax.value :=
    max_le h.granted.2 (h.envelope.min_le.trans h.envelope.le_max)
  exact ⟨⟨_, isValidRate_iff.mpr ⟨le_max_of_le_left h.granted.1,
    hle.trans f.spec.requestedMax.le_max⟩⟩, rfl, hle⟩

theorem rollGrant_capacity {fid : FlowId} {f : FlowRT} (h : FlowOk fid f) :
    ∃ c : Capacity, c.value = rollGrant f ∧ c.value ≤ f.spec.requestedMax.value := by
  unfold rollGrant
  dsimp only
  split
  · exact ⟨f.spec.requestedPreferred, rfl, h.envelope.le_max⟩
  · exact max_granted_capacity h

/-- `resume_flow` re-reserves a flow that has no reservation and whose path is known. -/
theorem rereserve_spec (g : Governor) {f : FlowRT} (hr : 0 ≤ f.granted ∧ f.granted ≤ kMaxRate) :
    g.rereserve f = .ok (f, g) ∨ ∃ path c, f.reservation = none ∧
      g.paths.find? f.spec.path = some path ∧
      g.rereserve f = .ok ({ f with reservation := some g.gen.next.1 },
        g.fileReservation (g.view.minted f.spec .null path.hops c)) := by
  unfold rereserve
  cases hrsv : f.reservation with
  | some rid => exact Or.inl rfl
  | none =>
    cases hp : g.paths.find? f.spec.path with
    | none => exact Or.inl rfl
    | some path =>
      have hc : isValidRate (max f.granted f.spec.requestedMin.value) = true :=
        isValidRate_iff.mpr ⟨le_max_of_le_left hr.1, max_le hr.2 f.spec.requestedMin.le_max⟩
      have hmint := g.mintReservation_ok f.spec .null path.hops ⟨_, hc⟩
      refine Or.inr ⟨path, ⟨_, hc⟩, rfl, rfl, ?_⟩
      dsimp only at hmint ⊢
      rw [hmint]
      rfl

/-- A flow that is Preempted or Throttled can be resumed. -/
theorem setFlowState_resumed {f : FlowRT}
    (h : f.state = .named .preempted ∨ f.state = .named .throttled) :
    setFlowState f .reserved = .ok { f with state := .named .reserved } := by
  rcases h with hp | ht
  · exact setFlowState_ok hp (Or.inr (by decide))
  · exact setFlowState_ok ht (Or.inr (by decide))

theorem resumeFlow_ran {g : Governor} (hwf : g.view.WF) (fid : FlowId) :
    Ran (· = .resume fid) g (stateAfter Prod.fst (g.resumeFlow fid)) := by
  unfold resumeFlow
  cases hf : g.flows.find? fid with
  | none => exact .of_view rfl
  | some f =>
    dsimp only
    by_cases hs : f.state ≠ .named .preempted ∧ f.state ≠ .named .throttled
    · rw [if_pos hs]; exact .of_view rfl
    · rw [if_neg hs]
      have hstate : f.state = .named .preempted ∨ f.state = .named .throttled := by
        by_contra h
        exact hs (not_or.mp h)
      refine .one (k := .resume fid) ?_ rfl
      rcases g.rereserve_spec (hwf.flowOk hf).rated with h | ⟨path, c, hr, hp, h⟩
      · simp only [h, bind, Except.bind, setFlowState_resumed hstate, stateAfter, view_insertFlow]
        exact .move hf (.resume hstate)
      · simp only [h, bind, Except.bind]
        rw [setFlowState_resumed (f := { f with reservation := some g.gen.next.1 }) hstate]
        simp only [stateAfter, view_insertFlow, view_fileReservation]
        exact .remint fid f path c hf hstate hr hp

/-! ### Reservations and reports -/

theorem releaseReservation_ran (g : Governor) (rid : ReservationId) :
    Ran (· = .release rid) g (g.releaseReservation rid).1 := by
  unfold releaseReservation
  cases g.reservations.find? rid with
  | none => exact .of_view rfl
  | some rsv =>
    dsimp only
    split
    · exact .of_view rfl
    · refine .one (k := .release rid) ?_ rfl
      simp only [view_recomputeSaturation, view_recomputeReserved,
        view_releaseReservationInternal]
      exact .release g.view rid

theorem authorised_running {g : Governor} {f : FlowRT} {attempt : AttemptId}
    {fgen : FlowGeneration} {boot : WorkerBootId} (h : g.authorised f attempt fgen boot = true) :
    f.state = .named .running := by
  simp only [authorised, Bool.and_eq_true, decide_eq_true_eq] at h
  exact h.1.1.1.1

theorem reportProgress_ran (g : Governor) (fid : FlowId) (attempt : AttemptId)
    (fgen : FlowGeneration) (boot : WorkerBootId) (bytes : UInt64) :
    Ran (· = .progress fid) g (g.reportProgress fid attempt fgen boot bytes).1 := by
  unfold reportProgress
  cases hf : g.flows.find? fid with
  | none => exact .of_view rfl
  | some f =>
    dsimp only
    split
    · rename_i ha
      refine .one (k := .progress fid) ?_ rfl
      simp only [view_insertFlow]
      exact .move hf (.progress _ _ (authorised_running ha))
    · exact .of_view rfl

theorem reportCompletion_ran (g : Governor) (fid : FlowId) (attempt : AttemptId)
    (fgen : FlowGeneration) (boot : WorkerBootId) (bytes : UInt64) :
    Ran (· = .complete fid) g
      (stateAfter Prod.fst (g.reportCompletion fid attempt fgen boot bytes)) := by
  unfold reportCompletion
  cases hf : g.flows.find? fid with
  | none => exact .of_view rfl
  | some f =>
    dsimp only
    split
    · rename_i ha
      have hrun := authorised_running ha
      rw [setFlowState_ok (f := { f with bytesDone := max f.bytesDone bytes }) (a := .running) hrun
        (Or.inr (by decide))]
      refine .one (k := .complete fid) ?_ rfl
      simp only [stateAfter, view_recomputeUsage, view_releaseOf, view_countCompletion,
        view_insertFlow]
      exact .complete fid f _ _ hf hrun
    · exact .of_view rfl

/-! ### The tick -/

theorem advanceTenantStarvation_ran (g : Governor) (t : ℚ) :
    Ran (· = .age) g (g.advanceTenantStarvation t) := by
  refine .one (k := .age) ?_ rfl
  unfold advanceTenantStarvation
  simp only [view_mapFlows]
  refine .moves .age _ fun fid f hf => ?_
  split
  · exact Or.inl rfl
  · rename_i h
    exact Or.inr (.age _ _ h)

theorem drainQueue_ran {g : Governor} (hwf : g.view.WF) :
    ∃ g', g.drainQueue = .ok g' ∧ Ran (fun k => ∃ fid, k = .dequeue fid) g g' := by
  unfold drainQueue
  refine foldlM_ran (fun g fid hwf => ?_) _ g hwf
  cases hf : g.flows.find? fid with
  | none => exact ⟨g, rfl, .of_view rfl⟩
  | some f =>
    dsimp only
    by_cases hq : f.state = .named .queued
    · rw [if_neg (not_not_intro hq)]
      rcases g.admitQueued_spec fid (hwf.envelope fid f hf) hq with h | ⟨path, c, hp, hc, h⟩
      · exact ⟨g, h, .of_view rfl⟩
      · refine ⟨_, h, .one (k := .dequeue fid) ?_ ⟨fid, rfl⟩⟩
        rw [dequeued, view_insertFlow, view_fileReservation]
        exact .dequeue fid f path c _ hf hq hp hc
    · rw [if_pos hq]
      exact ⟨g, rfl, .of_view rfl⟩

/-- `tick` up to arbitration drains the queue, then refreshes the figures. -/
theorem prepareTick_ran {g : Governor} (hwf : g.view.WF) :
    ∃ g', g.prepareTick = .ok g'.recomputeGoverned.recomputeReserved ∧
      Ran (fun k => k = .age ∨ ∃ fid, k = .dequeue fid) g g' := by
  have hage := g.advanceTenantStarvation_ran g.now
  obtain ⟨g', hok, hdrain⟩ := drainQueue_ran (hage.wf hwf)
  refine ⟨g', ?_, (hage.mono fun k h => Or.inl h).trans (hdrain.mono fun k h => Or.inr h)⟩
  simp only [prepareTick, hok]
  rfl

/-- What a well-formed view says about the tables themselves. -/
theorem keyed_of_wf {g : Governor} (h : g.view.WF) : g.FlowsKeyed := fun fid f hf =>
  h.keyed fid f hf

theorem enveloped_of_wf {g : Governor} (h : g.view.WF) : g.Enveloped := fun f hf => by
  obtain ⟨e, he, rfl⟩ := List.mem_map.mp hf
  exact h.envelope e.1 e.2 (Table.find?_of_mem he)

theorem pickWorkerForPath_alive {g : Governor} {pid : PathId} {wid : WorkerId} {w : WorkerRT}
    (h : g.pickWorkerForPath pid = some (wid, w)) :
    g.workers.find? wid = some w ∧ w.alive = true := by
  unfold pickWorkerForPath at h
  cases hp : g.paths.find? pid with
  | none => rw [hp] at h; cases h
  | some p =>
    rw [hp] at h
    have hs := List.find?_some h
    rw [Bool.and_eq_true] at hs
    exact ⟨Table.find?_of_mem (List.mem_of_find?_eq_some h), hs.1⟩

theorem arbitrate_ran {g : Governor} (hwf : g.view.WF) :
    ∃ g', g.arbitrate = .ok g' ∧ Ran (· = .settle) g g' := by
  refine ⟨_, g.arbitrate_eq, .one (k := .settle) ?_ rfl⟩
  rw [arbitrated, view_recomputeUsage, view_mapFlows]
  refine .moves .settle _ fun fid f hf => ?_
  obtain ⟨h₀, h₁⟩ := grantOf_mem (keyed_of_wf hwf) (enveloped_of_wf hwf) g.now hf
  unfold settled
  dsimp only
  split
  · rename_i hr
    exact Or.inr (.dispatch _ _ _ hr (fun wid w h => pickWorkerForPath_alive h) h₀ h₁)
  · split
    · rename_i hm
      exact Or.inr (.regrade _ _ hm h₀ h₁)
    · exact Or.inl rfl

theorem tick_ran {g : Governor} (hwf : g.view.WF) :
    ∃ g', g.tick = .ok g' ∧ Ran Op.tick.kinds g g' := by
  obtain ⟨g₁, h₁, hr₁⟩ := prepareTick_ran hwf
  have hr₁' : Ran Op.tick.kinds g g₁.recomputeGoverned.recomputeReserved :=
    (hr₁.mono fun k h => h.imp_right Or.inr).trans (.of_view rfl)
  obtain ⟨g₂, h₂, hr₂⟩ := arbitrate_ran (hr₁'.wf hwf)
  refine ⟨g₂, ?_, hr₁'.trans (hr₂.mono fun k h => Or.inr (Or.inl h))⟩
  simp only [tick, h₁]
  exact h₂

/-! ### Workers -/

theorem foldl_installResource_ran : ∀ (l : List ResourceSpec) (g : Governor),
    Ran (· = .draw) g (l.foldl (fun g rs => g.installResource rs id) g)
  | [], _ => .of_view rfl
  | rs :: l, g => (g.installResource_ran rs id).trans (foldl_installResource_ran l _)

theorem view_enrol (g : Governor) (reg : WorkerRegistration) : (g.enrol reg).view =
    (reg.inventory.foldl (fun g rs => g.installResource rs id) g).view.join reg.entry := by
  simp only [enrol, view, View.join, find?_insert_eq]
  rfl

theorem enrol_flows (g : Governor) (reg : WorkerRegistration) : (g.enrol reg).flows = g.flows := by
  have hfold : ∀ (l : List ResourceSpec) (g : Governor),
      (l.foldl (fun g rs => g.installResource rs id) g).flows = g.flows := by
    intro l
    induction l with
    | nil => exact fun g => rfl
    | cons rs l ih => exact fun g => (ih _).trans rfl
  exact hfold reg.inventory g

theorem enrol_ran (g : Governor) (reg : WorkerRegistration) :
    Ran (fun k => k = .draw ∨ k = .join reg.entry) g (g.enrol reg) := by
  refine ((foldl_installResource_ran reg.inventory g).mono fun k h => Or.inl h).trans ?_
  refine .one (k := .join reg.entry) ?_ (Or.inr rfl)
  rw [view_enrol]
  exact .join _ reg.entry

theorem rolls_iff {worker : WorkerId} {f : FlowRT} : rolls worker f = true ↔
    f.state = .named .running ∧ f.assignedWorker = some worker := by
  simp [rolls]

theorem releaseOf_gen (g : Governor) (f : FlowRT) : (g.releaseOf f).gen = g.gen := by
  rw [← view_gen, view_releaseOf, View.releaseOf_gen, view_gen]

theorem releaseOf_paths (g : Governor) (f : FlowRT) :
    (g.releaseOf f).paths.find? = g.paths.find? := by
  rw [← view_paths, view_releaseOf, View.releaseOf_paths, view_paths]

/-- The state with one identity drawn. -/
def drawn (g : Governor) : Governor := { g with gen := g.gen.drawn }

theorem view_releaseOf_drawn (g : Governor) (f : FlowRT) :
    (g.releaseOf f).drawn.view = (g.view.releaseOf f).draw := by
  rw [← view_releaseOf]
  rfl

theorem setFlowState_reserved {f : FlowRT} (h : f.state = .named .running) :
    setFlowState f .reserved = .ok { f with state := .named .reserved } :=
  setFlowState_ok h (Or.inr (by decide))

/-- The roll of a flow whose path is unknown. -/
theorem rollFlow_stray {g : Governor} (worker : WorkerId) (boot : WorkerBootId) (fid : FlowId)
    {f : FlowRT} (hrun : f.state = .named .running) (hp : g.paths.find? f.spec.path = none) :
    g.rollFlow worker boot fid f = .ok { (g.releaseOf f).drawn with
      flows := (g.releaseOf f).drawn.flows.insert fid
        { rolledFlow f (g.releaseOf f).gen.next.1 worker boot with
          state := .named .reserved } } := by
  have hset := setFlowState_reserved (f := rolledFlow f (g.releaseOf f).gen.next.1 worker boot) hrun
  simp only [rollFlow, releaseOf_paths, hp]
  exact fileReserved_ok (g.releaseOf f).drawn fid id hset

/-- The roll of a flow on a known path. -/
theorem rollFlow_reminted {g : Governor} (worker : WorkerId) (boot : WorkerBootId) (fid : FlowId)
    {f : FlowRT} (hrun : f.state = .named .running) {path : Path}
    (hp : g.paths.find? f.spec.path = some path) {c : Capacity} (hc : c.value = rollGrant f) :
    g.rollFlow worker boot fid f =
      let f₁ := rolledFlow f (g.releaseOf f).gen.next.1 worker boot
      let rsv := (g.releaseOf f).drawn.view.minted f₁.spec boot path.hops c
      let g₂ := (g.releaseOf f).drawn.fileReservation rsv
      .ok { g₂ with flows := g₂.flows.insert fid { f₁ with
        reservation := some rsv.id, granted := c.value, state := .named .reserved } } := by
  have hmint := (g.releaseOf f).drawn.mintReservation_ok
    (rolledFlow f (g.releaseOf f).gen.next.1 worker boot).spec boot path.hops c
  rw [hc] at hmint ⊢
  simp only [rollFlow, releaseOf_paths, hp]
  erw [hmint]
  simp only [bind, Except.bind]
  rw [setFlowState_reserved]
  · rfl
  · exact hrun

/-- A restart roll succeeds and is a transaction. -/
theorem rollFlow_ran {g : Governor} (hwf : g.view.WF) {worker : WorkerId} (boot : WorkerBootId)
    {fid : FlowId} {f : FlowRT} (hf : g.flows.find? fid = some f) (hr : rolls worker f = true) :
    ∃ g', g.rollFlow worker boot fid f = .ok g' ∧ Txn g.view (.roll fid worker boot) g'.view := by
  obtain ⟨hrun, hw⟩ := rolls_iff.mp hr
  cases hp : g.paths.find? f.spec.path with
  | none =>
    refine ⟨_, rollFlow_stray worker boot fid hrun hp, ?_⟩
    rw [view_insertFlow, view_releaseOf_drawn, releaseOf_gen]
    exact .rollStray fid f worker boot hf hrun hw hp
  | some path =>
    obtain ⟨c, hc, hmax⟩ := rollGrant_capacity (hwf.flowOk hf)
    refine ⟨_, rollFlow_reminted worker boot fid hrun hp hc, ?_⟩
    rw [view_insertFlow, view_fileReservation, view_releaseOf_drawn, releaseOf_gen]
    exact .roll (v := g.view) fid f path c worker boot hf hrun hw hp hmax

/-- The roll loop reads the flows as they were before it, which it may: a turn only writes its own
    flow. -/
theorem foldlM_rollFlow_ran (worker : WorkerId) (boot : WorkerBootId) :
    ∀ (l : List (FlowId × FlowRT)) (g : Governor), g.view.WF → (l.map Prod.fst).Nodup →
    (∀ e ∈ l, g.flows.find? e.1 = some e.2) →
    ∃ g', l.foldlM (fun g e => if rolls worker e.2 then g.rollFlow worker boot e.1 e.2 else .ok g)
      g = .ok g' ∧ Ran (fun k => ∃ fid, k = .roll fid worker boot) g g'
  | [], g, _, _, _ => ⟨g, rfl, .of_view rfl⟩
  | e :: l, g, hwf, hnd, hfind => by
    rw [List.map_cons, List.nodup_cons] at hnd
    rw [List.forall_mem_cons] at hfind
    by_cases hr : rolls worker e.2 = true
    · obtain ⟨g₁, h₁, ht⟩ := rollFlow_ran hwf boot hfind.1 hr
      have hran : Ran (fun k => ∃ fid, k = .roll fid worker boot) g g₁ := .one ht ⟨e.1, rfl⟩
      have hkeep : ∀ e' ∈ l, g₁.flows.find? e'.1 = some e'.2 := fun e' he' => by
        have hne : e'.1 ≠ e.1 := fun h => hnd.1 (h ▸ List.mem_map_of_mem he')
        rw [← view_flows, ht.roll_flows hne]
        exact hfind.2 e' he'
      obtain ⟨g₂, h₂, hr₂⟩ := foldlM_rollFlow_ran worker boot l g₁ (hran.wf hwf) hnd.2 hkeep
      refine ⟨g₂, ?_, hran.trans hr₂⟩
      rw [List.foldlM_cons, if_pos hr, h₁]
      exact h₂
    · obtain ⟨g₂, h₂, hr₂⟩ := foldlM_rollFlow_ran worker boot l g hwf hnd.2 hfind.2
      refine ⟨g₂, ?_, hr₂⟩
      rw [List.foldlM_cons, if_neg hr]
      exact h₂

/-- A registration enters the worker, then rolls the flows of a restarted one. -/
theorem registerWorker_rolls {g : Governor} (hwf : g.view.WF) (reg : WorkerRegistration) :
    ∃ g', g.registerWorker reg = .ok g' ∧
      Ran (fun k => ∃ fid, k = .roll fid reg.worker reg.boot) (g.enrol reg) g' := by
  unfold registerWorker
  dsimp only
  by_cases h : g.isRestart reg = true
  · obtain ⟨g₁, h₁, hr₁⟩ := foldlM_rollFlow_ran reg.worker reg.boot
      (g.enrol reg).flows.entries (g.enrol reg) ((g.enrol_ran reg).wf hwf) (g.enrol reg).flows.nodup
      fun e he => Table.find?_of_mem he
    refine ⟨g₁.recomputeGoverned, ?_, hr₁.trans (.of_view rfl)⟩
    rw [if_pos h, h₁]
    rfl
  · rw [if_neg h]
    exact ⟨_, rfl, .of_view rfl⟩

theorem registerWorker_ran {g : Governor} (hwf : g.view.WF) (reg : WorkerRegistration) :
    ∃ g', g.registerWorker reg = .ok g' ∧ Ran (Op.registerWorker reg).kinds g g' := by
  obtain ⟨g', hok, hr⟩ := registerWorker_rolls hwf reg
  exact ⟨g', hok, ((g.enrol_ran reg).mono fun k h => h.imp_right Or.inl).trans
    (hr.mono fun k h => Or.inr (Or.inr h))⟩

theorem deregisterWorker_ran (g : Governor) (worker : WorkerId) :
    Ran (· = .lose worker) g (g.deregisterWorker worker) := by
  refine .one (k := .lose worker) ?_ rfl
  have hview : (g.deregisterWorker worker).view = g.view.lose worker := by
    simp only [deregisterWorker, view, View.lose, View.mk.injEq, and_true, true_and]
    refine ⟨?_, ?_⟩
    · funext fid
      exact Table.find?_mapVals _ _ _
    · funext wid
      exact Table.find?_modify _ _ _ _
  exact hview ▸ .lose g.view worker

end Governor

/-! ### Whole runs -/

/-- An operation other than a restoration makes only transactions of its own kinds. -/
theorem apply_ran {g : Governor} (hwf : g.view.WF) {op : Op}
    (hlive : (Event.call op).live = true) : Ran op.kinds g (g.apply op) := by
  cases op with
  | setAutoClock auto => exact .of_view rfl
  | advanceMs dt => exact .of_view rfl
  | addResource spec =>
    exact (g.installResource_ran spec fun r => { r with confidence := 0 }).trans (.of_view rfl)
  | updateCapacity res measured confidence provenance latency depth bump =>
    exact g.updateCapacity_ran res measured confidence provenance latency depth bump
  | setResourceEnabled res enabled => exact .of_view (g.view_setResourceEnabled res enabled)
  | invalidateResourceCapacity res => exact g.invalidateResourceCapacity_ran res
  | addPath path => exact g.addPath_ran path
  | invalidatePath path => exact Governor.invalidatePath_ran hwf path
  | submitFlow spec => exact g.submitFlow_ran spec
  | cancelFlow flow reason => exact g.cancelFlow_ran flow reason
  | resumeFlow flow => exact Governor.resumeFlow_ran hwf flow
  | tick =>
    obtain ⟨g', h, hr⟩ := Governor.tick_ran hwf
    simpa only [Governor.apply, h, stateAfter, id] using hr
  | releaseReservation rid => exact g.releaseReservation_ran rid
  | registerWorker reg =>
    obtain ⟨g', h, hr⟩ := Governor.registerWorker_ran hwf reg
    simpa only [Governor.apply, h, stateAfter, id] using hr
  | deregisterWorker worker => exact g.deregisterWorker_ran worker
  | reportProgress flow attempt fgen boot bytes =>
    exact g.reportProgress_ran flow attempt fgen boot bytes
  | reportCompletion flow attempt fgen boot bytes =>
    exact g.reportCompletion_ran flow attempt fgen boot bytes
  | restore snap => cases hlive

theorem Governor.Rehashed.view {g h : Governor} (hr : g.Rehashed h) : h.view = g.view := by
  have hrest := hr.rest
  have hf : h.flows.find? = g.flows.find? := funext fun k => (hr.flows.find? k).symm
  have hv : h.reservations.find? = g.reservations.find? :=
    funext fun k => (hr.reservations.find? k).symm
  have hw : h.workers.find? = g.workers.find? := funext fun k => (hr.workers.find? k).symm
  have hp : h.paths.find? = g.paths.find? := funext fun k => (hr.paths.find? k).symm
  rw [Governor.view, hf, hv, hw, hp, hrest]
  rfl

/-- One event of a run without restoration. -/
theorem step_ran {g h : Governor} {e : Event} (hwf : g.view.WF) (hlive : e.live = true)
    (hs : g.Step e h) : Ran e.kinds g h := by
  cases hs with
  | call op => exact apply_ran hwf hlive
  | clock t => exact .of_view rfl
  | rehash hr => exact .of_view hr.view

/-- A run of live events from a well-formed state: an invariant of the transactions the events may
    make, from the start to the end. -/
theorem run_inv {I : View → Prop} {g h : Governor} {es : List Event}
    (hrun : Run Governor.Step g es h) (hwf : g.view.WF) (hlive : ∀ e ∈ es, e.live = true)
    (hstep : ∀ e ∈ es, ∀ v k w, e.kinds k → v.WF → I v → Txn v k w → I w) (h₀ : I g.view) :
    h.view.WF ∧ I h.view := by
  refine hrun.inv_of (P := fun g => g.view.WF ∧ I g.view) (Q := fun e => e ∈ es)
    (fun g e h he hg hs => ?_) (fun e he => he) ⟨hwf, h₀⟩
  refine (step_ran hg.1 (hlive e he) hs).inv (I := fun v => v.WF ∧ I v)
    (fun v k w hk hv ht => ?_) hg
  exact ⟨ht.wf hv.1, hstep e he v k w hk hv.1 hv.2 ht⟩

/-- A fresh coordinator has empty tables. -/
theorem Governor.Fresh.view {g : Governor} (h : g.Fresh) : (∀ fid, g.view.flows fid = none) ∧
    (∀ rid, g.view.reservations rid = none) ∧ (∀ wid, g.view.workers wid = none) ∧
    ∀ pid, g.view.paths pid = none := by
  obtain ⟨entropy, config, steady, rfl⟩ := h
  exact ⟨fun _ => rfl, fun _ => rfl, fun _ => rfl, fun _ => rfl⟩

theorem Governor.Fresh.wf {g : Governor} (h : g.Fresh) : g.view.WF := by
  obtain ⟨hf, -, -, hp⟩ := h.view
  constructor
  all_goals
    intro i x hx
    simp [hf, hp] at hx

/-- Every reachable state is well-formed. -/
theorem Reaches.wf {es : List Event} {g : Governor} (h : Reaches es g) : g.view.WF := by
  obtain ⟨hlive, g₀, hfresh, hrun⟩ := h
  exact (run_inv (I := fun _ => True) hrun hfresh.wf hlive (fun _ _ _ _ _ _ _ _ _ => trivial)
    trivial).1

end BG
