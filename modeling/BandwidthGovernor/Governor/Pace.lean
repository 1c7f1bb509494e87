import Mathlib
import BandwidthGovernor.Governor.Independence
import BandwidthGovernor.Governor.Waiting

/-! What the operations do to what a flow is paced by: its state, its grant, its worker and its
    reservation.

    A tick decides anew about the flows it arbitrates, a cancellation and a completion about the
    flow they name. Every other operation leaves a flow as it was in this, takes its worker away or
    makes it Reserved; a restoration brings all flows back without a worker. -/

namespace BG

open Lib

/-- What a flow is paced by stays. -/
structure FlowRT.SamePace (f f' : FlowRT) : Prop where
  state : f'.state = f.state
  granted : f'.granted = f.granted
  worker : f'.assignedWorker = f.assignedWorker
  reservation : f'.reservation = f.reservation

theorem FlowRT.SamePace.refl (f : FlowRT) : f.SamePace f := ⟨rfl, rfl, rfl, rfl⟩

/-- Whether an operation decides about the pace of a flow. -/
def Op.paces : Op → Bool
  | .tick | .cancelFlow _ _ | .reportCompletion _ _ _ _ _ => true
  | _ => false

namespace Governor
variable {g g' : Governor}

/-! ### Reservations on file -/

/-- Whether the reservation of a flow is on file. -/
def hasReservation (g : Governor) (f : FlowRT) : Bool :=
  (f.reservation.bind g.reservations.find?).isSome

theorem hasReservation_iff {f : FlowRT} : g.hasReservation f = true ↔
    ∃ rid rsv, f.reservation = some rid ∧ g.reservations.find? rid = some rsv := by
  rw [hasReservation, Option.isSome_iff_exists]
  simp only [Option.bind_eq_some_iff]
  constructor
  · rintro ⟨rsv, rid, hrid, hrsv⟩
    exact ⟨rid, rsv, hrid, hrsv⟩
  · rintro ⟨rid, rsv, hrid, hrsv⟩
    exact ⟨rsv, rid, hrid, hrsv⟩

theorem hasReservation_congr (hg : g'.reservations = g.reservations) {f f' : FlowRT}
    (hf : f'.reservation = f.reservation) : g'.hasReservation f' = g.hasReservation f := by
  rw [hasReservation, hasReservation, hf, hg]

/-- Every reservation stays on file. -/
def KeepsReservations (g g' : Governor) : Prop := ∀ rid,
  (g.reservations.find? rid).isSome = true → (g'.reservations.find? rid).isSome = true

theorem KeepsReservations.hasReservation (h : g.KeepsReservations g') {f f' : FlowRT}
    (hf : f'.reservation = f.reservation) (hr : g.hasReservation f = true) :
    g'.hasReservation f' = true := by
  obtain ⟨rid, rsv, hrid, hrsv⟩ := hasReservation_iff.mp hr
  obtain ⟨rsv', hrsv'⟩ := Option.isSome_iff_exists.mp (h rid (by rw [hrsv]; rfl))
  exact hasReservation_iff.mpr ⟨rid, rsv', hf.trans hrid, hrsv'⟩

theorem releaseReservationInternal_keeps (g : Governor) (rid : ReservationId) :
    g.KeepsReservations (g.releaseReservationInternal rid) := by
  intro x hx
  unfold releaseReservationInternal
  split
  · exact hx
  · split
    · exact hx
    · dsimp only
      rw [Table.find?_insert]
      split
      · rfl
      · exact hx

/-- An operation releases reservations, but takes none off the file. -/
theorem apply_keepsReservations (g : Governor) {op : Op} (hlive : (Event.call op).live = true) :
    g.KeepsReservations (g.apply op) := by
  refine (apply_writes g hlive).inv (P := fun h => g.KeepsReservations h)
    (fun h h' hw hk x hx => ?_) fun _ hx => hx
  have hx' := hk x hx
  cases hw with
  | rest _ _ _ hrs => exact hrs ▸ hx'
  | file rsv =>
    change ((h.reservations.insert rsv.id rsv).find? x).isSome = true
    rw [Table.find?_insert]
    split
    · rfl
    · exact hx'
  | release rid => exact h.releaseReservationInternal_keeps rid x hx'
  | _ => exact hx'

/-! ### Operations that leave the pace alone -/

/-- Every flow that has a worker and is not Reserved is paced by what it was. -/
def LeavesPace (g g' : Governor) : Prop := ∀ fid f', g'.flows.find? fid = some f' →
  f'.state = .named .reserved ∨ f'.assignedWorker = none ∨
    ∃ f, g.flows.find? fid = some f ∧ f.SamePace f'

theorem LeavesPace.of_find? (h : ∀ fid, g'.flows.find? fid = g.flows.find? fid) :
    g.LeavesPace g' :=
  fun fid f' hf' => Or.inr (Or.inr ⟨f', (h fid).symm.trans hf', .refl f'⟩)

theorem LeavesPace.of_eq (h : g'.flows = g.flows) : g.LeavesPace g' := .of_find? fun _ => h ▸ rfl

theorem LeavesPace.insert {fid : FlowId} {f₁ : FlowRT} (hg : g'.flows = g.flows.insert fid f₁)
    (h : f₁.state = .named .reserved ∨ f₁.assignedWorker = none ∨
      ∃ f, g.flows.find? fid = some f ∧ f.SamePace f₁) : g.LeavesPace g' := by
  intro x f' hf'
  rw [hg, Table.find?_insert] at hf'
  split at hf'
  · rename_i he
    subst he
    exact Option.some.inj hf' ▸ h
  · exact Or.inr (Or.inr ⟨f', hf', .refl f'⟩)

theorem submitFlow_leavesPace (g : Governor) (spec : FlowSpec) :
    g.LeavesPace (stateAfter Prod.fst (g.submitFlow spec)) := by
  obtain ⟨g', res, hok, hs⟩ := g.submitFlow_spec spec
  rw [hok, stateAfter]
  generalize res.admitted = b at hs
  cases hs with
  | refused => exact .of_eq rfl
  | parked => exact .insert rfl (Or.inr (Or.inl rfl))
  | admitted => exact .insert rfl (Or.inl rfl)

/-- A flow that is resumed becomes Reserved. -/
theorem resumeFlow_leavesPace (h : ∀ fid f, g.flows.find? fid = some f → f.Rated) (fid : FlowId) :
    g.LeavesPace (stateAfter Prod.fst (g.resumeFlow fid)) := by
  unfold resumeFlow
  cases hf : g.flows.find? fid with
  | none => exact .of_eq rfl
  | some f =>
    dsimp only
    split
    · exact .of_eq rfl
    · rename_i hs
      have hallowed : ∃ s, f.state = .named s ∧ FlowState.reserved ∈ flowTargets s := by
        by_cases hp : f.state = .named .preempted
        · exact ⟨_, hp, by decide⟩
        · exact ⟨_, not_not.mp fun ht => hs ⟨hp, ht⟩, by decide⟩
      obtain ⟨s, hs, ht⟩ := hallowed
      have hclose : ∀ (g₁ : Governor) (f₁ : FlowRT), g₁.flows = g.flows → f₁.state = f.state →
          g.LeavesPace (stateAfter Prod.fst (g₁.fileReserved fid f₁ fun g => (g, true))) := by
        intro g₁ f₁ hg₁ hf₁
        rw [fileReserved_ok g₁ fid _ (setFlowState_ok (hf₁.trans hs) (Or.inr ht))]
        exact .insert (congrArg (fun t : Table FlowId FlowRT => t.insert fid _) hg₁) (Or.inl rfl)
      unfold rereserve
      split
      · obtain ⟨c, hc⟩ : ∃ c : Capacity, c.value = max f.granted f.spec.requestedMin.value :=
          ⟨⟨_, isValidRate_iff.mpr ⟨le_max_of_le_left (h fid f hf).1,
            max_le (h fid f hf).2 f.spec.requestedMin.le_max⟩⟩, rfl⟩
        rw [← hc, mintReservation_ok]
        exact hclose (g.fileReservation _) { f with reservation := _ } rfl rfl
      · exact hclose g f rfl rfl

theorem registerWorker_leavesPace (h : ∀ fid f, g.flows.find? fid = some f → f.Rated)
    (reg : WorkerRegistration) : g.LeavesPace (stateAfter id (g.registerWorker reg)) := by
  obtain ⟨g', hok, -, hflows⟩ := registerWorker_ok h reg
  rw [hok]
  intro fid f' hf'
  rcases hflows fid f' hf' with hr | ⟨hf, -⟩
  · exact Or.inl hr
  · exact Or.inr (Or.inr ⟨f', hf, .refl f'⟩)

theorem deregisterWorker_leavesPace (g : Governor) (worker : WorkerId) :
    g.LeavesPace (g.deregisterWorker worker) := by
  intro fid f' hf'
  change (g.flows.mapVals _).find? fid = some f' at hf'
  rw [Table.find?_mapVals] at hf'
  obtain ⟨f, hf, rfl⟩ := Option.map_eq_some_iff.mp hf'
  split
  · exact Or.inr (Or.inl rfl)
  · exact Or.inr (Or.inr ⟨f, hf, .refl f⟩)

theorem reportProgress_leavesPace (g : Governor) (fid : FlowId) (attempt : AttemptId)
    (fgen : FlowGeneration) (boot : WorkerBootId) (bytes : UInt64) :
    g.LeavesPace (g.reportProgress fid attempt fgen boot bytes).1 := by
  unfold reportProgress
  cases hf : g.flows.find? fid with
  | none => exact .of_eq rfl
  | some f =>
    dsimp only
    split
    · exact .insert rfl (Or.inr (Or.inr ⟨f, hf, rfl, rfl, rfl, rfl⟩))
    · exact .of_eq rfl

/-- A restored flow has no worker. -/
theorem restore_unassigned {snap : GovernorSnapshot} {fid : FlowId} {f : FlowRT}
    (hf : (g.restore snap).flows.find? fid = some f) : f.assignedWorker = none := by
  obtain ⟨fs, -, -, rfl⟩ := Table.ofList_find? hf
  rfl

/-- Where grants are valid rates, only ticks, cancellations and completions decide about a pace. -/
theorem apply_leavesPace (h : ∀ fid f, g.flows.find? fid = some f → f.Rated) {op : Op}
    (hlive : (Event.call op).live = true) (hop : op.paces = false) : g.LeavesPace (g.apply op) := by
  cases op with
  | tick => cases hop
  | cancelFlow flow reason => cases hop
  | reportCompletion flow attempt fgen boot bytes => cases hop
  | submitFlow spec => exact g.submitFlow_leavesPace spec
  | resumeFlow flow => exact resumeFlow_leavesPace h flow
  | registerWorker reg => exact registerWorker_leavesPace h reg
  | deregisterWorker worker => exact g.deregisterWorker_leavesPace worker
  | reportProgress flow attempt fgen boot bytes =>
    exact g.reportProgress_leavesPace flow attempt fgen boot bytes
  | restore snap => cases hlive
  | _ => exact .of_eq (g.apply_flows rfl)

/-! ### Operations that end a flow -/

theorem find?_unchanged {fid x : FlowId} {o : Option FlowRT} {F : FlowRT → FlowRT}
    (ho : g.flows.find? fid = o) (hF : o.map F = o) :
    g.flows.find? x = if x = fid then o.map F else g.flows.find? x := by
  split
  · rename_i hx
    rw [hx, hF, ho]
  · rfl

/-- A flow after its cancellation. -/
def cancelledFlow (reason : Str) (f : FlowRT) : FlowRT :=
  if isTerminal f.state then f
  else match setFlowState f .cancelled with
    | .error _ => f
    | .ok f => { f with lastError := reason }

theorem cancelFlow_find? (g : Governor) (fid : FlowId) (reason : Str) (x : FlowId) :
    (g.apply (.cancelFlow fid reason)).flows.find? x =
      if x = fid then (g.flows.find? fid).map (cancelledFlow reason) else g.flows.find? x := by
  change (stateAfter Prod.fst (g.cancelFlow fid reason)).flows.find? x = _
  unfold cancelFlow
  cases hf : g.flows.find? fid with
  | none => exact find?_unchanged hf rfl
  | some f =>
    dsimp only
    split
    · rename_i ht
      exact find?_unchanged hf (by rw [Option.map_some, cancelledFlow, if_pos ht])
    · rename_i ht
      cases hset : setFlowState f .cancelled with
      | error e =>
        exact find?_unchanged hf (by rw [Option.map_some, cancelledFlow, if_neg ht, hset])
      | ok f' =>
        have he : cancelledFlow reason f = { f' with lastError := reason } := by
          rw [cancelledFlow, if_neg ht, hset]
        change (releaseOf _ _).flows.find? x = _
        rw [releaseOf_flows, Table.find?_insert, Option.map_some, he]

/-- A flow after a report of its completion. -/
def completedFlow (g : Governor) (attempt : AttemptId) (fgen : FlowGeneration)
    (boot : WorkerBootId) (bytes : UInt64) (f : FlowRT) : FlowRT :=
  if g.authorised f attempt fgen boot then
    { f with bytesDone := max f.bytesDone bytes, state := .named .completed, lastMs := g.now }
  else f

theorem reportCompletion_find? (g : Governor) (fid : FlowId) (attempt : AttemptId)
    (fgen : FlowGeneration) (boot : WorkerBootId) (bytes : UInt64) (x : FlowId) :
    (g.apply (.reportCompletion fid attempt fgen boot bytes)).flows.find? x =
      if x = fid then (g.flows.find? fid).map (g.completedFlow attempt fgen boot bytes)
      else g.flows.find? x := by
  change (stateAfter Prod.fst (g.reportCompletion fid attempt fgen boot bytes)).flows.find? x = _
  unfold reportCompletion
  cases hf : g.flows.find? fid with
  | none => exact find?_unchanged hf rfl
  | some f =>
    dsimp only
    split
    · rename_i ha
      rw [setFlowState_ok (f := { f with bytesDone := max f.bytesDone bytes }) (a := .running)
        (authorised_running ha) (Or.inr (by decide))]
      change (releaseOf _ _).flows.find? x = _
      rw [releaseOf_flows, Option.map_some, completedFlow, if_pos ha]
      exact Table.find?_insert ..
    · rename_i ha
      exact find?_unchanged hf (by rw [Option.map_some, completedFlow, if_neg ha])

/-! ### The tick -/

/-- The worker a flow has after the tick: a Reserved flow gets one that backs its path. -/
def driver (g : Governor) (f : FlowRT) : Option WorkerId :=
  if f.state = .named .reserved then
    (dispatchTo f (g.pickWorkerForPath f.spec.path)).assignedWorker
  else f.assignedWorker

/-- The state a flow takes under its share: a Reserved flow is started, the others are graded. -/
def targetOf (g : Governor) (fid : FlowId) (f : FlowRT) : FlowState :=
  if f.state = .named .reserved then .running else gradeOf f (g.grantOf g.now fid)

/-- What a flow that takes part in the tick is paced by afterwards. -/
theorem settled_pace (g : Governor) (fid : FlowId) {f : FlowRT} (hs : isScheduled f.state = true) :
    (g.settled g.now fid f).state = .named (g.targetOf fid f) ∧
      (g.settled g.now fid f).granted = g.grantOf g.now fid ∧
      (g.settled g.now fid f).assignedWorker = g.driver f ∧
      (g.settled g.now fid f).reservation = f.reservation := by
  unfold settled targetOf driver
  by_cases hr : f.state = .named .reserved
  · rw [if_pos hr, if_pos hr, if_pos hr]
    cases g.pickWorkerForPath f.spec.path <;> exact ⟨rfl, rfl, rfl, rfl⟩
  · rw [if_neg hr, if_neg hr, if_neg hr, if_pos (by simpa [isScheduled_eq, hr] using hs)]
    exact ⟨rfl, rfl, rfl, rfl⟩

theorem settled_idle (g : Governor) (fid : FlowId) {f : FlowRT} (hs : isScheduled f.state = false) :
    g.settled g.now fid f = f := by
  have hr : f.state ≠ .named .reserved := by
    rintro hr
    rw [hr] at hs
    cases hs
  have hm : isMoving f.state = false := by simpa [isScheduled_eq, hr] using hs
  simp [settled, hr, hm]

/-- A flow that does not take part in the tick is paced by what it was. -/
theorem prepared_idle {fid : FlowId} {f : FlowRT} (hf : g.prepared.flows.find? fid = some f)
    (hs : isScheduled f.state = false) :
    ∃ f₀, g.flows.find? fid = some f₀ ∧ f₀.SamePace f := by
  obtain ⟨rid, hrid⟩ := g.prepared_flows_find?
  rw [hrid] at hf
  obtain ⟨f₀, hf₀, rfl⟩ := Option.map_eq_some_iff.mp hf
  have hage : f₀.SamePace (ageAt g.now f₀) := by
    unfold ageAt
    split <;> exact ⟨rfl, rfl, rfl, rfl⟩
  refine ⟨f₀, hf₀, ?_⟩
  unfold served at hs ⊢
  by_cases hq : (ageAt g.now f₀).state = .named .queued
  · rw [if_pos hq] at hs ⊢
    cases hadm : g.aged.admission (ageAt g.now f₀).spec with
    | none => exact hage
    | some ra =>
      rw [hadm] at hs
      cases hs
  · rw [if_neg hq]
    exact hage

end Governor

end BG
