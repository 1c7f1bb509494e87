import Mathlib
import BandwidthGovernor.Governor.Fences

/-! What a flow keeps over a run.

    A flow that is moving keeps its reservation through ticks, so a capacity generation that
    moved on fences its reports until something else mints a reservation. A flow that has ended
    keeps all that was settled about it, and every transition the operations request is an edge
    of the table. -/

namespace BG

open Lib

/-! ### Moving flows under ticks -/

/-- The transactions of a tick. -/
def Kind.ticks : Kind → Bool
  | .age => true
  | .settle => true
  | .dequeue _ => true
  | _ => false

/-- A dispatched flow `f` of `u`, as ticks leave it in `v`. -/
structure View.Carries (u : View) (fid : FlowId) (f : FlowRT) (v : View) : Prop where
  flow : ∃ f', v.flows fid = some f' ∧ f'.spec = f.spec ∧ f'.reservation = f.reservation ∧
    f'.assignedWorker = f.assignedWorker ∧
    (isMoving f'.state = true ∨ f'.state = .named .preempted)
  held : ∀ rid, f.reservation = some rid → v.reservations rid = u.reservations rid
  workers : v.workers = u.workers
  epoch : v.epoch = u.epoch
  generation : v.capacityGeneration = u.capacityGeneration

theorem FlowMove.carried {v : View} {k : Kind} {fid : FlowId} {f f' : FlowRT}
    (hm : FlowMove v k fid f f') (hk : k.ticks = true)
    (hs : isMoving f.state = true ∨ f.state = .named .preempted) :
    f'.assignedWorker = f.assignedWorker ∧
      (isMoving f'.state = true ∨ f'.state = .named .preempted) := by
  cases hm with
  | age => exact ⟨rfl, hs⟩
  | dispatch o ng t hres =>
    rw [hres] at hs
    rcases hs with hs | hs <;> cases hs
  | regrade ng t => exact ⟨rfl, Governor.gradeOf_moving f ng⟩
  | resume => cases hk
  | progress => cases hk

theorem Txn.carries {u v w : View} {k : Kind} (ht : Txn v k w) (hk : k.ticks = true) (ho : v.OnFile)
    (hc : w.gen.calls ≤ 2 ^ 64) {fid : FlowId} {f : FlowRT} (h : u.Carries fid f v) :
    u.Carries fid f w := by
  obtain ⟨⟨f₀, hf₀, hspec, hres, hw, hs⟩, hheld, hworkers, hepoch, hgen⟩ := h
  cases ht with
  | moves k F hF =>
    refine ⟨⟨F fid f₀, by simp [hf₀], ?_⟩, hheld, hworkers, hepoch, hgen⟩
    rcases hF fid f₀ hf₀ with he | hm
    · rw [he]; exact ⟨hspec, hres, hw, hs⟩
    · obtain ⟨hw', hs'⟩ := hm.carried hk hs
      exact ⟨hm.keeps.1.trans hspec, hm.keeps.2.1.trans hres, hw'.trans hw, hs'⟩
  | dequeue x y p c t hy hq =>
    have hne : fid ≠ x := by
      rintro rfl
      rw [hf₀, Option.some.injEq] at hy
      rw [hy, hq] at hs
      rcases hs with hs | hs <;> cases hs
    refine ⟨⟨f₀, (View.setFlow_of_ne _ _ hne).trans hf₀, hspec, hres, hw, hs⟩, fun rid hrid => ?_,
      hworkers, hepoch, hgen⟩
    -- The reservation was minted earlier, so the fresh one is filed elsewhere.
    obtain ⟨rsv, hrsv⟩ := ho.held fid f₀ rid hf₀ (hres.trans hrid)
    obtain ⟨j, hj, hid⟩ := ho.minted rid rsv hrsv
    have hother : rid ≠ v.gen.next.1 := fun he => IdGen.next_ne hc hj (he.symm.trans hid)
    exact (Function.update_of_ne hother _ _).trans (hheld rid hrid)
  | _ => cases hk

/-- Ticks, and what may happen between them. -/
def Event.ticks : Event → Bool
  | .call .tick => true
  | .call _ => false
  | .clock _ => true
  | .rehash => true

theorem Event.ticks_kinds {e : Event} (h : e.ticks = true) :
    e.live = true ∧ ∀ k, e.kinds k → k.ticks = true := by
  cases e with
  | clock => exact ⟨rfl, fun k hk => hk.elim⟩
  | rehash => exact ⟨rfl, fun k hk => hk.elim⟩
  | call op =>
    cases op with
    | tick =>
      refine ⟨rfl, fun k hk => ?_⟩
      rcases hk with rfl | rfl | ⟨fid, rfl⟩ <;> rfl
    | _ => cases h

/-! ### Capacity changes -/

/-- The operations that move the capacity generation of a registered resource. -/
def Op.bumps : Op → Bool
  | .updateCapacity _ _ _ _ _ _ bump => bump
  | .invalidateResourceCapacity _ => true
  | _ => false

/-- Such an operation leaves flows, reservations, workers, identities and the epoch alone. -/
theorem apply_bumps (g : Governor) {op : Op} (h : op.bumps = true) :
    (g.apply op).view.flows = g.view.flows ∧
      (g.apply op).view.reservations = g.view.reservations ∧
      (g.apply op).view.workers = g.view.workers ∧ (g.apply op).view.gen = g.view.gen ∧
      (g.apply op).view.epoch = g.view.epoch := by
  have hran : Ran (· = .bump) g (g.apply op) := by
    cases op with
    | updateCapacity res measured confidence provenance latency depth bump =>
      exact g.updateCapacity_ran res measured confidence provenance latency depth bump
    | invalidateResourceCapacity res => exact g.invalidateResourceCapacity_ran res
    | _ => cases h
  refine hran.inv (I := fun v => v.flows = g.view.flows ∧ v.reservations = g.view.reservations ∧
    v.workers = g.view.workers ∧ v.gen = g.view.gen ∧ v.epoch = g.view.epoch)
    (fun v k w hk hv ht => ?_) ⟨rfl, rfl, rfl, rfl, rfl⟩
  subst hk
  cases ht with
  | bump => exact hv
  | moves k F hF =>
    obtain ⟨hf, hrest⟩ := hv
    refine ⟨?_, hrest⟩
    rw [← hf]
    funext fid
    change (v.flows fid).map (F fid) = v.flows fid
    cases hfid : v.flows fid with
    | none => rfl
    | some f =>
      rcases hF fid f hfid with he | hm
      · rw [Option.map_some, he]
      · cases hm

namespace Governor

/-- A report of a Running flow under the boot of its worker is decided by its reservation. -/
theorem authorised_of_current {g : Governor} {f : FlowRT} {boot : WorkerBootId}
    (hr : f.state = .named .running) (hb : g.bootCurrent f boot = true) :
    g.authorised f f.spec.attempt f.spec.generation boot = g.reservationCurrent f := by
  simp [authorised, hr, hb]

/-- The transition of an accepted completion. -/
theorem setFlowState_completed {f : FlowRT} (h : f.state = .named .running) (b : UInt64) :
    setFlowState { f with bytesDone := b } .completed =
      .ok { f with bytesDone := b, state := .named .completed } :=
  setFlowState_ok (f := { f with bytesDone := b }) h (Or.inr (by decide))

theorem reportCompletion_accepts_iff {g : Governor} {fid : FlowId} {f : FlowRT}
    (hf : g.flows.find? fid = some f) (attempt : AttemptId) (fgen : FlowGeneration)
    (boot : WorkerBootId) (bytes : UInt64) :
    (∃ g', g.reportCompletion fid attempt fgen boot bytes = .ok (g', true)) ↔
      g.authorised f attempt fgen boot = true := by
  unfold reportCompletion
  rw [hf]
  by_cases ha : g.authorised f attempt fgen boot = true
  · simp only [ha, if_true, setFlowState_completed (authorised_running ha)]
    exact ⟨fun _ => trivial, fun _ => ⟨_, rfl⟩⟩
  · simp [ha]

theorem reservationCurrent_congr {g g' : Governor} {f f' : FlowRT}
    (hres : f'.reservation = f.reservation)
    (hheld : ∀ rid, f.reservation = some rid → g'.reservations.find? rid = g.reservations.find? rid)
    (he : g'.epoch = g.epoch) (hc : g'.capacityGeneration = g.capacityGeneration) :
    g'.reservationCurrent f' = g.reservationCurrent f := by
  unfold reservationCurrent
  rw [hres]
  cases hr : f.reservation with
  | none => rfl
  | some rid => simp only [hheld rid hr, he, hc]

/-- A reservation of the capacity generation that was left behind is not current any more. -/
theorem reservationCurrent_bumped {g g' : Governor} {f : FlowRT}
    (hres : g'.reservations.find? = g.reservations.find?) (hcur : g.reservationCurrent f = true)
    (hsome : f.reservation.isSome = true) (hmoved : g'.capacityGeneration ≠ g.capacityGeneration) :
    g'.reservationCurrent f = false := by
  unfold reservationCurrent at hcur ⊢
  obtain ⟨rid, hrid⟩ := Option.isSome_iff_exists.mp hsome
  simp only [hrid, hres] at hcur ⊢
  cases hf : g.reservations.find? rid with
  | none => rfl
  | some rsv =>
    simp only [hf, Bool.and_eq_true, decide_eq_true_eq] at hcur
    simp [hcur.2, hmoved.symm]

end Governor

/-- What a capacity change does to the completion of a Running flow. After the change and any ticks,
    the completion of the flow, if it is still Running, is accepted exactly when its reservation is
    of the epoch and capacity generation that the change left in force: ticks mint it no other one.
    So where the generation moved, a flow whose reservation was current is fenced. -/
theorem completion_after_bump {es es' : List Event} {g g' : Governor} (h : Reaches es g)
    {fid : FlowId} {f : FlowRT} (hf : g.flows.find? fid = some f) (hr : f.state = .named .running)
    (hw : ∀ wid, f.assignedWorker = some wid → ∃ w, g.workers.find? wid = some w ∧ w.alive = true)
    {op : Op} (hop : op.bumps = true) (hrun : Lib.Run Governor.Step (g.apply op) es' g')
    (hticks : ∀ e ∈ es', e.ticks = true) (hcalls : g'.gen.calls ≤ 2 ^ 64) {f' : FlowRT}
    (hf' : g'.flows.find? fid = some f') (hr' : f'.state = .named .running) {boot : WorkerBootId}
    (hboot : ∀ wid w, f'.assignedWorker = some wid → g'.workers.find? wid = some w → w.boot = boot)
    (bytes : UInt64) :
    ((∃ g'', g'.reportCompletion fid f'.spec.attempt f'.spec.generation boot bytes =
        .ok (g'', true)) ↔ (g.apply op).reservationCurrent f = true) ∧
      (g.reservationCurrent f = true → f.reservation.isSome = true →
        (g.apply op).capacityGeneration ≠ g.capacityGeneration →
        g'.reportCompletion fid f'.spec.attempt f'.spec.generation boot bytes =
          .ok (g', false)) := by
  obtain ⟨hflows, hrsvs, hworkers, hgen, hepoch⟩ := apply_bumps g hop
  have hfile : (g.apply op).view.OnFile := by
    refine ⟨fun rid rsv hrid => ?_, fun x fx rid hx hrid => ?_⟩
    · rw [hgen]; exact h.onFile.minted rid rsv (hrsvs ▸ hrid)
    · rw [hrsvs]; exact h.onFile.held x fx rid (hflows ▸ hx) hrid
  have hwf : (g.apply op).view.WF := by
    refine (apply_ran h.wf ?_).wf h.wf
    cases op <;> first | rfl | cases hop
  have hstart : (g.apply op).view.Carries fid f (g.apply op).view :=
    ⟨⟨f, hflows ▸ hf, rfl, rfl, rfl, Or.inl (by simp [isMoving, hr])⟩, fun _ _ => rfl, rfl,
      rfl, rfl⟩
  obtain ⟨-, -, hend⟩ := run_inv (I := fun v => v.OnFile ∧ (v.gen.calls ≤ 2 ^ 64 →
      (g.apply op).view.Carries fid f v)) hrun hwf
    (fun e he => (Event.ticks_kinds (hticks e he)).1) (fun e he v k w hk _ hv ht =>
      ⟨ht.onFile hv.1, fun hc => ht.carries ((Event.ticks_kinds (hticks e he)).2 k hk) hv.1 hc
        (hv.2 (ht.calls_le.trans hc))⟩) ⟨hfile, fun _ => hstart⟩
  obtain ⟨⟨f₁, hf₁, -, hres, hassigned, -⟩, hheld, hworkers', hepoch', hgen'⟩ := hend hcalls
  obtain rfl : f₁ = f' := Option.some.inj (hf₁.symm.trans hf')
  have hbootcur : g'.bootCurrent f₁ boot = true := by
    unfold Governor.bootCurrent
    cases ha : f₁.assignedWorker with
    | none => rfl
    | some wid =>
      obtain ⟨w, hwid, halive⟩ := hw wid (hassigned ▸ ha)
      have hwid' : g'.workers.find? wid = some w := by
        have := congrFun (hworkers'.trans hworkers) wid
        exact this.trans hwid
      simp [hwid', halive, hboot wid w ha hwid']
  have hcur : g'.reservationCurrent f₁ = (g.apply op).reservationCurrent f :=
    Governor.reservationCurrent_congr hres hheld hepoch' hgen'
  have hauth : g'.authorised f₁ f₁.spec.attempt f₁.spec.generation boot =
      (g.apply op).reservationCurrent f :=
    (Governor.authorised_of_current hr' hbootcur).trans hcur
  refine ⟨?_, fun hc hsome hmoved => ?_⟩
  · rw [Governor.reportCompletion_accepts_iff hf', hauth]
  · have hstale := Governor.reservationCurrent_bumped hrsvs hc hsome hmoved
    refine (Governor.rejects_of_unauthorised (fun y hy => ?_) bytes).2
    obtain rfl : f₁ = y := Option.some.inj (hf'.symm.trans hy)
    exact hauth.trans hstale

/-- The theorem for flow 1, driven by worker 1: link 1 is invalidated and the scheduler ticks. -/
theorem completion_after_bump_driven :
    ((Sample.start.after Sample.outdated).apply .tick).reportCompletion ⟨0, 1⟩ ⟨0, 1⟩ ⟨0, 1⟩
      ⟨0, 1⟩ 10
      = .ok ((Sample.start.after Sample.outdated).apply .tick, false) := by
  obtain ⟨f, w, hf, hw, hr, ha, hb, -, -, hcur⟩ := Sample.isDriven_spec
    (by decide +kernel : Sample.isDriven (Sample.start.after Sample.driven) true = true)
  obtain ⟨f', w', hf', hw', hr', ha', hb', hat, hgen, -⟩ := Sample.isDriven_spec
    (by decide +kernel : Sample.isDriven ((Sample.start.after Sample.outdated).apply .tick) false
      = true)
  have hlive : ((Sample.start.after Sample.driven).workers.find? ⟨0, 1⟩).map WorkerRT.alive =
      some true := by decide +kernel
  have hheld : ((Sample.start.after Sample.driven).flows.find? ⟨0, 1⟩).map
      (fun f => f.reservation.isSome) = some true := by decide +kernel
  rw [hf, Option.map_some, Option.some.injEq] at hheld
  rw [hw, Option.map_some, Option.some.injEq] at hlive
  have hop : (Op.invalidateResourceCapacity ⟨0, 1⟩).bumps = true := rfl
  have hrun : Lib.Run Governor.Step ((Sample.start.after Sample.driven).apply
      (.invalidateResourceCapacity ⟨0, 1⟩)) [.call .tick]
      ((Sample.start.after Sample.outdated).apply .tick) := .cons (.call _ .tick) (.nil _)
  have halive : ∀ wid, f.assignedWorker = some wid → ∃ w,
      (Sample.start.after Sample.driven).workers.find? wid = some w ∧ w.alive = true := by
    intro wid hwid
    rw [ha, Option.some.injEq] at hwid
    subst hwid
    exact ⟨w, hw, hlive⟩
  have hboot : ∀ wid w, f'.assignedWorker = some wid →
      ((Sample.start.after Sample.outdated).apply .tick).workers.find? wid = some w →
      w.boot = ⟨0, 1⟩ := by
    intro wid w₁ hwid hw₁
    rw [ha', Option.some.injEq] at hwid
    subst hwid
    rw [hw', Option.some.injEq] at hw₁
    exact hw₁ ▸ hb'
  have h := (completion_after_bump (Sample.reaches rfl) hf hr halive hop hrun
    (by simp [Event.ticks]) (by decide +kernel) hf' hr' hboot 10).2 hcur hheld (by decide +kernel)
  rw [hat, hgen] at h
  exact h

/-- The completion of flow 1 is refused although the flow is still Running under its alive worker:
    link 1 was invalidated before the tick. -/
theorem bumped_flow_stranded : ∃ f w f' w', Reaches (Sample.driven.map Event.call)
      (Sample.start.after Sample.driven) ∧
    (Sample.start.after Sample.driven).flows.find? ⟨0, 1⟩ = some f ∧
    f.state = .named .running ∧ f.assignedWorker = some ⟨0, 1⟩ ∧
    (Sample.start.after Sample.driven).workers.find? ⟨0, 1⟩ = some w ∧ w.alive = true ∧
    ((Sample.start.after Sample.driven).apply (.invalidateResourceCapacity ⟨0, 1⟩)
      |>.apply .tick).flows.find? ⟨0, 1⟩ = some f' ∧ f'.state = .named .running ∧
    f'.assignedWorker = some ⟨0, 1⟩ ∧
    ((Sample.start.after Sample.driven).apply (.invalidateResourceCapacity ⟨0, 1⟩)
      |>.apply .tick).workers.find? ⟨0, 1⟩ = some w' ∧ w'.alive = true ∧
    ∀ bytes g', ((Sample.start.after Sample.driven).apply (.invalidateResourceCapacity ⟨0, 1⟩)
      |>.apply .tick).reportCompletion ⟨0, 1⟩ f'.spec.attempt f'.spec.generation w'.boot bytes
        ≠ .ok (g', true) := by
  obtain ⟨f, w, hf, hw, hr, ha, -⟩ := Sample.isDriven_spec
    (by decide +kernel : Sample.isDriven (Sample.start.after Sample.driven) true = true)
  obtain ⟨f', w', hf', hw', hr', ha', -, -, -, hstale⟩ := Sample.isDriven_spec
    (by decide +kernel : Sample.isDriven ((Sample.start.after Sample.driven).apply
      (.invalidateResourceCapacity ⟨0, 1⟩) |>.apply .tick) false = true)
  have halive : ((Sample.start.after Sample.driven).workers.find? ⟨0, 1⟩).map WorkerRT.alive =
      some true := by decide +kernel
  have halive' : (((Sample.start.after Sample.driven).apply (.invalidateResourceCapacity ⟨0, 1⟩)
      |>.apply .tick).workers.find? ⟨0, 1⟩).map WorkerRT.alive = some true := by decide +kernel
  rw [hw, Option.map_some, Option.some.injEq] at halive
  rw [hw', Option.map_some, Option.some.injEq] at halive'
  refine ⟨f, w, f', w', Sample.reaches rfl, hf, hr, ha, hw, halive, hf', hr', ha', hw', halive',
    fun bytes g' hok => ?_⟩
  have hacc := (Governor.reportCompletion_accepts_iff hf' _ _ _ _).mp ⟨g', hok⟩
  rw [Governor.authorised_reservation hstale] at hacc
  cases hacc

/-! ### Flows that have ended -/

/-- What is settled about a flow that has ended. -/
structure Settled (f f' : FlowRT) : Prop where
  state : f'.state = f.state
  granted : f'.granted = f.granted
  bytesDone : f'.bytesDone = f.bytesDone
  attempt : f'.spec.attempt = f.spec.attempt
  generation : f'.spec.generation = f.spec.generation
  reservation : f'.reservation = f.reservation

namespace Settled

theorem refl (f : FlowRT) : Settled f f := ⟨rfl, rfl, rfl, rfl, rfl, rfl⟩

theorem trans {f₁ f₂ f₃ : FlowRT} (h : Settled f₁ f₂) (h' : Settled f₂ f₃) : Settled f₁ f₃ :=
  ⟨h'.state.trans h.state, h'.granted.trans h.granted, h'.bytesDone.trans h.bytesDone,
    h'.attempt.trans h.attempt, h'.generation.trans h.generation,
      h'.reservation.trans h.reservation⟩

end Settled

/-- Of the moves only ageing applies to a flow that has ended. -/
theorem FlowMove.settled {v : View} {k : Kind} {fid : FlowId} {f f' : FlowRT}
    (hm : FlowMove v k fid f f') (ht : isTerminal f.state = true) : Settled f f' := by
  cases hm with
  | age => exact ⟨rfl, rfl, rfl, rfl, rfl, rfl⟩
  | dispatch o ng t hs => rw [hs] at ht; cases ht
  | regrade ng t hs =>
    simp only [isMoving, Bool.or_eq_true, decide_eq_true_eq] at hs
    rcases hs with hs | hs <;> rw [hs] at ht <;> cases ht
  | resume hs => rcases hs with hs | hs <;> rw [hs] at ht <;> cases ht
  | progress b t hs => rw [hs] at ht; cases ht

/-- A flow that has ended stays on file through a write to a flow that is new or has not ended. -/
theorem View.settled_setFlow {u v : View} (hu : u.flows = v.flows) {x fid : FlowId} {f f₀ : FlowRT}
    (hf : v.flows x = some f) (ht : isTerminal f.state = true)
    (hfid : v.flows fid = none ∨ ∃ y, v.flows fid = some y ∧ isTerminal y.state = false) :
    ∃ f', (u.setFlow fid f₀).flows x = some f' ∧ Settled f f' := by
  have hne : x ≠ fid := by
    rintro rfl
    rcases hfid with hn | ⟨y, hy, hopen⟩
    · rw [hn] at hf; cases hf
    · obtain rfl : y = f := Option.some.inj (hy.symm.trans hf)
      rw [ht] at hopen; cases hopen
  exact ⟨f, (u.setFlow_of_ne f₀ hne).trans (hu ▸ hf), .refl f⟩

/-- Every transaction leaves a flow that has ended as it was settled. -/
theorem Txn.settled {v w : View} {k : Kind} (hx : Txn v k w) {x : FlowId} {f : FlowRT}
    (hf : v.flows x = some f) (ht : isTerminal f.state = true) :
    ∃ f', w.flows x = some f' ∧ Settled f f' := by
  cases hx with
  | draw => exact ⟨f, hf, .refl f⟩
  | bump => exact ⟨f, hf, .refl f⟩
  | path => exact ⟨f, hf, .refl f⟩
  | join => exact ⟨f, hf, .refl f⟩
  | lose worker =>
    have hstill : Governor.rolls worker f = false := by
      simp only [Governor.rolls, Bool.and_eq_false_iff, decide_eq_false_iff_not]
      refine Or.inl fun hs => ?_
      rw [hs] at ht; cases ht
    exact ⟨f, by simp [View.lose, hf, hstill], .refl f⟩
  | moves k F hF =>
    refine ⟨F x f, by simp [hf], ?_⟩
    rcases hF x f hf with he | hm
    · rw [he]; exact .refl f
    · exact hm.settled ht
  | park spec t hnew => exact View.settled_setFlow rfl hf ht (Or.inl hnew)
  | reserve spec p c t hnew => exact View.settled_setFlow rfl hf ht (Or.inl hnew)
  | dequeue fid y p c t hy hq =>
    exact View.settled_setFlow rfl hf ht (Or.inr ⟨y, hy, by rw [hq]; rfl⟩)
  | cancel fid y reason hy hopen =>
    rw [View.setFlow_releaseOf]
    exact View.settled_setFlow (v.releaseOf_flows y) hf ht (Or.inr ⟨y, hy, hopen⟩)
  | complete fid y b t hy hr =>
    rw [View.setFlow_releaseOf]
    exact View.settled_setFlow (v.releaseOf_flows y) hf ht (Or.inr ⟨y, hy, by rw [hr]; rfl⟩)
  | release rid => exact ⟨f, (View.release_rest v rid).1 ▸ hf, .refl f⟩
  | remint fid y p c hy hs =>
    refine View.settled_setFlow rfl hf ht (Or.inr ⟨y, hy, ?_⟩)
    rcases hs with hs | hs <;> rw [hs] <;> rfl
  | roll fid y p c worker boot hy hr =>
    exact View.settled_setFlow (v.releaseOf_flows y) hf ht (Or.inr ⟨y, hy, by rw [hr]; rfl⟩)
  | rollStray fid y worker boot hy hr =>
    exact View.settled_setFlow (v.releaseOf_flows y) hf ht (Or.inr ⟨y, hy, by rw [hr]; rfl⟩)

/-! ### Their reservations -/

/-- The reservation a flow refers to after its end is not Active. -/
def View.Retires (v : View) : Prop := ∀ fid f rid rsv, v.flows fid = some f →
  isTerminal f.state = true → f.reservation = some rid → v.reservations rid = some rsv →
  rsv.state ≠ .named .active

namespace View
variable {v : View}

theorem Retires.release (h : v.Retires) (rid : ReservationId) : (v.release rid).Retires := by
  intro fid f x rsv hf ht hx hrsv
  rw [(release_rest v rid).1] at hf
  obtain ⟨rsv₀, h₀, he | ⟨-, he⟩⟩ := release_reservations v rid hrsv
  · rw [he]; exact h fid f x rsv₀ hf ht hx h₀
  · rw [he]; simp

theorem Retires.releaseOf (h : v.Retires) (f : FlowRT) : (v.releaseOf f).Retires := by
  unfold View.releaseOf
  cases f.reservation with
  | none => exact h
  | some rid => exact h.release rid

/-- A fresh reservation is not one that a flow refers to. -/
theorem Retires.file (h : v.Retires) (ho : v.OnFile) (hc : v.gen.calls < 2 ^ 64) {rsv : Reservation}
    (hid : rsv.id = v.gen.next.1) : (v.file rsv).Retires := by
  intro fid f x rsv' hf ht hx hrsv
  rcases file_cases hrsv with ⟨rfl, -⟩ | hrsv
  · obtain ⟨rsv₀, h₀⟩ := ho.held fid f rsv.id hf hx
    obtain ⟨j, hj, he⟩ := ho.minted rsv.id rsv₀ h₀
    exact absurd (hid.symm.trans he) (IdGen.next_ne hc hj)
  · exact h fid f x rsv' hf ht hx hrsv

theorem Retires.setFlow (h : v.Retires) {fid : FlowId} {f : FlowRT}
    (hf : isTerminal f.state = true → ∀ rid rsv, f.reservation = some rid →
      v.reservations rid = some rsv → rsv.state ≠ .named .active) : (v.setFlow fid f).Retires := by
  intro x f' rid rsv hf' ht hrid hrsv
  rcases setFlow_cases hf' with ⟨rfl, rfl⟩ | ⟨-, hf'⟩
  · exact hf ht rid rsv hrid hrsv
  · exact h x f' rid rsv hf' ht hrid hrsv

theorem Retires.mapFlows (h : v.Retires) {F : FlowId → FlowRT → FlowRT}
    (hF : ∀ fid f, v.flows fid = some f → (F fid f).reservation = f.reservation ∧
      (isTerminal f.state = false → isTerminal (F fid f).state = false)) :
    Retires { v with flows := fun fid => (v.flows fid).map (F fid) } := by
  intro fid f' rid rsv hf' ht hrid hrsv
  obtain ⟨f, hf, rfl⟩ := Option.map_eq_some_iff.mp hf'
  obtain ⟨hres, hopen⟩ := hF fid f hf
  refine h fid f rid rsv hf ?_ (hres ▸ hrid) hrsv
  by_contra hn
  rw [hopen (by simpa using hn)] at ht
  cases ht

/-- After its release no reservation of a flow is Active. -/
theorem Linked.released (h : v.Linked) {f : FlowRT} {rid : ReservationId} {rsv : Reservation}
    (hrid : f.reservation = some rid) (hrsv : (v.releaseOf f).reservations rid = some rsv) :
    rsv.state ≠ .named .active := by
  simp only [View.releaseOf, hrid] at hrsv
  obtain ⟨rsv₀, h₀, -⟩ := release_reservations v rid hrsv
  rcases h.states rid rsv₀ h₀ with ha | hr
  · rw [release_active v h₀ ha, Option.some.injEq] at hrsv
    rw [← hrsv]; simp
  · obtain ⟨rsv₁, h₁, he | ⟨-, he⟩⟩ := release_reservations v rid hrsv
    · obtain rfl : rsv₀ = rsv₁ := Option.some.inj (h₀.symm.trans h₁)
      rw [he, hr]; simp
    · rw [he]; simp

end View

theorem Txn.retires {v w : View} {k : Kind} (ht : Txn v k w) (hl : v.Linked) (ho : v.OnFile)
    (hc : w.gen.calls ≤ 2 ^ 64) (h : v.Retires) : w.Retires := by
  cases ht with
  | draw => exact h
  | bump => exact h
  | path => exact h
  | join => exact h
  | lose worker =>
    exact h.mapFlows (F := fun _ f => if Governor.rolls worker f then
        { f with assignedWorker := none, lastError := ascii "worker lost" } else f)
      fun fid f hf => by split <;> exact ⟨rfl, id⟩
  | moves k F hF =>
    refine h.mapFlows fun fid f hf => ?_
    rcases hF fid f hf with he | hm
    · rw [he]; exact ⟨rfl, id⟩
    · exact ⟨hm.keeps.2.1, hm.keeps.2.2.1⟩
  | park => exact h.setFlow fun ht => by cases ht
  | reserve => exact (h.file ho hc rfl).setFlow fun ht => by cases ht
  | dequeue => exact (h.file ho hc rfl).setFlow fun ht => by cases ht
  | cancel fid f reason hf =>
    rw [View.setFlow_releaseOf]
    exact (h.releaseOf f).setFlow fun _ rid rsv hrid hrsv => hl.released hrid hrsv
  | complete fid f b t hf =>
    rw [View.setFlow_releaseOf]
    exact (h.releaseOf f).setFlow fun _ rid rsv hrid hrsv => hl.released hrid hrsv
  | release rid => exact h.release rid
  | remint => exact (h.file ho hc rfl).setFlow fun ht => by cases ht
  | roll fid f =>
    have hdraw : (v.releaseOf f).draw.Retires := h.releaseOf f
    have hc' : (v.releaseOf f).draw.gen.calls < 2 ^ 64 := hc
    exact (hdraw.file (ho.releaseOf f).draw hc' rfl).setFlow fun ht => by cases ht
  | rollStray fid f =>
    have hdraw : (v.releaseOf f).draw.Retires := h.releaseOf f
    exact hdraw.setFlow fun ht => by cases ht

theorem Reaches.retires {es : List Event} {g : Governor} (h : Reaches es g)
    (hcalls : g.gen.calls ≤ 2 ^ 64) : g.view.Retires := by
  obtain ⟨hlive, g₀, hfresh, hrun⟩ := h
  obtain ⟨hf, hr, -, -⟩ := hfresh.view
  refine (run_inv (I := fun v => v.OnFile ∧ v.Linked ∧ (v.gen.calls ≤ 2 ^ 64 → v.Retires)) hrun
    hfresh.wf hlive (fun e _ v k w _ hwf hv ht => ?_) ⟨?_, ?_, fun _ => ?_⟩).2.2.2 hcalls
  · exact ⟨ht.onFile hv.1, ht.linked hwf hv.2.1, fun hc =>
      ht.retires hv.2.1 hv.1 hc (hv.2.2 (ht.calls_le.trans hc))⟩
  · exact ⟨fun rid rsv h => by simp [hr] at h, fun fid f rid h => by simp [hf] at h⟩
  · exact ⟨fun rid rsv h => by simp [hr] at h, fun rid rsv h => by simp [hr] at h,
      fun fid f h => by simp [hf] at h⟩
  · intro fid f rid rsv h
    simp [hf] at h

/-! ### Guarded transitions -/

/-- The states of the flows are enumerators of `FlowState`. -/
def View.Named (v : View) : Prop := ∀ fid f, v.flows fid = some f → f.state.inRange = true

theorem View.Named.setFlow {u v : View} (h : v.Named) (hu : u.flows = v.flows) {fid : FlowId}
    {f : FlowRT} (hf : f.state.inRange = true) : (u.setFlow fid f).Named := by
  intro x f' hf'
  rcases View.setFlow_cases hf' with ⟨rfl, rfl⟩ | ⟨-, hf'⟩
  · exact hf
  · exact h x f' (hu ▸ hf')

theorem FlowMove.named {v : View} {k : Kind} {fid : FlowId} {f f' : FlowRT}
    (hm : FlowMove v k fid f f') (h : f.state.inRange = true) : f'.state.inRange = true := by
  cases hm with
  | age => exact h
  | dispatch => rfl
  | regrade => rfl
  | resume => rfl
  | progress => exact h

theorem Txn.named {v w : View} {k : Kind} (ht : Txn v k w) (h : v.Named) : w.Named := by
  cases ht with
  | draw => exact h
  | bump => exact h
  | path => exact h
  | join => exact h
  | lose worker =>
    intro fid f' hf'
    obtain ⟨f, hf, rfl⟩ := Option.map_eq_some_iff.mp hf'
    split
    · exact h fid f hf
    · exact h fid f hf
  | moves k F hF =>
    intro fid f' hf'
    obtain ⟨f, hf, rfl⟩ := Option.map_eq_some_iff.mp hf'
    rcases hF fid f hf with he | hm
    · rw [he]; exact h fid f hf
    · exact hm.named (h fid f hf)
  | park => exact h.setFlow rfl rfl
  | reserve => exact h.setFlow rfl rfl
  | dequeue => exact h.setFlow rfl rfl
  | cancel fid f =>
    rw [View.setFlow_releaseOf]
    exact h.setFlow (v.releaseOf_flows f) rfl
  | complete fid f =>
    rw [View.setFlow_releaseOf]
    exact h.setFlow (v.releaseOf_flows f) rfl
  | release rid =>
    intro fid f hf
    exact h fid f ((View.release_rest v rid).1 ▸ hf)
  | remint => exact h.setFlow rfl rfl
  | roll fid f => exact h.setFlow (v.releaseOf_flows f) rfl
  | rollStray fid f => exact h.setFlow (v.releaseOf_flows f) rfl

theorem Reaches.named {es : List Event} {g : Governor} (h : Reaches es g) : g.view.Named := by
  obtain ⟨hlive, g₀, hfresh, hrun⟩ := h
  obtain ⟨hf, -⟩ := hfresh.view
  refine (run_inv hrun hfresh.wf hlive (fun e _ v k w _ _ hv ht => ht.named hv) ?_).2
  intro fid f h
  simp [hf] at h

/-- The exception of an operation that may throw. -/
def raised {α : Type} : Except Fault α → Option Error
  | .ok _ => none
  | .error (e, _) => some e

namespace Governor

/-- The exception an operation ends with, if it throws. -/
def thrown (g : Governor) : Op → Option Error
  | .updateCapacity res measured confidence provenance latency depth bump =>
    raised (g.updateCapacity res measured confidence provenance latency depth bump)
  | .addPath path => raised (g.addPath path)
  | .submitFlow spec => raised (g.submitFlow spec)
  | .cancelFlow flow reason => raised (g.cancelFlow flow reason)
  | .resumeFlow flow => raised (g.resumeFlow flow)
  | .tick => raised g.tick
  | .registerWorker reg => raised (g.registerWorker reg)
  | .reportCompletion flow attempt fgen boot bytes =>
    raised (g.reportCompletion flow attempt fgen boot bytes)
  | _ => none

/-- Every state of the lifecycle that is not an end can be cancelled. -/
theorem cancelFlow_raises {g : Governor} (hn : g.view.Named) (fid : FlowId) (reason : Str) :
    raised (g.cancelFlow fid reason) = none := by
  unfold cancelFlow
  cases hf : g.flows.find? fid with
  | none => rfl
  | some f =>
    dsimp only
    by_cases ht : isTerminal f.state = true
    · rw [if_pos ht]; rfl
    · rw [if_neg ht]
      have hname := hn fid f hf
      cases hs : f.state with
      | unnamed c hc => rw [hs] at hname; cases hname
      | named s =>
        have hedge : s = .cancelled ∨ FlowState.cancelled ∈ flowTargets s := by
          rw [hs] at ht
          cases s <;> first | exact Or.inr (by decide) | exact absurd rfl ht
        rw [setFlowState_ok hs hedge]
        rfl

theorem resumeFlow_raises {g : Governor} (hwf : g.view.WF) (fid : FlowId) :
    raised (g.resumeFlow fid) = none := by
  unfold resumeFlow
  cases hf : g.flows.find? fid with
  | none => rfl
  | some f =>
    dsimp only
    by_cases hs : f.state ≠ .named .preempted ∧ f.state ≠ .named .throttled
    · rw [if_pos hs]; rfl
    · rw [if_neg hs]
      have hstate : f.state = .named .preempted ∨ f.state = .named .throttled := by
        by_contra h
        exact hs (not_or.mp h)
      rcases g.rereserve_spec (hwf.flowOk hf).rated with h | ⟨path, c, -, -, h⟩
      · simp only [h, bind, Except.bind, setFlowState_resumed hstate]
        rfl
      · simp only [h, bind, Except.bind]
        rw [setFlowState_resumed (f := { f with reservation := some g.gen.next.1 }) hstate]
        rfl

theorem reportCompletion_raises (g : Governor) (fid : FlowId) (attempt : AttemptId)
    (fgen : FlowGeneration) (boot : WorkerBootId) (bytes : UInt64) :
    raised (g.reportCompletion fid attempt fgen boot bytes) = none := by
  unfold reportCompletion
  cases hf : g.flows.find? fid with
  | none => rfl
  | some f =>
    dsimp only
    by_cases ha : g.authorised f attempt fgen boot = true
    · simp only [ha, if_true, setFlowState_completed (authorised_running ha)]
      rfl
    · rw [if_neg ha]; rfl

/-- The two operations that throw at all refuse their arguments and write nothing. -/
theorem thrown_cases {g : Governor} (hwf : g.view.WF) (hn : g.view.Named) (op : Op) :
    g.thrown op = none ∨ ∃ what, g.thrown op = some (.value what) ∧ g.apply op = g := by
  cases op with
  | updateCapacity res measured confidence provenance latency depth bump =>
    simp only [thrown, apply, updateCapacity]
    cases g.resources.find? res with
    | none => exact Or.inl rfl
    | some r =>
      dsimp only
      split
      · exact Or.inr ⟨_, rfl, rfl⟩
      · exact Or.inl rfl
  | addPath path =>
    simp only [thrown, apply, addPath]
    cases validatePath path with
    | none => exact Or.inl rfl
    | some err => exact Or.inr ⟨_, rfl, rfl⟩
  | submitFlow spec =>
    obtain ⟨g', res, h, -⟩ := g.submitFlow_spec spec
    exact Or.inl (by rw [thrown, h]; rfl)
  | cancelFlow flow reason => exact Or.inl (cancelFlow_raises hn flow reason)
  | resumeFlow flow => exact Or.inl (resumeFlow_raises hwf flow)
  | tick =>
    obtain ⟨g', h, -⟩ := tick_ran hwf
    exact Or.inl (by rw [thrown, h]; rfl)
  | registerWorker reg =>
    obtain ⟨g', h, -⟩ := registerWorker_ran hwf reg
    exact Or.inl (by rw [thrown, h]; rfl)
  | reportCompletion flow attempt fgen boot bytes =>
    exact Or.inl (g.reportCompletion_raises flow attempt fgen boot bytes)
  | _ => exact Or.inl rfl

end Governor

theorem Reaches.run {es es' : List Event} {g g' : Governor} (h : Reaches es g)
    (hrun : Lib.Run Governor.Step g es' g') (hlive : ∀ e ∈ es', e.live = true) :
    Reaches (es ++ es') g' := by
  obtain ⟨hes, g₀, hfresh, h₀⟩ := h
  exact ⟨fun e he => (List.mem_append.mp he).elim (hes e) (hlive e), g₀, hfresh, h₀.append hrun⟩

/-- Over any run without restoration, a flow that has ended keeps its state, grant, bytes, attempt,
    generation and reservation id; no reservation of the flow is Active, nor the one it refers to
    while the id counter has not wrapped. No operation throws a transition error, and one that
    throws has written nothing. -/
theorem ended_flows_stay {es es' : List Event} {g g' : Governor} (h : Reaches es g)
    (hrun : Lib.Run Governor.Step g es' g') (hlive : ∀ e ∈ es', e.live = true) :
    (∀ fid f, g.flows.find? fid = some f → isTerminal f.state = true →
      ∃ f', g'.flows.find? fid = some f' ∧ Settled f f' ∧
        (∀ rid rsv, g'.reservations.find? rid = some rsv → rsv.flow = fid →
          rsv.state ≠ .named .active) ∧
        (g'.gen.calls ≤ 2 ^ 64 → ∀ rid rsv, f'.reservation = some rid →
          g'.reservations.find? rid = some rsv → rsv.state ≠ .named .active)) ∧
    (∀ op what, g'.thrown op ≠ some (.transition what)) ∧
    (∀ op what, g'.thrown op = some (.value what) → g'.apply op = g') := by
  have h' : Reaches (es ++ es') g' := h.run hrun hlive
  have hthrown := Governor.thrown_cases h'.wf h'.named
  refine ⟨fun fid f hf ht => ?_, fun op what he => ?_, fun op what he => ?_⟩
  · obtain ⟨-, f', hf', hset⟩ := run_inv (I := fun v => ∃ f', v.flows fid = some f' ∧ Settled f f')
      hrun h.wf hlive (fun e _ v k w _ _ hv hx => by
        obtain ⟨f₁, hf₁, h₁⟩ := hv
        obtain ⟨f₂, hf₂, h₂⟩ := hx.settled hf₁ (h₁.state ▸ ht)
        exact ⟨f₂, hf₂, h₁.trans h₂⟩) ⟨f, hf, .refl f⟩
    have ht' : isTerminal f'.state = true := hset.state ▸ ht
    refine ⟨f', hf', hset, fun rid rsv hrsv hown hact => ?_, fun hcalls rid rsv hrid hrsv =>
      h'.retires hcalls fid f' rid rsv hf' ht' hrid hrsv⟩
    -- A live reservation belongs to a flow that has not ended.
    obtain ⟨f₁, hf₁, hlink⟩ := h'.linked.live rid rsv hrsv (by simp [isLive, hact])
    rw [hown] at hf₁
    obtain rfl : f' = f₁ := Option.some.inj (hf'.symm.trans hf₁)
    rw [hlink.open_] at ht'
    cases ht'
  · rcases hthrown op with hn | ⟨what', hv, -⟩
    · rw [hn] at he; cases he
    · rw [hv] at he; cases he
  · rcases hthrown op with hn | ⟨what', hv, hg⟩
    · rw [hn] at he; cases he
    · exact hg

/-- The theorem for flow 1, cancelled while Running, over a restart of its worker and a tick. -/
theorem ended_flows_stay_cancelled : ∃ f', ((Sample.start.after (Sample.driven ++
      [.cancelFlow ⟨0, 1⟩ []])).apply (.registerWorker (Sample.worker 2))
        |>.apply .tick).flows.find? ⟨0, 1⟩ = some f' ∧ f'.state = .named .cancelled := by
  have hf : ((Sample.start.after (Sample.driven ++ [.cancelFlow ⟨0, 1⟩ []])).flows.find?
      ⟨0, 1⟩).map FlowRT.state = some (.named .cancelled) := by decide +kernel
  obtain ⟨f, hf, hs⟩ := Option.map_eq_some_iff.mp hf
  obtain ⟨f', hf', hset, -⟩ := (ended_flows_stay (Sample.reaches rfl)
    (.cons (.call _ (.registerWorker (Sample.worker 2))) (.cons (.call _ .tick) (.nil _)))
    (by simp [Event.live])).1 _ f hf (by rw [hs]; rfl)
  exact ⟨f', hf', hset.state.trans hs⟩

end BG
