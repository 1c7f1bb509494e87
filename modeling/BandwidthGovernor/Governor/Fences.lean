import Mathlib
import BandwidthGovernor.Governor.Links

/-! Worker authority.

    A report is checked against the boot of the flow's assigned worker, and against the capacity
    generation of its reservation. A restart fences the old boot through the first check, for every
    state a flow may be in. The loss of a worker clears the assignment instead, which switches the
    first check off. -/

namespace BG

open Lib

namespace Governor

/-! ### Rejected reports -/

/-- Neither kind of report is accepted, and the state is left alone. -/
def Rejects (g : Governor) (fid : FlowId) (attempt : AttemptId) (fgen : FlowGeneration)
    (boot : WorkerBootId) : Prop := ∀ bytes,
  g.reportProgress fid attempt fgen boot bytes = (g, false) ∧
    g.reportCompletion fid attempt fgen boot bytes = .ok (g, false)

theorem rejects_of_unauthorised {g : Governor} {fid : FlowId} {attempt : AttemptId}
    {fgen : FlowGeneration} {boot : WorkerBootId}
    (h : ∀ f, g.flows.find? fid = some f → g.authorised f attempt fgen boot = false) :
    g.Rejects fid attempt fgen boot := by
  intro bytes
  unfold reportProgress reportCompletion
  cases hf : g.flows.find? fid with
  | none => exact ⟨rfl, rfl⟩
  | some f => simp [h f hf]

theorem authorised_boot {g : Governor} {f : FlowRT} {attempt : AttemptId} {fgen : FlowGeneration}
    {boot : WorkerBootId} (h : g.bootCurrent f boot = false) :
    g.authorised f attempt fgen boot = false := by
  simp [authorised, h]

theorem authorised_reservation {g : Governor} {f : FlowRT} {attempt : AttemptId}
    {fgen : FlowGeneration} {boot : WorkerBootId} (h : g.reservationCurrent f = false) :
    g.authorised f attempt fgen boot = false := by
  simp [authorised, h]

end Governor

/-! ### Restarts -/

/-- The flow has a worker. -/
def View.Assigned (v : View) (fid : FlowId) : Prop :=
  ∃ f wid, v.flows fid = some f ∧ f.assignedWorker = some wid

theorem FlowMove.assigned {v : View} {k : Kind} {fid : FlowId} {f f' : FlowRT}
    (hm : FlowMove v k fid f f') {wid : WorkerId} (h : f.assignedWorker = some wid) :
    ∃ wid', f'.assignedWorker = some wid' := by
  cases hm with
  | age => exact ⟨wid, h⟩
  | dispatch o ng t =>
    cases o with
    | none => exact ⟨wid, h⟩
    | some x => exact ⟨x.1, rfl⟩
  | regrade => exact ⟨wid, h⟩
  | resume => exact ⟨wid, h⟩
  | progress => exact ⟨wid, h⟩

/-- Writing a flow whose worker is known, or that was not on file. -/
theorem View.Assigned.setFlow {v : View} {x : FlowId} (h : v.Assigned x) {fid : FlowId} {f : FlowRT}
    (hf : v.flows fid = none ∨
      (∃ f₀, v.flows fid = some f₀ ∧ f.assignedWorker = f₀.assignedWorker) ∨
      ∃ wid, f.assignedWorker = some wid) : (v.setFlow fid f).Assigned x := by
  obtain ⟨f₁, wid, hf₁, hw⟩ := h
  by_cases he : x = fid
  · subst he
    rcases hf with hn | ⟨f₀, hf₀, heq⟩ | ⟨wid', hw'⟩
    · rw [hn] at hf₁; cases hf₁
    · rw [hf₀, Option.some.injEq] at hf₁
      exact ⟨f, wid, v.setFlow_self x f, heq.trans (hf₁ ▸ hw)⟩
    · exact ⟨f, wid', v.setFlow_self x f, hw'⟩
  · exact ⟨f₁, wid, (v.setFlow_of_ne f he).trans hf₁, hw⟩

theorem View.Assigned.releaseOf {v : View} {x : FlowId} (h : v.Assigned x) (f : FlowRT) :
    (v.releaseOf f).Assigned x := by
  obtain ⟨f₀, wid, hf₀, hw⟩ := h
  exact ⟨f₀, wid, (congrFun (View.releaseOf_flows v f) x).trans hf₀, hw⟩

/-- Only the loss of a worker clears an assignment. -/
theorem Txn.assigned {v w : View} {k : Kind} (ht : Txn v k w) (hk : ∀ worker, k ≠ .lose worker)
    {x : FlowId} (h : v.Assigned x) : w.Assigned x := by
  cases ht with
  | draw => exact h
  | bump => exact h
  | path => exact h
  | join => exact h
  | lose worker => exact absurd rfl (hk worker)
  | moves k F hF =>
    obtain ⟨f, wid, hf, hw⟩ := h
    rcases hF x f hf with he | hm
    · exact ⟨F x f, wid, by simp [hf], by rw [he]; exact hw⟩
    · obtain ⟨wid', hw'⟩ := hm.assigned hw
      exact ⟨F x f, wid', by simp [hf], hw'⟩
  | park spec t hnew => exact h.setFlow (Or.inl hnew)
  | reserve spec p c t hnew => exact View.Assigned.setFlow (v := v.file _) h (Or.inl hnew)
  | dequeue fid f p c t hf =>
    exact View.Assigned.setFlow (v := v.file _) h (Or.inr (Or.inl ⟨f, hf, rfl⟩))
  | cancel fid f reason hf =>
    refine View.Assigned.releaseOf ?_ f
    exact h.setFlow (Or.inr (Or.inl ⟨f, hf, rfl⟩))
  | complete fid f b t hf =>
    refine View.Assigned.releaseOf ?_ f
    exact h.setFlow (Or.inr (Or.inl ⟨f, hf, rfl⟩))
  | release rid =>
    obtain ⟨f₀, wid, hf₀, hw⟩ := h
    exact ⟨f₀, wid, (congrFun (View.release_rest v rid).1 x).trans hf₀, hw⟩
  | remint fid f p c hf =>
    exact View.Assigned.setFlow (v := v.file _) h (Or.inr (Or.inl ⟨f, hf, rfl⟩))
  | roll fid f p c worker boot =>
    exact View.Assigned.setFlow (v := (v.releaseOf f).draw.file _) (h.releaseOf f)
      (Or.inr (Or.inr ⟨worker, rfl⟩))
  | rollStray fid f worker boot =>
    exact View.Assigned.setFlow (v := (v.releaseOf f).draw) (h.releaseOf f)
      (Or.inr (Or.inr ⟨worker, rfl⟩))

/-- A worker on file after a transaction has just joined, or was there under the same boot. -/
theorem Txn.workers {v w : View} {k : Kind} (ht : Txn v k w) {wid : WorkerId} {x : WorkerRT}
    (hx : w.workers wid = some x) : (k = .join x ∧ x.id = wid) ∨
      ∃ x₀, v.workers wid = some x₀ ∧ x₀.boot = x.boot := by
  cases ht with
  | join y =>
    by_cases he : wid = y.id
    · subst he
      have := (Function.update_self _ _ v.workers).symm.trans hx
      rw [Option.some.injEq] at this
      exact Or.inl ⟨this ▸ rfl, this ▸ rfl⟩
    · exact Or.inr ⟨x, (Function.update_of_ne he _ _).symm.trans hx, rfl⟩
  | lose worker =>
    simp only [View.lose] at hx
    split at hx
    · obtain ⟨x₀, hx₀, rfl⟩ := Option.map_eq_some_iff.mp hx
      exact Or.inr ⟨x₀, hx₀, rfl⟩
    · exact Or.inr ⟨x, hx, rfl⟩
  | cancel fid f =>
    rw [View.releaseOf_workers] at hx
    exact Or.inr ⟨x, hx, rfl⟩
  | complete fid f =>
    rw [View.releaseOf_workers] at hx
    exact Or.inr ⟨x, hx, rfl⟩
  | release rid => exact Or.inr ⟨x, (View.release_rest v rid).2.1 ▸ hx, rfl⟩
  | roll fid f => exact Or.inr ⟨x, View.releaseOf_workers v f ▸ hx, rfl⟩
  | rollStray fid f => exact Or.inr ⟨x, View.releaseOf_workers v f ▸ hx, rfl⟩
  | _ => exact Or.inr ⟨x, hx, rfl⟩

/-- No worker has the boot. -/
def View.Retired (v : View) (boot : WorkerBootId) : Prop :=
  ∀ wid w, v.workers wid = some w → w.boot ≠ boot

/-- A retired boot stays retired unless a worker registers under it. -/
theorem Txn.retired {v w : View} {k : Kind} (ht : Txn v k w) {boot : WorkerBootId}
    (hj : ∀ x, k = .join x → x.boot ≠ boot) (h : v.Retired boot) : w.Retired boot := by
  intro wid x hx
  rcases ht.workers hx with ⟨hk, -⟩ | ⟨x₀, hx₀, hb⟩
  · exact hj x hk
  · exact hb ▸ h wid x₀ hx₀

/-- Without a worker under the boot, an assigned flow's reports carrying it are rejected. -/
theorem Governor.rejects_of_retired {g : Governor} {fid : FlowId} {boot : WorkerBootId}
    (ha : g.view.Assigned fid) (hr : g.view.Retired boot) (attempt : AttemptId)
    (fgen : FlowGeneration) : g.Rejects fid attempt fgen boot := by
  refine rejects_of_unauthorised fun f hf => authorised_boot ?_
  obtain ⟨f', wid, hf', hw⟩ := ha
  rw [view_flows, hf, Option.some.injEq] at hf'
  subst hf'
  unfold bootCurrent
  rw [hw]
  dsimp only
  cases hwk : g.workers.find? wid with
  | none => rfl
  | some w => simp [hr wid w hwk]

/-- The worker registrations among some events. -/
def registered (es : List Event) (reg : WorkerRegistration) : Prop :=
  .call (.registerWorker reg) ∈ es

theorem Event.kinds_join {e : Event} {x : WorkerRT} (hlive : e.live = true)
    (h : e.kinds (.join x)) : ∃ reg, e = .call (.registerWorker reg) ∧ x = reg.entry := by
  cases e with
  | clock => cases h
  | rehash => cases h
  | call op =>
    cases op with
    | registerWorker reg =>
      rcases h with h | h | ⟨fid, h⟩
      · cases h
      · exact ⟨reg, rfl, by cases h; rfl⟩
      · cases h
    | tick => rcases h with h | h | ⟨fid, h⟩ <;> cases h
    | restore => cases hlive
    | _ => cases h

theorem Event.kinds_lose {e : Event} {worker : WorkerId} (hlive : e.live = true)
    (h : e.kinds (.lose worker)) : e = .call (.deregisterWorker worker) := by
  cases e with
  | clock => cases h
  | rehash => cases h
  | call op =>
    cases op with
    | deregisterWorker w => cases h; rfl
    | registerWorker reg => rcases h with h | h | ⟨fid, h⟩ <;> cases h
    | tick => rcases h with h | h | ⟨fid, h⟩ <;> cases h
    | restore => cases hlive
    | _ => cases h

/-- Every entry of the worker table comes from a registration of the run. -/
theorem Reaches.workers {es : List Event} {g : Governor} (h : Reaches es g) {wid : WorkerId}
    {w : WorkerRT} (hw : g.workers.find? wid = some w) :
    ∃ reg, registered es reg ∧ reg.worker = wid ∧ reg.boot = w.boot := by
  obtain ⟨hlive, g₀, hfresh, hrun⟩ := h
  refine (run_inv (I := fun v => ∀ wid w, v.workers wid = some w →
      ∃ reg, registered es reg ∧ reg.worker = wid ∧ reg.boot = w.boot) hrun hfresh.wf hlive
    (fun e he v k u hk _ hv ht => ?_) ?_).2 wid w hw
  · intro wid w hw
    rcases ht.workers hw with ⟨rfl, hid⟩ | ⟨w₀, hw₀, hb⟩
    · obtain ⟨reg, rfl, rfl⟩ := Event.kinds_join (hlive e he) hk
      exact ⟨reg, he, hid, rfl⟩
    · obtain ⟨reg, hreg, hid, hboot⟩ := hv wid w₀ hw₀
      exact ⟨reg, hreg, hid, hboot.trans hb⟩
  · intro wid w hw
    rw [hfresh.view.2.2.1 wid] at hw
    cases hw

/-- A restart leaves no worker under the boot it replaced, when no two workers share a boot. -/
theorem restart_retires {es : List Event} {g : Governor} (h : Reaches es g)
    {reg : WorkerRegistration} {w₀ : WorkerRT} (hw : g.workers.find? reg.worker = some w₀)
    (hnew : reg.boot ≠ w₀.boot)
    (hdistinct : ∀ r₁ r₂, registered es r₁ → registered es r₂ → r₁.boot = r₂.boot →
      r₁.worker = r₂.worker) : (g.apply (.registerWorker reg)).view.Retired w₀.boot := by
  obtain ⟨r₀, hr₀, hid₀, hb₀⟩ := h.workers hw
  obtain ⟨g', hok, hran⟩ := Governor.registerWorker_rolls h.wf reg
  have happ : g.apply (.registerWorker reg) = g' := by
    simp only [Governor.apply, hok, stateAfter, id]
  rw [happ]
  refine hran.inv (I := fun v => v.Retired w₀.boot)
    (fun v k w hk hv ht => ht.retired (fun x hx => ?_) hv) ?_
  · obtain ⟨fid, rfl⟩ := hk
    cases hx
  · intro wid x hx
    rw [Governor.view_enrol] at hx
    by_cases he : wid = reg.worker
    · subst he
      have := (Function.update_self _ _ _).symm.trans hx
      exact (Option.some.inj this) ▸ hnew
    · have hx' := (Function.update_of_ne he _ _).symm.trans hx
      have hinstall : (reg.inventory.foldl (fun g rs => g.installResource rs id) g).view.workers =
          g.view.workers := (Governor.foldl_installResource_ran reg.inventory g).inv
        (I := fun v => v.workers = g.view.workers) (fun v k w hk hv ht => by
          subst hk
          cases ht with
          | draw => exact hv
          | moves => exact hv) rfl
      rw [hinstall] at hx'
      obtain ⟨r, hr, hid, hb⟩ := h.workers hx'
      intro hboot
      exact he (hid ▸ (hdistinct r r₀ hr hr₀ ((hb.trans hboot).trans hb₀.symm)).trans hid₀)

/-- A restart fences the old boot. In every run without a lost worker, once a registration has
    replaced one under another boot, reports carrying the old boot are rejected for every flow that
    had the worker at that moment, whatever follows, provided boots are never reused and are
    distinct between workers. -/
theorem restart_fences_old_boot {es es' : List Event} {g g' : Governor} (h : Reaches es g)
    {reg : WorkerRegistration} {w₀ : WorkerRT} (hw : g.workers.find? reg.worker = some w₀)
    (hnew : reg.boot ≠ w₀.boot)
    (hdistinct : ∀ r₁ r₂, registered es r₁ → registered es r₂ → r₁.boot = r₂.boot →
      r₁.worker = r₂.worker)
    (hrun : Lib.Run Governor.Step (g.apply (.registerWorker reg)) es' g')
    (hlive : ∀ e ∈ es', e.live = true) (hlost : ∀ worker, .call (.deregisterWorker worker) ∉ es')
    (hreuse : ∀ r, registered es' r → r.boot ≠ w₀.boot) {fid : FlowId} {f : FlowRT}
    (hf : g.flows.find? fid = some f) (ha : f.assignedWorker = some reg.worker)
    (attempt : AttemptId) (fgen : FlowGeneration) : g'.Rejects fid attempt fgen w₀.boot := by
  have hran : Ran (Op.registerWorker reg).kinds g (g.apply (.registerWorker reg)) :=
    apply_ran h.wf rfl
  have hassigned : (g.apply (.registerWorker reg)).view.Assigned fid :=
    hran.inv (I := fun v => v.Assigned fid) (fun v k w hk hv ht => ht.assigned (fun worker => by
      rcases hk with rfl | rfl | ⟨fid, rfl⟩ <;> simp) hv) ⟨f, reg.worker, hf, ha⟩
  obtain ⟨-, hend, hretired⟩ := run_inv (I := fun v => v.Assigned fid ∧ v.Retired w₀.boot) hrun
    (hran.wf h.wf) hlive (fun e he v k w hk _ hv ht => by
      refine ⟨ht.assigned (fun worker hkk => ?_) hv.1, ht.retired (fun x hkk => ?_) hv.2⟩
      · subst hkk
        exact hlost worker (Event.kinds_lose (hlive e he) hk ▸ he)
      · subst hkk
        obtain ⟨r, rfl, rfl⟩ := Event.kinds_join (hlive e he) hk
        exact hreuse r he)
    ⟨hassigned, restart_retires h hw hnew hdistinct⟩
  exact Governor.rejects_of_retired hend hretired attempt fgen

namespace Sample

/-- Flow 1 is Running, driven by worker 1 under boot 1. -/
def driven : List Op :=
  [.registerWorker (worker 1), .addPath (path 1 [1]), .submitFlow (flow 1 1 40 80 100), .tick]

theorem registered_driven {r : WorkerRegistration}
    (h : registered (driven.map Event.call) r) : r = worker 1 := by
  simpa [registered, driven] using h

/-- Worker 1 and flow 1 as they are in that state. -/
theorem driven_spec : (∃ w, (start.after driven).workers.find? ⟨0, 1⟩ = some w ∧ w.boot = ⟨0, 1⟩) ∧
    ∃ f, (start.after driven).flows.find? ⟨0, 1⟩ = some f ∧ f.assignedWorker = some ⟨0, 1⟩ := by
  have hw : ((start.after driven).workers.find? ⟨0, 1⟩).map WorkerRT.boot = some ⟨0, 1⟩ := by
    decide +kernel
  have hf : ((start.after driven).flows.find? ⟨0, 1⟩).map FlowRT.assignedWorker =
      some (some ⟨0, 1⟩) := by decide +kernel
  exact ⟨Option.map_eq_some_iff.mp hw, Option.map_eq_some_iff.mp hf⟩

end Sample

/-- The theorem for flow 1 after worker 1 restarts under boot 2 and the scheduler ticks again. -/
theorem restart_fences_old_boot_driven :
    ((Sample.start.after Sample.driven).apply (.registerWorker (Sample.worker 2))
      |>.apply .tick).Rejects ⟨0, 1⟩ ⟨0, 1⟩ ⟨0, 1⟩ ⟨0, 1⟩ := by
  obtain ⟨⟨w, hw, hb⟩, f, hf, ha⟩ := Sample.driven_spec
  rw [← hb]
  have hw₂ :
    (Sample.start.after Sample.driven).workers.find? (Sample.worker 2).worker = some w := hw
  refine restart_fences_old_boot (Sample.reaches rfl) hw₂ ?_
    (fun r₁ r₂ h₁ h₂ _ => ?_) (.cons (.call _ .tick) (.nil _)) (by simp [Event.live]) (by simp) ?_
    hf ha _ _
  · rw [hb]; decide
  · rw [Sample.registered_driven h₁, Sample.registered_driven h₂]
  · intro r hr
    simp [registered] at hr

/-! ### Identities -/

/-- Reservations are filed under minted identities, and a flow's reservation is on file. -/
structure View.OnFile (v : View) : Prop where
  minted : ∀ rid rsv, v.reservations rid = some rsv → ∃ k < v.gen.calls, rid = v.gen.mintedAt k
  held : ∀ fid f rid, v.flows fid = some f → f.reservation = some rid →
    ∃ rsv, v.reservations rid = some rsv

namespace View
variable {v : View}

/-- A release keeps every reservation on file, with its fences. -/
theorem release_keeps (v : View) (rid : ReservationId) {x : ReservationId} {rsv : Reservation}
    (h : v.reservations x = some rsv) : ∃ rsv', (v.release rid).reservations x = some rsv' ∧
      rsv'.epoch = rsv.epoch ∧ rsv'.capacityGeneration = rsv.capacityGeneration := by
  unfold release
  cases hr : v.reservations rid with
  | none => exact ⟨rsv, h, rfl, rfl⟩
  | some rsv₀ =>
    dsimp only
    cases reservationTransition rsv₀.state (.named .released) with
    | none => exact ⟨rsv, h, rfl, rfl⟩
    | some s =>
      by_cases hx : x = rid
      · subst hx
        rw [hr, Option.some.injEq] at h
        exact ⟨_, Function.update_self _ _ _, h ▸ rfl, h ▸ rfl⟩
      · exact ⟨rsv, (Function.update_of_ne hx _ _).trans h, rfl, rfl⟩

theorem releaseOf_keeps (v : View) (f : FlowRT) {x : ReservationId} {rsv : Reservation}
    (h : v.reservations x = some rsv) : ∃ rsv', (v.releaseOf f).reservations x = some rsv' ∧
      rsv'.epoch = rsv.epoch ∧ rsv'.capacityGeneration = rsv.capacityGeneration := by
  unfold releaseOf
  cases f.reservation with
  | none => exact ⟨rsv, h, rfl, rfl⟩
  | some rid => exact release_keeps v rid h

theorem OnFile.release (h : v.OnFile) (rid : ReservationId) : (v.release rid).OnFile := by
  obtain ⟨hflows, -, -, hgen, -⟩ := View.release_rest v rid
  refine ⟨fun x rsv hx => ?_, fun fid f x hf hx => ?_⟩
  · obtain ⟨rsv₀, h₀, -⟩ := release_reservations v rid hx
    exact hgen ▸ h.minted x rsv₀ h₀
  · obtain ⟨rsv, hr⟩ := h.held fid f x (hflows ▸ hf) hx
    obtain ⟨rsv', hr', -⟩ := release_keeps v rid hr
    exact ⟨rsv', hr'⟩

theorem OnFile.releaseOf (h : v.OnFile) (f : FlowRT) : (v.releaseOf f).OnFile := by
  unfold View.releaseOf
  cases f.reservation with
  | none => exact h
  | some rid => exact h.release rid

theorem OnFile.draw (h : v.OnFile) : v.draw.OnFile where
  minted rid rsv hr := by
    obtain ⟨k, hk, he⟩ := h.minted rid rsv hr
    exact ⟨k, Nat.lt_succ_of_lt hk, he⟩
  held := h.held

theorem OnFile.setFlow (h : v.OnFile) {fid : FlowId} {f : FlowRT}
    (hf : ∀ rid, f.reservation = some rid → ∃ rsv, v.reservations rid = some rsv) :
    (v.setFlow fid f).OnFile where
  minted := h.minted
  held fid' f' rid hf' hr := by
    rcases setFlow_cases hf' with ⟨rfl, rfl⟩ | ⟨-, hf'⟩
    · exact hf rid hr
    · exact h.held fid' f' rid hf' hr

theorem OnFile.file (h : v.OnFile) {rsv : Reservation} (hid : rsv.id = v.gen.next.1) :
    (v.file rsv).OnFile where
  minted x rsv' hx := by
    rcases file_cases hx with ⟨rfl, -⟩ | hx
    · exact ⟨v.gen.calls, Nat.lt_succ_self _, hid⟩
    · obtain ⟨k, hk, he⟩ := h.minted x rsv' hx
      exact ⟨k, Nat.lt_succ_of_lt hk, he⟩
  held fid f x hf hx := by
    obtain ⟨rsv', hr'⟩ := h.held fid f x hf hx
    by_cases he : x = rsv.id
    · exact ⟨rsv, he ▸ Function.update_self _ _ _⟩
    · exact ⟨rsv', (Function.update_of_ne he _ _).trans hr'⟩

/-- Filing a minted reservation and linking a flow to it. -/
theorem OnFile.mint (h : v.OnFile) {rsv : Reservation} (hid : rsv.id = v.gen.next.1) {fid : FlowId}
    {f : FlowRT} (hf : f.reservation = some v.gen.next.1) :
    ((v.file rsv).setFlow fid f).OnFile := by
  refine (h.file hid).setFlow fun rid hr => ⟨rsv, ?_⟩
  rw [hf, Option.some.injEq] at hr
  exact (hid.trans hr) ▸ Function.update_self _ _ _

theorem OnFile.mapFlows (h : v.OnFile) {F : FlowId → FlowRT → FlowRT}
    (hF : ∀ fid f, v.flows fid = some f → (F fid f).reservation = f.reservation) :
    OnFile { v with flows := fun fid => (v.flows fid).map (F fid) } where
  minted := h.minted
  held fid f' rid hf' hr := by
    obtain ⟨f, hf, rfl⟩ := Option.map_eq_some_iff.mp hf'
    exact h.held fid f rid hf (hF fid f hf ▸ hr)

end View

theorem Txn.onFile {v w : View} {k : Kind} (ht : Txn v k w) (h : v.OnFile) : w.OnFile := by
  cases ht with
  | draw => exact h.draw
  | bump => exact ⟨h.minted, h.held⟩
  | path => exact ⟨h.minted, h.held⟩
  | join => exact ⟨h.minted, h.held⟩
  | lose worker =>
    have := h.mapFlows (F := fun _ f => if Governor.rolls worker f then
        { f with assignedWorker := none, lastError := ascii "worker lost" } else f)
      fun fid f hf => by split <;> rfl
    exact ⟨this.minted, this.held⟩
  | moves k F hF =>
    refine h.mapFlows fun fid f hf => ?_
    rcases hF fid f hf with he | hm
    · rw [he]
    · exact hm.keeps.2.1
  | park => exact h.setFlow fun rid hr => by cases hr
  | reserve => exact h.mint rfl rfl
  | dequeue => exact h.mint rfl rfl
  | cancel fid f reason hf =>
    refine View.OnFile.releaseOf ?_ f
    exact h.setFlow fun rid hr => h.held fid f rid hf hr
  | complete fid f b t hf =>
    refine View.OnFile.releaseOf ?_ f
    exact h.setFlow fun rid hr => h.held fid f rid hf hr
  | release rid => exact h.release rid
  | remint => exact h.mint rfl rfl
  | roll fid f => exact (h.releaseOf f).draw.mint rfl rfl
  | rollStray fid f worker boot hf =>
    exact (h.releaseOf f).draw.setFlow fun rid hr =>
      (h.releaseOf f).held fid f rid ((View.releaseOf_flows v f).symm ▸ hf) hr

theorem Reaches.onFile {es : List Event} {g : Governor} (h : Reaches es g) : g.view.OnFile := by
  obtain ⟨hlive, g₀, hfresh, hrun⟩ := h
  obtain ⟨hf, hr, -, -⟩ := hfresh.view
  refine (run_inv hrun hfresh.wf hlive (fun e _ v k w _ _ hv ht => ht.onFile hv) ?_).2
  exact ⟨fun rid rsv h => by simp [hr] at h, fun fid f rid h => by simp [hf] at h⟩

/-! ### Lost workers -/

/-- The reservation was minted under another epoch or capacity generation. -/
def View.Stale (v : View) (rsv : Reservation) : Prop :=
  ¬ (rsv.epoch = v.epoch ∧ rsv.capacityGeneration = v.capacityGeneration)

/-- The flow has been dispatched, has no worker, and its reservation is stale. -/
def View.Stranded (v : View) (fid : FlowId) : Prop := ∃ f rid rsv, v.flows fid = some f ∧
  f.assignedWorker = none ∧ (isMoving f.state = true ∨ f.state = .named .preempted) ∧
  f.reservation = some rid ∧ v.reservations rid = some rsv ∧ v.Stale rsv

namespace View
variable {v : View} {x : FlowId}

theorem Stranded.releaseOf (h : v.Stranded x) (f : FlowRT) : (v.releaseOf f).Stranded x := by
  obtain ⟨f₀, rid, rsv, hf₀, ha, hs, hr, hrsv, hstale⟩ := h
  obtain ⟨rsv', hrsv', he, hc⟩ := releaseOf_keeps v f hrsv
  refine ⟨f₀, rid, rsv', by rwa [releaseOf_flows], ha, hs, hr, hrsv', ?_⟩
  unfold Stale
  rwa [he, hc, releaseOf_epoch, releaseOf_capacityGeneration]

/-- A fresh reservation does not take the place of the stale one. -/
theorem Stranded.file (h : v.Stranded x) (ho : v.OnFile) (hc : v.gen.calls < 2 ^ 64)
    {rsv : Reservation} (hid : rsv.id = v.gen.next.1) : (v.file rsv).Stranded x := by
  obtain ⟨f₀, rid, rsv₀, hf₀, ha, hs, hr, hrsv, hstale⟩ := h
  obtain ⟨k, hk, hkid⟩ := ho.minted rid rsv₀ hrsv
  have hne : rid ≠ rsv.id := fun he =>
    IdGen.next_ne hc hk ((hid.symm.trans he.symm).trans hkid)
  exact ⟨f₀, rid, rsv₀, hf₀, ha, hs, hr, (Function.update_of_ne hne _ _).trans hrsv, hstale⟩

theorem Stranded.setFlow (h : v.Stranded x) {fid : FlowId} {f : FlowRT} (hne : x ≠ fid) :
    (v.setFlow fid f).Stranded x := by
  obtain ⟨f₀, rid, rsv₀, hf₀, rest⟩ := h
  exact ⟨f₀, rid, rsv₀, (v.setFlow_of_ne f hne).trans hf₀, rest⟩

/-- A stranded flow is on file, dispatched and without a worker. -/
theorem Stranded.ne (h : v.Stranded x) {fid : FlowId} (hf : v.flows fid = none ∨
    ∃ f, v.flows fid = some f ∧ (f.state = .named .queued ∨ ∃ w, f.assignedWorker = some w)) :
    x ≠ fid := by
  rintro rfl
  obtain ⟨f₀, rid, rsv₀, hf₀, ha, hs, -⟩ := h
  rcases hf with hn | ⟨f, hf, hq⟩
  · rw [hn] at hf₀; cases hf₀
  · rw [hf, Option.some.injEq] at hf₀
    subst hf₀
    rcases hq with hq | ⟨w, hw⟩
    · rw [hq] at hs
      rcases hs with hs | hs <;> cases hs
    · rw [ha] at hw; cases hw

end View

/-- The transactions of ticks, submissions and registrations. -/
def Kind.afterLoss : Kind → Bool
  | .draw => true
  | .age => true
  | .settle => true
  | .join _ => true
  | .submit _ => true
  | .dequeue _ => true
  | .roll _ _ _ => true
  | _ => false

theorem FlowMove.stranded {v : View} {k : Kind} {fid : FlowId} {f f' : FlowRT}
    (hm : FlowMove v k fid f f') (hk : k.afterLoss = true) (ha : f.assignedWorker = none)
    (hs : isMoving f.state = true ∨ f.state = .named .preempted) : f'.assignedWorker = none ∧
      (isMoving f'.state = true ∨ f'.state = .named .preempted) := by
  cases hm with
  | age => exact ⟨ha, hs⟩
  | dispatch o ng t hres =>
    rw [hres] at hs
    rcases hs with hs | hs <;> cases hs
  | regrade ng t => exact ⟨ha, Governor.gradeOf_moving f ng⟩
  | resume => cases hk
  | progress => cases hk

/-- Such transactions leave a stranded flow stranded, as long as identities do not repeat. -/
theorem Txn.stranded {v w : View} {k : Kind} (ht : Txn v k w) (hk : k.afterLoss = true)
    (ho : v.OnFile) (hc : w.gen.calls ≤ 2 ^ 64) {x : FlowId} (h : v.Stranded x) :
    w.Stranded x := by
  cases ht with
  | draw => exact h
  | join => exact h
  | bump => cases hk
  | path => cases hk
  | lose => cases hk
  | cancel => cases hk
  | complete => cases hk
  | release => cases hk
  | remint => cases hk
  | moves k F hF =>
    obtain ⟨f, rid, rsv, hf, ha, hs, hr, hrsv, hstale⟩ := h
    refine ⟨F x f, rid, rsv, by simp [hf], ?_⟩
    rcases hF x f hf with he | hm
    · rw [he]; exact ⟨ha, hs, hr, hrsv, hstale⟩
    · obtain ⟨ha', hs'⟩ := hm.stranded hk ha hs
      exact ⟨ha', hs', hm.keeps.2.1.trans hr, hrsv, hstale⟩
  | park spec t hnew => exact h.setFlow (h.ne (Or.inl hnew))
  | reserve spec p c t hnew =>
    exact (h.file ho hc rfl).setFlow (h.ne (Or.inl hnew))
  | dequeue fid f p c t hf hq =>
    exact (h.file ho hc rfl).setFlow (h.ne (Or.inr ⟨f, hf, Or.inl hq⟩))
  | roll fid f p c worker boot hf _ hw =>
    have hc' : (v.releaseOf f).draw.gen.calls < 2 ^ 64 := hc
    have hdraw : (v.releaseOf f).draw.Stranded x := h.releaseOf f
    exact (hdraw.file (ho.releaseOf f).draw hc' rfl).setFlow
      (h.ne (Or.inr ⟨f, hf, Or.inr ⟨worker, hw⟩⟩))
  | rollStray fid f worker boot hf _ hw =>
    have hdraw : (v.releaseOf f).draw.Stranded x := h.releaseOf f
    exact hdraw.setFlow (h.ne (Or.inr ⟨f, hf, Or.inr ⟨worker, hw⟩⟩))

theorem Txn.calls_le {v w : View} {k : Kind} (ht : Txn v k w) : v.gen.calls ≤ w.gen.calls := by
  cases ht with
  | draw => exact Nat.le_succ _
  | reserve => exact Nat.le_succ _
  | dequeue => exact Nat.le_succ _
  | remint => exact Nat.le_succ _
  | cancel fid f => rw [View.releaseOf_gen]; exact le_refl _
  | complete fid f => rw [View.releaseOf_gen]; exact le_refl _
  | release rid => exact (congrArg IdGen.calls (View.release_rest v rid).2.2.2.1).ge
  | roll fid f =>
    exact (congrArg IdGen.calls (View.releaseOf_gen v f)).ge.trans
      ((Nat.le_succ _).trans (Nat.le_succ _))
  | rollStray fid f =>
    exact (congrArg IdGen.calls (View.releaseOf_gen v f)).ge.trans (Nat.le_succ _)
  | _ => exact le_refl _

/-- What may follow the loss of a worker here: ticks, submissions, and registrations of the worker
    under a boot other than the lost one. -/
def Event.afterLoss (worker : WorkerId) (boot : WorkerBootId) : Event → Bool
  | .call .tick => true
  | .call (.submitFlow _) => true
  | .call (.registerWorker reg) => decide (reg.worker = worker) && decide (reg.boot ≠ boot)
  | .call _ => false
  | .clock _ => true
  | .rehash => true

theorem Event.afterLoss_kinds {worker : WorkerId} {boot : WorkerBootId} {e : Event}
    (h : e.afterLoss worker boot = true) : e.live = true ∧ ∀ k, e.kinds k → k.afterLoss = true := by
  cases e with
  | clock => exact ⟨rfl, fun k hk => hk.elim⟩
  | rehash => exact ⟨rfl, fun k hk => hk.elim⟩
  | call op =>
    cases op with
    | tick =>
      refine ⟨rfl, fun k hk => ?_⟩
      rcases hk with rfl | rfl | ⟨fid, rfl⟩ <;> rfl
    | submitFlow spec =>
      refine ⟨rfl, fun k hk => ?_⟩
      cases hk
      rfl
    | registerWorker reg =>
      refine ⟨rfl, fun k hk => ?_⟩
      rcases hk with rfl | rfl | ⟨fid, rfl⟩ <;> rfl
    | _ => cases h

/-- The flow as the loss of its worker leaves it. -/
theorem Governor.deregisterWorker_flow {g : Governor} {fid : FlowId} {f : FlowRT}
    (hf : g.flows.find? fid = some f) {worker : WorkerId} (hr : f.state = .named .running)
    (ha : f.assignedWorker = some worker) :
    (g.deregisterWorker worker).flows.find? fid =
      some { f with assignedWorker := none, lastError := ascii "worker lost" } := by
  have hrolls : rolls worker f = true := by simp [rolls, hr, ha]
  simp only [deregisterWorker]
  rw [Table.find?_mapVals, hf, Option.map_some, if_pos hrolls]

/-- A flow whose reservation was stale is stranded by the loss of its worker. -/
theorem deregisterWorker_strands {es : List Event} {g : Governor} (h : Reaches es g) {fid : FlowId}
    {f : FlowRT} (hf : g.flows.find? fid = some f) {worker : WorkerId}
    (hr : f.state = .named .running) (ha : f.assignedWorker = some worker)
    (hstale : g.reservationCurrent f = false) :
    (g.deregisterWorker worker).view.Stranded fid := by
  unfold Governor.reservationCurrent at hstale
  cases hres : f.reservation with
  | none => rw [hres] at hstale; cases hstale
  | some rid =>
    obtain ⟨rsv, hrsv⟩ := h.onFile.held fid f rid hf hres
    have hrsv' : g.reservations.find? rid = some rsv := hrsv
    simp only [hres, hrsv'] at hstale
    refine ⟨_, rid, rsv, Governor.deregisterWorker_flow hf hr ha, rfl, Or.inl ?_, hres, hrsv',
      fun hcur => ?_⟩
    · simp [isMoving, hr]
    · have hepoch : rsv.epoch = g.epoch := hcur.1
      have hgen : rsv.capacityGeneration = g.capacityGeneration := hcur.2
      simp [hepoch, hgen] at hstale

theorem Governor.rejects_of_stranded {g : Governor} {fid : FlowId} (h : g.view.Stranded fid)
    (attempt : AttemptId) (fgen : FlowGeneration) (boot : WorkerBootId) :
    g.Rejects fid attempt fgen boot := by
  refine rejects_of_unauthorised fun f hf => authorised_reservation ?_
  obtain ⟨f', rid, rsv, hf', -, -, hres, hrsv, hstale⟩ := h
  rw [view_flows, hf, Option.some.injEq] at hf'
  subst hf'
  have hrsv' : g.reservations.find? rid = some rsv := hrsv
  simp only [reservationCurrent, hres, hrsv', Bool.and_eq_false_iff, decide_eq_false_iff_not]
  exact not_and_or.mp hstale

/-- The report of a lost worker is accepted while the reservation is current: without an assigned
    worker no boot is checked. -/
theorem Governor.deregisterWorker_accepts {g : Governor} {fid : FlowId} {f : FlowRT}
    (hf : g.flows.find? fid = some f) {worker : WorkerId} (hr : f.state = .named .running)
    (ha : f.assignedWorker = some worker) (hcur : g.reservationCurrent f = true)
    (boot : WorkerBootId) :
    ¬ (g.deregisterWorker worker).Rejects fid f.spec.attempt f.spec.generation boot := by
  intro hrej
  have hprog := (hrej 0).1
  have hauth : (g.deregisterWorker worker).authorised
      { f with assignedWorker := none, lastError := ascii "worker lost" }
      f.spec.attempt f.spec.generation boot = true := by
    have hcur' : (g.deregisterWorker worker).reservationCurrent
        { f with assignedWorker := none, lastError := ascii "worker lost" } = true := hcur
    unfold authorised
    rw [hcur']
    simp [hr, bootCurrent]
  simp [reportProgress, deregisterWorker_flow hf hr ha, hauth] at hprog

/-- When the authority of a lost worker is revoked. For a Running flow, its worker's loss and then
    any ticks, submissions and registrations of the worker under other boots, the reports of the
    lost boot are all rejected exactly when the flow's reservation was stale before the loss (as
    long as the id counter has not wrapped). -/
theorem loss_revokes_iff {es : List Event} {g : Governor} (h : Reaches es g)
    (hcalls : g.gen.calls ≤ 2 ^ 64) {fid : FlowId} {f : FlowRT} (hf : g.flows.find? fid = some f)
    (hr : f.state = .named .running) {worker : WorkerId} (ha : f.assignedWorker = some worker)
    {w₀ : WorkerRT} (_hw : g.workers.find? worker = some w₀) :
    (∀ es' g', (∀ e ∈ es', e.afterLoss worker w₀.boot = true) →
      Lib.Run Governor.Step (g.deregisterWorker worker) es' g' → g'.gen.calls ≤ 2 ^ 64 →
      g'.Rejects fid f.spec.attempt f.spec.generation w₀.boot) ↔
    g.reservationCurrent f = false := by
  constructor
  · intro hall
    by_contra hcur
    rw [Bool.not_eq_false] at hcur
    exact Governor.deregisterWorker_accepts hf hr ha hcur w₀.boot
      (hall [] _ (by simp) (.nil _) hcalls)
  · intro hstale es' g' hes hrun hcalls'
    have hran := g.deregisterWorker_ran worker
    have hfile : (g.deregisterWorker worker).view.OnFile :=
      hran.inv (fun v k w _ hv ht => ht.onFile hv) h.onFile
    -- The bound is on the last state, so the invariant is conditional on it.
    obtain ⟨-, -, hend⟩ := run_inv
      (I := fun v => v.OnFile ∧ (v.gen.calls ≤ 2 ^ 64 → v.Stranded fid)) hrun (hran.wf h.wf)
      (fun e he => (Event.afterLoss_kinds (hes e he)).1) (fun e he v k w hk _ hv ht =>
        ⟨ht.onFile hv.1, fun hc => ht.stranded ((Event.afterLoss_kinds (hes e he)).2 k hk) hv.1 hc
          (hv.2 (ht.calls_le.trans hc))⟩)
      ⟨hfile, fun _ => deregisterWorker_strands h hf hr ha hstale⟩
    exact Governor.rejects_of_stranded (hend hcalls') _ _ _

namespace Sample

/-- Flow 1 is Running under worker 1, and its reservation is stale. -/
def outdated : List Op := driven ++ [.invalidateResourceCapacity ⟨0, 1⟩]

/-- A Running flow 1 with worker 1, which is registered under boot 1. -/
def isDriven (g : Governor) (current : Bool) : Bool :=
  match g.flows.find? ⟨0, 1⟩, g.workers.find? ⟨0, 1⟩ with
  | some f, some w => decide (f.state = .named .running) &&
      decide (f.assignedWorker = some ⟨0, 1⟩) && decide (w.boot = ⟨0, 1⟩) &&
      decide (f.spec.attempt = ⟨0, 1⟩) && decide (f.spec.generation = ⟨0, 1⟩) &&
      (g.reservationCurrent f == current)
  | _, _ => false

theorem isDriven_spec {g : Governor} {current : Bool} (h : isDriven g current = true) :
    ∃ f w, g.flows.find? ⟨0, 1⟩ = some f ∧ g.workers.find? ⟨0, 1⟩ = some w ∧
      f.state = .named .running ∧ f.assignedWorker = some ⟨0, 1⟩ ∧ w.boot = ⟨0, 1⟩ ∧
      f.spec.attempt = ⟨0, 1⟩ ∧ f.spec.generation = ⟨0, 1⟩ ∧
      g.reservationCurrent f = current := by
  unfold isDriven at h
  split at h
  · rename_i f w hf hw
    simp only [Bool.and_eq_true, decide_eq_true_eq, beq_iff_eq] at h
    obtain ⟨⟨⟨⟨⟨h₁, h₂⟩, h₃⟩, h₄⟩, h₅⟩, h₆⟩ := h
    exact ⟨f, w, hf, hw, h₁, h₂, h₃, h₄, h₅, h₆⟩
  · cases h

end Sample

/-- The theorem for flow 1 with a stale reservation: worker 1 is lost, and the scheduler ticks. -/
theorem loss_revokes_iff_outdated :
    (((Sample.start.after Sample.outdated).deregisterWorker ⟨0, 1⟩).apply .tick).Rejects
      ⟨0, 1⟩ ⟨0, 1⟩ ⟨0, 1⟩ ⟨0, 1⟩ := by
  obtain ⟨f, w, hf, hw, hr, ha, hb, hat, hgen, hcur⟩ := Sample.isDriven_spec
    (by decide +kernel : Sample.isDriven (Sample.start.after Sample.outdated) false = true)
  have hcalls : (Sample.start.after Sample.outdated).gen.calls ≤ 2 ^ 64 := by decide +kernel
  have h := (loss_revokes_iff (Sample.reaches rfl) hcalls hf hr ha hw).mpr hcur [.call .tick] _
    (by simp [Event.afterLoss]) (.cons (.call _ .tick) (.nil _)) (by decide +kernel)
  rw [hat, hgen, hb] at h
  exact h

/-- Flow 1 has a current reservation: worker 1 is lost, and the completion it then reports is
    accepted all the same. -/
theorem lost_worker_completes : ∃ f w, Reaches (Sample.driven.map Event.call)
      (Sample.start.after Sample.driven) ∧
    (Sample.start.after Sample.driven).flows.find? ⟨0, 1⟩ = some f ∧
    f.state = .named .running ∧ f.assignedWorker = some ⟨0, 1⟩ ∧
    (Sample.start.after Sample.driven).workers.find? ⟨0, 1⟩ = some w ∧ w.boot = ⟨0, 1⟩ ∧
    f.spec.attempt = ⟨0, 1⟩ ∧ f.spec.generation = ⟨0, 1⟩ ∧
    ∃ g', ((Sample.start.after Sample.driven).deregisterWorker ⟨0, 1⟩).reportCompletion ⟨0, 1⟩
      ⟨0, 1⟩ ⟨0, 1⟩ ⟨0, 1⟩ 10 = .ok (g', true) := by
  obtain ⟨f, w, hf, hw, hr, ha, hb, hat, hgen, -⟩ := Sample.isDriven_spec
    (by decide +kernel : Sample.isDriven (Sample.start.after Sample.driven) true = true)
  have hok : (((Sample.start.after Sample.driven).deregisterWorker ⟨0, 1⟩).reportCompletion ⟨0, 1⟩
      ⟨0, 1⟩ ⟨0, 1⟩ ⟨0, 1⟩ 10).toOption.map Prod.snd = some true := by decide +kernel
  refine ⟨f, w, Sample.reaches rfl, hf, hr, ha, hw, hb, hat, hgen, ?_⟩
  cases hres : ((Sample.start.after Sample.driven).deregisterWorker ⟨0, 1⟩).reportCompletion ⟨0, 1⟩
      ⟨0, 1⟩ ⟨0, 1⟩ ⟨0, 1⟩ 10 with
  | error e => rw [hres] at hok; cases hok
  | ok r =>
    rw [hres] at hok
    exact ⟨r.1, by rw [← Option.some.inj hok]⟩

end BG
