import Mathlib
import BandwidthGovernor.Governor.Run
import BandwidthGovernor.Governor.Arbitration

/-! The authority state machine behind the operations.

    `View` is what fences and reservations depend on, with tables read as functions. `Txn` lists
    every atomic change of that view: each keeps flow and reservation in step, which the single
    writes of an operation do not. `Governor/Refine.lean` shows that every operation is a run of
    such transactions, so an invariant of `Txn` is an invariant of the coordinator. -/

namespace BG

open Lib

/-- The tables as functions, and the authority counters. -/
structure View where
  flows : FlowId → Option FlowRT
  reservations : ReservationId → Option Reservation
  workers : WorkerId → Option WorkerRT
  paths : PathId → Option Path
  gen : IdGen
  epoch : CoordinatorEpoch
  capacityGeneration : CapacityGeneration

def Governor.view (g : Governor) : View :=
  ⟨g.flows.find?, g.reservations.find?, g.workers.find?, g.paths.find?, g.gen, g.epoch,
    g.capacityGeneration⟩

/-- One allocation of the same rate per hop. -/
def hopAllocations (hops : List PathHop) (c : Capacity) : List ResourceAllocation :=
  hops.map fun hop => { resource := hop.resource, allocated := c }

namespace View

/-- The reservation the next mint yields. -/
def minted (v : View) (spec : FlowSpec) (boot : WorkerBootId) (hops : List PathHop)
    (c : Capacity) : Reservation :=
  { id := v.gen.next.1, flow := spec.id, attempt := spec.attempt
    flowGeneration := spec.generation, path := spec.path, allocations := hopAllocations hops c
    epoch := v.epoch, workerBoot := boot, capacityGeneration := v.capacityGeneration
    state := .named .active }

/-- File a freshly minted reservation. -/
def file (v : View) (rsv : Reservation) : View :=
  { v with gen := v.gen.drawn, reservations := Function.update v.reservations rsv.id (some rsv) }

def draw (v : View) : View := { v with gen := v.gen.drawn }

def setFlow (v : View) (fid : FlowId) (f : FlowRT) : View :=
  { v with flows := Function.update v.flows fid (some f) }

def release (v : View) (rid : ReservationId) : View :=
  match v.reservations rid with
  | none => v
  | some rsv =>
    match reservationTransition rsv.state (.named .released) with
    | none => v
    | some s =>
      { v with reservations := Function.update v.reservations rid (some { rsv with state := s }) }

def releaseOf (v : View) (f : FlowRT) : View :=
  match f.reservation with
  | none => v
  | some rid => v.release rid

/-- Enter a worker under its id. -/
def join (v : View) (w : WorkerRT) : View :=
  { v with workers := Function.update v.workers w.id (some w) }

/-- `deregister_worker`: the worker is dead and its Running flows have no worker. -/
def lose (v : View) (worker : WorkerId) : View :=
  { v with
    workers := fun wid =>
      if wid = worker then (v.workers wid).map fun w => { w with alive := false }
      else v.workers wid
    flows := fun fid => (v.flows fid).map fun f =>
      if Governor.rolls worker f then
        { f with assignedWorker := none, lastError := ascii "worker lost" }
      else f }

end View

/-- Labels of the transactions. -/
inductive Kind where
  | draw | bump | path | age | settle
  | join (w : WorkerRT)
  | lose (worker : WorkerId)
  | submit (spec : FlowSpec)
  | dequeue (fid : FlowId)
  | cancel (fid : FlowId)
  | resume (fid : FlowId)
  | release (rid : ReservationId)
  | progress (fid : FlowId)
  | complete (fid : FlowId)
  | roll (fid : FlowId) (worker : WorkerId) (boot : WorkerBootId)

/-- A flow as `submit_flow` parks it. -/
def parkedFlow (spec : FlowSpec) (t : ℚ) : FlowRT :=
  { spec := spec, state := .named .queued, admittedMs := t, lastMs := t
    burstRemaining := spec.burstBytes }

/-- A flow as `submit_flow` admits it. -/
def reservedFlow (spec : FlowSpec) (t : ℚ) (granted : ℚ) (rid : ReservationId) : FlowRT :=
  { parkedFlow spec t with
    state := .named .reserved, granted := granted, lastGrantUpdateMs := t, reservation := some rid }

/-- A flow after a restart roll, before its new reservation. -/
def rolledFlow (f : FlowRT) (attempt : AttemptId) (worker : WorkerId) (boot : WorkerBootId) :
    FlowRT :=
  { f with
    retries := f.retries + 1
    spec := { f.spec with attempt := attempt, generation := nextGeneration f.spec.generation }
    assignedWorker := some worker, assignedBoot := boot, bytesDone := 0
    lastError := ascii "worker restarted; retry with new attempt" }

/-- Changes of one flow that touch no reservation. -/
inductive FlowMove (v : View) : Kind → FlowId → FlowRT → FlowRT → Prop where
  | age {fid : FlowId} {f : FlowRT} (s t : ℚ) : f.state ≠ .named .running →
      FlowMove v .age fid f { f with starvationMs := s, lastMs := t }
  | dispatch {fid : FlowId} {f : FlowRT} (o : Option (WorkerId × WorkerRT)) (ng t : ℚ) :
      f.state = .named .reserved →
      (∀ wid w, o = some (wid, w) → v.workers wid = some w ∧ w.alive = true) →
      0 ≤ ng → ng ≤ f.spec.requestedPreferred.value →
      FlowMove v .settle fid f { Governor.dispatchTo { f with granted := ng } o with
        state := .named .running, lastGrantUpdateMs := t }
  | regrade {fid : FlowId} {f : FlowRT} (ng t : ℚ) : isMoving f.state = true →
      0 ≤ ng → ng ≤ f.spec.requestedPreferred.value →
      FlowMove v .settle fid f { f with
        granted := ng, state := .named (Governor.gradeOf f ng), lastGrantUpdateMs := t }
  | resume {fid : FlowId} {f : FlowRT} :
      f.state = .named .preempted ∨ f.state = .named .throttled →
      FlowMove v (.resume fid) fid f { f with state := .named .reserved }
  | progress {fid : FlowId} {f : FlowRT} (b : UInt64) (t : ℚ) : f.state = .named .running →
      FlowMove v (.progress fid) fid f { f with bytesDone := b, lastMs := t }

/-- The atomic changes of the view. -/
inductive Txn : View → Kind → View → Prop where
  | draw (v : View) : Txn v .draw v.draw
  | bump (v : View) :
      Txn v .bump { v with capacityGeneration := nextGeneration v.capacityGeneration }
  | path (v : View) (p : Path) : p.resources.Nodup →
      Txn v .path { v with paths := Function.update v.paths p.id (some p) }
  | join (v : View) (w : WorkerRT) : Txn v (.join w) (v.join w)
  | lose (v : View) (worker : WorkerId) : Txn v (.lose worker) (v.lose worker)
  | moves {v : View} (k : Kind) (F : FlowId → FlowRT → FlowRT) :
      (∀ fid f, v.flows fid = some f → F fid f = f ∨ FlowMove v k fid f (F fid f)) →
      Txn v k { v with flows := fun fid => (v.flows fid).map (F fid) }
  | park {v : View} (spec : FlowSpec) (t : ℚ) :
      v.flows spec.id = none → validateFlowSpec spec = none → (∃ p, v.paths spec.path = some p) →
      Txn v (.submit spec) (v.setFlow spec.id (parkedFlow spec t))
  | reserve {v : View} (spec : FlowSpec) (p : Path) (c : Capacity) (t : ℚ) :
      v.flows spec.id = none → validateFlowSpec spec = none → v.paths spec.path = some p →
      c.value ≤ spec.requestedMax.value →
      Txn v (.submit spec) ((v.file (v.minted spec .null p.hops c)).setFlow spec.id
        (reservedFlow spec t c.value v.gen.next.1))
  | dequeue {v : View} (fid : FlowId) (f : FlowRT) (p : Path) (c : Capacity) (t : ℚ) :
      v.flows fid = some f → f.state = .named .queued → v.paths f.spec.path = some p →
      c.value ≤ f.spec.requestedMax.value →
      Txn v (.dequeue fid) ((v.file (v.minted f.spec .null p.hops c)).setFlow fid
        { f with reservation := some v.gen.next.1, granted := c.value, admittedMs := t
                 state := .named .reserved })
  | cancel {v : View} (fid : FlowId) (f : FlowRT) (reason : Str) :
      v.flows fid = some f → isTerminal f.state = false →
      Txn v (.cancel fid)
        ((v.setFlow fid { f with state := .named .cancelled, lastError := reason }).releaseOf f)
  | complete {v : View} (fid : FlowId) (f : FlowRT) (b : UInt64) (t : ℚ) :
      v.flows fid = some f → f.state = .named .running →
      Txn v (.complete fid) ((v.setFlow fid
        { f with bytesDone := b, state := .named .completed, lastMs := t }).releaseOf f)
  | release (v : View) (rid : ReservationId) : Txn v (.release rid) (v.release rid)
  | remint {v : View} (fid : FlowId) (f : FlowRT) (p : Path) (c : Capacity) :
      v.flows fid = some f → f.state = .named .preempted ∨ f.state = .named .throttled →
      f.reservation = none → v.paths f.spec.path = some p →
      Txn v (.resume fid) ((v.file (v.minted f.spec .null p.hops c)).setFlow fid
        { f with reservation := some v.gen.next.1, state := .named .reserved })
  | roll {v : View} (fid : FlowId) (f : FlowRT) (p : Path) (c : Capacity) (worker : WorkerId)
      (boot : WorkerBootId) :
      v.flows fid = some f → f.state = .named .running → f.assignedWorker = some worker →
      v.paths f.spec.path = some p → c.value ≤ f.spec.requestedMax.value →
      Txn v (.roll fid worker boot)
        ((((v.releaseOf f).draw).file ((v.releaseOf f).draw.minted
            (rolledFlow f v.gen.next.1 worker boot).spec boot p.hops c)).setFlow fid
          { rolledFlow f v.gen.next.1 worker boot with
            reservation := some (v.releaseOf f).draw.gen.next.1, granted := c.value
            state := .named .reserved })
  | rollStray {v : View} (fid : FlowId) (f : FlowRT) (worker : WorkerId) (boot : WorkerBootId) :
      v.flows fid = some f → f.state = .named .running → f.assignedWorker = some worker →
      v.paths f.spec.path = none →
      Txn v (.roll fid worker boot) (((v.releaseOf f).draw).setFlow fid
        { rolledFlow f v.gen.next.1 worker boot with state := .named .reserved })

/-! ### Components of a view -/

namespace View

theorem setFlow_self (v : View) (fid : FlowId) (f : FlowRT) :
    (v.setFlow fid f).flows fid = some f :=
  Function.update_self _ _ _

theorem setFlow_of_ne (v : View) {fid x : FlowId} (f : FlowRT) (h : x ≠ fid) :
    (v.setFlow fid f).flows x = v.flows x := Function.update_of_ne h _ _

/-- A flow on file after a write: the written one, or one that was there. -/
theorem setFlow_cases {v : View} {fid x : FlowId} {f f' : FlowRT}
    (h : (v.setFlow fid f).flows x = some f') :
    x = fid ∧ f' = f ∨ x ≠ fid ∧ v.flows x = some f' := by
  by_cases he : x = fid
  · subst he
    rw [setFlow_self, Option.some.injEq] at h
    exact Or.inl ⟨rfl, h.symm⟩
  · exact Or.inr ⟨he, setFlow_of_ne v f he ▸ h⟩

/-- A reservation on file after a mint: the minted one, or one that was there. -/
theorem file_cases {v : View} {rsv rsv' : Reservation} {x : ReservationId}
    (h : (v.file rsv).reservations x = some rsv') :
    x = rsv.id ∧ rsv' = rsv ∨ v.reservations x = some rsv' := by
  by_cases he : x = rsv.id
  · subst he
    have := (Function.update_self _ _ v.reservations).symm.trans h
    exact Or.inl ⟨rfl, (Option.some.inj this).symm⟩
  · exact Or.inr ((Function.update_of_ne he _ _).symm.trans h)

@[simp] theorem release_rest (v : View) (rid : ReservationId) :
    (v.release rid).flows = v.flows ∧ (v.release rid).workers = v.workers ∧
      (v.release rid).paths = v.paths ∧ (v.release rid).gen = v.gen ∧
      (v.release rid).epoch = v.epoch ∧
      (v.release rid).capacityGeneration = v.capacityGeneration := by
  unfold release
  split
  · simp
  · split <;> simp

theorem releaseOf_rest (v : View) (f : FlowRT) :
    (v.releaseOf f).flows = v.flows ∧ (v.releaseOf f).workers = v.workers ∧
      (v.releaseOf f).paths = v.paths ∧ (v.releaseOf f).gen = v.gen ∧
      (v.releaseOf f).epoch = v.epoch ∧
      (v.releaseOf f).capacityGeneration = v.capacityGeneration := by
  unfold releaseOf
  split
  · simp
  · exact release_rest _ _

@[simp] theorem releaseOf_flows (v : View) (f : FlowRT) : (v.releaseOf f).flows = v.flows :=
  (releaseOf_rest v f).1
@[simp] theorem releaseOf_workers (v : View) (f : FlowRT) : (v.releaseOf f).workers = v.workers :=
  (releaseOf_rest v f).2.1
@[simp] theorem releaseOf_paths (v : View) (f : FlowRT) : (v.releaseOf f).paths = v.paths :=
  (releaseOf_rest v f).2.2.1
@[simp] theorem releaseOf_gen (v : View) (f : FlowRT) : (v.releaseOf f).gen = v.gen :=
  (releaseOf_rest v f).2.2.2.1
@[simp] theorem releaseOf_epoch (v : View) (f : FlowRT) : (v.releaseOf f).epoch = v.epoch :=
  (releaseOf_rest v f).2.2.2.2.1
@[simp] theorem releaseOf_capacityGeneration (v : View) (f : FlowRT) :
    (v.releaseOf f).capacityGeneration = v.capacityGeneration :=
  (releaseOf_rest v f).2.2.2.2.2

/-- A release changes at most the state of one reservation, to Released. -/
theorem release_reservations (v : View) (rid : ReservationId) {x : ReservationId}
    {rsv : Reservation} (h : (v.release rid).reservations x = some rsv) :
    ∃ rsv₀, v.reservations x = some rsv₀ ∧
      (rsv = rsv₀ ∨ x = rid ∧ rsv = { rsv₀ with state := .named .released }) := by
  unfold release at h
  cases hr : v.reservations rid with
  | none => simp only [hr] at h; exact ⟨rsv, h, Or.inl rfl⟩
  | some rsv₀ =>
    simp only [hr] at h
    cases ht : reservationTransition rsv₀.state (.named .released) with
    | none => simp only [ht] at h; exact ⟨rsv, h, Or.inl rfl⟩
    | some s =>
      have hs : s = .named .released := by
        unfold reservationTransition at ht
        split at ht
        · exact (Option.some.inj ht).symm
        · split at ht
          · split at ht
            · exact (Option.some.inj ht).symm
            · cases ht
          · cases ht
      simp only [ht] at h
      by_cases hx : x = rid
      · subst hx
        rw [Function.update_self, Option.some.injEq] at h
        exact ⟨rsv₀, hr, Or.inr ⟨rfl, by rw [← h, hs]⟩⟩
      · rw [Function.update_of_ne hx] at h
        exact ⟨rsv, h, Or.inl rfl⟩

/-- Releasing an Active reservation leaves it Released. -/
theorem release_active (v : View) {rid : ReservationId} {rsv : Reservation}
    (h : v.reservations rid = some rsv) (ha : rsv.state = .named .active) :
    (v.release rid).reservations rid = some { rsv with state := .named .released } := by
  have ht : reservationTransition rsv.state (.named .released) = some (.named .released) := by
    rw [ha]; decide
  simp [release, h, ht]

end View

/-! ### Well-formed views -/

/-- Flows and paths are filed under their own ids, specs are enveloped, grants are within the cap
    and paths are simple. -/
structure View.WF (v : View) : Prop where
  keyed : ∀ fid f, v.flows fid = some f → f.spec.id = fid
  envelope : ∀ fid f, v.flows fid = some f → f.spec.Envelope
  granted : ∀ fid f, v.flows fid = some f → 0 ≤ f.granted ∧ f.granted ≤ f.spec.requestedMax.value
  pathKeyed : ∀ pid p, v.paths pid = some p → p.id = pid
  simple : ∀ pid p, v.paths pid = some p → p.resources.Nodup

/-- What a well-formed view asks of one flow. -/
structure FlowOk (fid : FlowId) (f : FlowRT) : Prop where
  keyed : f.spec.id = fid
  envelope : f.spec.Envelope
  granted : 0 ≤ f.granted ∧ f.granted ≤ f.spec.requestedMax.value

theorem FlowOk.rated {fid : FlowId} {f : FlowRT} (h : FlowOk fid f) :
    0 ≤ f.granted ∧ f.granted ≤ kMaxRate :=
  ⟨h.granted.1, h.granted.2.trans f.spec.requestedMax.le_max⟩

theorem View.WF.flowOk {v : View} (h : v.WF) {fid : FlowId} {f : FlowRT}
    (hf : v.flows fid = some f) : FlowOk fid f :=
  ⟨h.keyed fid f hf, h.envelope fid f hf, h.granted fid f hf⟩

theorem View.WF.of_flows {v w : View} (h : v.WF) (hp : w.paths = v.paths)
    (hf : ∀ fid f, w.flows fid = some f → FlowOk fid f) : w.WF :=
  ⟨fun fid f hx => (hf fid f hx).keyed, fun fid f hx => (hf fid f hx).envelope,
    fun fid f hx => (hf fid f hx).granted, hp ▸ h.pathKeyed, hp ▸ h.simple⟩

theorem View.WF.setFlow {v w : View} (h : v.WF) (hp : w.paths = v.paths) {fid : FlowId}
    {f : FlowRT} (hw : w.flows = Function.update v.flows fid (some f)) (hf : FlowOk fid f) :
    w.WF := by
  refine h.of_flows hp fun fid' f' hx => ?_
  rcases View.setFlow_cases (v := v) (hw ▸ hx) with ⟨rfl, rfl⟩ | ⟨-, hx⟩
  · exact hf
  · exact h.flowOk hx

theorem View.WF.releaseOf {v : View} (h : v.WF) (f : FlowRT) : (v.releaseOf f).WF :=
  h.of_flows (View.releaseOf_paths v f) fun _ _ hf => h.flowOk (View.releaseOf_flows v f ▸ hf)

theorem dispatchTo_spec (f : FlowRT) (o : Option (WorkerId × WorkerRT)) :
    (Governor.dispatchTo f o).spec = f.spec ∧ (Governor.dispatchTo f o).granted = f.granted ∧
      (Governor.dispatchTo f o).reservation = f.reservation := by
  cases o <;> simp [Governor.dispatchTo]

theorem FlowMove.flowOk {v : View} {k : Kind} {fid : FlowId} {f f' : FlowRT}
    (hm : FlowMove v k fid f f') (h : FlowOk fid f) : FlowOk fid f' := by
  have hpref := h.envelope.le_max
  cases hm with
  | age => exact ⟨h.keyed, h.envelope, h.granted⟩
  | dispatch o ng t _ _ h0 h1 =>
    obtain ⟨hs, hg, -⟩ := dispatchTo_spec { f with granted := ng } o
    exact ⟨by simpa [hs] using h.keyed, by simpa [hs] using h.envelope,
      by simpa [hs, hg] using ⟨h0, h1.trans hpref⟩⟩
  | regrade ng t _ h0 h1 => exact ⟨h.keyed, h.envelope, h0, h1.trans hpref⟩
  | resume => exact ⟨h.keyed, h.envelope, h.granted⟩
  | progress => exact ⟨h.keyed, h.envelope, h.granted⟩

/-- Every transaction keeps the view well-formed. -/
theorem Txn.wf {v w : View} {k : Kind} (ht : Txn v k w) (h : v.WF) : w.WF := by
  cases ht with
  | draw => exact h.of_flows rfl fun _ _ => h.flowOk
  | bump => exact h.of_flows rfl fun _ _ => h.flowOk
  | path p hp =>
    have hcase : ∀ pid q, Function.update v.paths p.id (some p) pid = some q →
        pid = p.id ∧ q = p ∨ v.paths pid = some q := fun pid q hq => by
      by_cases he : pid = p.id
      · subst he
        rw [Function.update_self, Option.some.injEq] at hq
        exact Or.inl ⟨rfl, hq.symm⟩
      · rw [Function.update_of_ne he] at hq
        exact Or.inr hq
    refine ⟨h.keyed, h.envelope, h.granted, fun pid q hq => ?_, fun pid q hq => ?_⟩
    · rcases hcase pid q hq with ⟨rfl, rfl⟩ | hq
      · rfl
      · exact h.pathKeyed pid q hq
    · rcases hcase pid q hq with ⟨rfl, rfl⟩ | hq
      · exact hp
      · exact h.simple pid q hq
  | join w => exact h.of_flows rfl fun _ _ => h.flowOk
  | lose worker =>
    refine h.of_flows rfl fun fid f' hx => ?_
    obtain ⟨f, hf, rfl⟩ := Option.map_eq_some_iff.mp hx
    split
    · exact ⟨h.keyed fid f hf, h.envelope fid f hf, h.granted fid f hf⟩
    · exact h.flowOk hf
  | moves k F hF =>
    refine h.of_flows rfl fun fid f' hx => ?_
    obtain ⟨f, hf, rfl⟩ := Option.map_eq_some_iff.mp hx
    rcases hF fid f hf with he | hm
    · exact he.symm ▸ h.flowOk hf
    · exact hm.flowOk (h.flowOk hf)
  | park spec t _ hv =>
    refine h.setFlow rfl rfl ⟨rfl, validateFlowSpec_envelope hv, le_refl _, ?_⟩
    exact spec.requestedMax.nonneg
  | reserve spec p c t _ hv _ hc =>
    exact h.setFlow rfl rfl ⟨rfl, validateFlowSpec_envelope hv, c.nonneg, hc⟩
  | dequeue fid f p c t hf _ _ hc =>
    exact h.setFlow rfl rfl ⟨h.keyed fid f hf, h.envelope fid f hf, c.nonneg, hc⟩
  | cancel fid f reason hf =>
    exact h.setFlow (View.releaseOf_paths _ f) (View.releaseOf_flows _ f)
      ⟨h.keyed fid f hf, h.envelope fid f hf, h.granted fid f hf⟩
  | complete fid f b t hf =>
    exact h.setFlow (View.releaseOf_paths _ f) (View.releaseOf_flows _ f)
      ⟨h.keyed fid f hf, h.envelope fid f hf, h.granted fid f hf⟩
  | release rid =>
    exact h.of_flows (View.release_rest v rid).2.2.1 fun fid f hf =>
      h.flowOk ((View.release_rest v rid).1 ▸ hf)
  | remint fid f p c hf =>
    exact h.setFlow rfl rfl ⟨h.keyed fid f hf, h.envelope fid f hf, h.granted fid f hf⟩
  | roll fid f p c worker boot hf _ _ _ hc =>
    refine (h.releaseOf f).setFlow rfl rfl ⟨h.keyed fid f hf, ?_, c.nonneg, hc⟩
    exact ⟨(h.envelope fid f hf).min_le, (h.envelope fid f hf).le_max⟩
  | rollStray fid f worker boot hf =>
    refine (h.releaseOf f).setFlow rfl rfl ⟨h.keyed fid f hf, ?_, h.granted fid f hf⟩
    exact ⟨(h.envelope fid f hf).min_le, (h.envelope fid f hf).le_max⟩

/-- A move of a single flow. -/
theorem Txn.move {v : View} {k : Kind} {fid : FlowId} {f f' : FlowRT} (hf : v.flows fid = some f)
    (hm : FlowMove v k fid f f') : Txn v k (v.setFlow fid f') := by
  have hflows : Function.update v.flows fid (some f') =
      fun x => (v.flows x).map fun y => if x = fid then f' else y := by
    funext x
    rw [Function.update_apply]
    split
    · rename_i h; rw [h, hf]; simp
    · simp
  rw [View.setFlow, hflows]
  refine .moves k (fun x y => if x = fid then f' else y) fun x y hy => ?_
  by_cases hx : x = fid
  · subst hx
    rw [hf, Option.some.injEq] at hy
    rw [if_pos rfl, ← hy]
    exact Or.inr hm
  · rw [if_neg hx]
    exact Or.inl rfl

/-- A roll writes no other flow. -/
theorem Txn.roll_flows {v w : View} {fid : FlowId} {worker : WorkerId} {boot : WorkerBootId}
    (ht : Txn v (.roll fid worker boot) w) {x : FlowId} (hx : x ≠ fid) :
    w.flows x = v.flows x := by
  cases ht with
  | moves k F hF =>
    have : ∀ f, v.flows x = some f → F x f = f := fun f hf =>
      (hF x f hf).elim id fun hm => by cases hm
    cases hf : v.flows x with
    | none => simp [hf]
    | some f => simp [hf, this f hf]
  | roll fid f => exact (Function.update_of_ne hx _ _).trans (congrFun (View.releaseOf_flows v f) x)
  | rollStray fid f =>
    exact (Function.update_of_ne hx _ _).trans (congrFun (View.releaseOf_flows v f) x)

theorem Txn.epoch {v w : View} {k : Kind} (ht : Txn v k w) : w.epoch = v.epoch := by
  cases ht with
  | cancel fid f => exact View.releaseOf_epoch _ f
  | complete fid f => exact View.releaseOf_epoch _ f
  | release rid => exact (View.release_rest v rid).2.2.2.2.1
  | roll fid f => exact View.releaseOf_epoch v f
  | rollStray fid f => exact View.releaseOf_epoch v f
  | _ => rfl

end BG
