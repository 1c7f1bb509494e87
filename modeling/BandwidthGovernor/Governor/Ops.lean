import BandwidthGovernor.Governor.State

/-! The coordinator's mutating operations (`governor.cpp`), except restoration.

    An operation that can throw returns `Except Fault _`: the fault carries the exception and the
    state as far as it was written when the exception left the operation. -/

namespace BG

open Lib

/-- An exception and the state it left behind. -/
abbrev Fault := Error × Governor

structure WorkerRegistration where
  worker : WorkerId
  boot : WorkerBootId
  inventory : List ResourceSpec
  protocolVersion : UInt32 := 1
  backend : Str := []

structure AdmissionResult where
  admitted : Bool := false
  flow : FlowId
  decision : Decision
  reservation : Option Reservation := none

/-- `make_decision`. -/
def makeDecision (spec : FlowSpec) (kind : DecisionKind) (granted : ℚ) (saturated : Bool)
    (reason : String) (bottleneck : Option ResourceId) : Decision :=
  { flow := spec.id, tenant := spec.tenant, workload := spec.workload, kind := .named kind
    requested := spec.requestedPreferred, granted := (Capacity.tryMake granted).getD .zero
    minimumGuarantee := spec.requestedMin, preferred := spec.requestedPreferred
    maximum := spec.requestedMax, bottleneck := bottleneck, path := spec.path
    priority := spec.priority, latencyClass := spec.latencyClass, saturated := saturated
    kindReason := ascii reason }

/-- `set_flow_state`. -/
def setFlowState (f : FlowRT) (target : FlowState) : Except Error FlowRT :=
  match flowTransition f.state (.named target) with
  | none => .error (.transition ("invalid flow transition: " ++ flowStateName f.state ++ " -> " ++
      flowStateName (.named target)))
  | some s => .ok { f with state := s }

namespace Governor

def setAutoClock (g : Governor) (auto : Bool) : Governor := { g with autoClock := auto }

def advanceMs (g : Governor) (dt : ℚ) : Governor := { g with virtualNow := g.virtualNow + dt }

/-! ### Resources -/

/-- Write a resource from a caller's spec: `add_resource` and the inventory loop of
    `register_worker`. A null generation is replaced by a fresh one; `r` keeps the runtime fields of
    an existing entry. -/
def installResource (g : Governor) (spec : ResourceSpec) (write : ResRT → ResRT) : Governor :=
  let r := (g.resources.find? spec.id).getD { spec := spec }
  let (generation, gen) :=
    if spec.generation.isNull then
      let (nonce, gen) := g.gen.next64
      ((freshGeneration nonce : CapacityGeneration), gen)
    else (spec.generation, g.gen)
  let r := { r with spec := { spec with generation := generation }, measured := 0, lastMs := g.now }
  { g with gen := gen, resources := g.resources.insert spec.id (write r) }

def addResource (g : Governor) (spec : ResourceSpec) : Governor :=
  (g.installResource spec fun r => { r with confidence := 0 }).recomputeGoverned

def bumpCapacityGeneration (g : Governor) : Governor :=
  { g with capacityGeneration := nextGeneration g.capacityGeneration }

def bumpResourceGeneration (g : Governor) (res : ResourceId) : Governor :=
  { g with resources := g.resources.modify res fun r =>
      { r with spec := { r.spec with generation := nextGeneration r.spec.generation } } }

def updateCapacity (g : Governor) (res : ResourceId) (measured confidence : ℚ) (provenance : Str)
    (measuredLatencyMs : ℚ) (queueDepth : UInt64) (bumpGeneration : Bool) :
    Except Fault Governor :=
  match g.resources.find? res with
  | none => .ok g
  | some r =>
    if ¬ isValidRate measured ∨ ¬ (0 ≤ confidence ∧ confidence ≤ 1) then
      .error (.value "invalid capacity update: bad measured rate or confidence", g)
    else
      let nominal := if r.spec.nominal.value > 0 then r.spec.nominal.value else 1
      let r := { r with
        measured := measured, confidence := confidence, provenance := provenance
        latencyMs := measuredLatencyMs, qdepth := queueDepth
        movingAvg := r.movingAvg * (7 / 10) + measured / nominal * (3 / 10), lastMs := g.now }
      let g := { g with resources := g.resources.insert res r }
      let g := if bumpGeneration then (g.bumpResourceGeneration res).bumpCapacityGeneration else g
      .ok g.recomputeGoverned.recomputeSaturation

def setResourceEnabled (g : Governor) (res : ResourceId) (enabled : Bool) : Governor :=
  match g.resources.find? res with
  | none => g
  | some r =>
    { g with resources := g.resources.insert res { r with enabled := enabled } }
      |>.recomputeGoverned |>.recomputeSaturation

def invalidateResourceCapacity (g : Governor) (res : ResourceId) : Governor :=
  match g.resources.find? res with
  | none => g
  | some _ =>
    (g.bumpResourceGeneration res).bumpCapacityGeneration.recomputeGoverned.recomputeSaturation

/-! ### Paths -/

def addPath (g : Governor) (path : Path) : Except Fault Governor :=
  match validatePath path with
  | some err => .error (.value ("invalid path: " ++ err), g)
  | none => .ok { g with paths := g.paths.insert path.id path }

def invalidatePath (g : Governor) (path : PathId) : Governor :=
  { g with paths := g.paths.modify path fun p =>
      { p with pathGeneration := nextGeneration p.pathGeneration } }

/-! ### Reservations -/

/-- One allocation of `rate` per hop; `Capacity::make` may throw. -/
def allocationsOf (hops : List PathHop) (rate : ℚ) : Except Error (List ResourceAllocation) :=
  hops.mapM fun hop => do
    let allocated ← Capacity.make rate
    pure { resource := hop.resource, allocated := allocated }

/-- Mint an Active reservation for a flow spec over `hops` and file it: the block shared by
    `submit_flow`, `admit_queued`, `resume_flow` and the restart roll. The id is drawn before the
    allocations are checked. -/
def mintReservation (g : Governor) (spec : FlowSpec) (boot : WorkerBootId) (hops : List PathHop)
    (rate : ℚ) : Except Fault (Reservation × Governor) :=
  let (rid, gen) := g.gen.next
  let g := { g with gen := gen }
  match allocationsOf hops rate with
  | .error e => .error (e, g)
  | .ok allocations =>
    let rsv : Reservation :=
      { id := rid, flow := spec.id, attempt := spec.attempt, flowGeneration := spec.generation
        path := spec.path, allocations := allocations, epoch := g.epoch, workerBoot := boot
        capacityGeneration := g.capacityGeneration, state := .named .active }
    .ok (rsv, { g with reservations := g.reservations.insert rid rsv })

def releaseReservationInternal (g : Governor) (rid : ReservationId) : Governor :=
  match g.reservations.find? rid with
  | none => g
  | some rsv =>
    match reservationTransition rsv.state (.named .released) with
    | none => g
    | some s => { g with reservations := g.reservations.insert rid { rsv with state := s } }

/-- `if (f.reservation) release_reservation_internal(*f.reservation)`. -/
def releaseOf (g : Governor) (f : FlowRT) : Governor :=
  match f.reservation with
  | none => g
  | some rid => g.releaseReservationInternal rid

def releaseReservation (g : Governor) (id : ReservationId) : Governor × Bool :=
  match g.reservations.find? id with
  | none => (g, false)
  | some rsv =>
    if rsv.state = .named .released ∨ rsv.state = .named .cancelled ∨
        rsv.state = .named .expired ∨ rsv.state = .named .failed then (g, false)
    else ((g.releaseReservationInternal id).recomputeReserved.recomputeSaturation, true)

/-! ### Admission -/

/-- What is left of a resource for new commitments. -/
def availability (r : ResRT) : ℚ :=
  if r.governed - r.reserved - r.allocated < 0 then 0 else r.governed - r.reserved - r.allocated

/-- Outcome of the hop scan of `submit_flow` and `admit_queued`. -/
structure Scan where
  feasible : Bool := true
  bottleneckAvail : ℚ := kMaxRate
  bottleneck : Option ResourceId := none

/-- The hop scan: an unregistered hop ends it as infeasible. -/
def scanHops (g : Governor) (minimum : ℚ) : Scan → List PathHop → Scan
  | s, [] => s
  | s, hop :: hops =>
    match g.resources.find? hop.resource with
    | none => { s with feasible := false }
    | some r =>
      let avail := availability r
      scanHops g minimum
        { feasible := s.feasible && !decide (avail + kEps < minimum)
          bottleneckAvail := if avail < s.bottleneckAvail then avail else s.bottleneckAvail
          bottleneck := if avail < s.bottleneckAvail then some hop.resource else s.bottleneck }
        hops

/-- The grant of an admission: the preferred rate, capped by maximum and availability, never below
    the minimum. -/
def initialGrant (spec : FlowSpec) (avail : ℚ) : ℚ :=
  let grant := min (min spec.requestedPreferred.value spec.requestedMax.value) avail
  let grant := if grant < spec.requestedMin.value then spec.requestedMin.value else grant
  clamp grant spec.requestedMin.value spec.requestedMax.value

/-- `tenants[tenant].submitted++` and the same for the workload. -/
def countSubmission (g : Governor) (spec : FlowSpec) : Governor :=
  let bump (a : Account) : Account := { a with submitted := a.submitted + 1 }
  { g with
    tenants := g.tenants.insert spec.tenant (bump ((g.tenants.find? spec.tenant).getD {}))
    workloads :=
      g.workloads.insert spec.workload (bump ((g.workloads.find? spec.workload).getD {})) }

/-- The runtime record of a new flow. -/
def newFlow (g : Governor) (spec : FlowSpec) (state : FlowState) : FlowRT :=
  { spec := spec, state := .named state, admittedMs := g.now, lastMs := g.now
    burstRemaining := spec.burstBytes }

/-- The infeasible branch of `submit_flow`: the flow is parked in the queue either way. -/
def parkFlow (g : Governor) (spec : FlowSpec) (scan : Scan) : Governor × AdmissionResult :=
  let reject := g.policy.rejectIfNoSlack
  let reason := "minimum guarantee infeasible on path"
  let d := makeDecision spec (if reject then .reject else .defer) 0 g.policy.deferIfMinInfeasible
    (if reject then "minimum guarantee impossible and reject_if_no_slack" else reason)
    scan.bottleneck
  let d := if reject then { d with rejectReason := ascii reason }
    else { d with deferReason := ascii reason }
  ({ g with flows := g.flows.insert spec.id (g.newFlow spec .queued) },
    { flow := spec.id, decision := d })

/-- The feasible branch of `submit_flow`: reserve along the path. -/
def reserveFlow (g : Governor) (spec : FlowSpec) (hops : List PathHop) (scan : Scan) :
    Except Fault (Governor × AdmissionResult) := do
  let grant := initialGrant spec scan.bottleneckAvail
  let (rsv, g) ← g.mintReservation spec .null hops grant
  let fr := { g.newFlow spec .reserved with
    granted := grant, lastGrantUpdateMs := g.now, reservation := some rsv.id }
  let g := { g with flows := g.flows.insert spec.id fr }
  let d := makeDecision spec .admits grant
    (decide (scan.bottleneckAvail < spec.requestedPreferred.value)) "admitted with grant"
    scan.bottleneck
  match Capacity.make grant with
  | .error e => .error (e, g)
  | .ok granted =>
    let d := { d with granted := granted, competingFlows := [spec.id] }
    .ok (g.recomputeUsage,
      { admitted := true, flow := spec.id, decision := d, reservation := some rsv })

def submitFlow (g : Governor) (spec : FlowSpec) : Except Fault (Governor × AdmissionResult) :=
  match validateFlowSpec spec with
  | some err =>
    let d := makeDecision spec .reject 0 false ("invalid flow spec: " ++ err) none
    .ok (g, { flow := spec.id
              decision := { d with kindReason := ascii err, rejectReason := ascii err } })
  | none =>
    if g.flows.contains spec.id then
      let d := makeDecision spec .reject 0 false "duplicate flow id" none
      .ok (g, { flow := spec.id, decision := { d with rejectReason := ascii "duplicate flow id" } })
    else match g.paths.find? spec.path with
      | none =>
        let d := makeDecision spec .reject 0 false "unknown path" none
        .ok (g, { flow := spec.id, decision := { d with rejectReason := ascii "unknown path" } })
      | some path =>
        let g := g.recomputeGoverned.recomputeReserved.recomputeAllocated
        let scan := g.scanHops spec.requestedMin.value {} path.hops
        let g := g.countSubmission spec
        if scan.feasible then g.reserveFlow spec path.hops scan else .ok (g.parkFlow spec scan)

/-- `admit_queued`: turn a queued flow into a reserved one when its minimum fits now. -/
def admitQueued (g : Governor) (fid : FlowId) (f : FlowRT) : Except Fault Governor :=
  match g.paths.find? f.spec.path with
  | none => .ok g
  | some path =>
    let scan := g.scanHops f.spec.requestedMin.value {} path.hops
    if !scan.feasible || decide (scan.bottleneckAvail < f.spec.requestedMin.value - kEps) then .ok g
    else do
      let grant := initialGrant f.spec scan.bottleneckAvail
      let (rsv, g) ← g.mintReservation f.spec .null path.hops grant
      let f := { f with reservation := some rsv.id, granted := grant, admittedMs := g.now }
      match setFlowState f .reserved with
      | .error e => .error (e, { g with flows := g.flows.insert fid f })
      | .ok f => .ok { g with flows := g.flows.insert fid f }

/-! ### Cancel and resume -/

def cancelFlow (g : Governor) (flow : FlowId) (reason : Str) : Except Fault (Governor × Bool) :=
  match g.flows.find? flow with
  | none => .ok (g, false)
  | some f =>
    if isTerminal f.state then .ok (g, false)
    else match setFlowState f .cancelled with
      | .error e => .error (e, g)
      | .ok f =>
        let f := { f with lastError := reason }
        let g := { g with flows := g.flows.insert flow f }
        .ok ((g.releaseOf f).recomputeUsage, true)

/-- The re-reservation of `resume_flow`, for a flow without one on a known path. -/
def rereserve (g : Governor) (f : FlowRT) : Except Fault (FlowRT × Governor) :=
  match f.reservation, g.paths.find? f.spec.path with
  | none, some path => do
    let (rsv, g) ← g.mintReservation f.spec .null path.hops
      (max f.granted f.spec.requestedMin.value)
    .ok ({ f with reservation := some rsv.id }, g)
  | _, _ => .ok (f, g)

def resumeFlow (g : Governor) (flow : FlowId) : Except Fault (Governor × Bool) :=
  match g.flows.find? flow with
  | none => .ok (g, false)
  | some f =>
    if f.state ≠ .named .preempted ∧ f.state ≠ .named .throttled then .ok (g, false)
    else do
      let (f, g) ← g.rereserve f
      match setFlowState f .reserved with
      | .error e => .error (e, { g with flows := g.flows.insert flow f })
      | .ok f => .ok ({ g with flows := g.flows.insert flow f }, true)

/-! ### The scheduler tick -/

/-- Admit the queued flows that are feasible now, in table order. -/
def drainQueue (g : Governor) : Except Fault Governor :=
  let queued := (g.flows.entries.filter fun e => decide (e.2.state = .named .queued)).map Prod.fst
  queued.foldlM (fun g fid =>
    match g.flows.find? fid with
    | none => .ok g
    | some f => if f.state ≠ .named .queued then .ok g else g.admitQueued fid f) g

/-- The contenders of one resource. -/
structure ResContention where
  res : ResourceId
  entries : List AllocEntry := []

/-- The allocator's view of a flow. -/
def allocEntry (g : Governor) (t : ℚ) (f : FlowRT) : AllocEntry :=
  { flow := f.spec.id, weight := g.flowWeight f t, min := f.spec.requestedMin.value
    want := f.spec.requestedPreferred.value, max := f.spec.requestedMax.value }

/-- First hop loop: make sure every hop has a contention record. -/
def touchHop (c : Table ResourceId ResContention) (hop : PathHop) :
    Table ResourceId ResContention :=
  c.insert hop.resource { (c.find? hop.resource).getD { res := .null } with res := hop.resource }

/-- Second hop loop: add the flow to the hop's contenders, once. -/
def joinHop (e : AllocEntry) (c : Table ResourceId ResContention) (hop : PathHop) :
    Table ResourceId ResContention :=
  let rc := (c.find? hop.resource).getD { res := .null }
  if rc.entries.any fun x => decide (x.flow = e.flow) then c
  else c.insert hop.resource { rc with entries := rc.entries ++ [e] }

/-- One turn of the contention loop over the flows. -/
def contend (g : Governor) (t : ℚ) (c : Table ResourceId ResContention) (f : FlowRT) :
    Table ResourceId ResContention :=
  if isScheduled f.state then
    (g.hopsOf f).foldl (joinHop (g.allocEntry t f)) ((g.hopsOf f).foldl touchHop c)
  else c

def contention (g : Governor) (t : ℚ) : Table ResourceId ResContention :=
  g.flows.vals.foldl (g.contend t) .empty

/-- Keep the smallest grant seen for a flow. -/
def lowerGrant (grants : Table FlowId ℚ) (x : AllocEntry × ℚ) : Table FlowId ℚ :=
  match grants.find? x.1.flow with
  | none => grants.insert x.1.flow x.2
  | some m => if x.2 < m then grants.insert x.1.flow x.2 else grants

/-- Allocate one resource and merge its grants; unregistered resources are skipped. -/
def allocateResource (g : Governor) (grants : Table FlowId ℚ) (rc : ResContention) :
    Table FlowId ℚ :=
  match g.resources.find? rc.res with
  | none => grants
  | some r =>
    let ar := allocateWeighted rc.entries (max 0 (r.governed - r.reserved))
    (rc.entries.zip ar.granted).foldl lowerGrant grants

/-- `grant_min`: the smallest grant of each flow over its registered hops. -/
def grantMin (g : Governor) (t : ℚ) : Table FlowId ℚ :=
  (g.contention t).vals.foldl g.allocateResource .empty

/-- `pick_worker_for_path`: the first alive worker that backs a hop of the path. -/
def pickWorkerForPath (g : Governor) (pid : PathId) : Option (WorkerId × WorkerRT) :=
  match g.paths.find? pid with
  | none => none
  | some p => g.workers.entries.find? fun e =>
      e.2.alive && p.hops.any fun hop => e.2.backResources.any fun rid =>
        decide (rid = hop.resource)

/-- Bind a flow to the worker that will drive it, when one backs its path. -/
def dispatchTo (f : FlowRT) : Option (WorkerId × WorkerRT) → FlowRT
  | none => f
  | some (wid, w) => { f with assignedWorker := some wid, assignedBoot := w.boot }

/-- The state a Running or Throttled flow takes under a new grant. -/
def gradeOf (f : FlowRT) (ng : ℚ) : FlowState :=
  if ng ≤ 0 ∧ f.spec.preemptible then .preempted
  else if ng + kEps < f.spec.requestedMin.value then .throttled
  else .running

/-- The body of the last loop of `tick`. -/
def settleFlow (g : Governor) (t : ℚ) (grants : Table FlowId ℚ) (fid : FlowId) (f : FlowRT) :
    FlowRT × Option Error :=
  if isScheduled f.state then
    let ng := (grants.find? fid).getD 0
    let f := { f with granted := ng }
    let (f, target) :=
      if f.state = .named .reserved then
        (dispatchTo f (g.pickWorkerForPath f.spec.path), FlowState.running)
      else (f, gradeOf f ng)
    match setFlowState f target with
    | .error e => (f, some e)
    | .ok f => ({ f with lastGrantUpdateMs := t }, none)
  else (f, none)

/-- `tick` up to arbitration: ages, queue, governed and reserved figures. -/
def prepareTick (g : Governor) : Except Fault Governor := do
  let g ← (g.advanceTenantStarvation g.now).drainQueue
  .ok g.recomputeGoverned.recomputeReserved

/-- `tick` from arbitration on. -/
def arbitrate (g : Governor) : Except Fault Governor :=
  match g.flows.forEach (g.settleFlow g.now (g.grantMin g.now)) with
  | (flows, some e) => .error (e, { g with flows := flows })
  | (flows, none) => .ok { g with flows := flows }.recomputeUsage

def tick (g : Governor) : Except Fault Governor := do
  let g ← g.prepareTick
  g.arbitrate

/-! ### Workers -/

/-- The grant a rolled flow is re-reserved at. -/
def rollGrant (f : FlowRT) : ℚ :=
  let grant := max f.granted f.spec.requestedMin.value
  if grant ≤ 0 then f.spec.requestedPreferred.value else grant

/-- Roll one flow of a restarted worker: the old reservation is released, attempt and generation
    move on, and a reservation bound to the new boot is minted. -/
def rollFlow (g : Governor) (worker : WorkerId) (boot : WorkerBootId) (fid : FlowId) (f : FlowRT) :
    Except Fault Governor := do
  let g := g.releaseOf f
  let (attempt, gen) := g.gen.next
  let g := { g with gen := gen }
  let f := { f with
    retries := f.retries + 1
    spec := { f.spec with attempt := attempt, generation := nextGeneration f.spec.generation }
    assignedWorker := some worker, assignedBoot := boot, bytesDone := 0
    lastError := ascii "worker restarted; retry with new attempt" }
  let (f, g) ← match g.paths.find? f.spec.path with
    | none => .ok (f, g)
    | some path =>
      match g.mintReservation f.spec boot path.hops (rollGrant f) with
      | .error (e, g) => .error (e, { g with flows := g.flows.insert fid f })
      | .ok (rsv, g) => .ok ({ f with reservation := some rsv.id, granted := rollGrant f }, g)
  match setFlowState f .reserved with
  | .error e => .error (e, { g with flows := g.flows.insert fid f })
  | .ok f => .ok { g with flows := g.flows.insert fid f }

/-- Whether a restart of `worker` rolls this flow. -/
def rolls (worker : WorkerId) (f : FlowRT) : Bool :=
  decide (f.state = .named .running) && decide (f.assignedWorker = some worker)

/-- Whether a registration replaces an alive one under another boot. -/
def isRestart (g : Governor) (reg : WorkerRegistration) : Bool :=
  match g.workers.find? reg.worker with
  | none => false
  | some w => w.alive && decide (w.boot ≠ reg.boot)

/-- The worker table entry and the inventory of a registration. -/
def enrol (g : Governor) (reg : WorkerRegistration) : Governor :=
  let w : WorkerRT :=
    { id := reg.worker, boot := reg.boot, backend := reg.backend, protocol := reg.protocolVersion
      alive := true, backResources := reg.inventory.map ResourceSpec.id }
  let g := reg.inventory.foldl (fun g rs => g.installResource rs id) g
  { g with workers := g.workers.insert reg.worker w }

def registerWorker (g : Governor) (reg : WorkerRegistration) : Except Fault Governor := do
  let enrolled := g.enrol reg
  let g ←
    if g.isRestart reg then
      enrolled.flows.entries.foldlM (fun g e =>
        if rolls reg.worker e.2 then g.rollFlow reg.worker reg.boot e.1 e.2 else .ok g) enrolled
    else .ok enrolled
  .ok g.recomputeGoverned

def deregisterWorker (g : Governor) (worker : WorkerId) : Governor :=
  { g with
    workers := g.workers.modify worker fun w => { w with alive := false }
    flows := g.flows.mapVals fun _ f =>
      if rolls worker f then { f with assignedWorker := none, lastError := ascii "worker lost" }
      else f }

/-- Boot check of a report: skipped for a flow without an assigned worker. -/
def bootCurrent (g : Governor) (f : FlowRT) (boot : WorkerBootId) : Bool :=
  match f.assignedWorker with
  | none => true
  | some wid => match g.workers.find? wid with
    | none => false
    | some w => w.alive && decide (w.boot = boot)

/-- Reservation check of a report: minted under the current epoch and capacity generation. -/
def reservationCurrent (g : Governor) (f : FlowRT) : Bool :=
  match f.reservation with
  | none => true
  | some rid => match g.reservations.find? rid with
    | none => false
    | some rsv => decide (rsv.epoch = g.epoch) &&
        decide (rsv.capacityGeneration = g.capacityGeneration)

/-- The authority validation shared by `report_progress` and `report_completion`. -/
def authorised (g : Governor) (f : FlowRT) (attempt : AttemptId) (fgen : FlowGeneration)
    (boot : WorkerBootId) : Bool :=
  decide (f.state = .named .running) && decide (f.spec.attempt = attempt) &&
    decide (f.spec.generation = fgen) && g.bootCurrent f boot && g.reservationCurrent f

def reportProgress (g : Governor) (flow : FlowId) (attempt : AttemptId) (fgen : FlowGeneration)
    (boot : WorkerBootId) (bytesTransferred : UInt64) : Governor × Bool :=
  match g.flows.find? flow with
  | none => (g, false)
  | some f =>
    if g.authorised f attempt fgen boot then
      let f := { f with bytesDone := max f.bytesDone bytesTransferred, lastMs := g.now }
      ({ g with flows := g.flows.insert flow f }, true)
    else (g, false)

/-- Settle the accounts of a completed flow. -/
def countCompletion (g : Governor) (spec : FlowSpec) : Governor :=
  let settle (a : Account) : Account :=
    { a with completed := a.completed + 1
             servedBytes := a.servedBytes + spec.byteCount.toNat }
  { g with
    tenants := g.tenants.insert spec.tenant (settle ((g.tenants.find? spec.tenant).getD {}))
    workloads := g.workloads.insert spec.workload
      (settle ((g.workloads.find? spec.workload).getD {})) }

def reportCompletion (g : Governor) (flow : FlowId) (attempt : AttemptId) (fgen : FlowGeneration)
    (boot : WorkerBootId) (bytesTransferred : UInt64) : Except Fault (Governor × Bool) :=
  match g.flows.find? flow with
  | none => .ok (g, false)
  | some f =>
    if g.authorised f attempt fgen boot then
      let f := { f with bytesDone := max f.bytesDone bytesTransferred }
      match setFlowState f .completed with
      | .error e => .error (e, { g with flows := g.flows.insert flow f })
      | .ok f =>
        let f := { f with lastMs := g.now }
        let g := { g with flows := g.flows.insert flow f }
        .ok (((g.countCompletion f.spec).releaseOf f).recomputeUsage, true)
    else .ok (g, false)

/-! ### Accounting -/

def accountingAtZero (g : Governor) : Bool :=
  (g.resources.vals.all fun r => !(decide (r.allocated > kEps) || decide (r.reserved > kEps))) &&
    (g.flows.vals.all fun f => !isScheduled f.state) &&
    (g.reservations.vals.all fun r => !isLive r.state)

end Governor

end BG
