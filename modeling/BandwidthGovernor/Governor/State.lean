import BandwidthGovernor.Lib.Table
import BandwidthGovernor.Policy

/-! The coordinator's state (`Governor::Impl`) and the bookkeeping over it: weights, the recomputed
    resource aggregates, starvation ages.

    The tables are read in the order of their entry lists, which stands for the iteration order of
    the source's hash tables. `steadyNow` is the reading of the process clock: an operation sees one
    reading. -/

namespace BG

open Lib

structure WorkerRT where
  id : WorkerId
  boot : WorkerBootId
  backend : Str
  protocol : UInt32 := 1
  alive : Bool := true
  backResources : List ResourceId := []

structure ResRT where
  spec : ResourceSpec
  measured : ℚ := 0
  movingAvg : ℚ := 0
  lastMs : ℚ := 0
  confidence : ℚ := 0
  latencyMs : ℚ := -1
  qdepth : UInt64 := 0
  saturated : Bool := false
  health : Coded ResourceHealth := ResourceHealth.healthy
  enabled : Bool := true
  reserved : ℚ := 0
  allocated : ℚ := 0
  governed : ℚ := 0
  provenance : Str := []

structure FlowRT where
  spec : FlowSpec
  state : Coded FlowState := FlowState.created
  admittedMs : ℚ := 0
  lastMs : ℚ := 0
  starvationMs : ℚ := 0
  granted : ℚ := 0
  bytesDone : UInt64 := 0
  burstRemaining : UInt64 := 0
  retries : UInt64 := 0
  reservation : Option ReservationId := none
  assignedWorker : Option WorkerId := none
  assignedBoot : WorkerBootId := .null
  lastError : Str := []
  lastGrantUpdateMs : ℚ := 0

/-- `TenantAcc` and `WorkloadAcc`, which have the same fields. -/
structure Account where
  allocatedNow : ℚ := 0
  servedBytes : ℚ := 0
  submitted : UInt64 := 0
  completed : UInt64 := 0
  failed : UInt64 := 0
  weight : ℚ := 1

structure GovernorConfig where
  policy : PolicyConfig := {}
  idSalt : UInt64 := 0

structure Governor where
  policy : PolicyConfig
  gen : IdGen
  coordinator : CoordinatorId
  epoch : CoordinatorEpoch
  capacityGeneration : CapacityGeneration
  autoClock : Bool
  virtualNow : ℚ
  steadyNow : ℚ
  resources : Table ResourceId ResRT
  paths : Table PathId Path
  flows : Table FlowId FlowRT
  reservations : Table ReservationId Reservation
  workers : Table WorkerId WorkerRT
  tenants : Table TenantId Account
  workloads : Table WorkloadId Account

/-! ### Governed capacity -/

def governedOf (spec : ResourceSpec) (measured : ℚ) (healthy enabled : Bool) (freshness : ℚ) : ℚ :=
  if !enabled || !healthy then 0
  else
    let nominal := spec.nominal.value
    let applied := (if measured > 0 then measured else nominal) * freshness
    if applied < 0 ∨ applied > kMaxRate then nominal else applied

def freshnessOf (stalenessMs thresholdMs : ℚ) : ℚ :=
  if thresholdMs ≤ 0 then 1
  else if stalenessMs / thresholdMs ≤ 0 then 1
  else if stalenessMs / thresholdMs ≥ 1 then 0
  else 1 - stalenessMs / thresholdMs

/-- Whether a flow contends for capacity: Running, Throttled or Reserved. -/
def isScheduled (s : Coded FlowState) : Bool :=
  decide (s = .named .running) || decide (s = .named .throttled) ||
    decide (s = .named .reserved)

/-- Whether a flow moves bytes: Running or Throttled. -/
def isMoving (s : Coded FlowState) : Bool :=
  decide (s = .named .running) || decide (s = .named .throttled)

/-- Whether a reservation is live: Active or Pending. -/
def isLive (s : Coded ReservationState) : Bool :=
  decide (s = .named .active) || decide (s = .named .pending)

def isTerminal (s : Coded FlowState) : Bool :=
  decide (s = .named .completed) || decide (s = .named .cancelled) ||
    decide (s = .named .failed)

/-- The age of a resource's capacity figure; a zero stamp reads as "never measured". -/
def ResRT.staleness (r : ResRT) (now : ℚ) : ℚ := if r.lastMs = 0 then 0 else now - r.lastMs

namespace Governor

/-- `Governor::Impl(config)`; the virtual clock starts at zero and the process clock is in use. -/
def new (entropy : UInt64) (config : GovernorConfig) (steady : ℚ) : Governor :=
  let (coordinator, gen) := (IdGen.seed entropy config.idSalt).next
  let (epochNonce, gen) := gen.next64
  let (capacityNonce, gen) := gen.next64
  { policy := config.policy, gen := gen, coordinator := coordinator
    epoch := freshGeneration epochNonce, capacityGeneration := freshGeneration capacityNonce
    autoClock := true, virtualNow := 0, steadyNow := steady
    resources := .empty, paths := .empty, flows := .empty, reservations := .empty
    workers := .empty, tenants := .empty, workloads := .empty }

def now (g : Governor) : ℚ := if g.autoClock then g.steadyNow else g.virtualNow

/-! ### Arbitration weight -/

def tenantWeight (t : Account) : ℚ := if t.weight ≤ 0 then 1 else t.weight

/-- Deadline pressure in `[0, 1]`. A zero slack makes the quotient infinite, which clamps to 0. -/
def deadlinePressure (p : PolicyConfig) (f : FlowRT) (nowMs : ℚ) : ℚ :=
  let remaining := f.spec.deadlineSeconds * 1000 - (nowMs - f.admittedMs)
  let pressure :=
    if remaining ≤ 0 then 1
    else if p.deadlineSlackSeconds = 0 then 0
    else 1 - remaining / (p.deadlineSlackSeconds * 1000)
  clamp pressure 0 1

/-- The starvation ramp. With a zero ramp the quotient is infinite or NaN, and `std::min(1.0, ·)`
    yields 1 for both. -/
def starvationRamp (p : PolicyConfig) (f : FlowRT) : ℚ :=
  if p.starvationSlowSeconds = 0 then 1
  else min 1 (f.starvationMs / (p.starvationSlowSeconds * 1000))

/-- Tenant fairness factor: ideal against actual share of the served bytes. -/
def fairnessFactor (g : Governor) (t : Account) : ℚ :=
  let totalW := (g.tenants.vals.map tenantWeight).sum
  let ideal := if totalW > 0 then tenantWeight t / totalW else 1
  let totalServed := (g.tenants.vals.map Account.servedBytes).sum
  let actual := if totalServed > 0 then t.servedBytes / totalServed else 0
  clamp (1 + g.policy.fairnessGain * (ideal - actual)) (1 / 4) 4

def flowWeight (g : Governor) (f : FlowRT) (nowMs : ℚ) : ℚ :=
  let p := g.policy
  let w := p.basePriorityWeight ^ f.spec.priority.toInt.toNat
  let w := match f.spec.latencyClass with
    | .named .latencySensitive => w * p.latencySensitiveWeight
    | .named .throughputOriented => w * p.throughputWeight
    | .named .bestEffort => w * p.bestEffortWeight
    | .unnamed _ _ => w
  let w := if f.spec.deadlineSeconds > 0 then
      w * (1 + p.deadlineWeight * deadlinePressure p f nowMs) else w
  let w := w * (1 + p.starvationWeight * max 0 (starvationRamp p f))
  let w := match g.tenants.find? f.spec.tenant with
    | none => w
    | some t => w * g.fairnessFactor t
  if f.burstRemaining > 0 then w * (11 / 10) else w

/-! ### Recomputed aggregates -/

def recomputeGoverned (g : Governor) : Governor :=
  let governed (r : ResRT) : ℚ :=
    governedOf r.spec r.measured (decide (r.health = .named .healthy)) r.enabled
      (freshnessOf (r.staleness g.now) g.policy.fairnessWindowMs)
  { g with resources := g.resources.mapVals fun _ r => { r with governed := governed r } }

/-- `resources[res].reserved += amount`, when the resource is registered. -/
def addReserved (resources : Table ResourceId ResRT) (al : ResourceAllocation) :
    Table ResourceId ResRT :=
  resources.modify al.resource fun r => { r with reserved := r.reserved + al.allocated.value }

/-- Whether a reservation is held in `reserved`: live, and its flow exists but is not scheduled
    ("scheduled -> accounted via allocated"). -/
def heldAside (g : Governor) (rsv : Reservation) : Bool :=
  isLive rsv.state && match g.flows.find? rsv.flow with
    | none => false
    | some f => !isScheduled f.state

def recomputeReserved (g : Governor) : Governor :=
  let zeroed := g.resources.mapVals fun _ r => { r with reserved := 0 }
  let add (rs : Table ResourceId ResRT) (rsv : Reservation) :=
    if g.heldAside rsv then rsv.allocations.foldl addReserved rs else rs
  { g with resources := g.reservations.vals.foldl add zeroed }

/-- `resources[res].allocated += granted`, when the resource is registered. -/
def addAllocated (granted : ℚ) (resources : Table ResourceId ResRT) (hop : PathHop) :
    Table ResourceId ResRT :=
  resources.modify hop.resource fun r => { r with allocated := r.allocated + granted }

/-- The hops of a flow's path; none when the path is unknown. -/
def hopsOf (g : Governor) (f : FlowRT) : List PathHop :=
  match g.paths.find? f.spec.path with
  | none => []
  | some p => p.hops

def recomputeAllocated (g : Governor) : Governor :=
  let zeroed := g.resources.mapVals fun _ r => { r with allocated := 0 }
  let add (rs : Table ResourceId ResRT) (f : FlowRT) :=
    if isMoving f.state && !decide (f.granted ≤ 0) then
      (g.hopsOf f).foldl (addAllocated f.granted) rs
    else rs
  { g with resources := g.flows.vals.foldl add zeroed }

def recomputeSaturation (g : Governor) : Governor :=
  let saturated (r : ResRT) : Bool := decide (r.allocated + r.reserved ≥ r.governed * (1 - kEps))
  { g with resources := g.resources.mapVals fun _ r => { r with saturated := saturated r } }

/-- The three recomputes that close most mutating operations. -/
def recomputeUsage (g : Governor) : Governor :=
  g.recomputeReserved.recomputeAllocated.recomputeSaturation

def advanceTenantStarvation (g : Governor) (nowMs : ℚ) : Governor :=
  let age (f : FlowRT) : FlowRT :=
    let elapsed := nowMs - f.lastMs
    if f.state = .named .running then f
    else { f with
      starvationMs := if elapsed > 0 then f.starvationMs + elapsed else f.starvationMs
      lastMs := nowMs }
  { g with flows := g.flows.mapVals fun _ f => age f }

end Governor

end BG
