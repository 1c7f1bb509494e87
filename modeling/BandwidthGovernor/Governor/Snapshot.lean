import Mathlib.Data.List.Sort
import BandwidthGovernor.Governor.Ops

/-! Queries and snapshots of the coordinator: `list_*`, `build_snapshot_locked` and `restore`.

    Every rate a query reports goes through `Capacity::make`, which may throw. -/

namespace BG

open Lib

structure FlowSnapshot where
  spec : FlowSpec
  state : Coded FlowState
  granted : Capacity
  admittedMs : ℚ
  lastUpdateMs : ℚ
  bytesTransferred : UInt64
  burstRemaining : UInt64
  retryCount : UInt64
  starvationMs : ℚ
  reservation : Option ReservationId
  assignedWorker : Option WorkerId
  assignedBoot : WorkerBootId
  lastError : Str

/-- `TenantAccounting` and `WorkloadAccounting`: an account with its owner. -/
structure Accounting (t : IdTag) where
  owner : Id128 t
  account : Account

abbrev TenantAccounting := Accounting .tenant
abbrev WorkloadAccounting := Accounting .workload

/-- Binary format version of a persisted state. -/
def kFormatVersion : UInt32 := 1

structure GovernorSnapshot where
  formatVersion : UInt32 := kFormatVersion
  coordinator : CoordinatorId
  epoch : CoordinatorEpoch
  capacityGeneration : CapacityGeneration
  policy : PolicyConfig
  resources : List ResourceSpec
  paths : List Path
  flows : List FlowSnapshot
  reservations : List Reservation
  tenants : Table TenantId TenantAccounting
  workloads : Table WorkloadId WorkloadAccounting
  resourceState : Table ResourceId ResourceSnapshot
  savedAtMs : ℚ

/-- `to_resource_snap`, also the body of `list_resources` and `resource`. -/
def toResourceSnap (r : ResRT) (now threshold : ℚ) : Except Error ResourceSnapshot := do
  let measured ← Capacity.make (max 0 r.measured)
  let governed ← Capacity.make (max 0 r.governed)
  let reserved ← Capacity.make (max 0 r.reserved)
  let allocated ← Capacity.make (max 0 r.allocated)
  pure
    { id := r.spec.id, cls := r.spec.cls, source := r.spec.source
      destination := r.spec.destination, direction := r.spec.direction, nominal := r.spec.nominal
      measured := measured, governed := governed, reserved := reserved, allocated := allocated
      instantaneousUtil :=
        if r.spec.nominal.value > 0 then r.allocated / r.spec.nominal.value else 0
      movingAverageUtil := clamp r.movingAvg 0 1, queueDepth := r.qdepth, saturated := r.saturated
      measuredLatencyMs := r.latencyMs, confidence := r.confidence, provenance := r.provenance
      stalenessMs := r.staleness now, stalenessThresholdMs := threshold
      capacityGeneration := r.spec.generation, health := r.health, enabled := r.enabled }

/-- `to_flow_snap`, also the body of `list_flows` and `flow`. -/
def toFlowSnap (f : FlowRT) : Except Error FlowSnapshot := do
  let granted ← Capacity.make (max 0 f.granted)
  pure
    { spec := f.spec, state := f.state, granted := granted, admittedMs := f.admittedMs
      lastUpdateMs := f.lastMs, bytesTransferred := f.bytesDone
      burstRemaining := f.burstRemaining, retryCount := f.retries, starvationMs := f.starvationMs
      reservation := f.reservation, assignedWorker := f.assignedWorker
      assignedBoot := f.assignedBoot, lastError := f.lastError }

/-- `std::sort` by identity. -/
def sortById {α : Type} {t : IdTag} (key : α → Id128 t) (l : List α) : List α :=
  l.insertionSort fun a b => (key b).lt (key a) = false

namespace Governor

def resourceSnaps (g : Governor) : Except Error (List ResourceSnapshot) :=
  g.resources.vals.mapM fun r => toResourceSnap r g.now g.policy.fairnessWindowMs

def flowSnaps (g : Governor) : Except Error (List FlowSnapshot) := g.flows.vals.mapM toFlowSnap

def listResources (g : Governor) : Except Error (List ResourceSnapshot) := do
  pure (sortById ResourceSnapshot.id (← g.resourceSnaps))

def listPaths (g : Governor) : List Path := sortById Path.id g.paths.vals

def listFlows (g : Governor) : Except Error (List FlowSnapshot) := do
  pure (sortById (fun f => f.spec.id) (← g.flowSnaps))

def listReservations (g : Governor) : List Reservation :=
  sortById Reservation.id g.reservations.vals

/-- `build_snapshot_locked`. -/
def buildSnapshot (g : Governor) : Except Error GovernorSnapshot := do
  let resourceSnaps ← g.resourceSnaps
  let flowSnaps ← g.flowSnaps
  pure
    { formatVersion := kFormatVersion, coordinator := g.coordinator, epoch := g.epoch
      capacityGeneration := g.capacityGeneration, policy := g.policy, savedAtMs := g.now
      resources := g.resources.vals.map ResRT.spec
      resourceState := Table.ofList ResourceSnapshot.id id resourceSnaps
      paths := g.paths.vals, flows := flowSnaps, reservations := g.reservations.vals
      tenants := g.tenants.mapVals fun tid a => ⟨tid, a⟩
      workloads := g.workloads.mapVals fun wid a => ⟨wid, a⟩ }

/-- The runtime record `restore` rebuilds from a flow snapshot. -/
def restoreFlow (fs : FlowSnapshot) : FlowRT :=
  { spec := fs.spec, state := fs.state, admittedMs := fs.admittedMs, lastMs := fs.lastUpdateMs
    granted := fs.granted.value, bytesDone := fs.bytesTransferred
    burstRemaining := fs.burstRemaining, retries := fs.retryCount
    starvationMs := fs.starvationMs, reservation := fs.reservation }

def restore (g : Governor) (snap : GovernorSnapshot) : Governor :=
  let g := { g with
    coordinator := snap.coordinator, epoch := snap.epoch
    capacityGeneration := snap.capacityGeneration, policy := snap.policy
    resources := .ofList ResourceSpec.id (fun rs => { spec := rs, lastMs := g.now }) snap.resources
    paths := .ofList Path.id id snap.paths
    flows := .ofList (fun fs : FlowSnapshot => fs.spec.id) restoreFlow snap.flows
    reservations := .ofList Reservation.id id snap.reservations
    tenants := snap.tenants.mapVals fun _ => Accounting.account
    workloads := snap.workloads.mapVals fun _ => Accounting.account }
  g.recomputeGoverned.recomputeUsage

end Governor

end BG
