import BandwidthGovernor.Core

/-! The governor's records and their guarded state machines: resources (`resource.hpp`), paths
    (`path.hpp`), flows (`flow.hpp`), reservations (`reservation.hpp`), the policy knobs
    (`policy.hpp`) and decisions (`explain.hpp`).

    Fields, defaults, check order and error texts follow the source. -/

namespace BG

/-! ### Resources -/

inductive ResourceClass where
  | pcie | nvlink | hostMemory | pinnedMemory | storageRead | storageWrite | interNodeTcp
  | genericTransport
  deriving DecidableEq

instance : Enumerators ResourceClass :=
  ⟨[.pcie, .nvlink, .hostMemory, .pinnedMemory, .storageRead, .storageWrite, .interNodeTcp,
    .genericTransport]⟩

inductive Directionality where
  | unidirectional | bidirectional
  deriving DecidableEq

instance : Enumerators Directionality := ⟨[.unidirectional, .bidirectional]⟩

inductive ResourceHealth where
  | healthy | degraded | unhealthy
  deriving DecidableEq

instance : Enumerators ResourceHealth := ⟨[.healthy, .degraded, .unhealthy]⟩

structure ResourceSpec where
  id : ResourceId
  cls : Coded ResourceClass := ResourceClass.genericTransport
  source : Str := []
  destination : Str := []
  direction : Coded Directionality := Directionality.unidirectional
  nominal : Capacity := .zero
  generation : CapacityGeneration := .null
  enabled : Bool := true

structure ResourceSnapshot where
  id : ResourceId
  cls : Coded ResourceClass
  source : Str
  destination : Str
  direction : Coded Directionality
  nominal : Capacity
  measured : Capacity
  governed : Capacity
  reserved : Capacity
  allocated : Capacity
  instantaneousUtil : ℚ
  movingAverageUtil : ℚ
  queueDepth : UInt64
  saturated : Bool
  measuredLatencyMs : ℚ
  confidence : ℚ
  provenance : Str
  stalenessMs : ℚ
  stalenessThresholdMs : ℚ
  capacityGeneration : CapacityGeneration
  health : Coded ResourceHealth
  enabled : Bool

/-! ### Paths -/

structure PathHop where
  resource : ResourceId
  generation : CapacityGeneration

structure Path where
  id : PathId
  hops : List PathHop
  pathGeneration : FlowGeneration

/-- The hop loop of `validate_path`; `seen` are the resources already passed. -/
def validateHops : List ResourceId → List PathHop → Option String
  | _, [] => none
  | seen, hop :: hops =>
    if hop.resource.isNull then some "path hop has null resource id"
    else if hop.generation.isNull then some "path hop has null resource generation"
    else if hop.resource ∈ seen then some "path contains a duplicate resource hop"
    else validateHops (seen ++ [hop.resource]) hops

def validatePath (p : Path) : Option String :=
  if p.id.isNull then some "path id is null"
  else if p.pathGeneration.isNull then some "path generation is null"
  else if p.hops.isEmpty then some "path must contain at least one hop"
  else validateHops [] p.hops

/-- The resources of a path, in hop order. -/
def Path.resources (p : Path) : List ResourceId := p.hops.map PathHop.resource

theorem validateHops_nodup : ∀ {hops : List PathHop} {seen : List ResourceId}, seen.Nodup →
    validateHops seen hops = none → (seen ++ hops.map PathHop.resource).Nodup
  | [], seen, hs, _ => by simpa using hs
  | hop :: hops, seen, hs, h => by
    unfold validateHops at h
    split at h; · cases h
    split at h; · cases h
    split at h; · cases h
    rename_i hmem
    have hs' : (seen ++ [hop.resource]).Nodup := by
      rw [List.nodup_append]
      exact ⟨hs, by simp, by rintro a ha b hb rfl; simp at hb; exact hmem (hb ▸ ha)⟩
    simpa using validateHops_nodup hs' h

/-- A path that passes `validate_path` visits no resource twice. -/
theorem validatePath_nodup {p : Path} (h : validatePath p = none) : p.resources.Nodup := by
  unfold validatePath at h
  split at h; · cases h
  split at h; · cases h
  split at h; · cases h
  simpa [Path.resources] using validateHops_nodup List.nodup_nil h

/-! ### Flows -/

inductive FlowState where
  | created | queued | reserved | running | throttled | preempted | completed | cancelled | failed
  deriving DecidableEq

instance : Enumerators FlowState :=
  ⟨[.created, .queued, .reserved, .running, .throttled, .preempted, .completed, .cancelled,
    .failed]⟩

def flowStateName : Coded FlowState → String
  | .named .created => "created"
  | .named .queued => "queued"
  | .named .reserved => "reserved"
  | .named .running => "running"
  | .named .throttled => "throttled"
  | .named .preempted => "preempted"
  | .named .completed => "completed"
  | .named .cancelled => "cancelled"
  | .named .failed => "failed"
  | .unnamed _ _ => "unknown"

/-- The targets `flow_transition` allows from each state, the reflexive one apart. -/
def flowTargets : FlowState → List FlowState
  | .created => [.queued, .cancelled, .failed]
  | .queued => [.reserved, .preempted, .cancelled, .failed, .running]
  | .reserved => [.running, .preempted, .cancelled, .failed, .completed]
  | .running => [.throttled, .preempted, .completed, .cancelled, .failed, .reserved]
  | .throttled => [.running, .preempted, .completed, .cancelled, .failed, .reserved]
  | .preempted => [.queued, .running, .cancelled, .failed, .reserved]
  | .completed => []
  | .cancelled => []
  | .failed => []

def flowTransition (src dst : Coded FlowState) : Option (Coded FlowState) :=
  if src = dst then some dst
  else match src, dst with
    | .named a, .named b => if b ∈ flowTargets a then some dst else none
    | _, _ => none

inductive LatencyClass where
  | latencySensitive | throughputOriented | bestEffort
  deriving DecidableEq

instance : Enumerators LatencyClass := ⟨[.latencySensitive, .throughputOriented, .bestEffort]⟩

structure FlowSpec where
  id : FlowId
  tenant : TenantId
  workload : WorkloadId
  attempt : AttemptId
  generation : FlowGeneration
  source : Str := []
  destination : Str := []
  path : PathId
  byteCount : UInt64 := 0
  direction : Coded Directionality := Directionality.unidirectional
  priority : Int32 := 0
  latencyClass : Coded LatencyClass := LatencyClass.bestEffort
  deadlineSeconds : ℚ := 0
  requestedMin : Capacity := .zero
  requestedPreferred : Capacity := .zero
  requestedMax : Capacity := .zero
  burstBytes : UInt64 := 0
  preemptible : Bool := true
  resumable : Bool := true

def validateFlowSpec (f : FlowSpec) : Option String :=
  if f.id.isNull then some "flow id is null"
  else if f.tenant.isNull then some "tenant id is null"
  else if f.attempt.isNull then some "attempt id is null"
  else if f.generation.isNull then
    some "flow generation is null (flow must be generation fenced)"
  else if f.byteCount = 0 then some "byte_count must be positive"
  else if (f.byteCount.toNat : ℚ) > kMaxBytes then some "byte_count exceeds the absolute bound"
  else if f.requestedMax.value < f.requestedMin.value then
    some "requested_max is below requested_min"
  else if f.requestedPreferred.value < f.requestedMin.value then
    some "requested_preferred is below requested_min"
  else if f.requestedPreferred.value > f.requestedMax.value then
    some "requested_preferred exceeds requested_max"
  else if f.deadlineSeconds < 0 then some "deadline_seconds must be non-negative"
  else none

/-- The rate envelope every accepted flow spec satisfies. -/
structure FlowSpec.Envelope (f : FlowSpec) : Prop where
  min_le : f.requestedMin.value ≤ f.requestedPreferred.value
  le_max : f.requestedPreferred.value ≤ f.requestedMax.value

theorem validateFlowSpec_envelope {f : FlowSpec} (h : validateFlowSpec f = none) :
    f.Envelope := by
  unfold validateFlowSpec at h
  iterate 7 (split at h; · cases h)
  split at h; · cases h
  rename_i hmin
  split at h; · cases h
  rename_i hmax
  exact ⟨not_lt.mp hmin, not_lt.mp hmax⟩

/-! ### Reservations -/

inductive ReservationState where
  | pending | active | released | cancelled | expired | failed
  deriving DecidableEq

instance : Enumerators ReservationState :=
  ⟨[.pending, .active, .released, .cancelled, .expired, .failed]⟩

/-- The targets `reservation_transition` allows from each state, the reflexive one apart. -/
def reservationTargets : ReservationState → List ReservationState
  | .pending => [.active, .cancelled, .expired, .failed]
  | .active => [.released, .cancelled, .expired, .failed]
  | .released => []
  | .cancelled => []
  | .expired => []
  | .failed => []

def reservationTransition (src dst : Coded ReservationState) : Option (Coded ReservationState) :=
  if src = dst then some dst
  else match src, dst with
    | .named a, .named b => if b ∈ reservationTargets a then some dst else none
    | _, _ => none

structure ResourceAllocation where
  resource : ResourceId
  allocated : Capacity

structure Reservation where
  id : ReservationId
  flow : FlowId
  attempt : AttemptId
  flowGeneration : FlowGeneration
  path : PathId
  allocations : List ResourceAllocation
  epoch : CoordinatorEpoch
  workerBoot : WorkerBootId := .null
  capacityGeneration : CapacityGeneration
  state : Coded ReservationState := ReservationState.pending

/-! ### Policy knobs and decisions -/

structure PolicyConfig where
  basePriorityWeight : ℚ := 2
  latencySensitiveWeight : ℚ := 4
  throughputWeight : ℚ := 2
  bestEffortWeight : ℚ := 1
  deadlineWeight : ℚ := 3 / 2
  deadlineSlackSeconds : ℚ := 30
  starvationWeight : ℚ := 3 / 2
  starvationSlowSeconds : ℚ := 60
  fairnessGain : ℚ := 1
  reservationHonour : ℚ := 1
  maxRetries : Int32 := 3
  deferIfMinInfeasible : Bool := true
  rejectIfNoSlack : Bool := false
  maxAdmitted : UInt32 := 0
  deterministicTies : Bool := true
  fairnessWindowMs : ℚ := 2000

inductive DecisionKind where
  | admits | defer | reject | throttle | preempt | grant | release
  deriving DecidableEq

instance : Enumerators DecisionKind :=
  ⟨[.admits, .defer, .reject, .throttle, .preempt, .grant, .release]⟩

structure DecisionFactor where
  name : Str
  value : ℚ
  weight : ℚ
  rationale : Str

structure Decision where
  flow : FlowId := .null
  tenant : TenantId := .null
  workload : WorkloadId := .null
  kind : Coded DecisionKind := DecisionKind.defer
  requested : Capacity := .zero
  granted : Capacity := .zero
  minimumGuarantee : Capacity := .zero
  preferred : Capacity := .zero
  maximum : Capacity := .zero
  bottleneck : Option ResourceId := none
  path : PathId := .null
  priority : Int32 := 0
  latencyClass : Coded LatencyClass := LatencyClass.bestEffort
  deadlinePressure : ℚ := 0
  tenantFairness : ℚ := 0
  workloadFairness : ℚ := 0
  starvationAge : ℚ := 0
  burstRemaining : UInt64 := 0
  saturated : Bool := false
  competingFlows : List FlowId := []
  reservationPressure : ℚ := 0
  resourceGeneration : CapacityGeneration := .null
  capacityGeneration : CapacityGeneration := .null
  kindReason : Str := []
  deferReason : Str := []
  rejectReason : Str := []
  throttleReason : Str := []
  preemptionReason : Str := []
  factors : List DecisionFactor := []

end BG
