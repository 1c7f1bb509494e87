import BandwidthGovernor.Persist.Binary
import BandwidthGovernor.Governor.Snapshot

/-! The persisted state (`persist.cpp`): the record layouts, the sections of the payload, and the
    envelope with its checksum.

    Writers and readers are separate functions, field by field in source order. -/

namespace BG

open Lib

/-! ### Records -/

def writePolicy (p : PolicyConfig) : Sink Error := .all [
  putF64 p.basePriorityWeight,
  putF64 p.latencySensitiveWeight,
  putF64 p.throughputWeight,
  putF64 p.bestEffortWeight,
  putF64 p.deadlineWeight,
  putF64 p.deadlineSlackSeconds,
  putF64 p.starvationWeight,
  putF64 p.starvationSlowSeconds,
  putF64 p.fairnessGain,
  putF64 p.reservationHonour,
  putI64 p.maxRetries.toInt64,
  putBool p.deferIfMinInfeasible,
  putBool p.rejectIfNoSlack,
  putU32 p.maxAdmitted,
  putBool p.deterministicTies,
  putF64 p.fairnessWindowMs]

def readPolicy : Source PolicyConfig := do
  let basePriorityWeight ← getF64
  let latencySensitiveWeight ← getF64
  let throughputWeight ← getF64
  let bestEffortWeight ← getF64
  let deadlineWeight ← getF64
  let deadlineSlackSeconds ← getF64
  let starvationWeight ← getF64
  let starvationSlowSeconds ← getF64
  let fairnessGain ← getF64
  let reservationHonour ← getF64
  let maxRetries ← getI64
  let deferIfMinInfeasible ← getBool
  let rejectIfNoSlack ← getBool
  let maxAdmitted ← getU32
  let deterministicTies ← getBool
  let fairnessWindowMs ← getF64
  pure
    { basePriorityWeight, latencySensitiveWeight, throughputWeight, bestEffortWeight
      deadlineWeight, deadlineSlackSeconds, starvationWeight, starvationSlowSeconds, fairnessGain
      reservationHonour, maxRetries := maxRetries.toInt32, deferIfMinInfeasible, rejectIfNoSlack
      maxAdmitted, deterministicTies, fairnessWindowMs }

def writeResourceSpec (r : ResourceSpec) : Sink Error := .all [
  putId r.id,
  putU32 r.cls.code,
  putStr r.source,
  putStr r.destination,
  putU32 r.direction.code,
  putCapacity r.nominal,
  putId r.generation,
  putBool r.enabled]

def readResourceSpec : Source ResourceSpec := do
  let id ← getId
  let cls ← getChecked 7 (.value "invalid resource class")
  let source ← getStr
  let destination ← getStr
  let direction ← getChecked 1 (.value "invalid resource direction")
  let nominal ← getCapacity
  let generation ← getId
  let enabled ← getBool
  pure { id, cls, source, destination, direction, nominal, generation, enabled }

def writeHop (h : PathHop) : Sink Error := .all [putId h.resource, putId h.generation]

def readHop : Source PathHop := do
  let resource ← getId
  let generation ← getId
  pure { resource, generation }

def writePath (p : Path) : Sink Error := .all [
  putId p.id,
  putId p.pathGeneration,
  putList writeHop p.hops]

/-- A count of at most `bound`, then that many records. -/
def getList {α : Type} (read : Source α) (bound : UInt32) (e : Error) : Source (List α) := do
  let n ← getU32
  require (decide (n ≤ bound)) e
  getMany read n.toNat

def readPath : Source Path := do
  let id ← getId
  let pathGeneration ← getId
  let hops ← getList readHop 256 (.value "path has too many hops")
  pure { id, hops, pathGeneration }

def writeFlowSpec (f : FlowSpec) : Sink Error := .all [
  putId f.id,
  putId f.tenant,
  putId f.workload,
  putId f.attempt,
  putId f.generation,
  putStr f.source,
  putStr f.destination,
  putId f.path,
  putU64 f.byteCount,
  putU32 f.direction.code,
  putI64 f.priority.toInt64,
  putU32 f.latencyClass.code,
  putF64 f.deadlineSeconds,
  putCapacity f.requestedMin,
  putCapacity f.requestedPreferred,
  putCapacity f.requestedMax,
  putU64 f.burstBytes,
  putBool f.preemptible,
  putBool f.resumable]

def readFlowSpec : Source FlowSpec := do
  let id ← getId
  let tenant ← getId
  let workload ← getId
  let attempt ← getId
  let generation ← getId
  let source ← getStr
  let destination ← getStr
  let path ← getId
  let byteCount ← getU64
  let direction ← getChecked 1 (.value "invalid flow direction")
  let priority ← getI64
  let latencyClass ← getChecked 2 (.value "invalid latency class")
  let deadlineSeconds ← getF64
  let requestedMin ← getCapacity
  let requestedPreferred ← getCapacity
  let requestedMax ← getCapacity
  let burstBytes ← getU64
  let preemptible ← getBool
  let resumable ← getBool
  pure
    { id, tenant, workload, attempt, generation, source, destination, path, byteCount, direction
      priority := priority.toInt32, latencyClass, deadlineSeconds, requestedMin
      requestedPreferred, requestedMax, burstBytes, preemptible, resumable }

/-- `s.u8(o ? 1 : 0); if (o) s.id(*o)`. -/
def putOptId {t : IdTag} (o : Option (Id128 t)) : Sink Error := .all [
  putBool o.isSome,
  match o with
  | none => .ok []
  | some v => putId v]

def getOptId {t : IdTag} : Source (Option (Id128 t)) := do
  let present ← getBool
  if present then some <$> getId else pure none

/-- The assigned worker and its boot are not written. -/
def writeFlowSnapshot (f : FlowSnapshot) : Sink Error := .all [
  writeFlowSpec f.spec,
  putU32 f.state.code,
  putCapacity f.granted,
  putF64 f.admittedMs,
  putF64 f.lastUpdateMs,
  putU64 f.bytesTransferred,
  putU64 f.burstRemaining,
  putU64 f.retryCount,
  putF64 f.starvationMs,
  putOptId f.reservation,
  putStr f.lastError]

def readFlowSnapshot : Source FlowSnapshot := do
  let spec ← readFlowSpec
  let state ← getChecked 8 (.value "invalid flow state")
  let granted ← getCapacity
  let admittedMs ← getF64
  let lastUpdateMs ← getF64
  let bytesTransferred ← getU64
  let burstRemaining ← getU64
  let retryCount ← getU64
  let starvationMs ← getF64
  let reservation ← getOptId
  let lastError ← getStr
  pure
    { spec, state, granted, admittedMs, lastUpdateMs, bytesTransferred, burstRemaining, retryCount
      starvationMs, reservation, assignedWorker := none, assignedBoot := .null, lastError }

def writeResourceAllocation (a : ResourceAllocation) : Sink Error := .all [
  putId a.resource,
  putCapacity a.allocated]

def readResourceAllocation : Source ResourceAllocation := do
  let resource ← getId
  let allocated ← getCapacity
  pure { resource, allocated }

def writeReservation (r : Reservation) : Sink Error := .all [
  putId r.id,
  putId r.flow,
  putId r.attempt,
  putId r.flowGeneration,
  putId r.path,
  putList writeResourceAllocation r.allocations,
  putId r.epoch,
  putId r.workerBoot,
  putId r.capacityGeneration,
  putU32 r.state.code]

def readReservation : Source Reservation := do
  let id ← getId
  let flow ← getId
  let attempt ← getId
  let flowGeneration ← getId
  let path ← getId
  let allocations ←
    getList readResourceAllocation 256 (.value "reservation has too many allocations")
  let epoch ← getId
  let workerBoot ← getId
  let capacityGeneration ← getId
  let state ← getChecked 5 (.value "invalid reservation state")
  pure
    { id, flow, attempt, flowGeneration, path, allocations, epoch, workerBoot, capacityGeneration
      state }

/-- `write_tenant_acc` and `write_workload_acc`, which have one layout. -/
def writeAccounting {t : IdTag} (a : Accounting t) : Sink Error := .all [
  putId a.owner,
  putF64 a.account.allocatedNow,
  putF64 a.account.servedBytes,
  putU64 a.account.submitted,
  putU64 a.account.completed,
  putU64 a.account.failed,
  putF64 a.account.weight]

/-- `read_tenant_acc` and `read_workload_acc`. -/
def readAccounting {t : IdTag} : Source (Accounting t) := do
  let owner ← getId
  let allocatedNow ← getF64
  let servedBytes ← getF64
  let submitted ← getU64
  let completed ← getU64
  let failed ← getU64
  let weight ← getF64
  pure
    { owner
      account := { allocatedNow, servedBytes, submitted, completed, failed, weight } }

def writeTenantAcc : TenantAccounting → Sink Error := writeAccounting

def readTenantAcc : Source TenantAccounting := readAccounting

def writeWorkloadAcc : WorkloadAccounting → Sink Error := writeAccounting

def readWorkloadAcc : Source WorkloadAccounting := readAccounting

def writeResourceSnapshot (r : ResourceSnapshot) : Sink Error := .all [
  putId r.id,
  putU32 r.cls.code,
  putStr r.source,
  putStr r.destination,
  putU32 r.direction.code,
  putCapacity r.nominal,
  putCapacity r.measured,
  putCapacity r.governed,
  putCapacity r.reserved,
  putCapacity r.allocated,
  putF64 r.instantaneousUtil,
  putF64 r.movingAverageUtil,
  putU64 r.queueDepth,
  putBool r.saturated,
  putF64 r.measuredLatencyMs,
  putF64 r.confidence,
  putStr r.provenance,
  putF64 r.stalenessMs,
  putF64 r.stalenessThresholdMs,
  putId r.capacityGeneration,
  putU32 r.health.code,
  putBool r.enabled]

def readResourceSnapshot : Source ResourceSnapshot := do
  let id ← getId
  let cls ← getChecked 7 (.value "invalid resource class in snapshot")
  let source ← getStr
  let destination ← getStr
  let direction ← getChecked 1 (.value "invalid direction in snapshot")
  let nominal ← getCapacity
  let measured ← getCapacity
  let governed ← getCapacity
  let reserved ← getCapacity
  let allocated ← getCapacity
  let instantaneousUtil ← getF64
  let movingAverageUtil ← getF64
  let queueDepth ← getU64
  let saturated ← getBool
  let measuredLatencyMs ← getF64
  let confidence ← getF64
  let provenance ← getStr
  let stalenessMs ← getF64
  let stalenessThresholdMs ← getF64
  let capacityGeneration ← getId
  let health ← getChecked 2 (.value "invalid resource health")
  let enabled ← getBool
  pure
    { id, cls, source, destination, direction, nominal, measured, governed, reserved, allocated
      instantaneousUtil, movingAverageUtil, queueDepth, saturated, measuredLatencyMs, confidence
      provenance, stalenessMs, stalenessThresholdMs, capacityGeneration, health, enabled }

/-! ### Sections -/

/-- The section tags `KPolicy` to `KResourceState`. -/
inductive SectionTag where
  | policy | coord | resources | paths | flows | reservations | tenants | workloads | resourceState
  deriving DecidableEq

namespace SectionTag

/-- All tags, in the order of their codes, which start at 1. -/
def all : List SectionTag :=
  [policy, coord, resources, paths, flows, reservations, tenants, workloads, resourceState]

def code (t : SectionTag) : UInt8 := UInt8.ofNat (all.idxOf t + 1)

def ofCode? (c : UInt8) : Option SectionTag := all.find? fun t => t.code = c

end SectionTag

/-- The coordinator metadata. -/
def writeCoord (s : GovernorSnapshot) : Sink Error := .all [
  putId s.coordinator,
  putId s.epoch,
  putId s.capacityGeneration,
  putF64 s.savedAtMs]

def sectionBody (s : GovernorSnapshot) : SectionTag → Sink Error
  | .policy => writePolicy s.policy
  | .coord => writeCoord s
  | .resources => putList writeResourceSpec s.resources
  | .paths => putList writePath s.paths
  | .flows => putList writeFlowSnapshot s.flows
  | .reservations => putList writeReservation s.reservations
  | .tenants => putList writeTenantAcc s.tenants.vals
  | .workloads => putList writeWorkloadAcc s.workloads.vals
  | .resourceState => putList writeResourceSnapshot s.resourceState.vals

def writeSection (tag : SectionTag) (body : Sink Error) : Sink Error :=
  match body with
  | .error e => .error e
  | .ok body => .all [putU8 tag.code, putU32 (UInt32.ofNat body.length), .ok body]

/-- The payload: the nine sections in order. -/
def encodePayload (s : GovernorSnapshot) : Sink Error :=
  .all (SectionTag.all.map fun tag => writeSection tag (sectionBody s tag))

/-- Records with distinct ids behind a count of at most `kMaxList`. -/
def getRecords {α : Type} {t : IdTag} (read : Source α) (key : α → Id128 t) (tooMany dup : String) :
    Source (List α) := do
  let n ← getU32
  require (decide (n ≤ kMaxList)) (.value tooMany)
  getDistinct read key (.value dup) [] n.toNat

/-- The switch of `decode_snapshot`: one section of a snapshot under construction. -/
def readSection (s : GovernorSnapshot) : SectionTag → Source GovernorSnapshot
  | .policy => do
    let policy ← readPolicy
    pure { s with policy }
  | .coord => do
    let coordinator ← getId
    let epoch ← getId
    let capacityGeneration ← getId
    let savedAtMs ← getF64
    pure { s with coordinator, epoch, capacityGeneration, savedAtMs }
  | .resources => do
    let resources ← getRecords readResourceSpec ResourceSpec.id "resource count exceeds bound"
      "duplicate resource id"
    pure { s with resources }
  | .paths => do
    let paths ← getRecords readPath Path.id "path count exceeds bound" "duplicate path id"
    pure { s with paths }
  | .flows => do
    let flows ← getRecords readFlowSnapshot (fun f => f.spec.id) "flow count exceeds bound"
      "duplicate flow id"
    pure { s with flows }
  | .reservations => do
    let reservations ← getRecords readReservation Reservation.id
      "reservation count exceeds bound" "duplicate reservation id"
    pure { s with reservations }
  -- The three maps: a repeated id overwrites.
  | .tenants => do
    let l ← getList readTenantAcc kMaxList (.value "tenant count exceeds bound")
    pure { s with tenants := .ofList Accounting.owner id l }
  | .workloads => do
    let l ← getList readWorkloadAcc kMaxList (.value "workload count exceeds bound")
    pure { s with workloads := .ofList Accounting.owner id l }
  | .resourceState => do
    let l ← getList readResourceSnapshot kMaxList (.value "resource state count exceeds bound")
    pure { s with resourceState := .ofList ResourceSnapshot.id id l }

/-- One turn of the section loop; `seen` holds the tags read so far. -/
def stepSections (seen : List UInt8) (s : GovernorSnapshot) :
    Source (List UInt8 × GovernorSnapshot) := do
  let tag ← getU8
  let len ← getU32
  let rest ← get
  require (decide (len.toNat ≤ rest.length)) (.value "section length exceeds payload")
  require (decide (tag ∉ seen)) (.value "duplicate section field")
  let body ← getBytes truncated len.toNat
  match SectionTag.ofCode? tag with
  | none => throw (.value "unknown section tag")
  | some t => do
    let (s, left) ← StateT.lift ((readSection s t).run body)
    require left.isEmpty (.value "trailing garbage in section")
    pure (tag :: seen, s)

/-- The section loop. A turn consumes at least five bytes, so that one unit of fuel for every byte
    is never used up. -/
def readSections : ℕ → List UInt8 → GovernorSnapshot → Source (List UInt8 × GovernorSnapshot)
  | 0, seen, s => pure (seen, s)
  | n + 1, seen, s => do
    let rest ← get
    if rest.isEmpty then pure (seen, s)
    else do
      let (seen, s) ← stepSections seen s
      readSections n seen s

/-! ### The envelope -/

def kEnvelopeMagic : Str := ascii "BGWOVR01"

def envelope (payload : Bytes) : Sink Error := .all [
  .ok kEnvelopeMagic,
  putU32 kFormatVersion,
  putU64 (UInt64.ofNat payload.length),
  .ok payload,
  putU32 (crc32 payload)]

def encodeSnapshot (s : GovernorSnapshot) : Except Error Bytes := do
  let payload ← encodePayload s
  envelope payload

/-- The envelope part of `decode_snapshot`. -/
def readEnvelope : Source (UInt32 × Bytes) := do
  let magic ← getBytes truncated kEnvelopeMagic.length
  require (decide (magic = kEnvelopeMagic)) (.value "bad magic: not a Bandwidth Governor state")
  let version ← getU32
  require (decide (version = kFormatVersion)) (.value "incompatible state version")
  let payloadLen ← getU64
  require (decide (payloadLen.toNat ≤ kMaxPayload.toNat)) (.value "payload length exceeds bound")
  let payload ← getBytes truncated payloadLen.toNat
  let stored ← getU32
  require (decide (stored = crc32 payload)) (.value "checksum mismatch: state corrupted")
  let rest ← get
  require rest.isEmpty (.value "trailing garbage after payload")
  pure (version, payload)

/-- A snapshot before any section was read. -/
def GovernorSnapshot.blank (version : UInt32) : GovernorSnapshot :=
  { formatVersion := version, coordinator := .null, epoch := .null, capacityGeneration := .null
    policy := {}, resources := [], paths := [], flows := [], reservations := []
    tenants := .empty, workloads := .empty, resourceState := .empty, savedAtMs := 0 }

def decodePayload (version : UInt32) (payload : Bytes) : Except Error GovernorSnapshot := do
  let ((seen, s), _) ← (readSections (payload.length + 1) [] (.blank version)).run payload
  if SectionTag.all.all fun t => decide (t.code ∈ seen) then .ok s
  else .error (.value "missing required section")

def decodeSnapshot (data : Bytes) : Except Error GovernorSnapshot :=
  if data.length < kEnvelopeMagic.length + 4 + 8 + 4 then .error (.value "envelope too short")
  else do
    let ((version, payload), _) ← readEnvelope.run data
    decodePayload version payload

/-! ### Saving and loading -/

namespace Governor

def save (g : Governor) : Except Error Bytes := do
  let s ← g.buildSnapshot
  encodeSnapshot s

def load (g : Governor) (data : Bytes) : Except Error Governor := do
  let s ← decodeSnapshot data
  pure (g.restore s)

end Governor

end BG
