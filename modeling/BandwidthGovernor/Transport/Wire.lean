import BandwidthGovernor.Persist.Encoding
import BandwidthGovernor.Transport.Server

/-! The framed wire protocol (`wire.hpp`, `wire.cpp`): frames with their checksum, and the payloads
    they carry.

    The payload readers take an enumerator as it comes and do not look at what follows the
    record. -/

namespace BG

open Lib

/-! ### Frames -/

def kWireMagic : UInt32 := 0x46474257

def kWireVersion : UInt32 := 1

inductive WireType where
  | register | registerAck | submitFlow | submitAck | flowDispatch | flowGrant | flowCancel
  | progress | completion | ack | queryResources | queryFlows | queryReservations | snapshot | save
  | load | response | registerReject | shutdown
  deriving DecidableEq

instance : Enumerators WireType :=
  ⟨[.register, .registerAck, .submitFlow, .submitAck, .flowDispatch, .flowGrant, .flowCancel,
    .progress, .completion, .ack, .queryResources, .queryFlows, .queryReservations, .snapshot,
    .save, .load, .response, .registerReject, .shutdown]⟩

structure DecodedFrame where
  type : Coded WireType
  payload : Bytes
  deriving DecidableEq

/-- A 32-bit word as a sink writes it. -/
def u32Bytes (v : UInt32) : Bytes := leBytes 4 v.toNat

/-- The part of the header that the checksum covers. -/
def crcHdr (type len : UInt32) : Bytes := u32Bytes type ++ u32Bytes len

/-- `frame_crc`. -/
def frameCrc (hdr payload : Bytes) : UInt32 := ~~~(crcUpdate (crcUpdate 0xFFFFFFFF hdr) payload)

/-- `encode_frame`; the length is cast to 32 bits. -/
def encodeFrame (type : Coded WireType) (payload : Bytes) : Bytes :=
  let len := UInt32.ofNat payload.length
  u32Bytes kWireMagic ++ u32Bytes kWireVersion ++ u32Bytes type.code ++ u32Bytes len ++ payload ++
    u32Bytes (frameCrc (crcHdr type.code len) payload)

/-- The body of `decode_frame`. -/
def readFrame : Source DecodedFrame := do
  let magic ← getU32
  require (decide (magic = kWireMagic)) (.value "bad wire frame magic")
  let ver ← getU32
  require (decide (ver = kWireVersion)) (.value "incompatible wire protocol version")
  let type ← getU32
  let len ← getU32
  let rest ← get
  require (decide (len.toNat ≤ rest.length)) (.value "frame payload length exceeds buffer")
  let payload ← getBytes truncated len.toNat
  let crc ← getU32
  let rest ← get
  require rest.isEmpty (.value "trailing garbage in wire frame")
  require (decide (crc = frameCrc (crcHdr type len) payload))
    (.value "wire frame checksum mismatch")
  pure ⟨Coded.ofCode type, payload⟩

/-- Run a reader from the start of a buffer. -/
def decodeWith {α : Type} (r : Source α) (data : Bytes) : Except Error α := do
  let (a, _) ← r.run data
  pure a

def decodeFrame (data : Bytes) : Except Error DecodedFrame := decodeWith readFrame data

/-! ### Records -/

/-- An enumerator as it comes: `static_cast<E>(s.u32())`. -/
def getCode {E : Type} [Enumerators E] : Source (Coded E) := Coded.ofCode <$> getU32

/-- A count, then that many records. -/
def getCounted {α : Type} (read : Source α) : Source (List α) := do
  let n ← getU32
  getMany read n.toNat

def wRes (r : ResourceSpec) : Sink Error := .all [
  putId r.id,
  putU32 r.cls.code,
  putStr r.source,
  putStr r.destination,
  putU32 r.direction.code,
  putF64 r.nominal.value,
  putId r.generation,
  putBool r.enabled]

def rRes : Source ResourceSpec := do
  let id ← getId
  let cls ← getCode
  let source ← getStr
  let destination ← getStr
  let direction ← getCode
  let nominal ← getCapacity
  let generation ← getId
  let enabled ← getBool
  pure { id, cls, source, destination, direction, nominal, generation, enabled }

def wSpec (f : FlowSpec) : Sink Error := .all [
  putId f.id,
  putId f.tenant,
  putId f.workload,
  putId f.attempt,
  putId f.generation,
  putStr f.source,
  putStr f.destination,
  putId f.path,
  putU64 f.byteCount,
  putU32 f.direction.code,
  putI64 f.priority.toInt64,
  putU32 f.latencyClass.code,
  putF64 f.deadlineSeconds,
  putCapacity f.requestedMin,
  putCapacity f.requestedPreferred,
  putCapacity f.requestedMax,
  putU64 f.burstBytes,
  putBool f.preemptible,
  putBool f.resumable]

def rSpec : Source FlowSpec := do
  let id ← getId
  let tenant ← getId
  let workload ← getId
  let attempt ← getId
  let generation ← getId
  let source ← getStr
  let destination ← getStr
  let path ← getId
  let byteCount ← getU64
  let direction ← getCode
  let priority ← getI64
  let latencyClass ← getCode
  let deadlineSeconds ← getF64
  let requestedMin ← getCapacity
  let requestedPreferred ← getCapacity
  let requestedMax ← getCapacity
  let burstBytes ← getU64
  let preemptible ← getBool
  let resumable ← getBool
  pure
    { id, tenant, workload, attempt, generation, source, destination, path, byteCount, direction
      priority := priority.toInt32, latencyClass, deadlineSeconds, requestedMin
      requestedPreferred, requestedMax, burstBytes, preemptible, resumable }

def wResAlloc (a : ResourceAllocation) : Sink Error := .all [
  putId a.resource,
  putCapacity a.allocated]

def rResAlloc : Source ResourceAllocation := do
  let resource ← getId
  let allocated ← getCapacity
  pure { resource, allocated }

def wReservation (r : Reservation) : Sink Error := .all [
  putId r.id,
  putId r.flow,
  putId r.attempt,
  putId r.flowGeneration,
  putId r.path,
  putList wResAlloc r.allocations,
  putId r.epoch,
  putId r.workerBoot,
  putId r.capacityGeneration,
  putU32 r.state.code]

def rReservation : Source Reservation := do
  let id ← getId
  let flow ← getId
  let attempt ← getId
  let flowGeneration ← getId
  let path ← getId
  let allocations ← getCounted rResAlloc
  let epoch ← getId
  let workerBoot ← getId
  let capacityGeneration ← getId
  let state ← getCode
  pure
    { id, flow, attempt, flowGeneration, path, allocations, epoch, workerBoot, capacityGeneration
      state }

def wFactor (f : DecisionFactor) : Sink Error := .all [
  putStr f.name,
  putF64 f.value,
  putF64 f.weight,
  putStr f.rationale]

def rFactor : Source DecisionFactor := do
  let name ← getStr
  let value ← getF64
  let weight ← getF64
  let rationale ← getStr
  pure { name, value, weight, rationale }

def wDecision (d : Decision) : Sink Error := .all [
  putId d.flow,
  putId d.tenant,
  putId d.workload,
  putU32 d.kind.code,
  putCapacity d.requested,
  putCapacity d.granted,
  putCapacity d.minimumGuarantee,
  putCapacity d.preferred,
  putCapacity d.maximum,
  putOptId d.bottleneck,
  putId d.path,
  putI64 d.priority.toInt64,
  putU32 d.latencyClass.code,
  putF64 d.deadlinePressure,
  putF64 d.tenantFairness,
  putF64 d.workloadFairness,
  putF64 d.starvationAge,
  putU64 d.burstRemaining,
  putBool d.saturated,
  putList putId d.competingFlows,
  putF64 d.reservationPressure,
  putId d.resourceGeneration,
  putId d.capacityGeneration,
  putStr d.kindReason,
  putStr d.deferReason,
  putStr d.rejectReason,
  putStr d.throttleReason,
  putStr d.preemptionReason,
  putList wFactor d.factors]

def rDecision : Source Decision := do
  let flow ← getId
  let tenant ← getId
  let workload ← getId
  let kind ← getCode
  let requested ← getCapacity
  let granted ← getCapacity
  let minimumGuarantee ← getCapacity
  let preferred ← getCapacity
  let maximum ← getCapacity
  let bottleneck ← getOptId
  let path ← getId
  let priority ← getI64
  let latencyClass ← getCode
  let deadlinePressure ← getF64
  let tenantFairness ← getF64
  let workloadFairness ← getF64
  let starvationAge ← getF64
  let burstRemaining ← getU64
  let saturated ← getBool
  let competingFlows ← getCounted getId
  let reservationPressure ← getF64
  let resourceGeneration ← getId
  let capacityGeneration ← getId
  let kindReason ← getStr
  let deferReason ← getStr
  let rejectReason ← getStr
  let throttleReason ← getStr
  let preemptionReason ← getStr
  let factors ← getCounted rFactor
  pure
    { flow, tenant, workload, kind, requested, granted, minimumGuarantee, preferred, maximum
      bottleneck, path, priority := priority.toInt32, latencyClass, deadlinePressure
      tenantFairness, workloadFairness, starvationAge, burstRemaining, saturated, competingFlows
      reservationPressure, resourceGeneration, capacityGeneration, kindReason, deferReason
      rejectReason, throttleReason, preemptionReason, factors }

/-! ### Messages -/

structure Register where
  worker : WorkerId
  boot : WorkerBootId
  protocol : UInt32 := 1
  backend : Str
  inventory : List ResourceSpec

def encodeRegister (r : Register) : Sink Error := .all [
  putId r.worker,
  putId r.boot,
  putU32 r.protocol,
  putStr r.backend,
  putList wRes r.inventory]

def decodeRegister : Bytes → Except Error Register := decodeWith do
  let worker ← getId
  let boot ← getId
  let protocol ← getU32
  let backend ← getStr
  let inventory ← getCounted rRes
  pure { worker, boot, protocol, backend, inventory }

structure RegisterAck where
  ok : Bool := false
  coordinator : CoordinatorId
  epoch : CoordinatorEpoch
  generation : CapacityGeneration
  reason : Str

def encodeRegisterAck (a : RegisterAck) : Sink Error := .all [
  putBool a.ok,
  putId a.coordinator,
  putId a.epoch,
  putId a.generation,
  putStr a.reason]

def decodeRegisterAck : Bytes → Except Error RegisterAck := decodeWith do
  let ok ← getBool
  let coordinator ← getId
  let epoch ← getId
  let generation ← getId
  let reason ← getStr
  pure { ok, coordinator, epoch, generation, reason }

def encodeFlowSpec (f : FlowSpec) : Sink Error := wSpec f

def decodeFlowSpec : Bytes → Except Error FlowSpec := decodeWith rSpec

structure AdmissionWire where
  admitted : Bool := false
  flow : FlowSpec
  decision : Decision
  reservation : Option Reservation

/-- `s.u8(o ? 1 : 0); if (o) w(s, *o)`. -/
def putOpt {α : Type} (write : α → Sink Error) (o : Option α) : Sink Error := .all [
  putBool o.isSome,
  match o with
  | none => .ok []
  | some v => write v]

def getOpt {α : Type} (read : Source α) : Source (Option α) := do
  let present ← getBool
  if present then some <$> read else pure none

def encodeAdmission (a : AdmissionWire) : Sink Error := .all [
  putBool a.admitted,
  wSpec a.flow,
  wDecision a.decision,
  putOpt wReservation a.reservation]

def decodeAdmission : Bytes → Except Error AdmissionWire := decodeWith do
  let admitted ← getBool
  let flow ← rSpec
  let decision ← rDecision
  let reservation ← getOpt rReservation
  pure { admitted, flow, decision, reservation }

def encodeDispatch (d : Dispatch) : Sink Error := .all [
  wSpec d.flow,
  putId d.attempt,
  putId d.fgen,
  putId d.boot,
  putCapacity d.grant,
  putId d.reservation]

def decodeDispatch : Bytes → Except Error Dispatch := decodeWith do
  let flow ← rSpec
  let attempt ← getId
  let fgen ← getId
  let boot ← getId
  let grant ← getCapacity
  let reservation ← getId
  pure { flow, attempt, fgen, boot, grant, reservation }

def encodeGrant (g : Grant) : Sink Error := .all [
  putId g.flow,
  putId g.attempt,
  putId g.fgen,
  putId g.boot,
  putCapacity g.grant]

def decodeGrant : Bytes → Except Error Grant := decodeWith do
  let flow ← getId
  let attempt ← getId
  let fgen ← getId
  let boot ← getId
  let grant ← getCapacity
  pure { flow, attempt, fgen, boot, grant }

structure Report where
  flow : FlowId
  attempt : AttemptId
  fgen : FlowGeneration
  boot : WorkerBootId
  bytes : UInt64 := 0
  completed : Bool := false

def encodeReport (r : Report) : Sink Error := .all [
  putId r.flow,
  putId r.attempt,
  putId r.fgen,
  putId r.boot,
  putU64 r.bytes,
  putBool r.completed]

def decodeReport : Bytes → Except Error Report := decodeWith do
  let flow ← getId
  let attempt ← getId
  let fgen ← getId
  let boot ← getId
  let bytes ← getU64
  let completed ← getBool
  pure { flow, attempt, fgen, boot, bytes, completed }

structure Ack where
  ok : Bool := false
  reason : Str

def encodeAck (a : Ack) : Sink Error := .all [
  putBool a.ok,
  putStr a.reason]

def decodeAck : Bytes → Except Error Ack := decodeWith do
  let ok ← getBool
  let reason ← getStr
  pure { ok, reason }

structure Response where
  ok : Bool := false
  message : Str
  body : Bytes

def encodeResponse (r : Response) : Sink Error := .all [
  putBool r.ok,
  putStr r.message,
  putU32 (UInt32.ofNat r.body.length),
  .ok r.body]

def decodeResponse : Bytes → Except Error Response := decodeWith do
  let ok ← getBool
  let message ← getStr
  let len ← getU32
  let body ← getBytes truncated len.toNat
  pure { ok, message, body }

/-! ### Snapshot lists -/

/-- One record of `encode_resource_snapshot`. -/
def wResourceSnapshot (r : ResourceSnapshot) : Sink Error := .all [
  putId r.id,
  putU32 r.cls.code,
  putStr r.source,
  putStr r.destination,
  putU32 r.direction.code,
  putCapacity r.nominal,
  putCapacity r.measured,
  putCapacity r.governed,
  putCapacity r.reserved,
  putCapacity r.allocated,
  putF64 r.instantaneousUtil,
  putF64 r.movingAverageUtil,
  putU64 r.queueDepth,
  putBool r.saturated,
  putF64 r.measuredLatencyMs,
  putF64 r.confidence,
  putStr r.provenance,
  putF64 r.stalenessMs,
  putF64 r.stalenessThresholdMs,
  putId r.capacityGeneration,
  putU32 r.health.code,
  putBool r.enabled]

def rResourceSnapshot : Source ResourceSnapshot := do
  let id ← getId
  let cls ← getCode
  let source ← getStr
  let destination ← getStr
  let direction ← getCode
  let nominal ← getCapacity
  let measured ← getCapacity
  let governed ← getCapacity
  let reserved ← getCapacity
  let allocated ← getCapacity
  let instantaneousUtil ← getF64
  let movingAverageUtil ← getF64
  let queueDepth ← getU64
  let saturated ← getBool
  let measuredLatencyMs ← getF64
  let confidence ← getF64
  let provenance ← getStr
  let stalenessMs ← getF64
  let stalenessThresholdMs ← getF64
  let capacityGeneration ← getId
  let health ← getCode
  let enabled ← getBool
  pure
    { id, cls, source, destination, direction, nominal, measured, governed, reserved, allocated
      instantaneousUtil, movingAverageUtil, queueDepth, saturated, measuredLatencyMs, confidence
      provenance, stalenessMs, stalenessThresholdMs, capacityGeneration, health, enabled }

/-- One record of `encode_flow_snapshot`; unlike the persisted record it carries the worker. -/
def wFlowSnapshot (f : FlowSnapshot) : Sink Error := .all [
  wSpec f.spec,
  putU32 f.state.code,
  putCapacity f.granted,
  putF64 f.admittedMs,
  putF64 f.lastUpdateMs,
  putU64 f.bytesTransferred,
  putU64 f.burstRemaining,
  putU64 f.retryCount,
  putF64 f.starvationMs,
  putOptId f.reservation,
  putOptId f.assignedWorker,
  putId f.assignedBoot,
  putStr f.lastError]

def rFlowSnapshot : Source FlowSnapshot := do
  let spec ← rSpec
  let state ← getCode
  let granted ← getCapacity
  let admittedMs ← getF64
  let lastUpdateMs ← getF64
  let bytesTransferred ← getU64
  let burstRemaining ← getU64
  let retryCount ← getU64
  let starvationMs ← getF64
  let reservation ← getOptId
  let assignedWorker ← getOptId
  let assignedBoot ← getId
  let lastError ← getStr
  pure
    { spec, state, granted, admittedMs, lastUpdateMs, bytesTransferred, burstRemaining, retryCount
      starvationMs, reservation, assignedWorker, assignedBoot, lastError }

def encodeResourceSnapshot (v : List ResourceSnapshot) : Sink Error := putList wResourceSnapshot v

def decodeResourceSnapshot : Bytes → Except Error (List ResourceSnapshot) :=
  decodeWith (getCounted rResourceSnapshot)

def encodeFlowSnapshot (v : List FlowSnapshot) : Sink Error := putList wFlowSnapshot v

def decodeFlowSnapshot : Bytes → Except Error (List FlowSnapshot) :=
  decodeWith (getCounted rFlowSnapshot)

def encodeReservationSnapshot (v : List Reservation) : Sink Error := putList wReservation v

def decodeReservationSnapshot : Bytes → Except Error (List Reservation) :=
  decodeWith (getCounted rReservation)

end BG
