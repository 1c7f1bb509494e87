import Mathlib
import BandwidthGovernor.Persist.RoundTrip
import BandwidthGovernor.Transport.Wire

/-! Every payload of the wire protocol reads back as it was written.

    `Sendable` collects what a message has to satisfy: strings within the bound of `str`, lists that
    a 32-bit count can hold, and numbers that are doubles. -/

namespace BG

open Lib

/-- Strings that `str` writes, and numbers that are finite doubles. -/
def Fits (strs : List Str) (numbers : List ℚ) : Prop :=
  (∀ s ∈ strs, s.length ≤ 2 ^ 20) ∧ ∀ q ∈ numbers, Double.IsDouble q

/-! ### Fields -/

theorem delivers_u32 (v : UInt32) : Delivers (putU32 v) getU32 v :=
  (reads_u32 v).delivers trivial rfl (by simp)

theorem delivers_u64 (v : UInt64) : Delivers (putU64 v) getU64 v :=
  (reads_u64 v).delivers trivial rfl (by simp)

theorem delivers_i64 (v : Int64) : Delivers (putI64 v) getI64 v :=
  (reads_i64 v).delivers trivial rfl (by simp)

theorem delivers_bool (b : Bool) : Delivers (putBool b) getBool b :=
  (reads_bool b).delivers trivial rfl (by simp)

theorem delivers_id {t : IdTag} (v : Id128 t) : Delivers (putId v) getId v :=
  ((delivers_u64 v.hi).cons ((delivers_u64 v.lo).cons (.pure v)))

theorem delivers_f64 {q : ℚ} (h : Double.IsDouble q) : Delivers (putF64 q) getF64 q :=
  ((reads_f64 q).delivers h.finite rfl (by simp)).congr h.round

theorem delivers_capacity {c : Capacity} (h : Double.IsDouble c.value) :
    Delivers (putCapacity c) getCapacity c := by
  have hc : c.stored = c := by
    obtain ⟨v, hv⟩ := c
    simp only [Capacity.stored, Capacity.mk.injEq]
    exact h.round
  exact ((reads_capacity c).delivers trivial rfl (by simp)).congr hc

theorem delivers_str {s : Str} (h : s.length ≤ 2 ^ 20) : Delivers (putStr s) getStr s := by
  have hmax : kMaxString.toNat = 2 ^ 20 := by decide
  have hput : putStr s = .ok (leBytes 4 (UInt32.ofNat s.length).toNat ++ (s ++ [])) := by
    rw [putStr, if_neg (by omega)]
    rfl
  refine (reads_str s).delivers trivial hput ?_
  simp only [List.length_append, leBytes_length, List.length_nil]
  omega

theorem delivers_code {E : Type} [Enumerators E] [DecidableEq E] {last : UInt32}
    (h : Enumerated E last) (c : Coded E) : Delivers (putU32 c.code) getCode c :=
  ((delivers_u32 c.code).map Coded.ofCode).congr (Coded.ofCode_code h c)

theorem delivers_optId {t : IdTag} (o : Option (Id128 t)) : Delivers (putOptId o) getOptId o := by
  unfold putOptId getOptId
  cases o with
  | none =>
    refine (delivers_bool false).cons ?_
    rw [Sink.all_single]
    exact .pure none
  | some v =>
    refine (delivers_bool true).cons ?_
    rw [Sink.all_single]
    exact (delivers_id v).map some

theorem delivers_opt {α : Type} {write : α → Sink Error} {read : Source α} {o : Option α}
    (h : ∀ x ∈ o, Delivers (write x) read x) : Delivers (putOpt write o) (getOpt read) o := by
  unfold putOpt getOpt
  cases o with
  | none =>
    refine (delivers_bool false).cons ?_
    rw [Sink.all_single]
    exact .pure none
  | some v =>
    refine (delivers_bool true).cons ?_
    rw [Sink.all_single]
    exact (h v rfl).map some

theorem delivers_list {α : Type} {write : α → Sink Error} {read : Source α} {l : List α}
    (hlen : l.length < 2 ^ 32) (h : ∀ x ∈ l, Delivers (write x) read x) :
    Delivers (putList write l) (getCounted read) l := by
  have hn : (UInt32.ofNat l.length).toNat = l.length := by
    rw [UInt32.toNat_ofNat', Nat.mod_eq_of_lt hlen]
  refine (delivers_u32 _).cons ?_
  rw [hn, Sink.all_single]
  exact .many h

/-! ### Records -/

namespace ResourceSpec

def Sendable (r : ResourceSpec) : Prop := Fits [r.source, r.destination] r.rates

end ResourceSpec

theorem delivers_res {r : ResourceSpec} (h : r.Sendable) : Delivers (wRes r) rRes r := by
  obtain ⟨hs, hq⟩ := h
  simp only [List.forall_mem_cons, ResourceSpec.rates] at hs hq
  exact (delivers_id _).cons ((delivers_code enumerated_resourceClass _).cons
    ((delivers_str hs.1).cons ((delivers_str hs.2.1).cons
    ((delivers_code enumerated_directionality _).cons ((delivers_capacity hq.1).cons
    ((delivers_id _).cons ((delivers_bool _).cons (.pure _))))))))

namespace FlowSpec

def Sendable (f : FlowSpec) : Prop := Fits [f.source, f.destination] (f.numbers ++ f.rates)

end FlowSpec

theorem delivers_spec {f : FlowSpec} (h : f.Sendable) : Delivers (wSpec f) rSpec f := by
  obtain ⟨hs, hq⟩ := h
  simp only [List.forall_mem_cons, List.forall_mem_append, FlowSpec.numbers, FlowSpec.rates]
    at hs hq
  obtain ⟨⟨hd, -⟩, hmin, hpref, hmax, -⟩ := hq
  refine Delivers.congr ((delivers_id _).cons ((delivers_id _).cons ((delivers_id _).cons
    ((delivers_id _).cons ((delivers_id _).cons ((delivers_str hs.1).cons
    ((delivers_str hs.2.1).cons ((delivers_id _).cons ((delivers_u64 _).cons
    ((delivers_code enumerated_directionality _).cons ((delivers_i64 _).cons
    ((delivers_code enumerated_latencyClass _).cons ((delivers_f64 hd).cons
    ((delivers_capacity hmin).cons ((delivers_capacity hpref).cons ((delivers_capacity hmax).cons
    ((delivers_u64 _).cons ((delivers_bool _).cons ((delivers_bool _).cons
    (.pure _)))))))))))))))))))) ?_
  simp

namespace Reservation

def Sendable (r : Reservation) : Prop := r.allocations.length < 2 ^ 32 ∧ Fits [] r.rates

end Reservation

theorem delivers_resAlloc {a : ResourceAllocation} (h : Double.IsDouble a.allocated.value) :
    Delivers (wResAlloc a) rResAlloc a :=
  (delivers_id _).cons ((delivers_capacity h).cons (.pure _))

theorem delivers_reservation {r : Reservation} (h : r.Sendable) :
    Delivers (wReservation r) rReservation r := by
  obtain ⟨hlen, -, hq⟩ := h
  have hal : ∀ a ∈ r.allocations, Delivers (wResAlloc a) rResAlloc a := fun a ha =>
    delivers_resAlloc (hq _ (List.mem_map.mpr ⟨a, ha, rfl⟩))
  exact (delivers_id _).cons ((delivers_id _).cons ((delivers_id _).cons ((delivers_id _).cons
    ((delivers_id _).cons ((delivers_list hlen hal).cons ((delivers_id _).cons
    ((delivers_id _).cons ((delivers_id _).cons ((delivers_code enumerated_reservationState _).cons
    (.pure _))))))))))

namespace DecisionFactor

def Sendable (f : DecisionFactor) : Prop := Fits [f.name, f.rationale] [f.value, f.weight]

end DecisionFactor

theorem delivers_factor {f : DecisionFactor} (h : f.Sendable) : Delivers (wFactor f) rFactor f := by
  obtain ⟨hs, hq⟩ := h
  simp only [List.forall_mem_cons] at hs hq
  exact (delivers_str hs.1).cons ((delivers_f64 hq.1).cons ((delivers_f64 hq.2.1).cons
    ((delivers_str hs.2.1).cons (.pure _))))

namespace Decision

def reasons (d : Decision) : List Str :=
  [d.kindReason, d.deferReason, d.rejectReason, d.throttleReason, d.preemptionReason]

def numbers (d : Decision) : List ℚ :=
  [d.deadlinePressure, d.tenantFairness, d.workloadFairness, d.starvationAge, d.reservationPressure]

def rates (d : Decision) : List ℚ :=
  [d.requested.value, d.granted.value, d.minimumGuarantee.value, d.preferred.value, d.maximum.value]

structure Sendable (d : Decision) : Prop where
  fields : Fits d.reasons (d.numbers ++ d.rates)
  competing : d.competingFlows.length < 2 ^ 32
  count : d.factors.length < 2 ^ 32
  factors : ∀ f ∈ d.factors, f.Sendable

end Decision

theorem enumerated_decisionKind : Enumerated DecisionKind 6 := ⟨fun e => by cases e <;> decide, rfl⟩

theorem delivers_decision {d : Decision} (h : d.Sendable) :
    Delivers (wDecision d) rDecision d := by
  obtain ⟨⟨hs, hq⟩, hcomp, hcount, hfac⟩ := h
  simp only [List.forall_mem_cons, List.forall_mem_append, Decision.reasons, Decision.numbers,
    Decision.rates] at hs hq
  obtain ⟨hkind, hdef, hrej, hthr, hpre, -⟩ := hs
  obtain ⟨⟨hdp, htf, hwf, hsa, hrp, -⟩, hreq, hgr, hmin, hpref, hmax, -⟩ := hq
  refine Delivers.congr ((delivers_id _).cons ((delivers_id _).cons ((delivers_id _).cons
    ((delivers_code enumerated_decisionKind _).cons ((delivers_capacity hreq).cons
    ((delivers_capacity hgr).cons ((delivers_capacity hmin).cons ((delivers_capacity hpref).cons
    ((delivers_capacity hmax).cons ((delivers_optId _).cons ((delivers_id _).cons
    ((delivers_i64 _).cons ((delivers_code enumerated_latencyClass _).cons
    ((delivers_f64 hdp).cons ((delivers_f64 htf).cons ((delivers_f64 hwf).cons
    ((delivers_f64 hsa).cons ((delivers_u64 _).cons ((delivers_bool _).cons
    ((delivers_list hcomp fun x _ => delivers_id x).cons ((delivers_f64 hrp).cons
    ((delivers_id _).cons ((delivers_id _).cons ((delivers_str hkind).cons
    ((delivers_str hdef).cons ((delivers_str hrej).cons ((delivers_str hthr).cons
    ((delivers_str hpre).cons ((delivers_list hcount fun f hf => delivers_factor (hfac f hf)).cons
    (.pure _)))))))))))))))))))))))))))))) ?_
  simp

namespace ResourceSnapshot

def Sendable (r : ResourceSnapshot) : Prop :=
  Fits [r.source, r.destination, r.provenance] (r.numbers ++ r.rates)

end ResourceSnapshot

theorem delivers_resourceSnapshot {r : ResourceSnapshot} (h : r.Sendable) :
    Delivers (wResourceSnapshot r) rResourceSnapshot r := by
  obtain ⟨hs, hq⟩ := h
  simp only [List.forall_mem_cons, List.forall_mem_append, ResourceSnapshot.numbers,
    ResourceSnapshot.rates] at hs hq
  obtain ⟨hsrc, hdst, hprov, -⟩ := hs
  obtain ⟨⟨hinst, hmov, hlat, hconf, hstale, hthr, -⟩, hnom, hmeas, hgov, hres, hall, -⟩ := hq
  exact (delivers_id _).cons ((delivers_code enumerated_resourceClass _).cons
    ((delivers_str hsrc).cons ((delivers_str hdst).cons
    ((delivers_code enumerated_directionality _).cons ((delivers_capacity hnom).cons
    ((delivers_capacity hmeas).cons ((delivers_capacity hgov).cons ((delivers_capacity hres).cons
    ((delivers_capacity hall).cons ((delivers_f64 hinst).cons ((delivers_f64 hmov).cons
    ((delivers_u64 _).cons ((delivers_bool _).cons ((delivers_f64 hlat).cons
    ((delivers_f64 hconf).cons ((delivers_str hprov).cons ((delivers_f64 hstale).cons
    ((delivers_f64 hthr).cons
      ((delivers_id _).cons ((delivers_code enumerated_resourceHealth _).cons
    ((delivers_bool _).cons (.pure _))))))))))))))))))))))

namespace FlowSnapshot

def Sendable (f : FlowSnapshot) : Prop :=
  Fits [f.spec.source, f.spec.destination, f.lastError] (f.numbers ++ f.rates)

theorem Sendable.spec {f : FlowSnapshot} (h : f.Sendable) : f.spec.Sendable := by
  obtain ⟨hs, hq⟩ := h
  simp only [List.forall_mem_cons, List.forall_mem_append, numbers, rates] at hs hq
  refine ⟨by simpa using ⟨hs.1, hs.2.1⟩, fun q hmem => ?_⟩
  rcases List.mem_append.mp hmem with hn | hr
  · exact hq.1.1 q hn
  · exact hq.2.1 q hr

end FlowSnapshot

theorem delivers_flowSnapshot {f : FlowSnapshot} (h : f.Sendable) :
    Delivers (wFlowSnapshot f) rFlowSnapshot f := by
  have hspec := delivers_spec h.spec
  obtain ⟨hs, hq⟩ := h
  simp only [List.forall_mem_cons, List.forall_mem_append, FlowSnapshot.numbers,
    FlowSnapshot.rates] at hs hq
  obtain ⟨-, -, herr, -⟩ := hs
  obtain ⟨⟨-, hadm, hlast, hstarve, -⟩, -, hgr, -⟩ := hq
  exact hspec.cons ((delivers_code enumerated_flowState _).cons ((delivers_capacity hgr).cons
    ((delivers_f64 hadm).cons ((delivers_f64 hlast).cons ((delivers_u64 _).cons
    ((delivers_u64 _).cons ((delivers_u64 _).cons ((delivers_f64 hstarve).cons
    ((delivers_optId _).cons ((delivers_optId _).cons ((delivers_id _).cons
    ((delivers_str herr).cons (.pure _)))))))))))))

/-! ### Messages -/

/-- A message that is written and read back as it was. -/
def RoundTrips {α : Type} (encode : α → Sink Error) (decode : Bytes → Except Error α) (v : α) :
    Prop := ∃ bs, encode v = .ok bs ∧ decode bs = .ok v

theorem roundTrips_of_delivers {α : Type} {encode : α → Sink Error} {r : Source α} {v : α}
    (h : Delivers (encode v) r v) : RoundTrips encode (decodeWith r) v := by
  obtain ⟨bs, hw, hr⟩ := h
  refine ⟨bs, hw, ?_⟩
  have := hr []
  rw [List.append_nil] at this
  rw [decodeWith, this]
  rfl

structure Register.Sendable (r : Register) : Prop where
  fields : Fits [r.backend] []
  count : r.inventory.length < 2 ^ 32
  inventory : ∀ rs ∈ r.inventory, rs.Sendable

def RegisterAck.Sendable (a : RegisterAck) : Prop := Fits [a.reason] []

structure AdmissionWire.Sendable (a : AdmissionWire) : Prop where
  flow : a.flow.Sendable
  decision : a.decision.Sendable
  reservation : ∀ rsv ∈ a.reservation, rsv.Sendable

def Dispatch.Sendable (d : Dispatch) : Prop := d.flow.Sendable ∧ Double.IsDouble d.grant.value

def Grant.Sendable (g : Grant) : Prop := Double.IsDouble g.grant.value

def Ack.Sendable (a : Ack) : Prop := Fits [a.reason] []

def Response.Sendable (r : Response) : Prop := Fits [r.message] [] ∧ r.body.length < 2 ^ 32

/-- A snapshot list: a count that fits, and records that do. -/
def ListSendable {α : Type} (sendable : α → Prop) (l : List α) : Prop :=
  l.length < 2 ^ 32 ∧ ∀ x ∈ l, sendable x

theorem Fits.head {s : Str} {numbers : List ℚ} (h : Fits [s] numbers) : s.length ≤ 2 ^ 20 :=
  h.1 s (List.mem_singleton.mpr rfl)

theorem register_roundTrips {r : Register} (h : r.Sendable) :
    RoundTrips encodeRegister decodeRegister r :=
  roundTrips_of_delivers ((delivers_id _).cons ((delivers_id _).cons ((delivers_u32 _).cons
    ((delivers_str h.fields.head).cons
    ((delivers_list h.count fun rs hrs => delivers_res (h.inventory rs hrs)).cons (.pure _))))))

theorem registerAck_roundTrips {a : RegisterAck} (h : a.Sendable) :
    RoundTrips encodeRegisterAck decodeRegisterAck a :=
  roundTrips_of_delivers ((delivers_bool _).cons ((delivers_id _).cons ((delivers_id _).cons
    ((delivers_id _).cons ((delivers_str h.head).cons (.pure _))))))

theorem admission_roundTrips {a : AdmissionWire} (h : a.Sendable) :
    RoundTrips encodeAdmission decodeAdmission a :=
  roundTrips_of_delivers ((delivers_bool _).cons ((delivers_spec h.flow).cons
    ((delivers_decision h.decision).cons
    ((delivers_opt fun rsv hrsv => delivers_reservation (h.reservation rsv hrsv)).cons (.pure _)))))

theorem dispatch_roundTrips {d : Dispatch} (h : d.Sendable) :
    RoundTrips encodeDispatch decodeDispatch d :=
  roundTrips_of_delivers ((delivers_spec h.1).cons ((delivers_id _).cons ((delivers_id _).cons
    ((delivers_id _).cons ((delivers_capacity h.2).cons ((delivers_id _).cons (.pure _)))))))

theorem grant_roundTrips {g : Grant} (h : g.Sendable) : RoundTrips encodeGrant decodeGrant g :=
  roundTrips_of_delivers ((delivers_id _).cons ((delivers_id _).cons ((delivers_id _).cons
    ((delivers_id _).cons ((delivers_capacity h).cons (.pure _))))))

theorem report_roundTrips (r : Report) : RoundTrips encodeReport decodeReport r :=
  roundTrips_of_delivers ((delivers_id _).cons ((delivers_id _).cons ((delivers_id _).cons
    ((delivers_id _).cons ((delivers_u64 _).cons ((delivers_bool _).cons (.pure _)))))))

theorem ack_roundTrips {a : Ack} (h : a.Sendable) : RoundTrips encodeAck decodeAck a :=
  roundTrips_of_delivers ((delivers_bool _).cons ((delivers_str h.head).cons (.pure _)))

theorem response_roundTrips {r : Response} (h : r.Sendable) :
    RoundTrips encodeResponse decodeResponse r := by
  have hn : (UInt32.ofNat r.body.length).toNat = r.body.length := by
    rw [UInt32.toNat_ofNat', Nat.mod_eq_of_lt h.2]
  have hbody : Delivers (.ok r.body) (getBytes truncated (UInt32.ofNat r.body.length).toNat)
      r.body := by
    rw [hn]
    exact .bytes truncated r.body
  exact roundTrips_of_delivers ((delivers_bool _).cons ((delivers_str h.1.head).cons
    ((delivers_u32 _).cons (hbody.cons (.pure _)))))

/-- Every message type of the protocol reads back as it was written. -/
theorem payload_round_trip :
    (∀ v : Register, v.Sendable → RoundTrips encodeRegister decodeRegister v) ∧
    (∀ v : RegisterAck, v.Sendable → RoundTrips encodeRegisterAck decodeRegisterAck v) ∧
    (∀ v : FlowSpec, v.Sendable → RoundTrips encodeFlowSpec decodeFlowSpec v) ∧
    (∀ v : AdmissionWire, v.Sendable → RoundTrips encodeAdmission decodeAdmission v) ∧
    (∀ v : Dispatch, v.Sendable → RoundTrips encodeDispatch decodeDispatch v) ∧
    (∀ v : Grant, v.Sendable → RoundTrips encodeGrant decodeGrant v) ∧
    (∀ v : Report, RoundTrips encodeReport decodeReport v) ∧
    (∀ v : Ack, v.Sendable → RoundTrips encodeAck decodeAck v) ∧
    (∀ v : Response, v.Sendable → RoundTrips encodeResponse decodeResponse v) ∧
    (∀ v, ListSendable ResourceSnapshot.Sendable v →
      RoundTrips encodeResourceSnapshot decodeResourceSnapshot v) ∧
    (∀ v, ListSendable FlowSnapshot.Sendable v →
      RoundTrips encodeFlowSnapshot decodeFlowSnapshot v) ∧
    (∀ v, ListSendable Reservation.Sendable v →
      RoundTrips encodeReservationSnapshot decodeReservationSnapshot v) := by
  refine ⟨fun v h => register_roundTrips h, fun v h => registerAck_roundTrips h,
    fun v h => roundTrips_of_delivers (delivers_spec h), fun v h => admission_roundTrips h,
    fun v h => dispatch_roundTrips h, fun v h => grant_roundTrips h, report_roundTrips,
    fun v h => ack_roundTrips h, fun v h => response_roundTrips h, fun v h => ?_, fun v h => ?_,
    fun v h => ?_⟩
  · exact roundTrips_of_delivers
      (delivers_list h.1 fun x hx => delivers_resourceSnapshot (h.2 x hx))
  · exact roundTrips_of_delivers (delivers_list h.1 fun x hx => delivers_flowSnapshot (h.2 x hx))
  · exact roundTrips_of_delivers (delivers_list h.1 fun x hx => delivers_reservation (h.2 x hx))

namespace Sample

/-- A reservation of link 1 for flow 1. -/
def booking : Reservation :=
  { id := ⟨1, 1⟩, flow := ⟨0, 1⟩, attempt := ⟨0, 1⟩, flowGeneration := ⟨0, 1⟩, path := ⟨0, 1⟩
    allocations := [⟨⟨0, 1⟩, rate 100⟩], epoch := ⟨1, 2⟩, capacityGeneration := ⟨1, 3⟩ }

/-- A decision with a bottleneck, a competitor and a factor. -/
def verdict : Decision :=
  { granted := rate 100, bottleneck := some ⟨0, 1⟩, priority := -3, competingFlows := [⟨0, 2⟩]
    kindReason := ascii "admitted with grant"
    factors := [⟨ascii "granted", 100, 1, ascii "current governed byte rate"⟩] }

/-- Flow 1 as it is listed while worker 1 drives it. -/
def listed : FlowSnapshot :=
  { spec := flow 1 1 100 100 100, state := .named .running, granted := rate 100, admittedMs := 1
    lastUpdateMs := 100, bytesTransferred := 7, burstRemaining := 0, retryCount := 1
    starvationMs := 0, reservation := some ⟨1, 1⟩, assignedWorker := some ⟨0, 1⟩
    assignedBoot := ⟨0, 1⟩, lastError := [] }

/-- Link 1 as it is listed. -/
def gauge : ResourceSnapshot :=
  { id := ⟨0, 1⟩, cls := .named .pcie, source := [], destination := []
    direction := .named .bidirectional, nominal := rate 100, measured := rate 0
    governed := rate 100, reserved := rate 0, allocated := rate 100, instantaneousUtil := 1
    movingAverageUtil := 0, queueDepth := 0, saturated := true, measuredLatencyMs := 1
    confidence := 0, provenance := ascii "probe", stalenessMs := 0, stalenessThresholdMs := 100
    capacityGeneration := ⟨0, 1⟩, health := .named .healthy, enabled := true }

theorem isDouble_zero : Double.IsDouble 0 := ⟨0, by decide +kernel⟩

theorem isDouble_one : Double.IsDouble 1 := ⟨0x3FF0000000000000, by decide +kernel⟩

theorem isDouble_hundred : Double.IsDouble 100 := ⟨0x4059000000000000, by decide +kernel⟩

theorem rate_value {n : ℕ} (h : (n : ℚ) ≤ kMaxRate) : (rate n).value = n := by
  have hv : isValidRate (n : ℚ) = true := isValidRate_iff.mpr ⟨Nat.cast_nonneg n, h⟩
  rw [rate, Capacity.setValue, dif_pos hv]

theorem isDouble_rate : Double.IsDouble (rate 0).value ∧ Double.IsDouble (rate 100).value := by
  rw [rate_value (by norm_num [kMaxRate]), rate_value (by norm_num [kMaxRate])]
  exact ⟨isDouble_zero, isDouble_hundred⟩

theorem flow_sendable : (flow 1 1 100 100 100).Sendable := by
  obtain ⟨-, h⟩ := isDouble_rate
  refine ⟨by simp [flow], ?_⟩
  simp [FlowSpec.numbers, FlowSpec.rates, flow, h, isDouble_zero]

theorem booking_sendable : booking.Sendable :=
  ⟨by decide, by simp, by simpa [Reservation.rates, booking] using isDouble_rate.2⟩

theorem verdict_sendable : verdict.Sendable := by
  obtain ⟨-, h⟩ := isDouble_rate
  refine ⟨⟨?_, ?_⟩, by decide, by decide, ?_⟩
  · simp only [Decision.reasons, List.forall_mem_cons]
    decide
  · simp [Decision.numbers, Decision.rates, verdict, Capacity.zero, h, isDouble_zero]
  · simp only [verdict, List.forall_mem_cons]
    refine ⟨⟨?_, by simp [isDouble_hundred, isDouble_one]⟩, by simp⟩
    simp only [List.forall_mem_cons]
    decide

theorem listed_sendable : listed.Sendable := by
  obtain ⟨-, h⟩ := isDouble_rate
  refine ⟨by simp [listed, flow], ?_⟩
  simp [FlowSnapshot.numbers, FlowSnapshot.rates, FlowSpec.numbers, FlowSpec.rates, listed, flow, h,
    isDouble_zero, isDouble_one, isDouble_hundred]

theorem gauge_sendable : gauge.Sendable := by
  obtain ⟨h₀, h⟩ := isDouble_rate
  refine ⟨?_, ?_⟩
  · simp only [List.forall_mem_cons]
    decide
  · simp [ResourceSnapshot.numbers, ResourceSnapshot.rates, gauge, h₀, h, isDouble_zero,
      isDouble_one, isDouble_hundred]

theorem link_sendable : (link 1 100).Sendable :=
  ⟨by simp [link], by simpa [ResourceSpec.rates, link] using isDouble_rate.2⟩

end Sample

/-- The theorem for one message of each type. -/
theorem payload_round_trip_samples :
    RoundTrips encodeRegister decodeRegister
      ⟨⟨0, 1⟩, ⟨0, 1⟩, 1, ascii "sim", [Sample.link 1 100]⟩ ∧
    RoundTrips encodeRegisterAck decodeRegisterAck ⟨true, ⟨1, 1⟩, ⟨1, 2⟩, ⟨1, 3⟩, []⟩ ∧
    RoundTrips encodeFlowSpec decodeFlowSpec (Sample.flow 1 1 100 100 100) ∧
    RoundTrips encodeAdmission decodeAdmission
      ⟨true, Sample.flow 1 1 100 100 100, Sample.verdict, some Sample.booking⟩ ∧
    RoundTrips encodeDispatch decodeDispatch
      ⟨Sample.flow 1 1 100 100 100, ⟨0, 1⟩, ⟨0, 1⟩, ⟨0, 1⟩, Sample.rate 100, ⟨1, 1⟩⟩ ∧
    RoundTrips encodeGrant decodeGrant ⟨⟨0, 1⟩, ⟨0, 1⟩, ⟨0, 1⟩, ⟨0, 1⟩, Sample.rate 100⟩ ∧
    RoundTrips encodeReport decodeReport ⟨⟨0, 1⟩, ⟨0, 1⟩, ⟨0, 1⟩, ⟨0, 1⟩, 10, true⟩ ∧
    RoundTrips encodeAck decodeAck ⟨false, ascii "unexpected"⟩ ∧
    RoundTrips encodeResponse decodeResponse ⟨true, [], [0, 255]⟩ ∧
    RoundTrips encodeResourceSnapshot decodeResourceSnapshot [Sample.gauge] ∧
    RoundTrips encodeFlowSnapshot decodeFlowSnapshot [Sample.listed] ∧
    RoundTrips encodeReservationSnapshot decodeReservationSnapshot [Sample.booking] := by
  obtain ⟨h₁, h₂, h₃, h₄, h₅, h₆, h₇, h₈, h₉, h₁₀, h₁₁, h₁₂⟩ := payload_round_trip
  refine ⟨h₁ _ ⟨⟨?_, by simp⟩, by decide, ?_⟩, h₂ _ ⟨by simp, by simp⟩,
    h₃ _ Sample.flow_sendable, h₄ _ ⟨Sample.flow_sendable, Sample.verdict_sendable, ?_⟩,
    h₅ _ ⟨Sample.flow_sendable, Sample.isDouble_rate.2⟩, h₆ _ Sample.isDouble_rate.2, h₇ _,
    h₈ _ ⟨?_, by simp⟩, h₉ _ ⟨⟨by simp, by simp⟩, by decide⟩, h₁₀ _ ⟨by decide, ?_⟩,
    h₁₁ _ ⟨by decide, ?_⟩, h₁₂ _ ⟨by decide, ?_⟩⟩
  · simp only [List.forall_mem_cons]
    decide
  · simpa using Sample.link_sendable
  · simpa using Sample.booking_sendable
  · simp only [List.forall_mem_cons]
    decide
  · simpa using Sample.gauge_sendable
  · simpa using Sample.listed_sendable
  · simpa using Sample.booking_sendable

end BG
