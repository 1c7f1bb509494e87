import Mathlib
import BandwidthGovernor.Persist.Encoding
import BandwidthGovernor.Governor.Run

/-! The persisted state reads back as it was written.

    `stored` is what the format carries of a record: its doubles rounded, and no assigned worker.
    `Storable` is what the readers check. On an encoded snapshot `decode_snapshot` yields the stored
    snapshot when the snapshot is storable, and throws when it is not. -/

namespace BG

open Lib

/-! ### The byte layer -/

theorem reads_u8 (v : UInt8) : Reads (putU8 v) getU8 v True :=
  ((Reads.le truncated (n := 1) v.toNat_lt).map UInt8.ofNat).congr (UInt8.ofNat_toNat) Iff.rfl

theorem reads_u32 (v : UInt32) : Reads (putU32 v) getU32 v True :=
  ((Reads.le truncated (n := 4) v.toNat_lt).map UInt32.ofNat).congr (UInt32.ofNat_toNat) Iff.rfl

theorem reads_u64 (v : UInt64) : Reads (putU64 v) getU64 v True :=
  ((Reads.le truncated (n := 8) v.toNat_lt).map UInt64.ofNat).congr (UInt64.ofNat_toNat) Iff.rfl

theorem reads_i64 (v : Int64) : Reads (putI64 v) getI64 v True :=
  ((reads_u64 v.toUInt64).map UInt64.toInt64).congr (Int64.toInt64_toUInt64 v) Iff.rfl

theorem reads_f64 (q : ℚ) : Reads (putF64 q) getF64 (Double.round q) (Double.Finite q) := by
  refine ⟨fun hq bs rest hw hlen => ?_, fun hq bs rest hw hlen => ?_⟩
  · rw [getF64, run_bind_ok ((reads_u64 (Double.ofRat q)).ok trivial bs rest hw hlen)]
    simp only [Double.toRat?_of_finite hq]
    rfl
  · rw [getF64, run_bind_ok ((reads_u64 (Double.ofRat q)).ok trivial bs rest hw hlen)]
    simp only [Double.toRat?_of_not_finite hq]
    exact ⟨_, rfl⟩

theorem reads_bool (b : Bool) : Reads (putBool b) getBool b True :=
  ((reads_u8 (if b then 1 else 0)).map fun x => decide (x ≠ 0)).congr (by cases b <;> rfl) Iff.rfl

theorem reads_id {t : IdTag} (v : Id128 t) : Reads (putId v) getId v True :=
  ((reads_u64 v.hi).cons ((reads_u64 v.lo).cons (Reads.pure v))).congr rfl (by simp)

/-- A string that was written fits the reader's bound. -/
theorem reads_str (s : Str) : Reads (putStr s) getStr s True := by
  have hmax : kMaxString.toNat = 2 ^ 20 := by decide
  unfold putStr
  split
  · exact ⟨fun _ bs rest hw => (by cases hw), fun h => absurd trivial h⟩
  · rename_i hle
    have hn : (UInt32.ofNat s.length).toNat = s.length := by
      rw [UInt32.toNat_ofNat', Nat.mod_eq_of_lt (by omega)]
    have hcount : UInt32.ofNat s.length ≤ kMaxString := by
      rw [UInt32.le_iff_toNat_le, hn]
      omega
    have hbytes :
      Reads (.all [.ok s]) (getBytes truncated (UInt32.ofNat s.length).toNat) s True := by
      rw [hn, Sink.all_single]
      exact Reads.bytes truncated s
    exact ((reads_u32 _).cons (Reads.require hbytes)).congr rfl (by simp [hcount])

theorem isDouble_kMaxRate : Double.IsDouble kMaxRate := ⟨0x43ABC16D674EC800, by decide +kernel⟩

/-- A capacity as it is stored: rounding keeps a rate valid. -/
def Capacity.stored (c : Capacity) : Capacity :=
  ⟨Double.round c.value,
    isValidRate_iff.mpr (Double.round_mem isDouble_kMaxRate c.nonneg c.le_max).2⟩

theorem reads_capacity (c : Capacity) : Reads (putCapacity c) getCapacity c.stored True := by
  have hfin := (Double.round_mem isDouble_kMaxRate c.nonneg c.le_max).1
  refine ⟨fun _ bs rest hw hlen => ?_, fun h => absurd trivial h⟩
  rw [getCapacity, run_bind_ok ((reads_f64 c.value).ok hfin bs rest hw hlen)]
  have hmake : Capacity.make (Double.round c.value) = .ok c.stored := Capacity.make_value c.stored
  rw [hmake]
  rfl

/-! ### Enumerations -/

/-- The enumerators have the codes from `0` to `last`. -/
structure Enumerated (E : Type) [Enumerators E] (last : UInt32) : Prop where
  mem : ∀ e : E, e ∈ Enumerators.all (E := E)
  length : (Enumerators.all (E := E)).length = last.toNat + 1

namespace Coded
variable {E : Type} [Enumerators E] [DecidableEq E] {last : UInt32}

theorem ofCode_code (h : Enumerated E last) (c : Coded E) : ofCode c.code = c := by
  cases c with
  | named e =>
    have hlt := List.idxOf_lt_length_of_mem (h.mem e)
    have hlast := last.toNat_lt
    have hcode : (UInt32.ofNat ((Enumerators.all (E := E)).idxOf e)).toNat =
        (Enumerators.all (E := E)).idxOf e := by
      rw [UInt32.toNat_ofNat', Nat.mod_eq_of_lt (by have := h.length; omega)]
    have hlt' : (named e).code.toNat < (Enumerators.all (E := E)).length := by
      rw [code, hcode]; exact hlt
    rw [ofCode, dif_pos hlt']
    simp only [code, hcode, List.get_eq_getElem, List.getElem_idxOf]
  | unnamed code h => exact dif_neg (Nat.not_lt.mpr h)

theorem code_le_iff (h : Enumerated E last) (c : Coded E) : c.code ≤ last ↔ c.inRange = true := by
  have hlen := h.length
  rw [UInt32.le_iff_toNat_le]
  cases c with
  | named e =>
    have hlt := List.idxOf_lt_length_of_mem (h.mem e)
    have hlast := last.toNat_lt
    simp only [code, inRange, iff_true, UInt32.toNat_ofNat']
    rw [Nat.mod_eq_of_lt (by omega)]
    omega
  | unnamed code h =>
    simp only [Coded.code, inRange]
    constructor
    · intro hle; omega
    · intro hf; cases hf

end Coded

theorem reads_code {E : Type} [Enumerators E] [DecidableEq E] {last : UInt32}
    (h : Enumerated E last) (e : Error) (c : Coded E) :
    Reads (putU32 c.code) (getChecked last e) c (c.inRange = true) := by
  refine ((reads_u32 c.code).bind (Reads.require (Reads.pure (Coded.ofCode c.code)))).congr
    (Coded.ofCode_code h c) ?_
  simp [Coded.code_le_iff h]

theorem enumerated_resourceClass : Enumerated ResourceClass 7 :=
  ⟨fun e => by cases e <;> decide, rfl⟩

theorem enumerated_directionality : Enumerated Directionality 1 :=
  ⟨fun e => by cases e <;> decide, rfl⟩

theorem enumerated_resourceHealth : Enumerated ResourceHealth 2 :=
  ⟨fun e => by cases e <;> decide, rfl⟩

theorem enumerated_flowState : Enumerated FlowState 8 := ⟨fun e => by cases e <;> decide, rfl⟩

theorem enumerated_latencyClass : Enumerated LatencyClass 2 := ⟨fun e => by cases e <;> decide, rfl⟩

theorem enumerated_reservationState : Enumerated ReservationState 5 :=
  ⟨fun e => by cases e <;> decide, rfl⟩

/-! ### Lists -/

section
variable {α β : Type} {write : α → Sink Error} {read : Source β} {out : α → β} {ok : α → Prop}

/-- What was written bounds the number of records, so that the count is exact. -/
theorem count_exact (hne : ∀ x bs, write x = .ok bs → bs ≠ []) {l : List α} {bs : Bytes}
    (h : putList write l = .ok bs) (hlen : bs.length < 2 ^ 32) :
    (UInt32.ofNat l.length).toNat = l.length := by
  obtain ⟨a, b, -, hb, rfl⟩ := Sink.all_cons_ok h
  rw [Sink.all_single] at hb
  have := Sink.length_le_all hne hb
  rw [List.length_append] at hlen
  rw [UInt32.toNat_ofNat', Nat.mod_eq_of_lt (by omega)]

theorem reads_list (hne : ∀ x bs, write x = .ok bs → bs ≠ [])
    (h : ∀ x, Reads (write x) read (out x) (ok x)) (bound : UInt32) (e : Error) (l : List α) :
    Reads (putList write l) (getList read bound e) (l.map out)
      (l.length ≤ bound.toNat ∧ ∀ x ∈ l, ok x) := by
  refine Reads.of_length fun bs hbs hlen => ?_
  have hn := count_exact hne hbs hlen
  have hmany : Reads (.all [.all (l.map write)]) (getMany read (UInt32.ofNat l.length).toNat)
      (l.map out) (∀ x ∈ l, ok x) := by
    rw [hn, Sink.all_single]
    exact Reads.many fun x _ => h x
  refine ((reads_u32 _).cons (Reads.require hmany)).congr rfl ?_
  rw [decide_eq_true_eq, UInt32.le_iff_toNat_le, hn, true_and]

theorem reads_records {t : IdTag} (hne : ∀ x bs, write x = .ok bs → bs ≠ [])
    (h : ∀ x, Reads (write x) read (out x) (ok x)) (key : β → Id128 t) (tooMany dup : String)
    (l : List α) : Reads (putList write l) (getRecords read key tooMany dup) (l.map out)
      (l.length ≤ 2 ^ 20 ∧ (∀ x ∈ l, ok x) ∧ (l.map fun x => key (out x)).Nodup) := by
  have hmax : kMaxList.toNat = 2 ^ 20 := by decide
  refine Reads.of_length fun bs hbs hlen => ?_
  have hn := count_exact hne hbs hlen
  have hmany : Reads (.all [.all (l.map write)])
      (getDistinct read key (.value dup) [] (UInt32.ofNat l.length).toNat) (l.map out)
      ((∀ x ∈ l, ok x) ∧ (∀ x ∈ l, key (out x) ∉ []) ∧ (l.map fun x => key (out x)).Nodup) := by
    rw [hn, Sink.all_single]
    exact Reads.distinct fun x _ => h x
  refine ((reads_u32 _).cons (Reads.require hmany)).congr rfl ?_
  rw [decide_eq_true_eq, UInt32.le_iff_toNat_le, hn, hmax]
  simp

end

/-! ### Records

    `numbers` are the doubles of a record other than its rates; `rates` are those. -/

/-- None of the numbers overflows. -/
def AllFinite (l : List ℚ) : Prop := ∀ q ∈ l, Double.Finite q

namespace PolicyConfig

def numbers (p : PolicyConfig) : List ℚ :=
  [p.basePriorityWeight, p.latencySensitiveWeight, p.throughputWeight, p.bestEffortWeight,
    p.deadlineWeight, p.deadlineSlackSeconds, p.starvationWeight, p.starvationSlowSeconds,
    p.fairnessGain, p.reservationHonour, p.fairnessWindowMs]

def stored (p : PolicyConfig) : PolicyConfig :=
  { p with
    basePriorityWeight := Double.round p.basePriorityWeight
    latencySensitiveWeight := Double.round p.latencySensitiveWeight
    throughputWeight := Double.round p.throughputWeight
    bestEffortWeight := Double.round p.bestEffortWeight
    deadlineWeight := Double.round p.deadlineWeight
    deadlineSlackSeconds := Double.round p.deadlineSlackSeconds
    starvationWeight := Double.round p.starvationWeight
    starvationSlowSeconds := Double.round p.starvationSlowSeconds
    fairnessGain := Double.round p.fairnessGain
    reservationHonour := Double.round p.reservationHonour
    fairnessWindowMs := Double.round p.fairnessWindowMs }

end PolicyConfig

theorem reads_policy (p : PolicyConfig) :
    Reads (writePolicy p) readPolicy p.stored (AllFinite p.numbers) := by
  unfold writePolicy readPolicy
  refine Reads.congr ((reads_f64 _).cons ((reads_f64 _).cons ((reads_f64 _).cons
    ((reads_f64 _).cons ((reads_f64 _).cons ((reads_f64 _).cons ((reads_f64 _).cons
    ((reads_f64 _).cons ((reads_f64 _).cons ((reads_f64 _).cons ((reads_i64 _).cons
    ((reads_bool _).cons ((reads_bool _).cons ((reads_u32 _).cons ((reads_bool _).cons
    ((reads_f64 _).cons (Reads.pure _))))))))))))))))) ?_ ?_
  · simp [PolicyConfig.stored]
  · simp [AllFinite, PolicyConfig.numbers]

namespace ResourceSpec

def inRange (r : ResourceSpec) : Bool := r.cls.inRange && r.direction.inRange

def rates (r : ResourceSpec) : List ℚ := [r.nominal.value]

def stored (r : ResourceSpec) : ResourceSpec := { r with nominal := r.nominal.stored }

end ResourceSpec

theorem reads_resourceSpec (r : ResourceSpec) :
    Reads (writeResourceSpec r) readResourceSpec r.stored (r.inRange = true) := by
  unfold writeResourceSpec readResourceSpec
  refine Reads.congr ((reads_id _).cons ((reads_code enumerated_resourceClass _ _).cons
    ((reads_str _).cons ((reads_str _).cons ((reads_code enumerated_directionality _ _).cons
    ((reads_capacity _).cons ((reads_id _).cons ((reads_bool _).cons (Reads.pure _))))))))) rfl ?_
  simp [ResourceSpec.inRange]

theorem reads_hop (h : PathHop) : Reads (writeHop h) readHop h True := by
  unfold writeHop readHop
  refine Reads.congr ((reads_id _).cons ((reads_id _).cons (Reads.pure _))) rfl ?_
  simp

/-- Records that start with an identity are never empty. -/
theorem ne_nil_of_id {t : IdTag} {v : Id128 t} {ws : List (Sink Error)} {bs : Bytes}
    (h : Sink.all (putId v :: ws) = .ok bs) : bs ≠ [] := by
  obtain ⟨a, b, ha, -, rfl⟩ := Sink.all_cons_ok h
  have : a = leBytes 8 v.hi.toNat ++ (leBytes 8 v.lo.toNat ++ []) := (Except.ok.inj ha).symm
  rw [this]
  simp [leBytes]

theorem reads_path (p : Path) : Reads (writePath p) readPath p (p.hops.length ≤ 256) := by
  unfold writePath readPath
  refine Reads.congr ((reads_id _).cons ((reads_id _).cons
    ((reads_list (fun _ _ => ne_nil_of_id) reads_hop _ _ _).cons (Reads.pure _)))) ?_ ?_
  · simp
  · simp

namespace FlowSpec

def inRange (f : FlowSpec) : Bool := f.direction.inRange && f.latencyClass.inRange

def numbers (f : FlowSpec) : List ℚ := [f.deadlineSeconds]

def rates (f : FlowSpec) : List ℚ :=
  [f.requestedMin.value, f.requestedPreferred.value, f.requestedMax.value]

def stored (f : FlowSpec) : FlowSpec :=
  { f with
    deadlineSeconds := Double.round f.deadlineSeconds, requestedMin := f.requestedMin.stored
    requestedPreferred := f.requestedPreferred.stored, requestedMax := f.requestedMax.stored }

end FlowSpec

theorem reads_flowSpec (f : FlowSpec) : Reads (writeFlowSpec f) readFlowSpec f.stored
    (f.inRange = true ∧ AllFinite f.numbers) := by
  unfold writeFlowSpec readFlowSpec
  refine Reads.congr ((reads_id _).cons ((reads_id _).cons ((reads_id _).cons ((reads_id _).cons
    ((reads_id _).cons ((reads_str _).cons ((reads_str _).cons ((reads_id _).cons
    ((reads_u64 _).cons ((reads_code enumerated_directionality _ _).cons ((reads_i64 _).cons
    ((reads_code enumerated_latencyClass _ _).cons ((reads_f64 _).cons ((reads_capacity _).cons
    ((reads_capacity _).cons ((reads_capacity _).cons ((reads_u64 _).cons ((reads_bool _).cons
    ((reads_bool _).cons (Reads.pure _)))))))))))))))))))) ?_ ?_
  · simp [FlowSpec.stored]
  · simp [FlowSpec.inRange, FlowSpec.numbers, AllFinite, and_assoc]

theorem reads_optId {t : IdTag} (o : Option (Id128 t)) : Reads (putOptId o) getOptId o True := by
  unfold putOptId getOptId
  cases o with
  | none =>
    refine ((reads_bool false).cons (b := none) (Q := True) ?_).congr rfl (by simp)
    rw [Sink.all_single]
    exact Reads.pure none
  | some v =>
    refine ((reads_bool true).cons (b := some v) (Q := True) ?_).congr rfl (by simp)
    rw [Sink.all_single]
    exact (reads_id v).map some

namespace FlowSnapshot

def inRange (f : FlowSnapshot) : Bool := f.spec.inRange && f.state.inRange

def numbers (f : FlowSnapshot) : List ℚ :=
  f.spec.numbers ++ [f.admittedMs, f.lastUpdateMs, f.starvationMs]

def rates (f : FlowSnapshot) : List ℚ := f.spec.rates ++ [f.granted.value]

/-- The snapshot without the two fields the format does not carry. -/
def unassigned (f : FlowSnapshot) : FlowSnapshot :=
  { f with assignedWorker := none, assignedBoot := .null }

def stored (f : FlowSnapshot) : FlowSnapshot :=
  { f.unassigned with
    spec := f.spec.stored, granted := f.granted.stored, admittedMs := Double.round f.admittedMs
    lastUpdateMs := Double.round f.lastUpdateMs, starvationMs := Double.round f.starvationMs }

end FlowSnapshot

theorem reads_flowSnapshot (f : FlowSnapshot) : Reads (writeFlowSnapshot f) readFlowSnapshot
    f.stored (f.inRange = true ∧ AllFinite f.numbers) := by
  unfold writeFlowSnapshot readFlowSnapshot
  refine Reads.congr ((reads_flowSpec _).cons ((reads_code enumerated_flowState _ _).cons
    ((reads_capacity _).cons ((reads_f64 _).cons ((reads_f64 _).cons ((reads_u64 _).cons
    ((reads_u64 _).cons ((reads_u64 _).cons ((reads_f64 _).cons ((reads_optId _).cons
    ((reads_str _).cons (Reads.pure _)))))))))))) rfl ?_
  simp only [FlowSnapshot.inRange, FlowSnapshot.numbers, AllFinite, List.forall_mem_append,
    List.forall_mem_cons, Bool.and_eq_true]
  tauto

namespace Reservation

def rates (r : Reservation) : List ℚ := r.allocations.map fun a => a.allocated.value

def stored (r : Reservation) : Reservation :=
  { r with allocations := r.allocations.map fun a => { a with allocated := a.allocated.stored } }

/-- What the reader checks of a reservation. -/
def Storable (r : Reservation) : Prop := r.allocations.length ≤ 256 ∧ r.state.inRange = true

end Reservation

theorem reads_resourceAllocation (a : ResourceAllocation) :
    Reads (writeResourceAllocation a) readResourceAllocation
      { a with allocated := a.allocated.stored } True := by
  unfold writeResourceAllocation readResourceAllocation
  refine Reads.congr ((reads_id _).cons ((reads_capacity _).cons (Reads.pure _))) rfl ?_
  simp

theorem reads_reservation (r : Reservation) :
    Reads (writeReservation r) readReservation r.stored r.Storable := by
  unfold writeReservation readReservation
  refine Reads.congr ((reads_id _).cons ((reads_id _).cons ((reads_id _).cons ((reads_id _).cons
    ((reads_id _).cons ((reads_list (fun _ _ => ne_nil_of_id) reads_resourceAllocation _ _ _).cons
    ((reads_id _).cons ((reads_id _).cons ((reads_id _).cons
    ((reads_code enumerated_reservationState _ _).cons (Reads.pure _))))))))))) rfl ?_
  simp [Reservation.Storable]

namespace Accounting
variable {t : IdTag}

def numbers (a : Accounting t) : List ℚ :=
  [a.account.allocatedNow, a.account.servedBytes, a.account.weight]

def stored (a : Accounting t) : Accounting t :=
  { a with
    account := { a.account with
      allocatedNow := Double.round a.account.allocatedNow
      servedBytes := Double.round a.account.servedBytes
      weight := Double.round a.account.weight } }

end Accounting

theorem reads_accounting {t : IdTag} (a : Accounting t) :
    Reads (writeAccounting a) readAccounting a.stored (AllFinite a.numbers) := by
  unfold writeAccounting readAccounting
  refine Reads.congr ((reads_id _).cons ((reads_f64 _).cons ((reads_f64 _).cons ((reads_u64 _).cons
    ((reads_u64 _).cons ((reads_u64 _).cons ((reads_f64 _).cons (Reads.pure _)))))))) rfl ?_
  simp [AllFinite, Accounting.numbers]

namespace ResourceSnapshot

def inRange (r : ResourceSnapshot) : Bool :=
  r.cls.inRange && r.direction.inRange && r.health.inRange

def numbers (r : ResourceSnapshot) : List ℚ :=
  [r.instantaneousUtil, r.movingAverageUtil, r.measuredLatencyMs, r.confidence, r.stalenessMs,
    r.stalenessThresholdMs]

def rates (r : ResourceSnapshot) : List ℚ :=
  [r.nominal.value, r.measured.value, r.governed.value, r.reserved.value, r.allocated.value]

def stored (r : ResourceSnapshot) : ResourceSnapshot :=
  { r with
    nominal := r.nominal.stored, measured := r.measured.stored, governed := r.governed.stored
    reserved := r.reserved.stored, allocated := r.allocated.stored
    instantaneousUtil := Double.round r.instantaneousUtil
    movingAverageUtil := Double.round r.movingAverageUtil
    measuredLatencyMs := Double.round r.measuredLatencyMs
    confidence := Double.round r.confidence
    stalenessMs := Double.round r.stalenessMs
    stalenessThresholdMs := Double.round r.stalenessThresholdMs }

end ResourceSnapshot

theorem reads_resourceSnapshot (r : ResourceSnapshot) :
    Reads (writeResourceSnapshot r) readResourceSnapshot r.stored
      (r.inRange = true ∧ AllFinite r.numbers) := by
  unfold writeResourceSnapshot readResourceSnapshot
  refine Reads.congr ((reads_id _).cons ((reads_code enumerated_resourceClass _ _).cons
    ((reads_str _).cons ((reads_str _).cons ((reads_code enumerated_directionality _ _).cons
    ((reads_capacity _).cons ((reads_capacity _).cons ((reads_capacity _).cons
    ((reads_capacity _).cons ((reads_capacity _).cons ((reads_f64 _).cons ((reads_f64 _).cons
    ((reads_u64 _).cons ((reads_bool _).cons ((reads_f64 _).cons ((reads_f64 _).cons
    ((reads_str _).cons ((reads_f64 _).cons ((reads_f64 _).cons ((reads_id _).cons
    ((reads_code enumerated_resourceHealth _ _).cons ((reads_bool _).cons
    (Reads.pure _))))))))))))))))))))))) rfl ?_
  simp only [ResourceSnapshot.inRange, ResourceSnapshot.numbers, AllFinite, List.forall_mem_cons,
    Bool.and_eq_true]
  simp only [List.not_mem_nil, false_implies, implies_true, and_true, true_and]
  tauto

/-! ### Sections -/

namespace GovernorSnapshot

/-- What the readers check of each section. -/
def SectionOk (s : GovernorSnapshot) : SectionTag → Prop
  | .policy => AllFinite s.policy.numbers
  | .coord => Double.Finite s.savedAtMs
  | .resources => s.resources.length ≤ 2 ^ 20 ∧ (∀ r ∈ s.resources, r.inRange = true) ∧
      (s.resources.map ResourceSpec.id).Nodup
  | .paths => s.paths.length ≤ 2 ^ 20 ∧ (∀ p ∈ s.paths, p.hops.length ≤ 256) ∧
      (s.paths.map Path.id).Nodup
  | .flows => s.flows.length ≤ 2 ^ 20 ∧
      (∀ f ∈ s.flows, f.inRange = true ∧ AllFinite f.numbers) ∧
      (s.flows.map fun f => f.spec.id).Nodup
  | .reservations => s.reservations.length ≤ 2 ^ 20 ∧ (∀ r ∈ s.reservations, r.Storable) ∧
      (s.reservations.map Reservation.id).Nodup
  | .tenants => s.tenants.vals.length ≤ 2 ^ 20 ∧ ∀ a ∈ s.tenants.vals, AllFinite a.numbers
  | .workloads => s.workloads.vals.length ≤ 2 ^ 20 ∧ ∀ a ∈ s.workloads.vals, AllFinite a.numbers
  | .resourceState => s.resourceState.vals.length ≤ 2 ^ 20 ∧
      ∀ r ∈ s.resourceState.vals, r.inRange = true ∧ AllFinite r.numbers

/-- A snapshot that `decode_snapshot` accepts once it is encoded. -/
def Storable (s : GovernorSnapshot) : Prop := ∀ tag, s.SectionOk tag

/-- What one section of the format carries, put into another snapshot. -/
def withSection (b s : GovernorSnapshot) : SectionTag → GovernorSnapshot
  | .policy => { b with policy := s.policy.stored }
  | .coord =>
    { b with
      coordinator := s.coordinator, epoch := s.epoch, capacityGeneration := s.capacityGeneration
      savedAtMs := Double.round s.savedAtMs }
  | .resources => { b with resources := s.resources.map ResourceSpec.stored }
  | .paths => { b with paths := s.paths }
  | .flows => { b with flows := s.flows.map FlowSnapshot.stored }
  | .reservations => { b with reservations := s.reservations.map Reservation.stored }
  | .tenants =>
    { b with tenants := .ofList Accounting.owner id (s.tenants.vals.map Accounting.stored) }
  | .workloads =>
    { b with workloads := .ofList Accounting.owner id (s.workloads.vals.map Accounting.stored) }
  | .resourceState =>
    { b with resourceState :=
        .ofList ResourceSnapshot.id id (s.resourceState.vals.map ResourceSnapshot.stored) }

/-- What the format carries of a snapshot. -/
def stored (s : GovernorSnapshot) : GovernorSnapshot :=
  { formatVersion := kFormatVersion, coordinator := s.coordinator, epoch := s.epoch
    capacityGeneration := s.capacityGeneration, policy := s.policy.stored
    resources := s.resources.map ResourceSpec.stored, paths := s.paths
    flows := s.flows.map FlowSnapshot.stored
    reservations := s.reservations.map Reservation.stored
    tenants := .ofList Accounting.owner id (s.tenants.vals.map Accounting.stored)
    workloads := .ofList Accounting.owner id (s.workloads.vals.map Accounting.stored)
    resourceState :=
      .ofList ResourceSnapshot.id id (s.resourceState.vals.map ResourceSnapshot.stored)
    savedAtMs := Double.round s.savedAtMs }

end GovernorSnapshot

/-- The body of a section reads back as the section. -/
theorem reads_sectionBody (b s : GovernorSnapshot) (tag : SectionTag) :
    Reads (sectionBody s tag) (readSection b tag) (b.withSection s tag) (s.SectionOk tag) := by
  have hmax : kMaxList.toNat = 2 ^ 20 := by decide
  cases tag with
  | policy =>
    exact Reads.congr (Reads.bind (reads_policy _) (Reads.pure _)) rfl (iff_of_eq (and_true _))
  | coord =>
    unfold sectionBody readSection writeCoord
    refine Reads.congr ((reads_id _).cons ((reads_id _).cons ((reads_id _).cons
      ((reads_f64 _).cons (Reads.pure _))))) rfl ?_
    simp [GovernorSnapshot.SectionOk]
  | resources =>
    exact Reads.congr (Reads.bind (reads_records (fun _ _ => ne_nil_of_id) reads_resourceSpec
      _ _ _ _) (Reads.pure _)) rfl (iff_of_eq (and_true _))
  | paths =>
    refine Reads.congr (Reads.bind (reads_records (fun _ _ => ne_nil_of_id) reads_path
      _ _ _ _) (Reads.pure _)) ?_ (iff_of_eq (and_true _))
    simp [GovernorSnapshot.withSection]
  | flows =>
    refine Reads.congr (Reads.bind (reads_records (fun _ _ h => ?_) reads_flowSnapshot
      _ _ _ _) (Reads.pure _)) rfl (iff_of_eq (and_true _))
    obtain ⟨x, y, hx, -, rfl⟩ := Sink.all_cons_ok h
    simp [ne_nil_of_id hx]
  | reservations =>
    exact Reads.congr (Reads.bind (reads_records (fun _ _ => ne_nil_of_id) reads_reservation
      _ _ _ _) (Reads.pure _)) rfl (iff_of_eq (and_true _))
  | tenants =>
    refine Reads.congr (Reads.bind (reads_list (fun _ _ => ne_nil_of_id) reads_accounting _ _ _)
      (Reads.pure _)) rfl ?_
    rw [hmax, and_true]
    rfl
  | workloads =>
    refine Reads.congr (Reads.bind (reads_list (fun _ _ => ne_nil_of_id) reads_accounting _ _ _)
      (Reads.pure _)) rfl ?_
    rw [hmax, and_true]
    rfl
  | resourceState =>
    refine Reads.congr (Reads.bind (reads_list (fun _ _ => ne_nil_of_id) reads_resourceSnapshot
      _ _ _) (Reads.pure _)) rfl ?_
    rw [hmax, and_true]
    rfl

theorem SectionTag.ofCode?_code (tag : SectionTag) : ofCode? tag.code = some tag := by
  cases tag <;> decide

theorem SectionTag.code_injective : Function.Injective SectionTag.code := fun a b h => by
  have := congrArg ofCode? h
  rwa [ofCode?_code, ofCode?_code, Option.some.injEq] at this

/-- A turn of `stepSections` once the body of the section has been cut out. -/
def closeSection (b : GovernorSnapshot) (tag : SectionTag) (seen : List UInt8) (body : Bytes) :
    Source (List UInt8 × GovernorSnapshot) := do
  let (s, left) ← StateT.lift ((readSection b tag).run body)
  require left.isEmpty (.value "trailing garbage in section")
  pure (tag.code :: seen, s)

/-- One turn of the loop reads one section. -/
theorem reads_section (b s : GovernorSnapshot) {tag : SectionTag} {seen : List UInt8}
    (hseen : tag.code ∉ seen) : Reads (writeSection tag (sectionBody s tag)) (stepSections seen b)
      (tag.code :: seen, b.withSection s tag) (s.SectionOk tag) := by
  cases hbody : sectionBody s tag with
  | error e =>
    exact ⟨fun _ bs rest hw => (by cases hw), fun _ bs rest hw => (by cases hw)⟩
  | ok body =>
    refine Reads.of_length fun bs hbs hlen => ?_
    obtain ⟨x, y, -, hy, rfl⟩ := Sink.all_cons_ok hbs
    obtain ⟨z, u, -, hu, rfl⟩ := Sink.all_cons_ok hy
    rw [Sink.all_single] at hu
    cases hu
    simp only [List.length_append] at hlen
    have hn : (UInt32.ofNat body.length).toNat = body.length := by
      rw [UInt32.toNat_ofNat', Nat.mod_eq_of_lt (by omega)]
    have hbodyReads := reads_sectionBody b s tag
    have hbody32 : body.length < 2 ^ 32 := by omega
    have hturn : ∀ rest : Bytes, (stepSections seen b).run
        (leBytes 1 tag.code.toNat ++ (leBytes 4 (UInt32.ofNat body.length).toNat ++
          (body ++ rest))) = (closeSection b tag seen body).run rest := by
      intro rest
      rw [stepSections, run_bind_ok ((reads_u8 tag.code).ok trivial _ _ rfl (by simp)),
        run_bind_ok ((reads_u32 (UInt32.ofNat body.length)).ok trivial _ _ rfl (by simp)),
        run_bind_ok (show (get : Source Bytes).run (body ++ rest) = .ok (body ++ rest, body ++ rest)
          from rfl),
        run_bind_ok (run_require_true (by simp [hn]) _ _),
        run_bind_ok (run_require_true (by simpa using hseen) _ _), hn,
        run_bind_ok (getBytes_append truncated body rest)]
      simp only [SectionTag.ofCode?_code]
      rfl
    have hwrite : ∀ rest : Bytes, Sink.all [putU8 tag.code, putU32 (UInt32.ofNat body.length),
        .ok body] = .ok (leBytes 1 tag.code.toNat ++
          (leBytes 4 (UInt32.ofNat body.length).toNat ++ body)) := fun _ =>
      Sink.all_cons rfl (Sink.all_cons rfl (Sink.all_single _))
    refine ⟨fun hok bs rest hw _ => ?_, fun hok bs rest hw _ => ?_⟩
    · rw [writeSection, hwrite rest] at hw
      cases hw
      have hread := hbodyReads.ok hok body [] hbody hbody32
      rw [List.append_nil] at hread
      rw [List.append_assoc, List.append_assoc, hturn, closeSection, hread]
      rfl
    · rw [writeSection, hwrite rest] at hw
      cases hw
      obtain ⟨e, he⟩ := hbodyReads.error hok body [] hbody hbody32
      rw [List.append_nil] at he
      rw [List.append_assoc, List.append_assoc, hturn, closeSection, he]
      exact ⟨e, rfl⟩

theorem writeSection_ne_nil {tag : SectionTag} {body : Sink Error} {bs : Bytes}
    (h : writeSection tag body = .ok bs) : bs ≠ [] := by
  cases body with
  | error e => cases h
  | ok body =>
    obtain ⟨x, y, hx, -, rfl⟩ := Sink.all_cons_ok h
    cases hx
    simp [leBytes]

/-- The loop reads the sections that were written, one after the other. -/
theorem readSections_written (s : GovernorSnapshot) {tags : List SectionTag} {n : ℕ}
    {seen : List UInt8} {b : GovernorSnapshot} {bs : Bytes} (hn : tags.length < n)
    (hnd : tags.Nodup) (hseen : ∀ t ∈ tags, t.code ∉ seen)
    (hbs : Sink.all (tags.map fun tag => writeSection tag (sectionBody s tag)) = .ok bs)
    (hlen : bs.length < 2 ^ 32) :
    ((∀ t ∈ tags, s.SectionOk t) → (readSections n seen b).run bs = .ok
      ((tags.foldl (fun seen t => t.code :: seen) seen,
        tags.foldl (fun b t => b.withSection s t) b), [])) ∧
    (¬ (∀ t ∈ tags, s.SectionOk t) → ∃ e, (readSections n seen b).run bs = .error e) := by
  induction tags generalizing n seen b bs with
  | nil =>
    obtain ⟨n, rfl⟩ : ∃ m, n = m + 1 := ⟨n - 1, by simp at hn; omega⟩
    cases hbs
    exact ⟨fun _ => rfl, fun h => absurd (by simp) h⟩
  | cons t tags ih =>
    obtain ⟨n, rfl⟩ : ∃ m, n = m + 1 := ⟨n - 1, by simp at hn; omega⟩
    rw [List.map_cons] at hbs
    obtain ⟨x, y, hx, hy, rfl⟩ := Sink.all_cons_ok hbs
    rw [List.length_append] at hlen
    rw [List.nodup_cons] at hnd
    rw [List.forall_mem_cons] at hseen ⊢
    have hstep := reads_section b s hseen.1
    have hempty : (x ++ y).isEmpty = false := by
      rw [List.isEmpty_eq_false_iff]
      simp [writeSection_ne_nil hx]
    have hturn : (readSections (n + 1) seen b).run (x ++ y) =
        (stepSections seen b >>= fun p => readSections n p.1 p.2).run (x ++ y) := by
      rw [readSections, run_bind_ok (show (get : Source Bytes).run (x ++ y) =
        .ok (x ++ y, x ++ y) from rfl), hempty]
      rfl
    have hseen' : ∀ t' ∈ tags, t'.code ∉ t.code :: seen := fun t' ht' hmem => by
      rcases List.mem_cons.mp hmem with he | hmem
      · exact hnd.1 (SectionTag.code_injective he ▸ ht')
      · exact hseen.2 t' ht' hmem
    have hrest := ih (b := b.withSection s t) (by simpa using hn) hnd.2 hseen' hy (by omega)
    rw [hturn]
    refine ⟨fun hok => ?_, fun hok => ?_⟩
    · rw [run_bind_ok (hstep.ok hok.1 x y hx (by omega))]
      exact hrest.1 hok.2
    · by_cases ht : s.SectionOk t
      · rw [run_bind_ok (hstep.ok ht x y hx (by omega))]
        exact hrest.2 fun h => hok ⟨ht, h⟩
      · obtain ⟨e, he⟩ := hstep.error ht x y hx (by omega)
        exact ⟨e, run_bind_error he⟩

/-! ### Whole snapshots -/

theorem decodePayload_encodePayload {s : GovernorSnapshot} {payload : Bytes}
    (h : encodePayload s = .ok payload) (hlen : payload.length ≤ 2 ^ 30) :
    (s.Storable → decodePayload kFormatVersion payload = .ok s.stored) ∧
      (¬ s.Storable → ∃ e, decodePayload kFormatVersion payload = .error e) := by
  have hcount : SectionTag.all.length ≤ payload.length :=
    Sink.length_le_all (fun _ _ => writeSection_ne_nil) h
  have hall : s.Storable ↔ ∀ t ∈ SectionTag.all, s.SectionOk t :=
    ⟨fun hs t _ => hs t, fun hs t => hs t (by cases t <;> decide)⟩
  obtain ⟨hok, herr⟩ := @readSections_written s SectionTag.all (payload.length + 1) []
    (.blank kFormatVersion) payload (by omega) (by decide) (by simp) h (by omega)
  refine ⟨fun hs => ?_, fun hs => ?_⟩
  · rw [decodePayload, hok (hall.mp hs)]
    rfl
  · obtain ⟨e, he⟩ := herr fun h => hs (hall.mpr h)
    rw [decodePayload, he]
    exact ⟨e, rfl⟩

/-- The bytes around a payload. -/
theorem envelope_eq (payload : Bytes) : envelope payload = .ok (kEnvelopeMagic ++
    (leBytes 4 kFormatVersion.toNat ++ (leBytes 8 (UInt64.ofNat payload.length).toNat ++
      (payload ++ leBytes 4 (crc32 payload).toNat)))) :=
  Sink.all_cons rfl (Sink.all_cons rfl (Sink.all_cons rfl (Sink.all_cons rfl (Sink.all_single _))))

theorem readEnvelope_envelope {payload data : Bytes} (hlen : payload.length ≤ 2 ^ 30)
    (h : envelope payload = .ok data) :
    readEnvelope.run data = .ok ((kFormatVersion, payload), []) := by
  have hmax : kMaxPayload.toNat = 2 ^ 30 := by decide
  have hn : (UInt64.ofNat payload.length).toNat = payload.length := by
    rw [UInt64.toNat_ofNat', Nat.mod_eq_of_lt (by omega)]
  rw [envelope_eq] at h
  cases h
  rw [readEnvelope, run_bind_ok (getBytes_append _ _ _),
    run_bind_ok (run_require_true (decide_eq_true rfl) _ _),
    run_bind_ok ((reads_u32 kFormatVersion).ok trivial _ _ rfl (by simp)),
    run_bind_ok (run_require_true (decide_eq_true rfl) _ _),
    run_bind_ok ((reads_u64 (UInt64.ofNat payload.length)).ok trivial _ _ rfl (by simp)),
    run_bind_ok (run_require_true (by rw [hn, hmax]; exact decide_eq_true hlen) _ _), hn,
    run_bind_ok (getBytes_append _ _ _)]
  have hcrc := (reads_u32 (crc32 payload)).ok trivial _ [] rfl (by simp)
  rw [List.append_nil] at hcrc
  rw [run_bind_ok hcrc, run_bind_ok (run_require_true (decide_eq_true rfl) _ _)]
  rfl

theorem getU32_eq_ok {v : UInt32} {s s' : Bytes} (h : getU32.run s = .ok (v, s')) :
    s = leBytes 4 v.toNat ++ s' := by
  obtain ⟨n, hn, rfl⟩ := run_map_eq_ok h
  obtain ⟨rfl, hlt⟩ := getLE_eq_ok hn
  rw [UInt32.toNat_ofNat', Nat.mod_eq_of_lt (by simpa using hlt)]

theorem getU64_eq_ok {v : UInt64} {s s' : Bytes} (h : getU64.run s = .ok (v, s')) :
    s = leBytes 8 v.toNat ++ s' := by
  obtain ⟨n, hn, rfl⟩ := run_map_eq_ok h
  obtain ⟨rfl, hlt⟩ := getLE_eq_ok hn
  rw [UInt64.toNat_ofNat', Nat.mod_eq_of_lt (by simpa using hlt)]

/-- What the envelope reader accepts is an envelope, to the last byte. -/
theorem readEnvelope_eq_ok {data rest payload : Bytes} {version : UInt32}
    (h : readEnvelope.run data = .ok ((version, payload), rest)) :
    version = kFormatVersion ∧ payload.length ≤ 2 ^ 30 ∧ envelope payload = .ok data := by
  have hmax : kMaxPayload.toNat = 2 ^ 30 := by decide
  unfold readEnvelope at h
  obtain ⟨magic, s₁, hmagic, h₁⟩ := run_bind_eq_ok h
  obtain ⟨rfl, -⟩ := getBytes_eq_ok hmagic
  obtain ⟨hm, h₂⟩ := require_bind_eq_ok h₁
  rw [decide_eq_true_eq] at hm
  subst hm
  obtain ⟨v, s₃, hv, h₃⟩ := run_bind_eq_ok h₂
  obtain rfl := getU32_eq_ok hv
  obtain ⟨hver, h₄⟩ := require_bind_eq_ok h₃
  rw [decide_eq_true_eq] at hver
  subst hver
  obtain ⟨len, s₅, hlen, h₅⟩ := run_bind_eq_ok h₄
  obtain rfl := getU64_eq_ok hlen
  obtain ⟨hbound, h₆⟩ := require_bind_eq_ok h₅
  rw [decide_eq_true_eq, hmax] at hbound
  obtain ⟨body, s₇, hbody, h₇⟩ := run_bind_eq_ok h₆
  obtain ⟨rfl, hblen⟩ := getBytes_eq_ok hbody
  obtain ⟨crc, s₈, hcrc, h₈⟩ := run_bind_eq_ok h₇
  obtain rfl := getU32_eq_ok hcrc
  obtain ⟨hsum, h₉⟩ := require_bind_eq_ok h₈
  rw [decide_eq_true_eq] at hsum
  subst hsum
  obtain ⟨left, s₁₀, hget, h₁₀⟩ := run_bind_eq_ok h₉
  cases hget
  obtain ⟨hempty, h₁₁⟩ := require_bind_eq_ok h₁₀
  rw [List.isEmpty_iff] at hempty
  subst hempty
  cases h₁₁
  refine ⟨rfl, hblen ▸ hbound, ?_⟩
  rw [envelope_eq, hblen, UInt64.ofNat_toNat, List.append_nil]

theorem encodeSnapshot_eq_ok {s : GovernorSnapshot} {data : Bytes}
    (h : encodeSnapshot s = .ok data) :
    ∃ payload, encodePayload s = .ok payload ∧ envelope payload = .ok data := by
  cases hp : encodePayload s with
  | error e => rw [encodeSnapshot, hp] at h; cases h
  | ok payload => rw [encodeSnapshot, hp] at h; exact ⟨payload, rfl, h⟩

theorem decodeSnapshot_of_envelope {payload data : Bytes} (hlen : payload.length ≤ 2 ^ 30)
    (h : envelope payload = .ok data) :
    decodeSnapshot data = decodePayload kFormatVersion payload := by
  have hread := readEnvelope_envelope hlen h
  rw [envelope_eq] at h
  cases h
  rw [decodeSnapshot, if_neg (by simp [kEnvelopeMagic]; omega), hread]
  rfl

/-- An envelope that decodes holds a payload within the bound. -/
theorem decodeSnapshot_length {payload data : Bytes} {s : GovernorSnapshot}
    (hdec : decodeSnapshot data = .ok s) (h : envelope payload = .ok data) :
    payload.length ≤ 2 ^ 30 := by
  unfold decodeSnapshot at hdec
  split at hdec
  · cases hdec
  · cases hread : readEnvelope.run data with
    | error e => rw [hread] at hdec; cases hdec
    | ok x =>
      obtain ⟨⟨version, body⟩, rest⟩ := x
      obtain ⟨-, hlen, henv⟩ := readEnvelope_eq_ok hread
      have hbytes : (kEnvelopeMagic ++ (leBytes 4 kFormatVersion.toNat ++
          (leBytes 8 (UInt64.ofNat payload.length).toNat ++
            (payload ++ leBytes 4 (crc32 payload).toNat)))).length =
          (kEnvelopeMagic ++ (leBytes 4 kFormatVersion.toNat ++
            (leBytes 8 (UInt64.ofNat body.length).toNat ++
              (body ++ leBytes 4 (crc32 body).toNat)))).length := by
        rw [envelope_eq] at h henv
        rw [Except.ok.inj h, Except.ok.inj henv]
      simp only [List.length_append, leBytes_length] at hbytes
      omega

/-- `decode_snapshot` on what `encode_snapshot` wrote. -/
theorem decodeSnapshot_encodeSnapshot {s : GovernorSnapshot} {payload : Bytes}
    (h : encodePayload s = .ok payload) (hlen : payload.length ≤ 2 ^ 30) :
    ∃ data, encodeSnapshot s = .ok data ∧
      (s.Storable → decodeSnapshot data = .ok s.stored) ∧
      (¬ s.Storable → ∃ e, decodeSnapshot data = .error e) := by
  have hdata : encodeSnapshot s = envelope payload := by rw [encodeSnapshot, h]; rfl
  refine ⟨_, hdata.trans (envelope_eq payload), ?_⟩
  rw [decodeSnapshot_of_envelope hlen (envelope_eq payload)]
  exact decodePayload_encodePayload h hlen

/-! ### Exact snapshots

    A snapshot of doubles is stored as it is, and one with short strings can be encoded. -/

/-- All the numbers are doubles. -/
def AllDouble (l : List ℚ) : Prop := ∀ q ∈ l, Double.IsDouble q

theorem AllDouble.finite {l : List ℚ} (h : AllDouble l) : AllFinite l := fun q hq =>
  (h q hq).finite

theorem Capacity.stored_eq {c : Capacity} (h : Double.IsDouble c.value) : c.stored = c := by
  cases c
  simp only [stored, mk.injEq]
  exact h.round

theorem PolicyConfig.stored_eq {p : PolicyConfig} (h : AllDouble p.numbers) : p.stored = p := by
  simp only [AllDouble, numbers, List.forall_mem_cons] at h
  obtain ⟨h₁, h₂, h₃, h₄, h₅, h₆, h₇, h₈, h₉, h₁₀, h₁₁, -⟩ := h
  rw [stored, h₁.round, h₂.round, h₃.round, h₄.round, h₅.round, h₆.round, h₇.round, h₈.round,
    h₉.round, h₁₀.round, h₁₁.round]

theorem ResourceSpec.stored_eq {r : ResourceSpec} (h : AllDouble r.rates) : r.stored = r := by
  rw [stored, Capacity.stored_eq (h _ (by simp [rates]))]

theorem FlowSpec.stored_eq {f : FlowSpec} (hn : AllDouble f.numbers) (hr : AllDouble f.rates) :
    f.stored = f := by
  simp only [AllDouble, numbers, rates, List.forall_mem_cons] at hn hr
  obtain ⟨h₁, -⟩ := hn
  obtain ⟨h₂, h₃, h₄, -⟩ := hr
  rw [stored, h₁.round, Capacity.stored_eq h₂, Capacity.stored_eq h₃, Capacity.stored_eq h₄]

theorem FlowSnapshot.stored_eq {f : FlowSnapshot} (hn : AllDouble f.numbers)
    (hr : AllDouble f.rates) : f.stored = f.unassigned := by
  simp only [AllDouble, numbers, rates, List.forall_mem_append, List.forall_mem_cons] at hn hr
  obtain ⟨hspec, h₁, h₂, h₃, -⟩ := hn
  obtain ⟨hspecRates, h₄, -⟩ := hr
  rw [stored, h₁.round, h₂.round, h₃.round, Capacity.stored_eq h₄,
    FlowSpec.stored_eq hspec hspecRates]
  rfl

theorem Reservation.stored_eq {r : Reservation} (h : AllDouble r.rates) : r.stored = r := by
  have hall : ∀ a ∈ r.allocations, ({ a with allocated := a.allocated.stored } :
      ResourceAllocation) = a := fun a ha => by
    rw [Capacity.stored_eq (h _ (List.mem_map_of_mem ha))]
  rw [stored, List.map_congr_left hall, List.map_id']

theorem Accounting.stored_eq {t : IdTag} {a : Accounting t} (h : AllDouble a.numbers) :
    a.stored = a := by
  simp only [AllDouble, numbers, List.forall_mem_cons] at h
  obtain ⟨h₁, h₂, h₃, -⟩ := h
  rw [stored, h₁.round, h₂.round, h₃.round]

theorem ResourceSnapshot.stored_eq {r : ResourceSnapshot} (hn : AllDouble r.numbers)
    (hr : AllDouble r.rates) : r.stored = r := by
  simp only [AllDouble, numbers, rates, List.forall_mem_cons] at hn hr
  obtain ⟨h₁, h₂, h₃, h₄, h₅, h₆, -⟩ := hn
  obtain ⟨c₁, c₂, c₃, c₄, c₅, -⟩ := hr
  rw [stored, h₁.round, h₂.round, h₃.round, h₄.round, h₅.round, h₆.round,
    Capacity.stored_eq c₁, Capacity.stored_eq c₂, Capacity.stored_eq c₃, Capacity.stored_eq c₄,
    Capacity.stored_eq c₅]

/-- Every number of a snapshot is a double, as it is in the program. -/
structure GovernorSnapshot.Doubles (s : GovernorSnapshot) : Prop where
  policy : AllDouble s.policy.numbers
  savedAtMs : Double.IsDouble s.savedAtMs
  resources : ∀ r ∈ s.resources, AllDouble r.rates
  flows : ∀ f ∈ s.flows, AllDouble f.numbers ∧ AllDouble f.rates
  reservations : ∀ r ∈ s.reservations, AllDouble r.rates
  tenants : ∀ a ∈ s.tenants.vals, AllDouble a.numbers
  workloads : ∀ a ∈ s.workloads.vals, AllDouble a.numbers
  resourceState : ∀ r ∈ s.resourceState.vals, AllDouble r.numbers ∧ AllDouble r.rates

/-- The maps of a snapshot are keyed by the ids of their records. -/
structure GovernorSnapshot.Keyed (s : GovernorSnapshot) : Prop where
  tenants : ∀ e ∈ s.tenants.entries, e.2.owner = e.1
  workloads : ∀ e ∈ s.workloads.entries, e.2.owner = e.1
  resourceState : ∀ e ∈ s.resourceState.entries, e.2.id = e.1

theorem map_eq_self {α : Type} {f : α → α} {l : List α} (h : ∀ x ∈ l, f x = x) : l.map f = l :=
  (List.map_congr_left h).trans (List.map_id' l)

/-- A snapshot of doubles is stored as it is, but for its version and the assigned workers. -/
theorem GovernorSnapshot.stored_eq {s : GovernorSnapshot} (hd : s.Doubles) (hk : s.Keyed) :
    s.stored = { s with
      formatVersion := kFormatVersion, flows := s.flows.map FlowSnapshot.unassigned } := by
  have hflows : s.flows.map FlowSnapshot.stored = s.flows.map FlowSnapshot.unassigned :=
    List.map_congr_left fun f hf => FlowSnapshot.stored_eq (hd.flows f hf).1 (hd.flows f hf).2
  have htenants : s.tenants.vals.map Accounting.stored = s.tenants.vals :=
    map_eq_self fun a ha => Accounting.stored_eq (hd.tenants a ha)
  have hworkloads : s.workloads.vals.map Accounting.stored = s.workloads.vals :=
    map_eq_self fun a ha => Accounting.stored_eq (hd.workloads a ha)
  have hstate : s.resourceState.vals.map ResourceSnapshot.stored = s.resourceState.vals :=
    map_eq_self fun r hr =>
      ResourceSnapshot.stored_eq (hd.resourceState r hr).1 (hd.resourceState r hr).2
  have hresources : s.resources.map ResourceSpec.stored = s.resources :=
    map_eq_self fun r hr => ResourceSpec.stored_eq (hd.resources r hr)
  have hreservations : s.reservations.map Reservation.stored = s.reservations :=
    map_eq_self fun r hr => Reservation.stored_eq (hd.reservations r hr)
  rw [stored, hflows, htenants, hworkloads, hstate, hresources, hreservations,
    PolicyConfig.stored_eq hd.policy, hd.savedAtMs.round, Table.ofList_vals hk.tenants,
    Table.ofList_vals hk.workloads, Table.ofList_vals hk.resourceState]

/-- The strings of a snapshot have at most `2^20` bytes. -/
structure GovernorSnapshot.ShortStrings (s : GovernorSnapshot) : Prop where
  resources : ∀ r ∈ s.resources, r.source.length ≤ 2 ^ 20 ∧ r.destination.length ≤ 2 ^ 20
  flows : ∀ f ∈ s.flows, f.spec.source.length ≤ 2 ^ 20 ∧ f.spec.destination.length ≤ 2 ^ 20 ∧
    f.lastError.length ≤ 2 ^ 20
  resourceState : ∀ r ∈ s.resourceState.vals, r.source.length ≤ 2 ^ 20 ∧
    r.destination.length ≤ 2 ^ 20 ∧ r.provenance.length ≤ 2 ^ 20

theorem putStr_ok {s : Str} (h : s.length ≤ 2 ^ 20) : ∃ bs, putStr s = .ok bs := by
  have hmax : kMaxString.toNat = 2 ^ 20 := by decide
  exact ⟨_, if_neg (by omega)⟩

theorem putList_ok {α : Type} {write : α → Sink Error} {l : List α}
    (h : ∀ x ∈ l, ∃ bs, write x = .ok bs) : ∃ bs, putList write l = .ok bs := by
  refine Sink.all_ok ?_
  simp only [List.forall_mem_cons, List.not_mem_nil, false_implies, implies_true, and_true]
  refine ⟨⟨_, rfl⟩, Sink.all_ok fun w hw => ?_⟩
  obtain ⟨x, hx, rfl⟩ := List.mem_map.mp hw
  exact h x hx

theorem putOptId_ok {t : IdTag} (o : Option (Id128 t)) : ∃ bs, putOptId o = .ok bs := by
  cases o <;> exact ⟨_, rfl⟩

theorem writeFlowSpec_ok {f : FlowSpec} (hs : f.source.length ≤ 2 ^ 20)
    (hd : f.destination.length ≤ 2 ^ 20) : ∃ bs, writeFlowSpec f = .ok bs := by
  refine Sink.all_ok ?_
  simp only [List.forall_mem_cons, putStr_ok hs, putStr_ok hd]
  refine ⟨⟨_, rfl⟩, ⟨_, rfl⟩, ⟨_, rfl⟩, ⟨_, rfl⟩, ⟨_, rfl⟩, trivial, trivial, ⟨_, rfl⟩, ⟨_, rfl⟩,
    ⟨_, rfl⟩, ⟨_, rfl⟩, ⟨_, rfl⟩, ⟨_, rfl⟩, ⟨_, rfl⟩, ⟨_, rfl⟩, ⟨_, rfl⟩, ⟨_, rfl⟩, ⟨_, rfl⟩,
    ⟨_, rfl⟩, by simp⟩

theorem sectionBody_ok {s : GovernorSnapshot} (h : s.ShortStrings) (tag : SectionTag) :
    ∃ bs, sectionBody s tag = .ok bs := by
  cases tag with
  | policy => exact ⟨_, rfl⟩
  | coord => exact ⟨_, rfl⟩
  | resources =>
    refine putList_ok fun r hr => Sink.all_ok ?_
    obtain ⟨h₁, h₂⟩ := h.resources r hr
    simp only [List.forall_mem_cons, putStr_ok h₁, putStr_ok h₂]
    exact ⟨⟨_, rfl⟩, ⟨_, rfl⟩, trivial, trivial, ⟨_, rfl⟩, ⟨_, rfl⟩, ⟨_, rfl⟩, ⟨_, rfl⟩, by simp⟩
  | paths =>
    refine putList_ok fun p _ => Sink.all_ok ?_
    obtain ⟨hops, hhops⟩ : ∃ bs, putList writeHop p.hops = .ok bs := putList_ok fun _ _ => ⟨_, rfl⟩
    simp only [List.forall_mem_cons, hhops]
    exact ⟨⟨_, rfl⟩, ⟨_, rfl⟩, ⟨_, rfl⟩, by simp⟩
  | flows =>
    refine putList_ok fun f hf => Sink.all_ok ?_
    obtain ⟨h₁, h₂, h₃⟩ := h.flows f hf
    simp only [List.forall_mem_cons, writeFlowSpec_ok h₁ h₂, putStr_ok h₃, putOptId_ok]
    exact ⟨trivial, ⟨_, rfl⟩, ⟨_, rfl⟩, ⟨_, rfl⟩, ⟨_, rfl⟩, ⟨_, rfl⟩, ⟨_, rfl⟩, ⟨_, rfl⟩, ⟨_, rfl⟩,
      trivial, trivial, by simp⟩
  | reservations =>
    refine putList_ok fun r _ => Sink.all_ok ?_
    obtain ⟨l, hl⟩ : ∃ bs, putList writeResourceAllocation r.allocations = .ok bs :=
      putList_ok fun _ _ => ⟨_, rfl⟩
    simp only [List.forall_mem_cons, hl]
    exact ⟨⟨_, rfl⟩, ⟨_, rfl⟩, ⟨_, rfl⟩, ⟨_, rfl⟩, ⟨_, rfl⟩, ⟨_, rfl⟩, ⟨_, rfl⟩, ⟨_, rfl⟩, ⟨_, rfl⟩,
      ⟨_, rfl⟩, by simp⟩
  | tenants => exact putList_ok fun _ _ => ⟨_, rfl⟩
  | workloads => exact putList_ok fun _ _ => ⟨_, rfl⟩
  | resourceState =>
    refine putList_ok fun r hr => Sink.all_ok ?_
    obtain ⟨h₁, h₂, h₃⟩ := h.resourceState r hr
    simp only [List.forall_mem_cons, putStr_ok h₁, putStr_ok h₂, putStr_ok h₃]
    exact ⟨⟨_, rfl⟩, ⟨_, rfl⟩, trivial, trivial, ⟨_, rfl⟩, ⟨_, rfl⟩, ⟨_, rfl⟩, ⟨_, rfl⟩, ⟨_, rfl⟩,
      ⟨_, rfl⟩, ⟨_, rfl⟩, ⟨_, rfl⟩, ⟨_, rfl⟩, ⟨_, rfl⟩, ⟨_, rfl⟩, ⟨_, rfl⟩, trivial, ⟨_, rfl⟩,
      ⟨_, rfl⟩, ⟨_, rfl⟩, ⟨_, rfl⟩, ⟨_, rfl⟩, by simp⟩

theorem encodePayload_ok {s : GovernorSnapshot} (h : s.ShortStrings) :
    ∃ payload, encodePayload s = .ok payload := by
  refine Sink.all_ok fun w hw => ?_
  obtain ⟨tag, -, rfl⟩ := List.mem_map.mp hw
  obtain ⟨body, hbody⟩ := sectionBody_ok h tag
  rw [hbody]
  exact ⟨_, rfl⟩

/-- Encoding and decoding a snapshot gives it back, but for the format version, which is always the
    current one, and the assigned workers, which the format does not carry. -/
theorem snapshot_round_trip {s : GovernorSnapshot} (hdoubles : s.Doubles) (hok : s.Storable)
    (hstr : s.ShortStrings) (hkeyed : s.Keyed)
    (hlen : ∀ payload, encodePayload s = .ok payload → payload.length ≤ 2 ^ 30) :
    ∃ data, encodeSnapshot s = .ok data ∧ decodeSnapshot data = .ok { s with
      formatVersion := kFormatVersion, flows := s.flows.map FlowSnapshot.unassigned } := by
  obtain ⟨payload, hp⟩ := encodePayload_ok hstr
  obtain ⟨data, hdata, hread, -⟩ := decodeSnapshot_encodeSnapshot hp (hlen payload hp)
  rw [GovernorSnapshot.stored_eq hdoubles hkeyed] at hread
  exact ⟨data, hdata, hread hok⟩

namespace Sample

/-- A snapshot under version 2 with a link, a path, a Running flow with its worker, and its
    reservation. -/
def snapshot : GovernorSnapshot :=
  { GovernorSnapshot.blank 2 with
    resources := [link 1 100], paths := [path 1 [1]]
    flows := [
      { spec := flow 1 1 40 80 100, state := .named .running, granted := rate 80,
        admittedMs := 1 / 2
        lastUpdateMs := 3, bytesTransferred := 5, burstRemaining := 0, retryCount := 0
        starvationMs := 0, reservation := some ⟨0, 9⟩, assignedWorker := some ⟨0, 1⟩
        assignedBoot := ⟨0, 1⟩, lastError := ascii "worker lost" }]
    reservations := [
      { id := ⟨0, 9⟩, flow := ⟨0, 1⟩, attempt := ⟨0, 1⟩, flowGeneration := ⟨0, 1⟩, path := ⟨0, 1⟩
        allocations := [⟨⟨0, 1⟩, rate 80⟩], epoch := ⟨0, 1⟩, capacityGeneration := ⟨0, 1⟩
        state := .named .active }]
    tenants := .ofList Accounting.owner id [⟨⟨0, 1⟩, { servedBytes := 10, submitted := 1 }⟩] }

theorem snapshot_doubles : snapshot.Doubles where
  policy := by unfold AllDouble; decide +kernel
  savedAtMs := by decide +kernel
  resources := by unfold AllDouble; decide +kernel
  flows := by unfold AllDouble; decide +kernel
  reservations := by unfold AllDouble; decide +kernel
  tenants := by unfold AllDouble; decide +kernel
  workloads := by intro a ha; cases ha
  resourceState := by intro a ha; cases ha

theorem snapshot_storable : snapshot.Storable := by
  intro tag
  have hd := snapshot_doubles
  cases tag with
  | policy => exact hd.policy.finite
  | coord => exact hd.savedAtMs.finite
  | resources => exact ⟨by decide, by decide, by decide⟩
  | paths => exact ⟨by decide, by decide, by decide⟩
  | flows =>
    exact ⟨by decide, fun f hf => ⟨by revert f; decide, (hd.flows f hf).1.finite⟩, by decide⟩
  | reservations => exact ⟨by decide, by unfold Reservation.Storable; decide, by decide⟩
  | tenants => exact ⟨by decide, fun a ha => (hd.tenants a ha).finite⟩
  | workloads => exact ⟨by decide, fun a ha => (hd.workloads a ha).finite⟩
  | resourceState => exact ⟨by decide, fun a ha => by cases ha⟩

theorem snapshot_shortStrings : snapshot.ShortStrings where
  resources := by decide +kernel
  flows := by decide +kernel
  resourceState := by intro a ha; cases ha

theorem snapshot_keyed : snapshot.Keyed where
  tenants := by decide
  workloads := by intro a ha; cases ha
  resourceState := by intro a ha; cases ha

theorem snapshot_payload (payload : Bytes)
    (h : encodePayload snapshot = .ok payload) : payload.length ≤ 2 ^ 30 := by
  have hlen : ∀ n ∈ (encodePayload snapshot).toOption.map List.length, n ≤ 1024 := by
    decide +kernel
  have := hlen payload.length (by simp [h, Except.toOption])
  omega

end Sample

/-- The theorem at a small snapshot. -/
theorem snapshot_round_trip_sample : ∃ data, encodeSnapshot Sample.snapshot = .ok data ∧
    decodeSnapshot data = .ok { Sample.snapshot with
      formatVersion := 1, flows := Sample.snapshot.flows.map FlowSnapshot.unassigned } :=
  snapshot_round_trip Sample.snapshot_doubles Sample.snapshot_storable
    Sample.snapshot_shortStrings Sample.snapshot_keyed Sample.snapshot_payload

/-- The format version is not carried: a snapshot of version 2 comes back as version 1. -/
theorem snapshot_version_lost : Sample.snapshot.Doubles ∧ Sample.snapshot.Storable ∧
    Sample.snapshot.ShortStrings ∧ Sample.snapshot.Keyed ∧
    ∃ data s, encodeSnapshot Sample.snapshot = .ok data ∧ decodeSnapshot data = .ok s ∧
      s.formatVersion ≠ Sample.snapshot.formatVersion := by
  obtain ⟨payload, hp⟩ := encodePayload_ok Sample.snapshot_shortStrings
  obtain ⟨data, hdata, hread, -⟩ :=
    decodeSnapshot_encodeSnapshot hp (Sample.snapshot_payload payload hp)
  refine ⟨Sample.snapshot_doubles, Sample.snapshot_storable, Sample.snapshot_shortStrings,
    Sample.snapshot_keyed, data, _, hdata, hread Sample.snapshot_storable, ?_⟩
  decide

end BG
