import Mathlib
import BandwidthGovernor.Lib.Layout
import BandwidthGovernor.Transport.Framing

/-! The wire readers and the persistence readers of one layout.

    They read the same fields in the same order; the persistence readers also check the enumerators
    and the number of allocations. `ResourceLayout`, `FlowLayout` and `ReservationLayout` describe
    the bytes of a complete record and expose the words that only one side checks. -/

namespace BG

open Lib

/-! ### Fields -/

/-- A 64-bit word as a sink writes it. -/
def u64Bytes (v : UInt64) : Bytes := leBytes 8 v.toNat

/-- An identity as a sink writes it. -/
def idBytes {t : IdTag} (v : Id128 t) : Bytes := u64Bytes v.hi ++ u64Bytes v.lo

/-- A string with its length in front. -/
def strBytes (s : Str) : Bytes := u32Bytes (UInt32.ofNat s.length) ++ s

theorem getU8_iff {v : UInt8} {s s' : Bytes} : getU8.run s = .ok (v, s') ↔ s = v :: s' := by
  rw [getU8, run_map_iff]
  constructor
  · rintro ⟨n, hn, rfl⟩
    obtain ⟨rfl, -⟩ := getLE_iff.mp hn
    rfl
  · rintro rfl
    refine ⟨v.toNat, getLE_iff.mpr ⟨?_, v.toNat_lt⟩, UInt8.ofNat_toNat.symm⟩
    rw [leBytes, leBytes, UInt8.ofNat_toNat]
    rfl

theorem getU32_iff {v : UInt32} {s s' : Bytes} :
    getU32.run s = .ok (v, s') ↔ s = u32Bytes v ++ s' := by
  rw [getU32, run_map_iff]
  constructor
  · rintro ⟨n, hn, rfl⟩
    obtain ⟨rfl, hlt⟩ := getLE_iff.mp hn
    rw [u32Bytes, u32_ofNat_toNat hlt]
  · rintro rfl
    exact ⟨v.toNat, getLE_iff.mpr ⟨rfl, v.toNat_lt⟩, UInt32.ofNat_toNat.symm⟩

theorem getU64_iff {v : UInt64} {s s' : Bytes} :
    getU64.run s = .ok (v, s') ↔ s = u64Bytes v ++ s' := by
  rw [getU64, run_map_iff]
  constructor
  · rintro ⟨n, hn, rfl⟩
    obtain ⟨rfl, hlt⟩ := getLE_iff.mp hn
    rw [u64Bytes, UInt64.toNat_ofNat', Nat.mod_eq_of_lt (show n < 2 ^ 64 from hlt)]
  · rintro rfl
    exact ⟨v.toNat, getLE_iff.mpr ⟨rfl, v.toNat_lt⟩, UInt64.ofNat_toNat.symm⟩

theorem getI64_iff {v : Int64} {s s' : Bytes} :
    getI64.run s = .ok (v, s') ↔ s = u64Bytes v.toUInt64 ++ s' := by
  rw [getI64, run_map_iff]
  constructor
  · rintro ⟨w, hw, rfl⟩
    rw [getU64_iff.mp hw, UInt64.toUInt64_toInt64]
  · rintro rfl
    exact ⟨v.toUInt64, getU64_iff.mpr rfl, (Int64.toInt64_toUInt64 v).symm⟩

theorem getId_iff {t : IdTag} {v : Id128 t} {s s' : Bytes} :
    getId.run s = .ok (v, s') ↔ s = idBytes v ++ s' := by
  simp only [getId, run_bind_iff, getU64_iff, run_pure_iff]
  constructor
  · rintro ⟨h, s₁, rfl, l, s₂, rfl, rfl, rfl⟩
    rw [idBytes, List.append_assoc]
  · rintro rfl
    exact ⟨v.hi, u64Bytes v.lo ++ s', by rw [idBytes, List.append_assoc], v.lo, s', rfl, rfl, rfl⟩

theorem getBool_iff {v : Bool} {s s' : Bytes} :
    getBool.run s = .ok (v, s') ↔ ∃ b : UInt8, s = b :: s' ∧ v = decide (b ≠ 0) := by
  rw [getBool, run_map_iff]
  simp only [getU8_iff]

theorem getStr_iff {v : Str} {s s' : Bytes} :
    getStr.run s = .ok (v, s') ↔ s = strBytes v ++ s' ∧ v.length ≤ 2 ^ 20 := by
  have hmax : kMaxString.toNat = 2 ^ 20 := by decide
  simp only [getStr, run_bind_iff, getU32_iff]
  constructor
  · rintro ⟨n, s₁, rfl, ⟨⟩, s₂, hreq, hb⟩
    have hn : n ≤ kMaxString ∧ s₂ = s₁ := by
      by_cases hle : n ≤ kMaxString
      · rw [run_require_true (decide_eq_true hle)] at hreq
        cases hreq
        exact ⟨hle, rfl⟩
      · rw [run_require_false (by simpa using hle)] at hreq
        cases hreq
    obtain ⟨hn, rfl⟩ := hn
    obtain ⟨rfl, hlen⟩ := getBytes_iff.mp hb
    rw [UInt32.le_iff_toNat_le, hmax] at hn
    rw [strBytes, hlen, UInt32.ofNat_toNat, List.append_assoc]
    exact ⟨rfl, hn⟩
  · rintro ⟨rfl, hle⟩
    have hn : (UInt32.ofNat v.length).toNat = v.length := u32_ofNat_toNat (by omega)
    have hok : UInt32.ofNat v.length ≤ kMaxString := by
      rw [UInt32.le_iff_toNat_le, hn, hmax]
      exact hle
    exact ⟨UInt32.ofNat v.length, v ++ s', by rw [strBytes, List.append_assoc], (), v ++ s',
      run_require_true (decide_eq_true hok) _ _, getBytes_iff.mpr ⟨rfl, hn.symm⟩⟩

theorem getF64_iff {v : ℚ} {s s' : Bytes} : getF64.run s = .ok (v, s') ↔
    ∃ bits, s = u64Bytes bits ++ s' ∧ Double.toRat? bits = some v := by
  simp only [getF64, run_bind_iff, getU64_iff]
  constructor
  · rintro ⟨bits, s₁, rfl, h⟩
    cases hb : Double.toRat? bits with
    | none =>
      simp only [hb] at h
      cases h
    | some q =>
      simp only [hb] at h
      obtain ⟨rfl, rfl⟩ := run_pure_iff.mp h
      exact ⟨bits, rfl, hb⟩
  · rintro ⟨bits, rfl, hb⟩
    refine ⟨bits, s', rfl, ?_⟩
    simp only [hb]
    rfl

theorem getCapacity_iff {c : Capacity} {s s' : Bytes} : getCapacity.run s = .ok (c, s') ↔
    ∃ bits, s = u64Bytes bits ++ s' ∧ Double.toRat? bits = some c.value := by
  simp only [getCapacity, run_bind_iff, getF64_iff]
  constructor
  · rintro ⟨q, s₁, ⟨bits, rfl, hb⟩, h⟩
    cases hm : Capacity.make q with
    | error e =>
      rw [hm] at h
      cases h
    | ok c' =>
      rw [hm] at h
      cases h
      have hval : c.value = q := by
        unfold Capacity.make at hm
        split at hm
        · cases hm
          rfl
        · cases hm
      exact ⟨bits, rfl, hval ▸ hb⟩
  · rintro ⟨bits, rfl, hb⟩
    refine ⟨c.value, s', ⟨bits, rfl, hb⟩, ?_⟩
    rw [Capacity.make_value]
    rfl

theorem getCode_iff {E : Type} [Enumerators E] {c : Coded E} {s s' : Bytes} :
    getCode.run s = .ok (c, s') ↔ ∃ w : UInt32, s = u32Bytes w ++ s' ∧ c = Coded.ofCode w := by
  rw [getCode, run_map_iff]
  simp only [getU32_iff]

theorem getMany_length {α : Type} {r : Source α} {n : ℕ} {l : List α} {s s' : Bytes}
    (h : (getMany r n).run s = .ok (l, s')) : l.length = n := by
  induction n generalizing l s s' with
  | zero =>
    obtain ⟨rfl, -⟩ := run_pure_iff.mp h
    rfl
  | succ n ih =>
    obtain ⟨x, s₁, -, h⟩ := run_bind_iff.mp h
    obtain ⟨xs, s₂, hxs, h⟩ := run_bind_iff.mp h
    obtain ⟨rfl, -⟩ := run_pure_iff.mp h
    rw [List.length_cons, ih hxs]

theorem Coded.inRange_ofCode {E : Type} [Enumerators E] {last : UInt32} (h : Enumerated E last)
    (w : UInt32) : (ofCode w : Coded E).inRange = true ↔ w ≤ last := by
  rw [UInt32.le_iff_toNat_le, ← Nat.lt_succ_iff, Nat.succ_eq_add_one, ← h.length]
  unfold ofCode
  split
  next hlt => exact iff_of_true rfl hlt
  next hge => exact iff_of_false (by simp [inRange]) hge

/-! ### What only the persistence readers check -/

theorem checks_code {E : Type} [Enumerators E] {last : UInt32}
    (h : Enumerated E last) (e : Error) :
    Checks (fun c : Coded E => c.inRange = true) (getChecked last e) getCode := by
  intro s c s'
  rw [getCode_iff]
  simp only [getChecked, run_bind_iff, getU32_iff, run_pure_iff]
  constructor
  · rintro ⟨w, s₁, rfl, ⟨⟩, s₂, hreq, rfl, rfl⟩
    by_cases hle : w ≤ last
    · rw [run_require_true (decide_eq_true hle)] at hreq
      cases hreq
      exact ⟨⟨w, rfl, rfl⟩, (Coded.inRange_ofCode h w).mpr hle⟩
    · rw [run_require_false (by simpa using hle)] at hreq
      cases hreq
  · rintro ⟨⟨w, rfl, rfl⟩, hin⟩
    have hle := (Coded.inRange_ofCode h w).mp hin
    exact ⟨w, s', rfl, (), s', run_require_true (decide_eq_true hle) _ _, rfl, rfl⟩

theorem checks_list {α : Type} (read : Source α) (bound : UInt32) (e : Error) :
    Checks (fun l => l.length ≤ bound.toNat) (getList read bound e) (getCounted read) := by
  intro s l s'
  simp only [getList, getCounted, run_bind_iff]
  constructor
  · rintro ⟨n, s₁, hn, ⟨⟩, s₂, hreq, hl⟩
    by_cases hle : n ≤ bound
    · rw [run_require_true (decide_eq_true hle)] at hreq
      cases hreq
      rw [getMany_length hl]
      exact ⟨⟨n, s₁, hn, hl⟩, UInt32.le_iff_toNat_le.mp hle⟩
    · rw [run_require_false (by simpa using hle)] at hreq
      cases hreq
  · rintro ⟨⟨n, s₁, hn, hl⟩, hle⟩
    rw [getMany_length hl, ← UInt32.le_iff_toNat_le] at hle
    exact ⟨n, s₁, hn, (), s₁, run_require_true (decide_eq_true hle) _ _, hl⟩

theorem checks_resourceSpec :
    Checks (fun r => r.cls.inRange = true ∧ r.direction.inRange = true ∧ True) readResourceSpec
      rRes := by
  refine .same fun id => .field ResourceSpec.cls (checks_code enumerated_resourceClass _)
    (fun cls => .same fun src => .same fun dst => .field ResourceSpec.direction
      (checks_code enumerated_directionality _) (fun dir => .refl _) fun dir => ?_) fun cls => ?_
  · exact .bind fun _ => .bind fun _ => .bind fun _ => .pure rfl
  · exact .bind fun _ => .bind fun _ => .bind fun _ => .bind fun _ => .bind fun _ => .bind fun _ =>
      .pure rfl

theorem checks_flowSpec :
    Checks (fun f => f.direction.inRange = true ∧ f.latencyClass.inRange = true ∧ True)
      readFlowSpec rSpec := by
  refine .same fun id => .same fun tenant => .same fun workload => .same fun attempt =>
    .same fun generation => .same fun src => .same fun dst => .same fun path => .same fun bytes =>
    .field FlowSpec.direction (checks_code enumerated_directionality _)
      (fun dir => .same fun prio =>
      .field FlowSpec.latencyClass (checks_code enumerated_latencyClass _) (fun lat => .refl _)
        fun lat => ?_) fun dir => ?_
  · exact .bind fun _ => .bind fun _ => .bind fun _ => .bind fun _ => .bind fun _ => .bind fun _ =>
      .bind fun _ => .pure rfl
  · exact .bind fun _ => .bind fun _ => .bind fun _ => .bind fun _ => .bind fun _ => .bind fun _ =>
      .bind fun _ => .bind fun _ => .bind fun _ => .pure rfl

theorem checks_reservation :
    Checks (fun r => r.allocations.length ≤ 256 ∧ r.state.inRange = true ∧ True) readReservation
      rReservation := by
  refine .same fun id => .same fun flow => .same fun attempt => .same fun generation =>
    .same fun path => .field Reservation.allocations (checks_list rResAlloc 256 _)
      (fun allocs => .same fun epoch => .same fun boot => .same fun capGen =>
        .field Reservation.state (checks_code enumerated_reservationState _) (fun st => .refl _)
          fun st => .pure rfl) fun allocs => ?_
  exact .bind fun _ => .bind fun _ => .bind fun _ => .bind fun _ => .pure rfl

/-! ### The records as bytes -/

/-- A word that `Capacity::make` accepts as a rate. -/
def RateWord (bits : UInt64) : Prop := ∃ c : Capacity, Double.toRat? bits = some c.value

/-- A string the sources take: its length within `kMaxString`. -/
def ShortStr (s : Str) : Prop := s.length ≤ 2 ^ 20

/-- The bytes begin with a resource record whose class and direction words are these. -/
def ResourceLayout (b : Bytes) (cls dir : UInt32) : Prop :=
  ∃ (id : ResourceId) (src dst : Str) (nominal : UInt64) (generation : CapacityGeneration)
    (enabled : UInt8) (rest : Bytes), ShortStr src ∧ ShortStr dst ∧ RateWord nominal ∧
    b = idBytes id ++ (u32Bytes cls ++ (strBytes src ++ (strBytes dst ++ (u32Bytes dir ++
      (u64Bytes nominal ++ (idBytes generation ++ enabled :: rest))))))

/-- The bytes begin with a flow record whose direction and latency words are these. -/
def FlowLayout (b : Bytes) (dir lat : UInt32) : Prop :=
  ∃ (id : FlowId) (tenant : TenantId) (workload : WorkloadId) (attempt : AttemptId)
    (generation : FlowGeneration) (src dst : Str) (path : PathId)
    (bytes prio deadline lo mid hi burst : UInt64) (preemptible resumable : UInt8) (rest : Bytes),
    ShortStr src ∧ ShortStr dst ∧ (Double.toRat? deadline).isSome ∧ RateWord lo ∧ RateWord mid ∧
    RateWord hi ∧
    b = idBytes id ++ (idBytes tenant ++ (idBytes workload ++ (idBytes attempt ++
      (idBytes generation ++ (strBytes src ++ (strBytes dst ++ (idBytes path ++ (u64Bytes bytes ++
      (u32Bytes dir ++ (u64Bytes prio ++ (u32Bytes lat ++ (u64Bytes deadline ++ (u64Bytes lo ++
      (u64Bytes mid ++ (u64Bytes hi ++ (u64Bytes burst ++
        preemptible :: resumable :: rest))))))))))))))))

/-- A resource and its rate, as one entry of a reservation. -/
def entryBytes (w : ResourceId × UInt64) : Bytes := idBytes w.1 ++ u64Bytes w.2

/-- The bytes begin with a reservation record whose count and state words are these. -/
def ReservationLayout (b : Bytes) (n st : UInt32) : Prop :=
  ∃ (id : ReservationId) (flow : FlowId) (attempt : AttemptId) (generation : FlowGeneration)
    (path : PathId) (entries : List (ResourceId × UInt64)) (epoch : CoordinatorEpoch)
    (boot : WorkerBootId) (capGen : CapacityGeneration) (rest : Bytes),
    entries.length = n.toNat ∧ (∀ w ∈ entries, RateWord w.2) ∧
    b = idBytes id ++ (idBytes flow ++ (idBytes attempt ++ (idBytes generation ++ (idBytes path ++
      (u32Bytes n ++ (entries.flatMap entryBytes ++ (idBytes epoch ++ (idBytes boot ++
      (idBytes capGen ++ (u32Bytes st ++ rest))))))))))

theorem rRes_of_layout {b : Bytes} {cls dir : UInt32} (h : ResourceLayout b cls dir) :
    ∃ r s', rRes.run b = .ok (r, s') ∧ r.cls = .ofCode cls ∧ r.direction = .ofCode dir := by
  obtain ⟨id, src, dst, nominal, generation, enabled, rest, hsrc, hdst, ⟨c, hc⟩, rfl⟩ := h
  refine ⟨⟨id, .ofCode cls, src, dst, .ofCode dir, c, generation, decide (enabled ≠ 0)⟩, rest, ?_,
    rfl, rfl⟩
  simp only [rRes, run_bind_iff, getId_iff, getCode_iff, getStr_iff, getCapacity_iff, getBool_iff,
    run_pure_iff]
  exact ⟨_, _, rfl, _, _, ⟨_, rfl, rfl⟩, _, _, ⟨rfl, hsrc⟩, _, _, ⟨rfl, hdst⟩, _, _, ⟨_, rfl, rfl⟩,
    _, _, ⟨_, rfl, hc⟩, _, _, rfl, _, _, ⟨_, rfl, rfl⟩, rfl, rfl⟩

theorem layout_of_rRes {b s' : Bytes} {r : ResourceSpec} (h : rRes.run b = .ok (r, s')) :
    ∃ cls dir, ResourceLayout b cls dir ∧ r.cls = .ofCode cls ∧ r.direction = .ofCode dir := by
  simp only [rRes, run_bind_iff, getId_iff, getCode_iff, getStr_iff, getCapacity_iff, getBool_iff,
    run_pure_iff] at h
  obtain ⟨id, _, rfl, _, _, ⟨cls, rfl, rfl⟩, src, _, ⟨rfl, hsrc⟩, dst, _, ⟨rfl, hdst⟩,
    _, _, ⟨dir, rfl, rfl⟩, c, _, ⟨nominal, rfl, hc⟩, generation, _, rfl, _, _, ⟨enabled, rfl, rfl⟩,
    rfl, rfl⟩ := h
  exact ⟨cls, dir, ⟨id, src, dst, nominal, generation, enabled, _, hsrc, hdst, ⟨c, hc⟩, rfl⟩, rfl,
    rfl⟩

/-- The words of a flow record. -/
structure FlowWords where
  id : FlowId
  tenant : TenantId
  workload : WorkloadId
  attempt : AttemptId
  generation : FlowGeneration
  src : Str
  dst : Str
  path : PathId
  bytes : UInt64
  dir : UInt32
  prio : UInt64
  lat : UInt32
  deadline : UInt64
  lo : UInt64
  mid : UInt64
  hi : UInt64
  burst : UInt64
  preemptible : UInt8
  resumable : UInt8

namespace FlowWords

/-- What the wire reader asks of the words. -/
structure Fit (w : FlowWords) : Prop where
  src : ShortStr w.src
  dst : ShortStr w.dst
  deadline : (Double.toRat? w.deadline).isSome
  lo : RateWord w.lo
  mid : RateWord w.mid
  hi : RateWord w.hi

def encode (w : FlowWords) : Bytes :=
  idBytes w.id ++ (idBytes w.tenant ++ (idBytes w.workload ++ (idBytes w.attempt ++
    (idBytes w.generation ++ (strBytes w.src ++ (strBytes w.dst ++ (idBytes w.path ++
    (u64Bytes w.bytes ++ (u32Bytes w.dir ++ (u64Bytes w.prio ++ (u32Bytes w.lat ++
    (u64Bytes w.deadline ++ (u64Bytes w.lo ++ (u64Bytes w.mid ++ (u64Bytes w.hi ++
    (u64Bytes w.burst ++ [w.preemptible, w.resumable]))))))))))))))))

/-- The words are those of the spec. -/
structure Spells (f : FlowSpec) (w : FlowWords) : Prop where
  id : f.id = w.id
  tenant : f.tenant = w.tenant
  attempt : f.attempt = w.attempt
  generation : f.generation = w.generation
  bytes : f.byteCount = w.bytes
  dir : f.direction = .ofCode w.dir
  lat : f.latencyClass = .ofCode w.lat
  deadline : Double.toRat? w.deadline = some f.deadlineSeconds
  lo : Double.toRat? w.lo = some f.requestedMin.value
  mid : Double.toRat? w.mid = some f.requestedPreferred.value
  hi : Double.toRat? w.hi = some f.requestedMax.value

/-- A flow record, to its last byte. -/
def Lay (w : FlowWords) (b : Bytes) : Prop := w.Fit ∧ b = w.encode

end FlowWords

theorem lays_rSpec : Lays FlowWords.Lay FlowWords.Spells rSpec where
  sound := by
    intro s f s' h
    simp only [rSpec, run_bind_iff, getId_iff, getCode_iff, getStr_iff, getCapacity_iff,
      getBool_iff,
      getU64_iff, getI64_iff, getF64_iff, run_pure_iff] at h
    obtain ⟨id, _, rfl, tenant, _, rfl, workload, _, rfl, attempt, _, rfl, generation, _, rfl, src,
      _, ⟨rfl, hsrc⟩, dst, _, ⟨rfl, hdst⟩, path, _, rfl, bytes, _, rfl, _, _, ⟨dir, rfl, rfl⟩, prio,
      _, rfl, _, _, ⟨lat, rfl, rfl⟩, q, _, ⟨deadline, rfl, hq⟩, c₁, _, ⟨lo, rfl, h₁⟩, c₂, _,
      ⟨mid, rfl, h₂⟩, c₃, _, ⟨hi, rfl, h₃⟩, burst, _, rfl, _, _, ⟨preemptible, rfl, rfl⟩, _, _,
      ⟨resumable, rfl, rfl⟩, rfl, rfl⟩ := h
    refine ⟨⟨id, tenant, workload, attempt, generation, src, dst, path, bytes, dir, prio.toUInt64,
      lat, deadline, lo, mid, hi, burst, preemptible, resumable⟩, _, ?_,
      ⟨⟨hsrc, hdst, Option.isSome_iff_exists.mpr ⟨q, hq⟩, ⟨c₁, h₁⟩, ⟨c₂, h₂⟩, ⟨c₃, h₃⟩⟩, rfl⟩,
      ⟨rfl, rfl, rfl, rfl, rfl, rfl, rfl, hq, h₁, h₂, h₃⟩⟩
    simp only [FlowWords.encode, List.append_assoc, List.cons_append, List.nil_append]
  complete := by
    rintro w _ s' ⟨⟨hsrc, hdst, hq, ⟨c₁, h₁⟩, ⟨c₂, h₂⟩, ⟨c₃, h₃⟩⟩, rfl⟩
    obtain ⟨q, hq⟩ := Option.isSome_iff_exists.mp hq
    refine ⟨⟨w.id, w.tenant, w.workload, w.attempt, w.generation, w.src, w.dst, w.path, w.bytes,
      .ofCode w.dir, w.prio.toInt64.toInt32, .ofCode w.lat, q, c₁, c₂, c₃, w.burst,
      decide (w.preemptible ≠ 0), decide (w.resumable ≠ 0)⟩, ?_,
      ⟨rfl, rfl, rfl, rfl, rfl, rfl, rfl, hq, h₁, h₂, h₃⟩⟩
    simp only [FlowWords.encode, List.append_assoc, List.cons_append, List.nil_append, rSpec,
      run_bind_iff, getId_iff, getCode_iff, getStr_iff, getCapacity_iff, getBool_iff, getU64_iff,
      getI64_iff, getF64_iff, run_pure_iff]
    exact ⟨_, _, rfl, _, _, rfl, _, _, rfl, _, _, rfl, _, _, rfl, _, _, ⟨rfl, hsrc⟩, _, _,
      ⟨rfl, hdst⟩, _, _, rfl, _, _, rfl, _, _, ⟨_, rfl, rfl⟩, w.prio.toInt64, _,
      by rw [UInt64.toUInt64_toInt64], _, _, ⟨_, rfl, rfl⟩, _, _, ⟨_, rfl, hq⟩, _, _, ⟨_, rfl, h₁⟩,
      _, _, ⟨_, rfl, h₂⟩, _, _, ⟨_, rfl, h₃⟩, _, _, rfl, _, _, ⟨_, rfl, rfl⟩, _, _, ⟨_, rfl, rfl⟩,
      rfl, rfl⟩

/-- `FlowLayout` by the words. -/
theorem flowLayout_iff {b : Bytes} {dir lat : UInt32} : FlowLayout b dir lat ↔
    ∃ w rest, FlowWords.Fit w ∧ w.dir = dir ∧ w.lat = lat ∧ b = w.encode ++ rest := by
  constructor
  · rintro
      ⟨id, tenant, workload, attempt, generation, src, dst, path, bytes, prio, deadline, lo, mid,
      hi, burst, preemptible, resumable, rest, hsrc, hdst, hq, h₁, h₂, h₃, rfl⟩
    refine ⟨⟨id, tenant, workload, attempt, generation, src, dst, path, bytes, dir, prio, lat,
      deadline, lo, mid, hi, burst, preemptible, resumable⟩, rest,
        ⟨hsrc, hdst, hq, h₁, h₂, h₃⟩, rfl,
      rfl, ?_⟩
    simp only [FlowWords.encode, List.append_assoc, List.cons_append, List.nil_append]
  · rintro ⟨w, rest, ⟨hsrc, hdst, hq, h₁, h₂, h₃⟩, rfl, rfl, rfl⟩
    refine ⟨w.id, w.tenant, w.workload, w.attempt, w.generation, w.src, w.dst, w.path, w.bytes,
      w.prio, w.deadline, w.lo, w.mid, w.hi, w.burst, w.preemptible, w.resumable, rest, hsrc, hdst,
      hq, h₁, h₂, h₃, ?_⟩
    simp only [FlowWords.encode, List.append_assoc, List.cons_append, List.nil_append]

theorem rSpec_of_layout {b : Bytes} {dir lat : UInt32} (h : FlowLayout b dir lat) :
    ∃ f s', rSpec.run b = .ok (f, s') ∧ f.direction = .ofCode dir ∧
      f.latencyClass = .ofCode lat := by
  obtain ⟨w, rest, hfit, rfl, rfl, rfl⟩ := flowLayout_iff.mp h
  obtain ⟨f, hf, hspell⟩ := lays_rSpec.complete rest ⟨hfit, rfl⟩
  exact ⟨f, rest, hf, hspell.dir, hspell.lat⟩

theorem layout_of_rSpec {b s' : Bytes} {f : FlowSpec} (h : rSpec.run b = .ok (f, s')) :
    ∃ dir lat, FlowLayout b dir lat ∧ f.direction = .ofCode dir ∧
      f.latencyClass = .ofCode lat := by
  obtain ⟨w, _, rfl, ⟨hfit, rfl⟩, hspell⟩ := lays_rSpec.sound h
  exact ⟨w.dir, w.lat, flowLayout_iff.mpr ⟨w, s', hfit, rfl, rfl, rfl⟩, hspell.dir, hspell.lat⟩

/-- The entries of a reservation, read one by one. -/
theorem rResAlloc_many_iff {n : ℕ} {s s' : Bytes} :
    (∃ l, (getMany rResAlloc n).run s = .ok (l, s')) ↔
      ∃ entries : List (ResourceId × UInt64), entries.length = n ∧ (∀ w ∈ entries, RateWord w.2) ∧
        s = entries.flatMap entryBytes ++ s' := by
  induction n generalizing s with
  | zero =>
    simp only [getMany, run_pure_iff, List.length_eq_zero_iff]
    constructor
    · rintro ⟨l, rfl, rfl⟩
      exact ⟨[], rfl, by simp, rfl⟩
    · rintro ⟨_, rfl, -, rfl⟩
      exact ⟨[], rfl, rfl⟩
  | succ n ih =>
    simp only [getMany, run_bind_iff, run_pure_iff, rResAlloc, getId_iff, getCapacity_iff]
    constructor
    · rintro ⟨_, a, s₁, ⟨id, _, rfl, c, _, ⟨bits, rfl, hc⟩, rfl, rfl⟩, xs, _, hxs, rfl, rfl⟩
      obtain ⟨entries, hlen, hrate, rfl⟩ := ih.mp ⟨xs, hxs⟩
      refine ⟨(id, bits) :: entries, by rw [List.length_cons, hlen], ?_, ?_⟩
      · intro w hw
        rcases List.mem_cons.mp hw with rfl | hw
        · exact ⟨c, hc⟩
        · exact hrate w hw
      · simp only [List.flatMap_cons, entryBytes, List.append_assoc]
    · rintro ⟨_ | ⟨⟨id, bits⟩, entries⟩, hlen, hrate, rfl⟩
      · cases hlen
      · obtain ⟨c, hc⟩ := hrate (id, bits) List.mem_cons_self
        obtain ⟨xs, hxs⟩ := ih.mpr ⟨entries, Nat.succ.inj hlen,
          fun w hw => hrate w (List.mem_cons_of_mem _ hw), rfl⟩
        refine
          ⟨⟨id, c⟩ :: xs, ⟨id, c⟩, _, ⟨id, _, ?_, c, _, ⟨bits, rfl, hc⟩, rfl, rfl⟩, xs, s', hxs,
          rfl, rfl⟩
        simp only [List.flatMap_cons, entryBytes, List.append_assoc]

/-- The words of a reservation record. -/
structure ReservationWords where
  id : ReservationId
  flow : FlowId
  attempt : AttemptId
  generation : FlowGeneration
  path : PathId
  count : UInt32
  entries : List (ResourceId × UInt64)
  epoch : CoordinatorEpoch
  boot : WorkerBootId
  capGen : CapacityGeneration
  state : UInt32

namespace ReservationWords

/-- What the wire reader asks of the words. -/
structure Fit (w : ReservationWords) : Prop where
  count : w.entries.length = w.count.toNat
  rates : ∀ e ∈ w.entries, RateWord e.2

def encode (w : ReservationWords) : Bytes :=
  idBytes w.id ++ (idBytes w.flow ++ (idBytes w.attempt ++ (idBytes w.generation ++
    (idBytes w.path ++ (u32Bytes w.count ++ (w.entries.flatMap entryBytes ++ (idBytes w.epoch ++
    (idBytes w.boot ++ (idBytes w.capGen ++ u32Bytes w.state)))))))))

/-- The words are those of the reservation. -/
structure Spells (r : Reservation) (w : ReservationWords) : Prop where
  id : r.id = w.id
  flow : r.flow = w.flow
  count : r.allocations.length = w.count.toNat
  state : r.state = .ofCode w.state

/-- A reservation record, to its last byte. -/
def Lay (w : ReservationWords) (b : Bytes) : Prop := w.Fit ∧ b = w.encode

end ReservationWords

theorem lays_rReservation : Lays ReservationWords.Lay ReservationWords.Spells rReservation where
  sound := by
    intro s r s' h
    simp only [rReservation, getCounted, run_bind_iff, getId_iff, getU32_iff, getCode_iff,
      run_pure_iff] at h
    obtain ⟨id, _, rfl, flow, _, rfl, attempt, _, rfl, generation, _, rfl, path, _, rfl, l, s₁,
      ⟨n, _, rfl, hl⟩, epoch, _, rfl, boot, _, rfl, capGen, _, rfl, _, _, ⟨st, rfl, rfl⟩, rfl,
      rfl⟩ := h
    obtain ⟨entries, hlen, hrate, rfl⟩ := rResAlloc_many_iff.mp ⟨l, hl⟩
    refine ⟨⟨id, flow, attempt, generation, path, n, entries, epoch, boot, capGen, st⟩, _, ?_,
      ⟨⟨hlen, hrate⟩, rfl⟩, ⟨rfl, rfl, getMany_length hl, rfl⟩⟩
    simp only [ReservationWords.encode, List.append_assoc]
  complete := by
    rintro w _ s' ⟨⟨hlen, hrate⟩, rfl⟩
    obtain ⟨l, hl⟩ := rResAlloc_many_iff.mpr ⟨w.entries, hlen, hrate, rfl⟩
    refine ⟨⟨w.id, w.flow, w.attempt, w.generation, w.path, l, w.epoch, w.boot, w.capGen,
      .ofCode w.state⟩, ?_, ⟨rfl, rfl, getMany_length hl, rfl⟩⟩
    simp only [ReservationWords.encode, List.append_assoc, rReservation, getCounted, run_bind_iff,
      getId_iff, getU32_iff, getCode_iff, run_pure_iff]
    exact ⟨_, _, rfl, _, _, rfl, _, _, rfl, _, _, rfl, _, _, rfl, _, _, ⟨_, _, rfl, hl⟩, _, _, rfl,
      _, _, rfl, _, _, rfl, _, _, ⟨_, rfl, rfl⟩, rfl, rfl⟩

/-- `ReservationLayout` by the words. -/
theorem reservationLayout_iff {b : Bytes} {n st : UInt32} : ReservationLayout b n st ↔
    ∃ w rest, ReservationWords.Fit w ∧ w.count = n ∧ w.state = st ∧ b = w.encode ++ rest := by
  constructor
  · rintro ⟨id, flow, attempt, generation, path, entries, epoch, boot, capGen, rest, hlen, hrate,
      rfl⟩
    refine ⟨⟨id, flow, attempt, generation, path, n, entries, epoch, boot, capGen, st⟩, rest,
      ⟨hlen, hrate⟩, rfl, rfl, ?_⟩
    simp only [ReservationWords.encode, List.append_assoc]
  · rintro ⟨w, rest, ⟨hlen, hrate⟩, rfl, rfl, rfl⟩
    refine ⟨w.id, w.flow, w.attempt, w.generation, w.path, w.entries, w.epoch, w.boot, w.capGen,
      rest, hlen, hrate, ?_⟩
    simp only [ReservationWords.encode, List.append_assoc]

theorem rReservation_of_layout {b : Bytes} {n st : UInt32} (h : ReservationLayout b n st) :
    ∃ r s', rReservation.run b = .ok (r, s') ∧ r.allocations.length = n.toNat ∧
      r.state = .ofCode st := by
  obtain ⟨w, rest, hfit, rfl, rfl, rfl⟩ := reservationLayout_iff.mp h
  obtain ⟨r, hr, hspell⟩ := lays_rReservation.complete rest ⟨hfit, rfl⟩
  exact ⟨r, rest, hr, hspell.count, hspell.state⟩

theorem layout_of_rReservation {b s' : Bytes} {r : Reservation}
    (h : rReservation.run b = .ok (r, s')) :
    ∃ n st, ReservationLayout b n st ∧ r.allocations.length = n.toNat ∧ r.state = .ofCode st := by
  obtain ⟨w, _, rfl, ⟨hfit, rfl⟩, hspell⟩ := lays_rReservation.sound h
  exact ⟨w.count, w.state, reservationLayout_iff.mpr ⟨w, s', hfit, rfl, rfl, rfl⟩, hspell.count,
    hspell.state⟩

/-! ### Agreement -/

/-- Both readers take the bytes, with one value and one remainder, or neither does. -/
def Agree {α : Type} (r r' : Source α) (b : Bytes) : Prop :=
  ∀ a rest, r.run b = .ok (a, rest) ↔ r'.run b = .ok (a, rest)

theorem agree_iff {α : Type} {P : α → Prop} {r r' : Source α} (h : Checks P r' r) (b : Bytes) :
    Agree r r' b ↔ ∀ a rest, r.run b = .ok (a, rest) → P a := by
  constructor
  · intro hag a rest ha
    exact ((h b a rest).mp ((hag a rest).mp ha)).2
  · intro hP a rest
    rw [h b a rest]
    exact ⟨fun ha => ⟨ha, hP a rest ha⟩, And.left⟩

/-- On which bytes the wire reader and the persistence reader of a record agree: the enumerators and
    the entry count of the record, if the bytes hold one, are within the bounds. -/
theorem decoders_agree_iff (b : Bytes) :
    (Agree rRes readResourceSpec b ↔ ∀ cls dir, ResourceLayout b cls dir → cls ≤ 7 ∧ dir ≤ 1) ∧
    (Agree rSpec readFlowSpec b ↔ ∀ dir lat, FlowLayout b dir lat → dir ≤ 1 ∧ lat ≤ 2) ∧
    (Agree rReservation readReservation b ↔
      ∀ n st, ReservationLayout b n st → n ≤ 256 ∧ st ≤ 5) := by
  rw [agree_iff checks_resourceSpec, agree_iff checks_flowSpec, agree_iff checks_reservation]
  refine ⟨⟨?_, ?_⟩, ⟨?_, ?_⟩, ⟨?_, ?_⟩⟩
  · intro h cls dir hl
    obtain ⟨r, rest, hr, hcls, hdir⟩ := rRes_of_layout hl
    obtain ⟨h₁, h₂, -⟩ := h r rest hr
    rw [hcls, Coded.inRange_ofCode enumerated_resourceClass] at h₁
    rw [hdir, Coded.inRange_ofCode enumerated_directionality] at h₂
    exact ⟨h₁, h₂⟩
  · intro h r rest hr
    obtain ⟨cls, dir, hl, hcls, hdir⟩ := layout_of_rRes hr
    rw [hcls, hdir, Coded.inRange_ofCode enumerated_resourceClass,
      Coded.inRange_ofCode enumerated_directionality]
    exact ⟨(h cls dir hl).1, (h cls dir hl).2, trivial⟩
  · intro h dir lat hl
    obtain ⟨f, rest, hf, hdir, hlat⟩ := rSpec_of_layout hl
    obtain ⟨h₁, h₂, -⟩ := h f rest hf
    rw [hdir, Coded.inRange_ofCode enumerated_directionality] at h₁
    rw [hlat, Coded.inRange_ofCode enumerated_latencyClass] at h₂
    exact ⟨h₁, h₂⟩
  · intro h f rest hf
    obtain ⟨dir, lat, hl, hdir, hlat⟩ := layout_of_rSpec hf
    rw [hdir, hlat, Coded.inRange_ofCode enumerated_directionality,
      Coded.inRange_ofCode enumerated_latencyClass]
    exact ⟨(h dir lat hl).1, (h dir lat hl).2, trivial⟩
  · intro h n st hl
    obtain ⟨r, rest, hr, hn, hst⟩ := rReservation_of_layout hl
    obtain ⟨h₁, h₂, -⟩ := h r rest hr
    rw [hst, Coded.inRange_ofCode enumerated_reservationState] at h₂
    rw [hn] at h₁
    exact ⟨UInt32.le_iff_toNat_le.mpr h₁, h₂⟩
  · intro h r rest hr
    obtain ⟨n, st, hl, hn, hst⟩ := layout_of_rReservation hr
    rw [hn, hst, Coded.inRange_ofCode enumerated_reservationState]
    exact ⟨UInt32.le_iff_toNat_le.mp (h n st hl).1, (h n st hl).2, trivial⟩

/-- A resource record with class 8: the wire reader takes it, the persistence reader does not. -/
theorem class_word_splits_decoders :
    ¬ Agree rRes readResourceSpec (idBytes (t := .resource) ⟨0, 1⟩ ++ (u32Bytes 8 ++ (strBytes [] ++
      (strBytes [] ++ (u32Bytes 0 ++ (u64Bytes 0 ++
        (idBytes (t := .capacityGeneration) ⟨0, 1⟩ ++ [1]))))))) := by
  intro h
  obtain ⟨r, rest, hr, hcls, -⟩ := rRes_of_layout ⟨⟨0, 1⟩, [], [], 0, ⟨0, 1⟩, 1, [],
    Nat.zero_le _, Nat.zero_le _, ⟨.zero, by decide +kernel⟩, rfl⟩
  have hin := ((agree_iff checks_resourceSpec _).mp h r rest hr).1
  rw [hcls] at hin
  revert hin
  decide

end BG
