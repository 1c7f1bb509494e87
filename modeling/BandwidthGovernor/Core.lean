import Mathlib.Data.Rat.Defs
import Mathlib.Algebra.Order.Ring.Rat
import Mathlib.Tactic.Linarith
import Mathlib.Tactic.NormNum
import BandwidthGovernor.Lib.Mt64

/-! Core value types (`core.hpp`, `ids.hpp`, `core.cpp`): errors, 128-bit identities, the identity
    generator, generations, validated capacities and the enumerations.

    Doubles are read as exact rationals throughout; NaN and the infinities have no rational reading.
    `kEps` and the rate bounds keep their source values. -/

namespace BG

/-- `std::string`: any bytes, not necessarily text. -/
abbrev Str := List UInt8

/-- The bytes of an ASCII literal of the source. -/
def ascii (s : String) : Str := s.toList.map fun c => UInt8.ofNat c.toNat

/-- The exceptions the modelled code throws, with their message. -/
inductive Error where
  | value (what : String)
  | transition (what : String)
  deriving DecidableEq

def kEps : ℚ := 1 / 10 ^ 9

def kMaxRate : ℚ := 10 ^ 18

def kMaxBytes : ℚ := 10 ^ 18

theorem kEps_pos : 0 < kEps := by norm_num [kEps]

theorem kMaxRate_pos : 0 < kMaxRate := by norm_num [kMaxRate]

/-- `std::clamp`. -/
def clamp (v lo hi : ℚ) : ℚ := if v < lo then lo else if hi < v then hi else v

theorem clamp_of_mem {v lo hi : ℚ} (h₁ : lo ≤ v) (h₂ : v ≤ hi) : clamp v lo hi = v := by
  rw [clamp, if_neg (not_lt.mpr h₁), if_neg (not_lt.mpr h₂)]

theorem clamp_mem {v lo hi : ℚ} (h : lo ≤ hi) : lo ≤ clamp v lo hi ∧ clamp v lo hi ≤ hi := by
  unfold clamp
  split
  · exact ⟨le_refl _, h⟩
  · split
    · exact ⟨h, le_refl _⟩
    · exact ⟨not_lt.mp ‹_›, not_lt.mp ‹_›⟩

/-! ### Identities -/

/-- The identity domains; each is a type of its own. -/
inductive IdTag where
  | flow | tenant | workload | link | path | reservation | attempt | worker | workerBoot
  | coordinatorEpoch | capacityGeneration | flowGeneration | resource | coordinator
  deriving DecidableEq

/-- A 128-bit identity of one domain. -/
structure Id128 (tag : IdTag) where
  hi : UInt64
  lo : UInt64
  deriving DecidableEq

abbrev FlowId := Id128 .flow
abbrev TenantId := Id128 .tenant
abbrev WorkloadId := Id128 .workload
abbrev PathId := Id128 .path
abbrev ReservationId := Id128 .reservation
abbrev AttemptId := Id128 .attempt
abbrev WorkerId := Id128 .worker
abbrev WorkerBootId := Id128 .workerBoot
abbrev CoordinatorEpoch := Id128 .coordinatorEpoch
abbrev CapacityGeneration := Id128 .capacityGeneration
abbrev FlowGeneration := Id128 .flowGeneration
abbrev ResourceId := Id128 .resource
abbrev CoordinatorId := Id128 .coordinator

instance (t : IdTag) : LawfulBEq (Id128 t) := inferInstance

namespace Id128
variable {t : IdTag}

/-- The default identity. -/
def null : Id128 t := ⟨0, 0⟩

def isNull (a : Id128 t) : Bool := a.hi == 0 && a.lo == 0

/-- `operator<`: the high word decides, then the low word. -/
def lt (a b : Id128 t) : Bool := if a.hi ≠ b.hi then a.hi < b.hi else a.lo < b.lo

end Id128

/-! ### The identity generator -/

/-- `IdGen`: the salt, the words the engine yields since the last seed, and how many were drawn.
    Every call draws one word and bumps the counter, so the counter is the number of calls modulo
    `2^64`. -/
structure IdGen where
  salt : UInt64
  rng : ℕ → UInt64
  calls : ℕ

namespace IdGen

/-- The two words minted by the `k`-th call since the seed. -/
def idAt (g : IdGen) (k : ℕ) : UInt64 × UInt64 :=
  (g.rng k, (g.salt ^^^ (g.rng k <<< 1)) ^^^ UInt64.ofNat k)

def drawn (g : IdGen) : IdGen := { g with calls := g.calls + 1 }

/-- `next<T>()`. -/
def next {t : IdTag} (g : IdGen) : Id128 t × IdGen :=
  (⟨(g.idAt g.calls).1, (g.idAt g.calls).2⟩, g.drawn)

/-- `next64()`. -/
def next64 (g : IdGen) : UInt64 × IdGen :=
  (((g.idAt g.calls).1 <<< 32) ^^^ ((g.idAt g.calls).2 &&& 0xFFFFFFFF), g.drawn)

/-- `seed(salt)`; `entropy` is the seed value the process derives when the caller supplied 0. -/
def seed (entropy salt : UInt64) : IdGen :=
  ⟨salt, Lib.Mt64.draw (if salt = 0 then entropy else salt), 0⟩

/-- The identity minted by the `k`-th call. -/
def mintedAt {t : IdTag} (g : IdGen) (k : ℕ) : Id128 t := ⟨(g.idAt k).1, (g.idAt k).2⟩

/-- Until the 64-bit counter wraps no identity repeats: equal high words make the low words differ
    by the counter. -/
theorem mintedAt_inj {t : IdTag} {g : IdGen} {j k : ℕ} (hj : j < 2 ^ 64) (hk : k < 2 ^ 64)
    (h : (g.mintedAt j : Id128 t) = g.mintedAt k) : j = k := by
  simp only [mintedAt, idAt, Id128.mk.injEq] at h
  obtain ⟨hhi, hlo⟩ := h
  rw [hhi] at hlo
  have hcount : UInt64.ofNat j = UInt64.ofNat k := by
    have := congrArg (fun x => (g.salt ^^^ (g.rng k <<< 1)) ^^^ x) hlo
    simpa [← UInt64.xor_assoc] using this
  have := congrArg UInt64.toNat hcount
  simp only [UInt64.toNat_ofNat'] at this
  omega

/-- A fresh identity differs from every earlier one. -/
theorem next_ne {t : IdTag} {g : IdGen} (hc : g.calls < 2 ^ 64) {k : ℕ} (hk : k < g.calls) :
    (g.next.1 : Id128 t) ≠ g.mintedAt k := fun h =>
  hk.ne (mintedAt_inj hc (hk.trans hc) h).symm

/-- The identity is one of those drawn so far. -/
def Drew {t : IdTag} (g : IdGen) (x : Id128 t) : Prop := ∃ k < g.calls, x = g.mintedAt k

theorem Drew.drawn {t : IdTag} {g : IdGen} {x : Id128 t} (h : g.Drew x) : g.drawn.Drew x := by
  obtain ⟨k, hk, hx⟩ := h
  exact ⟨k, Nat.lt_succ_of_lt hk, hx⟩

theorem drew_next {t : IdTag} (g : IdGen) : g.drawn.Drew (g.next.1 : Id128 t) :=
  ⟨g.calls, Nat.lt_succ_self _, rfl⟩

end IdGen

/-- `next_generation`: increment with carry, then force the low bit. -/
def nextGeneration {t : IdTag} (g : Id128 t) : Id128 t :=
  ⟨if g.lo + 1 = 0 then g.hi + 1 else g.hi, (g.lo + 1) ||| 1⟩

def freshGeneration {t : IdTag} (nonce : UInt64) : Id128 t := ⟨nonce, 1⟩

/-! ### Capacities -/

/-- `Capacity::is_valid_rate`. -/
def isValidRate (v : ℚ) : Bool := !decide (v < 0) && !decide (v > kMaxRate)

theorem isValidRate_iff {v : ℚ} : isValidRate v = true ↔ 0 ≤ v ∧ v ≤ kMaxRate := by
  simp [isValidRate, not_lt]

/-- A validated rate in bytes per second. -/
structure Capacity where
  value : ℚ
  valid : isValidRate value = true
  deriving DecidableEq

namespace Capacity

def zero : Capacity := ⟨0, by simp [isValidRate_iff, kMaxRate]⟩

/-- `Capacity::make`. -/
def make (v : ℚ) : Except Error Capacity :=
  if h : isValidRate v = true then .ok ⟨v, h⟩
  else .error (.value "capacity value invalid: negative, NaN, Inf, or above bound")

/-- `Capacity::try_make`. -/
def tryMake (v : ℚ) : Option Capacity := if h : isValidRate v = true then some ⟨v, h⟩ else none

/-- `set_value`, through which `+=` goes: an invalid value becomes zero. -/
def setValue (v : ℚ) : Capacity := if h : isValidRate v = true then ⟨v, h⟩ else zero

theorem nonneg (c : Capacity) : 0 ≤ c.value := (isValidRate_iff.mp c.valid).1

theorem le_max (c : Capacity) : c.value ≤ kMaxRate := (isValidRate_iff.mp c.valid).2

@[simp] theorem make_value (c : Capacity) : make c.value = .ok c := by
  simp [make, c.valid]

theorem make_of_mem {v : ℚ} (h₀ : 0 ≤ v) (h₁ : v ≤ kMaxRate) :
    make v = .ok ⟨v, isValidRate_iff.mpr ⟨h₀, h₁⟩⟩ := by
  simp [make, isValidRate_iff, h₀, h₁]

end Capacity

/-! ### Enumerations -/

/-- An enumeration of the source: its enumerators in code order. -/
class Enumerators (E : Type) where
  all : List E

/-- A value of an `enum class : uint32_t`: an enumerator, or another code that an unchecked cast put
    there. -/
inductive Coded (E : Type) [Enumerators E] where
  | named (e : E)
  | unnamed (code : UInt32) (h : (Enumerators.all (E := E)).length ≤ code.toNat)
  deriving DecidableEq

instance {E : Type} [Enumerators E] : Coe E (Coded E) := ⟨Coded.named⟩

namespace Coded
variable {E : Type} [Enumerators E]

/-- `static_cast<uint32_t>`. -/
def code [DecidableEq E] : Coded E → UInt32
  | named e => UInt32.ofNat ((Enumerators.all (E := E)).idxOf e)
  | unnamed c _ => c

/-- `static_cast<E>`, unchecked. -/
def ofCode (c : UInt32) : Coded E :=
  if h : c.toNat < (Enumerators.all (E := E)).length then
    named ((Enumerators.all (E := E)).get ⟨c.toNat, h⟩)
  else unnamed c (Nat.le_of_not_lt h)

/-- Whether the value is one of the enumerators. -/
def inRange : Coded E → Bool
  | named _ => true
  | unnamed _ _ => false

end Coded

end BG
