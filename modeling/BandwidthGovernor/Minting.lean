import Mathlib
import BandwidthGovernor.Core

/-! What one identity generator mints.

    A call xors the counter into words that are otherwise a function of the random word, and the
    random word can be read off the result. Two equal results therefore come from equal counters, as
    far as the result keeps them: 64 bits in an identity, 32 in a word. -/

namespace BG

/-- A call of the generator. -/
inductive Mint where
  | next (tag : IdTag)
  | next64

/-- What a call returns. -/
inductive Draw where
  | id (hi lo : UInt64)
  | word (w : UInt64)

def Draw.id? : Draw → Option (UInt64 × UInt64)
  | id hi lo => some (hi, lo)
  | word _ => none

def Draw.word? : Draw → Option UInt64
  | id _ _ => none
  | word w => some w

namespace IdGen

def call (g : IdGen) : Mint → Draw × IdGen
  | .next tag =>
    let (x, g) := g.next (t := tag)
    (.id x.hi x.lo, g)
  | .next64 =>
    let (w, g) := g.next64
    (.word w, g)

/-- The results of a sequence of calls. -/
def results : IdGen → List Mint → List Draw
  | _, [] => []
  | g, c :: cs => (g.call c).1 :: results (g.call c).2 cs

/-- The word that the `k`-th call returns if it is one of `next64`. -/
def wordAt (g : IdGen) (k : ℕ) : UInt64 :=
  ((g.idAt k).1 <<< 32) ^^^ ((g.idAt k).2 &&& 0xFFFFFFFF)

/-- What the `k`-th call returns. -/
def drawAt (g : IdGen) (k : ℕ) : Mint → Draw
  | .next _ => .id (g.idAt k).1 (g.idAt k).2
  | .next64 => .word (g.wordAt k)

variable {g : IdGen}

theorem call_eq (g : IdGen) (c : Mint) : g.call c = (g.drawAt g.calls c, g.drawn) := by
  cases c <;> rfl

theorem idAt_inj {j k : ℕ} (hj : j < 2 ^ 64) (hk : k < 2 ^ 64) (h : g.idAt j = g.idAt k) :
    j = k := by
  refine mintedAt_inj (t := .flow) (g := g) hj hk ?_
  rw [mintedAt, mintedAt, h]

/-- The low half of a word mixes the counter into a function of the random word. -/
theorem wordAt_low (n : ℕ) {i : ℕ} (hi : i < 32) : (g.wordAt n).toBitVec.getLsbD i =
    ((g.salt.toBitVec.getLsbD i ^^ (g.rng n <<< 1).toBitVec.getLsbD i) ^^ n.testBit i) := by
  have hmask : (0xFFFFFFFF : UInt64).toBitVec.getLsbD i = true := by interval_cases i <;> rfl
  have hlt : i < 64 := by omega
  have hnone : (g.rng n <<< 32).toBitVec.getLsbD i = false := by
    rw [UInt64.toBitVec_shiftLeft]
    simp [hi]
  have hcount : (UInt64.ofNat n).toBitVec.getLsbD i = n.testBit i := by
    rw [UInt64.toBitVec_ofNat', BitVec.getLsbD_ofNat, decide_eq_true hlt, Bool.true_and]
  rw [wordAt, idAt, UInt64.toBitVec_xor, UInt64.toBitVec_and, UInt64.toBitVec_xor,
    UInt64.toBitVec_xor, BitVec.getLsbD_xor, BitVec.getLsbD_and, BitVec.getLsbD_xor,
    BitVec.getLsbD_xor, hmask, hnone, hcount, Bool.false_xor, Bool.and_true]

/-- The high half of a word is the low half of the random word. -/
theorem wordAt_high (n : ℕ) {i : ℕ} (hi : i < 32) :
    (g.wordAt n).toBitVec.getLsbD (32 + i) = (g.rng n).toBitVec.getLsbD i := by
  have hmask : (0xFFFFFFFF : UInt64).toBitVec.getLsbD (32 + i) = false := by
    interval_cases i <;> rfl
  have hlt : 32 + i < 64 := by omega
  have hlow : i < 64 := by omega
  rw [wordAt, idAt, UInt64.toBitVec_xor, UInt64.toBitVec_and, BitVec.getLsbD_xor,
    BitVec.getLsbD_and, hmask, Bool.and_false, Bool.xor_false, UInt64.toBitVec_shiftLeft]
  simp [hlt, hlow]

theorem wordAt_inj {j k : ℕ} (hj : j < 2 ^ 32) (hk : k < 2 ^ 32) (h : g.wordAt j = g.wordAt k) :
    j = k := by
  have hrng : ∀ i < 32, (g.rng j).toBitVec.getLsbD i = (g.rng k).toBitVec.getLsbD i := by
    intro i hi
    rw [← wordAt_high j hi, ← wordAt_high k hi, h]
  refine Nat.eq_of_testBit_eq fun i => ?_
  rcases Nat.lt_or_ge i 32 with hi | hi
  · have hshift : (g.rng j <<< 1).toBitVec.getLsbD i = (g.rng k <<< 1).toBitVec.getLsbD i := by
      have hprev := hrng (i - 1) (by omega)
      have hone : (1 : UInt64).toBitVec % 64 = 1#64 := rfl
      rw [UInt64.toBitVec_shiftLeft, UInt64.toBitVec_shiftLeft]
      simp only [hone, BitVec.shiftLeft_eq', BitVec.toNat_ofNat, BitVec.getLsbD_shiftLeft]
      rw [Nat.mod_eq_of_lt (by norm_num), hprev]
    have hlow := wordAt_low (g := g) j hi
    rw [h, wordAt_low k hi, hshift] at hlow
    exact (Bool.xor_right_inj.mp hlow).symm
  · have hpow : 2 ^ 32 ≤ 2 ^ i := Nat.pow_le_pow_right (by norm_num) hi
    rw [Nat.testBit_lt_two_pow (hj.trans_le hpow), Nat.testBit_lt_two_pow (hk.trans_le hpow)]

/-- Call after call, each with a counter of its own. -/
theorem results_eq : ∀ (cs : List Mint) (g : IdGen),
    g.results cs = cs.mapIdx fun i c => g.drawAt (g.calls + i) c
  | [], _ => rfl
  | c :: cs, g => by
    rw [results, call_eq, results_eq cs, List.mapIdx_cons]
    refine congrArg₂ _ rfl (congrArg (fun f => cs.mapIdx f) ?_)
    funext i c'
    rw [← Nat.add_assoc, Nat.add_right_comm]
    cases c' <;> rfl

/-- Results that tell the counters of their calls are distinct. -/
theorem results_nodup {α : Type} {read : Draw → Option α} {bound : ℕ}
    (hread : ∀ {j k : ℕ} {c c' : Mint} {x : α}, j < bound → k < bound →
      read (g.drawAt j c) = some x → read (g.drawAt k c') = some x → j = k)
    {cs : List Mint} (hlen : g.calls + cs.length ≤ bound) :
    ((g.results cs).filterMap read).Nodup := by
  rw [results_eq, List.Nodup, List.pairwise_filterMap, List.pairwise_iff_getElem]
  intro i j hi hj hij x hx y hy hxy
  rw [List.length_mapIdx] at hi hj
  rw [List.getElem_mapIdx] at hx hy
  subst hxy
  have := hread (by omega) (by omega) hx hy
  omega

end IdGen

/-- Since the last seed, whatever words the engine yields: fewer than `2^64` calls never return one
    identity twice, and fewer than `2^32` calls never return one word twice, nor make one fresh
    generation of two words. -/
theorem mints_distinct (salt : UInt64) (rng : ℕ → UInt64) (cs : List Mint) :
    (cs.length < 2 ^ 64 → ((IdGen.results ⟨salt, rng, 0⟩ cs).filterMap Draw.id?).Nodup) ∧
    (cs.length < 2 ^ 32 → ((IdGen.results ⟨salt, rng, 0⟩ cs).filterMap Draw.word?).Nodup ∧
      ∀ t : IdTag, (((IdGen.results ⟨salt, rng, 0⟩ cs).filterMap Draw.word?).map fun w =>
        (freshGeneration w : Id128 t)).Nodup) := by
  have hword : cs.length < 2 ^ 32 →
      ((IdGen.results ⟨salt, rng, 0⟩ cs).filterMap Draw.word?).Nodup := by
    intro h
    refine IdGen.results_nodup (fun {j k c c' x} hj hk hx hy => ?_)
      ((Nat.zero_add _).trans_le h.le)
    cases c with
    | next t => cases hx
    | next64 =>
      cases c' with
      | next t => cases hy
      | next64 => exact IdGen.wordAt_inj hj hk (Option.some.inj (hx.trans hy.symm))
  refine ⟨fun h => ?_, fun h => ⟨hword h, fun t => (hword h).map fun w w' hw => ?_⟩⟩
  · refine IdGen.results_nodup (fun {j k c c' x} hj hk hx hy => ?_)
      ((Nat.zero_add _).trans_le h.le)
    cases c with
    | next64 => cases hx
    | next t =>
      cases c' with
      | next64 => cases hy
      | next t' =>
        have hpair : some (IdGen.idAt ⟨salt, rng, 0⟩ j) = some (IdGen.idAt ⟨salt, rng, 0⟩ k) :=
          hx.trans hy.symm
        exact IdGen.idAt_inj hj hk (Option.some.inj hpair)
  · exact congrArg Id128.hi hw

/-- The theorem for an engine that yields the same word again and again. -/
theorem mints_distinct_stuck : let cs := [Mint.next .flow, .next64, .next .tenant, .next64]
    cs.length < 2 ^ 32 ∧ ((IdGen.results ⟨7, fun _ => 5, 0⟩ cs).filterMap Draw.id?).Nodup ∧
      ((IdGen.results ⟨7, fun _ => 5, 0⟩ cs).filterMap Draw.word?).Nodup := by
  intro cs
  obtain ⟨hids, hwords⟩ := mints_distinct 7 (fun _ => 5) cs
  exact ⟨by decide, hids (by decide), (hwords (by decide)).1⟩

end BG
