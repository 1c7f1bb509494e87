import Mathlib
import BandwidthGovernor.Lib.Sealed

/-! Table-driven 32-bit checksums.

    A step folds one byte into the register through a table of 256 words. When the top bytes of the
    table differ, a step can be undone from the register alone, and up to four bytes can be read
    back from the register before and after them: no damage within four consecutive bytes leaves
    the checksum as it was.

    A table that holds what eight shifts of the reflected register make of each byte computes the
    checksum of the message taken bit by bit. -/

namespace Lib.Crc

section
variable (T : BitVec 8 → BitVec 32)

/-- Fold one byte into the register. -/
def step (s : BitVec 32) (b : BitVec 8) : BitVec 32 := T (s.setWidth 8 ^^^ b) ^^^ (s >>> 8)

def feed (s : BitVec 32) (bs : List (BitVec 8)) : BitVec 32 := bs.foldl (step T) s

/-- The top bytes of the table tell its entries apart. -/
def TopDistinct : Prop := ∀ i j, T i >>> 24 = T j >>> 24 → i = j

end

/-- The bytes of a word, low byte first. -/
def wordBytes (v : BitVec 32) : List (BitVec 8) :=
  [v.setWidth 8, (v >>> 8).setWidth 8, (v >>> 16).setWidth 8, (v >>> 24).setWidth 8]

variable {T : BitVec 8 → BitVec 32}

theorem feed_append (s : BitVec 32) (as bs : List (BitVec 8)) :
    feed T s (as ++ bs) = feed T (feed T s as) bs := List.foldl_append

theorem shiftRight_mono {x y : BitVec 32} {m n : ℕ} (hmn : m ≤ n) (h : x >>> m = y >>> m) :
    x >>> n = y >>> n := by
  obtain ⟨d, rfl⟩ := Nat.exists_eq_add_of_le hmn
  rw [BitVec.shiftRight_add, BitVec.shiftRight_add, h]

/-- A word is its low byte and the rest. -/
theorem eq_of_low_high {x y : BitVec 32} (hlow : x.setWidth 8 = y.setWidth 8)
    (hhigh : x >>> 8 = y >>> 8) : x = y := by
  have h₁ := congrArg BitVec.toNat hlow
  have h₂ := congrArg BitVec.toNat hhigh
  simp only [BitVec.toNat_setWidth, BitVec.toNat_ushiftRight, Nat.shiftRight_eq_div_pow] at h₁ h₂
  exact BitVec.eq_of_toNat_eq (by omega)

/-- Registers that agree above bit `8 * k` after a step took the same table entry, and agreed above
    bit `8 * (k + 1)` before it. -/
theorem step_agree (hT : TopDistinct T) {k : ℕ} (hk : k ≤ 3) {s s' : BitVec 32} {b b' : BitVec 8}
    (h : step T s b >>> (8 * k) = step T s' b' >>> (8 * k)) :
    s.setWidth 8 ^^^ b = s'.setWidth 8 ^^^ b' ∧ s >>> (8 * (k + 1)) = s' >>> (8 * (k + 1)) := by
  have htop : ∀ (s : BitVec 32) (b : BitVec 8),
      step T s b >>> 24 = T (s.setWidth 8 ^^^ b) >>> 24 := fun s b => by
    have hzero : s >>> 8 >>> 24 = 0#32 := by
      rw [← BitVec.shiftRight_add]
      exact BitVec.ushiftRight_eq_zero (by norm_num)
    rw [step, BitVec.ushiftRight_xor_distrib, hzero, BitVec.xor_zero]
  have hindex : s.setWidth 8 ^^^ b = s'.setWidth 8 ^^^ b' := by
    refine hT _ _ ?_
    rw [← htop, ← htop]
    exact shiftRight_mono (by omega) h
  refine ⟨hindex, ?_⟩
  have hrest := h
  rw [step, step, hindex, BitVec.ushiftRight_xor_distrib, BitVec.ushiftRight_xor_distrib,
    BitVec.xor_right_inj, ← BitVec.shiftRight_add, ← BitVec.shiftRight_add] at hrest
  rw [mul_add, mul_one, add_comm]
  exact hrest

/-- A step can be undone. -/
theorem step_injective (hT : TopDistinct T) {s s' : BitVec 32} {b : BitVec 8}
    (h : step T s b = step T s' b) : s = s' := by
  have h₀ : step T s b >>> (8 * 0) = step T s' b >>> (8 * 0) := by rw [h]
  obtain ⟨hlow, hhigh⟩ := step_agree hT (by norm_num) h₀
  exact eq_of_low_high (BitVec.xor_left_inj _ |>.mp hlow) hhigh

theorem feed_injective (hT : TopDistinct T) : ∀ (bs : List (BitVec 8)) {s s' : BitVec 32},
    feed T s bs = feed T s' bs → s = s'
  | [], _, _, h => h
  | _ :: bs, _, _, h => step_injective hT (feed_injective hT bs h)

/-- Up to four bytes can be read back from the registers around them. The invariant runs backwards:
    registers that agree above bit `8 * k` agreed above one byte more before the last step. -/
theorem feed_agree (hT : TopDistinct T) : ∀ (bs bs' : List (BitVec 8)) {k : ℕ} {s s' : BitVec 32},
    bs.length = bs'.length → k + bs.length ≤ 4 →
    feed T s bs >>> (8 * k) = feed T s' bs' >>> (8 * k) →
    s >>> (8 * (k + bs.length)) = s' >>> (8 * (k + bs.length)) ∧ (s = s' → bs = bs')
  | [], [], _, _, _, _, _, h => ⟨h, fun _ => rfl⟩
  | b :: bs, b' :: bs', k, s, s', hlen, hk, h => by
    simp only [List.length_cons, add_left_inj] at hlen hk
    obtain ⟨hrest, htail⟩ := feed_agree hT bs bs' hlen (by omega) h
    obtain ⟨hindex, hhigh⟩ := step_agree hT (by omega) hrest
    refine ⟨hhigh, ?_⟩
    rintro rfl
    have hb : b = b' := BitVec.xor_right_inj _ |>.mp hindex
    subst hb
    rw [htail rfl]

/-- Damage within four consecutive bytes changes the register. -/
theorem feed_damaged (hT : TopDistinct T) {s : BitVec 32} {pre mid mid' post : List (BitVec 8)}
    (hlen : mid.length = mid'.length) (hfour : mid.length ≤ 4)
    (h : feed T s (pre ++ mid ++ post) = feed T s (pre ++ mid' ++ post)) : mid = mid' := by
  simp only [feed_append] at h
  have hmid : feed T (feed T s pre) mid >>> (8 * 0) = feed T (feed T s pre) mid' >>> (8 * 0) := by
    rw [feed_injective hT post h]
  exact (feed_agree hT mid mid' hlen (by omega) hmid).2 rfl

/-- The register after a message and its complemented register: the same for every message. -/
def residue (T : BitVec 8 → BitVec 32) : BitVec 32 := feed T 0#32 [255, 255, 255, 255]

/-- Feeding a byte of the complemented register moves the register down by a byte, up to a constant
    that does not depend on it. -/
theorem step_complement (c s : BitVec 32) {n : ℕ} (hn : n ≤ 24) :
    step T (c ^^^ s >>> n) ((~~~s >>> n).setWidth 8) = step T c 255 ^^^ s >>> (n + 8) := by
  have hlow : (c ^^^ s >>> n).setWidth 8 ^^^ (~~~s >>> n).setWidth 8 = c.setWidth 8 ^^^ 255 := by
    apply BitVec.eq_of_getLsbD_eq
    intro i hi
    have h255 : (255#8)[i] = true := by
      rw [← BitVec.getLsbD_eq_getElem]
      interval_cases i <;> rfl
    have hlt : n + i < 32 := by omega
    simp [BitVec.getLsbD_ushiftRight, hi, h255, hlt]
  rw [step, step, hlow, BitVec.ushiftRight_xor_distrib, ← BitVec.shiftRight_add, BitVec.xor_assoc]

theorem feed_complement (s : BitVec 32) : feed T s (wordBytes (~~~s)) = residue T := by
  have h₀ := step_complement (T := T) 0#32 s (n := 0) (by norm_num)
  have h₁ := step_complement (T := T) (step T 0#32 255) s (n := 8) (by norm_num)
  have h₂ := step_complement (T := T) (step T (step T 0#32 255) 255) s (n := 16) (by norm_num)
  have h₃ := step_complement (T := T) (step T (step T (step T 0#32 255) 255) 255) s (n := 24)
    (by norm_num)
  rw [BitVec.zero_xor] at h₀
  simp only [BitVec.ushiftRight_zero, Nat.reduceAdd] at h₀ h₁ h₂ h₃
  have hzero : s >>> 32 = 0#32 := BitVec.ushiftRight_eq_zero (by norm_num)
  simp only [feed, wordBytes, List.foldl_cons, List.foldl_nil]
  rw [h₀, h₁, h₂, h₃, hzero, BitVec.xor_zero]
  rfl

/-- A message with its checksum: the register ends in the residue. -/
def Codeword (T : BitVec 8 → BitVec 32) (s : BitVec 32) (w : List (BitVec 8)) : Prop :=
  feed T s w = residue T

theorem codeword_append (s : BitVec 32) (m : List (BitVec 8)) :
    Codeword T s (m ++ wordBytes (~~~(feed T s m))) := by
  rw [Codeword, feed_append, feed_complement]

/-- Codewords differ over more than four consecutive bytes. -/
theorem detects (hT : TopDistinct T) (s : BitVec 32) : Detects (Codeword T s) 4 := by
  intro pre mid mid' post hx hy hlen hfour
  exact feed_damaged hT hlen hfour (hx.trans hy.symm)

/-! ### Bit by bit -/

/-- Shift one bit of the message through the register of the reflected code. -/
def bitStep (poly s : BitVec 32) (b : Bool) : BitVec 32 :=
  if (s.getLsbD 0 ^^ b) = true then (s >>> 1) ^^^ poly else s >>> 1

def feedBits (poly s : BitVec 32) (bs : List Bool) : BitVec 32 := bs.foldl (bitStep poly) s

/-- The bits of a byte, low bit first. -/
def bits (b : BitVec 8) : List Bool := List.ofFn fun i : Fin 8 => b.getLsbD i

/-- The table holds what eight shifts make of each byte. -/
def Tabulates (T : BitVec 8 → BitVec 32) (poly : BitVec 32) : Prop :=
  ∀ i, T i = feedBits poly (i.setWidth 32) (List.replicate 8 false)

variable {poly : BitVec 32}

/-- The word whose low bits are the list. -/
def word : List Bool → BitVec 32
  | [] => 0
  | b :: bs => (word bs <<< 1) ^^^ (BitVec.ofBool b).setWidth 32

theorem bitStep_false_xor (x y : BitVec 32) :
    bitStep poly (x ^^^ y) false = bitStep poly x false ^^^ bitStep poly y false := by
  unfold bitStep
  rw [BitVec.getLsbD_xor, BitVec.ushiftRight_xor_distrib]
  cases x.getLsbD 0 <;> cases y.getLsbD 0 <;> simp [BitVec.xor_assoc, BitVec.xor_comm poly]

theorem feedBits_zeros_xor : ∀ (n : ℕ) (x y : BitVec 32),
    feedBits poly (x ^^^ y) (List.replicate n false) =
      feedBits poly x (List.replicate n false) ^^^ feedBits poly y (List.replicate n false)
  | 0, _, _ => rfl
  | n + 1, x, y => by
    have ih := feedBits_zeros_xor n (bitStep poly x false) (bitStep poly y false)
    rw [← bitStep_false_xor] at ih
    exact ih

/-- A word whose low bits are clear only moves down. -/
theorem feedBits_zeros_shift : ∀ {n : ℕ} {x : BitVec 32}, (∀ i < n, x.getLsbD i = false) →
    feedBits poly x (List.replicate n false) = x >>> n
  | 0, x, _ => by simp [feedBits]
  | n + 1, x, h => by
    have hstep : bitStep poly x false = x >>> 1 := by
      rw [bitStep, h 0 n.succ_pos]
      rfl
    have hclear : ∀ i < n, (x >>> 1).getLsbD i = false := fun i hi => by
      rw [BitVec.getLsbD_ushiftRight, add_comm]
      exact h (i + 1) (by omega)
    have ih : feedBits poly (x >>> 1) (List.replicate n false) = x >>> 1 >>> n :=
      feedBits_zeros_shift hclear
    rw [← BitVec.shiftRight_add, add_comm] at ih
    rw [List.replicate_succ, feedBits, List.foldl_cons, hstep]
    exact ih

/-- The table is linear in the byte. -/
theorem Tabulates.xor (hT : Tabulates T poly) (i j : BitVec 8) : T (i ^^^ j) = T i ^^^ T j := by
  rw [hT, hT, hT, ← feedBits_zeros_xor, BitVec.setWidth_xor]

/-- It is enough to look at the top bytes one by one: only the entry of zero has a zero one. -/
theorem Tabulates.topDistinct (hT : Tabulates T poly) (h : ∀ i, T i >>> 24 = 0#32 → i = 0#8) :
    TopDistinct T := by
  intro i j hij
  have hzero : T (i ^^^ j) >>> 24 = 0#32 := by
    rw [hT.xor, BitVec.ushiftRight_xor_distrib, hij, BitVec.xor_self]
  exact BitVec.xor_eq_zero_iff.mp (h _ hzero)

theorem word_high : ∀ {bs : List Bool} {i : ℕ}, bs.length ≤ i → (word bs).getLsbD i = false
  | [], i, _ => by simp [word]
  | b :: bs, i, h => by
    rw [List.length_cons] at h
    have hpos : i ≠ 0 := by omega
    have ih : (word bs).getLsbD (i - 1) = false := word_high (by omega)
    simp [word, BitVec.getLsbD_xor, BitVec.getLsbD_shiftLeft, ih, hpos, BitVec.getLsbD_ofBool]

/-- The bits may be folded into the register before it is shifted. -/
theorem feedBits_word : ∀ {bs : List Bool} {s : BitVec 32}, bs.length ≤ 32 →
    feedBits poly s bs = feedBits poly (s ^^^ word bs) (List.replicate bs.length false)
  | [], s, _ => by simp [word]
  | b :: bs, s, h => by
    rw [List.length_cons] at h
    have hbit : bitStep poly s b = bitStep poly (s ^^^ (BitVec.ofBool b).setWidth 32) false := by
      have hgone : (BitVec.ofBool b).setWidth 32 >>> 1 = 0#32 := by cases b <;> rfl
      have hlow : ((BitVec.ofBool b).setWidth 32).getLsbD 0 = b := by cases b <;> rfl
      rw [bitStep, bitStep, BitVec.getLsbD_xor, BitVec.ushiftRight_xor_distrib, hgone, hlow,
        Bool.xor_false, BitVec.xor_zero]
    have hrest : bitStep poly (word bs <<< 1) false = word bs := by
      have hlow : (word bs <<< 1).getLsbD 0 = false := by
        rw [BitVec.getLsbD_shiftLeft]
        simp
      rw [bitStep, hlow, Bool.xor_false, if_neg Bool.false_ne_true]
      refine BitVec.eq_of_getLsbD_eq fun i hi => ?_
      rw [BitVec.getLsbD_ushiftRight, BitVec.getLsbD_shiftLeft, Nat.add_sub_cancel_left]
      rcases Nat.lt_or_ge (1 + i) 32 with hlt | hge
      · simp [hlt]
      · rw [word_high (by omega)]
        simp
    have ih : feedBits poly (bitStep poly s b) bs =
        feedBits poly (bitStep poly s b ^^^ word bs) (List.replicate bs.length false) :=
      feedBits_word (by omega)
    rw [List.length_cons, List.replicate_succ, feedBits, List.foldl_cons, feedBits, List.foldl_cons]
    rw [word, BitVec.xor_comm (word bs <<< 1), ← BitVec.xor_assoc, bitStep_false_xor, ← hbit, hrest]
    exact ih

theorem word_bits (b : BitVec 8) : word (bits b) = b.setWidth 32 := by
  revert b
  decide +kernel

/-- One table step is eight shifts. -/
theorem step_eq_feedBits (hT : Tabulates T poly) (s : BitVec 32) (b : BitVec 8) :
    step T s b = feedBits poly s (bits b) := by
  have hlen : (bits b).length = 8 := List.length_ofFn
  have hsplit : s ^^^ b.setWidth 32 =
      (s.setWidth 8 ^^^ b).setWidth 32 ^^^ (s >>> 8) <<< 8 := by
    refine BitVec.eq_of_getLsbD_eq fun i hi => ?_
    simp only [BitVec.getLsbD_xor, BitVec.getLsbD_setWidth, BitVec.getLsbD_shiftLeft,
      BitVec.getLsbD_ushiftRight, hi, decide_true, Bool.true_and]
    rcases Nat.lt_or_ge i 8 with hlt | hge
    · simp [hlt]
    · have hnot : ¬ i < 8 := by omega
      simp [hnot, BitVec.getLsbD_of_ge b i hge, Nat.add_sub_cancel' hge]
  have hhigh : feedBits poly ((s >>> 8) <<< 8) (List.replicate 8 false) = s >>> 8 := by
    have hclear : ∀ i < 8, ((s >>> 8) <<< 8).getLsbD i = false := fun i hi => by
      rw [BitVec.getLsbD_shiftLeft]
      simp [hi]
    rw [feedBits_zeros_shift hclear]
    refine BitVec.eq_of_getLsbD_eq fun i hi => ?_
    rw [BitVec.getLsbD_ushiftRight, BitVec.getLsbD_shiftLeft, Nat.add_sub_cancel_left,
      BitVec.getLsbD_ushiftRight]
    rcases Nat.lt_or_ge (8 + i) 32 with hlt | hge
    · simp [hlt]
    · rw [BitVec.getLsbD_of_ge s (8 + i) hge]
      simp
  rw [feedBits_word (by omega), hlen, word_bits, hsplit, feedBits_zeros_xor, ← hT, hhigh, step]

theorem feed_eq_feedBits (hT : Tabulates T poly) : ∀ (s : BitVec 32) (bs : List (BitVec 8)),
    feed T s bs = feedBits poly s (bs.flatMap bits)
  | _, [] => rfl
  | s, b :: bs => by
    have ih := feed_eq_feedBits hT (step T s b) bs
    rw [step_eq_feedBits hT] at ih
    rw [List.flatMap_cons, feedBits, List.foldl_append, feed, List.foldl_cons, step_eq_feedBits hT]
    exact ih

end Lib.Crc
