import Mathlib

/-! Formats that notice damage.

    The strings of a sealed format start with a header that fixes their length, and from some point
    on they are codewords. Where codewords differ over more than `n` consecutive letters, no proper
    prefix, no proper extension and no change within `n` consecutive letters turns one string of the
    format into another. -/

namespace Lib
variable {α β : Type}

/-- A string cut short, extended, or changed within `n` consecutive letters. -/
inductive Corrupts (n : ℕ) : List α → List α → Prop where
  | truncated (x lost : List α) : lost ≠ [] → Corrupts n (x ++ lost) x
  | extended (x more : List α) : more ≠ [] → Corrupts n x (x ++ more)
  | damaged (pre mid mid' post : List α) : mid.length = mid'.length → mid.length ≤ n → mid ≠ mid' →
      Corrupts n (pre ++ mid ++ post) (pre ++ mid' ++ post)

/-- Two codewords do not differ within `n` consecutive letters only. -/
def Detects (C : List α → Prop) (n : ℕ) : Prop := ∀ pre mid mid' post, C (pre ++ mid ++ post) →
  C (pre ++ mid' ++ post) → mid.length = mid'.length → mid.length ≤ n → mid = mid'

theorem Detects.comap {C : List β → Prop} {n : ℕ} (h : Detects C n) {f : α → β}
    (hf : Function.Injective f) : Detects (fun x => C (x.map f)) n := by
  intro pre mid mid' post hx hy hlen hn
  simp only [List.map_append] at hx hy
  have hmap := h (pre.map f) (mid.map f) (mid'.map f) (post.map f) hx hy (by simpa using hlen)
    (by simpa using hn)
  exact List.map_injective_iff.mpr hf hmap

/-- A window of a string, as seen past a part that stays as it is. -/
theorem drop_window {head t t' pre mid mid' post : List α} (h : head ++ t = pre ++ mid ++ post)
    (h' : head ++ t' = pre ++ mid' ++ post) (hlen : mid.length = mid'.length) :
    ∃ p m m' q, t = p ++ m ++ q ∧ t' = p ++ m' ++ q ∧ m.length = m'.length ∧
      m.length ≤ mid.length := by
  have ht := congrArg (List.drop head.length) h
  have ht' := congrArg (List.drop head.length) h'
  rw [List.drop_left, List.drop_append, List.drop_append] at ht ht'
  rw [List.length_append, ← hlen, ← List.length_append] at ht'
  refine ⟨_, _, _, _, ht, ht', ?_, ?_⟩
  · rw [List.length_drop, List.length_drop, hlen]
  · rw [List.length_drop]
    omega

/-- The strings in `L` have a header of `k` letters that fixes their length, and two of one length
    are codewords after a common head. -/
structure Sealed (L C : List α → Prop) (k : ℕ) : Prop where
  header : ∀ x, L x → k ≤ x.length
  length : ∀ x y, L x → L y → x.take k = y.take k → x.length = y.length
  code : ∀ x y, L x → L y → x.length = y.length →
    ∃ head t t', x = head ++ t ∧ y = head ++ t' ∧ C t ∧ C t'

namespace Sealed
variable {L C : List α → Prop} {k n : ℕ}

/-- Of two strings of the format neither is a proper prefix of the other. -/
theorem prefix_free (h : Sealed L C k) {x more : List α} (hx : L x) (hy : L (x ++ more)) :
    more = [] := by
  have htake : x.take k = (x ++ more).take k := (List.take_append_of_le_length (h.header x hx)).symm
  have hlen := h.length x (x ++ more) hx hy htake
  rw [List.length_append] at hlen
  exact List.eq_nil_of_length_eq_zero (by omega)

/-- A corrupted string is not one of the format. -/
theorem corrupted (h : Sealed L C k) (hC : Detects C n) {x y : List α} (hx : L x)
    (hc : Corrupts n x y) : ¬ L y := by
  intro hy
  cases hc with
  | truncated y lost hne => exact hne (h.prefix_free hy hx)
  | extended x more hne => exact hne (h.prefix_free hx hy)
  | damaged pre mid mid' post hlen hn hne =>
    obtain ⟨head, t, t', ht, ht', hcode, hcode'⟩ := h.code _ _ hx hy (by simp [hlen])
    obtain ⟨p, m, m', q, rfl, rfl, hm, hle⟩ := drop_window ht.symm ht'.symm hlen
    have hmid : m = m' := hC p m m' q hcode hcode' hm (by omega)
    rw [hmid, ← ht', List.append_assoc, List.append_assoc] at ht
    exact hne (List.append_cancel_right (List.append_cancel_left ht))

end Sealed
end Lib
