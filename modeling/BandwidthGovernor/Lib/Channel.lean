import Mathlib.Data.Nat.Notation
import Mathlib.Logic.Function.Basic

/-! First-in-first-out channels between parties, one per key.

    `Carries` is the invariant of everything under way: a protocol proves of its messages what holds
    when they are sent and cannot become false afterwards, and uses it where they are received. -/

namespace Lib

/-- What has been sent and not received yet, oldest first. -/
structure Channels (K M : Type) where
  pending : K → List M

namespace Channels
variable {K M : Type}

def empty : Channels K M := ⟨fun _ => []⟩

section Rules
variable {P Q : K → M → Prop} {n : Channels K M}

/-- Every message under way satisfies `P`. -/
def Carries (P : K → M → Prop) (n : Channels K M) : Prop := ∀ k, ∀ m ∈ n.pending k, P k m

theorem carries_empty : (empty : Channels K M).Carries P := fun _ _ hm => by cases hm

theorem Carries.mono (h : n.Carries P) (hPQ : ∀ k m, P k m → Q k m) : n.Carries Q :=
  fun k m hm => hPQ k m (h k m hm)

/-- What is received satisfied `P` when it was under way. -/
theorem Carries.taken (h : n.Carries P) {k : K} {i : ℕ} {m : M}
    (hm : m ∈ (n.pending k).take i) : P k m := h k m (List.mem_of_mem_take hm)

end Rules

variable [DecidableEq K]

def send (n : Channels K M) (k : K) (ms : List M) : Channels K M :=
  ⟨Function.update n.pending k (n.pending k ++ ms)⟩

/-- The receiver has taken the oldest `i` messages. -/
def take (n : Channels K M) (k : K) (i : ℕ) : Channels K M :=
  ⟨Function.update n.pending k ((n.pending k).drop i)⟩

/-- What is under way is lost. -/
def cut (n : Channels K M) (k : K) : Channels K M := ⟨Function.update n.pending k []⟩

section Changes
variable {P : K → M → Prop} {n : Channels K M}

/-- A channel is changed to hold messages that are all known to satisfy `P`. -/
theorem Carries.update (h : n.Carries P) {k : K} {ms : List M} (hms : ∀ m ∈ ms, P k m) :
    (⟨Function.update n.pending k ms⟩ : Channels K M).Carries P := by
  intro x m hm
  change m ∈ Function.update n.pending k ms x at hm
  by_cases hx : x = k
  · subst hx
    rw [Function.update_self] at hm
    exact hms m hm
  · rw [Function.update_of_ne hx] at hm
    exact h x m hm

theorem Carries.send (h : n.Carries P) {k : K} {ms : List M} (hms : ∀ m ∈ ms, P k m) :
    (n.send k ms).Carries P :=
  h.update fun m hm => (List.mem_append.mp hm).elim (h k m) (hms m)

theorem Carries.take (h : n.Carries P) (k : K) (i : ℕ) : (n.take k i).Carries P :=
  h.update fun m hm => h k m (List.mem_of_mem_drop hm)

theorem Carries.cut (h : n.Carries P) (k : K) : (n.cut k).Carries P :=
  h.update fun _ hm => by cases hm

theorem mem_of_take {k x : K} {i : ℕ} {m : M} (hm : m ∈ (n.take k i).pending x) :
    m ∈ n.pending x :=
  (show n.Carries fun x m => m ∈ n.pending x from fun _ _ h => h).take k i x m hm

theorem mem_of_cut {k x : K} {m : M} (hm : m ∈ (n.cut k).pending x) : m ∈ n.pending x :=
  (show n.Carries fun x m => m ∈ n.pending x from fun _ _ h => h).cut k x m hm

end Changes

@[simp] theorem send_self (n : Channels K M) (k : K) (ms : List M) :
    (n.send k ms).pending k = n.pending k ++ ms := Function.update_self ..

theorem send_of_ne (n : Channels K M) {k x : K} (ms : List M) (h : x ≠ k) :
    (n.send k ms).pending x = n.pending x := Function.update_of_ne h ..

@[simp] theorem take_self (n : Channels K M) (k : K) (i : ℕ) :
    (n.take k i).pending k = (n.pending k).drop i := Function.update_self ..

theorem take_of_ne (n : Channels K M) {k x : K} (i : ℕ) (h : x ≠ k) :
    (n.take k i).pending x = n.pending x := Function.update_of_ne h ..

end Channels
end Lib
