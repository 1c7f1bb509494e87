import BandwidthGovernor.Lib.Codec

/-! Layouts: a reader described by the bytes it takes.

    A layout relates the words of a record to its bytes. A reader that lays out its records so is
    sound (what it takes has the layout) and complete (it takes whatever has it), and both carry
    over to lists of records. -/

namespace Lib

section
variable {ε α ω : Type}

/-- The reader takes the records of layout `L`; `rel` ties what it yields to their words. -/
structure Lays (L : ω → Bytes → Prop) (rel : α → ω → Prop) (r : Reader ε α) : Prop where
  sound : ∀ {s a s'}, r.run s = .ok (a, s') → ∃ w b, s = b ++ s' ∧ L w b ∧ rel a w
  complete : ∀ {w b} (s'), L w b → ∃ a, r.run (b ++ s') = .ok (a, s') ∧ rel a w

namespace Lays
variable {L : ω → Bytes → Prop} {rel : α → ω → Prop} {r : Reader ε α}

/-- On a record the reader can only yield what its words say. -/
theorem unique (h : Lays L rel r) {w : ω} {b s s' : Bytes} {a : α} (hw : L w b)
    (hr : r.run (b ++ s) = .ok (a, s')) : rel a w ∧ s' = s := by
  obtain ⟨a', ha', hrel⟩ := h.complete s hw
  rw [hr] at ha'
  cases ha'
  exact ⟨hrel, rfl⟩

/-- A reader that also checks what it yields, where the check is one on the words. -/
theorem checked {P : α → Prop} {Q : ω → Prop} {r' : Reader ε α} (h : Lays L rel r)
    (hc : Checks P r' r) (hPQ : ∀ {a w}, rel a w → (P a ↔ Q w)) :
    Lays (fun w b => L w b ∧ Q w) rel r' where
  sound := by
    intro s a s' ha
    obtain ⟨hr, hP⟩ := (hc s a s').mp ha
    obtain ⟨w, b, rfl, hw, hrel⟩ := h.sound hr
    exact ⟨w, b, rfl, ⟨hw, (hPQ hrel).mp hP⟩, hrel⟩
  complete := by
    rintro w b s' ⟨hw, hQ⟩
    obtain ⟨a, ha, hrel⟩ := h.complete s' hw
    exact ⟨a, (hc _ a s').mpr ⟨ha, (hPQ hrel).mpr hQ⟩, hrel⟩

theorem many_sound (h : Lays L rel r) {n : ℕ} {s s' : Bytes} {l : List α}
    (hr : (getMany r n).run s = .ok (l, s')) :
    ∃ ws bs, s = bs.flatten ++ s' ∧ ws.length = n ∧ List.Forall₂ L ws bs ∧
      List.Forall₂ rel l ws := by
  induction n generalizing s l with
  | zero =>
    obtain ⟨rfl, rfl⟩ := run_pure_iff.mp hr
    exact ⟨[], [], rfl, rfl, .nil, .nil⟩
  | succ n ih =>
    obtain ⟨a, s₁, ha, hr⟩ := run_bind_eq_ok hr
    obtain ⟨xs, s₂, hxs, hr⟩ := run_bind_eq_ok hr
    obtain ⟨rfl, rfl⟩ := run_pure_iff.mp hr
    obtain ⟨w, b, rfl, hw, hrel⟩ := h.sound ha
    obtain ⟨ws, bs, rfl, hlen, hws, hrels⟩ := ih hxs
    refine ⟨w :: ws, b :: bs, ?_, by rw [List.length_cons, hlen], .cons hw hws, .cons hrel hrels⟩
    rw [List.flatten_cons, List.append_assoc]

theorem many_unique (h : Lays L rel r) {ws : List ω} {bs : List Bytes} {s s' : Bytes} {l : List α}
    (hws : List.Forall₂ L ws bs)
    (hr : (getMany r ws.length).run (bs.flatten ++ s) = .ok (l, s')) : List.Forall₂ rel l ws := by
  induction hws generalizing s' l with
  | nil =>
    obtain ⟨rfl, -⟩ := run_pure_iff.mp hr
    exact .nil
  | cons hw _ ih =>
    rw [List.flatten_cons, List.append_assoc] at hr
    obtain ⟨a, s₁, ha, hr⟩ := run_bind_eq_ok hr
    obtain ⟨xs, s₂, hxs, hr⟩ := run_bind_eq_ok hr
    obtain ⟨rfl, -⟩ := run_pure_iff.mp hr
    obtain ⟨hrel, rfl⟩ := h.unique hw ha
    exact .cons hrel (ih hxs)

end Lays

/-- Records with distinct keys are records. -/
theorem getDistinct_eq_ok {κ : Type} [DecidableEq κ] {r : Reader ε α} {key : α → κ} {e : ε} {n : ℕ}
    {seen : List κ} {s s' : Bytes} {l : List α}
    (hr : (getDistinct r key e seen n).run s = .ok (l, s')) :
    (getMany r n).run s = .ok (l, s') ∧ (∀ a ∈ l, key a ∉ seen) ∧ (l.map key).Nodup := by
  induction n generalizing seen s s' l with
  | zero =>
    obtain ⟨rfl, rfl⟩ := run_pure_iff.mp hr
    exact ⟨rfl, by simp⟩
  | succ n ih =>
    obtain ⟨a, s₁, ha, hr⟩ := run_bind_eq_ok hr
    obtain ⟨hnew, hr⟩ := require_bind_eq_ok hr
    obtain ⟨xs, s₂, hxs, hr⟩ := run_bind_eq_ok hr
    obtain ⟨rfl, rfl⟩ := run_pure_iff.mp hr
    obtain ⟨hmany, hseen, hnd⟩ := ih hxs
    simp only [List.mem_cons, not_or] at hseen
    rw [decide_eq_true_eq] at hnew
    refine ⟨?_, ?_, ?_⟩
    · rw [getMany, run_bind_ok ha, run_bind_ok hmany]
      rfl
    · rw [List.forall_mem_cons]
      exact ⟨hnew, fun x hx => (hseen x hx).2⟩
    · simp only [List.map_cons, List.nodup_cons, List.mem_map, not_exists, not_and]
      exact ⟨fun x hx => (hseen x hx).1, hnd⟩

/-- A list of records whose bytes are a function of the record. -/
theorem getMany_iff {r : Reader ε α} {enc : α → Bytes}
    (h : ∀ {a s s'}, r.run s = .ok (a, s') ↔ s = enc a ++ s') {n : ℕ} {l : List α} {s s' : Bytes} :
    (getMany r n).run s = .ok (l, s') ↔ s = l.flatMap enc ++ s' ∧ l.length = n := by
  induction n generalizing l s s' with
  | zero =>
    rw [getMany, run_pure_iff, List.length_eq_zero_iff]
    constructor
    · rintro ⟨rfl, rfl⟩
      exact ⟨rfl, rfl⟩
    · rintro ⟨rfl, rfl⟩
      exact ⟨rfl, rfl⟩
  | succ n ih =>
    simp only [getMany, run_bind_iff, run_pure_iff, h, ih]
    constructor
    · rintro ⟨a, _, rfl, xs, _, ⟨rfl, rfl⟩, rfl, rfl⟩
      exact ⟨by rw [List.flatMap_cons, List.append_assoc], rfl⟩
    · rintro ⟨rfl, hlen⟩
      cases l with
      | nil => cases hlen
      | cons a xs =>
        refine ⟨a, xs.flatMap enc ++ s', ?_, xs, s', ⟨rfl, Nat.succ.inj hlen⟩, rfl, rfl⟩
        rw [List.flatMap_cons, List.append_assoc]

/-! ### Readers that do not look ahead -/

/-- These bytes are read as `a`, whatever follows them. -/
def Takes (r : Reader ε α) (a : α) (b : Bytes) : Prop := ∀ t, r.run (b ++ t) = .ok (a, t)

/-- The reader takes what it reads from the front and looks at nothing else. -/
def Local (r : Reader ε α) : Prop :=
  ∀ s a s', r.run s = .ok (a, s') → ∃ b, s = b ++ s' ∧ Takes r a b

namespace Local
variable {β : Type} {r : Reader ε α} {f : α → Reader ε β}

theorem lays (h : Local r) : Lays (Takes r) Eq r where
  sound := by
    intro s a s' hr
    obtain ⟨b, hs, hb⟩ := h s a s' hr
    exact ⟨a, b, hs, hb, rfl⟩
  complete := fun s' hb => ⟨_, hb s', rfl⟩

/-- What is read to the end of a record is read in front of anything. -/
theorem takes (h : Local r) {a : α} {b : Bytes} (hr : r.run b = .ok (a, [])) : Takes r a b := by
  obtain ⟨b', rfl, hb⟩ := h b a [] hr
  rwa [List.append_nil]

theorem pure (a : α) : Local (Pure.pure a : Reader ε α) := by
  intro s b s' hr
  obtain ⟨rfl, rfl⟩ := run_pure_iff.mp hr
  exact ⟨[], rfl, fun _ => rfl⟩

theorem bind (h : Local r) (hf : ∀ a, Local (f a)) : Local (r >>= f) := by
  intro s b s' hr
  obtain ⟨a, s₁, ha, hb⟩ := run_bind_eq_ok hr
  obtain ⟨b₁, rfl, h₁⟩ := h s a s₁ ha
  obtain ⟨b₂, rfl, h₂⟩ := hf a s₁ b s' hb
  refine ⟨b₁ ++ b₂, (List.append_assoc ..).symm, fun t => ?_⟩
  rw [List.append_assoc, run_bind_ok (h₁ (b₂ ++ t))]
  exact h₂ t

theorem map (h : Local r) (g : α → β) : Local (g <$> r) := by
  rw [map_eq_pure_bind]
  exact h.bind fun a => .pure (g a)

theorem bytes (short : ε) (n : ℕ) : Local (getBytes short n) := by
  intro s b s' hr
  obtain ⟨rfl, rfl⟩ := getBytes_iff.mp hr
  exact ⟨b, rfl, fun t => getBytes_append short b t⟩

theorem require (c : Bool) (e : ε) : Local (Lib.require c e) := by
  intro s b s' hr
  by_cases hc : c = true
  · rw [run_require_true hc] at hr
    cases hr
    exact ⟨[], rfl, fun t => run_require_true hc e t⟩
  · rw [run_require_false hc] at hr
    cases hr

theorem throw (e : ε) : Local (MonadExcept.throw e : Reader ε α) := fun _ _ _ hr => by cases hr

theorem many (h : Local r) : ∀ n, Local (getMany r n)
  | 0 => .pure []
  | n + 1 => h.bind fun _ => (many h n).bind fun _ => .pure _

end Local

end

end Lib
