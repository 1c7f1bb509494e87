import Mathlib
import BandwidthGovernor.Governor.Gauges

/-! The capacity generations of the resources along runs.

    A bump moves a generation to its successor. `add_resource` and the inventory of
    `register_worker` overwrite it instead, with the caller's value or a fresh one. Where no write
    puts in a smaller value than the one on file and no bump meets the last value, generations only
    grow. -/

namespace BG

open Lib

/-! ### The order of identities -/

namespace Id128
variable {t : IdTag} {a b c : Id128 t}

/-- The two words as one number. -/
def value (a : Id128 t) : ℕ := a.hi.toNat * 2 ^ 64 + a.lo.toNat

theorem value_injective {t : IdTag} : Function.Injective (value (t := t)) := by
  rintro ⟨hi, lo⟩ ⟨hi', lo'⟩ h
  have hlo := lo.toNat_lt
  have hlo' := lo'.toNat_lt
  simp only [value] at h
  have h1 : hi.toNat = hi'.toNat := by omega
  have h2 : lo.toNat = lo'.toNat := by omega
  rw [UInt64.toNat_inj.mp h1, UInt64.toNat_inj.mp h2]

/-- `operator<` compares the numbers. -/
theorem lt_iff : a.lt b = true ↔ a.value < b.value := by
  have ha := a.lo.toNat_lt
  have hb := b.lo.toNat_lt
  unfold lt value
  split
  · rename_i h
    have hne : a.hi.toNat ≠ b.hi.toNat := fun he => h (UInt64.toNat_inj.mp he)
    rw [decide_eq_true_iff, UInt64.lt_iff_toNat_lt]
    omega
  · rename_i h
    rw [not_not] at h
    rw [decide_eq_true_iff, UInt64.lt_iff_toNat_lt, h]
    omega

/-- Not after `b` in the order of `operator<`. -/
def le (a b : Id128 t) : Prop := b.lt a = false

instance : Decidable (a.le b) := inferInstanceAs (Decidable (_ = _))

theorem le_iff : a.le b ↔ a.value ≤ b.value := by
  rw [le, ← Bool.not_eq_true, lt_iff, not_lt]

theorem le_refl (a : Id128 t) : a.le a := le_iff.mpr (Nat.le_refl _)

theorem le.trans (h : a.le b) (h' : b.le c) : a.le c :=
  le_iff.mpr ((le_iff.mp h).trans (le_iff.mp h'))

/-- The greatest identity, both words all ones. -/
def isLast (a : Id128 t) : Bool := a.hi + 1 == 0 && a.lo + 1 == 0

end Id128

theorem toNat_succ {x : UInt64} (h : x + 1 ≠ 0) : (x + 1).toNat = x.toNat + 1 := by
  have hlt := x.toNat_lt
  have hne : (x + 1).toNat ≠ 0 := fun he => h (UInt64.toNat_inj.mp he)
  rw [UInt64.toNat_add] at hne ⊢
  simp only [UInt64.toNat_one] at hne ⊢
  omega

/-- The successor is greater, except for the last identity. -/
theorem lt_nextGeneration {t : IdTag} {a : Id128 t} (h : a.isLast = false) :
    a.lt (nextGeneration a) = true := by
  have hor : (a.lo + 1).toNat ≤ ((a.lo + 1) ||| 1).toNat := by
    rw [UInt64.toNat_or]
    exact Nat.left_le_or
  have hlo := a.lo.toNat_lt
  rw [Id128.lt_iff, Id128.value, Id128.value, nextGeneration]
  dsimp only
  split
  · rename_i hz
    have hhi : a.hi + 1 ≠ 0 := fun he => by simp [Id128.isLast, he, hz] at h
    have := toNat_succ hhi
    omega
  · rename_i hz
    have := toNat_succ hz
    omega

/-! ### Steps that keep the order -/

/-- Whether an operation bumps the generation of a registered resource. -/
def Op.Bumps (rid : ResourceId) : Op → Prop
  | .updateCapacity res measured confidence _ _ _ bump =>
    res = rid ∧ acceptable measured confidence ∧ bump = true
  | .invalidateResourceCapacity res => res = rid
  | _ => False

def Event.Bumps (rid : ResourceId) : Event → Prop
  | .call op => op.Bumps rid
  | _ => False

namespace Governor

/-- The generation under which `spec` is installed is not before the one on file. -/
def InstallsAhead (g : Governor) (spec : ResourceSpec) : Prop :=
  ∀ r, g.resources.find? spec.id = some r →
    r.spec.generation.le (g.installedSpec spec).generation

/-- The same for the entries of an inventory, one after the other. -/
def EnrolsAhead : Governor → List ResourceSpec → Prop
  | _, [] => True
  | g, spec :: l => g.InstallsAhead spec ∧ EnrolsAhead (g.installResource spec id) l

/-- The step writes no generation before the one on file and bumps no generation that is the
    last. -/
def Advances (g : Governor) : Event → Prop
  | .call (.addResource spec) => g.InstallsAhead spec
  | .call (.registerWorker reg) => g.EnrolsAhead reg.inventory
  | .call op => ∀ rid r, op.Bumps rid → g.resources.find? rid = some r →
      r.spec.generation.isLast = false
  | _ => True

theorem edit_generation {op : Op} {rid : ResourceId} (now : ℚ) (c : Gauge) :
    (¬ op.Bumps rid ∧ (op.edit now rid c).spec.generation = c.spec.generation) ∨
      op.Bumps rid ∧ (op.edit now rid c).spec.generation = nextGeneration c.spec.generation := by
  cases op with
  | updateCapacity res measured confidence provenance latency depth bump =>
    by_cases h : res = rid ∧ acceptable measured confidence
    · cases bump with
      | false => exact Or.inl ⟨fun hb => Bool.false_ne_true hb.2.2, by simp [Op.edit, h]⟩
      | true => exact Or.inr ⟨⟨h.1, h.2, rfl⟩, by simp [Op.edit, h, Gauge.bump]⟩
    · exact Or.inl ⟨fun hb => h ⟨hb.1, hb.2.1⟩, by simp [Op.edit, h]⟩
  | invalidateResourceCapacity res =>
    by_cases h : res = rid
    · exact Or.inr ⟨h, by simp [Op.edit, h, Gauge.bump]⟩
    · exact Or.inl ⟨h, by simp [Op.edit, h]⟩
  | setResourceEnabled res enabled =>
    refine Or.inl ⟨id, ?_⟩
    simp only [Op.edit]
    split <;> rfl
  | _ => exact Or.inl ⟨id, rfl⟩

variable {rid : ResourceId}

/-- An operation that does not install the resource keeps its generation or bumps it. -/
theorem apply_generation {g : Governor} {op : Op} (hlive : (Event.call op).live = true)
    (hi : ¬ op.Installs rid) {r : ResRT} (hr : g.resources.find? rid = some r)
    (hlast : op.Bumps rid → r.spec.generation.isLast = false) :
    ∃ r', (g.apply op).resources.find? rid = some r' ∧
      r.spec.generation.le r'.spec.generation ∧
      (op.Bumps rid → r.spec.generation.lt r'.spec.generation = true) := by
  have hgauge := (apply_edits g hlive hi).gauge
  rw [gaugeOf_some hr, Option.map_some] at hgauge
  obtain ⟨r', hr', heq⟩ := find?_of_gauge hgauge
  have hgen : r'.spec.generation = (op.edit g.now rid r.gauge).spec.generation :=
    congrArg (fun c : Gauge => c.spec.generation) heq
  refine ⟨r', hr', ?_⟩
  rcases edit_generation g.now r.gauge with ⟨hno, he⟩ | ⟨hb, he⟩
  · rw [hgen, he]
    exact ⟨Id128.le_refl _, fun h => absurd h hno⟩
  · have hlt := lt_nextGeneration (hlast hb)
    rw [hgen, he]
    exact ⟨Id128.le_iff.mpr (Id128.lt_iff.mp hlt).le, fun _ => hlt⟩

theorem install_generation {g : Governor} {spec : ResourceSpec} {write : ResRT → ResRT}
    (hw : ∀ r, (write r).gauge = r.gauge) (ha : g.InstallsAhead spec) {r : ResRT}
    (hr : g.resources.find? rid = some r) :
    ∃ r', (g.installResource spec write).resources.find? rid = some r' ∧
      r.spec.generation.le r'.spec.generation := by
  have hgauge := gaugeOf_install g spec hw rid
  by_cases h : rid = spec.id
  · rw [if_pos h] at hgauge
    obtain ⟨r', hr', heq⟩ := find?_of_gauge hgauge
    have hgen : r'.spec = g.installedSpec spec := congrArg Gauge.spec heq
    exact ⟨r', hr', by rw [hgen]; exact ha r (h ▸ hr)⟩
  · rw [if_neg h, gaugeOf_some hr] at hgauge
    obtain ⟨r', hr', heq⟩ := find?_of_gauge hgauge
    have hspec : r'.spec = r.spec := congrArg Gauge.spec heq
    exact ⟨r', hr', by rw [hspec]; exact Id128.le_refl _⟩

theorem enrol_generation : ∀ (l : List ResourceSpec) {g : Governor} {r : ResRT}, g.EnrolsAhead l →
    g.resources.find? rid = some r →
    ∃ r', (l.foldl (fun g rs => g.installResource rs id) g).resources.find? rid = some r' ∧
      r.spec.generation.le r'.spec.generation
  | [], _, r, _, hr => ⟨r, hr, Id128.le_refl _⟩
  | spec :: l, g, r, ha, hr => by
    obtain ⟨r₁, hr₁, hle⟩ := install_generation (fun _ => rfl) ha.1 hr
    obtain ⟨r', hr', hle'⟩ := enrol_generation l ha.2 hr₁
    exact ⟨r', hr', hle.trans hle'⟩

theorem Keeps.generation {g g' : Governor} (h : g.Keeps g') {r : ResRT}
    (hr : g.resources.find? rid = some r) :
    ∃ r', g'.resources.find? rid = some r' ∧ r'.spec.generation = r.spec.generation := by
  obtain ⟨r', hr', heq⟩ := find?_of_gauge ((h.gauge rid).trans (gaugeOf_some hr))
  exact ⟨r', hr', congrArg (fun c : Gauge => c.spec.generation) heq⟩

/-- One step under the condition. -/
theorem step_generation {g g' : Governor} {e : Event} (hs : g.Step e g') (hlive : e.live = true)
    (ha : g.Advances e) {r : ResRT} (hr : g.resources.find? rid = some r) :
    ∃ r', g'.resources.find? rid = some r' ∧ r.spec.generation.le r'.spec.generation ∧
      (e.Bumps rid → r.spec.generation.lt r'.spec.generation = true) := by
  cases hs with
  | call op =>
    cases op with
    | addResource spec =>
      have hw : ∀ r : ResRT, ({ r with confidence := 0 } : ResRT).gauge = r.gauge := fun _ => rfl
      obtain ⟨r₁, hr₁, hle⟩ := install_generation hw ha hr
      obtain ⟨r', hr', heq⟩ := (Keeps.recomputeGoverned _).generation hr₁
      exact ⟨r', hr', heq ▸ hle, fun h => h.elim⟩
    | registerWorker reg =>
      obtain ⟨r₁, hr₁, hle⟩ := enrol_generation reg.inventory ha hr
      obtain ⟨r', hr', heq⟩ := (g.registerWorker_enrolled reg).generation hr₁
      exact ⟨r', hr', heq ▸ hle, fun h => h.elim⟩
    | _ =>
      refine apply_generation hlive (fun hi => ?_) hr fun hb => ha rid r hb hr
      obtain ⟨spec, hspec, -⟩ := hi
      cases hspec
  | clock t => exact ⟨r, hr, Id128.le_refl _, fun h => h.elim⟩
  | rehash h => exact ⟨r, (h.resources.find? rid).symm.trans hr, Id128.le_refl _, fun h => h.elim⟩

end Governor

/-- In every run without restoration whose steps all advance, from whatever state, the generation of
    a resource is never before an earlier one, and after a bump it is past every generation from
    before the bump: a superseded generation does not recur. -/
theorem generations_never_go_back {g g' : Governor} {es : List Event}
    (hrun : Lib.Run (fun g e g' => g.Step e g' ∧ e.live = true ∧ g.Advances e) g es g')
    {rid : ResourceId} {r : ResRT} (hr : g.resources.find? rid = some r) :
    ∃ r', g'.resources.find? rid = some r' ∧ r.spec.generation.le r'.spec.generation ∧
      ((∃ e ∈ es, e.Bumps rid) → r.spec.generation.lt r'.spec.generation = true) := by
  induction hrun generalizing r with
  | nil g => exact ⟨r, hr, Id128.le_refl _, fun ⟨e, he, _⟩ => by cases he⟩
  | cons hstep _ ih =>
    obtain ⟨hs, hlive, ha⟩ := hstep
    obtain ⟨r₁, hr₁, hle₁, hlt₁⟩ := Governor.step_generation hs hlive ha hr
    obtain ⟨r', hr', hle, hlt⟩ := ih hr₁
    refine ⟨r', hr', hle₁.trans hle, ?_⟩
    rintro ⟨e, he, hb⟩
    rw [Id128.lt_iff]
    rcases List.mem_cons.mp he with rfl | he
    · exact (Id128.lt_iff.mp (hlt₁ hb)).trans_le (Id128.le_iff.mp hle)
    · exact (Id128.le_iff.mp hle₁).trans_lt (Id128.lt_iff.mp (hlt ⟨e, he, hb⟩))

namespace Sample

/-- Link 1 is registered, its capacity invalidated, and the link registered again. -/
def reinstalled : List Op :=
  [.invalidateResourceCapacity ⟨0, 1⟩, .addResource (link 1 100)]

def generationOf (g : Governor) : Option CapacityGeneration :=
  (g.resources.find? ⟨0, 1⟩).map fun r => r.spec.generation

end Sample

/-- The theorem for link 1 when its capacity is invalidated. -/
theorem generations_never_go_back_invalidated : ∃ r r',
    (Sample.start.after Sample.oneLink).resources.find? ⟨0, 1⟩ = some r ∧
    ((Sample.start.after Sample.oneLink).apply
      (.invalidateResourceCapacity ⟨0, 1⟩)).resources.find? ⟨0, 1⟩ = some r' ∧
    r.spec.generation.lt r'.spec.generation = true := by
  have hgen : Sample.generationOf (Sample.start.after Sample.oneLink) = some ⟨0, 1⟩ := by
    decide +kernel
  obtain ⟨r, hr, hval⟩ := Option.map_eq_some_iff.mp hgen
  have hadv : (Sample.start.after Sample.oneLink).Advances
      (.call (.invalidateResourceCapacity ⟨0, 1⟩)) := by
    rintro rid r₁ (rfl : _ = rid) hr₁
    rw [hr, Option.some.injEq] at hr₁
    rw [← hr₁, hval]
    decide
  obtain ⟨r', hr', -, hlt⟩ := generations_never_go_back
    (.single ⟨.call _ (.invalidateResourceCapacity ⟨0, 1⟩), rfl, hadv⟩) hr
  exact ⟨r, r', hr, hr', hlt ⟨_, List.mem_singleton.mpr rfl, rfl⟩⟩

/-- Invalidation moves link 1 from generation 1 to 3; registering the link again puts 1 back. -/
theorem superseded_generation_recurs :
    Reaches (Sample.oneLink.map Event.call) (Sample.start.after Sample.oneLink) ∧
    Lib.Run Governor.Step (Sample.start.after Sample.oneLink) (Sample.reinstalled.map Event.call)
      ((Sample.start.after Sample.oneLink).after Sample.reinstalled) ∧
    Sample.generationOf (Sample.start.after Sample.oneLink) = some ⟨0, 1⟩ ∧
    Sample.generationOf ((Sample.start.after Sample.oneLink).apply
      (.invalidateResourceCapacity ⟨0, 1⟩)) = some ⟨0, 3⟩ ∧
    Sample.generationOf ((Sample.start.after Sample.oneLink).after Sample.reinstalled) =
      some ⟨0, 1⟩ := by
  refine ⟨Sample.reaches (by decide), Governor.run_after _ _, ?_, ?_, ?_⟩
  · decide +kernel
  · decide +kernel
  · decide +kernel

end BG
