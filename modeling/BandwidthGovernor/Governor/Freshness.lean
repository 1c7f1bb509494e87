import Mathlib
import BandwidthGovernor.Governor.Gauges

/-! Measurements and their age.

    A measurement bounds the governed rate until the next refresh of the resource, and the rate
    decays with the age of the refresh. Two readings of zero break this: a measured rate of zero is
    taken for "nothing measured", so the nominal rate applies, and a refresh at time zero is taken
    for "never refreshed", so it does not age. -/

namespace BG

open Lib

/-! ### Between two refreshes -/

/-- Events that refresh the capacity information of a resource. -/
def Event.Refreshes (rid : ResourceId) : Event → Prop
  | .call (.updateCapacity res measured confidence _ _ _ _) => res = rid ∧
    acceptable measured confidence
  | .call op => op.Installs rid
  | _ => False

/-- Two gauges that differ at most in the generation and in being enabled. -/
structure Gauge.Same (c c' : Gauge) : Prop where
  nominal : c'.spec.nominal = c.spec.nominal
  measured : c'.measured = c.measured
  lastMs : c'.lastMs = c.lastMs
  health : c'.health = c.health

theorem Gauge.Same.refl (c : Gauge) : c.Same c := ⟨rfl, rfl, rfl, rfl⟩

theorem Gauge.Same.trans {c c' c'' : Gauge} (h : c.Same c') (h' : c'.Same c'') : c.Same c'' :=
  ⟨h'.nominal.trans h.nominal, h'.measured.trans h.measured, h'.lastMs.trans h.lastMs,
    h'.health.trans h.health⟩

theorem Op.edit_same {op : Op} {rid : ResourceId} (h : ¬ (Event.call op).Refreshes rid) (now : ℚ)
    (c : Gauge) : c.Same (op.edit now rid c) := by
  cases op with
  | updateCapacity res measured confidence provenance latency depth bump =>
    have hno : ¬ (res = rid ∧ acceptable measured confidence) := h
    simp only [Op.edit, if_neg hno]
    exact .refl c
  | setResourceEnabled res enabled =>
    simp only [Op.edit]
    split
    · exact ⟨rfl, rfl, rfl, rfl⟩
    · exact .refl c
  | invalidateResourceCapacity res =>
    simp only [Op.edit]
    split
    · exact ⟨rfl, rfl, rfl, rfl⟩
    · exact .refl c
  | _ => exact .refl c

namespace Governor
variable {rid : ResourceId}

theorem not_installs {op : Op} (h : ¬ (Event.call op).Refreshes rid) : ¬ op.Installs rid := by
  cases op with
  | updateCapacity =>
    rintro ⟨spec, hs, -⟩
    cases hs
  | _ => exact h

/-- A step that does not refresh the resource. -/
theorem step_quiet {g g' : Governor} {e : Event} (hs : g.Step e g') (hlive : e.live = true)
    (hq : ¬ e.Refreshes rid) {r : ResRT} (hr : g.resources.find? rid = some r) :
    ∃ r', g'.resources.find? rid = some r' ∧ r.gauge.Same r'.gauge ∧
      (r'.governed = g'.governedNow r' ∨ r'.governed = r.governed) := by
  cases hs with
  | call op =>
    have hedit := apply_edits g hlive (not_installs hq)
    have hgauge := hedit.gauge
    rw [gaugeOf_some hr, Option.map_some] at hgauge
    obtain ⟨r', hr', heq⟩ := find?_of_gauge hgauge
    refine ⟨r', hr', heq ▸ Op.edit_same hq g.now r.gauge, ?_⟩
    rcases hedit.governed r' hr' with h | ⟨r₀, hr₀, h⟩
    · exact Or.inl h
    · rw [hr, Option.some.injEq] at hr₀
      exact Or.inr (hr₀ ▸ h)
  | clock t => exact ⟨r, hr, .refl _, Or.inr rfl⟩
  | rehash h => exact ⟨r, (h.resources.find? rid).symm.trans hr, .refl _, Or.inr rfl⟩

/-! ### The governed rate -/

/-- The rate that is scaled by the freshness. -/
def applied (r : ResRT) : ℚ := if r.measured > 0 then r.measured else r.spec.nominal.value

theorem applied_mem {r : ResRT} (hm : r.measured ≤ kMaxRate) :
    0 ≤ applied r ∧ applied r ≤ kMaxRate := by
  unfold applied
  split
  · rename_i h
    exact ⟨h.le, hm⟩
  · exact ⟨r.spec.nominal.nonneg, r.spec.nominal.le_max⟩

/-- Valid measurements never meet the fallback to the nominal rate. -/
theorem governedNow_eq {g : Governor} {r : ResRT} (hm : r.measured ≤ kMaxRate) :
    g.governedNow r = if r.enabled = true ∧ r.health = .named .healthy then
      applied r * freshnessOf (r.staleness g.now) g.policy.fairnessWindowMs else 0 := by
  obtain ⟨h0, h1⟩ := applied_mem hm
  obtain ⟨hf0, hf1⟩ := freshnessOf_mem (r.staleness g.now) g.policy.fairnessWindowMs
  have hlo : ¬ applied r * freshnessOf (r.staleness g.now) g.policy.fairnessWindowMs < 0 :=
    not_lt.mpr (mul_nonneg h0 hf0)
  have hhi : ¬ applied r * freshnessOf (r.staleness g.now) g.policy.fairnessWindowMs > kMaxRate :=
    not_lt.mpr ((mul_le_of_le_one_right h0 hf1).trans h1)
  unfold governedNow governedOf
  change (if _ then (0 : ℚ) else if applied r * _ < 0 ∨ applied r * _ > kMaxRate then _ else
    applied r * _) = _
  rw [if_neg (not_or.mpr ⟨hlo, hhi⟩)]
  cases r.enabled <;> by_cases hh : r.health = .named .healthy <;> simp [hh]

theorem freshnessOf_zero (w : ℚ) : freshnessOf 0 w = 1 := by
  unfold freshnessOf
  simp

theorem staleness_now {g : Governor} {r : ResRT} (h : r.lastMs = g.now) :
    r.staleness g.now = 0 := by
  unfold ResRT.staleness
  split
  · rfl
  · rw [h, sub_self]

/-! ### Measurements -/

/-- The resource right after an accepted measurement. -/
theorem updateCapacity_find? {g : Governor} {r : ResRT} (hr : g.resources.find? rid = some r)
    {measured confidence : ℚ} (hok : acceptable measured confidence) (provenance : Str)
    (latency : ℚ)
    (depth : UInt64) (bump : Bool) :
    ∃ r', (g.apply (.updateCapacity rid measured confidence provenance latency depth
        bump)).resources.find? rid = some r' ∧
      r'.spec.nominal = r.spec.nominal ∧ r'.measured = measured ∧ r'.lastMs = g.now ∧
      r'.health = r.health ∧ r'.enabled = r.enabled ∧
      r'.governed = if r.enabled = true ∧ r.health = .named .healthy then
        (if measured > 0 then measured else r.spec.nominal.value) else 0 := by
  have hgauge := (g.updateCapacity_edits rid rid measured confidence provenance latency depth
    bump).gauge
  rw [gaugeOf_some hr, Option.map_some, Op.edit, if_pos ⟨rfl, hok⟩] at hgauge
  obtain ⟨r', hr', heq⟩ := find?_of_gauge hgauge
  have hfields : r'.spec.nominal = r.spec.nominal ∧ r'.measured = measured ∧ r'.lastMs = g.now ∧
      r'.health = r.health ∧ r'.enabled = r.enabled := by
    have h₁ :=
      congrArg (fun c : Gauge => (c.spec.nominal, c.measured, c.lastMs, c.health, c.enabled))
      heq
    cases bump <;> simpa [ResRT.gauge, Gauge.bump] using h₁
  obtain ⟨hn, hm, hl, hh, he⟩ := hfields
  refine ⟨r', hr', hn, hm, hl, hh, he, ?_⟩
  have hnow :
    (g.apply (.updateCapacity rid measured confidence provenance latency depth bump)).now =
      g.now := now_congr (apply_frame g rfl id)
  have hle : r'.measured ≤ kMaxRate := hm ▸ (isValidRate_iff.mp hok.1).2
  rw [updateCapacity_governed hr hok provenance latency depth bump hr', governedNow_eq hle,
    staleness_now (hl.trans hnow.symm), freshnessOf_zero, mul_one, applied, hn, hm, hh, he]

/-- The rate `m` bounds the governed rate of a resource from this state until its next refresh. -/
def BoundedBy (g : Governor) (rid : ResourceId) (m : ℚ) : Prop :=
  ∀ es g', (∀ e ∈ es, e.live = true ∧ ¬ e.Refreshes rid) → Lib.Run Governor.Step g es g' →
    ∃ r', g'.resources.find? rid = some r' ∧ r'.governed ≤ m

/-- When a measured rate bounds the governed one at any time. -/
theorem governedNow_le {g : Governor} {r : ResRT} (hm : 0 ≤ r.measured ∧ r.measured ≤ kMaxRate)
    (h : 0 < r.measured ∨ r.spec.nominal.value = 0 ∨ r.health ≠ .named .healthy) :
    g.governedNow r ≤ r.measured := by
  obtain ⟨hf0, hf1⟩ := freshnessOf_mem (r.staleness g.now) g.policy.fairnessWindowMs
  rw [governedNow_eq hm.2]
  split
  · rename_i hon
    have hle : applied r ≤ r.measured := by
      unfold applied
      split
      · exact le_refl _
      · rename_i hz
        rcases h with h | h | h
        · exact absurd h hz
        · rw [h]
          exact hm.1
        · exact absurd hon.2 h
    exact (mul_le_of_le_one_right (applied_mem hm.2).1 hf1).trans hle
  · exact hm.1

theorem boundedBy_of {g : Governor} {r : ResRT} (hr : g.resources.find? rid = some r)
    (hm : 0 ≤ r.measured ∧ r.measured ≤ kMaxRate) (hgov : r.governed ≤ r.measured)
    (h : 0 < r.measured ∨ r.spec.nominal.value = 0 ∨ r.health ≠ .named .healthy) :
    g.BoundedBy rid r.measured := by
  intro es g' hes hrun
  obtain ⟨r', hr', -, hle⟩ := hrun.inv_of
    (P := fun x => ∃ r', x.resources.find? rid = some r' ∧ r.gauge.Same r'.gauge ∧
      r'.governed ≤ r.measured) (Q := fun e => e.live = true ∧ ¬ e.Refreshes rid)
    (fun x e y hq ⟨r₁, hr₁, hsame, hle⟩ hs => by
      obtain ⟨r₂, hr₂, hsame₂, hnew⟩ := step_quiet hs hq.1 hq.2 hr₁
      have hall := hsame.trans hsame₂
      have hm₂ : r₂.measured = r.measured := hall.measured
      refine ⟨r₂, hr₂, hall, ?_⟩
      rcases hnew with hnow | hold
      · rw [hnow, ← hm₂]
        refine governedNow_le (hm₂ ▸ hm) ?_
        have hn₂ : r₂.spec.nominal = r.spec.nominal := hall.nominal
        have hh₂ : r₂.health = r.health := hall.health
        rw [hm₂, hn₂, hh₂]
        exact h
      · exact hold ▸ hle) hes ⟨r, hr, .refl _, hgov⟩
  exact ⟨r', hr', hle⟩

theorem enable_find? {g : Governor} {r : ResRT} (hr : g.resources.find? rid = some r) :
    ∃ r', (g.apply (.setResourceEnabled rid true)).resources.find? rid = some r' ∧
      r.gauge.Same r'.gauge ∧ r'.enabled = true := by
  have hgauge := (g.setResourceEnabled_edits rid rid true).gauge
  rw [gaugeOf_some hr, Option.map_some, Op.edit, if_pos rfl] at hgauge
  obtain ⟨r', hr', heq⟩ := find?_of_gauge hgauge
  refine ⟨r', hr', ?_, congrArg Gauge.enabled heq⟩
  rw [heq]
  exact ⟨rfl, rfl, rfl, rfl⟩

/-- The rate of a resource that is in use, after a tick. -/
theorem tick_rate {g : Governor} {r : ResRT} (hr : g.resources.find? rid = some r)
    (hm : r.measured ≤ kMaxRate) :
    ∃ r', (g.apply .tick).resources.find? rid = some r' ∧ r'.gauge = r.gauge ∧
      r'.governed = if r.enabled = true ∧ r.health = .named .healthy then
        applied r * freshnessOf (r.staleness g.now) g.policy.fairnessWindowMs else 0 := by
  obtain ⟨r', hr', heq⟩ := find?_of_gauge ((g.tick_keeps.gauge rid).trans (gaugeOf_some hr))
  refine ⟨r', hr', heq, ?_⟩
  rw [tick_governed hr', governedNow_congr g.tick_keeps.frame heq, governedNow_eq hm]

/-- A resource that was refreshed just now, enabled and ticked. -/
theorem enabled_tick_governed {g : Governor} {r : ResRT} (hr : g.resources.find? rid = some r)
    (hm : r.measured ≤ kMaxRate) (hl : r.lastMs = g.now) (hh : r.health = .named .healthy) :
    ∃ r', (g.after [.setResourceEnabled rid true, .tick]).resources.find? rid = some r' ∧
      r'.governed = applied r := by
  obtain ⟨r₁, hr₁, hsame, he₁⟩ := enable_find? hr
  have hm₁ : r₁.measured = r.measured := hsame.measured
  have hn₁ : r₁.spec.nominal = r.spec.nominal := hsame.nominal
  have hh₁ : r₁.health = .named .healthy := Eq.trans hsame.health hh
  have hnow : (g.apply (.setResourceEnabled rid true)).now = g.now :=
    now_congr (apply_frame g rfl id)
  have hl₁ : r₁.lastMs = (g.apply (.setResourceEnabled rid true)).now :=
    Eq.trans hsame.lastMs (hl.trans hnow.symm)
  obtain ⟨r', hr', -, hgov⟩ := tick_rate hr₁ (hm₁.trans_le hm)
  refine ⟨r', hr', ?_⟩
  rw [hgov, if_pos ⟨he₁, hh₁⟩, staleness_now hl₁, freshnessOf_zero, mul_one, applied, applied, hm₁,
    hn₁]

/-- What the governed rate is after a measurement, against what it is after a greater one. -/
theorem measured_order_iff {m m' n : ℚ} (hm : 0 ≤ m) (hle : m ≤ m') (on : Prop) [Decidable on] :
    (if on then (if m > 0 then m else n) else 0) ≤ (if on then (if m' > 0 then m' else n) else 0) ↔
      0 < m ∨ m' = 0 ∨ n ≤ m' ∨ ¬ on := by
  by_cases hon : on
  · rw [if_pos hon, if_pos hon]
    rcases hm.eq_or_lt with rfl | hpos
    · rcases hle.eq_or_lt with rfl | hpos'
      · simp
      · simp [hpos', hpos'.ne', hon]
    · rw [if_pos hpos, if_pos (hpos.trans_le hle)]
      exact iff_of_true hle (Or.inl hpos)
  · simp [hon]

end Governor

/-- Exactly when a measurement bounds the governed rate of a resource until the next refresh, in
    every state; and exactly when a smaller measurement leaves no greater rate than a greater
    one. -/
theorem measured_bounds_governed_iff {g : Governor} {rid : ResourceId} {r : ResRT}
    (hr : g.resources.find? rid = some r) {measured confidence : ℚ}
    (hok : acceptable measured confidence) (provenance : Str) (latency : ℚ) (depth : UInt64)
    (bump : Bool) :
    ((g.apply (.updateCapacity rid measured confidence provenance latency depth bump)).BoundedBy rid
        measured ↔
      0 < measured ∨ r.spec.nominal.value = 0 ∨ r.health ≠ .named .healthy) ∧
    ∀ measured' confidence' r₁ r₂, acceptable measured' confidence' → measured ≤ measured' →
      (g.apply (.updateCapacity rid measured confidence provenance latency depth
        bump)).resources.find? rid = some r₁ →
      (g.apply (.updateCapacity rid measured' confidence' provenance latency depth
        bump)).resources.find? rid = some r₂ →
      (r₁.governed ≤ r₂.governed ↔ 0 < measured ∨ measured' = 0 ∨
        r.spec.nominal.value ≤ measured' ∨ ¬ (r.enabled = true ∧ r.health = .named .healthy)) := by
  obtain ⟨r₀, hr₀, hn, hm, hl, hh, he, hgov⟩ :=
    Governor.updateCapacity_find? hr hok provenance latency depth bump
  have hmem := isValidRate_iff.mp hok.1
  refine
    ⟨⟨fun hbound => ?_, fun hcond => ?_⟩, fun measured' confidence' r₁ r₂ hok' hle hr₁ hr₂ => ?_⟩
  · -- enabled and ticked at once, a resource measured at zero runs at its nominal rate
    by_contra hno
    rw [not_or, not_or, not_lt, not_not] at hno
    have hzero : measured = 0 := le_antisymm hno.1 hmem.1
    have hnow : (g.apply (.updateCapacity rid measured confidence provenance latency depth
        bump)).now = g.now := Governor.now_congr (Governor.apply_frame g rfl id)
    obtain ⟨r', hr', hgov'⟩ := Governor.enabled_tick_governed hr₀ (hm ▸ hmem.2)
      (hl.trans hnow.symm) (hh.trans hno.2.2)
    have hquiet : ∀ e ∈ [Op.setResourceEnabled rid true, .tick].map Event.call,
        e.live = true ∧ ¬ e.Refreshes rid := by
      intro e he
      simp only [List.map_cons, List.map_nil, List.mem_cons, List.not_mem_nil, or_false] at he
      rcases he with rfl | rfl
      · exact ⟨rfl, fun ⟨spec, hs, _⟩ => by cases hs⟩
      · exact ⟨rfl, fun ⟨spec, hs, _⟩ => by cases hs⟩
    obtain ⟨r'', hr'', hle⟩ := hbound _ _ hquiet (Governor.run_after _ _)
    rw [hr', Option.some.injEq] at hr''
    rw [← hr'', hgov', Governor.applied, hm, hzero, if_neg (lt_irrefl _), hn] at hle
    exact hno.2.1 (le_antisymm hle r.spec.nominal.nonneg)
  · have hcond₀ : 0 < r₀.measured ∨ r₀.spec.nominal.value = 0 ∨ r₀.health ≠ .named .healthy := by
      rw [hm, hn, hh]
      exact hcond
    have hgov₀ : r₀.governed ≤ r₀.measured := by
      rw [Governor.updateCapacity_governed hr hok provenance latency depth bump hr₀]
      exact Governor.governedNow_le (hm ▸ hmem) hcond₀
    have hbound := Governor.boundedBy_of hr₀ (hm ▸ hmem) hgov₀ hcond₀
    rwa [hm] at hbound
  · obtain ⟨r₃, hr₃, -, -, -, -, -, hgov₃⟩ :=
      Governor.updateCapacity_find? hr hok' provenance latency depth bump
    rw [hr₀, Option.some.injEq] at hr₁
    rw [hr₃, Option.some.injEq] at hr₂
    rw [← hr₁, ← hr₂, hgov, hgov₃]
    exact Governor.measured_order_iff hmem.1 hle _

namespace Sample

/-- A measurement of link 1. -/
def measure (m : ℚ) : Op := .updateCapacity ⟨0, 1⟩ m 1 [] 0 0 false

theorem oneLink_find? : ∃ r, (start.after oneLink).resources.find? ⟨0, 1⟩ = some r ∧
    r.spec.nominal.value = 100 := by
  have h : ((start.after oneLink).resources.find? ⟨0, 1⟩).map (fun r => r.spec.nominal.value) =
      some 100 := by decide +kernel
  exact Option.map_eq_some_iff.mp h

end Sample

/-- The theorem for link 1 measured at 50. -/
theorem measured_bounds_governed_fifty : acceptable 50 1 ∧
    ((Sample.start.after Sample.oneLink).apply (Sample.measure 50)).BoundedBy ⟨0, 1⟩ 50 := by
  have hok : acceptable 50 1 := by decide +kernel
  obtain ⟨r, hr, -⟩ := Sample.oneLink_find?
  exact ⟨hok, (measured_bounds_governed_iff hr hok [] 0 0 false).1.mpr (Or.inl (by norm_num))⟩

/-- Link 1 is measured at zero and governed at its nominal rate. -/
theorem zero_measurement_governs_nominal :
    Reaches (Sample.oneLink.map Event.call) (Sample.start.after Sample.oneLink) ∧
    acceptable 0 1 ∧
    ((((Sample.start.after Sample.oneLink).apply (Sample.measure 0)).resources.find? ⟨0, 1⟩).map
      ResRT.governed = some 100) ∧
    ¬ ((Sample.start.after Sample.oneLink).apply (Sample.measure 0)).BoundedBy ⟨0, 1⟩ 0 := by
  have hgov : (((Sample.start.after Sample.oneLink).apply (Sample.measure 0)).resources.find?
      ⟨0, 1⟩).map ResRT.governed = some 100 := by decide +kernel
  refine ⟨Sample.reaches (by decide), by decide +kernel, hgov, fun hbound => ?_⟩
  obtain ⟨r, hr, hle⟩ := hbound [] _ (by simp) (.nil _)
  rw [hr, Option.map_some, Option.some.injEq] at hgov
  rw [hgov] at hle
  norm_num at hle

/-! ### Age -/

/-- Events of a run on the virtual clock, which does not go back. -/
def Event.Virtual : Event → Prop
  | .call (.setAutoClock auto) => auto = false
  | .call (.advanceMs dt) => 0 ≤ dt
  | _ => True

namespace Governor
variable {rid : ResourceId}

theorem Rehashed.frame {g h : Governor} (hr : g.Rehashed h) : h.frame = g.frame := by
  rw [hr.rest]
  rfl

/-- A step on the virtual clock keeps it and the policy, and time does not go back. -/
theorem step_virtual {g g' : Governor} {e : Event} (hs : g.Step e g') (hlive : e.live = true)
    (he : e.Virtual) (hv : g.autoClock = false) :
    g'.autoClock = false ∧ g'.policy = g.policy ∧ g.now ≤ g'.now := by
  have hframe : ∀ {x : Governor}, x.frame = g.frame → x.autoClock = false ∧ x.policy = g.policy ∧
      g.now ≤ x.now := by
    intro x hx
    have hnow := now_congr hx
    simp only [frame, Prod.mk.injEq] at hx
    exact ⟨hx.2.1.trans hv, hx.1, hnow.ge⟩
  have hnow : ∀ x : Governor, x.autoClock = false → x.now = x.virtualNow := fun x hx => by
    simp [now, hx]
  cases hs with
  | call op =>
    by_cases hc : op.MovesClock
    · cases op with
      | setAutoClock auto =>
        obtain rfl : auto = false := he
        exact ⟨rfl, rfl, by rw [hnow g hv]; exact le_refl g.virtualNow⟩
      | advanceMs dt =>
        have hdt : 0 ≤ dt := he
        refine ⟨hv, rfl, ?_⟩
        rw [hnow g hv, hnow (g.apply (.advanceMs dt)) hv]
        exact le_add_of_nonneg_right hdt
      | _ => exact hc.elim
    · exact hframe (apply_frame g hlive hc)
  | clock t =>
    refine ⟨hv, rfl, ?_⟩
    rw [hnow g hv, hnow { g with steadyNow := t } hv]
  | rehash h => exact hframe h.frame

/-- A listed resource is installed with nothing measured, at the current time. -/
theorem foldl_install_refreshes : ∀ (l : List ResourceSpec) (g : Governor),
    (∃ spec ∈ l, spec.id = rid) → ∃ c,
      (l.foldl (fun g rs => g.installResource rs id) g).gaugeOf rid = some c ∧
        c.lastMs = g.now ∧ c.measured = 0
  | [], _, ⟨_, hs, _⟩ => by cases hs
  | spec :: l, g, ⟨spec', hs, hid⟩ => by
    rw [List.foldl_cons]
    by_cases hl : ∃ s ∈ l, s.id = rid
    · obtain ⟨c, hc, ht, hm⟩ := foldl_install_refreshes l (g.installResource spec id) hl
      exact ⟨c, hc, ht.trans (now_congr (frame_install g spec id)), hm⟩
    · have hne : ∀ s ∈ l, s.id ≠ rid := fun s hs h => hl ⟨s, hs, h⟩
      have hspec : rid = spec.id := by
        rcases List.mem_cons.mp hs with rfl | hs
        · exact hid.symm
        · exact absurd hid (hne spec' hs)
      refine ⟨g.installGauge spec, ?_, rfl, rfl⟩
      rw [gaugeOf, foldl_install_keeps l _ hne]
      exact (gaugeOf_install g spec (fun _ => rfl) rid).trans (if_pos hspec)

/-- What a refresh leaves in the gauge. -/
theorem refresh_spec {g : Governor} {op : Op} (href : (Event.call op).Refreshes rid) {r : ResRT}
    (hr : (g.apply op).resources.find? rid = some r) :
    (g.apply op).frame = g.frame ∧ r.lastMs = g.now ∧ 0 ≤ r.measured ∧ r.measured ≤ kMaxRate := by
  have hfresh : ∀ {c : Gauge}, (g.apply op).gaugeOf rid = some c → c.lastMs = g.now →
      c.measured = 0 → r.lastMs = g.now ∧ 0 ≤ r.measured ∧ r.measured ≤ kMaxRate := by
    intro c hc hl hm
    rw [gaugeOf_some hr, Option.some.injEq] at hc
    have hm' : r.measured = 0 := (congrArg Gauge.measured hc).trans hm
    rw [hm']
    exact ⟨(congrArg Gauge.lastMs hc).trans hl, le_refl _, kMaxRate_nonneg⟩
  cases op with
  | updateCapacity res measured confidence provenance latency depth bump =>
    obtain ⟨rfl, hok⟩ := href
    refine ⟨apply_frame g rfl id, ?_⟩
    have hgauge := (g.updateCapacity_edits res res measured confidence provenance latency depth
      bump).gauge
    obtain ⟨c, hc, -⟩ := Option.map_eq_some_iff.mp (hgauge.symm.trans (gaugeOf_some hr))
    obtain ⟨r₀, hr₀, -⟩ := find?_of_gauge hc
    obtain ⟨r', hr', -, hm, hl, -⟩ :=
      updateCapacity_find? hr₀ hok provenance latency depth bump
    rw [hr, Option.some.injEq] at hr'
    rw [hr', hm, hl]
    exact ⟨rfl, isValidRate_iff.mp hok.1⟩
  | addResource spec =>
    obtain ⟨spec', hs, hid⟩ := href
    obtain rfl := List.mem_singleton.mp hs
    exact ⟨apply_frame g rfl id,
      hfresh ((g.addResource_gauge spec' rid).trans (if_pos hid.symm)) rfl rfl⟩
  | registerWorker reg =>
    obtain ⟨c, hc, hl, hm⟩ := foldl_install_refreshes reg.inventory g href
    exact
      ⟨apply_frame g rfl id, hfresh (((g.registerWorker_enrolled reg).gauge rid).trans hc) hl hm⟩
  | _ =>
    obtain ⟨spec, hs, -⟩ := href
    cases hs

/-- From a refresh at time `t₀` on, the governed rate of a tick decays with the age of the refresh
    over the window `w`. -/
def AgesFrom (g : Governor) (rid : ResourceId) (t₀ w : ℚ) : Prop :=
  ∀ es g', (∀ e ∈ es, e.live = true ∧ ¬ e.Refreshes rid ∧ e.Virtual) →
    Lib.Run Governor.Step g es g' →
    ∃ r', (g'.apply .tick).resources.find? rid = some r' ∧
      r'.governed ≤ max r'.spec.nominal.value r'.measured * max 0 (1 - (g'.now - t₀) / w) ∧
      (w ≤ g'.now - t₀ → r'.governed = 0)

theorem freshnessOf_age {age w : ℚ} (ha : 0 ≤ age) (hw : 0 < w) :
    freshnessOf age w = max 0 (1 - age / w) := by
  unfold freshnessOf
  rw [if_neg (not_le.mpr hw)]
  split
  · rename_i h
    have hz : age / w = 0 := le_antisymm h (div_nonneg ha hw.le)
    rw [hz]
    norm_num
  · split
    · rename_i h
      exact (max_eq_left (by linarith)).symm
    · rename_i h
      rw [not_le] at h
      exact (max_eq_right (by linarith)).symm

theorem applied_le (r : ResRT) : applied r ≤ max r.spec.nominal.value r.measured := by
  unfold applied
  split
  · exact le_max_right _ _
  · exact le_max_left _ _

/-- A resource whose refresh has a time other than zero, or which has no rate to decay, ages. -/
theorem agesFrom_of {g : Governor} {r : ResRT} (hr : g.resources.find? rid = some r)
    (hv : g.autoClock = false) (hw : 0 < g.policy.fairnessWindowMs) (hl : r.lastMs = g.now)
    (hm : 0 ≤ r.measured ∧ r.measured ≤ kMaxRate)
    (h : g.now ≠ 0 ∨ (r.spec.nominal.value = 0 ∧ r.measured = 0) ∨ r.health ≠ .named .healthy) :
    g.AgesFrom rid g.now g.policy.fairnessWindowMs := by
  intro es g' hes hrun
  obtain ⟨hpol, hle, r₁, hr₁, hsame⟩ := (hrun.inv_of
    (P := fun x => x.autoClock = false ∧ x.policy = g.policy ∧ g.now ≤ x.now ∧
      ∃ r', x.resources.find? rid = some r' ∧ r.gauge.Same r'.gauge)
    (Q := fun e => e.live = true ∧ ¬ e.Refreshes rid ∧ e.Virtual)
    (fun x e y hq ⟨hvx, hpol, hle, r₁, hr₁, hsame⟩ hs => by
      obtain ⟨hv', hpol', hle'⟩ := step_virtual hs hq.1 hq.2.2 hvx
      obtain ⟨r₂, hr₂, hsame₂, -⟩ := step_quiet hs hq.1 hq.2.1 hr₁
      exact ⟨hv', hpol'.trans hpol, hle.trans hle', r₂, hr₂, hsame.trans hsame₂⟩)
    hes ⟨hv, rfl, le_refl _, r, hr, .refl _⟩).2
  have hm₁ : r₁.measured = r.measured := hsame.measured
  have hn₁ : r₁.spec.nominal = r.spec.nominal := hsame.nominal
  have hl₁ : r₁.lastMs = g.now := Eq.trans hsame.lastMs hl
  have hage : 0 ≤ g'.now - g.now := sub_nonneg.mpr hle
  obtain ⟨r', hr', hgauge, hgov⟩ := tick_rate hr₁ (hm₁.trans_le hm.2)
  have hm' : r'.measured = r₁.measured := congrArg Gauge.measured hgauge
  have hn' : r'.spec.nominal = r₁.spec.nominal :=
    congrArg (fun c : Gauge => c.spec.nominal) hgauge
  have hdecay : r'.governed ≤ max r'.spec.nominal.value r'.measured *
      max 0 (1 - (g'.now - g.now) / g.policy.fairnessWindowMs) := by
    have hnonneg : 0 ≤ max r₁.spec.nominal.value r₁.measured *
        max 0 (1 - (g'.now - g.now) / g.policy.fairnessWindowMs) :=
      mul_nonneg (le_max_of_le_left r₁.spec.nominal.nonneg) (le_max_left _ _)
    rw [hgov, hn', hm']
    split
    · rename_i hon
      rcases h with hne | ⟨hn, hz⟩ | hh
      · have hstale : r₁.staleness g'.now = g'.now - g.now := by
          rw [ResRT.staleness, hl₁, if_neg hne]
        rw [hstale, hpol, freshnessOf_age hage hw]
        exact mul_le_mul_of_nonneg_right (applied_le r₁) (le_max_left _ _)
      · have hzero : applied r₁ = 0 := by
          rw [applied, hm₁, hz, if_neg (lt_irrefl _), hn₁, hn]
        rw [hzero, zero_mul]
        exact hnonneg
      · exact absurd (Eq.trans hsame.health.symm hon.2) hh
    · exact hnonneg
  refine ⟨r', hr', hdecay, fun hold => ?_⟩
  have hover : 1 - (g'.now - g.now) / g.policy.fairnessWindowMs ≤ 0 := by
    rw [sub_nonpos, le_div_iff₀ hw, one_mul]
    exact hold
  rw [max_eq_left hover, mul_zero] at hdecay
  refine le_antisymm hdecay ?_
  rw [tick_governed hr']
  exact governedOf_nonneg _ _ _ _ _

end Governor

/-- A rate that applies at all is positive. -/
theorem Governor.applied_pos {r : ResRT} (hm : 0 ≤ r.measured)
    (h : ¬ (r.spec.nominal.value = 0 ∧ r.measured = 0)) : 0 < Governor.applied r := by
  unfold Governor.applied
  split
  · assumption
  · rename_i hz
    have hzero : r.measured = 0 := le_antisymm (not_lt.mp hz) hm
    exact lt_of_le_of_ne r.spec.nominal.nonneg fun hn => h ⟨hn.symm, hzero⟩

/-- Exactly when the governed rate of a resource decays with the age of its last refresh, on the
    virtual clock and for a positive window: the refresh has a time other than zero, or the resource
    has no rate or is not healthy. -/
theorem stale_capacity_decays_iff {g : Governor} {op : Op} {rid : ResourceId}
    (href : (Event.call op).Refreshes rid) {r : ResRT}
    (hr : (g.apply op).resources.find? rid = some r) (hv : g.autoClock = false)
    (hw : 0 < g.policy.fairnessWindowMs) :
    (g.apply op).AgesFrom rid g.now g.policy.fairnessWindowMs ↔
      g.now ≠ 0 ∨ (r.spec.nominal.value = 0 ∧ r.measured = 0) ∨ r.health ≠ .named .healthy := by
  obtain ⟨hframe, hl, hm⟩ := Governor.refresh_spec href hr
  have hnow := Governor.now_congr hframe
  have hpol : (g.apply op).policy = g.policy := congrArg Prod.fst hframe
  have hv' : (g.apply op).autoClock = false := (congrArg (fun x => x.2.1) hframe).trans hv
  constructor
  · intro hages
    by_contra hno
    rw [not_or, not_or, not_not, not_not] at hno
    obtain ⟨hzero, hrate, hh⟩ := hno
    -- enabled, and then left alone for the whole window: no age is seen
    obtain ⟨r₂, hr₂, hsame, he₂⟩ := Governor.enable_find? hr
    have hm₂ : r₂.measured = r.measured := hsame.measured
    have hn₂ : r₂.spec.nominal = r.spec.nominal := hsame.nominal
    have hframe₂ : ((g.apply op).apply (.setResourceEnabled rid true)).frame = g.frame :=
      (Governor.apply_frame _ rfl id).trans hframe
    have hquiet : ∀ e ∈ [Op.setResourceEnabled rid true,
        .advanceMs g.policy.fairnessWindowMs].map Event.call,
        e.live = true ∧ ¬ e.Refreshes rid ∧ e.Virtual := by
      intro e he
      simp only [List.map_cons, List.map_nil, List.mem_cons, List.not_mem_nil, or_false] at he
      rcases he with rfl | rfl
      · exact ⟨rfl, fun ⟨spec, hs, _⟩ => (by cases hs), trivial⟩
      · exact ⟨rfl, fun ⟨spec, hs, _⟩ => (by cases hs), hw.le⟩
    obtain ⟨r', hr', -, hold⟩ := hages _ _ hquiet (Governor.run_after _ _)
    have hr₃ : ((g.apply op).after [.setResourceEnabled rid true,
        .advanceMs g.policy.fairnessWindowMs]).resources.find? rid = some r₂ := hr₂
    obtain ⟨r'', hr'', -, hgov⟩ := Governor.tick_rate hr₃ (hm₂.trans_le hm.2)
    rw [hr', Option.some.injEq] at hr''
    subst hr''
    have hstale : r₂.lastMs = 0 := Eq.trans hsame.lastMs (hl.trans hzero)
    have hclock : ((g.apply op).after [.setResourceEnabled rid true,
        .advanceMs g.policy.fairnessWindowMs]).now = g.policy.fairnessWindowMs := by
      simp only [Governor.frame, Prod.mk.injEq] at hframe₂
      obtain ⟨-, hauto, hvirtual, -⟩ := hframe₂
      have hstart : g.virtualNow = 0 := by
        rw [← hzero, Governor.now, hv]
        rfl
      change (if ((g.apply op).apply (.setResourceEnabled rid true)).autoClock then _ else
        ((g.apply op).apply (.setResourceEnabled rid true)).virtualNow +
          g.policy.fairnessWindowMs) = _
      rw [hauto, hv, hvirtual, hstart, if_neg Bool.false_ne_true, zero_add]
    rw [hclock, hzero, sub_zero] at hold
    rw [hold (le_refl _), if_pos ⟨he₂, Eq.trans hsame.health hh⟩, ResRT.staleness, if_pos hstale,
      Governor.freshnessOf_zero, mul_one, Governor.applied, hm₂, hn₂] at hgov
    exact (Governor.applied_pos hm.1 hrate).ne hgov
  · intro h
    have := Governor.agesFrom_of hr hv' (hpol ▸ hw) (hl.trans hnow.symm) hm (hnow ▸ h)
    rwa [hnow, hpol] at this

namespace Sample

/-- Switch to the virtual clock and let some time pass. -/
def wait (dt : ℚ) : List Op := [.setAutoClock false, .advanceMs dt]

/-- Link 1 is registered at time zero, and nothing happens for 2000 ms. -/
def unseen : List Op := wait 0 ++ [.addResource (link 1 100), .advanceMs 2000]

end Sample

/-- The theorem for link 1, registered one millisecond after the start. -/
theorem stale_capacity_decays_late :
    (Event.call (.addResource (Sample.link 1 100))).Refreshes ⟨0, 1⟩ ∧
    (Sample.start.after (Sample.wait 1)).autoClock = false ∧
    0 < (Sample.start.after (Sample.wait 1)).policy.fairnessWindowMs ∧
    ((Sample.start.after (Sample.wait 1)).apply (.addResource (Sample.link 1 100))).AgesFrom ⟨0, 1⟩
      (Sample.start.after (Sample.wait 1)).now
      (Sample.start.after (Sample.wait 1)).policy.fairnessWindowMs := by
  have href : (Event.call (.addResource (Sample.link 1 100))).Refreshes ⟨0, 1⟩ :=
    ⟨_, List.mem_singleton.mpr rfl, rfl⟩
  have hw : 0 < (Sample.start.after (Sample.wait 1)).policy.fairnessWindowMs := by decide +kernel
  have hnow : (Sample.start.after (Sample.wait 1)).now ≠ 0 := by decide +kernel
  obtain ⟨r, hr, -⟩ := Governor.find?_of_gauge
    ((Governor.addResource_gauge (Sample.start.after (Sample.wait 1)) (Sample.link 1 100)
      ⟨0, 1⟩).trans (if_pos rfl))
  exact ⟨href, rfl, hw, (stale_capacity_decays_iff href hr rfl hw).mpr (Or.inl hnow)⟩

/-- Link 1 is registered at time zero; a window of 2000 ms later a tick still governs all of it. -/
theorem refresh_at_zero_never_ages :
    Reaches (Sample.unseen.map Event.call) (Sample.start.after Sample.unseen) ∧
    (Sample.start.after (Sample.wait 0)).now = 0 ∧
    (((Sample.start.after Sample.unseen).apply .tick).resources.find? ⟨0, 1⟩).map ResRT.governed =
      some 100 ∧
    ¬ ((Sample.start.after (Sample.wait 0)).apply
      (.addResource (Sample.link 1 100))).AgesFrom ⟨0, 1⟩
      0 2000 := by
  have hgov : (((Sample.start.after Sample.unseen).apply .tick).resources.find? ⟨0, 1⟩).map
      ResRT.governed = some 100 := by decide +kernel
  have hnow : (Sample.start.after Sample.unseen).now = 2000 := by decide +kernel
  refine ⟨Sample.reaches (by decide), by decide +kernel, hgov, fun hages => ?_⟩
  have hquiet : ∀ e ∈ [Event.call (.advanceMs 2000)],
      e.live = true ∧ ¬ e.Refreshes ⟨0, 1⟩ ∧ e.Virtual := by
    intro e he
    obtain rfl := List.mem_singleton.mp he
    exact ⟨rfl, fun ⟨spec, hs, _⟩ => (by cases hs), by norm_num [Event.Virtual]⟩
  obtain ⟨r, hr, -, hold⟩ := hages _ _ hquiet (.single (.call _ (.advanceMs 2000)))
  have hr' : ((Sample.start.after Sample.unseen).apply .tick).resources.find? ⟨0, 1⟩ = some r := hr
  rw [hr', Option.map_some, Option.some.injEq] at hgov
  have hzero := hold (by rw [sub_zero]; exact hnow.ge)
  rw [hzero] at hgov
  norm_num at hgov

end BG
