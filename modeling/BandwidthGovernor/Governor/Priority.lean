import Mathlib
import BandwidthGovernor.FillOrder
import BandwidthGovernor.Governor.Queue
import BandwidthGovernor.Governor.Writes

/-! Whether a higher priority ever gets less.

    The composite weight is `2 ^ priority` times a factor that flows alike in everything else share.
    The allocator sanitises it: from `kMaxRate` on, a weight counts as 1. Up to that the tick is
    monotone in the priority; a weight that is sanitised falls behind every weight above 1. -/

namespace BG

open Lib

/-- Flows that differ only in id, attempt, generation and priority, and are alike in age. -/
structure Twins (f h : FlowRT) : Prop where
  spec : h.spec = { f.spec with
    id := h.spec.id, attempt := h.spec.attempt, generation := h.spec.generation
    priority := h.spec.priority }
  starvation : h.starvationMs = f.starvationMs
  admitted : h.admittedMs = f.admittedMs
  burst : h.burstRemaining = f.burstRemaining

deriving instance DecidableEq for FlowSpec, PolicyConfig

instance (f h : FlowRT) : Decidable (Twins f h) :=
  decidable_of_iff (h.spec = { f.spec with
      id := h.spec.id, attempt := h.spec.attempt, generation := h.spec.generation
      priority := h.spec.priority } ∧ h.starvationMs = f.starvationMs ∧
    h.admittedMs = f.admittedMs ∧ h.burstRemaining = f.burstRemaining)
    ⟨fun ⟨h₁, h₂, h₃, h₄⟩ => ⟨h₁, h₂, h₃, h₄⟩, fun ⟨h₁, h₂, h₃, h₄⟩ => ⟨h₁, h₂, h₃, h₄⟩⟩

/-! ### Weights -/

theorem sanitiseWeight_of_lt {w : ℚ} (hpos : 0 < w) (hlt : w < kMaxRate) :
    sanitiseWeight w = w := by
  simp [sanitiseWeight, hpos, hlt]

theorem sanitiseWeight_of_ge {w : ℚ} (hge : kMaxRate ≤ w) : sanitiseWeight w = 1 := by
  simp [sanitiseWeight, hge]

/-- When sanitising keeps the order of two weights. -/
theorem sanitiseWeight_le_iff {w w' : ℚ} (hpos : 0 < w) (hle : w ≤ w') :
    sanitiseWeight w ≤ sanitiseWeight w' ↔ w' < kMaxRate ∨ kMaxRate ≤ w ∨ w ≤ 1 := by
  rcases lt_or_ge w' kMaxRate with hlt | hge
  · rw [sanitiseWeight_of_lt hpos (hle.trans_lt hlt), sanitiseWeight_of_lt (hpos.trans_le hle) hlt]
    exact iff_of_true hle (Or.inl hlt)
  · rw [sanitiseWeight_of_ge hge]
    rcases lt_or_ge w kMaxRate with hw | hw
    · rw [sanitiseWeight_of_lt hpos hw]
      simp [not_lt.mpr hge, not_le.mpr hw]
    · rw [sanitiseWeight_of_ge hw]
      exact iff_of_true le_rfl (Or.inr (Or.inl hw))

namespace Governor

/-- The factor of a latency class; a code without a name has none. -/
def classWeight (p : PolicyConfig) : Coded LatencyClass → ℚ
  | .named .latencySensitive => p.latencySensitiveWeight
  | .named .throughputOriented => p.throughputWeight
  | .named .bestEffort => p.bestEffortWeight
  | .unnamed _ _ => 1

/-- What multiplies the priority in the composite weight. -/
def weightFactor (g : Governor) (f : FlowRT) (nowMs : ℚ) : ℚ :=
  classWeight g.policy f.spec.latencyClass *
  (if f.spec.deadlineSeconds > 0 then
      1 + g.policy.deadlineWeight * deadlinePressure g.policy f nowMs else 1) *
  (1 + g.policy.starvationWeight * max 0 (starvationRamp g.policy f)) *
  ((g.tenants.find? f.spec.tenant).map g.fairnessFactor).getD 1 *
  if f.burstRemaining > 0 then 11 / 10 else 1

theorem flowWeight_eq (g : Governor) (f : FlowRT) (nowMs : ℚ) : g.flowWeight f nowMs =
    g.policy.basePriorityWeight ^ f.spec.priority.toInt.toNat * g.weightFactor f nowMs := by
  unfold flowWeight weightFactor classWeight
  dsimp only
  generalize g.policy.basePriorityWeight ^ f.spec.priority.toInt.toNat = w
  generalize deadlinePressure g.policy f nowMs = d
  generalize starvationRamp g.policy f = s
  rcases f.spec.latencyClass with ⟨_ | _ | _⟩ | _ <;>
    cases g.tenants.find? f.spec.tenant <;> dsimp only [Option.map, Option.getD] <;>
      split <;> split <;> ring

theorem weightFactor_pos {g : Governor} (hpol : g.policy = {}) (f : FlowRT) (nowMs : ℚ) :
    0 < g.weightFactor f nowMs := by
  have hclass : 0 < classWeight g.policy f.spec.latencyClass := by
    rw [hpol]
    unfold classWeight
    split <;> norm_num
  have hdeadline : 0 < (if f.spec.deadlineSeconds > 0 then
      1 + g.policy.deadlineWeight * deadlinePressure g.policy f nowMs else 1) := by
    have hp : 0 ≤ deadlinePressure g.policy f nowMs := (clamp_mem zero_le_one).1
    have hw : 0 ≤ g.policy.deadlineWeight := by rw [hpol]; norm_num
    split
    · linarith [mul_nonneg hw hp]
    · exact one_pos
  have hstarve : 0 < 1 + g.policy.starvationWeight * max 0 (starvationRamp g.policy f) := by
    have hw : 0 ≤ g.policy.starvationWeight := by rw [hpol]; norm_num
    linarith [mul_nonneg hw (le_max_left 0 (starvationRamp g.policy f))]
  have htenant : 0 < ((g.tenants.find? f.spec.tenant).map g.fairnessFactor).getD 1 := by
    cases g.tenants.find? f.spec.tenant with
    | none => exact one_pos
    | some t =>
      have hq : (1 / 4 : ℚ) ≤ 4 := by norm_num
      exact lt_of_lt_of_le (by norm_num) (clamp_mem hq).1
  have hburst : (0 : ℚ) < if f.burstRemaining > 0 then 11 / 10 else 1 := by
    split <;> norm_num
  exact mul_pos (mul_pos (mul_pos (mul_pos hclass hdeadline) hstarve) htenant) hburst

/-- Twins share everything of the weight but the priority. -/
theorem weightFactor_twins (g : Governor) {f h : FlowRT} (ht : Twins f h) (nowMs : ℚ) :
    g.weightFactor h nowMs = g.weightFactor f nowMs := by
  unfold weightFactor deadlinePressure starvationRamp
  rw [ht.starvation, ht.admitted, ht.burst, ht.spec]

theorem flowWeight_twins {g : Governor} (hpol : g.policy = {}) {f h : FlowRT} (ht : Twins f h)
    (hprio : f.spec.priority ≤ h.spec.priority) (nowMs : ℚ) :
    0 < g.flowWeight f nowMs ∧ g.flowWeight f nowMs ≤ g.flowWeight h nowMs := by
  have hpos := weightFactor_pos hpol f nowMs
  have hexp : f.spec.priority.toInt.toNat ≤ h.spec.priority.toInt.toNat :=
    Int.toNat_le_toNat (Int32.le_iff_toInt_le.mp hprio)
  rw [flowWeight_eq, flowWeight_eq, weightFactor_twins g ht, hpol]
  constructor
  · positivity
  · exact mul_le_mul_of_nonneg_right (pow_le_pow_right₀ (by norm_num) hexp) hpos.le

/-! ### Grants -/

/-- On one resource, of two contenders with the same rates the lighter gets at most `kEps` more. -/
theorem ratesOn_mono {g : Governor} {t : ℚ} {rid : ResourceId} {r : ResRT} {f h : FlowRT} {v v' : ℚ}
    (hf : (g.allocEntry t f, v) ∈
      ((g.contenders rid).map (g.allocEntry t)).zip (g.ratesOn t rid r))
    (hh : (g.allocEntry t h, v') ∈
      ((g.contenders rid).map (g.allocEntry t)).zip (g.ratesOn t rid r))
    (hmin : f.spec.requestedMin = h.spec.requestedMin)
    (hwant : f.spec.requestedPreferred = h.spec.requestedPreferred)
    (hmax : f.spec.requestedMax = h.spec.requestedMax)
    (hw : sanitiseWeight (g.flowWeight f t) ≤ sanitiseWeight (g.flowWeight h t)) :
    v ≤ v' + kEps := by
  have hcaps : ∀ e ∈ (g.contenders rid).map (g.allocEntry t), 0 ≤ e.max := by
    intro e he
    obtain ⟨x, -, rfl⟩ := List.mem_map.mp he
    exact x.spec.requestedMax.nonneg
  obtain ⟨i, hi⟩ := List.mem_iff_getElem?.mp hf
  obtain ⟨j, hj⟩ := List.mem_iff_getElem?.mp hh
  rw [List.getElem?_zip_eq_some] at hi hj
  -- the allocator clamps every envelope first, so the entries count as consistent ones
  have hvalid : ∀ e ∈ ((g.contenders rid).map (g.allocEntry t)).map AllocEntry.normal, e.Valid := by
    intro e he
    obtain ⟨x, hx, rfl⟩ := List.mem_map.mp he
    exact AllocEntry.normal_valid (hcaps x hx)
  have hat : ∀ {k : ℕ} {e : AllocEntry}, ((g.contenders rid).map (g.allocEntry t))[k]? = some e →
      (((g.contenders rid).map (g.allocEntry t)).map AllocEntry.normal)[k]? = some e.normal := by
    intro k e he
    rw [List.getElem?_map, he]
    rfl
  have hrates : g.ratesOn t rid r = (allocateWeighted (((g.contenders rid).map
      (g.allocEntry t)).map AllocEntry.normal) (max 0 (r.governed - r.reserved))).granted :=
    (allocateWeighted_normal hcaps _).symm
  rw [hrates] at hi hj
  refine allocateWeighted_mono hvalid _ (hat hi.1) (hat hj.1) hi.2 hj.2 ?_ ?_ hw
  · simp only [AllocEntry.normal, allocEntry, hmin, hmax]
  · simp only [AllocEntry.normal, allocEntry, hmin, hmax, hwant]

/-- Twins on the same path: the lighter is granted at most `kEps` more. -/
theorem grantOf_mono {g : Governor} (hk : g.FlowsKeyed) {t : ℚ} {fid hid : FlowId} {f h : FlowRT}
    (hf : g.flows.find? fid = some f) (hh : g.flows.find? hid = some h)
    (hsf : isScheduled f.state = true) (hsh : isScheduled h.state = true) (ht : Twins f h)
    (hw : sanitiseWeight (g.flowWeight f t) ≤ sanitiseWeight (g.flowWeight h t)) :
    g.grantOf t fid ≤ g.grantOf t hid + kEps := by
  have hcross : ∀ rid, g.crosses rid h = g.crosses rid f := fun rid =>
    crosses_congr (g := g) rfl (by rw [ht.spec]) rid
  rcases grantOf_cases hk t hid with ⟨hnone, h0⟩ | ⟨rid, r, ⟨e, v'⟩, hr, hx, hxid, hv'⟩
  · -- without a registered hop neither is offered anything
    rcases grantOf_cases hk t fid with ⟨-, h0'⟩ | ⟨rid, r, ⟨e, v⟩, hr, hx, hxid, -⟩
    · rw [h0, h0']
      linarith [kEps_pos]
    · obtain ⟨f', hf', rfl⟩ := List.mem_map.mp (List.of_mem_zip hx).1
      obtain rfl : f' = f := hk.contender_eq hf' hxid hf
      have hc : g.crosses rid f' = true := by
        have := (List.mem_filter.mp hf').2
        simpa [hsf] using this
      exact absurd hnone (grantMin_ne_none hk t hh hsh hr ((hcross rid).trans hc))
  · obtain ⟨h', hh', rfl⟩ := List.mem_map.mp (List.of_mem_zip hx).1
    obtain rfl : h' = h := hk.contender_eq hh' hxid hh
    have hc : g.crosses rid h' = true := by
      have := (List.mem_filter.mp hh').2
      simpa [hsh] using this
    obtain ⟨v, hv⟩ := exists_offer t hf hsf r ((hcross rid).symm.trans hc)
    have hid' : (g.allocEntry t f).flow = fid := hk fid f hf
    have hle : g.grantOf t fid ≤ v := hid' ▸ grantOf_le_offer hk hr hv
    have hmono := ratesOn_mono hv hx (by rw [ht.spec]) (by rw [ht.spec]) (by rw [ht.spec]) hw
    rw [← hv']
    exact hle.trans hmono

/-! ### The tick -/

/-- The state a tick arbitrates. -/
def prepared (g : Governor) : Governor := g.aged.drained.recomputeGoverned.recomputeReserved

theorem tick_prepared (g : Governor) : g.tick = .ok g.prepared.arbitrated := by
  rw [tick, prepareTick_eq]
  exact arbitrate_eq _

theorem prepared_flows (g : Governor) : ∃ edit : FlowId → FlowRT → FlowRT,
    (∀ fid f, (edit fid f).spec = f.spec) ∧
      ∀ fid, g.prepared.flows.find? fid = (g.flows.find? fid).map (edit fid) := by
  obtain ⟨age, hage, hflows⟩ := g.aged_eq
  obtain ⟨rid, hrid⟩ := g.aged.drained_flows
  refine ⟨fun fid f => g.aged.served (rid fid) (age f), fun fid f => ?_, fun fid => ?_⟩
  · have hserved : (g.aged.served (rid fid) (age f)).spec = (age f).spec := by
      unfold served
      split
      · split <;> rfl
      · rfl
    rw [hserved]
    exact (hage f).1
  · have hold : g.aged.flows.find? fid = (g.flows.find? fid).map age := by
      rw [hflows]
      exact Table.find?_mapVals ..
    change g.aged.drained.flows.find? fid = _
    rw [hrid, hold, Option.map_map]
    rfl

theorem prepared_keyed {g : Governor} (h : g.FlowsKeyed) : g.prepared.FlowsKeyed := by
  obtain ⟨edit, hspec, hfind⟩ := g.prepared_flows
  intro fid f hf
  rw [hfind] at hf
  obtain ⟨f₀, hf₀, rfl⟩ := Option.map_eq_some_iff.mp hf
  rw [hspec]
  exact h fid f₀ hf₀

theorem prepared_policy (g : Governor) : g.prepared.policy = g.policy := by
  obtain ⟨fs, rs, gen, hrest⟩ := g.aged.drained_rest
  unfold prepared
  rw [hrest]
  rfl

/-- Sanitising does not invert the weights of `f` and `h`: the heavier stays below `kMaxRate`, or
    both reach it, or the lighter does not exceed the weight 1 a sanitised flow counts with. -/
def KeepsOrder (g : Governor) (f h : FlowRT) : Prop :=
  g.flowWeight h g.now < kMaxRate ∨ kMaxRate ≤ g.flowWeight f g.now ∨ g.flowWeight f g.now ≤ 1

end Governor

/-- Priority is monotone while sanitising keeps the order of the weights. In every state of every
    run, restorations included, under the default policy: of two flows that are scheduled in a tick
    and differ only in id, attempt, generation and priority, the one with the lower priority is
    granted at most `kEps` more. -/
theorem priority_monotone {g₀ g : Governor} {es : List Event} (hfresh : g₀.Fresh)
    (hrun : Lib.Run Governor.Step g₀ es g) (hpol : g.policy = {}) :
    ∃ g₁ g₂, g.prepareTick = .ok g₁ ∧ g.tick = .ok g₂ ∧
      ∀ fid hid f h, g₁.flows.find? fid = some f → g₁.flows.find? hid = some h →
        isScheduled f.state = true → isScheduled h.state = true → Twins f h →
        f.spec.priority ≤ h.spec.priority → g₁.KeepsOrder f h →
        ∃ f₂ h₂, g₂.flows.find? fid = some f₂ ∧ g₂.flows.find? hid = some h₂ ∧
          f₂.granted ≤ h₂.granted + kEps := by
  have hk := Governor.prepared_keyed (flowsKeyed_of_run hfresh hrun)
  have hpol₁ : g.prepared.policy = {} := (g.prepared_policy).trans hpol
  refine
    ⟨_, _, g.prepareTick_eq, g.tick_prepared, fun fid hid f h hf hh hsf hsh ht hprio hord => ?_⟩
  change g.prepared.flows.find? fid = some f at hf
  change g.prepared.flows.find? hid = some h at hh
  change g.prepared.KeepsOrder f h at hord
  generalize g.prepared = g₁ at hk hpol₁ hf hh hord
  obtain ⟨hpos, hle⟩ := Governor.flowWeight_twins hpol₁ ht hprio g₁.now
  have hmono :=
    Governor.grantOf_mono hk hf hh hsf hsh ht ((sanitiseWeight_le_iff hpos hle).mpr hord)
  refine ⟨g₁.settled g₁.now fid f, g₁.settled g₁.now hid h, ?_, ?_, ?_⟩
  · rw [Governor.arbitrated_flows, Table.find?_mapVals, hf]
    rfl
  · rw [Governor.arbitrated_flows, Table.find?_mapVals, hh]
    rfl
  · rw [Governor.settled_granted hsf, Governor.settled_granted hsh]
    exact hmono

/-- Two flows of the given priorities on a shared link of rate 100. -/
def Sample.prioritised (p q : Int32) : List Op := Sample.oneLink ++
  [.submitFlow { Sample.flow 1 1 10 80 100 with priority := p },
    .submitFlow { Sample.flow 2 1 10 80 100 with priority := q }]

/-- Whether two flows are twins in the order of their priorities that a tick schedules. -/
def Governor.ranked (g : Governor) (fid hid : FlowId) : Bool :=
  match g.prepared.flows.find? fid, g.prepared.flows.find? hid with
  | some f, some h => isScheduled f.state && isScheduled h.state && decide (Twins f h) &&
      decide (f.spec.priority ≤ h.spec.priority)
  | _, _ => false

theorem Governor.ranked_spec {g : Governor} {fid hid : FlowId} (hg : g.ranked fid hid = true) :
    ∃ f h, g.prepared.flows.find? fid = some f ∧ g.prepared.flows.find? hid = some h ∧
      isScheduled f.state = true ∧ isScheduled h.state = true ∧ Twins f h ∧
      f.spec.priority ≤ h.spec.priority := by
  unfold ranked at hg
  split at hg
  · rename_i f h hf hh
    simp only [Bool.and_eq_true, decide_eq_true_eq] at hg
    exact ⟨f, h, hf, hh, hg.1.1.1, hg.1.1.2, hg.1.2, hg.2⟩
  · cases hg

/-- The theorem at priorities 1 and 3. -/
theorem priority_monotone_low : ∃ g₂ f₂ h₂,
    (Sample.start.after (Sample.prioritised 1 3)).tick = .ok g₂ ∧
      g₂.flows.find? ⟨0, 1⟩ = some f₂ ∧ g₂.flows.find? ⟨0, 2⟩ = some h₂ ∧
      f₂.granted ≤ h₂.granted + kEps := by
  have hrank : (Sample.start.after (Sample.prioritised 1 3)).ranked ⟨0, 1⟩ ⟨0, 2⟩ = true := by
    decide +kernel
  have hlight : ((Sample.start.after (Sample.prioritised 1 3)).prepared.flows.find? ⟨0, 2⟩).all
      (fun h => decide ((Sample.start.after (Sample.prioritised 1 3)).prepared.flowWeight h
        (Sample.start.after (Sample.prioritised 1 3)).prepared.now < kMaxRate)) = true := by
    decide +kernel
  obtain ⟨f, h, hf, hh, hsf, hsh, ht, hprio⟩ := Governor.ranked_spec hrank
  obtain ⟨g₁, g₂, hprep, htick, hmono⟩ := priority_monotone Sample.start_fresh
    (Governor.run_after (Sample.prioritised 1 3) Sample.start) (by decide +kernel)
  obtain rfl :
    Governor.prepared _ = g₁ := Except.ok.inj ((Governor.prepareTick_eq _).symm.trans hprep)
  rw [hh, Option.all_some, decide_eq_true_eq] at hlight
  obtain ⟨f₂, h₂, hf₂, hh₂, hle⟩ := hmono _ _ f h hf hh hsf hsh ht hprio (Or.inl hlight)
  exact ⟨g₂, f₂, h₂, htick, hf₂, hh₂, hle⟩

/-- At priorities 58 and 60 the heavier weight is sanitised to 1: flow 1 of priority 58 gets its
    preferred rate 80, flow 2 of priority 60 gets 20. -/
theorem priority_inverted : ∃ g₁ g₂ f h f₂ h₂,
    Reaches ((Sample.prioritised 58 60).map Event.call)
      (Sample.start.after (Sample.prioritised 58 60)) ∧
    (Sample.start.after (Sample.prioritised 58 60)).policy = {} ∧
    (Sample.start.after (Sample.prioritised 58 60)).prepareTick = .ok g₁ ∧
    (Sample.start.after (Sample.prioritised 58 60)).tick = .ok g₂ ∧
    g₁.flows.find? ⟨0, 1⟩ = some f ∧ g₁.flows.find? ⟨0, 2⟩ = some h ∧
    isScheduled f.state = true ∧ isScheduled h.state = true ∧ Twins f h ∧
    f.spec.priority ≤ h.spec.priority ∧
    g₂.flows.find? ⟨0, 1⟩ = some f₂ ∧ g₂.flows.find? ⟨0, 2⟩ = some h₂ ∧
    h₂.granted + kEps < f₂.granted := by
  have hrank : (Sample.start.after (Sample.prioritised 58 60)).ranked ⟨0, 1⟩ ⟨0, 2⟩ = true := by
    decide +kernel
  have hgrants : ((Sample.start.after (Sample.prioritised 58 60)).prepared.arbitrated.flows.find?
      ⟨0, 1⟩).map FlowRT.granted = some 80 ∧
    ((Sample.start.after (Sample.prioritised 58 60)).prepared.arbitrated.flows.find?
      ⟨0, 2⟩).map FlowRT.granted = some 20 := by decide +kernel
  obtain ⟨f, h, hf, hh, hsf, hsh, ht, hprio⟩ := Governor.ranked_spec hrank
  obtain ⟨f₂, hf₂, hfg⟩ := Option.map_eq_some_iff.mp hgrants.1
  obtain ⟨h₂, hh₂, hhg⟩ := Option.map_eq_some_iff.mp hgrants.2
  refine ⟨_, _, f, h, f₂, h₂, Sample.reaches (by decide), by decide +kernel,
    Governor.prepareTick_eq _, Governor.tick_prepared _, hf, hh, hsf, hsh, ht, hprio, hf₂, hh₂, ?_⟩
  rw [hfg, hhg]
  norm_num [kEps]

end BG
