import Mathlib
import BandwidthGovernor.Governor.Alike
import BandwidthGovernor.Governor.Figures

/-! What the outcome of a tick does not depend on.

    Not on flows that share no resource: `tick_disjoint` compares two states that agree on the flows
    in `A` and on the resources these cross. And not on the order in which the hash tables are
    visited, which the source leaves open: `TicksTo` is every outcome that leaves possible, and
    `tick_order_free` says they concur. The order of the queue decides which reservation id an
    admitted flow gets, but not who is admitted: the hop scan reads figures the queue step does not
    write. -/

namespace BG

open Lib

namespace Governor

/-! ### Before the tick -/

/-- What a tick reads of a resource: what is left for the queue, and the capacity to arbitrate. -/
def room (g : Governor) (r : ResRT) : ℚ × ℚ := (availability r, g.governedNow r)

/-- Two states that a tick cannot tell apart on the flows in `A`. -/
structure Variant (A : FlowId → Prop) (g h : Governor) : Prop where
  now : h.now = g.now
  policy : h.policy = g.policy
  tenants : g.shares.Same h.shares
  paths : ∀ fid f, A fid → g.flows.find? fid = some f →
    h.paths.find? f.spec.path = g.paths.find? f.spec.path
  flows : ∀ fid, A fid → h.flows.find? fid = g.flows.find? fid
  resources : ∀ rid, g.Touches A rid →
    (h.resources.find? rid).map h.room = (g.resources.find? rid).map g.room
  own : ∀ rid, g.Touches A rid → ∀ fid f, g.flows.find? fid = some f → g.crosses rid f = true →
    A fid
  own' : ∀ rid, g.Touches A rid → ∀ fid f, h.flows.find? fid = some f → h.crosses rid f = true →
    A fid
  aside : ∀ rid, g.Touches A rid → h.asideOn rid = g.asideOn rid

/-- The ageing of one flow. -/
def ageAt (now : ℚ) (f : FlowRT) : FlowRT :=
  if f.state = .named .running then f
  else { f with
    starvationMs := if now - f.lastMs > 0 then f.starvationMs + (now - f.lastMs) else f.starvationMs
    lastMs := now }

theorem aged_flows_find? (g : Governor) (fid : FlowId) :
    g.aged.flows.find? fid = (g.flows.find? fid).map (ageAt g.now) :=
  Table.find?_mapVals ..

theorem ageAt_keeps (now : ℚ) (f : FlowRT) :
    (ageAt now f).spec = f.spec ∧ (ageAt now f).state = f.state := by
  unfold ageAt
  split
  · exact ⟨rfl, rfl⟩
  · exact ⟨rfl, rfl⟩

/-- The hop scan reads what is left on the resources of the path. -/
theorem scanHops_congr_on {g h : Governor} (m : ℚ) : ∀ (hops : List PathHop) (s : Scan),
    (∀ hop ∈ hops, (h.resources.find? hop.resource).map availability =
      (g.resources.find? hop.resource).map availability) →
    h.scanHops m s hops = g.scanHops m s hops
  | [], _, _ => rfl
  | hop :: hops, s, hr => by
    rw [List.forall_mem_cons] at hr
    unfold scanHops
    cases hg : g.resources.find? hop.resource with
    | none =>
      rw [hg, Option.map_none, Option.map_eq_none_iff] at hr
      rw [hr.1]
    | some r =>
      rw [hg, Option.map_some] at hr
      obtain ⟨r', hr', havail⟩ := Option.map_eq_some_iff.mp hr.1
      rw [hr']
      simp only [havail]
      exact scanHops_congr_on m hops _ hr.2

/-- A served flow is the same in both states, but for its reservation. -/
theorem served_congr {g h : Governor} {f : FlowRT} (hnow : h.now = g.now)
    (hadm : h.admission f.spec = g.admission f.spec) (rid rid' : ReservationId) :
    ∃ o, h.served rid' f = { g.served rid f with reservation := o } := by
  unfold served
  rw [hadm, hnow]
  split
  · cases g.admission f.spec with
    | none => exact ⟨f.reservation, rfl⟩
    | some x => exact ⟨some rid', rfl⟩
  · exact ⟨f.reservation, rfl⟩

/-- A flow as the tick arbitrates it, under the reservation the queue step may have given it. -/
theorem prepared_flows_find? (g : Governor) : ∃ rid : FlowId → ReservationId, ∀ fid,
    g.prepared.flows.find? fid =
      (g.flows.find? fid).map fun f => g.aged.served (rid fid) (ageAt g.now f) := by
  obtain ⟨rid, hrid⟩ := g.aged.drained_flows
  refine ⟨rid, fun fid => ?_⟩
  change g.aged.drained.flows.find? fid = _
  rw [hrid, aged_flows_find?, Option.map_map]
  rfl

theorem prepared_now (g : Governor) : g.prepared.now = g.now := by
  obtain ⟨fs, rs, gen, hrest⟩ := g.aged.drained_rest
  rw [prepared, hrest]
  rfl

theorem prepared_paths (g : Governor) : g.prepared.paths = g.paths := by
  obtain ⟨fs, rs, gen, hrest⟩ := g.aged.drained_rest
  rw [prepared, hrest]
  rfl

theorem prepared_tenants (g : Governor) : g.prepared.tenants = g.tenants := by
  obtain ⟨fs, rs, gen, hrest⟩ := g.aged.drained_rest
  rw [prepared, hrest]
  rfl

/-- A tick changes neither who crosses a resource nor which resources `A` touches. -/
theorem prepared_crossing (g : Governor) {rid : ResourceId} {fid : FlowId} :
    (∃ f, g.prepared.flows.find? fid = some f ∧ g.prepared.crosses rid f = true) ↔
      ∃ f, g.flows.find? fid = some f ∧ g.crosses rid f = true := by
  obtain ⟨edit, hspec, hfind⟩ := g.prepared_flows
  constructor
  · rintro ⟨f, hf, hc⟩
    rw [hfind] at hf
    obtain ⟨f₀, hf₀, rfl⟩ := Option.map_eq_some_iff.mp hf
    exact ⟨f₀, hf₀, (g.prepared_crosses (hspec fid f₀) rid).symm.trans hc⟩
  · rintro ⟨f, hf, hc⟩
    exact ⟨edit fid f, by rw [hfind, hf]; rfl, (g.prepared_crosses (hspec fid f) rid).trans hc⟩

theorem prepared_touches {A : FlowId → Prop} (g : Governor) (rid : ResourceId) :
    g.prepared.Touches A rid ↔ g.Touches A rid := by
  constructor
  · rintro ⟨fid, f, ha, hf⟩
    obtain ⟨f', hf'⟩ := g.prepared_crossing.mp ⟨f, hf⟩
    exact ⟨fid, f', ha, hf'⟩
  · rintro ⟨fid, f, ha, hf⟩
    obtain ⟨f', hf'⟩ := g.prepared_crossing.mpr ⟨f, hf⟩
    exact ⟨fid, f', ha, hf'⟩

theorem prepared_resources_find? {g : Governor} (hk : g.FlowsKeyed) (rid : ResourceId) :
    g.prepared.resources.find? rid = (g.resources.find? rid).map fun r =>
      { r with governed := g.governedNow r, reserved := g.asideOn rid } := by
  rw [prepared, prepared_find?, reservedOn_drained (aged_keyed hk), asideOn_aged]

section Variant
variable {A : FlowId → Prop} {g h : Governor} (hv : Variant A g h)
include hv

theorem Variant.admission {fid : FlowId} {f : FlowRT} (ha : A fid)
    (hf : g.flows.find? fid = some f) : h.admission f.spec = g.admission f.spec := by
  unfold Governor.admission
  rw [hv.paths fid f ha hf]
  cases hp : g.paths.find? f.spec.path with
  | none => rfl
  | some path =>
    have hon : ∀ hop ∈ path.hops, (h.resources.find? hop.resource).map availability =
        (g.resources.find? hop.resource).map availability := by
      intro hop hhop
      have ht : g.Touches A hop.resource := by
        refine ⟨fid, f, ha, hf, ?_⟩
        rw [crosses, hopsOf, hp]
        exact decide_eq_true (List.mem_map_of_mem hhop)
      have hroom := congrArg (Option.map Prod.fst) (hv.resources _ ht)
      rw [Option.map_map, Option.map_map] at hroom
      exact hroom
    simp only [scanHops_congr_on _ path.hops _ hon]

/-- On the flows of `A` the two ticks arbitrate the same, but for reservation ids. -/
theorem Variant.prepared_find? {fid : FlowId} (ha : A fid) :
    ((g.prepared.flows.find? fid = none ∧ h.prepared.flows.find? fid = none)) ∨
    ∃ f o, g.prepared.flows.find? fid = some f ∧
      h.prepared.flows.find? fid = some { f with reservation := o } := by
  obtain ⟨rid, hg⟩ := g.prepared_flows_find?
  obtain ⟨rid', hh⟩ := h.prepared_flows_find?
  rw [hg, hh, hv.flows fid ha]
  cases hf : g.flows.find? fid with
  | none => exact Or.inl ⟨rfl, rfl⟩
  | some f =>
    have hadm : h.aged.admission (ageAt g.now f).spec = g.aged.admission (ageAt g.now f).spec := by
      rw [(ageAt_keeps g.now f).1, admission_congr (h := h.aged) (g := h) rfl rfl,
        admission_congr (h := g.aged) (g := g) rfl rfl, hv.admission ha hf]
    have hnow : h.aged.now = g.aged.now := hv.now
    obtain ⟨o, ho⟩ := served_congr hnow hadm (rid fid) (rid' fid)
    refine Or.inr ⟨_, o, rfl, ?_⟩
    rw [Option.map_some, hv.now, ho]

theorem Variant.alike (hg : g.FlowsKeyed) (hh : h.FlowsKeyed) : Alike A g.prepared h.prepared where
  now := by rw [prepared_now, prepared_now, hv.now]
  policy := by rw [prepared_policy, prepared_policy, hv.policy]
  tenants := by
    rw [shares, shares, prepared_tenants, prepared_tenants]
    exact hv.tenants
  paths := fun fid f ha hf => by
    obtain ⟨edit, hspec, hfind⟩ := g.prepared_flows
    rw [hfind] at hf
    obtain ⟨f₀, hf₀, rfl⟩ := Option.map_eq_some_iff.mp hf
    rw [prepared_paths, prepared_paths, hspec]
    exact hv.paths fid f₀ ha hf₀
  flows := fun fid ha => by
    rcases hv.prepared_find? ha with ⟨hf, hf'⟩ | ⟨f, o, hf, hf'⟩
    · rw [hf, hf']
    · rw [hf, hf']
      rfl
  rooms := fun rid ht => by
    rw [prepared_touches] at ht
    have hroom := congrArg (Option.map fun p : ℚ × ℚ => (p.2, g.asideOn rid)) (hv.resources rid ht)
    rw [Option.map_map, Option.map_map] at hroom
    rw [prepared_resources_find? hg, prepared_resources_find? hh, hv.aside rid ht, Option.map_map,
      Option.map_map]
    exact hroom
  own := fun rid ht fid f hf hc => by
    obtain ⟨f', hf', hc'⟩ := g.prepared_crossing.mp ⟨f, hf, hc⟩
    exact hv.own rid ((g.prepared_touches rid).mp ht) fid f' hf' hc'
  own' := fun rid ht fid f hf hc => by
    obtain ⟨f', hf', hc'⟩ := h.prepared_crossing.mp ⟨f, hf, hc⟩
    exact hv.own' rid ((g.prepared_touches rid).mp ht) fid f' hf' hc'

theorem Variant.outcome (hg : g.FlowsKeyed) (hh : h.FlowsKeyed) {fid : FlowId} (ha : A fid) :
    (h.prepared.arbitrated.flows.find? fid).map FlowRT.outcome =
      (g.prepared.arbitrated.flows.find? fid).map FlowRT.outcome := by
  refine (hv.alike hg hh).arbitrated (prepared_keyed hg) (prepared_keyed hh) ha ?_
  rcases hv.prepared_find? ha with ⟨hf, hf'⟩ | ⟨f, o, hf, hf'⟩
  · rw [hf, hf']
  · rw [hf, hf']
    rfl

end Variant

/-! ### Figures -/

/-- The figures of a resource that a tick writes. -/
def figures (r : ResRT) : ℚ × ℚ × ℚ × Bool := (r.governed, r.reserved, r.allocated, r.saturated)

/-- What a flow adds to the allocated figure of a resource. -/
def drawnAt (g : Governor) (rid : ResourceId) (f : FlowRT) : ℚ :=
  if isMoving f.state && !decide (f.granted ≤ 0) then g.crossings rid f * f.granted else 0

theorem allocatedOn_congr {g h : Governor} {rid : ResourceId}
    (hf : ∀ fid, (h.flows.find? fid).elim 0 (h.drawnAt rid) =
      (g.flows.find? fid).elim 0 (g.drawnAt rid)) : h.allocatedOn rid = g.allocatedOn rid := by
  have hsum : ∀ k : Governor, k.allocatedOn rid = k.flows.sum fun _ f => k.drawnAt rid f := by
    intro k
    simp only [allocatedOn, Table.sum, Table.vals, List.map_map, Function.comp_def, drawnAt]
  rw [hsum, hsum]
  exact Table.sum_eq_of_find? hf

theorem drawnAt_congr {g h : Governor} {f f' : FlowRT}
    (hp : h.paths.find? f.spec.path = g.paths.find? f.spec.path) (hspec : f'.spec = f.spec)
    (hout : f'.outcome = f.outcome) (rid : ResourceId) :
    h.drawnAt rid f' = g.drawnAt rid f := by
  obtain ⟨hgranted, hstate⟩ := Prod.mk.inj hout
  rw [drawnAt, drawnAt, hstate, hgranted, crossings, crossings,
    hopsOf_of_path hp (congrArg FlowSpec.path hspec)]

theorem drawnAt_of_not_crosses {g : Governor} {rid : ResourceId} {f : FlowRT}
    (hc : g.crosses rid f = false) : g.drawnAt rid f = 0 := by
  have hn : g.crossings rid f = 0 := List.count_eq_zero.mpr (of_decide_eq_false hc)
  rw [drawnAt, hn, Nat.cast_zero, zero_mul, ite_self]

theorem arbitrated_paths (g : Governor) : g.arbitrated.paths = g.paths := rfl

/-- The figures after arbitration. -/
theorem arbitrated_figures (g : Governor) (rid : ResourceId) :
    (g.arbitrated.resources.find? rid).map figures = (g.resources.find? rid).map fun r =>
      (r.governed, g.arbitrated.reservedOn rid, g.arbitrated.allocatedOn rid,
        decide (g.arbitrated.allocatedOn rid + g.arbitrated.reservedOn rid ≥
          r.governed * (1 - kEps))) := by
  rw [arbitrated, recomputeUsage_find?, Option.map_map]
  rfl

theorem Alike.allocated {A : FlowId → Prop} {g h : Governor} (hal : Alike A g h) {rid : ResourceId}
    (ht : g.Touches A rid) (hload : h.arbitrated.allocatedOn rid = g.arbitrated.allocatedOn rid) :
    (h.arbitrated.resources.find? rid).map (fun r => (r.governed, r.allocated)) =
      (g.arbitrated.resources.find? rid).map fun r => (r.governed, r.allocated) := by
  have hfig : ∀ k : Governor, (k.arbitrated.resources.find? rid).map
      (fun r => (r.governed, r.allocated)) =
      ((k.resources.find? rid).map fun r => (r.governed, r.reserved)).map
        fun p => (p.1, k.arbitrated.allocatedOn rid) := fun k => by
    have hmap := congrArg (Option.map fun p : ℚ × ℚ × ℚ × Bool => (p.1, p.2.2.1))
      (k.arbitrated_figures rid)
    rw [Option.map_map, Option.map_map] at hmap
    rw [Option.map_map]
    exact hmap
  rw [hfig, hfig, hal.rooms rid ht, hload]

/-- A flow after a tick has the spec it had. -/
theorem arbitrated_spec {g : Governor} {fid : FlowId} {f : FlowRT}
    (hf : g.arbitrated.flows.find? fid = some f) :
    ∃ f₀, g.flows.find? fid = some f₀ ∧ f.spec = f₀.spec := by
  rw [arbitrated_flows, Table.find?_mapVals] at hf
  obtain ⟨f₀, hf₀, rfl⟩ := Option.map_eq_some_iff.mp hf
  exact ⟨f₀, hf₀, settled_spec ..⟩

theorem elim_drawnAt_congr {g h : Governor} {fid : FlowId}
    (hp : ∀ f, g.flows.find? fid = some f →
      h.paths.find? f.spec.path = g.paths.find? f.spec.path)
    (hspec : (h.flows.find? fid).map FlowRT.spec = (g.flows.find? fid).map FlowRT.spec)
    (hout : (h.arbitrated.flows.find? fid).map FlowRT.outcome =
      (g.arbitrated.flows.find? fid).map FlowRT.outcome) (rid : ResourceId) :
    (h.arbitrated.flows.find? fid).elim 0 (h.arbitrated.drawnAt rid) =
      (g.arbitrated.flows.find? fid).elim 0 (g.arbitrated.drawnAt rid) := by
  cases hf : g.arbitrated.flows.find? fid with
  | none =>
    rw [hf, Option.map_none, Option.map_eq_none_iff] at hout
    rw [hout, Option.elim_none, Option.elim_none]
  | some f =>
    rw [hf, Option.map_some] at hout
    obtain ⟨f', hf', hout⟩ := Option.map_eq_some_iff.mp hout
    obtain ⟨p, hp₀, hs⟩ := arbitrated_spec hf
    obtain ⟨p', hp', hs'⟩ := arbitrated_spec hf'
    rw [hp₀, hp', Option.map_some, Option.map_some, Option.some.injEq] at hspec
    rw [hf', Option.elim_some, Option.elim_some]
    refine drawnAt_congr ?_ (by rw [hs', hs, hspec]) hout rid
    rw [arbitrated_paths, arbitrated_paths, hs]
    exact hp p hp₀

section Variant
variable {A : FlowId → Prop} {g h : Governor} (hv : Variant A g h)
include hv

theorem Variant.prepared_spec {fid : FlowId} (ha : A fid) :
    (h.prepared.flows.find? fid).map FlowRT.spec =
      (g.prepared.flows.find? fid).map FlowRT.spec := by
  rcases hv.prepared_find? ha with ⟨hf, hf'⟩ | ⟨f, o, hf, hf'⟩
  · rw [hf, hf']
  · rw [hf, hf']
    rfl

/-- On the resources `A` touches, the two ticks allocate the same. -/
theorem Variant.allocatedOn (hg : g.FlowsKeyed) (hh : h.FlowsKeyed) {rid : ResourceId}
    (ht : g.Touches A rid) :
    h.prepared.arbitrated.allocatedOn rid = g.prepared.arbitrated.allocatedOn rid := by
  refine allocatedOn_congr fun fid => ?_
  by_cases ha : A fid
  · exact elim_drawnAt_congr (fun f hf => (hv.alike hg hh).paths fid f ha hf) (hv.prepared_spec ha)
      (hv.outcome hg hh ha) rid
  · have hzero : ∀ k : Governor,
        (∀ f, k.flows.find? fid = some f → k.crosses rid f = true → A fid) →
        (k.prepared.arbitrated.flows.find? fid).elim 0 (k.prepared.arbitrated.drawnAt rid) = 0 := by
      intro k hown
      cases hf : k.prepared.arbitrated.flows.find? fid with
      | none => rfl
      | some f =>
        obtain ⟨p, hp, hspec⟩ := arbitrated_spec hf
        refine drawnAt_of_not_crosses (Bool.eq_false_iff.mpr fun hc => ha ?_)
        have hc' : k.prepared.crosses rid p = true := by
          rw [← hc]
          exact (crosses_congr (by rw [arbitrated_paths]) (congrArg FlowSpec.path hspec) rid).symm
        obtain ⟨f₀, hf₀, hc₀⟩ := k.prepared_crossing.mp ⟨p, hp, hc'⟩
        exact hown f₀ hf₀ hc₀
    rw [hzero h fun f hf hc => hv.own' rid ht fid f hf hc,
      hzero g fun f hf hc => hv.own rid ht fid f hf hc]

end Variant

end Governor

/-- Flows on disjoint resources do not interfere. In any two states of any two runs that agree on
    the flows in `A`, on their paths and the resources these cross, on the clock, the policy and the
    shares of the tenants, and where no other flow crosses one of these resources, a tick grants the
    flows of `A` the same rates, leaves them in the same states, and allocates the same on their
    resources. -/
theorem tick_disjoint {A : FlowId → Prop} {g₀ h₀ g h : Governor} {es es' : List Event}
    (hg₀ : g₀.Fresh) (hh₀ : h₀.Fresh) (hrun : Lib.Run Governor.Step g₀ es g)
    (hrun' : Lib.Run Governor.Step h₀ es' h) (hv : Governor.Variant A g h) :
    ∃ g' h', g.tick = .ok g' ∧ h.tick = .ok h' ∧
      (∀ fid, A fid → (h'.flows.find? fid).map FlowRT.outcome =
        (g'.flows.find? fid).map FlowRT.outcome) ∧
      ∀ rid, g.Touches A rid →
        (h'.resources.find? rid).map (fun r => (r.governed, r.allocated)) =
          (g'.resources.find? rid).map fun r => (r.governed, r.allocated) := by
  have hg := flowsKeyed_of_run hg₀ hrun
  have hh := flowsKeyed_of_run hh₀ hrun'
  refine ⟨_, _, g.tick_prepared, h.tick_prepared, fun fid ha => hv.outcome hg hh ha,
    fun rid ht => ?_⟩
  exact (hv.alike hg hh).allocated ((g.prepared_touches rid).mpr ht) (hv.allocatedOn hg hh ht)

namespace Sample

/-- Flow 1 alone, on the first of two paths that share no link. -/
def alone : Governor := start.after (oneLink ++ [.addResource (link 2 100), .addPath (path 2 [2]),
  .submitFlow (flow 1 1 40 80 100)])

/-- The same, with flow 2 on the second path. -/
def beside : Governor := start.after (oneLink ++ [.addResource (link 2 100), .addPath (path 2 [2]),
  .submitFlow (flow 1 1 40 80 100), .submitFlow (flow 2 2 10 90 100)])

theorem alone_touches {rid : ResourceId} (ht : alone.Touches (· = ⟨0, 1⟩) rid) : rid = ⟨0, 1⟩ := by
  obtain ⟨fid, f, rfl, hf, hc⟩ := ht
  have hhops : (alone.flows.find? ⟨0, 1⟩).map (fun f => (alone.hopsOf f).map PathHop.resource) =
      some [⟨0, 1⟩] := by decide +kernel
  rw [hf, Option.map_some, Option.some.injEq] at hhops
  have hmem := of_decide_eq_true hc
  rw [hhops] at hmem
  exact List.mem_singleton.mp hmem

theorem alone_variant : Governor.Variant (· = ⟨0, 1⟩) alone beside where
  now := by decide +kernel
  policy := by with_unfolding_all rfl
  tenants := by
    have hsame : beside.shares.entries = alone.shares.entries := by decide +kernel
    rw [Table.Same, hsame]
  paths := fun _ _ _ _ =>
    congrArg (Table.find? · _) (show beside.paths = alone.paths by with_unfolding_all rfl)
  flows := by
    rintro fid rfl
    with_unfolding_all rfl
  resources := fun rid ht => by
    rw [alone_touches ht]
    decide +kernel
  own := fun rid ht fid f hf hc => by
    rw [alone_touches ht] at hc
    have hown : ∀ e ∈ alone.flows.entries, alone.crosses ⟨0, 1⟩ e.2 = true → e.1 = ⟨0, 1⟩ := by
      decide +kernel
    exact hown _ (Table.mem_of_find? hf) hc
  own' := fun rid ht fid f hf hc => by
    rw [alone_touches ht] at hc
    have hown : ∀ e ∈ beside.flows.entries, beside.crosses ⟨0, 1⟩ e.2 = true → e.1 = ⟨0, 1⟩ := by
      decide +kernel
    exact hown _ (Table.mem_of_find? hf) hc
  aside := fun rid ht => by
    rw [alone_touches ht]
    decide +kernel

end Sample
/-- The theorem at a flow with and without a neighbour on another path. -/
theorem tick_disjoint_beside : ∃ g' h', Sample.alone.tick = .ok g' ∧ Sample.beside.tick = .ok h' ∧
    (∀ fid, fid = ⟨0, 1⟩ → (h'.flows.find? fid).map FlowRT.outcome =
      (g'.flows.find? fid).map FlowRT.outcome) ∧
    ∀ rid, Sample.alone.Touches (· = ⟨0, 1⟩) rid →
      (h'.resources.find? rid).map (fun r => (r.governed, r.allocated)) =
        (g'.resources.find? rid).map fun r => (r.governed, r.allocated) :=
  tick_disjoint Sample.start_fresh Sample.start_fresh (Governor.run_after _ _)
    (Governor.run_after _ _) Sample.alone_variant

/-! ### The order of the tables -/

namespace Governor

/-- `tick` from arbitration on, with the contention records visited in the order of `rcs`. -/
def arbitrateIn (g : Governor) (rcs : List ResContention) : Except Fault Governor :=
  match g.flows.forEach (g.settleFlow g.now (rcs.foldl g.allocateResource .empty)) with
  | (flows, some e) => .error (e, { g with flows := flows })
  | (flows, none) => .ok { g with flows := flows }.recomputeUsage

/-- What `tick` can end in. The tables may be in any order to start with, an insertion into one of
    them may reorder it before arbitration, and the contention records are visited in any order. -/
inductive TicksTo (g : Governor) : Except Fault Governor → Prop where
  | failed {h : Governor} {e : Fault} : Rehashed g h → h.prepareTick = .error e →
    TicksTo g (.error e)
  | arbitrated {h p q : Governor} {rcs : List ResContention} : Rehashed g h →
    h.prepareTick = .ok p → Rehashed p q → rcs.Perm (q.contention q.now).vals →
    TicksTo g (q.arbitrateIn rcs)

/-- The same grants and states, and the same figures. -/
structure Concurs (g h : Governor) : Prop where
  flows : ∀ fid, (h.flows.find? fid).map FlowRT.outcome = (g.flows.find? fid).map FlowRT.outcome
  resources : ∀ rid, (h.resources.find? rid).map figures = (g.resources.find? rid).map figures

theorem Concurs.trans {g h k : Governor} (hgh : g.Concurs h) (hhk : h.Concurs k) : g.Concurs k where
  flows := fun fid => (hhk.flows fid).trans (hgh.flows fid)
  resources := fun rid => (hhk.resources rid).trans (hgh.resources rid)

theorem foldl_allocateResource (g : Governor) (rcs : List ResContention) (grants : Table FlowId ℚ) :
    rcs.foldl g.allocateResource grants = (rcs.flatMap g.offersOn).foldl lowerGrant grants := by
  rw [List.foldl_flatMap]
  congr 1
  funext grants rc
  unfold allocateResource offersOn
  cases g.resources.find? rc.res <;> rfl

theorem arbitrateIn_eq {g : Governor} {rcs : List ResContention}
    (hp : rcs.Perm (g.contention g.now).vals) : g.arbitrateIn rcs = .ok g.arbitrated := by
  have hgrants : ∀ fid, (rcs.foldl g.allocateResource .empty).find? fid =
      (g.grantMin g.now).find? fid := fun fid => by
    rw [grantMin_eq, foldl_allocateResource]
    refine foldl_lowerGrant_congr fun v => exists_congr fun e => ?_
    rw [(hp.flatMap_right g.offersOn).mem_iff]
  have hbody : ∀ fid f, g.settleFlow g.now (rcs.foldl g.allocateResource .empty) fid f =
      (g.settled g.now fid f, none) := fun fid f => by
    rw [← settleFlow_eq, settleFlow, settleFlow, hgrants]
  have hok : g.flows.forEach (g.settleFlow g.now (rcs.foldl g.allocateResource .empty)) =
      (g.flows.mapVals (g.settled g.now), none) := by
    rw [Table.forEach_ok fun e _ => by rw [hbody]]
    simp only [hbody]
  simp only [arbitrateIn, hok, arbitrated]

theorem arbitrated_reservations (g : Governor) : g.arbitrated.reservations = g.reservations := rfl

/-- What a reservation holds aside depends on what became of its flow. -/
theorem elim_heldAt_congr {g h : Governor} {o : Option Reservation} {rid : ResourceId}
    (hout : ∀ rsv, o = some rsv → (h.flows.find? rsv.flow).map FlowRT.outcome =
      (g.flows.find? rsv.flow).map FlowRT.outcome) :
    o.elim 0 (h.heldAt rid) = o.elim 0 (g.heldAt rid) := by
  cases o with
  | none => rw [Option.elim_none, Option.elim_none]
  | some rsv =>
    have hstate := congrArg (Option.map fun p : ℚ × Coded FlowState => isScheduled p.2)
      (hout rsv rfl)
    rw [Option.map_map, Option.map_map] at hstate
    rw [Option.elim_some, Option.elim_some, heldAt, heldAt, heldAside_congr hstate]

/-- States concur after arbitration when their flows and what is held aside do. -/
theorem concurs_of {g h : Governor} (hpaths : h.paths.find? = g.paths.find?)
    (hspec : ∀ fid, (h.flows.find? fid).map FlowRT.spec = (g.flows.find? fid).map FlowRT.spec)
    (hout : ∀ fid, (h.arbitrated.flows.find? fid).map FlowRT.outcome =
      (g.arbitrated.flows.find? fid).map FlowRT.outcome)
    (hgov : ∀ rid, (h.resources.find? rid).map ResRT.governed =
      (g.resources.find? rid).map ResRT.governed)
    (haside : ∀ rid, h.arbitrated.reservedOn rid = g.arbitrated.reservedOn rid) :
    g.arbitrated.Concurs h.arbitrated where
  flows := hout
  resources := fun rid => by
    have hload : h.arbitrated.allocatedOn rid = g.arbitrated.allocatedOn rid :=
      allocatedOn_congr fun fid =>
        elim_drawnAt_congr (fun f _ => congrFun hpaths _) (hspec fid) (hout fid) rid
    have hmap := congrArg (Option.map fun v : ℚ => (v, g.arbitrated.reservedOn rid,
      g.arbitrated.allocatedOn rid, decide (g.arbitrated.allocatedOn rid +
        g.arbitrated.reservedOn rid ≥ v * (1 - kEps)))) (hgov rid)
    rw [Option.map_map, Option.map_map] at hmap
    rw [arbitrated_figures, arbitrated_figures, haside, hload]
    exact hmap

/-- A flow that is Reserved when the tick arbitrates is Running afterwards. -/
theorem arbitrated_running {g : Governor} {fid : FlowId} {f : FlowRT}
    (hf : g.flows.find? fid = some f) (hs : f.state = .named .reserved) :
    ∃ f', g.arbitrated.flows.find? fid = some f' ∧ f'.state = .named .running := by
  have hout := g.settled_outcome g.now fid f
  rw [if_pos hs] at hout
  exact ⟨g.settled g.now fid f, by rw [arbitrated_flows, Table.find?_mapVals, hf, Option.map_some],
    congrArg Prod.snd hout⟩

theorem mints_aged (g : Governor) (x : ReservationId) : g.aged.mints x = g.mints x := by
  rw [mints, mints, candidates_aged]
  rfl

theorem prepared_reservations (g : Governor) :
    g.prepared.reservations = g.aged.drained.reservations := rfl

/-- The reservations the tick arbitrates over: the minted ones are of flows just admitted, the
    others are as they were. -/
theorem prepared_reservations_find? {g : Governor} (hk : g.FlowsKeyed) (x : ReservationId) :
    (g.mints x = true → ∃ rsv f, g.prepared.reservations.find? x = some rsv ∧
      g.prepared.flows.find? rsv.flow = some f ∧ f.state = .named .reserved) ∧
    (g.mints x = false → g.prepared.reservations.find? x = g.reservations.find? x) := by
  obtain ⟨hin, hout⟩ := foldl_admitAs_reservations g.aged x g.aged.queue g.aged
  rw [countP_queue, ← mints_iff, mints_aged] at hin hout
  rw [prepared_reservations]
  refine ⟨fun hm => ?_, fun hm => hout (by simp [hm])⟩
  obtain ⟨rsv, e, hrsv, he, hadm, hflow⟩ := hin hm
  obtain ⟨hfe, hq⟩ := queue_spec he
  obtain ⟨ids, hids⟩ := g.aged.drained_flows
  have hcand : g.aged.isCandidate e.2 = true := by
    rw [isCandidate, hadm, hq]
    rfl
  refine ⟨rsv, g.aged.served (ids e.1) e.2, hrsv, ?_,
    (served_reserved_iff ..).mpr (Or.inr hcand)⟩
  change g.aged.drained.flows.find? rsv.flow = _
  rw [hflow, aged_keyed hk e.1 e.2 hfe, hids, hfe, Option.map_some]

/-- A reservation the tick mints is not held aside: its flow is Running by then. -/
theorem elim_heldAt_minted {g : Governor} (hk : g.FlowsKeyed) {x : ReservationId}
    (hm : g.mints x = true) (rid : ResourceId) :
    (g.prepared.reservations.find? x).elim 0 (g.prepared.arbitrated.heldAt rid) = 0 := by
  obtain ⟨rsv, f, hrsv, hf, hs⟩ := (prepared_reservations_find? hk x).1 hm
  obtain ⟨f', hf', hs'⟩ := arbitrated_running hf hs
  have hheld : g.prepared.arbitrated.heldAside rsv = false := by
    rw [heldAside, hf']
    simp [hs', isScheduled]
  rw [hrsv, Option.elim_some, heldAt, hheld]
  exact if_neg Bool.false_ne_true

section Rehashed
variable {g h : Governor} (hr : Rehashed g h)
include hr

theorem Rehashed.keyed (hk : g.FlowsKeyed) : h.FlowsKeyed :=
  fun fid f hf => hk fid f ((hr.flows.find? fid).trans hf)

theorem Rehashed.now : h.now = g.now := (congrArg Governor.now hr.rest :)

theorem Rehashed.policy : h.policy = g.policy := (congrArg Governor.policy hr.rest :)

theorem Rehashed.isCandidate (f : FlowRT) : h.isCandidate f = g.isCandidate f := by
  rw [Governor.isCandidate, Governor.isCandidate, admission_congr
    (funext fun k => (hr.resources.find? k).symm) (funext fun k => (hr.paths.find? k).symm)]

theorem Rehashed.mints (x : ReservationId) : h.mints x = g.mints x := by
  have hcount : h.candidates = g.candidates := by
    simp only [candidates, hr.isCandidate]
    exact (hr.flows.sum _).symm
  rw [Governor.mints, Governor.mints, hcount, congrArg Governor.gen hr.rest]

theorem Rehashed.asideOn (rid : ResourceId) : h.asideOn rid = g.asideOn rid := by
  have hstays : ∀ x rsv, h.staysAside x rsv = g.staysAside x rsv := fun x rsv => by
    rw [staysAside, staysAside, hr.mints, ← hr.flows.find?]
    simp only [takesPart, hr.isCandidate]
  simp only [Governor.asideOn, hstays]
  exact (hr.reservations.sum _).symm

/-- For a tick, the same state. -/
theorem Rehashed.variant : Variant (fun _ => True) g h where
  now := hr.now
  policy := hr.policy
  tenants := hr.tenants.map _
  paths := fun _ f _ _ => (hr.paths.find? f.spec.path).symm
  flows := fun fid _ => (hr.flows.find? fid).symm
  resources := fun rid _ => by
    have hroom : h.room = g.room := funext fun r => by
      rw [room, room, governedNow, governedNow, hr.now, hr.policy]
    rw [hroom, hr.resources.find?]
  own := fun _ _ _ _ _ _ => trivial
  own' := fun _ _ _ _ _ _ => trivial
  aside := fun rid _ => hr.asideOn rid

theorem Rehashed.alike : Alike (fun _ => True) g h where
  now := hr.now
  policy := hr.policy
  tenants := hr.tenants.map _
  paths := fun _ f _ _ => (hr.paths.find? f.spec.path).symm
  flows := fun fid _ => congrArg _ (hr.flows.find? fid).symm
  rooms := fun rid _ => congrArg _ (hr.resources.find? rid).symm
  own := fun _ _ _ _ _ _ => trivial
  own' := fun _ _ _ _ _ _ => trivial

/-- States in different table orders concur after arbitration. -/
theorem Rehashed.arbitrated (hk : g.FlowsKeyed) : g.arbitrated.Concurs h.arbitrated := by
  have hout : ∀ fid, (h.arbitrated.flows.find? fid).map FlowRT.outcome =
      (g.arbitrated.flows.find? fid).map FlowRT.outcome := fun fid =>
    hr.alike.arbitrated hk (hr.keyed hk) trivial (congrArg _ (hr.flows.find? fid).symm)
  refine concurs_of (funext fun k => (hr.paths.find? k).symm)
    (fun fid => congrArg _ (hr.flows.find? fid).symm) hout
    (fun rid => congrArg _ (hr.resources.find? rid).symm) fun rid => reservedOn_congr fun x => ?_
  rw [arbitrated_reservations, arbitrated_reservations, ← hr.reservations.find?]
  exact elim_heldAt_congr fun rsv _ => hout rsv.flow

/-- Ticks from states in different table orders concur, whatever order the queue is served in. -/
theorem Rehashed.ticked (hk : g.FlowsKeyed) :
    g.prepared.arbitrated.Concurs h.prepared.arbitrated := by
  have hout : ∀ fid, (h.prepared.arbitrated.flows.find? fid).map FlowRT.outcome =
      (g.prepared.arbitrated.flows.find? fid).map FlowRT.outcome := fun fid =>
    hr.variant.outcome hk (hr.keyed hk) trivial
  refine concurs_of ?_ (fun fid => hr.variant.prepared_spec trivial) hout (fun rid => ?_)
    fun rid => reservedOn_congr fun x => ?_
  · rw [prepared_paths, prepared_paths]
    exact funext fun k => (hr.paths.find? k).symm
  · have hgov : ∀ r, h.governedNow r = g.governedNow r := fun r => by
      rw [governedNow, governedNow, hr.now, hr.policy]
    rw [prepared_resources_find? hk, prepared_resources_find? (hr.keyed hk), Option.map_map,
      Option.map_map, ← hr.resources.find?]
    simp only [Function.comp_def, hgov]
  · rw [arbitrated_reservations, arbitrated_reservations]
    cases hm : g.mints x with
    | true =>
      rw [elim_heldAt_minted hk hm,
        elim_heldAt_minted (hr.keyed hk) ((hr.mints x).trans hm)]
    | false =>
      rw [(prepared_reservations_find? hk x).2 hm,
        (prepared_reservations_find? (hr.keyed hk) x).2 ((hr.mints x).trans hm),
        ← hr.reservations.find?]
      exact elim_heldAt_congr fun rsv _ => hout rsv.flow

end Rehashed

theorem Rehashed.refl (g : Governor) : Rehashed g g :=
  ⟨.refl _, .refl _, .refl _, .refl _, .refl _, .refl _, .refl _, rfl⟩

/-- What the model computes is one of the outcomes. -/
theorem ticksTo_tick (g : Governor) : g.TicksTo g.tick := by
  have hin := TicksTo.arbitrated (Rehashed.refl g) g.prepareTick_eq (Rehashed.refl _)
    (List.Perm.refl _)
  rw [arbitrateIn_eq (List.Perm.refl _)] at hin
  rw [tick_prepared]
  exact hin

end Governor

/-- Whatever order the hash tables iterate in. In every state of every run, restorations included,
    no outcome of a tick is an exception, and all of them have the same grants, the same flow states
    and the same capacity figures. -/
theorem tick_order_free {g₀ g : Governor} {es : List Event} (hfresh : g₀.Fresh)
    (hrun : Lib.Run Governor.Step g₀ es g) :
    ∃ g', g.tick = .ok g' ∧ ∀ r, g.TicksTo r → ∃ h', r = .ok h' ∧ g'.Concurs h' := by
  have hk := flowsKeyed_of_run hfresh hrun
  refine ⟨_, g.tick_prepared, fun r hr => ?_⟩
  cases hr with
  | failed _ hfail =>
    rw [Governor.prepareTick_eq] at hfail
    cases hfail
  | @arbitrated h p q rcs hgh hp hpq hrcs =>
    rw [Governor.prepareTick_eq, Except.ok.injEq] at hp
    have hpk : p.FlowsKeyed := hp ▸ Governor.prepared_keyed (hgh.keyed hk)
    have hfirst : g.prepared.arbitrated.Concurs p.arbitrated := hp ▸ hgh.ticked hk
    exact ⟨q.arbitrated, Governor.arbitrateIn_eq hrcs, hfirst.trans (hpq.arbitrated hpk)⟩

namespace Sample

/-- Flow 3 found the link full and waits in the queue, and flow 2 has left since. -/
def waiting : List Op := oneLink ++
  [.submitFlow (flow 1 1 60 60 60), .submitFlow (flow 2 1 40 40 40), .tick,
    .submitFlow (flow 3 1 20 30 50), .cancelFlow ⟨0, 2⟩ []]

end Sample

/-- The theorem where a flow waits in the queue, and is admitted beside one that is Running. -/
theorem tick_order_free_queued :
    ((Sample.start.after Sample.waiting).flows.find? ⟨0, 3⟩).map FlowRT.state =
      some (.named .queued) ∧
    ∃ g', (Sample.start.after Sample.waiting).tick = .ok g' ∧
      (g'.flows.find? ⟨0, 1⟩).map FlowRT.outcome = some (60, .named .running) ∧
      (g'.flows.find? ⟨0, 3⟩).map FlowRT.outcome = some (30, .named .running) ∧
      ∀ r, (Sample.start.after Sample.waiting).TicksTo r → ∃ h', r = .ok h' ∧ g'.Concurs h' := by
  obtain ⟨g', hg', hfree⟩ := tick_order_free Sample.start_fresh
    (Governor.run_after Sample.waiting _)
  have hflows : (Sample.start.after Sample.waiting).tick.toOption.map (fun g =>
      ((g.flows.find? ⟨0, 1⟩).map FlowRT.outcome, (g.flows.find? ⟨0, 3⟩).map FlowRT.outcome)) =
      some (some (60, .named .running), some (30, .named .running)) := by decide +kernel
  rw [hg'] at hflows
  obtain ⟨h₁, h₃⟩ := Prod.mk.inj (Option.some.inj hflows)
  exact ⟨by decide +kernel, g', hg', h₁, h₃, hfree⟩

end BG
