import Mathlib
import BandwidthGovernor.FillPerm
import BandwidthGovernor.Governor.Truth

/-! What two states must share for a tick to treat the same flows the same.

    Arbitration reads of a flow its spec, ages and state, of a resource its governed and reserved
    rates, and the accounts of the tenants. `Alike A` relates two states that agree on this for the
    flows in `A`, with which no other flow shares a resource. The order of a table enters nowhere:
    the water-fill is order-independent, and a grant is the smallest of the rates offered. -/

namespace BG

open Lib

/-- What arbitration reads of a flow. -/
structure Contender where
  spec : FlowSpec
  admittedMs : ℚ
  starvationMs : ℚ
  burstRemaining : UInt64
  scheduled : Bool

def FlowRT.seen (f : FlowRT) : Contender :=
  ⟨f.spec, f.admittedMs, f.starvationMs, f.burstRemaining, isScheduled f.state⟩

/-- What the fairness factor reads of an account. -/
def Account.share (a : Account) : ℚ × ℚ := (a.weight, a.servedBytes)

/-- What arbitration decides about a flow. -/
def FlowRT.outcome (f : FlowRT) : ℚ × Coded FlowState := (f.granted, f.state)

namespace Governor

/-! ### The smallest offer -/

theorem foldl_lowerGrant_below {l l' : List (AllocEntry × ℚ)} {fid : FlowId} {m : ℚ}
    (hsub : ∀ v, (∃ e, (e, v) ∈ l ∧ e.flow = fid) → ∃ e, (e, v) ∈ l' ∧ e.flow = fid)
    (hm : (l.foldl lowerGrant .empty).find? fid = some m) :
    ∃ m', (l'.foldl lowerGrant .empty).find? fid = some m' ∧ m' ≤ m := by
  rcases foldl_lowerGrant_mem l hm with h0 | ⟨⟨e, v⟩, hx, hf, hv⟩
  · cases h0
  · obtain ⟨e', he', hf'⟩ := hsub v ⟨e, hx, hf⟩
    obtain ⟨m', hm', hle⟩ := foldl_lowerGrant_le l' .empty he'
    exact ⟨m', hf' ▸ hm', hle.trans_eq hv⟩

/-- The grant of a flow depends on the rates it is offered, not on their order. -/
theorem foldl_lowerGrant_congr {l l' : List (AllocEntry × ℚ)} {fid : FlowId}
    (hsame : ∀ v, (∃ e, (e, v) ∈ l ∧ e.flow = fid) ↔ ∃ e, (e, v) ∈ l' ∧ e.flow = fid) :
    (l.foldl lowerGrant .empty).find? fid = (l'.foldl lowerGrant .empty).find? fid := by
  cases hm : (l.foldl lowerGrant .empty).find? fid with
  | none =>
    cases hm' : (l'.foldl lowerGrant .empty).find? fid with
    | none => rfl
    | some m' =>
      obtain ⟨m, h, -⟩ := foldl_lowerGrant_below (fun v => (hsame v).mpr) hm'
      rw [hm] at h
      cases h
  | some m =>
    obtain ⟨m', hm', hle'⟩ := foldl_lowerGrant_below (fun v => (hsame v).mp) hm
    obtain ⟨m₀, hm₀, hle₀⟩ := foldl_lowerGrant_below (fun v => (hsame v).mpr) hm'
    rw [hm, Option.some.injEq] at hm₀
    rw [hm', le_antisymm hle' (hm₀ ▸ hle₀)]

/-! ### Weights -/

/-- What the fairness factors read of the tenants. -/
def shares (g : Governor) : Table TenantId (ℚ × ℚ) := g.tenants.mapVals fun _ a => a.share

section Weight
variable {g h : Governor} (hpol : h.policy = g.policy) (hten : g.shares.Same h.shares)
include hpol hten

theorem fairnessFactor_congr {t t' : Account} (ht : t'.share = t.share) :
    h.fairnessFactor t' = g.fairnessFactor t := by
  have hsum : ∀ q : ℚ × ℚ → ℚ, (h.tenants.vals.map fun a => q a.share).sum =
      (g.tenants.vals.map fun a => q a.share).sum := by
    intro q
    have hperm := (hten.map fun e => q e.2).sum_eq
    simpa [shares, Table.mapVals, Table.vals, Function.comp_def] using hperm.symm
  have hweight : (h.tenants.vals.map tenantWeight).sum = (g.tenants.vals.map tenantWeight).sum :=
    hsum fun p => if p.1 ≤ 0 then 1 else p.1
  have hserved : (h.tenants.vals.map Account.servedBytes).sum =
      (g.tenants.vals.map Account.servedBytes).sum := hsum Prod.snd
  obtain ⟨hw, hs⟩ := Prod.mk.inj ht
  have htw : tenantWeight t' = tenantWeight t := by rw [tenantWeight, tenantWeight, hw]
  rw [fairnessFactor, fairnessFactor, hpol, htw, hs, hweight, hserved]

theorem tenantFactor_congr (k : TenantId) : (h.tenants.find? k).map h.fairnessFactor =
    (g.tenants.find? k).map g.fairnessFactor := by
  have hk : (g.shares.find? k) = h.shares.find? k := hten.find? k
  rw [shares, shares, Table.find?_mapVals, Table.find?_mapVals] at hk
  cases hg : g.tenants.find? k with
  | none =>
    rw [hg, Option.map_none, eq_comm, Option.map_eq_none_iff] at hk
    rw [hk]
    rfl
  | some t =>
    rw [hg, Option.map_some, eq_comm] at hk
    obtain ⟨t', ht', hshare⟩ := Option.map_eq_some_iff.mp hk
    rw [ht', Option.map_some, Option.map_some, fairnessFactor_congr hpol hten hshare]

theorem flowWeight_congr {f f' : FlowRT} (hseen : f'.seen = f.seen) (t : ℚ) :
    h.flowWeight f' t = g.flowWeight f t := by
  have hspec : f'.spec = f.spec := congrArg Contender.spec hseen
  have hage : f'.starvationMs = f.starvationMs := congrArg Contender.starvationMs hseen
  have hadm : f'.admittedMs = f.admittedMs := congrArg Contender.admittedMs hseen
  have hburst : f'.burstRemaining = f.burstRemaining := congrArg Contender.burstRemaining hseen
  rw [flowWeight_eq, flowWeight_eq, hpol, hspec, weightFactor, weightFactor, hpol, hspec, hburst,
    tenantFactor_congr hpol hten, deadlinePressure, deadlinePressure, starvationRamp,
    starvationRamp, hspec, hadm, hage]

theorem allocEntry_congr {f f' : FlowRT} (hseen : f'.seen = f.seen) (t : ℚ) :
    h.allocEntry t f' = g.allocEntry t f := by
  have hspec : f'.spec = f.spec := congrArg Contender.spec hseen
  rw [allocEntry, allocEntry, flowWeight_congr hpol hten hseen, hspec]

end Weight

/-! ### Alike states -/

/-- Whether a flow of `A` crosses a resource. -/
def Touches (g : Governor) (A : FlowId → Prop) (rid : ResourceId) : Prop :=
  ∃ fid f, A fid ∧ g.flows.find? fid = some f ∧ g.crosses rid f = true

/-- Two states in which arbitration sees the same of the flows in `A`. -/
structure Alike (A : FlowId → Prop) (g h : Governor) : Prop where
  now : h.now = g.now
  policy : h.policy = g.policy
  tenants : g.shares.Same h.shares
  paths : ∀ fid f, A fid → g.flows.find? fid = some f →
    h.paths.find? f.spec.path = g.paths.find? f.spec.path
  flows : ∀ fid, A fid →
    (h.flows.find? fid).map FlowRT.seen = (g.flows.find? fid).map FlowRT.seen
  rooms : ∀ rid, g.Touches A rid → (h.resources.find? rid).map (fun r => (r.governed, r.reserved)) =
    (g.resources.find? rid).map fun r => (r.governed, r.reserved)
  own : ∀ rid, g.Touches A rid → ∀ fid f, g.flows.find? fid = some f → g.crosses rid f = true →
    A fid
  own' : ∀ rid, g.Touches A rid → ∀ fid f, h.flows.find? fid = some f → h.crosses rid f = true →
    A fid

section Alike
variable {A : FlowId → Prop} {g h : Governor}

/-- A flow of `A` is on file in both, and looks the same. -/
theorem Alike.find? (hal : Alike A g h) {fid : FlowId} {f : FlowRT} (ha : A fid)
    (hf : g.flows.find? fid = some f) :
    ∃ f', h.flows.find? fid = some f' ∧ f'.seen = f.seen := by
  have hseen := hal.flows fid ha
  rw [hf, Option.map_some] at hseen
  exact Option.map_eq_some_iff.mp hseen

/-- And crosses the same resources. -/
theorem Alike.crosses (hal : Alike A g h) {fid : FlowId} {f f' : FlowRT} (ha : A fid)
    (hf : g.flows.find? fid = some f) (hseen : f'.seen = f.seen) (rid : ResourceId) :
    h.crosses rid f' = g.crosses rid f :=
  crosses_of_path (hal.paths fid f ha hf) (congrArg (fun c : Contender => c.spec.path) hseen) rid

theorem Alike.touches (hal : Alike A g h) {rid : ResourceId} (ht : g.Touches A rid) :
    h.Touches A rid := by
  obtain ⟨fid, f, ha, hf, hc⟩ := ht
  obtain ⟨f', hf', hseen⟩ := hal.find? ha hf
  exact ⟨fid, f', ha, hf', (hal.crosses ha hf hseen rid).trans hc⟩

theorem Alike.touches' (hal : Alike A g h) {rid : ResourceId} (ht : h.Touches A rid) :
    g.Touches A rid := by
  obtain ⟨fid, f', ha, hf', hc⟩ := ht
  have hseen := hal.flows fid ha
  rw [hf', Option.map_some] at hseen
  obtain ⟨f, hf, hseen⟩ := Option.map_eq_some_iff.mp hseen.symm
  exact ⟨fid, f, ha, hf, (hal.crosses ha hf hseen.symm rid).symm.trans hc⟩

theorem Alike.symm (hal : Alike A g h) : Alike A h g where
  now := hal.now.symm
  policy := hal.policy.symm
  tenants := List.Perm.symm hal.tenants
  paths := fun fid f' ha hf' => by
    have hseen := hal.flows fid ha
    rw [hf', Option.map_some] at hseen
    obtain ⟨f, hf, hsame⟩ := Option.map_eq_some_iff.mp hseen.symm
    have hpath : f.spec.path = f'.spec.path :=
      congrArg (fun c : Contender => c.spec.path) hsame
    exact (hpath ▸ hal.paths fid f ha hf).symm
  flows := fun fid ha => (hal.flows fid ha).symm
  rooms := fun rid ht => (hal.rooms rid (hal.touches' ht)).symm
  own := fun rid ht => hal.own' rid (hal.touches' ht)
  own' := fun rid ht => hal.own rid (hal.touches' ht)

/-! ### Contenders -/

/-- A contender is on file under its own id. -/
theorem FlowsKeyed.find?_contender (hk : g.FlowsKeyed) {rid : ResourceId} {f : FlowRT}
    (hf : f ∈ g.contenders rid) : g.flows.find? f.spec.id = some f ∧ isScheduled f.state = true ∧
      g.crosses rid f = true := by
  obtain ⟨hmem, hs⟩ := List.mem_filter.mp hf
  obtain ⟨e, he, rfl⟩ := List.mem_map.mp hmem
  have hfind := Table.find?_of_mem (k := e.1) (v := e.2) he
  rw [Bool.and_eq_true] at hs
  exact ⟨(hk e.1 e.2 hfind).symm ▸ hfind, hs⟩

theorem mem_contenders {rid : ResourceId} {fid : FlowId} {f : FlowRT}
    (hf : g.flows.find? fid = some f) (hs : isScheduled f.state = true)
    (hc : g.crosses rid f = true) : f ∈ g.contenders rid := by
  refine List.mem_filter.mpr ⟨List.mem_map.mpr ⟨(fid, f), Table.mem_of_find? hf, rfl⟩, ?_⟩
  rw [hs, hc]
  rfl

/-- The allocator's entries for the contenders of a resource. -/
def entriesOn (g : Governor) (t : ℚ) (rid : ResourceId) : List AllocEntry :=
  (g.contenders rid).map (g.allocEntry t)

theorem entriesOn_nodup (hk : g.FlowsKeyed) (t : ℚ) (rid : ResourceId) :
    (g.entriesOn t rid).Nodup := by
  refine List.Nodup.of_map AllocEntry.flow ?_
  rw [entriesOn, List.map_map]
  have hids : (g.flows.vals.map fun f => f.spec.id).Nodup := hk.ids ▸ g.flows.nodup
  exact hids.sublist (List.filter_sublist.map _)

variable (hal : Alike A g h) (hg : g.FlowsKeyed) (hh : h.FlowsKeyed)
include hal hg

theorem Alike.entriesOn_subset {t : ℚ} {rid : ResourceId} (ht : g.Touches A rid) {e : AllocEntry}
    (he : e ∈ g.entriesOn t rid) : e ∈ h.entriesOn t rid := by
  obtain ⟨f, hf, rfl⟩ := List.mem_map.mp he
  obtain ⟨hfind, hs, hc⟩ := hg.find?_contender hf
  have ha := hal.own rid ht _ f hfind hc
  obtain ⟨f', hf', hseen⟩ := hal.find? ha hfind
  have hs' : isScheduled f'.state = true := (congrArg Contender.scheduled hseen).trans hs
  have hc' := (hal.crosses ha hfind hseen rid).trans hc
  exact List.mem_map.mpr ⟨f', mem_contenders hf' hs' hc',
    allocEntry_congr hal.policy hal.tenants hseen t⟩

include hh

theorem Alike.entriesOn_perm {t : ℚ} {rid : ResourceId} (ht : g.Touches A rid) :
    (g.entriesOn t rid).Perm (h.entriesOn t rid) := by
  refine (List.perm_ext_iff_of_nodup (entriesOn_nodup hg t rid) (entriesOn_nodup hh t rid)).mpr ?_
  exact fun e => ⟨hal.entriesOn_subset hg ht, hal.symm.entriesOn_subset hh (hal.touches ht)⟩

/-! ### Grants -/

/-- What one state offers on a resource that `A` touches, the other offers too. -/
theorem Alike.offered {t : ℚ} {rid : ResourceId} (ht : g.Touches A rid) {r : ResRT}
    (hr : g.resources.find? rid = some r) {x : AllocEntry × ℚ}
    (hx : x ∈ (g.entriesOn t rid).zip (g.ratesOn t rid r)) :
    ∃ r', h.resources.find? rid = some r' ∧ x ∈ (h.entriesOn t rid).zip (h.ratesOn t rid r') := by
  have hroom := hal.rooms rid ht
  rw [hr, Option.map_some] at hroom
  obtain ⟨r', hr', hsame⟩ := Option.map_eq_some_iff.mp hroom
  obtain ⟨hgov, hres⟩ := Prod.mk.inj hsame
  have hcaps : ∀ e ∈ g.entriesOn t rid, 0 ≤ e.max := by
    intro e he
    obtain ⟨f, -, rfl⟩ := List.mem_map.mp he
    exact f.spec.requestedMax.nonneg
  have hperm := offers_perm hcaps (hal.entriesOn_perm hg hh (t := t) ht)
    (max 0 (r.governed - r.reserved))
  refine ⟨r', hr', ?_⟩
  rw [ratesOn, hgov, hres]
  exact hperm.mem_iff.mp hx

theorem Alike.offered_to {t : ℚ} {fid : FlowId} (ha : A fid) {v : ℚ}
    (hv : ∃ e, (e, v) ∈ (g.contention t).vals.flatMap g.offersOn ∧ e.flow = fid) :
    ∃ e, (e, v) ∈ (h.contention t).vals.flatMap h.offersOn ∧ e.flow = fid := by
  obtain ⟨e, he, hid⟩ := hv
  obtain ⟨rid, r, hr, hx⟩ := (mem_offers hg).mp he
  obtain ⟨f, hf, rfl⟩ := List.mem_map.mp (List.of_mem_zip hx).1
  obtain ⟨hfind, -, hc⟩ := hg.find?_contender hf
  have ht : g.Touches A rid := ⟨f.spec.id, f, (show f.spec.id = fid from hid) ▸ ha, hfind, hc⟩
  obtain ⟨r', hr', hx'⟩ := hal.offered hg hh ht hr hx
  exact ⟨_, (mem_offers hh).mpr ⟨rid, r', hr', hx'⟩, hid⟩

theorem Alike.grantOf {t : ℚ} {fid : FlowId} (ha : A fid) : h.grantOf t fid = g.grantOf t fid := by
  rw [Governor.grantOf, Governor.grantOf, grantMin_eq, grantMin_eq]
  refine congrArg (fun o : Option ℚ => o.getD 0) (foldl_lowerGrant_congr fun v => ?_)
  exact ⟨hal.symm.offered_to hh hg ha, hal.offered_to hg hh ha⟩

omit hal hg hh in
theorem settled_outcome (t : ℚ) (fid : FlowId) (f : FlowRT) : (g.settled t fid f).outcome =
    if f.state = .named .reserved then (g.grantOf t fid, .named .running)
    else if isMoving f.state then (g.grantOf t fid, .named (gradeOf f (g.grantOf t fid)))
    else f.outcome := by
  rw [settled]
  split
  · exact congrArg (·, Coded.named FlowState.running) (dispatchTo_spec _ _).2.1
  · split <;> rfl

omit hal hg hh in
/-- What a flow comes out as follows from its grant, and from what it was before. -/
theorem settled_congr {fid : FlowId} {t t' : ℚ} (hgrant : h.grantOf t' fid = g.grantOf t fid)
    {f f' : FlowRT} (hspec : f'.spec = f.spec) (hout : f'.outcome = f.outcome) :
    (h.settled t' fid f').outcome = (g.settled t fid f).outcome := by
  have hstate : f'.state = f.state := congrArg Prod.snd hout
  have hgrade : ∀ ng, gradeOf f' ng = gradeOf f ng := fun ng => by
    rw [gradeOf, gradeOf, hspec]
  rw [settled_outcome, settled_outcome, hgrant, hstate, hgrade, hout]

/-- Arbitration decides the same about the flows of `A` whose outcomes so far are the same. -/
theorem Alike.arbitrated {fid : FlowId} (ha : A fid)
    (hout : (h.flows.find? fid).map FlowRT.outcome = (g.flows.find? fid).map FlowRT.outcome) :
    (h.arbitrated.flows.find? fid).map FlowRT.outcome =
      (g.arbitrated.flows.find? fid).map FlowRT.outcome := by
  have hseen := hal.flows fid ha
  have hgrant : h.grantOf h.now fid = g.grantOf g.now fid := by
    rw [hal.now, hal.grantOf hg hh ha]
  rw [arbitrated_flows, arbitrated_flows, Table.find?_mapVals, Table.find?_mapVals]
  cases hf : g.flows.find? fid with
  | none =>
    rw [hf, Option.map_none, Option.map_eq_none_iff] at hseen
    simp only [hseen, Option.map_none]
  | some f =>
    obtain ⟨f', hf', hsame⟩ := hal.find? ha hf
    rw [hf, hf', Option.map_some, Option.map_some, Option.some.injEq] at hout
    rw [hf']
    exact congrArg some (settled_congr hgrant (congrArg Contender.spec hsame) hout)

end Alike

end Governor

end BG
