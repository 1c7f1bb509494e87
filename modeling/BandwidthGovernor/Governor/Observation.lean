import Mathlib
import BandwidthGovernor.Governor.Queries
import BandwidthGovernor.Governor.Figures
import BandwidthGovernor.Persist.RoundTrip

/-! Which states can be observed.

    A query puts every stored rate through `Capacity::make`, also the two that are sums over a
    table. Measured, governed and granted rates are checked where they enter, so a query can only
    fail on the sums: when the reservations held aside on a resource, or the grants on it, exceed
    what a single rate may be. -/

namespace BG

open Lib

/-! ### When a query returns -/

theorem kMaxRate_nonneg : 0 ≤ kMaxRate := by norm_num [kMaxRate]

theorem Capacity.make_max_iff {q : ℚ} : (∃ c, Capacity.make (max 0 q) = .ok c) ↔ q ≤ kMaxRate := by
  unfold Capacity.make
  constructor
  · rintro ⟨c, hc⟩
    split at hc
    · rename_i hv
      exact (le_max_right 0 q).trans (isValidRate_iff.mp hv).2
    · cases hc
  · intro hq
    rw [dif_pos (isValidRate_iff.mpr ⟨le_max_left 0 q, max_le kMaxRate_nonneg hq⟩)]
    exact ⟨_, rfl⟩

theorem bind_returns_iff {α β ε : Type} {x : Except ε α} {k : α → Except ε β} :
    (∃ b, x >>= k = .ok b) ↔ ∃ a, x = .ok a ∧ ∃ b, k a = .ok b := by
  cases x with
  | error e =>
    constructor
    · rintro ⟨b, h⟩; cases h
    · rintro ⟨a, h, -⟩; cases h
  | ok a =>
    constructor
    · rintro ⟨b, h⟩; exact ⟨a, rfl, b, h⟩
    · rintro ⟨a', h, b, hb⟩; cases h; exact ⟨b, hb⟩

theorem mapM_returns_iff {α β ε : Type} {f : α → Except ε β} {l : List α} :
    (∃ l', l.mapM f = .ok l') ↔ ∀ a ∈ l, ∃ b, f a = .ok b := by
  induction l with
  | nil => exact ⟨fun _ _ h => (List.not_mem_nil h).elim, fun _ => ⟨[], rfl⟩⟩
  | cons a l ih =>
    rw [List.forall_mem_cons, ← ih, List.mapM_cons, bind_returns_iff]
    simp only [bind_returns_iff]
    constructor
    · rintro ⟨b, hb, bs, hbs, -⟩
      exact ⟨⟨b, hb⟩, bs, hbs⟩
    · rintro ⟨⟨b, hb⟩, bs, hbs⟩
      exact ⟨b, hb, bs, hbs, _, rfl⟩

/-- Measured and governed rate within the bound. -/
def ResRT.Metered (r : ResRT) : Prop := r.measured ≤ kMaxRate ∧ r.governed ≤ kMaxRate

/-- The same, and the governed rate is no deficit. -/
def ResRT.Ranged (r : ResRT) : Prop := r.Metered ∧ 0 ≤ r.governed

/-- The two sums within the bound. -/
def ResRT.Capped (r : ResRT) : Prop := r.reserved ≤ kMaxRate ∧ r.allocated ≤ kMaxRate

theorem toResourceSnap_returns_iff {r : ResRT} {now threshold : ℚ} :
    (∃ s, toResourceSnap r now threshold = .ok s) ↔ r.Metered ∧ r.Capped := by
  unfold toResourceSnap ResRT.Metered ResRT.Capped
  simp only [← Capacity.make_max_iff, bind_returns_iff]
  constructor
  · rintro ⟨c₁, h₁, c₂, h₂, c₃, h₃, c₄, h₄, -⟩
    exact ⟨⟨⟨c₁, h₁⟩, c₂, h₂⟩, ⟨c₃, h₃⟩, c₄, h₄⟩
  · rintro ⟨⟨⟨c₁, h₁⟩, c₂, h₂⟩, ⟨c₃, h₃⟩, c₄, h₄⟩
    exact ⟨c₁, h₁, c₂, h₂, c₃, h₃, c₄, h₄, _, rfl⟩

theorem toFlowSnap_returns {f : FlowRT} (h : f.Rated) : ∃ s, toFlowSnap f = .ok s := by
  obtain ⟨c, hc⟩ := Capacity.make_max_iff.mpr h.2
  unfold toFlowSnap
  rw [hc]
  exact ⟨_, rfl⟩

namespace Governor

/-- The strings of the records are at most `2^20` bytes long. -/
structure ShortStrings (g : Governor) : Prop where
  resources : ∀ rid r, g.resources.find? rid = some r → r.spec.source.length ≤ 2 ^ 20 ∧
    r.spec.destination.length ≤ 2 ^ 20 ∧ r.provenance.length ≤ 2 ^ 20
  flows : ∀ fid f, g.flows.find? fid = some f → f.spec.source.length ≤ 2 ^ 20 ∧
    f.spec.destination.length ≤ 2 ^ 20 ∧ f.lastError.length ≤ 2 ^ 20

/-- Every query of the state returns. -/
structure Observable (g : Governor) : Prop where
  listResources : ∃ l, g.listResources = .ok l
  resource : ∀ rid, ∃ o, g.resource rid = .ok o
  listFlows : ∃ l, g.listFlows = .ok l
  flow : ∀ fid, ∃ o, g.flow fid = .ok o
  analyzePath : ∀ pid, ∃ o, g.analyzePath pid = .ok o
  explainFlow : ∀ fid, ∃ d, g.explainFlow fid = .ok d
  snapshot : ∃ s, g.snapshot = .ok s
  save : g.ShortStrings → ∃ bytes, g.save = .ok bytes

/-- Measured and governed rates are within the bound, on every resource. -/
def Metered (g : Governor) : Prop := ∀ rid r, g.resources.find? rid = some r → r.Metered

def Ranged (g : Governor) : Prop := ∀ rid r, g.resources.find? rid = some r → r.Ranged

theorem Ranged.metered {g : Governor} (h : g.Ranged) : g.Metered := fun rid r hr => (h rid r hr).1

/-- The stored sums are within the bound, on every resource. -/
def Capped (g : Governor) : Prop := ∀ rid r, g.resources.find? rid = some r → r.Capped

theorem forall_vals_iff {K V : Type} [DecidableEq K] {t : Table K V} {P : V → Prop} :
    (∀ v ∈ t.vals, P v) ↔ ∀ k v, t.find? k = some v → P v := by
  constructor
  · intro h k v hk
    exact h v (List.mem_map_of_mem (f := Prod.snd) (Table.mem_of_find? hk))
  · intro h v hv
    obtain ⟨e, he, rfl⟩ := List.mem_map.mp hv
    exact h e.1 e.2 (Table.find?_of_mem he)

theorem resourceSnaps_returns_iff {g : Governor} :
    (∃ l, g.resourceSnaps = .ok l) ↔ g.Metered ∧ g.Capped := by
  unfold resourceSnaps
  rw [mapM_returns_iff, forall_vals_iff]
  simp only [toResourceSnap_returns_iff]
  exact ⟨fun h => ⟨fun rid r hr => (h rid r hr).1, fun rid r hr => (h rid r hr).2⟩,
    fun h rid r hr => ⟨h.1 rid r hr, h.2 rid r hr⟩⟩

theorem flowSnaps_returns {g : Governor} (h : g.RatedFlows) : ∃ l, g.flowSnaps = .ok l := by
  unfold flowSnaps
  rw [mapM_returns_iff, forall_vals_iff]
  exact fun fid f hf => toFlowSnap_returns (h fid f hf)

theorem listResources_returns_iff {g : Governor} :
    (∃ l, g.listResources = .ok l) ↔ g.Metered ∧ g.Capped := by
  rw [← resourceSnaps_returns_iff, listResources, bind_returns_iff]
  exact ⟨fun ⟨l, h, _⟩ => ⟨l, h⟩, fun ⟨l, h⟩ => ⟨l, h, _, rfl⟩⟩

/-- The bottleneck of a path is at most the bound it starts from. -/
theorem analyzeHop_bottleneck (g : Governor) (s : PathScan) (hop : PathHop)
    (h : s.bottleneck ≤ kMaxRate) : (g.analyzeHop s hop).bottleneck ≤ kMaxRate := by
  have hfold : ∀ (l : List (FlowId × FlowRT)) (s : PathScan), s.bottleneck ≤ kMaxRate →
      (l.foldl (fun s e =>
        if isScheduled e.2.state &&
            (g.hopsOf e.2).any fun fh => decide (fh.resource = hop.resource) then
          { s with competing := s.competing ++ [e.1]
                   totalRequested := s.totalRequested.add e.2.spec.requestedPreferred }
        else s) s).bottleneck ≤ kMaxRate := by
    intro l
    induction l with
    | nil => exact fun s hs => hs
    | cons e l ih =>
      intro s hs
      rw [List.foldl_cons]
      refine ih _ ?_
      split
      · exact hs
      · exact hs
  unfold analyzeHop
  cases g.resources.find? hop.resource with
  | none => exact h
  | some r =>
    refine hfold _ _ ?_
    dsimp only
    split
    · rename_i hlt
      exact (hlt.trans_le h).le
    · exact h

theorem analyzePath_returns (g : Governor) (pid : PathId) : ∃ o, g.analyzePath pid = .ok o := by
  have hfold : ∀ (hops : List PathHop) (s : PathScan), s.bottleneck ≤ kMaxRate →
      (hops.foldl g.analyzeHop s).bottleneck ≤ kMaxRate := by
    intro hops
    induction hops with
    | nil => exact fun s hs => hs
    | cons hop hops ih => exact fun s hs => ih _ (g.analyzeHop_bottleneck s hop hs)
  unfold analyzePath
  cases g.paths.find? pid with
  | none => exact ⟨none, rfl⟩
  | some p =>
    obtain ⟨c, hc⟩ := Capacity.make_max_iff.mpr (hfold p.hops {} (le_refl _))
    dsimp only
    rw [hc]
    exact ⟨_, rfl⟩

theorem explainFlow_returns {g : Governor} (h : g.RatedFlows) (fid : FlowId) :
    ∃ d, g.explainFlow fid = .ok d := by
  unfold explainFlow
  cases hf : g.flows.find? fid with
  | none => exact ⟨_, rfl⟩
  | some f =>
    obtain ⟨c, hc⟩ := Capacity.make_max_iff.mpr (h fid f hf).2
    dsimp only
    rw [hc]
    exact ⟨_, rfl⟩

theorem bind_eq_ok {α β ε : Type} {x : Except ε α} {k : α → Except ε β} {b : β}
    (h : x >>= k = .ok b) : ∃ a, x = .ok a ∧ k a = .ok b := by
  cases x with
  | error e => cases h
  | ok a => exact ⟨a, rfl, h⟩

theorem mapM_mem {α β ε : Type} {f : α → Except ε β} : ∀ {l : List α} {l' : List β},
    l.mapM f = .ok l' → ∀ b ∈ l', ∃ a ∈ l, f a = .ok b
  | [], l', h, b, hb => by
    cases h
    cases hb
  | a :: l, l', h, b, hb => by
    rw [List.mapM_cons] at h
    obtain ⟨c, hc, h⟩ := bind_eq_ok h
    obtain ⟨cs, hcs, h⟩ := bind_eq_ok h
    cases h
    rcases List.mem_cons.mp hb with rfl | hb
    · exact ⟨a, List.mem_cons_self, hc⟩
    · obtain ⟨x, hx, hfx⟩ := mapM_mem hcs b hb
      exact ⟨x, List.mem_cons_of_mem _ hx, hfx⟩

theorem toResourceSnap_strings {r : ResRT} {now threshold : ℚ} {s : ResourceSnapshot}
    (h : toResourceSnap r now threshold = .ok s) : s.source = r.spec.source ∧
      s.destination = r.spec.destination ∧ s.provenance = r.provenance := by
  unfold toResourceSnap at h
  obtain ⟨c₁, -, h⟩ := bind_eq_ok h
  obtain ⟨c₂, -, h⟩ := bind_eq_ok h
  obtain ⟨c₃, -, h⟩ := bind_eq_ok h
  obtain ⟨c₄, -, h⟩ := bind_eq_ok h
  cases h
  exact ⟨rfl, rfl, rfl⟩

theorem toFlowSnap_strings {f : FlowRT} {s : FlowSnapshot} (h : toFlowSnap f = .ok s) :
    s.spec = f.spec ∧ s.lastError = f.lastError := by
  unfold toFlowSnap at h
  obtain ⟨c, -, h⟩ := bind_eq_ok h
  cases h
  exact ⟨rfl, rfl⟩

/-- The records of a snapshot carry the strings of the state. -/
theorem ShortStrings.snapshot {g : Governor} (h : g.ShortStrings) {s : GovernorSnapshot}
    (hs : g.buildSnapshot = .ok s) : s.ShortStrings := by
  unfold buildSnapshot at hs
  obtain ⟨rs, hrs, hs⟩ := bind_eq_ok hs
  obtain ⟨fs, hfs, hs⟩ := bind_eq_ok hs
  cases hs
  refine ⟨fun r hr => ?_, fun f hf => ?_, fun r hr => ?_⟩
  · obtain ⟨r₀, hr₀, rfl⟩ := List.mem_map.mp hr
    obtain ⟨h₁, h₂, -⟩ := forall_vals_iff.mpr h.resources r₀ hr₀
    exact ⟨h₁, h₂⟩
  · obtain ⟨f₀, hf₀, hsnap⟩ := mapM_mem hfs f hf
    obtain ⟨hspec, herr⟩ := toFlowSnap_strings hsnap
    rw [hspec, herr]
    exact forall_vals_iff.mpr h.flows f₀ hf₀
  · obtain ⟨e, he, rfl⟩ := List.mem_map.mp hr
    obtain ⟨r₁, hr₁, -, hr₁'⟩ := Table.ofList_find? (Table.find?_of_mem he)
    obtain ⟨r₀, hr₀, hsnap⟩ := mapM_mem hrs r₁ hr₁
    obtain ⟨h₁, h₂, h₃⟩ := toResourceSnap_strings hsnap
    have hshort := forall_vals_iff.mpr h.resources r₀ hr₀
    rw [← h₁, ← h₂, ← h₃] at hshort
    exact hr₁' ▸ hshort

/-- With valid grants, a state can be observed exactly when the rates of its resources are within
    the bound. -/
theorem observable_iff {g : Governor} (hr : g.RatedFlows) :
    g.Observable ↔ g.Metered ∧ g.Capped := by
  constructor
  · exact fun h => listResources_returns_iff.mp h.listResources
  · intro h
    obtain ⟨rs, hrs⟩ := resourceSnaps_returns_iff.mpr h
    obtain ⟨fs, hfs⟩ := flowSnaps_returns hr
    have hsnap : ∃ s, g.buildSnapshot = .ok s := by
      unfold buildSnapshot
      rw [hrs, hfs]
      exact ⟨_, rfl⟩
    refine
      ⟨listResources_returns_iff.mpr h, fun rid => ?_, ?_, fun fid => ?_, g.analyzePath_returns,
      explainFlow_returns hr, hsnap, fun hshort => ?_⟩
    · unfold resource
      cases hrid : g.resources.find? rid with
      | none => exact ⟨none, rfl⟩
      | some r =>
        obtain ⟨s, hs⟩ := toResourceSnap_returns_iff.mpr ⟨h.1 rid r hrid, h.2 rid r hrid⟩
        exact bind_returns_iff.mpr ⟨s, hs, _, rfl⟩
    · exact bind_returns_iff.mpr ⟨fs, hfs, _, rfl⟩
    · unfold flow
      cases hfid : g.flows.find? fid with
      | none => exact ⟨none, rfl⟩
      | some f =>
        obtain ⟨s, hs⟩ := toFlowSnap_returns (hr fid f hfid)
        exact bind_returns_iff.mpr ⟨s, hs, _, rfl⟩
    · obtain ⟨s, hs⟩ := hsnap
      obtain ⟨payload, hp⟩ := encodePayload_ok (hshort.snapshot hs)
      refine bind_returns_iff.mpr ⟨s, hs, bind_returns_iff.mpr ⟨payload, hp, ?_⟩⟩
      exact ⟨_, envelope_eq payload⟩

/-! ### Where the rates come from -/

/-- An edit that keeps the sums and writes only rates within the bound. -/
structure RateEdit (r r' : ResRT) : Prop where
  reserved : r'.reserved = r.reserved
  allocated : r'.allocated = r.allocated
  measured : r'.measured = r.measured ∨ r'.measured ≤ kMaxRate
  governed : r'.governed = r.governed ∨ (0 ≤ r'.governed ∧ r'.governed ≤ kMaxRate)

/-- Every resource was edited so, or is new. -/
def Regauged (g g' : Governor) : Prop := ∀ rid r', g'.resources.find? rid = some r' →
  (r'.Ranged ∧ r'.reserved = 0 ∧ r'.allocated = 0) ∨
    ∃ r, g.resources.find? rid = some r ∧ RateEdit r r'

theorem RateEdit.ranged {r r' : ResRT} (h : RateEdit r r') (hr : r.Ranged) : r'.Ranged := by
  refine ⟨⟨?_, ?_⟩, ?_⟩
  · rcases h.measured with he | hle
    · exact he ▸ hr.1.1
    · exact hle
  · rcases h.governed with he | hle
    · exact he ▸ hr.1.2
    · exact hle.2
  · rcases h.governed with he | hle
    · exact he ▸ hr.2
    · exact hle.1

theorem ResRT.ranged_zero {r : ResRT} (hm : r.measured = 0) (hg : r.governed = 0) : r.Ranged := by
  rw [ResRT.Ranged, ResRT.Metered, hm, hg]
  exact ⟨⟨kMaxRate_nonneg, kMaxRate_nonneg⟩, le_refl _⟩

theorem governedOf_le (spec : ResourceSpec) (measured : ℚ) (healthy enabled : Bool)
    (freshness : ℚ) : governedOf spec measured healthy enabled freshness ≤ kMaxRate := by
  unfold governedOf
  split
  · exact kMaxRate_nonneg
  · dsimp only
    generalize (if measured > 0 then measured else spec.nominal.value) * freshness = applied
    split
    · exact spec.nominal.le_max
    · rename_i h
      exact not_lt.mp fun h' => h (Or.inr h')

namespace Regauged
variable {g g' g'' : Governor}

theorem of_eq (h : g'.resources.find? = g.resources.find?) : g.Regauged g' := fun _ r' hr' =>
  Or.inr ⟨r', h ▸ hr', rfl, rfl, Or.inl rfl, Or.inl rfl⟩

theorem trans (h : g.Regauged g') (h' : g'.Regauged g'') : g.Regauged g'' := by
  intro rid r'' hr''
  rcases h' rid r'' hr'' with hnew | ⟨r', hr', he'⟩
  · exact Or.inl hnew
  · rcases h rid r' hr' with ⟨hm, hz₁, hz₂⟩ | ⟨r, hr, he⟩
    · exact Or.inl ⟨he'.ranged hm, he'.reserved.trans hz₁, he'.allocated.trans hz₂⟩
    · refine Or.inr
        ⟨r, hr, he'.reserved.trans he.reserved, he'.allocated.trans he.allocated, ?_, ?_⟩
      · rcases he'.measured with h₁ | h₁
        · exact h₁ ▸ he.measured
        · exact Or.inr h₁
      · rcases he'.governed with h₁ | h₁
        · exact h₁ ▸ he.governed
        · exact Or.inr h₁

theorem mapVals {F : ResourceId → ResRT → ResRT} (hF : ∀ rid r, RateEdit r (F rid r)) :
    g.Regauged { g with resources := g.resources.mapVals F } := by
  intro rid r' hr'
  rw [Table.find?_mapVals] at hr'
  obtain ⟨r, hr, rfl⟩ := Option.map_eq_some_iff.mp hr'
  exact Or.inr ⟨r, hr, hF rid r⟩

theorem insert {rid : ResourceId} {r r₁ : ResRT} (hr : g.resources.find? rid = some r)
    (h : RateEdit r r₁) : g.Regauged { g with resources := g.resources.insert rid r₁ } := by
  intro x r' hr'
  rw [Table.find?_insert] at hr'
  split at hr'
  · rename_i he
    cases hr'
    exact Or.inr (he ▸ ⟨r, hr, h⟩)
  · exact Or.inr ⟨r', hr', rfl, rfl, Or.inl rfl, Or.inl rfl⟩

theorem recomputeGoverned (g : Governor) : g.Regauged g.recomputeGoverned :=
  mapVals fun _ _ =>
    ⟨rfl, rfl, Or.inl rfl, Or.inr ⟨governedOf_nonneg _ _ _ _ _, governedOf_le _ _ _ _ _⟩⟩

theorem recomputeSaturation (g : Governor) : g.Regauged g.recomputeSaturation :=
  mapVals fun _ _ => ⟨rfl, rfl, Or.inl rfl, Or.inl rfl⟩

theorem bump (g : Governor) (res : ResourceId) : g.Regauged (g.bumpResourceGeneration res) :=
  mapVals fun rid r => by
    dsimp only
    split <;> exact ⟨rfl, rfl, Or.inl rfl, Or.inl rfl⟩

/-- A resource enters with nothing measured; one that was there keeps its sums. -/
theorem install (g : Governor) (spec : ResourceSpec) {write : ResRT → ResRT}
    (hw : ∀ r, RateEdit r (write r)) : g.Regauged (g.installResource spec write) := by
  intro rid r' hr'
  rw [installResource_find?] at hr'
  split at hr'
  · rename_i he
    cases hr'
    subst he
    cases hr : g.resources.find? spec.id with
    | none =>
      have h := hw { ({ spec := spec } : ResRT) with
        spec := g.installedSpec spec, measured := 0, lastMs := g.now }
      exact Or.inl ⟨h.ranged (ResRT.ranged_zero rfl rfl), h.reserved, h.allocated⟩
    | some r =>
      have h := hw { r with spec := g.installedSpec spec, measured := 0, lastMs := g.now }
      refine Or.inr ⟨r, rfl, h.reserved, h.allocated, ?_, h.governed⟩
      rcases h.measured with h₁ | h₁
      · exact Or.inr (h₁ ▸ kMaxRate_nonneg)
      · exact Or.inr h₁
  · exact Or.inr ⟨r', hr', rfl, rfl, Or.inl rfl, Or.inl rfl⟩

theorem ranged (h : g.Regauged g') (hg : g.Ranged) : g'.Ranged := by
  intro rid r' hr'
  rcases h rid r' hr' with ⟨hm, -⟩ | ⟨r, hr, he⟩
  · exact hm
  · exact he.ranged (hg rid r hr)

theorem capped (h : g.Regauged g') (hg : g.Capped) : g'.Capped := by
  intro rid r' hr'
  rcases h rid r' hr' with ⟨-, h₁, h₂⟩ | ⟨r, hr, he⟩
  · exact ⟨h₁ ▸ kMaxRate_nonneg, h₂ ▸ kMaxRate_nonneg⟩
  · exact ⟨he.reserved ▸ (hg rid r hr).1, he.allocated ▸ (hg rid r hr).2⟩

end Regauged

theorem updateCapacity_regauged (g : Governor) (res : ResourceId) (measured confidence : ℚ)
    (provenance : Str) (latency : ℚ) (depth : UInt64) (bump : Bool) : g.Regauged
      (stateAfter id (g.updateCapacity res measured confidence provenance latency depth bump)) := by
  unfold updateCapacity
  cases hr : g.resources.find? res with
  | none => exact .of_eq rfl
  | some r =>
    dsimp only
    split
    · exact .of_eq rfl
    · rename_i hv
      have hm : measured ≤ kMaxRate := by
        by_contra hgt
        exact hv (Or.inl fun hval => hgt (isValidRate_iff.mp hval).2)
      refine .trans (.trans ?_ (.recomputeGoverned _)) (.recomputeSaturation _)
      cases bump with
      | false => exact .insert hr ⟨rfl, rfl, Or.inr hm, Or.inl rfl⟩
      | true =>
        refine .trans ?_ (.of_eq rfl : Regauged (bumpResourceGeneration _ res) _)
        refine .trans ?_ (.bump _ res)
        exact .insert hr ⟨rfl, rfl, Or.inr hm, Or.inl rfl⟩

theorem setResourceEnabled_regauged (g : Governor) (res : ResourceId) (enabled : Bool) :
    g.Regauged (g.setResourceEnabled res enabled) := by
  unfold setResourceEnabled
  cases hr : g.resources.find? res with
  | none => exact .of_eq rfl
  | some r =>
    refine .trans (.trans ?_ (.recomputeGoverned _)) (.recomputeSaturation _)
    exact .insert hr ⟨rfl, rfl, Or.inl rfl, Or.inl rfl⟩

theorem invalidateResourceCapacity_regauged (g : Governor) (res : ResourceId) :
    g.Regauged (g.invalidateResourceCapacity res) := by
  unfold invalidateResourceCapacity
  cases g.resources.find? res with
  | none => exact .of_eq rfl
  | some r =>
    refine .trans (.trans ?_ (.recomputeGoverned _)) (.recomputeSaturation _)
    exact .trans (.bump g res) (.of_eq rfl)

/-- Rolling a flow edits the flow, writes reservations and draws identities, also when it throws. -/
theorem rollFlow_rest (g : Governor) (worker : WorkerId) (boot : WorkerBootId) (fid : FlowId)
    (f : FlowRT) : ∃ f' rs gen, stateAfter id (g.rollFlow worker boot fid f) =
      { g with flows := g.flows.insert fid f', reservations := rs, gen := gen } ∧
      f'.lastMs = f.lastMs ∧ f'.starvationMs = f.starvationMs ∧
      (f'.state = f.state ∨ f'.state = .named .reserved) := by
  obtain ⟨rs, hrel⟩ := g.releaseOf_eq f
  have hclose : ∀ (g₁ : Governor) (f₁ : FlowRT),
      (∃ rs gen, g₁ = { g with reservations := rs, gen := gen }) → f₁.lastMs = f.lastMs →
      f₁.starvationMs = f.starvationMs → f₁.state = f.state →
      ∃ f' rs gen, stateAfter id (g₁.fileReserved fid f₁ id) =
          { g with flows := g.flows.insert fid f', reservations := rs, gen := gen } ∧
        f'.lastMs = f.lastMs ∧ f'.starvationMs = f.starvationMs ∧
        (f'.state = f.state ∨ f'.state = .named .reserved) := by
    rintro g₁ f₁ ⟨rs, gen, rfl⟩ hl hs hst
    obtain ⟨f₂, hstate, rfl | hset⟩ := fileReserved_cases id id (fun _ => rfl)
      { g with reservations := rs, gen := gen } fid f₁
    · exact ⟨_, rs, gen, hstate, hl, hs, Or.inl hst⟩
    · rw [hstate, setFlowState_eq_ok hset]
      exact ⟨_, rs, gen, rfl, hl, hs, Or.inr rfl⟩
  unfold rollFlow
  dsimp only
  rw [hrel]
  cases g.paths.find? f.spec.path with
  | none => exact hclose _ _ ⟨_, _, rfl⟩ rfl rfl rfl
  | some path =>
    rcases mintReservation_cases ({ g with reservations := rs } : Governor).drawn
      (rolledFlow f g.gen.next.1 worker boot).spec boot path.hops
      (rollGrant (rolledFlow f g.gen.next.1 worker boot)) with ⟨e, he⟩ | ⟨rsv, hok, -⟩
    · dsimp only
      erw [he]
      exact ⟨_, _, _, rfl, rfl, rfl, Or.inl rfl⟩
    · dsimp only
      erw [hok]
      exact hclose _ _ ⟨_, _, rfl⟩ rfl rfl rfl

theorem foldlM_rollFlow_rest (worker : WorkerId) (boot : WorkerBootId) :
    ∀ (l : List (FlowId × FlowRT)) (g : Governor), ∃ fs rs gen, stateAfter id (l.foldlM
      (fun g e => if rolls worker e.2 then g.rollFlow worker boot e.1 e.2 else .ok g) g) =
        { g with flows := fs, reservations := rs, gen := gen }
  | [], _ => ⟨_, _, _, rfl⟩
  | e :: l, g => by
    rw [List.foldlM_cons]
    split
    · obtain ⟨f', rs, gen, h, -⟩ := g.rollFlow_rest worker boot e.1 e.2
      cases hr : g.rollFlow worker boot e.1 e.2 with
      | error x =>
        rw [hr] at h
        exact ⟨_, rs, gen, h⟩
      | ok g₁ =>
        rw [hr] at h
        obtain rfl : g₁ = _ := h
        obtain ⟨fs', rs', gen', h'⟩ := foldlM_rollFlow_rest worker boot l
          { g with flows := g.flows.insert e.1 f', reservations := rs, gen := gen }
        exact ⟨fs', rs', gen', h'⟩
    · exact foldlM_rollFlow_rest worker boot l g

theorem registerWorker_regauged (g : Governor) (reg : WorkerRegistration) :
    g.Regauged (stateAfter id (g.registerWorker reg)) := by
  have hinstall : ∀ (l : List ResourceSpec) (g : Governor),
      g.Regauged (l.foldl (fun g rs => g.installResource rs id) g) := by
    intro l
    induction l with
    | nil => exact fun g => .of_eq rfl
    | cons rs l ih =>
      exact fun g =>
        (Regauged.install g rs fun _ => ⟨rfl, rfl, Or.inl rfl, Or.inl rfl⟩).trans (ih _)
  have henrol : g.Regauged (g.enrol reg) := (hinstall reg.inventory g).trans (.of_eq rfl)
  unfold registerWorker
  dsimp only
  split
  · obtain ⟨fs, rs, gen, h⟩ :=
      foldlM_rollFlow_rest reg.worker reg.boot (g.enrol reg).flows.entries (g.enrol reg)
    cases hl : (g.enrol reg).flows.entries.foldlM (fun g e =>
        if rolls reg.worker e.2 then g.rollFlow reg.worker reg.boot e.1 e.2 else .ok g)
        (g.enrol reg) with
    | error x =>
      rw [hl] at h
      obtain ⟨e, g₁⟩ := x
      obtain rfl : g₁ = _ := h
      exact henrol.trans (.of_eq rfl)
    | ok g₁ =>
      rw [hl] at h
      obtain rfl : g₁ = _ := h
      exact (henrol.trans (.of_eq rfl)).trans (.recomputeGoverned _)
  · exact henrol.trans (.recomputeGoverned _)

theorem resumeFlow_regauged {g : Governor} (hr : g.RatedFlows) (fid : FlowId) :
    g.Regauged (stateAfter Prod.fst (g.resumeFlow fid)) := by
  refine .of_eq ?_
  unfold resumeFlow
  cases hf : g.flows.find? fid with
  | none => rfl
  | some f =>
    dsimp only
    split
    · rfl
    · rcases g.rereserve_spec (hr fid f hf) with h | ⟨path, c, -, -, h⟩
      · simp only [h, bind, Except.bind]
        cases setFlowState f .reserved <;> rfl
      · simp only [h, bind, Except.bind]
        split <;> rfl

/-! ### Runs -/

/-- On every registered resource, the reservations held aside and the grants on it each total at
    most the bound of a single rate. -/
def withinRates (g : Governor) : Bool := g.resources.entries.all fun e =>
  decide (g.reservedOn e.1 ≤ kMaxRate) && decide (g.allocatedOn e.1 ≤ kMaxRate)

theorem withinRates_iff {g : Governor} : g.withinRates = true ↔
    ∀ rid r, g.resources.find? rid = some r →
      g.reservedOn rid ≤ kMaxRate ∧ g.allocatedOn rid ≤ kMaxRate := by
  simp only [withinRates, List.all_eq_true, Bool.and_eq_true, decide_eq_true_eq]
  constructor
  · intro h rid r hr
    exact h (rid, r) (Table.mem_of_find? hr)
  · intro h e he
    exact h e.1 e.2 (Table.find?_of_mem he)

theorem ranged_recomputeReserved {g : Governor} (h : g.Ranged) : g.recomputeReserved.Ranged := by
  intro rid r' hr'
  rw [recomputeReserved_find?] at hr'
  obtain ⟨r, hr, rfl⟩ := Option.map_eq_some_iff.mp hr'
  exact h rid r hr

theorem ranged_recomputeAllocated {g : Governor} (h : g.Ranged) :
    g.recomputeAllocated.Ranged := by
  intro rid r' hr'
  rw [recomputeAllocated_find?] at hr'
  obtain ⟨r, hr, rfl⟩ := Option.map_eq_some_iff.mp hr'
  exact h rid r hr

theorem ranged_recomputeUsage {g : Governor} (h : g.Ranged) : g.recomputeUsage.Ranged :=
  (Regauged.recomputeSaturation _).ranged (ranged_recomputeAllocated (ranged_recomputeReserved h))

/-- Fresh sums are within the bound exactly where the tables are. -/
theorem capped_recomputeUsage_iff {g : Governor} :
    g.recomputeUsage.Capped ↔ g.withinRates = true := by
  rw [withinRates_iff]
  constructor
  · intro h rid r hr
    exact h rid _ (by rw [recomputeUsage_find?, hr]; rfl)
  · intro h rid r' hr'
    rw [recomputeUsage_find?] at hr'
    obtain ⟨r, hr, rfl⟩ := Option.map_eq_some_iff.mp hr'
    exact h rid r hr

theorem withinRates_recomputeUsage (g : Governor) :
    g.recomputeUsage.withinRates = g.withinRates := by
  rw [Bool.eq_iff_iff, ← capped_recomputeUsage_iff, ← capped_recomputeUsage_iff]
  constructor
  · intro h rid r' hr'
    rw [recomputeUsage_find?] at hr'
    obtain ⟨r, hr, rfl⟩ := Option.map_eq_some_iff.mp hr'
    exact h rid _ (by rw [recomputeUsage_find?, recomputeUsage_find?, hr]; rfl)
  · intro h rid r' hr'
    rw [recomputeUsage_find?, recomputeUsage_find?, Option.map_map] at hr'
    obtain ⟨r, hr, rfl⟩ := Option.map_eq_some_iff.mp hr'
    exact h rid _ (by rw [recomputeUsage_find?, hr]; rfl)

/-- The rates of the resources after an operation: measured and governed stay within the bound, and
    so do the sums where the tables were and are. -/
def KeepsRates (g g' : Governor) : Prop := g.Ranged → g'.Ranged ∧
  (g.Capped → g.withinRates = true → g'.withinRates = true → g'.Capped)

theorem Regauged.rates {g g' : Governor} (h : g.Regauged g') : g.KeepsRates g' := fun hm =>
  ⟨h.ranged hm, fun hc _ _ => h.capped hc⟩

theorem rates_recomputeUsage {g h : Governor} (hh : g.Ranged → h.Ranged) :
    g.KeepsRates h.recomputeUsage := fun hm =>
  ⟨ranged_recomputeUsage (hh hm), fun _ _ hw =>
    capped_recomputeUsage_iff.mpr (withinRates_recomputeUsage h ▸ hw)⟩

theorem ranged_scanned {g : Governor} (h : g.Ranged) : g.scanned.Ranged :=
  ranged_recomputeAllocated (ranged_recomputeReserved ((Regauged.recomputeGoverned g).ranged h))

theorem submitFlow_rates (g : Governor) (spec : FlowSpec) :
    g.KeepsRates (stateAfter Prod.fst (g.submitFlow spec)) := by
  obtain ⟨g', res, hok, hs⟩ := g.submitFlow_spec spec
  rw [hok, stateAfter]
  generalize res.admitted = b at hs
  cases hs with
  | refused => exact (Regauged.of_eq rfl).rates
  | parked =>
    -- The scan has refreshed the sums from the tables as they were.
    refine fun hm => ⟨ranged_scanned hm, fun _ hw _ rid r' hr' => ?_⟩
    have hr'' : g.scanned.resources.find? rid = some r' := hr'
    rw [scanned_find?] at hr''
    obtain ⟨r, hr, rfl⟩ := Option.map_eq_some_iff.mp hr''
    exact withinRates_iff.mp hw rid r hr
  | admitted => exact rates_recomputeUsage ranged_scanned

theorem releaseReservation_rates (g : Governor) (rid : ReservationId) :
    g.KeepsRates (g.releaseReservation rid).1 := by
  unfold releaseReservation
  cases g.reservations.find? rid with
  | none => exact (Regauged.of_eq rfl).rates
  | some rsv =>
    dsimp only
    split
    · exact (Regauged.of_eq rfl).rates
    · have hres : (g.releaseReservationInternal rid).resources = g.resources := by
        obtain ⟨rs, h⟩ := g.releaseReservationInternal_eq rid
        rw [h]
      have hfind : ∀ x, (g.releaseReservationInternal rid).recomputeReserved.resources.find? x =
          (g.resources.find? x).map fun r =>
            { r with reserved := (g.releaseReservationInternal rid).reservedOn x } := fun x => by
        rw [recomputeReserved_find?, hres]
      refine fun hm => ⟨(Regauged.recomputeSaturation _).ranged (ranged_recomputeReserved
        fun x r hr => hm x r (hres ▸ hr)),
          fun hc _ hw => (Regauged.recomputeSaturation _).capped ?_⟩
      intro x r' hr'
      obtain ⟨r, hr, rfl⟩ := Option.map_eq_some_iff.mp ((hfind x).symm.trans hr')
      refine ⟨(withinRates_iff.mp hw x { r with
        reserved := (g.releaseReservationInternal rid).reservedOn x
        saturated := decide (r.allocated + (g.releaseReservationInternal rid).reservedOn x ≥
          r.governed * (1 - kEps)) } ?_).1, (hc x r hr).2⟩
      simp only [recomputeSaturation, Table.find?_mapVals, hfind, hr]
      rfl

theorem apply_rates {g : Governor} (hr : g.RatedFlows) (op : Op) : g.KeepsRates (g.apply op) := by
  cases op with
  | setAutoClock auto => exact (Regauged.of_eq rfl).rates
  | advanceMs dt => exact (Regauged.of_eq rfl).rates
  | addResource spec =>
    have hw : ∀ r : ResRT, RateEdit r { r with confidence := 0 } := fun _ =>
      ⟨rfl, rfl, Or.inl rfl, Or.inl rfl⟩
    exact ((Regauged.install g spec hw).trans (.recomputeGoverned _)).rates
  | updateCapacity res measured confidence provenance latency depth bump =>
    exact (g.updateCapacity_regauged res measured confidence provenance latency depth bump).rates
  | setResourceEnabled res enabled => exact (g.setResourceEnabled_regauged res enabled).rates
  | invalidateResourceCapacity res => exact (g.invalidateResourceCapacity_regauged res).rates
  | addPath path =>
    refine Regauged.rates (.of_eq ?_)
    change (stateAfter id (g.addPath path)).resources.find? = _
    unfold addPath
    cases validatePath path <;> rfl
  | invalidatePath path => exact (Regauged.of_eq rfl : g.Regauged (g.invalidatePath path)).rates
  | submitFlow spec => exact g.submitFlow_rates spec
  | cancelFlow flow reason =>
    change g.KeepsRates (stateAfter Prod.fst (g.cancelFlow flow reason))
    rcases g.cancelFlow_usage flow reason with h | ⟨h, hres, he⟩
    · rw [h]; exact (Regauged.of_eq rfl).rates
    · rw [he]; exact rates_recomputeUsage fun hm x r hx => hm x r (hres ▸ hx)
  | resumeFlow flow => exact (resumeFlow_regauged hr flow).rates
  | tick =>
    have htick : g.tick = .ok (g.aged.drained.recomputeGoverned.recomputeReserved).arbitrated := by
      rw [tick, prepareTick_eq]
      exact arbitrate_eq _
    simp only [Governor.apply, htick]
    refine rates_recomputeUsage fun hm => ?_
    have hdrained : g.aged.drained.Ranged := fun x r hx => hm x r ?_
    · exact ranged_recomputeReserved ((Regauged.recomputeGoverned _).ranged hdrained)
    · obtain ⟨fs, rs, gen, h⟩ := g.aged.drained_rest
      rw [h] at hx
      exact hx
  | releaseReservation rid => exact g.releaseReservation_rates rid
  | registerWorker reg => exact (g.registerWorker_regauged reg).rates
  | deregisterWorker worker =>
    exact (Regauged.of_eq rfl : g.Regauged (g.deregisterWorker worker)).rates
  | reportProgress flow attempt fgen boot bytes =>
    refine Regauged.rates (.of_eq ?_)
    change (g.reportProgress flow attempt fgen boot bytes).1.resources.find? = _
    unfold reportProgress
    cases g.flows.find? flow with
    | none => rfl
    | some f => dsimp only; split <;> rfl
  | reportCompletion flow attempt fgen boot bytes =>
    change g.KeepsRates (stateAfter Prod.fst (g.reportCompletion flow attempt fgen boot bytes))
    rcases g.reportCompletion_usage flow attempt fgen boot bytes with h | ⟨h, hres, he⟩
    · rw [h]; exact (Regauged.of_eq rfl).rates
    · rw [he]; exact rates_recomputeUsage fun hm x r hx => hm x r (hres ▸ hx)
  | restore snap =>
    refine rates_recomputeUsage fun _ => (Regauged.recomputeGoverned _).ranged ?_
    intro x r hx
    obtain ⟨spec, -, -, rfl⟩ := Table.ofList_find? hx
    exact ResRT.ranged_zero rfl rfl

theorem Rehashed.regauged {g g' : Governor} (h : g.Rehashed g') : g.Regauged g' :=
  .of_eq (funext fun rid => (h.resources.find? rid).symm)

theorem step_rates {g g' : Governor} {e : Event} (hr : g.RatedFlows) (hs : g.Step e g') :
    g.KeepsRates g' := by
  cases hs with
  | call op => exact apply_rates hr op
  | clock t => exact (Regauged.of_eq rfl : g.Regauged { g with steadyNow := t }).rates
  | rehash h => exact h.regauged.rates

theorem Fresh.rates {g : Governor} (h : g.Fresh) : g.RatedFlows ∧ g.Ranged ∧ g.Capped ∧
    g.withinRates = true := by
  obtain ⟨entropy, config, steady, rfl⟩ := h
  refine ⟨fun fid f hf => ?_, fun rid r hr => ?_, fun rid r hr => ?_, rfl⟩
  · cases hf
  · cases hr
  · cases hr

end Governor

theorem ranged_of_run {g₀ g : Governor} {es : List Event} (hfresh : g₀.Fresh)
    (hrun : Lib.Run Governor.Step g₀ es g) : g.RatedFlows ∧ g.Ranged :=
  hrun.inv (P := fun g => g.RatedFlows ∧ g.Ranged) (fun _ _ _ ⟨hr, hm⟩ hs =>
    ⟨flowsRated_of_step hs hr, (Governor.step_rates hr hs hm).1⟩)
    ⟨hfresh.rates.1, hfresh.rates.2.1⟩

/-- When queries return. In every state of a run whose states all keep the reservations held aside
    and the grants on each resource within the bound of a single rate, every query returns; and
    after any run, once the sums are refreshed, every query returns exactly if the state is such. -/
theorem queries_return {g₀ g : Governor} {es : List Event} (hfresh : g₀.Fresh) :
    (Lib.Run (fun g e g' => g.Step e g' ∧ g'.withinRates = true) g₀ es g → g.Observable) ∧
    (Lib.Run Governor.Step g₀ es g → (g.recomputeUsage.Observable ↔ g.withinRates = true)) := by
  obtain ⟨hr, hm, hc, hw⟩ := hfresh.rates
  constructor
  · intro hrun
    obtain ⟨hr, hm, hc, -⟩ := hrun.inv (P := fun g => g.RatedFlows ∧ g.Ranged ∧ g.Capped ∧
      g.withinRates = true) (fun g e g' ⟨hr, hm, hc, hw⟩ ⟨hs, hw'⟩ => by
        obtain ⟨hm', hc'⟩ := Governor.step_rates hr hs hm
        exact ⟨flowsRated_of_step hs hr, hm', hc' hc hw hw', hw'⟩) ⟨hr, hm, hc, hw⟩
    exact (Governor.observable_iff hr).mpr ⟨hm.metered, hc⟩
  · intro hrun
    obtain ⟨hr, hm⟩ := ranged_of_run hfresh hrun
    have hr' : g.recomputeUsage.RatedFlows := hr
    rw [Governor.observable_iff hr', Governor.capped_recomputeUsage_iff]
    exact ⟨And.right, fun h => ⟨(Governor.ranged_recomputeUsage hm).metered, h⟩⟩

/-- A sequence of operations through states within the bound. -/
def Governor.staysWithin : Governor → List Op → Bool
  | _, [] => true
  | g, op :: ops => (g.apply op).withinRates && staysWithin (g.apply op) ops

theorem Governor.run_within : ∀ {ops : List Op} {g : Governor}, g.staysWithin ops = true →
    Lib.Run (fun g e g' => g.Step e g' ∧ g'.withinRates = true) g (ops.map Event.call) (g.after ops)
  | [], g, _ => .nil g
  | op :: ops, g, h => by
    rw [staysWithin, Bool.and_eq_true] at h
    exact .cons ⟨.call g op, h.1⟩ (run_within h.2)

namespace Sample

/-- A preemptible flow that asks for all a rate may be. -/
def greedy (i : UInt64) : FlowSpec :=
  { flow i 1 0 (10 ^ 18) (10 ^ 18) with preemptible := true }

/-- Two such flows are admitted to one link, and the link is then disabled. -/
def starved : List Op := [.addResource (link 1 (10 ^ 18)), .addPath (path 1 [1]),
  .submitFlow (greedy 1), .submitFlow (greedy 2), .setResourceEnabled ⟨0, 1⟩ false, .tick]

end Sample

/-- The theorem for the two flows before they are preempted. -/
theorem queries_return_starved : (Sample.start.after Sample.starved).Observable :=
  (queries_return Sample.start_fresh).1 (Governor.run_within
    (by decide +kernel : Sample.start.staysWithin Sample.starved = true))

/-- One more tick preempts both flows: each keeps its reservation, the two together are more than a
    rate may be, and neither the list of resources nor a saved state can be had any more. -/
theorem preempted_flows_hide_resources :
    Reaches ((Sample.starved ++ [Op.tick]).map Event.call)
      (Sample.start.after (Sample.starved ++ [Op.tick])) ∧
    (∀ l, (Sample.start.after (Sample.starved ++ [Op.tick])).listResources ≠ .ok l) ∧
    (∀ bytes, (Sample.start.after (Sample.starved ++ [Op.tick])).save ≠ .ok bytes) := by
  have hr : ((Sample.start.after (Sample.starved ++ [Op.tick])).resources.find? ⟨0, 1⟩).map
      ResRT.reserved = some (2 * 10 ^ 18) := by decide +kernel
  obtain ⟨r, hr, hsum⟩ := Option.map_eq_some_iff.mp hr
  have hno : ¬ (Sample.start.after (Sample.starved ++ [Op.tick])).Capped := by
    intro h
    have hle := (h ⟨0, 1⟩ r hr).1
    rw [hsum] at hle
    exact absurd hle (by decide +kernel)
  refine ⟨Sample.reaches rfl, fun l hl => ?_, fun bytes hb => ?_⟩
  · exact hno (Governor.listResources_returns_iff.mp ⟨l, hl⟩).2
  · obtain ⟨s, hs, -⟩ := Governor.bind_eq_ok hb
    obtain ⟨rs, hrs, -⟩ := Governor.bind_eq_ok hs
    exact hno (Governor.resourceSnaps_returns_iff.mp ⟨rs, hrs⟩).2

end BG
