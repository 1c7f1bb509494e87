import Mathlib
import BandwidthGovernor.Governor.Generations
import BandwidthGovernor.Governor.Observation
import BandwidthGovernor.Governor.Preview

/-! What `analyze_path` says about a path.

    The hops are scanned one by one, and on each the scheduled flows that visit its resource are
    listed and their preferred rates added up. The list is sorted and deduplicated afterwards, the
    sum is not: a flow counts once for every hop it shares with the path. A sum beyond `kMaxRate`
    starts again from zero. Where the sum stays within the bound it is right exactly when every flow
    with something to add shares one hop. -/

namespace BG

open Lib

/-! ### Adding rates -/

theorem Capacity.add_value {a b : Capacity} (h : a.value + b.value ≤ kMaxRate) :
    (a.add b).value = a.value + b.value := by
  have hv : isValidRate (a.value + b.value) = true :=
    isValidRate_iff.mpr ⟨add_nonneg a.nonneg b.nonneg, h⟩
  rw [add, setValue, dif_pos hv]

theorem Capacity.add_nothing (a : Capacity) : a.add .zero = a := by
  have hsum : a.value + Capacity.zero.value = a.value := add_zero a.value
  have hv : isValidRate (a.value + Capacity.zero.value) = true := by rw [hsum]; exact a.valid
  rw [add, setValue, dif_pos hv]
  cases a
  congr

/-- Within the bound a running sum is a sum. -/
theorem foldl_add_value : ∀ {l : List Capacity} {c : Capacity},
    c.value + (l.map Capacity.value).sum ≤ kMaxRate →
      (l.foldl Capacity.add c).value = c.value + (l.map Capacity.value).sum
  | [], c, _ => by simp
  | d :: l, c, h => by
    rw [List.map_cons, List.sum_cons, ← add_assoc] at h ⊢
    have hnn : 0 ≤ (l.map Capacity.value).sum := by
      refine List.sum_nonneg fun x hx => ?_
      obtain ⟨c, -, rfl⟩ := List.mem_map.mp hx
      exact c.nonneg
    have hadd : (c.add d).value = c.value + d.value := Capacity.add_value (by linarith)
    rw [List.foldl_cons, foldl_add_value (by rwa [hadd]), hadd]

/-! ### Sorted without repetition -/

/-- `unique` keeps every value. -/
theorem mem_destutter_ne {α : Type} [DecidableEq α] {a : α} : ∀ {l : List α},
    a ∈ l.destutter (· ≠ ·) ↔ a ∈ l
  | [] => Iff.rfl
  | b :: l => by
    have hfrom : ∀ (l : List α) (b : α), a ∈ l.destutter' (· ≠ ·) b ↔ a ∈ b :: l := by
      intro l
      induction l with
      | nil => simp
      | cons c l ih =>
        intro b
        rw [List.destutter'_cons]
        split
        · rw [List.mem_cons, ih, ← List.mem_cons]
        · rename_i h
          rw [not_not] at h
          rw [ih, h]
          simp
    exact hfrom l b

section
variable {t : IdTag}

/-- `sort` and `unique` list every identity once, in ascending order. -/
theorem sortById_destutter (l : List (Id128 t)) :
    ((sortById id l).destutter (· ≠ ·)).Pairwise (fun a b => a.lt b = true) ∧
      ∀ a, a ∈ (sortById id l).destutter (· ≠ ·) ↔ a ∈ l := by
  constructor
  · have hsort : (sortById id l).Pairwise fun a b => a.value ≤ b.value := by
      have htot : Std.Total fun a b : Id128 t => b.lt a = false :=
        ⟨fun a b => by
          rcases Nat.le_total a.value b.value with h | h
          · exact Or.inl (Id128.le_iff.mpr h)
          · exact Or.inr (Id128.le_iff.mpr h)⟩
      have htrans : IsTrans (Id128 t) fun a b => b.lt a = false := ⟨fun _ _ _ => Id128.le.trans⟩
      exact (List.pairwise_insertionSort (fun a b : Id128 t => b.lt a = false) l).imp
        Id128.le_iff.mp
    have hle := hsort.sublist (List.destutter_sublist (· ≠ ·) (sortById id l))
    have hchain : List.IsChain (fun a b : Id128 t => a.value < b.value)
        ((sortById id l).destutter (· ≠ ·)) := by
      rw [List.isChain_iff_getElem]
      intro i hi
      have hne := List.isChain_iff_getElem.mp (List.isChain_destutter (· ≠ ·) (sortById id l)) i hi
      exact lt_of_le_of_ne (List.pairwise_iff_getElem.mp hle i (i + 1) _ hi i.lt_succ_self)
        fun h => hne (Id128.value_injective h)
    have htrans : Trans (fun a b : Id128 t => a.value < b.value)
        (fun a b : Id128 t => a.value < b.value) (fun a b : Id128 t => a.value < b.value) :=
      ⟨fun h h' => Nat.lt_trans h h'⟩
    exact hchain.pairwise.imp Id128.lt_iff.mpr
  · intro a
    rw [mem_destutter_ne, sortById]
    exact (List.perm_insertionSort _ l).mem_iff

end

namespace Governor
variable {g : Governor} {p : Path}

/-! ### The scan -/

/-- The scheduled flows that visit a resource. -/
def visitors (g : Governor) (hop : PathHop) : List (FlowId × FlowRT) :=
  g.flows.entries.filter fun e => isScheduled e.2.state && g.crosses hop.resource e.2

/-- What a hop adds to the total. -/
def visits (g : Governor) (hop : PathHop) : List Capacity :=
  (g.visitors hop).map fun e => e.2.spec.requestedPreferred

theorem crosses_eq_any (g : Governor) (rid : ResourceId) (f : FlowRT) :
    g.crosses rid f = (g.hopsOf f).any fun fh => decide (fh.resource = rid) := by
  rw [Bool.eq_iff_iff]
  simp [crosses]

/-- One registered hop. -/
theorem analyzeHop_some {s : PathScan} {hop : PathHop} {r : ResRT}
    (hr : g.resources.find? hop.resource = some r) :
    (g.analyzeHop s hop).competing = s.competing ++ (g.visitors hop).map Prod.fst ∧
    (g.analyzeHop s hop).totalRequested = (g.visits hop).foldl Capacity.add s.totalRequested ∧
    (g.analyzeHop s hop).bottleneck = min s.bottleneck r.governed := by
  have hfold : ∀ (l : List (FlowId × FlowRT)) (s : PathScan),
      l.foldl (fun s e => { s with
        competing := s.competing ++ [e.1]
        totalRequested := s.totalRequested.add e.2.spec.requestedPreferred }) s =
      { s with
        competing := s.competing ++ l.map Prod.fst
        totalRequested :=
          (l.map fun e => e.2.spec.requestedPreferred).foldl Capacity.add s.totalRequested } := by
    intro l
    induction l with
    | nil => intro s; simp
    | cons e l ih => intro s; rw [List.foldl_cons, ih]; simp
  have hmin : (if r.governed < s.bottleneck then r.governed else s.bottleneck) =
      min s.bottleneck r.governed := by
    rw [min_comm, min_def]
    split <;> split <;> first | rfl | linarith
  unfold analyzeHop
  rw [hr]
  simp only [← crosses_eq_any, Capacity.add_nothing]
  rw [← List.foldl_filter, hfold]
  refine ⟨?_, ?_, ?_⟩
  · dsimp only
    split <;> rfl
  · dsimp only
    split <;> rfl
  · dsimp only
    rw [← hmin]
    split <;> rfl

/-- The loop over registered hops. -/
theorem analyzeHop_foldl : ∀ {hops : List PathHop} {s : PathScan}, g.Registered hops →
    (hops.foldl g.analyzeHop s).competing =
      s.competing ++ hops.flatMap (fun hop => (g.visitors hop).map Prod.fst) ∧
    (hops.foldl g.analyzeHop s).totalRequested =
      (hops.flatMap g.visits).foldl Capacity.add s.totalRequested ∧
    (hops.foldl g.analyzeHop s).bottleneck = g.tightest (fun _ r => r.governed) s.bottleneck hops
  | [], s, _ => by simp [tightest]
  | hop :: hops, s, h => by
    obtain ⟨⟨r, hr⟩, hreg⟩ := List.forall_mem_cons.mp h
    obtain ⟨hc, ht, hb⟩ := analyzeHop_foldl (s := g.analyzeHop s hop) hreg
    obtain ⟨hc', ht', hb'⟩ := analyzeHop_some (s := s) hr
    rw [List.foldl_cons, hc, ht, hb, hc', ht', hb']
    refine ⟨?_, ?_, ?_⟩
    · rw [List.flatMap_cons, List.append_assoc]
    · rw [List.flatMap_cons, List.foldl_append]
    · rw [tightest, hr]

/-! ### The lowest hop -/

theorem tightest_le (free : ResourceId → ResRT → ℚ) : ∀ (hops : List PathHop) (b : ℚ),
    g.tightest free b hops ≤ b ∧ ∀ hop ∈ hops, ∀ r, g.resources.find? hop.resource = some r →
      g.tightest free b hops ≤ free hop.resource r
  | [], b => by simp [tightest]
  | hop :: hops, b => by
    rw [tightest, List.forall_mem_cons]
    cases hr : g.resources.find? hop.resource with
    | none =>
      obtain ⟨hb, hle⟩ := tightest_le free hops b
      refine ⟨hb, fun _ h => ?_, hle⟩
      cases h
    | some r =>
      obtain ⟨hb, hle⟩ := tightest_le free hops (min b (free hop.resource r))
      refine ⟨hb.trans (min_le_left ..), fun r' h => ?_, hle⟩
      rw [← Option.some.inj h]
      exact hb.trans (min_le_right ..)

theorem tightest_attained (free : ResourceId → ResRT → ℚ) : ∀ (hops : List PathHop) (b : ℚ),
    g.tightest free b hops = b ∨ ∃ hop ∈ hops, ∃ r, g.resources.find? hop.resource = some r ∧
      g.tightest free b hops = free hop.resource r
  | [], b => Or.inl rfl
  | hop :: hops, b => by
    rw [tightest]
    cases hr : g.resources.find? hop.resource with
    | none =>
      rcases tightest_attained free hops b with h | ⟨hop', hmem, h⟩
      · exact Or.inl h
      · exact Or.inr ⟨hop', List.mem_cons_of_mem _ hmem, h⟩
    | some r =>
      rcases tightest_attained free hops (min b (free hop.resource r)) with
        h | ⟨hop', hmem, h⟩
      · rcases min_choice b (free hop.resource r) with hm | hm
        · exact Or.inl (h.trans hm)
        · exact Or.inr ⟨hop, List.mem_cons_self .., r, hr, h.trans hm⟩
      · exact Or.inr ⟨hop', List.mem_cons_of_mem _ hmem, h⟩

/-- Below the bound, the lowest of the governed rates on registered hops. -/
theorem tightest_governed (hg : g.Ranged) (hreg : g.Registered p.hops) (hne : p.hops ≠ []) :
    ∃ hop ∈ p.hops, ∃ r, g.resources.find? hop.resource = some r ∧
      g.tightest (fun _ r => r.governed) kMaxRate p.hops = r.governed := by
  rcases tightest_attained (g := g) (fun _ r => r.governed) p.hops kMaxRate with
    h | h
  · obtain ⟨hop, hmem⟩ := List.exists_mem_of_ne_nil _ hne
    obtain ⟨r, hr⟩ := hreg hop hmem
    have hle := (tightest_le (fun _ r => r.governed) _ kMaxRate).2 hop hmem r hr
    rw [h] at hle
    exact ⟨hop, hmem, r, hr, h.trans (le_antisymm hle (hg _ r hr).1.2)⟩
  · exact h

/-! ### Demand -/

/-- On how many hops a flow meets the path. -/
def sharedHops (g : Governor) (hops : List PathHop) (f : FlowRT) : ℕ :=
  hops.countP fun hop => g.crosses hop.resource f

/-- A scheduled flow that meets the path. -/
def competes (g : Governor) (p : Path) (f : FlowRT) : Bool :=
  isScheduled f.state && p.hops.any fun hop => g.crosses hop.resource f

/-- What the competing flows prefer, each counted once. -/
def demand (g : Governor) (p : Path) : ℚ :=
  g.flows.sum fun _ f => if g.competes p f then f.spec.requestedPreferred.value else 0

/-- The same, each counted for every hop it shares. -/
def hopDemand (g : Governor) (hops : List PathHop) : ℚ :=
  g.flows.sum fun _ f => if isScheduled f.state then
    g.sharedHops hops f * f.spec.requestedPreferred.value else 0

/-- Every competing flow with something to add shares one hop with the path. -/
def SharesOnce (g : Governor) (p : Path) : Prop :=
  ∀ e ∈ g.flows.entries, g.competes p e.2 = true → 0 < e.2.spec.requestedPreferred.value →
    g.sharedHops p.hops e.2 = 1

instance (g : Governor) (p : Path) : Decidable (g.SharesOnce p) :=
  inferInstanceAs (Decidable (∀ _ ∈ _, _))

theorem competes_iff {f : FlowRT} :
    g.competes p f = true ↔ isScheduled f.state = true ∧ 0 < g.sharedHops p.hops f := by
  rw [competes, sharedHops, Bool.and_eq_true, List.any_eq_true, List.countP_pos_iff]

/-- What the loop adds up. -/
theorem sum_visits (g : Governor) : ∀ hops : List PathHop,
    ((hops.flatMap g.visits).map Capacity.value).sum = g.hopDemand hops
  | [] => by
    refine (Table.sum_eq_zero fun _ f _ => ?_).symm
    simp [sharedHops]
  | hop :: hops => by
    have hhop : ((g.visits hop).map Capacity.value).sum = g.flows.sum fun _ f =>
        if isScheduled f.state && g.crosses hop.resource f then f.spec.requestedPreferred.value
        else 0 := by
      rw [visits, visitors, List.map_map, Table.sum]
      induction g.flows.entries with
      | nil => rfl
      | cons e l ih =>
        rw [List.filter_cons, List.map_cons, List.sum_cons, ← ih]
        split <;> simp
    rw [List.flatMap_cons, List.map_append, List.sum_append, sum_visits g hops, hhop, hopDemand,
      hopDemand, ← Table.sum_add]
    refine Table.sum_congr fun _ f _ => ?_
    rw [sharedHops, sharedHops, List.countP_cons]
    cases isScheduled f.state <;> cases g.crosses hop.resource f <;> simp
    ring

theorem demand_term_le {f : FlowRT} :
    (if g.competes p f then f.spec.requestedPreferred.value else 0) ≤
      if isScheduled f.state then
        g.sharedHops p.hops f * f.spec.requestedPreferred.value else 0 := by
  have hnn := f.spec.requestedPreferred.nonneg
  split
  · rename_i hc
    obtain ⟨hs, hpos⟩ := competes_iff.mp hc
    rw [if_pos hs]
    exact le_mul_of_one_le_left hnn (by exact_mod_cast hpos)
  · split
    · exact mul_nonneg (Nat.cast_nonneg _) hnn
    · exact le_refl _

theorem demand_le_hopDemand : g.demand p ≤ g.hopDemand p.hops :=
  Table.sum_le_sum fun _ _ _ => demand_term_le

/-- Both counts agree exactly when the flows with something to add share one hop. -/
theorem demand_eq_iff : g.demand p = g.hopDemand p.hops ↔ g.SharesOnce p := by
  constructor
  · intro h e he hc hpos
    have hterm := Table.eq_of_sum_eq (fun _ _ _ => demand_term_le) h e.1 e.2 he
    obtain ⟨hs, -⟩ := competes_iff.mp hc
    rw [if_pos hc, if_pos hs] at hterm
    have hone : ((g.sharedHops p.hops e.2 : ℕ) : ℚ) = 1 := by
      refine mul_right_cancel₀ hpos.ne' ?_
      rw [one_mul]
      exact hterm.symm
    exact_mod_cast hone
  · intro h
    refine Table.sum_congr fun fid f hf => ?_
    have hnn := f.spec.requestedPreferred.nonneg
    cases hc : g.competes p f with
    | false =>
      cases hs : isScheduled f.state with
      | false => rfl
      | true =>
        have hzero : g.sharedHops p.hops f = 0 := by
          by_contra hne
          have := competes_iff.mpr ⟨hs, Nat.pos_of_ne_zero hne⟩
          rw [hc] at this
          cases this
        simp [hzero]
    | true =>
      rw [if_pos rfl, if_pos (competes_iff.mp hc).1]
      rcases hnn.eq_or_lt with h0 | hpos
      · rw [← h0, mul_zero]
      · rw [h (fid, f) hf hc hpos, Nat.cast_one, one_mul]

/-! ### The answer -/

/-- The competing flows in order, and the lowest governed rate. -/
structure Surveyed (g : Governor) (p : Path) (a : PathAnalysis) : Prop where
  ascending : a.competingFlows.Pairwise fun x y => x.lt y = true
  competing : ∀ fid, fid ∈ a.competingFlows ↔
    ∃ f, g.flows.find? fid = some f ∧ g.competes p f = true
  feasible_le : ∀ hop ∈ p.hops, ∀ r, g.resources.find? hop.resource = some r →
    a.feasible.value ≤ r.governed
  feasible_attained : p.hops ≠ [] → ∃ hop ∈ p.hops, ∃ r,
    g.resources.find? hop.resource = some r ∧ a.feasible.value = r.governed

/-- An analysis that is right about the demand as well. -/
structure Exact (g : Governor) (p : Path) (a : PathAnalysis) : Prop extends g.Surveyed p a where
  total : g.demand p ≤ kMaxRate → a.totalRequested.value = g.demand p
  covers : kMaxRate < g.demand p → ∀ fid f, g.flows.find? fid = some f → g.competes p f = true →
    f.spec.requestedPreferred.value ≤ a.totalRequested.value
  saturated : a.saturated = true ↔ a.feasible.value + kEps < g.demand p

theorem mem_competing {hops : List PathHop} {fid : FlowId} :
    fid ∈ hops.flatMap (fun hop => (g.visitors hop).map Prod.fst) ↔
      ∃ f, g.flows.find? fid = some f ∧ isScheduled f.state = true ∧
        hops.any (fun hop => g.crosses hop.resource f) = true := by
  simp only [List.mem_flatMap, List.mem_map, visitors, List.mem_filter, Bool.and_eq_true,
    List.any_eq_true]
  constructor
  · rintro ⟨hop, hhop, ⟨fid', f⟩, ⟨he, hs, hc⟩, rfl⟩
    exact ⟨f, Table.find?_of_mem he, hs, hop, hhop, hc⟩
  · rintro ⟨f, hf, hs, hop, hhop, hc⟩
    exact ⟨hop, hhop, (fid, f), ⟨Table.mem_of_find? hf, hs, hc⟩, rfl⟩

/-- The analysis of a path whose hops are registered. -/
theorem analyzePath_surveyed {pid : PathId} (hg : g.Ranged) (hp : g.paths.find? pid = some p)
    (hreg : g.Registered p.hops) : ∃ a, g.analyzePath pid = .ok (some a) ∧ g.Surveyed p a ∧
      a.totalRequested = (p.hops.flatMap g.visits).foldl Capacity.add .zero ∧
      (a.saturated = true ↔ a.feasible.value + kEps < a.totalRequested.value) := by
  obtain ⟨hc, ht, hb⟩ := analyzeHop_foldl (s := {}) hreg
  obtain ⟨hmax, hle⟩ := tightest_le (g := g) (fun _ r => r.governed) p.hops kMaxRate
  have hnn : 0 ≤ g.tightest (fun _ r => r.governed) kMaxRate p.hops := by
    rcases tightest_attained (g := g) (fun _ r => r.governed) p.hops kMaxRate with
      h | ⟨hop, -, r, hr, h⟩
    · rw [h]
      exact kMaxRate_pos.le
    · rw [h]
      exact (hg _ r hr).2
  obtain ⟨a, ha, hflows, htotal, hfeas, hsat⟩ : ∃ a, g.analyzePath pid = .ok (some a) ∧
      a.competingFlows =
        (sortById id (p.hops.foldl g.analyzeHop {}).competing).destutter (· ≠ ·) ∧
      a.totalRequested = (p.hops.foldl g.analyzeHop {}).totalRequested ∧
      a.feasible.value = g.tightest (fun _ r => r.governed) kMaxRate p.hops ∧
      a.saturated = decide (a.totalRequested.value > a.feasible.value + kEps) := by
    unfold analyzePath
    rw [hp]
    dsimp only
    rw [hb, max_eq_right hnn, Capacity.make_of_mem hnn hmax]
    exact ⟨_, rfl, rfl, rfl, rfl, rfl⟩
  obtain ⟨hasc, hmem⟩ := sortById_destutter (p.hops.foldl g.analyzeHop {}).competing
  refine ⟨a, ha, ⟨?_, fun fid => ?_, ?_, fun hne => ?_⟩, htotal.trans ht, ?_⟩
  · rw [hflows]
    exact hasc
  · rw [hflows, hmem fid, hc, List.nil_append, mem_competing]
    simp only [competes, Bool.and_eq_true]
  · rw [hfeas]
    exact hle
  · rw [hfeas]
    exact tightest_governed hg hreg hne
  · rw [hsat]
    exact decide_eq_true_iff

end Governor

open Governor

/-- The list and the lowest rate are always right. The demand is right wherever it stays within the
    bound and every flow with something to add shares one hop; while the sum over all hops stays
    within the bound, only there. -/
theorem path_analysis_exact_iff {g₀ g : Governor} {es : List Event} (hfresh : g₀.Fresh)
    (hrun : Lib.Run Governor.Step g₀ es g) {pid : PathId} {p : Path}
    (hp : g.paths.find? pid = some p) (hreg : g.Registered p.hops) :
    ∃ a, g.analyzePath pid = .ok (some a) ∧ g.Surveyed p a ∧
      (g.SharesOnce p → g.demand p ≤ kMaxRate → g.Exact p a) ∧
      (g.hopDemand p.hops ≤ kMaxRate → (g.Exact p a ↔ g.SharesOnce p)) := by
  obtain ⟨a, ha, hsurvey, htotal, hsat⟩ :=
    analyzePath_surveyed (ranged_of_run hfresh hrun).2 hp hreg
  have hsum : g.hopDemand p.hops ≤ kMaxRate → a.totalRequested.value = g.hopDemand p.hops := by
    intro hle
    have hzero : Capacity.zero.value + ((p.hops.flatMap g.visits).map Capacity.value).sum =
        g.hopDemand p.hops := (zero_add _).trans (g.sum_visits p.hops)
    rw [htotal, foldl_add_value (by rwa [hzero]), hzero]
  have hexact : g.hopDemand p.hops ≤ kMaxRate → g.SharesOnce p → g.Exact p a := by
    intro hle honce
    have hdemand := demand_eq_iff.mpr honce
    refine ⟨hsurvey, fun _ => (hsum hle).trans hdemand.symm, fun hlt => ?_, ?_⟩
    · exact absurd (hdemand.trans_le hle) (not_le.mpr hlt)
    · rw [hsat, hsum hle, hdemand]
  refine ⟨a, ha, hsurvey, fun honce hle => hexact (demand_eq_iff.mpr honce ▸ hle) honce,
    fun hle => ⟨fun h => ?_, hexact hle⟩⟩
  rw [← demand_eq_iff, ← hsum hle]
  exact (h.total (demand_le_hopDemand.trans hle)).symm

deriving instance DecidableEq for PathHop
deriving instance DecidableEq for Path

namespace Sample

/-- Two flows on one link. -/
def shared : Governor :=
  start.after (oneLink ++ [.submitFlow (flow 1 1 10 60 100), .submitFlow (flow 2 1 10 30 100)])

/-- One flow on two links. -/
def twice : Governor :=
  start.after [.addResource (link 1 100), .addResource (link 2 100), .addPath (path 1 [1, 2]),
    .submitFlow (flow 1 1 10 60 100)]

theorem registered_of_all {g : Governor} {hops : List PathHop}
    (h : (hops.all fun hop => (g.resources.find? hop.resource).isSome) = true) :
    g.Registered hops := by
  intro hop hmem
  exact Option.isSome_iff_exists.mp (List.all_eq_true.mp h hop hmem)

end Sample

/-- The theorem at two flows that share one link with the path. -/
theorem path_analysis_exact_shared : ∃ a, Sample.shared.analyzePath ⟨0, 1⟩ = .ok (some a) ∧
    Sample.shared.demand (Sample.path 1 [1]) = 90 ∧ Sample.shared.Exact (Sample.path 1 [1]) a := by
  obtain ⟨a, ha, -, -, hexact⟩ := path_analysis_exact_iff Sample.start_fresh
    (run_after _ Sample.start)
    (by decide +kernel : Sample.shared.paths.find? ⟨0, 1⟩ = some (Sample.path 1 [1]))
    (Sample.registered_of_all (by decide +kernel))
  exact ⟨a, ha, by decide +kernel, (hexact (by decide +kernel)).mpr (by decide +kernel)⟩

/-- A flow that prefers 60 on two links of rate 100 is counted twice, and the path called
    saturated. -/
theorem two_hops_counted_twice :
    Sample.start.Fresh ∧ (∃ es, Lib.Run Governor.Step Sample.start es Sample.twice) ∧
    Sample.twice.paths.find? ⟨0, 1⟩ = some (Sample.path 1 [1, 2]) ∧
    Sample.twice.Registered (Sample.path 1 [1, 2]).hops ∧
    Sample.twice.demand (Sample.path 1 [1, 2]) = 60 ∧
    ∃ a, Sample.twice.analyzePath ⟨0, 1⟩ = .ok (some a) ∧ a.totalRequested.value = 120 ∧
      a.feasible.value = 100 ∧ a.saturated = true ∧
      ¬ Sample.twice.Exact (Sample.path 1 [1, 2]) a := by
  have hdemand : Sample.twice.demand (Sample.path 1 [1, 2]) = 60 := by decide +kernel
  refine ⟨Sample.start_fresh, ⟨_, run_after _ Sample.start⟩, by decide +kernel,
    Sample.registered_of_all (by decide +kernel), hdemand, ?_⟩
  have hfigures : (Sample.twice.analyzePath ⟨0, 1⟩).toOption.join.map
      (fun a => (a.totalRequested.value, a.feasible.value, a.saturated)) =
        some (120, 100, true) := by
    decide +kernel
  cases ha : Sample.twice.analyzePath ⟨0, 1⟩ with
  | error e =>
    rw [ha] at hfigures
    cases hfigures
  | ok o =>
    cases o with
    | none =>
      rw [ha] at hfigures
      cases hfigures
    | some a =>
      rw [ha] at hfigures
      have hfig : (a.totalRequested.value, a.feasible.value, a.saturated) = (120, 100, true) :=
        Option.some.inj hfigures
      simp only [Prod.mk.injEq] at hfig
      refine ⟨a, rfl, hfig.1, hfig.2.1, hfig.2.2, fun h => ?_⟩
      have htotal := h.total (by rw [hdemand]; norm_num [kMaxRate])
      rw [hdemand, hfig.1] at htotal
      norm_num at htotal

end BG
