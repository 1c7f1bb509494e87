import Mathlib
import BandwidthGovernor.Governor.Ops

/-! What the recomputed resource figures are: closed forms for `governed`, `reserved` and
    `allocated`, and the tables the recomputes leave alone. -/

namespace BG

open Lib

namespace Governor

/-! ### Governed capacity -/

theorem freshnessOf_mem (s w : ℚ) : 0 ≤ freshnessOf s w ∧ freshnessOf s w ≤ 1 := by
  unfold freshnessOf
  split
  · exact ⟨zero_le_one, le_refl _⟩
  · split
    · exact ⟨zero_le_one, le_refl _⟩
    · split
      · exact ⟨le_refl _, zero_le_one⟩
      · rename_i h₀ h₁
        exact ⟨by linarith, by linarith⟩

theorem governedOf_nonneg (spec : ResourceSpec) (measured : ℚ) (healthy enabled : Bool)
    (freshness : ℚ) : 0 ≤ governedOf spec measured healthy enabled freshness := by
  unfold governedOf
  split
  · exact le_refl _
  · dsimp only
    generalize (if measured > 0 then measured else spec.nominal.value) * freshness = applied
    split
    · exact spec.nominal.nonneg
    · rename_i h
      exact not_lt.mp fun h' => h (Or.inl h')

/-- The governed capacity of a resource at the current clock. -/
def governedNow (g : Governor) (r : ResRT) : ℚ :=
  governedOf r.spec r.measured (decide (r.health = .named .healthy)) r.enabled
    (freshnessOf (r.staleness g.now) g.policy.fairnessWindowMs)

theorem recomputeGoverned_find? (g : Governor) (rid : ResourceId) :
    g.recomputeGoverned.resources.find? rid =
      (g.resources.find? rid).map fun r => { r with governed := g.governedNow r } := by
  simp only [recomputeGoverned, Table.find?_mapVals, governedNow]

/-! ### Reserved capacity -/

/-- What a reservation's allocations put on a resource. -/
def allocationOn (rid : ResourceId) (als : List ResourceAllocation) : ℚ :=
  (als.map fun al => if al.resource = rid then al.allocated.value else 0).sum

theorem allocationOn_nonneg (rid : ResourceId) (als : List ResourceAllocation) :
    0 ≤ allocationOn rid als := by
  refine List.sum_nonneg fun x hx => ?_
  obtain ⟨al, -, rfl⟩ := List.mem_map.mp hx
  split
  · exact al.allocated.nonneg
  · exact le_refl _

/-- The capacity held aside on a resource by reservations of flows that are not scheduled. -/
def reservedOn (g : Governor) (rid : ResourceId) : ℚ :=
  (g.reservations.vals.map fun rsv =>
    if g.heldAside rsv then allocationOn rid rsv.allocations else 0).sum

theorem reservedOn_nonneg (g : Governor) (rid : ResourceId) : 0 ≤ g.reservedOn rid := by
  refine List.sum_nonneg fun x hx => ?_
  obtain ⟨rsv, -, rfl⟩ := List.mem_map.mp hx
  split
  · exact allocationOn_nonneg _ _
  · exact le_refl _

theorem foldl_addReserved_find? (rid : ResourceId) : ∀ (als : List ResourceAllocation)
    (rs : Table ResourceId ResRT), (als.foldl addReserved rs).find? rid =
      (rs.find? rid).map fun r => { r with reserved := r.reserved + allocationOn rid als }
  | [], rs => by simp [allocationOn]
  | al :: als, rs => by
    rw [List.foldl_cons, foldl_addReserved_find? rid als, addReserved, Table.find?_modify]
    by_cases h : rid = al.resource
    · simp [h, allocationOn, Function.comp_def, add_assoc]
    · simp [h, Ne.symm h, allocationOn]

theorem foldl_reserved_find? (g : Governor) (rid : ResourceId) : ∀ (l : List Reservation)
    (rs : Table ResourceId ResRT),
    (l.foldl (fun rs rsv => if g.heldAside rsv then rsv.allocations.foldl addReserved rs else rs)
      rs).find? rid = (rs.find? rid).map fun r => { r with
        reserved := r.reserved + (l.map fun rsv =>
          if g.heldAside rsv then allocationOn rid rsv.allocations else 0).sum }
  | [], rs => by simp
  | rsv :: l, rs => by
    rw [List.foldl_cons, foldl_reserved_find? g rid l]
    by_cases h : g.heldAside rsv = true
    · simp [h, foldl_addReserved_find?, Function.comp_def, add_assoc]
    · simp [h]

theorem recomputeReserved_find? (g : Governor) (rid : ResourceId) :
    g.recomputeReserved.resources.find? rid =
      (g.resources.find? rid).map fun r => { r with reserved := g.reservedOn rid } := by
  simp only [recomputeReserved, foldl_reserved_find?, Table.find?_mapVals, Option.map_map,
    Function.comp_def, zero_add, reservedOn]

/-! ### Allocated capacity -/

/-- How often a resource occurs on a flow's path. -/
def crossings (g : Governor) (rid : ResourceId) (f : FlowRT) : ℕ :=
  ((g.hopsOf f).map PathHop.resource).count rid

/-- Whether a flow's path contains a resource. -/
def crosses (g : Governor) (rid : ResourceId) (f : FlowRT) : Bool :=
  decide (rid ∈ (g.hopsOf f).map PathHop.resource)

theorem hopsOf_of_path {g h : Governor} {f f' : FlowRT}
    (hp : h.paths.find? f.spec.path = g.paths.find? f.spec.path)
    (hs : f'.spec.path = f.spec.path) : h.hopsOf f' = g.hopsOf f := by
  unfold hopsOf
  rw [hs, hp]

theorem crosses_of_path {g h : Governor} {f f' : FlowRT}
    (hp : h.paths.find? f.spec.path = g.paths.find? f.spec.path)
    (hs : f'.spec.path = f.spec.path) (rid : ResourceId) : h.crosses rid f' = g.crosses rid f := by
  rw [crosses, crosses, hopsOf_of_path hp hs]

theorem hopsOf_congr {g h : Governor} (hp : h.paths.find? = g.paths.find?) {f f' : FlowRT}
    (hs : f'.spec.path = f.spec.path) : h.hopsOf f' = g.hopsOf f :=
  hopsOf_of_path (congrFun hp _) hs

theorem crosses_congr {g h : Governor} (hp : h.paths.find? = g.paths.find?) {f f' : FlowRT}
    (hs : f'.spec.path = f.spec.path) (rid : ResourceId) : h.crosses rid f' = g.crosses rid f :=
  crosses_of_path (congrFun hp _) hs rid

/-- What the moving flows put on a resource. -/
def allocatedOn (g : Governor) (rid : ResourceId) : ℚ :=
  (g.flows.vals.map fun f =>
    if isMoving f.state && !decide (f.granted ≤ 0) then g.crossings rid f * f.granted else 0).sum

theorem foldl_addAllocated_find? (rid : ResourceId) (granted : ℚ) : ∀ (hops : List PathHop)
    (rs : Table ResourceId ResRT), (hops.foldl (addAllocated granted) rs).find? rid =
      (rs.find? rid).map fun r => { r with
        allocated := r.allocated + ((hops.map PathHop.resource).count rid : ℕ) * granted }
  | [], rs => by simp
  | hop :: hops, rs => by
    rw [List.foldl_cons, foldl_addAllocated_find? rid granted hops, addAllocated,
      Table.find?_modify]
    by_cases h : rid = hop.resource
    · subst h
      cases rs.find? hop.resource with
      | none => simp
      | some r =>
        simp only [if_true, Option.map_some, List.map_cons, List.count_cons_self, Nat.cast_add,
          Nat.cast_one, Option.some.injEq, ResRT.mk.injEq, true_and, and_true]
        ring
    · rw [if_neg h, List.map_cons, List.count_cons_of_ne (Ne.symm h)]

theorem foldl_allocated_find? (g : Governor) (rid : ResourceId) : ∀ (l : List FlowRT)
    (rs : Table ResourceId ResRT),
    (l.foldl (fun rs f => if isMoving f.state && !decide (f.granted ≤ 0) then
        (g.hopsOf f).foldl (addAllocated f.granted) rs else rs) rs).find? rid =
      (rs.find? rid).map fun r => { r with
        allocated := r.allocated + (l.map fun f => if isMoving f.state && !decide (f.granted ≤ 0)
          then g.crossings rid f * f.granted else 0).sum }
  | [], rs => by simp
  | f :: l, rs => by
    rw [List.foldl_cons, foldl_allocated_find? g rid l]
    by_cases h : (isMoving f.state && !decide (f.granted ≤ 0)) = true
    · rw [if_pos h, foldl_addAllocated_find?, Option.map_map, List.map_cons, List.sum_cons,
        if_pos h]
      simp only [Function.comp_def, crossings, add_assoc]
    · rw [if_neg h, List.map_cons, List.sum_cons, if_neg h, zero_add]

theorem recomputeAllocated_find? (g : Governor) (rid : ResourceId) :
    g.recomputeAllocated.resources.find? rid =
      (g.resources.find? rid).map fun r => { r with allocated := g.allocatedOn rid } := by
  simp only [recomputeAllocated, foldl_allocated_find?, Table.find?_mapVals, Option.map_map,
    Function.comp_def, zero_add, allocatedOn]

/-- The sum of the grants of the moving flows that cross a resource. -/
def loadOn (g : Governor) (rid : ResourceId) : ℚ :=
  g.flows.sum fun _ f => if isMoving f.state && g.crosses rid f then f.granted else 0

/-- On simple paths and non-negative grants, `allocated` is the load. -/
theorem allocatedOn_eq_load {g : Governor} {rid : ResourceId}
    (hpath : ∀ f ∈ g.flows.vals, ((g.hopsOf f).map PathHop.resource).Nodup)
    (hgrant : ∀ f ∈ g.flows.vals, 0 ≤ f.granted) : g.allocatedOn rid = g.loadOn rid := by
  have hmap : g.flows.vals.map (fun f => if isMoving f.state && g.crosses rid f then f.granted
      else 0) = g.flows.entries.map fun e =>
        if isMoving e.2.state && g.crosses rid e.2 then e.2.granted else 0 := by
    simp [Table.vals, List.map_map, Function.comp_def]
  rw [allocatedOn, loadOn, Table.sum, ← hmap]
  congr 1
  refine List.map_congr_left fun f hf => ?_
  have hcount : g.crossings rid f = if g.crosses rid f = true then 1 else 0 := by
    rw [crossings, crosses, (hpath f hf).count]
    simp
  rw [hcount]
  by_cases hm : isMoving f.state = true <;> by_cases hc : g.crosses rid f = true <;>
    by_cases hg : f.granted ≤ 0
  · simp [hm, hc, le_antisymm hg (hgrant f hf)]
  all_goals simp [hm, hc, hg]

theorem recomputeUsage_find? (g : Governor) (rid : ResourceId) :
    g.recomputeUsage.resources.find? rid =
      (g.resources.find? rid).map fun r => { r with
        reserved := g.reservedOn rid, allocated := g.allocatedOn rid
        saturated := decide (g.allocatedOn rid + g.reservedOn rid ≥ r.governed * (1 - kEps)) } := by
  have hres : g.recomputeReserved.allocatedOn rid = g.allocatedOn rid := rfl
  simp only [recomputeUsage, recomputeSaturation, Table.find?_mapVals, recomputeAllocated_find?,
    recomputeReserved_find?, Option.map_map, Function.comp_def, hres]

end Governor

end BG
