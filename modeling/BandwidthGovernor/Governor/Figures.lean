import Mathlib
import BandwidthGovernor.Governor.Fences
import BandwidthGovernor.Governor.Queue

/-! The stored figures of a resource against the tables they are taken from.

    `allocated` and `reserved` are copies, refreshed by some operations at their end. The others
    keep them right as long as they move no load: `keepsFigures` says for each of them when it does
    not. -/

namespace BG

open Lib

namespace Governor

/-! ### Load and held capacity, entry by entry -/

/-- What a flow puts on a resource. -/
def loadAt (g : Governor) (rid : ResourceId) (f : FlowRT) : ℚ :=
  if isMoving f.state && g.crosses rid f then f.granted else 0

/-- What a reservation holds aside on a resource. -/
def heldAt (g : Governor) (rid : ResourceId) (rsv : Reservation) : ℚ :=
  if g.heldAside rsv then allocationOn rid rsv.allocations else 0

theorem reservedOn_eq_sum (g : Governor) (rid : ResourceId) :
    g.reservedOn rid = g.reservations.sum fun _ rsv => g.heldAt rid rsv := by
  simp only [reservedOn, Table.sum, Table.vals, List.map_map, Function.comp_def, heldAt]

theorem loadOn_congr {g h : Governor} {rid : ResourceId}
    (hf : ∀ fid, (h.flows.find? fid).elim 0 (h.loadAt rid) =
      (g.flows.find? fid).elim 0 (g.loadAt rid)) : h.loadOn rid = g.loadOn rid :=
  Table.sum_eq_of_find? hf

theorem reservedOn_congr {g h : Governor} {rid : ResourceId}
    (hr : ∀ x, (h.reservations.find? x).elim 0 (h.heldAt rid) =
      (g.reservations.find? x).elim 0 (g.heldAt rid)) : h.reservedOn rid = g.reservedOn rid := by
  rw [reservedOn_eq_sum, reservedOn_eq_sum]
  exact Table.sum_eq_of_find? hr

/-- What the figures read of a flow. -/
def bearing (f : FlowRT) : Coded FlowState × ℚ × PathId := (f.state, f.granted, f.spec.path)

theorem loadAt_congr {g h : Governor} (hh : ∀ f, h.hopsOf f = g.hopsOf f) {f f' : FlowRT}
    (hb : bearing f' = bearing f) (rid : ResourceId) : h.loadAt rid f' = g.loadAt rid f := by
  simp only [bearing, Prod.mk.injEq] at hb
  have hpath : g.hopsOf f' = g.hopsOf f := hopsOf_congr rfl hb.2.2
  have hcross : h.crosses rid f' = g.crosses rid f := by rw [crosses, crosses, hh, hpath]
  rw [loadAt, loadAt, hcross, hb.1, hb.2.1]

/-- The states of the flows decide what is held aside. -/
theorem heldAside_congr {g h : Governor} {rsv : Reservation}
    (hs : (h.flows.find? rsv.flow).map (fun f => isScheduled f.state) =
      (g.flows.find? rsv.flow).map (fun f => isScheduled f.state)) :
    h.heldAside rsv = g.heldAside rsv := by
  unfold heldAside
  cases hg : g.flows.find? rsv.flow with
  | none =>
    rw [hg, Option.map_none, Option.map_eq_none_iff] at hs
    rw [hs]
  | some f =>
    rw [hg, Option.map_some] at hs
    obtain ⟨f', hf', hs'⟩ := Option.map_eq_some_iff.mp hs
    rw [hf']
    simp only [hs']

/-! ### Right figures -/

/-- The stored figures of every resource are what the tables say. -/
def Figures (g : Governor) : Prop := ∀ rid r, g.resources.find? rid = some r →
  r.allocated = g.loadOn rid ∧ r.reserved = g.reservedOn rid

/-- No path visits a resource twice. -/
def SimplePaths (g : Governor) : Prop :=
  ∀ pid p, g.paths.find? pid = some p → p.resources.Nodup

/-- Grants are valid rates. -/
def RatedFlows (g : Governor) : Prop := ∀ fid f, g.flows.find? fid = some f → f.Rated

theorem hopsOf_nodup {g : Governor} (h : g.SimplePaths) (f : FlowRT) :
    ((g.hopsOf f).map PathHop.resource).Nodup := by
  unfold hopsOf
  cases hp : g.paths.find? f.spec.path with
  | none => exact List.nodup_nil
  | some p => exact h _ p hp

theorem allocatedOn_eq_loadOn {g : Governor} (hs : g.SimplePaths) (hr : g.RatedFlows)
    (rid : ResourceId) : g.allocatedOn rid = g.loadOn rid := by
  refine allocatedOn_eq_load (fun f _ => hopsOf_nodup hs f) fun f hf => ?_
  obtain ⟨e, he, rfl⟩ := List.mem_map.mp hf
  exact (hr e.1 e.2 (Table.find?_of_mem he)).1

/-- The closing recomputes make the figures right. -/
theorem figures_recomputeUsage {g : Governor} (hs : g.SimplePaths) (hr : g.RatedFlows) :
    g.recomputeUsage.Figures := fun rid r' hr' => by
  rw [recomputeUsage_find?] at hr'
  obtain ⟨r, -, rfl⟩ := Option.map_eq_some_iff.mp hr'
  exact ⟨allocatedOn_eq_loadOn hs hr rid, rfl⟩

/-- Figures stay right while they are kept and what they sum stays the same on registered
    resources. -/
theorem Figures.of_sums {g g' : Governor} (h : g.Figures) (hres : g.KeepsStored g')
    (hload : ∀ rid r, g.resources.find? rid = some r → g'.loadOn rid = g.loadOn rid)
    (hheld : ∀ rid r, g.resources.find? rid = some r → g'.reservedOn rid = g.reservedOn rid) :
    g'.Figures := fun rid r' hr' => by
  obtain ⟨r, hr, hs, ha⟩ := hres rid r' hr'
  obtain ⟨hA, hR⟩ := h rid r hr
  exact ⟨ha.trans (hA.trans (hload rid r hr).symm), hs.trans (hR.trans (hheld rid r hr).symm)⟩

/-- Nothing the figures read has changed. -/
structure SameBearings (g g' : Governor) : Prop where
  hops : ∀ f, g'.hopsOf f = g.hopsOf f
  flows : ∀ fid, (g'.flows.find? fid).map bearing = (g.flows.find? fid).map bearing
  reservations : g'.reservations.find? = g.reservations.find?

theorem SameBearings.loadOn {g g' : Governor} (h : g.SameBearings g') (rid : ResourceId) :
    g'.loadOn rid = g.loadOn rid := loadOn_congr fun fid => by
  have hb := h.flows fid
  cases hf : g.flows.find? fid with
  | none =>
    rw [hf, Option.map_none, Option.map_eq_none_iff] at hb
    rw [hb]
    rfl
  | some f =>
    rw [hf, Option.map_some] at hb
    obtain ⟨f', hf', hb'⟩ := Option.map_eq_some_iff.mp hb
    rw [hf']
    exact loadAt_congr h.hops hb' rid

theorem SameBearings.reservedOn {g g' : Governor} (h : g.SameBearings g') (rid : ResourceId) :
    g'.reservedOn rid = g.reservedOn rid := reservedOn_congr fun x => by
  have hheld : ∀ rsv, g'.heldAt rid rsv = g.heldAt rid rsv := fun rsv => by
    have hs := congrArg (Option.map fun b : Coded FlowState × ℚ × PathId => isScheduled b.1)
      (h.flows rsv.flow)
    rw [Option.map_map, Option.map_map] at hs
    rw [heldAt, heldAt, heldAside_congr hs]
  rw [h.reservations]
  cases g.reservations.find? x with
  | none => rfl
  | some rsv => exact hheld rsv

theorem Figures.frame {g g' : Governor} (h : g.Figures) (hres : g.KeepsStored g')
    (hb : g.SameBearings g') : g'.Figures :=
  h.of_sums hres (fun rid _ _ => hb.loadOn rid) fun rid _ _ => hb.reservedOn rid

theorem SameBearings.of_tables {g g' : Governor} (hp : g'.paths.find? = g.paths.find?)
    (hf : g'.flows.find? = g.flows.find?) (hr : g'.reservations.find? = g.reservations.find?) :
    g.SameBearings g' :=
  ⟨fun _ => hopsOf_congr hp rfl, fun fid => by rw [hf], hr⟩

/-! ### When an operation moves no load -/

/-- Whether a resource is registered, or nothing is charged to it. -/
def isIdle (g : Governor) (rid : ResourceId) : Bool :=
  g.resources.contains rid || (decide (g.loadOn rid = 0) && decide (g.reservedOn rid = 0))

/-- Whether a flow puts load on a registered resource. -/
def loads (g : Governor) (f : FlowRT) : Bool :=
  g.resources.keys.any fun rid => !decide (g.loadAt rid f = 0)

/-- Whether a live reservation for a flow has an allocation on a registered resource. -/
def isClaimed (g : Governor) (fid : FlowId) : Bool :=
  g.reservations.vals.any fun rsv => isLive rsv.state && decide (rsv.flow = fid) &&
    g.resources.keys.any fun rid => !decide (allocationOn rid rsv.allocations = 0)

/-- Whether the reservation on file under an id, if any, is held aside. -/
def isHeld (g : Governor) (rid : ReservationId) : Bool :=
  match g.reservations.find? rid with
  | none => false
  | some rsv => g.heldAside rsv

/-- Whether the next `n` identities are those of reservations held aside. -/
def collides (g : Governor) (n : ℕ) : Bool :=
  (List.range n).any fun i => g.isHeld (g.gen.mintedAt (g.gen.calls + i))

/-- Whether a restart can roll a flow without a change of figures: it puts no load on a registered
    resource, and no reservation that is held aside is released for it. -/
def rollsFreely (g : Governor) (f : FlowRT) : Bool :=
  !g.loads f && !(f.reservation.any g.isHeld)

/-- The events that leave the figures right, or make them so. -/
def keepsFigures (g : Governor) : Event → Bool
  | .call (.addResource spec) => g.isIdle spec.id
  | .call (.registerWorker reg) => (reg.inventory.all fun spec => g.isIdle spec.id) &&
    (!g.isRestart reg || !(g.flows.vals.any (rolls reg.worker)) ||
      (g.flows.vals.all fun f => !rolls reg.worker f || g.rollsFreely f) &&
        !g.collides (reg.inventory.length + 2 * g.flows.vals.length))
  | .call (.addPath path) => (validatePath path).isSome || g.flows.vals.all fun f =>
    !decide (f.spec.path = path.id) || !isMoving f.state || decide (f.granted = 0) ||
      g.resources.keys.all fun rid => decide (g.crosses rid f = decide (rid ∈ path.resources))
  | .call (.resumeFlow fid) =>
    match g.flows.find? fid with
    | none => true
    | some f => !(decide (f.state = .named .preempted) && g.isClaimed fid) &&
      !(decide (f.state = .named .throttled) && g.loads f) &&
      (!(decide (f.state = .named .preempted) || decide (f.state = .named .throttled)) ||
        f.reservation.isSome || !g.collides 1)
  | .call (.submitFlow spec) =>
    match g.paths.find? spec.path with
    | none => true
    | some path => (validateFlowSpec spec).isSome || g.flows.contains spec.id ||
      (g.scanFor spec path).feasible || !g.isClaimed spec.id
  | .call (.restore snap) => snap.paths.all fun path => decide path.resources.Nodup
  | _ => true

theorem isIdle_iff {g : Governor} {rid : ResourceId} : g.isIdle rid = true ↔
    (∃ r, g.resources.find? rid = some r) ∨ g.loadOn rid = 0 ∧ g.reservedOn rid = 0 := by
  simp [isIdle, Table.contains, Option.isSome_iff_exists]

theorem loads_eq_false {g : Governor} {f : FlowRT} (h : g.loads f = false) {rid : ResourceId}
    {r : ResRT} (hr : g.resources.find? rid = some r) : g.loadAt rid f = 0 := by
  have hmem : rid ∈ g.resources.keys := List.mem_map.mpr ⟨(rid, r), Table.mem_of_find? hr, rfl⟩
  simpa using List.any_eq_false.mp h rid hmem

theorem isClaimed_eq_false {g : Governor} {fid : FlowId} (h : g.isClaimed fid = false)
    {x : ReservationId} {rsv : Reservation} (hx : g.reservations.find? x = some rsv)
    (hl : isLive rsv.state = true) (hf : rsv.flow = fid) {rid : ResourceId} {r : ResRT}
    (hr : g.resources.find? rid = some r) : allocationOn rid rsv.allocations = 0 := by
  have hmem : rid ∈ g.resources.keys := List.mem_map.mpr ⟨(rid, r), Table.mem_of_find? hr, rfl⟩
  have hrsv : rsv ∈ g.reservations.vals := List.mem_map.mpr ⟨(x, rsv), Table.mem_of_find? hx, rfl⟩
  have hno := List.any_eq_false.mp h rsv hrsv
  simp only [hl, hf, decide_true, Bool.and_self, Bool.true_and, Bool.not_eq_true] at hno
  simpa using List.any_eq_false.mp hno rid hmem

theorem isHeld_eq_false {g : Governor} {x : ReservationId} (h : g.isHeld x = false)
    (rid : ResourceId) : (g.reservations.find? x).elim 0 (g.heldAt rid) = 0 := by
  unfold isHeld at h
  cases hx : g.reservations.find? x with
  | none => rfl
  | some rsv =>
    rw [hx] at h
    exact if_neg (Bool.eq_false_iff.mp h)

theorem collides_eq_false {g : Governor} {n : ℕ} (h : g.collides n = false) {i : ℕ} (hi : i < n) :
    g.isHeld (g.gen.mintedAt (g.gen.calls + i)) = false := by
  simpa using List.any_eq_false.mp h i (List.mem_range.mpr hi)

/-! ### Registering resources -/

theorem installResource_sums (g : Governor) (spec : ResourceSpec) (write : ResRT → ResRT)
    (rid : ResourceId) : (g.installResource spec write).loadOn rid = g.loadOn rid ∧
      (g.installResource spec write).reservedOn rid = g.reservedOn rid := by
  have h := g.installResource_eq spec write
  rw [h]
  by_cases hn : spec.generation.isNull = true
  · simp only [hn, if_true]
    exact ⟨rfl, rfl⟩
  · simp only [hn]
    exact ⟨rfl, rfl⟩

theorem installResource_find? (g : Governor) (spec : ResourceSpec) (write : ResRT → ResRT)
    (rid : ResourceId) : (g.installResource spec write).resources.find? rid =
      if rid = spec.id then some (write { (g.resources.find? spec.id).getD { spec := spec } with
        spec := g.installedSpec spec, measured := 0, lastMs := g.now })
      else g.resources.find? rid := by
  rw [g.installResource_eq spec write, Table.find?_insert]

theorem installResource_figures {g : Governor} (h : g.Figures) {spec : ResourceSpec}
    (hi : g.isIdle spec.id = true) {write : ResRT → ResRT}
    (hw : ∀ r, (write r).allocated = r.allocated ∧ (write r).reserved = r.reserved) :
    (g.installResource spec write).Figures := by
  intro rid r' hr'
  obtain ⟨hl, hh⟩ := g.installResource_sums spec write rid
  have hfind := g.installResource_find? spec write rid
  rw [hl, hh]
  rw [hfind] at hr'
  split at hr'
  · rename_i he
    subst he
    rw [← Option.some.inj hr', (hw _).1, (hw _).2]
    cases hr : g.resources.find? spec.id with
    | some r => exact h spec.id r hr
    | none =>
      rcases isIdle_iff.mp hi with ⟨r, hr₁⟩ | ⟨h₁, h₂⟩
      · rw [hr] at hr₁
        cases hr₁
      · exact ⟨h₁.symm, h₂.symm⟩
  · exact h rid r' hr'

theorem isIdle_installResource {g : Governor} {spec : ResourceSpec} {write : ResRT → ResRT}
    {rid : ResourceId} (h : g.isIdle rid = true) :
    (g.installResource spec write).isIdle rid = true := by
  obtain ⟨hl, hh⟩ := g.installResource_sums spec write rid
  have hfind := g.installResource_find? spec write rid
  rw [isIdle_iff] at h ⊢
  rw [hl, hh, hfind]
  refine h.imp_left fun ⟨r, hr⟩ => ?_
  split
  · exact ⟨_, rfl⟩
  · exact ⟨r, hr⟩

theorem foldl_installResource_figures : ∀ (l : List ResourceSpec) (g : Governor), g.Figures →
    (∀ spec ∈ l, g.isIdle spec.id = true) →
    (l.foldl (fun g rs => g.installResource rs id) g).Figures
  | [], _, h, _ => h
  | spec :: l, g, h, hi => by
    rw [List.forall_mem_cons] at hi
    exact foldl_installResource_figures l _
      (installResource_figures h hi.1 fun r => ⟨rfl, rfl⟩)
      fun s hs => isIdle_installResource (hi.2 s hs)

/-! ### Single writes -/

theorem loadOn_insertFlow {g : Governor} {fid : FlowId} {f' : FlowRT} {rid : ResourceId}
    (hold : (g.flows.find? fid).elim 0 (g.loadAt rid) = 0) (hnew : g.loadAt rid f' = 0) :
    ({ g with flows := g.flows.insert fid f' } : Governor).loadOn rid = g.loadOn rid :=
  loadOn_congr fun x => by
    rw [Table.find?_insert]
    split
    · rename_i he
      rw [he, hold]
      exact hnew
    · rfl

theorem heldAside_insertFlow (g : Governor) (fid : FlowId) (f' : FlowRT) (rsv : Reservation) :
    ({ g with flows := g.flows.insert fid f' } : Governor).heldAside rsv =
      if rsv.flow = fid then isLive rsv.state && !isScheduled f'.state else g.heldAside rsv := by
  by_cases h : rsv.flow = fid
  · simp [heldAside, h]
  · simp [heldAside, h]

/-- A change of one flow leaves what is held aside alone if the flow stays scheduled, or if nothing
    is reserved for it. -/
theorem reservedOn_insertFlow {g : Governor} {fid : FlowId} {f' : FlowRT} {rid : ResourceId}
    (h : (g.flows.find? fid).map (fun f => isScheduled f.state) = some (isScheduled f'.state) ∨
      ∀ x rsv, g.reservations.find? x = some rsv → isLive rsv.state = true → rsv.flow = fid →
        allocationOn rid rsv.allocations = 0) :
    ({ g with flows := g.flows.insert fid f' } : Governor).reservedOn rid = g.reservedOn rid := by
  refine reservedOn_congr fun x => ?_
  change (g.reservations.find? x).elim 0 _ = _
  cases hx : g.reservations.find? x with
  | none => rfl
  | some rsv =>
    change heldAt _ rid rsv = heldAt g rid rsv
    rw [heldAt, heldAt, heldAside_insertFlow]
    split
    · rename_i hfid
      rcases h with h | h
      · obtain ⟨f, hf, hs⟩ := Option.map_eq_some_iff.mp h
        simp [heldAside, hfid, hf, hs]
      · cases hl : isLive rsv.state with
        | false => simp [heldAside, hl]
        | true => simp [h x rsv hx hl hfid]
    · rfl

/-- Filing a reservation that is not held aside, in place of none or of one that is not either. -/
theorem reservedOn_fileReservation {g : Governor} {rsv : Reservation}
    (hold : g.isHeld rsv.id = false) (hnew : g.heldAside rsv = false) (rid : ResourceId) :
    (g.fileReservation rsv).reservedOn rid = g.reservedOn rid := by
  refine reservedOn_congr fun x => ?_
  rw [fileReservation, Table.find?_insert]
  split
  · rename_i he
    rw [he, isHeld_eq_false hold]
    exact if_neg (Bool.eq_false_iff.mp hnew)
  · rfl

theorem heldAside_released (g : Governor) {rsv : Reservation} {s : Coded ReservationState}
    (hs : reservationTransition rsv.state (.named .released) = some s) :
    g.heldAside { rsv with state := s } = false := by
  have hrel : s = .named .released := by
    unfold reservationTransition at hs
    split at hs
    · exact (Option.some.inj hs).symm
    · split at hs
      · split at hs
        · exact (Option.some.inj hs).symm
        · cases hs
      · cases hs
  rw [heldAside, hrel]
  rfl

/-- A release, entry by entry. -/
theorem releaseReservationInternal_find? (g : Governor) (y x : ReservationId) :
    (g.releaseReservationInternal y).reservations.find? x = g.reservations.find? x ∨
      x = y ∧ ∃ rsv, (g.releaseReservationInternal y).reservations.find? x = some rsv ∧
        ∀ h : Governor, h.heldAside rsv = false := by
  unfold releaseReservationInternal
  cases hy : g.reservations.find? y with
  | none => exact Or.inl rfl
  | some rsv =>
    dsimp only
    cases hs : reservationTransition rsv.state (.named .released) with
    | none => exact Or.inl rfl
    | some s =>
      rw [Table.find?_insert]
      split
      · rename_i he
        exact Or.inr ⟨he, _, rfl, fun h => heldAside_released h hs⟩
      · exact Or.inl rfl

/-! ### Quiet writes -/

/-- A write that moves neither load nor held capacity on a registered resource, and holds no further
    reservation aside. -/
structure Quiet (g g' : Governor) : Prop where
  resources : g'.resources.find? = g.resources.find?
  paths : g'.paths.find? = g.paths.find?
  held : ∀ x, g'.isHeld x = true → g.isHeld x = true
  load : ∀ rid r, g.resources.find? rid = some r → g'.loadOn rid = g.loadOn rid
  reserved : ∀ rid r, g.resources.find? rid = some r → g'.reservedOn rid = g.reservedOn rid

namespace Quiet
variable {g g' g'' : Governor}

theorem refl (g : Governor) : Quiet g g :=
  ⟨rfl, rfl, fun _ h => h, fun _ _ _ => rfl, fun _ _ _ => rfl⟩

theorem trans (h : Quiet g g') (h' : Quiet g' g'') : Quiet g g'' where
  resources := h'.resources.trans h.resources
  paths := h'.paths.trans h.paths
  held := fun x hx => h.held x (h'.held x hx)
  load := fun rid r hr => (h'.load rid r (h.resources ▸ hr)).trans (h.load rid r hr)
  reserved := fun rid r hr => (h'.reserved rid r (h.resources ▸ hr)).trans (h.reserved rid r hr)

theorem figures (hq : Quiet g g') (h : g.Figures) : g'.Figures :=
  h.of_sums (.of_eq hq.resources) hq.load hq.reserved

theorem isHeld_eq_false (h : Quiet g g') {x : ReservationId} (hx : g.isHeld x = false) :
    g'.isHeld x = false := by
  cases hx' : g'.isHeld x with
  | false => rfl
  | true =>
    rw [h.held x hx'] at hx
    cases hx

theorem loadAt (h : Quiet g g') (rid : ResourceId) (f : FlowRT) :
    g'.loadAt rid f = g.loadAt rid f :=
  loadAt_congr (fun _ => hopsOf_congr h.paths rfl) rfl rid

theorem drawn (g : Governor) : Quiet g g.drawn :=
  ⟨rfl, rfl, fun _ h => h, fun _ _ _ => rfl, fun _ _ _ => rfl⟩

theorem release {y : ReservationId} (hy : g.isHeld y = false) :
    Quiet g (g.releaseReservationInternal y) := by
  have hfind := g.releaseReservationInternal_find? y
  obtain ⟨rs, hrs⟩ := g.releaseReservationInternal_eq y
  rw [hrs] at hfind ⊢
  refine ⟨rfl, rfl, fun x hx => ?_, fun _ _ _ => rfl, fun rid _ _ => reservedOn_congr fun x => ?_⟩
  · rcases hfind x with h | ⟨-, rsv, h, hno⟩
    · unfold isHeld at hx ⊢
      rwa [h] at hx
    · simp [isHeld, h, hno] at hx
  · rcases hfind x with h | ⟨rfl, rsv, h, hno⟩
    · rw [h]
      rfl
    · rw [h, Governor.isHeld_eq_false hy]
      exact if_neg (Bool.eq_false_iff.mp (hno _))

theorem releaseOf {f : FlowRT} (hf : f.reservation.any g.isHeld = false) :
    Quiet g (g.releaseOf f) := by
  unfold Governor.releaseOf
  cases hr : f.reservation with
  | none => exact .refl g
  | some y =>
    rw [hr] at hf
    exact .release hf

theorem file {r : Reservation} (hold : g.isHeld r.id = false) (hnew : g.heldAside r = false) :
    Quiet g (g.fileReservation r) := by
  refine ⟨rfl, rfl, fun x hx => ?_, fun _ _ _ => rfl,
    fun rid _ _ => reservedOn_fileReservation hold hnew rid⟩
  rw [isHeld, fileReservation, Table.find?_insert] at hx
  split at hx
  · rename_i heq
    split at heq
    · cases heq
    · cases hx
  · rename_i y heq
    split at heq
    · cases heq
      exact absurd hx (Bool.eq_false_iff.mp hnew)
    · rw [isHeld, heq]
      exact hx

/-- A flow becomes Reserved: it put no load on a registered resource, and was scheduled before or
    had nothing reserved. -/
theorem reserve {fid : FlowId} {f f' : FlowRT} (hf : g.flows.find? fid = some f)
    (hload : ∀ rid r, g.resources.find? rid = some r → g.loadAt rid f = 0)
    (hs : f'.state = .named .reserved)
    (h : isScheduled f.state = true ∨ g.isClaimed fid = false) :
    Quiet g { g with flows := g.flows.insert fid f' } := by
  have hsched : isScheduled f'.state = true := by rw [hs]; rfl
  refine ⟨rfl, rfl, fun x hx => ?_, fun rid r hr => ?_, fun rid r hr => ?_⟩
  · change (match g.reservations.find? x with
      | none => false
      | some rsv => heldAside _ rsv) = true at hx
    unfold isHeld
    cases hrsv : g.reservations.find? x with
    | none =>
      rw [hrsv] at hx
      cases hx
    | some rsv =>
      simp only [hrsv, heldAside_insertFlow, hsched] at hx
      split at hx
      · simp at hx
      · exact hx
  · refine loadOn_insertFlow ?_ ?_
    · rw [hf]
      exact hload rid r hr
    · simp [Governor.loadAt, hs, isMoving]
  · refine reservedOn_insertFlow (h.imp (fun h => ?_) fun h x rsv hx hl hfid => ?_)
    · rw [hf, hsched, Option.map_some, h]
    · exact isClaimed_eq_false h hx hl hfid hr

end Quiet

/-! ### The restart roll -/

theorem isHeld_of_minted {g : Governor} {n : ℕ} (h : g.collides n = false) {g' : Governor}
    (hheld : ∀ x, g'.isHeld x = true → g.isHeld x = true) {k : ℕ}
    (hgen : g'.gen = { g.gen with calls := g.gen.calls + k }) (hk : k < n) :
    g'.isHeld g'.gen.next.1 = false := by
  have hid : (g'.gen.next.1 : ReservationId) = g.gen.mintedAt (g.gen.calls + k) := by
    rw [hgen]
    rfl
  have hno := collides_eq_false h hk
  rw [hid]
  cases hx : g'.isHeld (g.gen.mintedAt (g.gen.calls + k)) with
  | false => rfl
  | true =>
    rw [hheld _ hx] at hno
    cases hno

/-- A roll is quiet when the flow is free to roll and no identity collides. -/
theorem rollFlow_quiet {g : Governor} {worker : WorkerId} (boot : WorkerBootId) {fid : FlowId}
    {f : FlowRT} (hf : g.flows.find? fid = some f) (hkey : f.spec.id = fid)
    (hroll : rolls worker f = true) (hrated : f.Rated)
    (hload : ∀ rid r, g.resources.find? rid = some r → g.loadAt rid f = 0)
    (hrel : f.reservation.any g.isHeld = false) (hmint : g.collides 2 = false) :
    ∃ g' k, g.rollFlow worker boot fid f = .ok g' ∧ Quiet g g' ∧ k ≤ 2 ∧
      g'.gen = { g.gen with calls := g.gen.calls + k } ∧
      ∀ x, x ≠ fid → g'.flows.find? x = g.flows.find? x := by
  obtain ⟨hrun, -⟩ := rolls_iff.mp hroll
  have hq : Quiet g (g.releaseOf f).drawn := (Quiet.releaseOf hrel).trans (.drawn _)
  obtain ⟨rs, hrs⟩ := g.releaseOf_eq f
  have hsched : isScheduled f.state = true := by rw [hrun]; rfl
  have hload' : ∀ {h : Governor}, Quiet g h → ∀ rid r, h.resources.find? rid = some r →
      h.loadAt rid f = 0 := fun hq rid r hr => by
    rw [hq.loadAt]
    exact hload rid r (hq.resources ▸ hr)
  cases hp : g.paths.find? f.spec.path with
  | none =>
    refine ⟨_, 1, rollFlow_stray worker boot fid hrun hp, ?_, by decide, ?_, fun x hx => ?_⟩
    · refine hq.trans (.reserve (f := f) ?_ (hload' hq) rfl (Or.inl hsched))
      rw [hrs]
      exact hf
    all_goals rw [hrs]
    · rfl
    · exact Table.find?_insert_ne hx
  | some path =>
    obtain ⟨c, hc⟩ : ∃ c : Capacity, c.value = rollGrant f :=
      ⟨⟨rollGrant f, isValidRate_iff.mpr (rollGrant_rated hrated)⟩, rfl⟩
    have hgen : (g.releaseOf f).drawn.gen = { g.gen with calls := g.gen.calls + 1 } := by
      rw [hrs]
      rfl
    have hfile : Quiet g ((g.releaseOf f).drawn.fileReservation
        ((g.releaseOf f).drawn.view.minted
          (rolledFlow f (g.releaseOf f).gen.next.1 worker boot).spec
          boot path.hops c)) := by
      refine hq.trans (.file (isHeld_of_minted hmint hq.held hgen (by decide)) ?_)
      have hfl : (g.releaseOf f).drawn.flows.find? f.spec.id = some f := by
        rw [hrs, hkey]
        exact hf
      simp [heldAside, View.minted, rolledFlow, hfl, hsched]
    refine ⟨_, 2, rollFlow_reminted worker boot fid hrun hp hc, ?_, le_refl _, ?_, fun x hx => ?_⟩
    · refine hfile.trans (.reserve (f := f) ?_ (hload' hfile) rfl (Or.inl hsched))
      rw [hrs]
      exact hf
    all_goals rw [hrs]
    · rfl
    · exact Table.find?_insert_ne hx

theorem collides_mono {g g' : Governor} {n m k : ℕ} (h : g.collides n = false)
    (hheld : ∀ x, g'.isHeld x = true → g.isHeld x = true)
    (hgen : g'.gen = { g.gen with calls := g.gen.calls + k }) (hk : k + m ≤ n) :
    g'.collides m = false := by
  refine List.any_eq_false.mpr fun i hi hx => ?_
  rw [List.mem_range] at hi
  have hid : (g'.gen.mintedAt (g'.gen.calls + i) : ReservationId) =
      g.gen.mintedAt (g.gen.calls + (k + i)) := by
    rw [hgen, ← add_assoc]
    rfl
  have hno := collides_eq_false h (show k + i < n by omega)
  rw [hid] at hx
  rw [hheld _ hx] at hno
  cases hno

/-- The roll loop is quiet when every turn is. -/
theorem foldlM_rollFlow_quiet (worker : WorkerId) (boot : WorkerBootId) :
    ∀ (l : List (FlowId × FlowRT)) (g : Governor), (l.map Prod.fst).Nodup →
    (∀ e ∈ l, g.flows.find? e.1 = some e.2 ∧ e.2.spec.id = e.1 ∧ e.2.Rated ∧
      (rolls worker e.2 = true → (∀ rid r, g.resources.find? rid = some r → g.loadAt rid e.2 = 0) ∧
        e.2.reservation.any g.isHeld = false)) → g.collides (2 * l.length) = false →
    ∃ g', l.foldlM (fun g e => if rolls worker e.2 then g.rollFlow worker boot e.1 e.2 else .ok g)
      g = .ok g' ∧ Quiet g g'
  | [], g, _, _, _ => ⟨g, rfl, .refl g⟩
  | e :: l, g, hnd, hl, hc => by
    rw [List.map_cons, List.nodup_cons] at hnd
    rw [List.forall_mem_cons] at hl
    obtain ⟨⟨hf, hkey, hrated, hfree⟩, hl⟩ := hl
    rw [List.length_cons] at hc
    rw [List.foldlM_cons]
    by_cases hroll : rolls worker e.2 = true
    · obtain ⟨hload, hrel⟩ := hfree hroll
      obtain ⟨g₁, k, h₁, hq₁, hk, hgen, hrest⟩ :=
        rollFlow_quiet boot hf hkey hroll hrated hload hrel
        (collides_mono hc (fun _ h => h) (k := 0) rfl (by omega))
      have hl₁ : ∀ e' ∈ l, g₁.flows.find? e'.1 = some e'.2 ∧ e'.2.spec.id = e'.1 ∧ e'.2.Rated ∧
          (rolls worker e'.2 = true →
            (∀ rid r, g₁.resources.find? rid = some r → g₁.loadAt rid e'.2 = 0) ∧
              e'.2.reservation.any g₁.isHeld = false) := fun e' he' => by
        obtain ⟨hf', hkey', hrated', hfree'⟩ := hl e' he'
        have hne : e'.1 ≠ e.1 := fun h => hnd.1 (h ▸ List.mem_map_of_mem he')
        refine ⟨(hrest _ hne).trans hf', hkey', hrated', fun hr => ⟨fun rid r hr' => ?_, ?_⟩⟩
        · rw [hq₁.loadAt]
          exact (hfree' hr).1 rid r (hq₁.resources ▸ hr')
        · have hany := (hfree' hr).2
          cases hres : e'.2.reservation with
          | none => rfl
          | some x =>
            rw [hres] at hany
            exact hq₁.isHeld_eq_false hany
      obtain ⟨g₂, h₂, hq₂⟩ := foldlM_rollFlow_quiet worker boot l g₁ hnd.2 hl₁
        (collides_mono hc hq₁.held hgen (by omega))
      rw [if_pos hroll, h₁]
      exact ⟨g₂, h₂, hq₁.trans hq₂⟩
    · rw [if_neg hroll]
      exact foldlM_rollFlow_quiet worker boot l g hnd.2 hl
        (collides_mono hc (fun _ h => h) (k := 0) rfl (by omega))

/-- The roll loop does nothing when there is nothing to roll. -/
theorem foldlM_rollFlow_none (worker : WorkerId) (boot : WorkerBootId) :
    ∀ (l : List (FlowId × FlowRT)) (g : Governor), (∀ e ∈ l, rolls worker e.2 = false) →
    l.foldlM (fun g e => if rolls worker e.2 then g.rollFlow worker boot e.1 e.2 else .ok g) g =
      (.ok g : Except Fault Governor)
  | [], _, _ => rfl
  | e :: l, g, h => by
    rw [List.forall_mem_cons] at h
    rw [List.foldlM_cons, if_neg (Bool.eq_false_iff.mp h.1)]
    exact foldlM_rollFlow_none worker boot l g h.2

/-! ### Registrations -/

theorem loadAt_of_idle {g : Governor} (hr : g.RatedFlows) {rid : ResourceId}
    (h : g.loadOn rid = 0) {fid : FlowId} {f : FlowRT} (hf : g.flows.find? fid = some f) :
    g.loadAt rid f = 0 := by
  refine List.all_zero_of_le_zero_le_of_sum_eq_zero (fun x hx => ?_) h
    (List.mem_map.mpr ⟨(fid, f), Table.mem_of_find? hf, rfl⟩)
  obtain ⟨e, he, rfl⟩ := List.mem_map.mp hx
  dsimp only
  split
  · exact (hr e.1 e.2 (Table.find?_of_mem he)).1
  · exact le_refl _

theorem foldl_installResource_covers {rid : ResourceId} : ∀ (l : List ResourceSpec) (g : Governor)
    {r : ResRT}, (l.foldl (fun g rs => g.installResource rs id) g).resources.find? rid = some r →
    (∃ r₀, g.resources.find? rid = some r₀) ∨ ∃ spec ∈ l, spec.id = rid
  | [], _, r, h => Or.inl ⟨r, h⟩
  | spec :: l, g, _, h => by
    rcases foldl_installResource_covers l _ h with ⟨r₀, hr₀⟩ | ⟨spec', hs, hid⟩
    · have hfind := g.installResource_find? spec id rid
      rw [hfind] at hr₀
      split at hr₀
      · rename_i he
        exact Or.inr ⟨spec, List.mem_cons_self .., he.symm⟩
      · exact Or.inl ⟨r₀, hr₀⟩
    · exact Or.inr ⟨spec', List.mem_cons_of_mem _ hs, hid⟩

theorem figures_enrol {g : Governor} (h : g.Figures) {reg : WorkerRegistration}
    (hi : ∀ spec ∈ reg.inventory, g.isIdle spec.id = true) : (g.enrol reg).Figures :=
  foldl_installResource_figures reg.inventory g h hi

/-- What loads no registered resource loads none of the inventory either. -/
theorem enrol_loadAt {g : Governor} (hr : g.RatedFlows) {reg : WorkerRegistration}
    (hi : ∀ spec ∈ reg.inventory, g.isIdle spec.id = true) {fid : FlowId} {f : FlowRT}
    (hf : g.flows.find? fid = some f) (hl : g.loads f = false) {rid : ResourceId} {r : ResRT}
    (hreg : (g.enrol reg).resources.find? rid = some r) : (g.enrol reg).loadAt rid f = 0 := by
  have hsame : (g.enrol reg).loadAt rid f = g.loadAt rid f := by
    obtain ⟨rs, n, -, h⟩ := foldl_installResource_rest reg.inventory g
    rw [enrol, h]
    rfl
  have hcov : (∃ r₀, g.resources.find? rid = some r₀) ∨ ∃ spec ∈ reg.inventory, spec.id = rid :=
    foldl_installResource_covers reg.inventory g hreg
  rw [hsame]
  rcases hcov with ⟨r₀, hr₀⟩ | ⟨spec, hs, rfl⟩
  · exact loads_eq_false hl hr₀
  · rcases isIdle_iff.mp (hi spec hs) with ⟨r₀, hr₀⟩ | ⟨h₀, -⟩
    · exact loads_eq_false hl hr₀
    · exact loadAt_of_idle hr h₀ hf

theorem registerWorker_figures {g : Governor} (h : g.Figures) (hk : g.FlowsKeyed)
    (hr : g.RatedFlows) {reg : WorkerRegistration}
    (hok : g.keepsFigures (.call (.registerWorker reg)) = true) :
    (stateAfter id (g.registerWorker reg)).Figures := by
  simp only [keepsFigures, Bool.and_eq_true, List.all_eq_true, Bool.or_eq_true,
    Bool.not_eq_true', List.any_eq_false] at hok
  obtain ⟨hi, hroll⟩ := hok
  have hfig := figures_enrol h hi
  have hfl := g.enrol_flows reg
  have hgov : ∀ g' : Governor, g'.Figures → g'.recomputeGoverned.Figures := fun g' h' =>
    h'.frame (.recomputeGoverned g') (.of_tables rfl rfl rfl)
  have hloop : ∃ g', (g.enrol reg).flows.entries.foldlM (fun g e =>
      if rolls reg.worker e.2 then g.rollFlow reg.worker reg.boot e.1 e.2 else .ok g)
        (g.enrol reg) = .ok g' ∧ g'.Figures ∨ g.isRestart reg = false := by
    rcases hroll with (hre | hnone) | ⟨hfree, hmint⟩
    · exact ⟨g, Or.inr hre⟩
    · refine ⟨g.enrol reg, Or.inl ⟨foldlM_rollFlow_none _ _ _ _ fun e he => ?_, hfig⟩⟩
      rw [hfl] at he
      simpa using hnone e.2 (List.mem_map.mpr ⟨e, he, rfl⟩)
    · obtain ⟨rs, n, hn, henrol⟩ := foldl_installResource_rest reg.inventory g
      have hheld : (g.enrol reg).isHeld = g.isHeld := by
        rw [enrol, henrol]
        rfl
      have hgen : (g.enrol reg).gen = { g.gen with calls := g.gen.calls + n } := by
        rw [enrol, henrol]
      have hturn : ∀ e ∈ (g.enrol reg).flows.entries, (g.enrol reg).flows.find? e.1 = some e.2 ∧
          e.2.spec.id = e.1 ∧ e.2.Rated ∧ (rolls reg.worker e.2 = true →
            (∀ rid r, (g.enrol reg).resources.find? rid = some r →
              (g.enrol reg).loadAt rid e.2 = 0) ∧
            e.2.reservation.any (g.enrol reg).isHeld = false) := fun e he => by
        have hmem : (e.1, e.2) ∈ g.flows.entries := hfl ▸ he
        have hf := Table.find?_of_mem hmem
        refine ⟨hfl ▸ hf, hk e.1 e.2 hf, hr e.1 e.2 hf, fun hrolls => ?_⟩
        have hfr := (hfree e.2 (List.mem_map.mpr ⟨e, hmem, rfl⟩)).resolve_left
          (by rw [hrolls]; decide)
        simp only [rollsFreely, Bool.and_eq_true, Bool.not_eq_true'] at hfr
        rw [hheld]
        exact ⟨fun rid r hreg => enrol_loadAt hr hi hf hfr.1 hreg, hfr.2⟩
      have hbudget : (g.enrol reg).collides (2 * (g.enrol reg).flows.entries.length) = false := by
        refine collides_mono hmint (fun x hx => hheld ▸ hx) hgen ?_
        rw [hfl, Table.vals, List.length_map]
        omega
      obtain ⟨g', h', hq⟩ := foldlM_rollFlow_quiet reg.worker reg.boot _ _
        (g.enrol reg).flows.nodup hturn hbudget
      exact ⟨g', Or.inl ⟨h', hq.figures hfig⟩⟩
  obtain ⟨g', ⟨h', hfig'⟩ | hre⟩ := hloop
  · unfold registerWorker
    dsimp only
    split
    · rw [h']
      exact hgov g' hfig'
    · exact hgov _ hfig
  · unfold registerWorker
    dsimp only
    rw [if_neg (Bool.eq_false_iff.mp hre)]
    exact hgov _ hfig

/-! ### Resuming, submitting, replacing a path -/

theorem resumeFlow_figures {g : Governor} (h : g.Figures) (hk : g.FlowsKeyed) (hr : g.RatedFlows)
    {fid : FlowId} (hok : g.keepsFigures (.call (.resumeFlow fid)) = true) :
    (stateAfter Prod.fst (g.resumeFlow fid)).Figures := by
  unfold resumeFlow
  unfold keepsFigures at hok
  cases hf : g.flows.find? fid with
  | none => exact h
  | some f =>
    simp only [hf, Bool.and_eq_true, Bool.not_eq_true', Bool.and_eq_false_imp, decide_eq_true_eq,
      Bool.or_eq_true, Bool.or_eq_false_iff, decide_eq_false_iff_not] at hok
    obtain ⟨⟨hpre, hthr⟩, hmint⟩ := hok
    dsimp only
    split
    · exact h
    · rename_i hs
      have hs' : f.state = .named .preempted ∨ f.state = .named .throttled := by
        by_contra hno
        exact hs (not_or.mp hno)
      have hquiet : ∀ f' : FlowRT, f'.state = .named .reserved →
          Quiet g { g with flows := g.flows.insert fid f' } := fun f' hf' => by
        refine .reserve hf (fun rid r hreg => ?_) hf' ?_
        · rcases hs' with h | h
          · simp [loadAt, h, isMoving]
          · exact loads_eq_false (hthr h) hreg
        · rcases hs' with h | h
          · exact Or.inr (hpre h)
          · exact Or.inl (by rw [h]; rfl)
      rcases g.rereserve_spec (hr fid f hf) with h₁ | ⟨path, c, hnone, -, h₁⟩
      · simp only [h₁, bind, Except.bind, setFlowState_resumed hs']
        exact (hquiet _ rfl).figures h
      · have hfree : g.collides 1 = false := by
          rcases hmint with (hno | hsome) | hfree
          · exact absurd hs' (not_or.mpr hno)
          · rw [hnone] at hsome
            cases hsome
          · exact hfree
        simp only [h₁, bind, Except.bind]
        rw [setFlowState_resumed (f := { f with reservation := some g.gen.next.1 }) hs']
        have hq := hquiet { f with reservation := some g.gen.next.1, state := .named .reserved } rfl
        -- the flow is written after its reservation is filed, but the other order is the same
        have hflow : (g.view.minted f.spec .null path.hops c).flow = fid := hk fid f hf
        have hfile := hq.trans (.file (r := g.view.minted f.spec .null path.hops c)
          (hq.isHeld_eq_false (collides_eq_false hfree Nat.zero_lt_one)) (by
            rw [heldAside_insertFlow, if_pos hflow]
            rfl))
        exact hfile.figures h

theorem submitFlow_figures {g : Governor} (hp : g.SimplePaths) (hr : g.RatedFlows) {spec : FlowSpec}
    (h : g.Figures) (hr' : (g.apply (.submitFlow spec)).RatedFlows)
    (hok : g.keepsFigures (.call (.submitFlow spec)) = true) :
    (g.apply (.submitFlow spec)).Figures := by
  obtain ⟨g', res, heq, hs⟩ := g.submitFlow_spec spec
  have happ : g.apply (.submitFlow spec) = g' := by
    rw [apply, heq]
    rfl
  rw [happ] at hr' ⊢
  generalize res.admitted = b at hs
  cases hs with
  | refused => exact h
  | admitted path c hv hnew hpath _ hc => exact figures_recomputeUsage hp hr'
  | parked path hv hnew hpath hscan =>
    have hclaim : g.isClaimed spec.id = false := by
      have hnone : g.flows.contains spec.id = false := by simp [Table.contains, hnew]
      unfold keepsFigures at hok
      simpa [hpath, hv, hnone, hscan] using hok
    have hfig : g.scanned.Figures := fun rid r' hr' => by
      rw [scanned, recomputeAllocated_find?, recomputeReserved_find?, Option.map_map,
        Option.map_eq_some_iff] at hr'
      obtain ⟨r, -, rfl⟩ := hr'
      exact ⟨allocatedOn_eq_loadOn (g := g.scanned) hp hr rid, rfl⟩
    refine Figures.of_sums (g := g.scanned) hfig (.of_eq rfl) (fun rid r hreg => ?_)
      fun rid r hreg => ?_
    · refine loadOn_insertFlow (g := g.scanned) ?_ ?_
      · rw [show g.scanned.flows.find? spec.id = none from hnew]
        rfl
      · simp [loadAt, parkedFlow, isMoving]
    · refine reservedOn_insertFlow (g := g.scanned) (Or.inr fun x rsv hx hl hfid => ?_)
      obtain ⟨r₀, hr₀⟩ : ∃ r₀, g.resources.find? rid = some r₀ := by
        rw [scanned, recomputeAllocated_find?, recomputeReserved_find?, recomputeGoverned_find?,
          Option.map_map, Option.map_map, Option.map_eq_some_iff] at hreg
        obtain ⟨r₀, hr₀, -⟩ := hreg
        exact ⟨r₀, hr₀⟩
      exact isClaimed_eq_false hclaim hx hl hfid hr₀

theorem addPath_figures {g : Governor} (h : g.Figures) {path : Path}
    (hok : g.keepsFigures (.call (.addPath path)) = true) :
    (stateAfter id (g.addPath path)).Figures := by
  unfold addPath
  cases hv : validatePath path with
  | some err => exact h
  | none =>
    refine Figures.of_sums h (.of_eq rfl) (fun rid r hreg => loadOn_congr fun fid => ?_)
      fun _ _ _ => rfl
    change (g.flows.find? fid).elim 0 _ = _
    cases hf : g.flows.find? fid with
    | none => rfl
    | some f =>
      have hrid : rid ∈ g.resources.keys :=
        List.mem_map.mpr ⟨(rid, r), Table.mem_of_find? hreg, rfl⟩
      have hmem : f ∈ g.flows.vals := List.mem_map.mpr ⟨(fid, f), Table.mem_of_find? hf, rfl⟩
      simp only [keepsFigures, hv, Option.isSome_none, Bool.false_or, List.all_eq_true,
        Bool.or_eq_true, Bool.not_eq_true', decide_eq_false_iff_not, decide_eq_true_eq] at hok
      change loadAt { g with paths := g.paths.insert path.id path } rid f = loadAt g rid f
      by_cases hpath : f.spec.path = path.id
      · have hcross : ({ g with paths := g.paths.insert path.id path } : Governor).crosses rid f =
            decide (rid ∈ path.resources) := by
          simp [crosses, hopsOf, hpath, Path.resources]
        rcases hok f hmem with ((hne | hmov) | hzero) | hall
        · exact absurd hpath hne
        · simp [loadAt, hmov]
        · simp [loadAt, hzero]
        · rw [loadAt, loadAt, hcross, hall rid hrid]
      · have hhops : ({ g with paths := g.paths.insert path.id path } : Governor).hopsOf f =
            g.hopsOf f := by
          simp [hopsOf, hpath]
        rw [loadAt, loadAt, crosses, crosses, hhops]

/-! ### The other operations -/

theorem invalidatePath_figures {g : Governor} (h : g.Figures) (pid : PathId) :
    (g.invalidatePath pid).Figures := by
  refine h.frame (.of_eq rfl) ⟨fun f => ?_, fun _ => rfl, rfl⟩
  rw [hopsOf, hopsOf, invalidatePath, Table.find?_modify]
  by_cases h : f.spec.path = pid
  · rw [if_pos h]
    cases g.paths.find? f.spec.path <;> rfl
  · rw [if_neg h]

theorem releaseReservation_figures {g : Governor} (h : g.Figures) (x : ReservationId) :
    (g.releaseReservation x).1.Figures := by
  unfold releaseReservation
  cases g.reservations.find? x with
  | none => exact h
  | some rsv =>
    dsimp only
    split
    · exact h
    · obtain ⟨rs, hrs⟩ := g.releaseReservationInternal_eq x
      rw [hrs]
      intro rid r' hr'
      dsimp only at hr'
      rw [recomputeSaturation, Table.find?_mapVals, recomputeReserved_find?, Option.map_map,
        Option.map_eq_some_iff] at hr'
      obtain ⟨r, hr, rfl⟩ := hr'
      exact ⟨(h rid r hr).1, rfl⟩

theorem bearing_deregistered (worker : WorkerId) (f : FlowRT) :
    bearing (if rolls worker f then
      { f with assignedWorker := none, lastError := ascii "worker lost" } else f) = bearing f := by
  split
  · rfl
  · rfl

theorem deregisterWorker_figures {g : Governor} (h : g.Figures) (worker : WorkerId) :
    (g.deregisterWorker worker).Figures := by
  refine h.frame (.of_eq rfl) ⟨fun f => rfl, fun fid => ?_, rfl⟩
  rw [deregisterWorker, Table.find?_mapVals, Option.map_map]
  exact congrArg (Option.map · _) (funext (bearing_deregistered worker))

theorem insertFlow_figures {g : Governor} (h : g.Figures) {fid : FlowId} {f f' : FlowRT}
    (hf : g.flows.find? fid = some f) (hb : bearing f' = bearing f) :
    ({ g with flows := g.flows.insert fid f' } : Governor).Figures := by
  refine h.frame (.of_eq rfl) ⟨fun f => rfl, fun x => ?_, rfl⟩
  rw [Table.find?_insert]
  split
  · rename_i he
    rw [he, hf, Option.map_some, Option.map_some, hb]
  · rfl

theorem reportProgress_figures {g : Governor} (h : g.Figures) (fid : FlowId) (attempt : AttemptId)
    (fgen : FlowGeneration) (boot : WorkerBootId) (bytes : UInt64) :
    (g.reportProgress fid attempt fgen boot bytes).1.Figures := by
  unfold reportProgress
  cases hf : g.flows.find? fid with
  | none => exact h
  | some f =>
    dsimp only
    split
    · exact insertFlow_figures h hf rfl
    · exact h

/-! ### Every operation -/

/-- With the path and grant invariants before and after, an operation that moves no load keeps the
    figures right. -/
theorem Figures.apply {g : Governor} (h : g.Figures) (hk : g.FlowsKeyed) (hr : g.RatedFlows)
    (hp : g.SimplePaths) {op : Op} (hok : g.keepsFigures (.call op) = true)
    (hr' : (g.apply op).RatedFlows) (hp' : (g.apply op).SimplePaths) : (g.apply op).Figures := by
  cases op with
  | setAutoClock auto => exact h
  | advanceMs dt => exact h
  | addResource spec =>
    have hfig : (g.installResource spec fun r => { r with confidence := 0 }).Figures :=
      installResource_figures h hok fun r => ⟨rfl, rfl⟩
    exact hfig.frame (.recomputeGoverned _) (.of_tables rfl rfl rfl)
  | updateCapacity res measured confidence provenance latency depth bump =>
    refine h.frame
      (g.updateCapacity_stored res measured confidence provenance latency depth bump) ?_
    change g.SameBearings (stateAfter id _)
    unfold updateCapacity
    cases g.resources.find? res with
    | none => exact .of_tables rfl rfl rfl
    | some r =>
      dsimp only
      split
      · exact .of_tables rfl rfl rfl
      · cases bump <;> exact .of_tables rfl rfl rfl
  | setResourceEnabled res enabled =>
    refine h.frame (g.setResourceEnabled_stored res enabled) ?_
    change g.SameBearings (g.setResourceEnabled res enabled)
    unfold setResourceEnabled
    cases g.resources.find? res <;> exact .of_tables rfl rfl rfl
  | invalidateResourceCapacity res =>
    refine h.frame (g.invalidateResourceCapacity_stored res) ?_
    change g.SameBearings (g.invalidateResourceCapacity res)
    unfold invalidateResourceCapacity
    cases g.resources.find? res <;> exact .of_tables rfl rfl rfl
  | addPath path => exact addPath_figures h hok
  | invalidatePath path => exact invalidatePath_figures h path
  | submitFlow spec => exact submitFlow_figures hp hr h hr' hok
  | cancelFlow flow reason =>
    change (stateAfter Prod.fst (g.cancelFlow flow reason)).Figures
    simp only [Governor.apply] at hr' hp'
    rcases g.cancelFlow_usage flow reason with heq | ⟨g', -, heq⟩
    · rw [heq]
      exact h
    · rw [heq] at hr' hp' ⊢
      exact figures_recomputeUsage hp' hr'
  | resumeFlow flow => exact resumeFlow_figures h hk hr hok
  | tick =>
    have htick : g.tick = .ok (g.aged.drained.recomputeGoverned.recomputeReserved).arbitrated := by
      rw [tick, prepareTick_eq]
      exact arbitrate_eq _
    simp only [Governor.apply, htick] at hr' hp' ⊢
    exact figures_recomputeUsage hp' hr'
  | releaseReservation rid => exact releaseReservation_figures h rid
  | registerWorker reg => exact registerWorker_figures h hk hr hok
  | deregisterWorker worker => exact deregisterWorker_figures h worker
  | reportProgress flow attempt fgen boot bytes =>
    exact reportProgress_figures h flow attempt fgen boot bytes
  | reportCompletion flow attempt fgen boot bytes =>
    change (stateAfter Prod.fst (g.reportCompletion flow attempt fgen boot bytes)).Figures
    simp only [Governor.apply] at hr' hp'
    rcases g.reportCompletion_usage flow attempt fgen boot bytes with heq | ⟨g', -, heq⟩
    · rw [heq]
      exact h
    · rw [heq] at hr' hp' ⊢
      exact figures_recomputeUsage hp' hr'
  | restore snap => exact figures_recomputeUsage hp' hr'

theorem Rehashed.figures {g g' : Governor} (hre : g.Rehashed g') (h : g.Figures) : g'.Figures := by
  have hres : g'.resources.find? = g.resources.find? :=
    funext fun rid => (hre.resources.find? rid).symm
  exact h.frame (.of_eq hres) (.of_tables (funext fun pid => (hre.paths.find? pid).symm)
    (funext fun fid => (hre.flows.find? fid).symm)
    (funext fun rid => (hre.reservations.find? rid).symm))

end Governor

/-! ### Runs -/

/-- Paths stay simple: `add_path` checks them, and a restoration is taken with simple paths only. -/
theorem simplePaths_of_step {g g' : Governor} {e : Event} (hs : g.Step e g')
    (hok : g.keepsFigures e = true) (h : g.SimplePaths) : g'.SimplePaths := by
  cases hlive : e.live with
  | true =>
    refine step_keeps (P := Governor.SimplePaths) (fun op g g' hw h => ?_) (fun g g' hre h => ?_) hs
      hlive h
    · cases hw with
      | rest _ hpaths =>
        intro pid p hp
        exact h pid p (hpaths ▸ hp)
      | path p _ hv =>
        intro pid p' hp'
        rw [Table.find?_insert] at hp'
        split at hp'
        · exact Option.some.inj hp' ▸ validatePath_nodup hv
        · exact h pid p' hp'
      | paths ps hps =>
        intro pid p' hp'
        obtain ⟨p, gen, hp, rfl⟩ := hps pid p' hp'
        exact h pid p hp
      | release rid =>
        intro pid p hp
        obtain ⟨rs, hrs⟩ := g.releaseReservationInternal_eq rid
        rw [hrs] at hp
        exact h pid p hp
      | _ => exact h
    · intro pid p hp
      exact h pid p ((hre.paths.find? pid).trans hp)
  | false =>
    cases hs with
    | call op =>
      cases op with
      | restore snap =>
        intro pid p hp
        obtain ⟨path, hmem, -, rfl⟩ := Table.ofList_find? hp
        simpa using List.all_eq_true.mp hok path hmem
      | _ => cases hlive
    | clock => cases hlive
    | rehash => cases hlive

/-- The stored figures and what keeps them right. -/
structure Governor.Sound (g : Governor) : Prop where
  figures : g.Figures
  keyed : g.FlowsKeyed
  rated : g.RatedFlows
  simple : g.SimplePaths

theorem Governor.Sound.step {g g' : Governor} {e : Event} (h : g.Sound) (hs : g.Step e g')
    (hok : g.keepsFigures e = true) : g'.Sound := by
  have hkeyed := flowsKeyed_of_step hs h.keyed
  have hrated := flowsRated_of_step hs h.rated
  have hsimple := simplePaths_of_step hs hok h.simple
  refine ⟨?_, hkeyed, hrated, hsimple⟩
  cases hs with
  | call op => exact h.figures.apply h.keyed h.rated h.simple hok hrated hsimple
  | clock t => exact h.figures
  | rehash hre => exact hre.figures h.figures

theorem Governor.Fresh.sound {g : Governor} (h : g.Fresh) : g.Sound := by
  obtain ⟨entropy, config, steady, rfl⟩ := h
  refine ⟨fun rid r hr => ?_, fun fid f hf => ?_, fun fid f hf => ?_, fun pid p hp => ?_⟩
  · cases hr
  · cases hf
  · cases hf
  · cases hp

/-- In every run whose events all move no load behind the stored figures, `allocated` and `reserved`
    of every resource are, in every state, what the flow and reservation tables say. -/
theorem figures_match_tables {g₀ g : Governor} {es : List Event} (hfresh : g₀.Fresh)
    (hrun : Lib.Run (fun g e g' => g.Step e g' ∧ g.keepsFigures e = true) g₀ es g) :
    ∀ rid r, g.resources.find? rid = some r →
      r.allocated = g.loadOn rid ∧ r.reserved = g.reservedOn rid :=
  (hrun.inv (P := Governor.Sound) (fun _ _ _ h hs => h.step hs.1 hs.2) hfresh.sound).figures

namespace Sample

/-- Worker 1 drives flow 1 over link 1, and flow 2 waits behind it. -/
def crowded : List Op := driven ++ [.submitFlow (flow 2 1 90 90 90), .tick]

/-- Worker 1 has restarted while it drove flow 1. -/
def restarted : List Op := driven ++ [.registerWorker (worker 2)]

end Sample

/-- The theorem for link 1 with one flow on it and one in the queue. -/
theorem figures_match_tables_crowded : ∃ r,
    (Sample.start.after Sample.crowded).resources.find? ⟨0, 1⟩ = some r ∧ r.allocated = 80 ∧
      (Sample.start.after Sample.crowded).loadOn ⟨0, 1⟩ = 80 := by
  have hr : ((Sample.start.after Sample.crowded).resources.find? ⟨0, 1⟩).map ResRT.allocated =
      some 80 := by decide +kernel
  obtain ⟨r, hr, ha⟩ := Option.map_eq_some_iff.mp hr
  obtain ⟨hload, -⟩ := figures_match_tables Sample.start_fresh
    (Governor.run_checked (by decide +kernel)) ⟨0, 1⟩ r hr
  exact ⟨r, hr, ha, hload ▸ ha⟩

/-- On a restart flow 1 is rolled back to Reserved, and link 1 stays charged with its load. -/
theorem rolled_flow_stays_charged :
    Reaches (Sample.restarted.map Event.call) (Sample.start.after Sample.restarted) ∧ ∃ r,
      (Sample.start.after Sample.restarted).resources.find? ⟨0, 1⟩ = some r ∧ r.allocated = 80 ∧
        (Sample.start.after Sample.restarted).loadOn ⟨0, 1⟩ = 0 := by
  have hr : ((Sample.start.after Sample.restarted).resources.find? ⟨0, 1⟩).map ResRT.allocated =
      some 80 := by decide +kernel
  obtain ⟨r, hr, ha⟩ := Option.map_eq_some_iff.mp hr
  exact ⟨Sample.reaches rfl, r, hr, ha, by decide +kernel⟩

end BG
