import Mathlib
import BandwidthGovernor.Governor.Observation
import BandwidthGovernor.Governor.Priority

/-! What the operations do to the gauge of a resource.

    The governed rate of a resource is a function of its gauge (spec, measurement, time of the last
    refresh, health, enabled), of the policy and of the clock. Few operations write a gauge; the
    others keep it, and whatever an operation does, the governed rate afterwards is the old one or
    the one of now. -/

namespace BG

open Lib

/-- What the governed rate of a resource is computed from. -/
structure Gauge where
  spec : ResourceSpec
  measured : ℚ
  lastMs : ℚ
  health : Coded ResourceHealth
  enabled : Bool

def ResRT.gauge (r : ResRT) : Gauge := ⟨r.spec, r.measured, r.lastMs, r.health, r.enabled⟩

/-- The gauge with the next capacity generation. -/
def Gauge.bump (c : Gauge) : Gauge :=
  { c with spec := { c.spec with generation := nextGeneration c.spec.generation } }

/-- A measurement that `update_capacity` accepts. -/
def acceptable (measured confidence : ℚ) : Prop :=
  isValidRate measured = true ∧ 0 ≤ confidence ∧ confidence ≤ 1

instance (measured confidence : ℚ) : Decidable (acceptable measured confidence) :=
  inferInstanceAs (Decidable (_ ∧ _))

/-- The check of `update_capacity`. -/
theorem not_acceptable {measured confidence : ℚ} : ¬ isValidRate measured = true ∨
    ¬ (0 ≤ confidence ∧ confidence ≤ 1) ↔ ¬ acceptable measured confidence := not_and_or.symm

/-- What an operation makes of the gauge of a resource it does not install. -/
def Op.edit (now : ℚ) (rid : ResourceId) (c : Gauge) : Op → Gauge
  | .updateCapacity res measured confidence _ _ _ bump =>
    if res = rid ∧ acceptable measured confidence then
      if bump then { c with measured := measured, lastMs := now }.bump
      else { c with measured := measured, lastMs := now }
    else c
  | .setResourceEnabled res enabled => if res = rid then { c with enabled := enabled } else c
  | .invalidateResourceCapacity res => if res = rid then c.bump else c
  | _ => c

/-- Whether an operation brings in a spec for the resource. -/
def Op.Installs (op : Op) (rid : ResourceId) : Prop := ∃ spec ∈ op.resourceSpecs, spec.id = rid

/-- Operations that move a clock. -/
def Op.MovesClock : Op → Prop
  | .setAutoClock _ => True
  | .advanceMs _ => True
  | _ => False

namespace Governor

def gaugeOf (g : Governor) (rid : ResourceId) : Option Gauge :=
  (g.resources.find? rid).map ResRT.gauge

theorem gaugeOf_some {g : Governor} {rid : ResourceId} {r : ResRT}
    (hr : g.resources.find? rid = some r) : g.gaugeOf rid = some r.gauge := by
  rw [gaugeOf, hr, Option.map_some]

theorem find?_of_gauge {g : Governor} {rid : ResourceId} {c : Gauge} (h : g.gaugeOf rid = some c) :
    ∃ r, g.resources.find? rid = some r ∧ r.gauge = c := Option.map_eq_some_iff.mp h

/-- The policy and the clocks. -/
def frame (g : Governor) : PolicyConfig × Bool × ℚ × ℚ :=
  (g.policy, g.autoClock, g.virtualNow, g.steadyNow)

theorem now_congr {g g' : Governor} (h : g'.frame = g.frame) : g'.now = g.now := by
  simp only [frame, Prod.mk.injEq] at h
  rw [now, now, h.2.1, h.2.2.1, h.2.2.2]

theorem governedNow_congr {g g' : Governor} {r r' : ResRT} (h : g'.frame = g.frame)
    (hg : r'.gauge = r.gauge) : g'.governedNow r' = g.governedNow r := by
  have hnow := now_congr h
  simp only [frame, Prod.mk.injEq] at h
  simp only [ResRT.gauge, Gauge.mk.injEq] at hg
  obtain ⟨hs, hm, hl, hh, he⟩ := hg
  simp only [governedNow, ResRT.staleness, hs, hm, hl, hh, he, hnow, h.1]

/-- No gauge, clock or policy changes; governed rates stay or are those of now. -/
structure Keeps (g g' : Governor) : Prop where
  gauge : ∀ rid, g'.gaugeOf rid = g.gaugeOf rid
  frame : g'.frame = g.frame
  governed : ∀ rid r', g'.resources.find? rid = some r' → r'.governed = g'.governedNow r' ∨
    ∃ r, g.resources.find? rid = some r ∧ r'.governed = r.governed

namespace Keeps
variable {g g' g'' : Governor}

/-- The resource of which `r'` is the later record. -/
theorem find? (h : g.Keeps g') {rid : ResourceId} {r' : ResRT}
    (hr' : g'.resources.find? rid = some r') :
    ∃ r, g.resources.find? rid = some r ∧ r'.gauge = r.gauge := by
  obtain ⟨r, hr, heq⟩ := find?_of_gauge ((h.gauge rid).symm.trans (gaugeOf_some hr'))
  exact ⟨r, hr, heq.symm⟩

theorem of_eq (h : g'.resources.find? = g.resources.find?) (hf : g'.frame = g.frame) : g.Keeps g' :=
  ⟨fun rid => by rw [gaugeOf, gaugeOf, h], hf, fun _ r' hr' => Or.inr ⟨r', h ▸ hr', rfl⟩⟩

theorem trans (h : g.Keeps g') (h' : g'.Keeps g'') : g.Keeps g'' := by
  refine
    ⟨fun rid => (h'.gauge rid).trans (h.gauge rid), h'.frame.trans h.frame, fun rid r'' hr'' => ?_⟩
  rcases h'.governed rid r'' hr'' with hnow | ⟨r', hr', heq⟩
  · exact Or.inl hnow
  · obtain ⟨r₁, hr₁, hgauge⟩ := h'.find? hr''
    rw [hr', Option.some.injEq] at hr₁
    subst hr₁
    rcases h.governed rid r' hr' with hnow | ⟨r, hr, heq'⟩
    · exact Or.inl (heq.trans (hnow.trans (governedNow_congr h'.frame hgauge).symm))
    · exact Or.inr ⟨r, hr, heq.trans heq'⟩

/-- Rewriting the figures of every resource. -/
theorem of_map {F : ResourceId → ResRT → ResRT}
    (h : ∀ rid, g'.resources.find? rid = (g.resources.find? rid).map (F rid))
    (hf : g'.frame = g.frame) (hgauge : ∀ rid r, (F rid r).gauge = r.gauge)
    (hgov : ∀ rid r, (F rid r).governed = g.governedNow r ∨ (F rid r).governed = r.governed) :
    g.Keeps g' := by
  refine ⟨fun rid => ?_, hf, fun rid r' hr' => ?_⟩
  · rw [gaugeOf, h, Option.map_map]
    exact congrArg (Option.map · _) (funext (hgauge rid))
  · rw [h] at hr'
    obtain ⟨r, hr, rfl⟩ := Option.map_eq_some_iff.mp hr'
    rcases hgov rid r with hnow | hold
    · exact Or.inl (hnow.trans (governedNow_congr hf (hgauge rid r)).symm)
    · exact Or.inr ⟨r, hr, hold⟩

theorem recomputeGoverned (g : Governor) : g.Keeps g.recomputeGoverned :=
  of_map (fun rid => g.recomputeGoverned_find? rid) rfl (fun _ _ => rfl) fun _ _ => Or.inl rfl

theorem recomputeReserved (g : Governor) : g.Keeps g.recomputeReserved :=
  of_map (fun rid => g.recomputeReserved_find? rid) rfl (fun _ _ => rfl) fun _ _ => Or.inr rfl

theorem recomputeAllocated (g : Governor) : g.Keeps g.recomputeAllocated :=
  of_map (fun rid => g.recomputeAllocated_find? rid) rfl (fun _ _ => rfl) fun _ _ => Or.inr rfl

theorem recomputeSaturation (g : Governor) : g.Keeps g.recomputeSaturation :=
  of_map (fun rid => Table.find?_mapVals _ _ rid) rfl (fun _ _ => rfl) fun _ _ => Or.inr rfl

theorem recomputeUsage (g : Governor) : g.Keeps g.recomputeUsage :=
  ((recomputeReserved g).trans (recomputeAllocated _)).trans (recomputeSaturation _)

theorem scanned (g : Governor) : g.Keeps g.scanned :=
  ((recomputeGoverned g).trans (recomputeReserved _)).trans (recomputeAllocated _)

end Keeps

/-! ### Operations that write no gauge -/

theorem submitFlow_keeps (g : Governor) (spec : FlowSpec) :
    g.Keeps (stateAfter Prod.fst (g.submitFlow spec)) := by
  obtain ⟨g', res, hok, hs⟩ := g.submitFlow_spec spec
  rw [hok, stateAfter]
  generalize res.admitted = b at hs
  cases hs with
  | refused => exact .of_eq rfl rfl
  | parked => exact (Keeps.scanned g).trans (.of_eq rfl rfl)
  | admitted path c =>
    have h : g.Keeps ((g.scanned.countSubmission spec).admitted spec path.hops c) :=
      (Keeps.scanned g).trans (.of_eq rfl rfl)
    exact h.trans (.recomputeUsage _)

theorem cancelFlow_keeps (g : Governor) (fid : FlowId) (reason : Str) :
    g.Keeps (stateAfter Prod.fst (g.cancelFlow fid reason)) := by
  unfold cancelFlow
  cases g.flows.find? fid with
  | none => exact .of_eq rfl rfl
  | some f =>
    dsimp only
    split
    · exact .of_eq rfl rfl
    · cases setFlowState f .cancelled with
      | error e => exact .of_eq rfl rfl
      | ok f' =>
        obtain ⟨rs, h⟩ := Governor.releaseOf_eq { g with
          flows :=
            g.flows.insert fid { f' with lastError := reason } } { f' with lastError := reason }
        refine .trans ?_ (.recomputeUsage _)
        rw [h]
        exact .of_eq rfl rfl

/-- A resumption edits the flow, writes reservations and draws identities, also when it throws. -/
theorem resumeFlow_rest (g : Governor) (fid : FlowId) :
    (∃ gen, stateAfter Prod.fst (g.resumeFlow fid) = { g with gen := gen }) ∨
      ∃ f f' rs gen, g.flows.find? fid = some f ∧ stateAfter Prod.fst (g.resumeFlow fid) =
        { g with flows := g.flows.insert fid f', reservations := rs, gen := gen } ∧
        f'.lastMs = f.lastMs ∧ f'.starvationMs = f.starvationMs ∧
        (f'.state = f.state ∨ f'.state = .named .reserved) := by
  unfold resumeFlow
  cases hf : g.flows.find? fid with
  | none => exact Or.inl ⟨_, rfl⟩
  | some f =>
    have hclose : ∀ (rs : Table ReservationId Reservation) (gen : IdGen) (f₁ : FlowRT),
        f₁.lastMs = f.lastMs → f₁.starvationMs = f.starvationMs → f₁.state = f.state →
        ∃ f' rs' gen', stateAfter Prod.fst (({ g with reservations := rs, gen := gen } :
            Governor).fileReserved fid f₁ fun g => (g, true)) =
            { g with flows := g.flows.insert fid f', reservations := rs', gen := gen' } ∧
          f'.lastMs = f.lastMs ∧ f'.starvationMs = f.starvationMs ∧
          (f'.state = f.state ∨ f'.state = .named .reserved) := by
      intro rs gen f₁ hl hs hst
      obtain ⟨f₂, hstate, rfl | hset⟩ := fileReserved_cases Prod.fst
        (fun g => (g, true)) (fun _ => rfl) { g with reservations := rs, gen := gen } fid f₁
      · exact ⟨_, rs, gen, hstate, hl, hs, Or.inl hst⟩
      · rw [hstate, setFlowState_eq_ok hset]
        exact ⟨_, rs, gen, rfl, hl, hs, Or.inr rfl⟩
    dsimp only
    split
    · exact Or.inl ⟨_, rfl⟩
    · unfold rereserve
      cases hrsv : f.reservation with
      | some rid =>
        obtain ⟨f', rs, gen, h⟩ := hclose g.reservations g.gen f rfl rfl rfl
        exact Or.inr ⟨f, f', rs, gen, rfl, h⟩
      | none =>
        cases g.paths.find? f.spec.path with
        | none =>
          obtain ⟨f', rs, gen, h⟩ := hclose g.reservations g.gen f rfl rfl rfl
          exact Or.inr ⟨f, f', rs, gen, rfl, h⟩
        | some path =>
          rcases g.mintReservation_cases f.spec .null path.hops
            (max f.granted f.spec.requestedMin.value) with ⟨e, he⟩ | ⟨rsv, hok, -⟩
          · dsimp only
            rw [he]
            exact Or.inl ⟨_, rfl⟩
          · dsimp only
            rw [hok]
            obtain ⟨f', rs, gen, h⟩ := hclose (g.reservations.insert rsv.id rsv) g.gen.drawn
              { f with reservation := some rsv.id } rfl rfl rfl
            exact Or.inr ⟨f, f', rs, gen, rfl, h⟩

theorem resumeFlow_keeps (g : Governor) (fid : FlowId) :
    g.Keeps (stateAfter Prod.fst (g.resumeFlow fid)) := by
  rcases g.resumeFlow_rest fid with ⟨gen, h⟩ | ⟨f, f', rs, gen, -, h, -⟩
  · rw [h]
    exact .of_eq rfl rfl
  · rw [h]
    exact .of_eq rfl rfl

theorem drained_keeps (g : Governor) : g.Keeps g.aged.drained := by
  obtain ⟨fs, rs, gen, h⟩ := g.aged.drained_rest
  rw [h]
  exact .of_eq rfl rfl

theorem arbitrated_keeps (g : Governor) : g.Keeps g.arbitrated := by
  have h : g.Keeps { g with flows := g.flows.mapVals (g.settled g.now) } := .of_eq rfl rfl
  exact h.trans (.recomputeUsage _)

theorem tick_keeps (g : Governor) : g.Keeps (g.apply .tick) := by
  rw [Governor.apply, tick_prepared, prepared]
  exact ((g.drained_keeps.trans (.recomputeGoverned _)).trans (.recomputeReserved _)).trans
    (arbitrated_keeps _)

/-- After a tick every governed rate is the one of now. -/
theorem tick_governed {g : Governor} {rid : ResourceId} {r' : ResRT}
    (hr' : (g.apply .tick).resources.find? rid = some r') :
    r'.governed = (g.apply .tick).governedNow r' := by
  have hframe := g.tick_keeps.frame
  obtain ⟨r₀, hr₀, hgauge⟩ := g.tick_keeps.find? hr'
  rw [Governor.apply, tick_prepared] at hr'
  change g.prepared.arbitrated.resources.find? rid = some r' at hr'
  rw [arbitrated, recomputeUsage_find?] at hr'
  change (g.aged.drained.recomputeGoverned.recomputeReserved.resources.find? rid).map _ = _ at hr'
  rw [prepared_find?, hr₀, Option.map_some, Option.map_some, Option.some.injEq] at hr'
  rw [governedNow_congr hframe hgauge, ← hr']

theorem releaseReservation_keeps (g : Governor) (rid : ReservationId) :
    g.Keeps (g.releaseReservation rid).1 := by
  unfold releaseReservation
  cases g.reservations.find? rid with
  | none => exact .of_eq rfl rfl
  | some rsv =>
    dsimp only
    split
    · exact .of_eq rfl rfl
    · obtain ⟨rs, h⟩ := g.releaseReservationInternal_eq rid
      have hk : g.Keeps { g with reservations := rs } := .of_eq rfl rfl
      rw [h]
      exact (hk.trans (.recomputeReserved _)).trans (.recomputeSaturation _)

theorem reportProgress_keeps (g : Governor) (fid : FlowId) (attempt : AttemptId)
    (fgen : FlowGeneration) (boot : WorkerBootId) (bytes : UInt64) :
    g.Keeps (g.reportProgress fid attempt fgen boot bytes).1 := by
  unfold reportProgress
  cases g.flows.find? fid with
  | none => exact .of_eq rfl rfl
  | some f =>
    dsimp only
    split
    · exact .of_eq rfl rfl
    · exact .of_eq rfl rfl

theorem reportCompletion_keeps (g : Governor) (fid : FlowId) (attempt : AttemptId)
    (fgen : FlowGeneration) (boot : WorkerBootId) (bytes : UInt64) :
    g.Keeps (stateAfter Prod.fst (g.reportCompletion fid attempt fgen boot bytes)) := by
  unfold reportCompletion
  cases g.flows.find? fid with
  | none => exact .of_eq rfl rfl
  | some f =>
    dsimp only
    split
    · cases setFlowState { f with bytesDone := max f.bytesDone bytes } .completed with
      | error e => exact .of_eq rfl rfl
      | ok f' =>
        refine .trans ?_ (.recomputeUsage _)
        generalize hh : Governor.countCompletion _ _ = h
        have hk : g.Keeps h := hh ▸ .of_eq rfl rfl
        obtain ⟨rs, hrs⟩ := h.releaseOf_eq { f' with lastMs := g.now }
        rw [hrs]
        exact hk.trans (.of_eq rfl rfl)
    · exact .of_eq rfl rfl

/-! ### Operations that write gauges -/

/-- A resource under an operation that does not install it: its gauge is edited as the operation
    says, its governed rate stays or is the one of now. -/
structure Edits (op : Op) (rid : ResourceId) (g g' : Governor) : Prop where
  gauge : g'.gaugeOf rid = (g.gaugeOf rid).map fun c => op.edit g.now rid c
  governed : ∀ r', g'.resources.find? rid = some r' → r'.governed = g'.governedNow r' ∨
    ∃ r, g.resources.find? rid = some r ∧ r'.governed = r.governed

theorem Keeps.edits {g g' : Governor} {op : Op} {rid : ResourceId} (h : g.Keeps g')
    (hop : ∀ c, op.edit g.now rid c = c) : Edits op rid g g' := by
  refine ⟨?_, h.governed rid⟩
  rw [h.gauge]
  simp only [hop, Option.map_id']

theorem recomputeGoverned_governed {g : Governor} {rid : ResourceId} {r' : ResRT}
    (hr' : g.recomputeGoverned.resources.find? rid = some r') :
    r'.governed = g.recomputeGoverned.governedNow r' := by
  rw [recomputeGoverned_find?] at hr'
  obtain ⟨r, -, rfl⟩ := Option.map_eq_some_iff.mp hr'
  rfl

theorem recomputed_governed {g : Governor} {rid : ResourceId} {r' : ResRT}
    (hr' : g.recomputeGoverned.recomputeSaturation.resources.find? rid = some r') :
    r'.governed = g.recomputeGoverned.recomputeSaturation.governedNow r' := by
  simp only [recomputeSaturation, Table.find?_mapVals] at hr'
  obtain ⟨r, hr, rfl⟩ := Option.map_eq_some_iff.mp hr'
  exact (recomputeGoverned_governed hr).trans (governedNow_congr rfl rfl)

/-- An accepted measurement leaves the governed rates of now. -/
theorem updateCapacity_governed {g : Governor} {res : ResourceId} {r : ResRT}
    (hr : g.resources.find? res = some r) {measured confidence : ℚ}
    (hok : acceptable measured confidence) (provenance : Str) (latency : ℚ) (depth : UInt64)
    (bump : Bool) {rid : ResourceId} {r' : ResRT} (hr' : (g.apply (.updateCapacity res measured
      confidence provenance latency depth bump)).resources.find? rid = some r') :
    r'.governed = (g.apply (.updateCapacity res measured confidence provenance latency depth
      bump)).governedNow r' := by
  have hgood := fun h => not_acceptable.mp h hok
  have hex : ∃ h : Governor, g.apply (.updateCapacity res measured confidence provenance latency
      depth bump) = h.recomputeGoverned.recomputeSaturation := by
    rw [Governor.apply, updateCapacity, hr]
    dsimp only
    rw [if_neg hgood]
    exact ⟨_, rfl⟩
  obtain ⟨h, heq⟩ := hex
  rw [heq] at hr' ⊢
  exact recomputed_governed hr'

/-- Writing gauges and then refreshing the governed rates. -/
theorem edits_recomputed {g h : Governor} {op : Op} {rid : ResourceId}
    (hg : h.gaugeOf rid = (g.gaugeOf rid).map fun c => op.edit g.now rid c) :
    Edits op rid g h.recomputeGoverned.recomputeSaturation := by
  refine ⟨?_, fun r' hr' => Or.inl (recomputed_governed hr')⟩
  rw [(Keeps.recomputeSaturation _).gauge, (Keeps.recomputeGoverned _).gauge, hg]

theorem gaugeOf_insert (g : Governor) (res rid : ResourceId) (r : ResRT) :
    ({ g with resources := g.resources.insert res r } : Governor).gaugeOf rid =
      if rid = res then some r.gauge else g.gaugeOf rid := by
  simp only [gaugeOf, Table.find?_insert]
  split <;> rfl

theorem gaugeOf_bump (g : Governor) (res rid : ResourceId) :
    (g.bumpResourceGeneration res).gaugeOf rid =
      (g.gaugeOf rid).map fun c => if res = rid then c.bump else c := by
  simp only [gaugeOf, bumpResourceGeneration, Table.find?_modify]
  by_cases h : rid = res
  · rw [if_pos h, Option.map_map, Option.map_map]
    simp [h, Function.comp_def, ResRT.gauge, Gauge.bump]
  · simp only [if_neg h, if_neg (Ne.symm h), Option.map_id']

theorem updateCapacity_edits (g : Governor) (rid res : ResourceId) (measured confidence : ℚ)
    (provenance : Str) (latency : ℚ) (depth : UInt64) (bump : Bool) :
    Edits (.updateCapacity res measured confidence provenance latency depth bump) rid g
      (stateAfter id (g.updateCapacity res measured confidence provenance latency depth bump)) := by
  unfold updateCapacity
  cases hr : g.resources.find? res with
  | none =>
    refine ⟨?_, fun r' hr' => Or.inr ⟨r', hr', rfl⟩⟩
    by_cases h : res = rid
    · subst h
      simp [stateAfter, gaugeOf, hr]
    · simp [stateAfter, Op.edit, h]
  | some r =>
    dsimp only
    split
    · rename_i hbad
      have hno := not_acceptable.mp hbad
      refine Keeps.edits (.of_eq rfl rfl) fun c => ?_
      simp only [Op.edit, hno, and_false, if_false]
    · rename_i hgood
      have hok : acceptable measured confidence := not_not.mp fun h => hgood (not_acceptable.mpr h)
      refine edits_recomputed ?_
      simp only [Op.edit, hok, and_true]
      cases bump with
      | false =>
        simp only [Bool.false_eq_true, if_false]
        rw [gaugeOf_insert]
        by_cases h : rid = res
        · subst h
          simp [gaugeOf, hr, ResRT.gauge]
        · simp [h, Ne.symm h]
      | true =>
        simp only [if_true]
        change (Governor.bumpResourceGeneration _ res).gaugeOf rid = _
        rw [gaugeOf_bump, gaugeOf_insert]
        by_cases h : rid = res
        · subst h
          simp [gaugeOf, hr, ResRT.gauge]
        · simp [h, Ne.symm h]

theorem setResourceEnabled_edits (g : Governor) (rid res : ResourceId) (enabled : Bool) :
    Edits (.setResourceEnabled res enabled) rid g (g.setResourceEnabled res enabled) := by
  unfold setResourceEnabled
  cases hr : g.resources.find? res with
  | none =>
    refine ⟨?_, fun r' hr' => Or.inr ⟨r', hr', rfl⟩⟩
    by_cases h : res = rid
    · subst h
      simp [gaugeOf, hr]
    · simp [Op.edit, h]
  | some r =>
    refine edits_recomputed ?_
    rw [gaugeOf_insert]
    by_cases h : rid = res
    · subst h
      simp [gaugeOf, hr, ResRT.gauge, Op.edit]
    · simp [h, Ne.symm h, Op.edit]

theorem invalidateResourceCapacity_edits (g : Governor) (rid res : ResourceId) :
    Edits (.invalidateResourceCapacity res) rid g (g.invalidateResourceCapacity res) := by
  unfold invalidateResourceCapacity
  cases hr : g.resources.find? res with
  | none =>
    refine ⟨?_, fun r' hr' => Or.inr ⟨r', hr', rfl⟩⟩
    by_cases h : res = rid
    · subst h
      simp [gaugeOf, hr]
    · simp [Op.edit, h]
  | some r =>
    refine edits_recomputed ?_
    exact g.gaugeOf_bump res rid

/-! ### Installing resources -/

/-- The gauge of a resource after its spec has been installed: nothing measured, refreshed now. -/
def installGauge (g : Governor) (spec : ResourceSpec) : Gauge :=
  { ((g.resources.find? spec.id).getD { spec := spec }).gauge with
    spec := g.installedSpec spec, measured := 0, lastMs := g.now }

theorem gaugeOf_install (g : Governor) (spec : ResourceSpec) {write : ResRT → ResRT}
    (hw : ∀ r, (write r).gauge = r.gauge) (rid : ResourceId) :
    (g.installResource spec write).gaugeOf rid =
      if rid = spec.id then some (g.installGauge spec) else g.gaugeOf rid := by
  rw [gaugeOf, installResource_find?]
  split
  · rw [Option.map_some, hw]
    rfl
  · rfl

theorem frame_install (g : Governor) (spec : ResourceSpec) (write : ResRT → ResRT) :
    (g.installResource spec write).frame = g.frame := by
  rw [g.installResource_eq]
  split <;> rfl

theorem addResource_gauge (g : Governor) (spec : ResourceSpec) (rid : ResourceId) :
    (g.addResource spec).gaugeOf rid =
      if rid = spec.id then some (g.installGauge spec) else g.gaugeOf rid := by
  have hw : ∀ r : ResRT, ({ r with confidence := 0 } : ResRT).gauge = r.gauge := fun _ => rfl
  exact ((Keeps.recomputeGoverned _).gauge rid).trans (gaugeOf_install g spec hw rid)

/-- An inventory leaves alone the resources it does not list. -/
theorem foldl_install_keeps {rid : ResourceId} : ∀ (l : List ResourceSpec) (g : Governor),
    (∀ spec ∈ l, spec.id ≠ rid) →
      (l.foldl (fun g rs => g.installResource rs id) g).resources.find? rid =
      g.resources.find? rid
  | [], _, _ => rfl
  | spec :: l, g, h => by
    rw [List.forall_mem_cons] at h
    rw [List.foldl_cons, foldl_install_keeps l _ h.2, installResource_find?, if_neg (Ne.symm h.1)]

theorem foldl_install_frame : ∀ (l : List ResourceSpec) (g : Governor),
    (l.foldl (fun g rs => g.installResource rs id) g).frame = g.frame
  | [], _ => rfl
  | spec :: l, g => by
    rw [List.foldl_cons, foldl_install_frame l, frame_install]

/-- After the inventory, whether or not the roll of the worker's flows throws. -/
theorem registerWorker_enrolled (g : Governor) (reg : WorkerRegistration) :
    (g.enrol reg).Keeps (stateAfter id (g.registerWorker reg)) := by
  unfold registerWorker
  dsimp only
  split
  · obtain ⟨fs, rs, gen, h⟩ :=
      foldlM_rollFlow_rest reg.worker reg.boot (g.enrol reg).flows.entries (g.enrol reg)
    have hk : (g.enrol reg).Keeps
        { g.enrol reg with flows := fs, reservations := rs, gen := gen } := .of_eq rfl rfl
    cases hl : (g.enrol reg).flows.entries.foldlM (fun g e =>
        if rolls reg.worker e.2 then g.rollFlow reg.worker reg.boot e.1 e.2 else .ok g)
        (g.enrol reg) with
    | error x =>
      rw [hl] at h
      obtain ⟨e, g₁⟩ := x
      obtain rfl : g₁ = _ := h
      exact hk
    | ok g₁ =>
      rw [hl] at h
      obtain rfl : g₁ = _ := h
      exact hk.trans (.recomputeGoverned _)
  · exact .recomputeGoverned _

theorem enrol_find? {g : Governor} {reg : WorkerRegistration} {rid : ResourceId}
    (h : ∀ spec ∈ reg.inventory, spec.id ≠ rid) :
    (g.enrol reg).resources.find? rid = g.resources.find? rid :=
  foldl_install_keeps reg.inventory g h

theorem enrol_frame (g : Governor) (reg : WorkerRegistration) : (g.enrol reg).frame = g.frame :=
  foldl_install_frame reg.inventory g

/-! ### Every operation -/

/-- What an operation does to a resource it does not install. -/
theorem apply_edits (g : Governor) {op : Op} {rid : ResourceId}
    (hlive : (Event.call op).live = true) (hi : ¬ op.Installs rid) :
    Edits op rid g (g.apply op) := by
  have hsame : ∀ g' : Governor, g'.resources = g.resources → (∀ c, op.edit g.now rid c = c) →
      Edits op rid g g' := by
    intro g' hres hop
    refine ⟨?_, fun r' hr' => Or.inr ⟨r', hres ▸ hr', rfl⟩⟩
    simp only [gaugeOf, hres, hop, Option.map_id']
  cases op with
  | setAutoClock auto => exact hsame _ rfl fun _ => rfl
  | advanceMs dt => exact hsame _ rfl fun _ => rfl
  | addResource spec =>
    have hne : rid ≠ spec.id := fun h => hi ⟨spec, List.mem_singleton.mpr rfl, h.symm⟩
    refine ⟨?_, fun r' hr' => Or.inl (recomputeGoverned_governed hr')⟩
    refine (g.addResource_gauge spec rid).trans ?_
    simp only [if_neg hne, Op.edit, Option.map_id']
  | updateCapacity res measured confidence provenance latency depth bump =>
    exact g.updateCapacity_edits rid res measured confidence provenance latency depth bump
  | setResourceEnabled res enabled => exact g.setResourceEnabled_edits rid res enabled
  | invalidateResourceCapacity res => exact g.invalidateResourceCapacity_edits rid res
  | addPath path =>
    refine hsame _ ?_ fun _ => rfl
    change (stateAfter id (g.addPath path)).resources = _
    unfold addPath
    cases validatePath path <;> rfl
  | invalidatePath path => exact hsame _ rfl fun _ => rfl
  | submitFlow spec => exact (g.submitFlow_keeps spec).edits fun _ => rfl
  | cancelFlow flow reason => exact (g.cancelFlow_keeps flow reason).edits fun _ => rfl
  | resumeFlow flow => exact (g.resumeFlow_keeps flow).edits fun _ => rfl
  | tick => exact g.tick_keeps.edits fun _ => rfl
  | releaseReservation id => exact (g.releaseReservation_keeps id).edits fun _ => rfl
  | registerWorker reg =>
    have hne : ∀ spec ∈ reg.inventory, spec.id ≠ rid := fun spec hs h => hi ⟨spec, hs, h⟩
    have hk := g.registerWorker_enrolled reg
    refine ⟨?_, fun r' hr' => ?_⟩
    · refine (hk.gauge rid).trans ?_
      simp only [gaugeOf, enrol_find? hne, Op.edit, Option.map_id']
    · rcases hk.governed rid r' hr' with h | ⟨r, hr, heq⟩
      · exact Or.inl h
      · exact Or.inr ⟨r, enrol_find? hne ▸ hr, heq⟩
  | deregisterWorker worker => exact hsame _ rfl fun _ => rfl
  | reportProgress flow attempt fgen boot bytes =>
    exact (g.reportProgress_keeps flow attempt fgen boot bytes).edits fun _ => rfl
  | reportCompletion flow attempt fgen boot bytes =>
    exact (g.reportCompletion_keeps flow attempt fgen boot bytes).edits fun _ => rfl
  | restore snap => cases hlive

/-- Policy and clocks are constant but for the operations that move a clock. -/
theorem apply_frame (g : Governor) {op : Op} (hlive : (Event.call op).live = true)
    (hc : ¬ op.MovesClock) : (g.apply op).frame = g.frame := by
  cases op with
  | setAutoClock auto => exact absurd trivial hc
  | advanceMs dt => exact absurd trivial hc
  | addResource spec => exact frame_install g spec fun r => { r with confidence := 0 }
  | updateCapacity res measured confidence provenance latency depth bump =>
    change (stateAfter id (g.updateCapacity _ _ _ _ _ _ _)).frame = _
    unfold updateCapacity
    cases g.resources.find? res with
    | none => rfl
    | some r =>
      dsimp only
      split
      · rfl
      · cases bump <;> rfl
  | setResourceEnabled res enabled =>
    change (g.setResourceEnabled res enabled).frame = _
    unfold setResourceEnabled
    cases g.resources.find? res <;> rfl
  | invalidateResourceCapacity res =>
    change (g.invalidateResourceCapacity res).frame = _
    unfold invalidateResourceCapacity
    cases g.resources.find? res <;> rfl
  | addPath path =>
    change (stateAfter id (g.addPath path)).frame = _
    unfold addPath
    cases validatePath path <;> rfl
  | invalidatePath path => rfl
  | submitFlow spec => exact (g.submitFlow_keeps spec).frame
  | cancelFlow flow reason => exact (g.cancelFlow_keeps flow reason).frame
  | resumeFlow flow => exact (g.resumeFlow_keeps flow).frame
  | tick => exact g.tick_keeps.frame
  | releaseReservation id => exact (g.releaseReservation_keeps id).frame
  | registerWorker reg => exact (g.registerWorker_enrolled reg).frame.trans (g.enrol_frame reg)
  | deregisterWorker worker => rfl
  | reportProgress flow attempt fgen boot bytes =>
    exact (g.reportProgress_keeps flow attempt fgen boot bytes).frame
  | reportCompletion flow attempt fgen boot bytes =>
    exact (g.reportCompletion_keeps flow attempt fgen boot bytes).frame
  | restore snap => cases hlive

end Governor

end BG
