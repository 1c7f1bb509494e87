import Mathlib
import BandwidthGovernor.Governor.Txn

/-! What each operation leaves behind, in closed form.

    The guarded transitions an operation asks for are all allowed, and the rates it reserves are
    valid, so on a well-formed state no operation throws after its input checks. -/

namespace BG

open Lib

/-! ### Views of single writes -/

namespace Governor

@[simp] theorem view_flows (g : Governor) : g.view.flows = g.flows.find? := rfl
@[simp] theorem view_reservations (g : Governor) :
    g.view.reservations = g.reservations.find? := rfl
@[simp] theorem view_workers (g : Governor) : g.view.workers = g.workers.find? := rfl
@[simp] theorem view_paths (g : Governor) : g.view.paths = g.paths.find? := rfl
@[simp] theorem view_gen (g : Governor) : g.view.gen = g.gen := rfl
@[simp] theorem view_epoch (g : Governor) : g.view.epoch = g.epoch := rfl
@[simp] theorem view_capacityGeneration (g : Governor) :
    g.view.capacityGeneration = g.capacityGeneration := rfl

@[simp] theorem view_recomputeGoverned (g : Governor) : g.recomputeGoverned.view = g.view := rfl
@[simp] theorem view_recomputeReserved (g : Governor) : g.recomputeReserved.view = g.view := rfl
@[simp] theorem view_recomputeAllocated (g : Governor) : g.recomputeAllocated.view = g.view := rfl
@[simp] theorem view_recomputeSaturation (g : Governor) : g.recomputeSaturation.view = g.view := rfl
@[simp] theorem view_recomputeUsage (g : Governor) : g.recomputeUsage.view = g.view := rfl
@[simp] theorem view_countSubmission (g : Governor) (spec : FlowSpec) :
    (g.countSubmission spec).view = g.view := rfl
@[simp] theorem view_countCompletion (g : Governor) (spec : FlowSpec) :
    (g.countCompletion spec).view = g.view := rfl

theorem find?_insert_eq {K V : Type} [DecidableEq K] (t : Table K V) (k : K) (v : V) :
    (t.insert k v).find? = Function.update t.find? k (some v) := by
  funext k'
  rw [Table.find?_insert, Function.update_apply]

@[simp] theorem view_insertFlow (g : Governor) (fid : FlowId) (f : FlowRT) :
    ({ g with flows := g.flows.insert fid f } : Governor).view = g.view.setFlow fid f := by
  simp [view, View.setFlow, find?_insert_eq]

theorem view_mapFlows (g : Governor) (F : FlowId → FlowRT → FlowRT) :
    ({ g with flows := g.flows.mapVals F } : Governor).view =
      { g.view with flows := fun fid => (g.view.flows fid).map (F fid) } := by
  simp only [view, View.mk.injEq, and_self, and_true]
  funext fid
  exact Table.find?_mapVals F g.flows fid

@[simp] theorem view_releaseReservationInternal (g : Governor) (rid : ReservationId) :
    (g.releaseReservationInternal rid).view = g.view.release rid := by
  unfold releaseReservationInternal View.release
  simp only [view_reservations]
  cases g.reservations.find? rid with
  | none => rfl
  | some rsv =>
    dsimp only
    cases reservationTransition rsv.state (.named .released) with
    | none => rfl
    | some s => simp [view, find?_insert_eq]

@[simp] theorem view_releaseOf (g : Governor) (f : FlowRT) :
    (g.releaseOf f).view = g.view.releaseOf f := by
  unfold releaseOf View.releaseOf
  cases f.reservation with
  | none => rfl
  | some rid => exact view_releaseReservationInternal g rid

/-- A release writes the reservation table only. -/
theorem releaseReservationInternal_eq (g : Governor) (rid : ReservationId) :
    ∃ rs, g.releaseReservationInternal rid = { g with reservations := rs } := by
  unfold releaseReservationInternal
  cases g.reservations.find? rid with
  | none => exact ⟨_, rfl⟩
  | some rsv =>
    dsimp only
    cases reservationTransition rsv.state (.named .released) with
    | none => exact ⟨_, rfl⟩
    | some s => exact ⟨_, rfl⟩

theorem releaseOf_eq (g : Governor) (f : FlowRT) :
    ∃ rs, g.releaseOf f = { g with reservations := rs } := by
  unfold releaseOf
  cases f.reservation with
  | none => exact ⟨_, rfl⟩
  | some rid => exact g.releaseReservationInternal_eq rid

/-! ### Minting -/

/-- The state with a freshly minted reservation on file. -/
def fileReservation (g : Governor) (rsv : Reservation) : Governor :=
  { g with gen := g.gen.drawn, reservations := g.reservations.insert rsv.id rsv }

@[simp] theorem view_fileReservation (g : Governor) (rsv : Reservation) :
    (g.fileReservation rsv).view = g.view.file rsv := by
  simp [view, fileReservation, View.file, find?_insert_eq]

theorem allocationsOf_ok (c : Capacity) : ∀ hops : List PathHop,
    allocationsOf hops c.value = .ok (hopAllocations hops c)
  | [] => rfl
  | hop :: hops => by
    have ih := allocationsOf_ok c hops
    unfold allocationsOf at ih ⊢
    rw [List.mapM_cons, ih]
    simp only [Capacity.make_value]
    rfl

/-- Minting at a valid rate succeeds. -/
theorem mintReservation_ok (g : Governor) (spec : FlowSpec) (boot : WorkerBootId)
    (hops : List PathHop) (c : Capacity) : g.mintReservation spec boot hops c.value =
      .ok (g.view.minted spec boot hops c,
        g.fileReservation (g.view.minted spec boot hops c)) := by
  simp only [mintReservation, allocationsOf_ok]
  rfl

end Governor

/-! ### Flow transitions -/

theorem setFlowState_ok {f : FlowRT} {a target : FlowState} (hs : f.state = .named a)
    (ht : a = target ∨ target ∈ flowTargets a) :
    setFlowState f target = .ok { f with state := .named target } := by
  have : flowTransition f.state (.named target) = some (.named target) := by
    unfold flowTransition
    rw [hs]
    rcases ht with rfl | ht
    · simp
    · simp only [ht, if_true, ite_self]
  simp [setFlowState, this]

theorem isScheduled_cases {s : Coded FlowState} (h : isScheduled s = true) :
    s = .named .running ∨ s = .named .throttled ∨ s = .named .reserved := by
  simpa [isScheduled, or_assoc] using h

theorem isMoving_cases {s : Coded FlowState} (h : isMoving s = true) :
    s = .named .running ∨ s = .named .throttled := by
  simpa [isMoving] using h

theorem isScheduled_eq (s : Coded FlowState) :
    isScheduled s = (isMoving s || decide (s = .named .reserved)) := rfl

theorem setFlowState_eq_ok {f f' : FlowRT} {target : FlowState}
    (h : setFlowState f target = .ok f') : f' = { f with state := .named target } := by
  unfold setFlowState at h
  cases ht : flowTransition f.state (.named target) with
  | none => rw [ht] at h; cases h
  | some s =>
    have hs : s = .named target := by
      unfold flowTransition at ht
      split at ht
      · exact (Option.some.inj ht).symm
      · split at ht
        · split at ht
          · exact (Option.some.inj ht).symm
          · cases ht
        · cases ht
    rw [ht] at h
    exact hs ▸ (Except.ok.inj h).symm

namespace Governor

/-- The end of `resume_flow` and of a roll: the flow is filed, moved to Reserved if it may be. -/
def fileReserved {α : Type} (g : Governor) (fid : FlowId) (f : FlowRT) (result : Governor → α) :
    Except Fault α :=
  match setFlowState f .reserved with
  | .error e => .error (e, { g with flows := g.flows.insert fid f })
  | .ok f => .ok (result { g with flows := g.flows.insert fid f })

theorem fileReserved_ok {α : Type} (g : Governor) (fid : FlowId) {f f' : FlowRT}
    (result : Governor → α) (h : setFlowState f .reserved = .ok f') :
    g.fileReserved fid f result = .ok (result { g with flows := g.flows.insert fid f' }) := by
  unfold fileReserved
  rw [h]

/-! ### Admission -/

theorem initialGrant_mem {spec : FlowSpec} (h : spec.Envelope) (avail : ℚ) :
    spec.requestedMin.value ≤ initialGrant spec avail ∧
      initialGrant spec avail ≤ spec.requestedMax.value :=
  clamp_mem (h.min_le.trans h.le_max)

/-- The initial grant is a valid capacity. -/
theorem initialGrant_capacity {spec : FlowSpec} (h : spec.Envelope) (avail : ℚ) :
    ∃ c : Capacity, c.value = initialGrant spec avail :=
  ⟨⟨initialGrant spec avail, isValidRate_iff.mpr
    ⟨spec.requestedMin.nonneg.trans (initialGrant_mem h avail).1,
      (initialGrant_mem h avail).2.trans spec.requestedMax.le_max⟩⟩, rfl⟩

/-- The state `submit_flow` scans: all three figures recomputed. -/
def scanned (g : Governor) : Governor := g.recomputeGoverned.recomputeReserved.recomputeAllocated

@[simp] theorem view_scanned (g : Governor) : g.scanned.view = g.view := rfl

/-- The hop scan `submit_flow` makes for a spec. -/
def scanFor (g : Governor) (spec : FlowSpec) (path : Path) : Scan :=
  g.scanned.scanHops spec.requestedMin.value {} path.hops

/-- The state `submit_flow` leaves behind when it parks the flow. -/
def parked (g : Governor) (spec : FlowSpec) : Governor :=
  let g := g.scanned.countSubmission spec
  { g with flows := g.flows.insert spec.id (parkedFlow spec g.now) }

/-- The state with a reservation of rate `c` minted for a spec and the flow admitted under it. -/
def admitted (g : Governor) (spec : FlowSpec) (hops : List PathHop) (c : Capacity) : Governor :=
  let rsv := g.view.minted spec .null hops c
  let g := g.fileReservation rsv
  { g with flows := g.flows.insert spec.id (reservedFlow spec g.now c.value rsv.id) }

/-- The outcomes of a submission: the state left behind, and whether the flow was admitted. -/
inductive Submitted (g : Governor) (spec : FlowSpec) : Governor → Bool → Prop where
  | refused : Submitted g spec g false
  | parked (path : Path) : validateFlowSpec spec = none → g.flows.find? spec.id = none →
      g.paths.find? spec.path = some path → (g.scanFor spec path).feasible = false →
      Submitted g spec (g.parked spec) false
  | admitted (path : Path) (c : Capacity) : validateFlowSpec spec = none →
      g.flows.find? spec.id = none → g.paths.find? spec.path = some path →
      (g.scanFor spec path).feasible = true →
      c.value = initialGrant spec (g.scanFor spec path).bottleneckAvail →
      Submitted g spec ((g.scanned.countSubmission spec).admitted spec path.hops c).recomputeUsage
        true

theorem reserveFlow_ok (g : Governor) {spec : FlowSpec} (hops : List PathHop) {scan : Scan}
    {c : Capacity} (hc : c.value = initialGrant spec scan.bottleneckAvail) :
    ∃ res, g.reserveFlow spec hops scan = .ok ((g.admitted spec hops c).recomputeUsage, res) ∧
      res.admitted = true := by
  unfold reserveFlow
  simp only [← hc, mintReservation_ok, Capacity.make_value]
  exact ⟨_, rfl, rfl⟩

/-- `submit_flow` never throws. -/
theorem submitFlow_spec (g : Governor) (spec : FlowSpec) :
    ∃ g' res, g.submitFlow spec = .ok (g', res) ∧ Submitted g spec g' res.admitted := by
  unfold submitFlow
  cases hv : validateFlowSpec spec with
  | some err => exact ⟨_, _, rfl, .refused⟩
  | none =>
    dsimp only
    by_cases hdup : g.flows.contains spec.id = true
    · rw [if_pos hdup]
      exact ⟨_, _, rfl, .refused⟩
    · rw [if_neg hdup]
      have hnew : g.flows.find? spec.id = none := by simpa [Table.contains] using hdup
      cases hp : g.paths.find? spec.path with
      | none => exact ⟨_, _, rfl, .refused⟩
      | some path =>
        change ∃ g' res, (if (g.scanFor spec path).feasible = true then
            (g.scanned.countSubmission spec).reserveFlow spec path.hops (g.scanFor spec path)
          else .ok ((g.scanned.countSubmission spec).parkFlow spec (g.scanFor spec path))) = _ ∧ _
        cases hf : (g.scanFor spec path).feasible with
        | false =>
          rw [if_neg (by decide)]
          exact ⟨_, _, rfl, .parked path hv hnew hp hf⟩
        | true =>
          obtain ⟨c, hc⟩ := initialGrant_capacity (validateFlowSpec_envelope hv)
            (g.scanFor spec path).bottleneckAvail
          obtain ⟨res, hres, hadm⟩ := reserveFlow_ok (g.scanned.countSubmission spec) path.hops hc
          rw [if_pos rfl]
          exact ⟨_, res, hres, hadm ▸ .admitted path c hv hnew hp hf hc⟩

/-- The state after a queued flow has been admitted at rate `c`. -/
def dequeued (g : Governor) (fid : FlowId) (f : FlowRT) (hops : List PathHop) (c : Capacity) :
    Governor :=
  let rsv := g.view.minted f.spec .null hops c
  let g := g.fileReservation rsv
  { g with flows := g.flows.insert fid { f with
      reservation := some rsv.id, granted := c.value, admittedMs := g.now
      state := .named .reserved } }

/-- `admit_queued` leaves the flow in the queue or admits it. -/
theorem admitQueued_spec (g : Governor) (fid : FlowId) {f : FlowRT} (he : f.spec.Envelope)
    (hq : f.state = .named .queued) :
    g.admitQueued fid f = .ok g ∨ ∃ path c, g.paths.find? f.spec.path = some path ∧
      c.value ≤ f.spec.requestedMax.value ∧
      g.admitQueued fid f = .ok (g.dequeued fid f path.hops c) := by
  unfold admitQueued
  cases hp : g.paths.find? f.spec.path with
  | none => exact Or.inl rfl
  | some path =>
    dsimp only
    generalize g.scanHops f.spec.requestedMin.value {} path.hops = scan
    split
    · exact Or.inl rfl
    · obtain ⟨c, hc⟩ := initialGrant_capacity he scan.bottleneckAvail
      refine Or.inr ⟨path, c, rfl, hc ▸ (initialGrant_mem he _).2, ?_⟩
      have hset : ∀ f' : FlowRT, f'.state = .named .queued →
          setFlowState f' .reserved = .ok { f' with state := .named .reserved } := fun f' h =>
        setFlowState_ok h (Or.inr (by decide))
      simp only [← hc, mintReservation_ok]
      dsimp only [bind, Except.bind]
      rw [hset]
      · rfl
      · exact hq

/-! ### Arbitration -/

/-- What the last loop of `tick` makes of a flow. -/
def settled (g : Governor) (t : ℚ) (fid : FlowId) (f : FlowRT) : FlowRT :=
  let ng := g.grantOf t fid
  if f.state = .named .reserved then
    { dispatchTo { f with granted := ng } (g.pickWorkerForPath f.spec.path) with
      state := .named .running, lastGrantUpdateMs := t }
  else if isMoving f.state then
    { f with granted := ng, state := .named (gradeOf f ng), lastGrantUpdateMs := t }
  else f

theorem dispatchTo_state (f : FlowRT) (o : Option (WorkerId × WorkerRT)) :
    (dispatchTo f o).state = f.state := by
  cases o <;> rfl

theorem gradeOf_cases (f : FlowRT) (ng : ℚ) :
    gradeOf f ng = .preempted ∨ gradeOf f ng = .throttled ∨ gradeOf f ng = .running := by
  unfold gradeOf
  split
  · exact Or.inl rfl
  · split
    · exact Or.inr (Or.inl rfl)
    · exact Or.inr (Or.inr rfl)

/-- A graded flow is moving or Preempted. -/
theorem gradeOf_moving (f : FlowRT) (ng : ℚ) : isMoving (.named (gradeOf f ng)) = true ∨
    (Coded.named (gradeOf f ng) : Coded FlowState) = .named .preempted := by
  rcases gradeOf_cases f ng with h | h | h
  · rw [h]; exact Or.inr rfl
  · rw [h]; exact Or.inl rfl
  · rw [h]; exact Or.inl rfl

theorem gradeOf_target {f : FlowRT} {a : FlowState} (ha : a = .running ∨ a = .throttled) (ng : ℚ) :
    a = gradeOf f ng ∨ gradeOf f ng ∈ flowTargets a := by
  rcases ha with rfl | rfl
  · rcases gradeOf_cases f ng with h | h | h
    · rw [h]; exact Or.inr (by decide)
    · rw [h]; exact Or.inr (by decide)
    · rw [h]; exact Or.inl rfl
  · rcases gradeOf_cases f ng with h | h | h
    · rw [h]; exact Or.inr (by decide)
    · rw [h]; exact Or.inl rfl
    · rw [h]; exact Or.inr (by decide)

/-- The settling loop never throws. -/
theorem settleFlow_eq (g : Governor) (t : ℚ) (fid : FlowId) (f : FlowRT) :
    g.settleFlow t (g.grantMin t) fid f = (g.settled t fid f, none) := by
  unfold settleFlow settled
  simp only [isScheduled_eq]
  by_cases hr : f.state = .named .reserved
  · have hset : setFlowState (dispatchTo { f with granted := g.grantOf t fid }
        (g.pickWorkerForPath f.spec.path)) .running = .ok _ :=
      setFlowState_ok (a := .reserved) (by rw [dispatchTo_state]; exact hr) (Or.inr (by decide))
    rw [if_pos (by simp [hr]), if_pos hr]
    dsimp only
    rw [if_pos hr]
    erw [hset]
  · by_cases hm : isMoving f.state = true
    · have hset : setFlowState { f with granted := g.grantOf t fid } (gradeOf f (g.grantOf t fid)) =
          .ok { f with granted := g.grantOf t fid
                       state := .named (gradeOf f (g.grantOf t fid)) } := by
        rcases isMoving_cases hm with h | h
        · exact setFlowState_ok h (gradeOf_target (Or.inl rfl) _)
        · exact setFlowState_ok h (gradeOf_target (Or.inr rfl) _)
      rw [if_pos (by simp [hm]), if_neg hr, if_pos hm]
      dsimp only
      rw [if_neg hr]
      erw [hset]
    · simp [hr, hm]

/-- The state arbitration leaves behind: one pass over the flow table. -/
def arbitrated (g : Governor) : Governor :=
  { g with flows := g.flows.mapVals (g.settled g.now) }.recomputeUsage

@[simp] theorem arbitrated_flows (g : Governor) :
    g.arbitrated.flows = g.flows.mapVals (g.settled g.now) := rfl

theorem arbitrate_eq (g : Governor) : g.arbitrate = .ok g.arbitrated := by
  have hok : g.flows.forEach (g.settleFlow g.now (g.grantMin g.now)) =
      (g.flows.mapVals (g.settled g.now), none) := by
    rw [Table.forEach_ok fun e _ => by rw [settleFlow_eq]]
    simp only [settleFlow_eq]
  simp only [arbitrate, hok, arbitrated]

end Governor
end BG
