import Mathlib
import BandwidthGovernor.Governor.Refine

/-! The single writes of the operations, from any state.

    `Txn` describes operations on well-formed states. A restoration may put anything into the
    tables, so what has to hold there as well is derived from the weaker `Write`: how one write
    edits the entries of a table. An operation that throws has made some of its writes. -/

namespace BG

open Lib

/-! ### Edits -/

/-- The resource specs an operation brings in. -/
def Op.resourceSpecs : Op → List ResourceSpec
  | .addResource spec => [spec]
  | .registerWorker reg => reg.inventory
  | _ => []

/-- Whether an operation writes the accounts. -/
def Op.counts : Op → Bool
  | .submitFlow _ => true
  | .reportCompletion _ _ _ _ _ => true
  | _ => false

/-- Whether an operation writes the flows. -/
def Op.writesFlows : Op → Bool
  | .submitFlow _ | .cancelFlow _ _ | .resumeFlow _ | .tick | .registerWorker _
  | .deregisterWorker _ | .reportProgress _ _ _ _ _ | .reportCompletion _ _ _ _ _ | .restore _ =>
    true
  | _ => false

/-- An edit of a resource in place. -/
structure ResEdit (r r' : ResRT) : Prop where
  spec : ∃ gen, r'.spec = { r.spec with generation := gen }
  health : r'.health = r.health

/-- The grant of a flow is a valid rate. -/
def FlowRT.Rated (f : FlowRT) : Prop := 0 ≤ f.granted ∧ f.granted ≤ kMaxRate

/-- An edit of a flow in place; new identities are drawn from the generator. -/
structure FlowEdit (gen : IdGen) (f f' : FlowRT) : Prop where
  spec : ∃ attempt gen, f'.spec = { f.spec with attempt := attempt, generation := gen }
  state : f'.state = f.state ∨ ∃ s, f'.state = .named s
  rated : f.Rated → f'.Rated
  attempt : f'.spec.attempt = f.spec.attempt ∨ gen.Drew f'.spec.attempt
  reservation : ∀ rid, f'.reservation = some rid → f.reservation = some rid ∨ gen.Drew rid

theorem ResEdit.refl (r : ResRT) : ResEdit r r := ⟨⟨_, rfl⟩, rfl⟩

theorem FlowEdit.refl {gen : IdGen} (f : FlowRT) : FlowEdit gen f f :=
  ⟨⟨_, _, rfl⟩, Or.inl rfl, id, Or.inl rfl, fun _ => Or.inl⟩

theorem FlowEdit.setState {gen : IdGen} {f f' f'' : FlowRT} {s : FlowState} (h : FlowEdit gen f f')
    (hs : setFlowState f' s = .ok f'') : FlowEdit gen f f'' := by
  rw [setFlowState_eq_ok hs]
  exact ⟨h.spec, Or.inr ⟨s, rfl⟩, h.rated, h.attempt, h.reservation⟩

/-- A reservation as the next mint files it, over a path on file. -/
structure Governor.Mints (g : Governor) (rsv : Reservation) : Prop where
  id : rsv.id = g.gen.next.1
  state : rsv.state = .named .active
  hops : ∃ pid p, g.paths.find? pid = some p ∧ rsv.allocations.length = p.hops.length

/-- Where the attempt of a new reservation comes from: the submitted spec, a flow on file, or the
    generator. -/
def Governor.Issues (op : Op) (g : Governor) (attempt : AttemptId) : Prop :=
  (∃ spec, op = .submitFlow spec ∧ attempt = spec.attempt) ∨
    (∃ fid f, g.flows.find? fid = some f ∧ attempt = f.spec.attempt) ∨ g.gen.Drew attempt

theorem Governor.Mints.drew {g : Governor} {rsv : Reservation} (h : g.Mints rsv)
    {rid : ReservationId} (hr : some rsv.id = some rid) : g.gen.drawn.Drew rid := by
  rw [← Option.some.inj hr, h.id]
  exact IdGen.drew_next _

/-- One write of an operation. -/
inductive Write (op : Op) : Governor → Governor → Prop where
  | rest {g g' : Governor} : g'.resources = g.resources → g'.paths = g.paths → g'.flows = g.flows →
      g'.reservations = g.reservations → g'.gen = g.gen →
      (op.counts = false → g'.tenants = g.tenants ∧ g'.workloads = g.workloads) → Write op g g'
  | draw (g : Governor) : Write op g g.drawn
  | resources {g : Governor} (rs : Table ResourceId ResRT) :
      (∀ rid r', rs.find? rid = some r' → ∃ r, g.resources.find? rid = some r ∧ ResEdit r r') →
      Write op g { g with resources := rs }
  | install {g : Governor} (spec : ResourceSpec) (r' : ResRT) : spec ∈ op.resourceSpecs →
      (∃ gen, r'.spec = { spec with generation := gen }) →
      (r'.health = .named .healthy ∨ ∃ r, g.resources.find? spec.id = some r ∧
        r'.health = r.health) →
      Write op g { g with resources := g.resources.insert spec.id r' }
  | path {g : Governor} (p : Path) : op = .addPath p → validatePath p = none →
      Write op g { g with paths := g.paths.insert p.id p }
  | paths {g : Governor} (ps : Table PathId Path) :
      (∀ pid p', ps.find? pid = some p' → ∃ p gen, g.paths.find? pid = some p ∧
        p' = { p with pathGeneration := gen }) → Write op g { g with paths := ps }
  | submit {g : Governor} (spec : FlowSpec) (f : FlowRT) : op = .submitFlow spec →
      validateFlowSpec spec = none → f.spec = spec → (∃ s, f.state = .named s) → f.Rated →
      (∀ rid, f.reservation = some rid → g.gen.Drew rid) →
      Write op g { g with flows := g.flows.insert spec.id f }
  | flows {g : Governor} (fs : Table FlowId FlowRT) :
      (∀ fid f', fs.find? fid = some f' → ∃ f, g.flows.find? fid = some f ∧
        FlowEdit g.gen f f') →
      Write op g { g with flows := fs }
  | file {g : Governor} (rsv : Reservation) : g.Mints rsv → g.Issues op rsv.attempt →
      Write op g (g.fileReservation rsv)
  | release (g : Governor) (rid : ReservationId) : Write op g (g.releaseReservationInternal rid)

/-- A sequence of writes. -/
abbrev Writes (op : Op) : Governor → Governor → Prop := Relation.ReflTransGen (Write op)

/-- What every write keeps, an operation keeps. -/
theorem Writes.inv {op : Op} {g g' : Governor} (h : Writes op g g') {P : Governor → Prop}
    (hstep : ∀ g g', Write op g g' → P g → P g') (h₀ : P g) : P g' := by
  induction h with
  | refl => exact h₀
  | tail _ hw ih => exact hstep _ _ hw ih

theorem Write.writes {op : Op} {g g' : Governor} (h : Write op g g') : Writes op g g' :=
  .single h

namespace Governor
variable {op : Op}

/-! ### Writes of single tables -/

theorem writes_mapResources (g : Governor) {F : ResourceId → ResRT → ResRT}
    (hF : ∀ rid r, ResEdit r (F rid r)) :
    Writes op g { g with resources := g.resources.mapVals F } := by
  refine Write.writes (.resources _ fun rid r' hr => ?_)
  rw [Table.find?_mapVals] at hr
  obtain ⟨r, hr₀, rfl⟩ := Option.map_eq_some_iff.mp hr
  exact ⟨r, hr₀, hF rid r⟩

theorem writes_insertResource (g : Governor) {rid : ResourceId} {r r' : ResRT}
    (hr : g.resources.find? rid = some r) (h : ResEdit r r') :
    Writes op g { g with resources := g.resources.insert rid r' } := by
  refine Write.writes (.resources _ fun x y hy => ?_)
  rw [Table.find?_insert] at hy
  split at hy
  · rename_i he
    subst he
    exact ⟨r, hr, Option.some.inj hy ▸ h⟩
  · exact ⟨y, hy, .refl y⟩

theorem writes_insertFlow (g : Governor) {fid : FlowId} {f f' : FlowRT}
    (hf : g.flows.find? fid = some f) (h : FlowEdit g.gen f f') :
    Writes op g { g with flows := g.flows.insert fid f' } := by
  refine Write.writes (.flows _ fun x y hy => ?_)
  rw [Table.find?_insert] at hy
  split at hy
  · rename_i he
    subst he
    exact ⟨f, hf, Option.some.inj hy ▸ h⟩
  · exact ⟨y, hy, .refl y⟩

theorem writes_mapFlows (g : Governor) {F : FlowId → FlowRT → FlowRT}
    (hF : ∀ fid f, FlowEdit g.gen f (F fid f)) :
    Writes op g { g with flows := g.flows.mapVals F } := by
  refine Write.writes (.flows _ fun fid f' hf => ?_)
  rw [Table.find?_mapVals] at hf
  obtain ⟨f, hf₀, rfl⟩ := Option.map_eq_some_iff.mp hf
  exact ⟨f, hf₀, hF fid f⟩

theorem writes_recomputeGoverned (g : Governor) : Writes op g g.recomputeGoverned :=
  g.writes_mapResources fun _ _ => ⟨⟨_, rfl⟩, rfl⟩

theorem writes_recomputeSaturation (g : Governor) : Writes op g g.recomputeSaturation :=
  g.writes_mapResources fun _ _ => ⟨⟨_, rfl⟩, rfl⟩

theorem writes_recomputeReserved (g : Governor) : Writes op g g.recomputeReserved := by
  refine Write.writes (.resources _ fun rid r' hr => ?_)
  have h := g.recomputeReserved_find? rid
  rw [recomputeReserved] at h
  rw [h] at hr
  obtain ⟨r, hr₀, rfl⟩ := Option.map_eq_some_iff.mp hr
  exact ⟨r, hr₀, ⟨_, rfl⟩, rfl⟩

theorem writes_recomputeAllocated (g : Governor) : Writes op g g.recomputeAllocated := by
  refine Write.writes (.resources _ fun rid r' hr => ?_)
  have h := g.recomputeAllocated_find? rid
  rw [recomputeAllocated] at h
  rw [h] at hr
  obtain ⟨r, hr₀, rfl⟩ := Option.map_eq_some_iff.mp hr
  exact ⟨r, hr₀, ⟨_, rfl⟩, rfl⟩

theorem writes_recomputeUsage (g : Governor) : Writes op g g.recomputeUsage :=
  (g.writes_recomputeReserved.trans (writes_recomputeAllocated _)).trans
    (writes_recomputeSaturation _)

theorem writes_releaseOf (g : Governor) (f : FlowRT) : Writes op g (g.releaseOf f) := by
  unfold releaseOf
  cases f.reservation with
  | none => exact .refl
  | some rid => exact Write.writes (.release g rid)

/-! ### Minting -/

theorem allocationsOf_length {rate : ℚ} {hops : List PathHop} {als : List ResourceAllocation}
    (h : allocationsOf hops rate = .ok als) : als.length = hops.length := by
  cases hops with
  | nil =>
    cases h
    rfl
  | cons hop hops =>
    by_cases hv : isValidRate rate = true
    · rw [allocationsOf_ok ⟨rate, hv⟩] at h
      cases h
      simp [hopAllocations]
    · unfold allocationsOf at h
      rw [List.mapM_cons, Capacity.make, dif_neg hv] at h
      cases h

/-- A mint files an Active reservation under the next identity, or throws with only that identity
    drawn. -/
theorem mintReservation_cases (g : Governor) (spec : FlowSpec) (boot : WorkerBootId)
    (hops : List PathHop) (rate : ℚ) :
    (∃ e, g.mintReservation spec boot hops rate = .error (e, g.drawn)) ∨
      ∃ rsv, g.mintReservation spec boot hops rate = .ok (rsv, g.fileReservation rsv) ∧
        rsv.id = g.gen.next.1 ∧ rsv.state = .named .active ∧
        rsv.allocations.length = hops.length ∧ rsv.attempt = spec.attempt := by
  unfold mintReservation
  dsimp only
  cases h : allocationsOf hops rate with
  | error e => exact Or.inl ⟨e, rfl⟩
  | ok als => exact Or.inr ⟨_, rfl, rfl, rfl, allocationsOf_length h, rfl⟩

/-- Minting for a path on file and linking a flow to the reservation. -/
theorem mintReservation_mints {g : Governor} (spec : FlowSpec) (boot : WorkerBootId) {pid : PathId}
    {p : Path} (hp : g.paths.find? pid = some p) (rate : ℚ) :
    (∃ e, g.mintReservation spec boot p.hops rate = .error (e, g.drawn)) ∨
      ∃ rsv, g.mintReservation spec boot p.hops rate = .ok (rsv, g.fileReservation rsv) ∧
        g.Mints rsv ∧ rsv.attempt = spec.attempt := by
  rcases g.mintReservation_cases spec boot p.hops rate with h | ⟨rsv, h, hid, hs, hlen, ha⟩
  · exact Or.inl h
  · exact Or.inr ⟨rsv, h, ⟨hid, hs, pid, p, hp, hlen⟩, ha⟩

/-! ### Resources and paths -/

theorem installResource_writes (g : Governor) {spec : ResourceSpec} (hs : spec ∈ op.resourceSpecs)
    {write : ResRT → ResRT} (hw : ∀ r, (write r).spec = r.spec ∧ (write r).health = r.health) :
    Writes op g (g.installResource spec write) := by
  have hspec : ∀ (gen : CapacityGeneration) (r : ResRT), ∃ gen',
      (write { r with
        spec := { spec with generation := gen }, measured := 0, lastMs := g.now }).spec =
          { spec with generation := gen' } := fun gen r => ⟨gen, (hw _).1⟩
  have hhealth : ∀ (gen : CapacityGeneration),
      (write { (g.resources.find? spec.id).getD { spec := spec } with
        spec := { spec with generation := gen }, measured := 0, lastMs := g.now }).health =
          .named .healthy ∨ ∃ r, g.resources.find? spec.id = some r ∧
        (write { (g.resources.find? spec.id).getD { spec := spec } with
          spec := { spec with generation := gen }, measured := 0, lastMs := g.now }).health =
            r.health := fun gen => by
    rw [(hw _).2]
    cases h : g.resources.find? spec.id with
    | none => exact Or.inl rfl
    | some r => exact Or.inr ⟨r, rfl, rfl⟩
  unfold installResource
  by_cases hnull : spec.generation.isNull = true
  · simp only [hnull, if_true]
    refine .trans (Write.writes (.draw g)) (Write.writes ?_)
    exact .install (g := g.drawn) spec _ hs (hspec _ _) (hhealth _)
  · simp only [hnull]
    exact Write.writes (.install spec _ hs (hspec _ _) (hhealth _))

theorem bumpResourceGeneration_writes (g : Governor) (res : ResourceId) :
    Writes op g (g.bumpResourceGeneration res) := by
  refine g.writes_mapResources fun rid r => ?_
  split
  · exact ⟨⟨_, rfl⟩, rfl⟩
  · exact .refl r

theorem bumpCapacityGeneration_writes (g : Governor) : Writes op g g.bumpCapacityGeneration :=
  Write.writes (.rest rfl rfl rfl rfl rfl fun _ => ⟨rfl, rfl⟩)

theorem updateCapacity_writes (g : Governor) (res : ResourceId) (measured confidence : ℚ)
    (provenance : Str) (latency : ℚ) (depth : UInt64) (bump : Bool) : Writes op g
      (stateAfter id (g.updateCapacity res measured confidence provenance latency depth bump)) := by
  unfold updateCapacity
  cases hr : g.resources.find? res with
  | none => exact .refl
  | some r =>
    dsimp only
    split
    · exact .refl
    · refine .trans ?_ ((writes_recomputeGoverned _).trans (writes_recomputeSaturation _))
      cases bump
      · exact g.writes_insertResource hr ⟨⟨_, rfl⟩, rfl⟩
      · refine .trans ?_ ((bumpResourceGeneration_writes _ res).trans
          (bumpCapacityGeneration_writes _))
        exact g.writes_insertResource hr ⟨⟨_, rfl⟩, rfl⟩

theorem setResourceEnabled_writes (g : Governor) (res : ResourceId) (enabled : Bool) :
    Writes op g (g.setResourceEnabled res enabled) := by
  unfold setResourceEnabled
  cases hr : g.resources.find? res with
  | none => exact .refl
  | some r =>
    refine .trans ?_ ((writes_recomputeGoverned _).trans (writes_recomputeSaturation _))
    exact g.writes_insertResource hr ⟨⟨_, rfl⟩, rfl⟩

theorem invalidateResourceCapacity_writes (g : Governor) (res : ResourceId) :
    Writes op g (g.invalidateResourceCapacity res) := by
  unfold invalidateResourceCapacity
  cases g.resources.find? res with
  | none => exact .refl
  | some r =>
    exact ((bumpResourceGeneration_writes g res).trans (bumpCapacityGeneration_writes _)).trans
      ((writes_recomputeGoverned _).trans (writes_recomputeSaturation _))

theorem addPath_writes (g : Governor) (path : Path) :
    Writes (.addPath path) g (stateAfter id (g.addPath path)) := by
  unfold addPath
  cases hv : validatePath path with
  | some err => exact .refl
  | none => exact Write.writes (.path path rfl hv)

theorem invalidatePath_writes (g : Governor) (pid : PathId) :
    Writes op g (g.invalidatePath pid) := by
  refine Write.writes (.paths _ fun pid' p' hp => ?_)
  rw [Table.find?_modify] at hp
  split at hp
  · obtain ⟨p, hp₀, rfl⟩ := Option.map_eq_some_iff.mp hp
    exact ⟨p, _, hp₀, rfl⟩
  · exact ⟨p', p'.pathGeneration, hp, rfl⟩

/-! ### Flows -/

/-- Clamping between two valid rates yields one, in whichever order they are. -/
theorem clamp_bounds (v : ℚ) (lo hi : Capacity) :
    0 ≤ clamp v lo.value hi.value ∧ clamp v lo.value hi.value ≤ kMaxRate := by
  unfold clamp
  split
  · exact ⟨lo.nonneg, lo.le_max⟩
  · rename_i hlo
    split
    · exact ⟨hi.nonneg, hi.le_max⟩
    · rename_i hhi
      exact ⟨lo.nonneg.trans (not_lt.mp hlo), (not_lt.mp hhi).trans hi.le_max⟩

theorem initialGrant_bounds (spec : FlowSpec) (avail : ℚ) :
    0 ≤ initialGrant spec avail ∧ initialGrant spec avail ≤ kMaxRate := clamp_bounds _ _ _

theorem submitFlow_writes (g : Governor) (spec : FlowSpec) :
    Writes (.submitFlow spec) g (stateAfter Prod.fst (g.submitFlow spec)) := by
  obtain ⟨g', res, hok, hs⟩ := g.submitFlow_spec spec
  rw [hok, stateAfter]
  generalize res.admitted = b at hs
  have hscan : Writes (.submitFlow spec) g (g.scanned.countSubmission spec) :=
    ((g.writes_recomputeGoverned.trans (writes_recomputeReserved _)).trans
      (writes_recomputeAllocated _)).trans
      (Write.writes (.rest rfl rfl rfl rfl rfl fun h => by cases h))
  cases hs with
  | refused => exact .refl
  | parked path hv hnew hp _ =>
    refine hscan.trans (Write.writes ?_)
    exact .submit spec _ rfl hv rfl ⟨_, rfl⟩ ⟨le_refl _, kMaxRate_pos.le⟩ fun rid hr => by cases hr
  | admitted path c hv hnew hp _ hc =>
    refine hscan.trans (.trans ?_ (writes_recomputeUsage _))
    have hmint : (g.scanned.countSubmission spec).Mints
        ((g.scanned.countSubmission spec).view.minted spec .null path.hops c) :=
      ⟨rfl, rfl, spec.path, path, hp, by simp [View.minted, hopAllocations]⟩
    refine .trans (Write.writes (.file _ hmint (Or.inl ⟨spec, rfl, rfl⟩))) (Write.writes ?_)
    refine .submit spec _ rfl hv rfl ⟨_, rfl⟩ ⟨c.nonneg, c.le_max⟩ fun rid hr => ?_
    rw [← Option.some.inj hr]
    exact IdGen.drew_next _

theorem admitQueued_writes {g : Governor} {fid : FlowId} {f : FlowRT}
    (hf : g.flows.find? fid = some f) : Writes op g (stateAfter id (g.admitQueued fid f)) := by
  unfold admitQueued
  cases hp : g.paths.find? f.spec.path with
  | none => exact .refl
  | some path =>
    dsimp only
    generalize g.scanHops f.spec.requestedMin.value {} path.hops = scan
    split
    · exact .refl
    · rcases mintReservation_mints f.spec .null hp
        (initialGrant f.spec scan.bottleneckAvail) with ⟨e, he⟩ | ⟨rsv, hok, hmint, ha⟩
      · rw [he]
        exact Write.writes (.draw g)
      · rw [hok]
        simp only [bind, Except.bind]
        have hfile : Writes op g (g.fileReservation rsv) :=
          Write.writes (.file rsv hmint (Or.inr (Or.inl ⟨fid, f, hf, ha⟩)))
        have hedit : FlowEdit (g.fileReservation rsv).gen f { f with
            reservation := some rsv.id, granted := initialGrant f.spec scan.bottleneckAvail
            admittedMs := (g.fileReservation rsv).now } :=
          ⟨⟨_, _, rfl⟩, Or.inl rfl, fun _ => initialGrant_bounds _ _, Or.inl rfl,
            fun rid hr => Or.inr (hmint.drew hr)⟩
        split
        · exact hfile.trans (writes_insertFlow (g.fileReservation rsv) hf hedit)
        · rename_i f' hset
          exact hfile.trans (writes_insertFlow (g.fileReservation rsv) hf (hedit.setState hset))

theorem cancelFlow_writes (g : Governor) (fid : FlowId) (reason : Str) :
    Writes op g (stateAfter Prod.fst (g.cancelFlow fid reason)) := by
  unfold cancelFlow
  cases hf : g.flows.find? fid with
  | none => exact .refl
  | some f =>
    dsimp only
    split
    · exact .refl
    · split
      · exact .refl
      · rename_i f' hset
        have hedit : FlowEdit g.gen f { f' with lastError := reason } :=
          let h := (FlowEdit.refl f).setState hset
          ⟨h.spec, h.state, h.rated, h.attempt, h.reservation⟩
        exact (writes_insertFlow g hf hedit).trans ((writes_releaseOf _ _).trans
          (writes_recomputeUsage _))

/-- Whether or not it throws, the flow is on file afterwards. -/
theorem fileReserved_cases {α : Type} (state : α → Governor) (result : Governor → α)
    (h : ∀ g, state (result g) = g) (g : Governor) (fid : FlowId) (f : FlowRT) :
    ∃ f', stateAfter state (g.fileReserved fid f result) =
        { g with flows := g.flows.insert fid f' } ∧
      (f' = f ∨ setFlowState f .reserved = .ok f') := by
  unfold fileReserved
  cases hset : setFlowState f .reserved with
  | error e => exact ⟨f, rfl, Or.inl rfl⟩
  | ok f' => exact ⟨f', h _, Or.inr rfl⟩

theorem resumeFlow_writes (g : Governor) (fid : FlowId) :
    Writes op g (stateAfter Prod.fst (g.resumeFlow fid)) := by
  unfold resumeFlow
  cases hf : g.flows.find? fid with
  | none => exact .refl
  | some f =>
    dsimp only
    split
    · exact .refl
    · -- whatever the re-reservation did, the flow is written as an edit of what was there
      have hclose : ∀ (g' : Governor) (f' : FlowRT), g'.flows.find? fid = some f →
          FlowEdit g'.gen f f' → Writes op g'
            (stateAfter Prod.fst (g'.fileReserved fid f' fun g => (g, true))) := by
        intro g' f' hf' hedit
        obtain ⟨f'', hstate, rfl | hset⟩ :=
          fileReserved_cases Prod.fst (fun g => (g, true)) (fun _ => rfl) g' fid f'
        · rw [hstate]
          exact writes_insertFlow g' hf' hedit
        · rw [hstate]
          exact writes_insertFlow g' hf' (hedit.setState hset)
      unfold rereserve
      split
      · rename_i path hres hp
        rcases mintReservation_mints f.spec .null hp
          (max f.granted f.spec.requestedMin.value) with ⟨e, he⟩ | ⟨rsv, hok, hmint, ha⟩
        · rw [he]
          exact Write.writes (.draw g)
        · rw [hok]
          refine .trans (Write.writes (.file rsv hmint (Or.inr (Or.inl ⟨fid, f, hf, ha⟩)))) ?_
          exact hclose (g.fileReservation rsv) _ hf ⟨⟨_, _, rfl⟩, Or.inl rfl, id, Or.inl rfl,
            fun rid hr => Or.inr (hmint.drew hr)⟩
      · exact hclose g f hf (.refl f)

/-! ### The tick -/

theorem writes_bind {α β : Type} {g : Governor} {x : Except Fault α} {k : α → Except Fault β}
    {s : α → Governor} {t : β → Governor} (hx : Writes op g (stateAfter s x))
    (hk : ∀ a, x = .ok a → Writes op (s a) (stateAfter t (k a))) :
    Writes op g (stateAfter t (x >>= k)) := by
  cases x with
  | error e => exact hx
  | ok a => exact .trans hx (hk a rfl)

theorem foldlM_writes {α : Type} {body : Governor → α → Except Fault Governor}
    (hbody : ∀ g a, Writes op g (stateAfter id (body g a))) :
    ∀ (l : List α) (g : Governor), Writes op g (stateAfter id (l.foldlM body g))
  | [], _ => .refl
  | a :: l, g => by
    rw [List.foldlM_cons]
    exact writes_bind (hbody g a) fun g' _ => foldlM_writes hbody l g'

theorem advanceTenantStarvation_writes (g : Governor) (t : ℚ) :
    Writes op g (g.advanceTenantStarvation t) := by
  refine g.writes_mapFlows fun fid f => ?_
  dsimp only
  split
  · exact .refl f
  · exact ⟨⟨_, _, rfl⟩, Or.inl rfl, id, Or.inl rfl, fun _ => Or.inl⟩

theorem drainQueue_writes (g : Governor) : Writes op g (stateAfter id g.drainQueue) := by
  refine foldlM_writes (fun g fid => ?_) _ g
  cases hf : g.flows.find? fid with
  | none => exact .refl
  | some f =>
    dsimp only
    split
    · exact .refl
    · exact admitQueued_writes hf

theorem prepareTick_writes (g : Governor) : Writes op g (stateAfter id g.prepareTick) := by
  refine .trans (g.advanceTenantStarvation_writes g.now) (writes_bind (drainQueue_writes _) ?_)
  exact fun g' _ => (writes_recomputeGoverned g').trans (writes_recomputeReserved _)

theorem grantOf_bounds (g : Governor) (t : ℚ) (fid : FlowId) :
    0 ≤ g.grantOf t fid ∧ g.grantOf t fid ≤ kMaxRate := by
  unfold grantOf
  cases h : (g.grantMin t).find? fid with
  | none => exact ⟨le_refl _, kMaxRate_pos.le⟩
  | some m => exact grantMin_bounds g t h

theorem settled_edit (g : Governor) (t : ℚ) (fid : FlowId) (f : FlowRT) :
    FlowEdit g.gen f (g.settled t fid f) := by
  have hb := g.grantOf_bounds t fid
  unfold settled
  dsimp only
  split
  · obtain ⟨hs, hg, hr⟩ := dispatchTo_spec { f with granted := g.grantOf t fid }
      (g.pickWorkerForPath f.spec.path)
    refine ⟨⟨f.spec.attempt, f.spec.generation, hs⟩, Or.inr ⟨_, rfl⟩, fun _ => ?_,
      Or.inl (congrArg FlowSpec.attempt hs), fun rid h => Or.inl (hr.symm.trans h)⟩
    unfold FlowRT.Rated
    dsimp only
    rw [hg]
    exact hb
  · split
    · exact ⟨⟨_, _, rfl⟩, Or.inr ⟨_, rfl⟩, fun _ => hb, Or.inl rfl, fun _ => Or.inl⟩
    · exact .refl f

theorem arbitrated_writes (g : Governor) : Writes op g g.arbitrated :=
  (g.writes_mapFlows fun fid f => g.settled_edit g.now fid f).trans (writes_recomputeUsage _)

theorem tick_writes (g : Governor) : Writes op g (stateAfter id g.tick) := by
  refine writes_bind g.prepareTick_writes fun g' _ => ?_
  rw [arbitrate_eq]
  exact arbitrated_writes g'

/-! ### Workers and reports -/

theorem rollGrant_rated {f : FlowRT} (h : f.Rated) : 0 ≤ rollGrant f ∧ rollGrant f ≤ kMaxRate := by
  unfold rollGrant
  dsimp only
  split
  · exact ⟨f.spec.requestedPreferred.nonneg, f.spec.requestedPreferred.le_max⟩
  · exact ⟨le_max_of_le_left h.1, max_le h.2 f.spec.requestedMin.le_max⟩

/-- Whether or not it throws, a roll ends by writing its own flow, as an edit. -/
theorem rollFlow_cases (op : Op) (g : Governor) (worker : WorkerId) (boot : WorkerBootId)
    (fid : FlowId)
    (f : FlowRT) : ∃ g₁ f', Writes op g g₁ ∧ g₁.flows = g.flows ∧ FlowEdit g₁.gen f f' ∧
      stateAfter id (g.rollFlow worker boot fid f) =
        { g₁ with flows := g₁.flows.insert fid f' } := by
  have hrel : Writes op g (g.releaseOf f).drawn :=
    (g.writes_releaseOf f).trans (Write.writes (.draw _))
  have hflows : (g.releaseOf f).drawn.flows = g.flows := by
    obtain ⟨rs, hrs⟩ := g.releaseOf_eq f
    rw [drawn, hrs]
  have hdrew := IdGen.drew_next (t := .attempt) (g.releaseOf f).gen
  have hedit : FlowEdit (g.releaseOf f).drawn.gen f
      (rolledFlow f (g.releaseOf f).gen.next.1 worker boot) :=
    ⟨⟨_, _, rfl⟩, Or.inl rfl, id, Or.inr hdrew, fun _ => Or.inl⟩
  have hclose : ∀ (g₁ : Governor) (f₁ : FlowRT), Writes op g g₁ → g₁.flows = g.flows →
      FlowEdit g₁.gen f f₁ → ∃ g₂ f', Writes op g g₂ ∧ g₂.flows = g.flows ∧ FlowEdit g₂.gen f f' ∧
        stateAfter id (g₁.fileReserved fid f₁ id) =
          { g₂ with flows := g₂.flows.insert fid f' } := by
    intro g₁ f₁ hw hfl he
    obtain ⟨f₂, hstate, rfl | hset⟩ := fileReserved_cases id id (fun _ => rfl) g₁ fid f₁
    · exact ⟨g₁, f₂, hw, hfl, he, hstate⟩
    · exact ⟨g₁, f₂, hw, hfl, he.setState hset, hstate⟩
  unfold rollFlow
  dsimp only
  cases hp : (g.releaseOf f).paths.find? f.spec.path with
  | none => exact hclose _ _ hrel hflows hedit
  | some path =>
    have hp' : (g.releaseOf f).drawn.paths.find? f.spec.path = some path := hp
    rcases mintReservation_mints (rolledFlow f (g.releaseOf f).gen.next.1 worker boot).spec boot
      hp' (rollGrant (rolledFlow f (g.releaseOf f).gen.next.1 worker boot))
      with ⟨e, he⟩ | ⟨rsv, hok, hmint, ha⟩
    · dsimp only
      erw [he]
      refine ⟨_, _, hrel.trans (Write.writes (.draw _)), hflows, ?_, rfl⟩
      exact ⟨⟨_, _, rfl⟩, Or.inl rfl, id, Or.inr hdrew.drawn, fun _ => Or.inl⟩
    · dsimp only
      erw [hok]
      have hissue : (g.releaseOf f).drawn.Issues op rsv.attempt := Or.inr (Or.inr (ha ▸ hdrew))
      refine hclose _ _ (hrel.trans (Write.writes (.file rsv hmint hissue))) hflows ?_
      exact ⟨⟨_, _, rfl⟩, Or.inl rfl, fun hr => rollGrant_rated hr, Or.inr hdrew.drawn,
        fun rid hr => Or.inr (hmint.drew hr)⟩

/-- The roll loop reads the flows as they were before it, which it may: a turn only writes its own
    flow. -/
theorem foldlM_rollFlow_writes (worker : WorkerId) (boot : WorkerBootId) :
    ∀ (l : List (FlowId × FlowRT)) (g : Governor), (l.map Prod.fst).Nodup →
    (∀ e ∈ l, g.flows.find? e.1 = some e.2) → Writes op g (stateAfter id (l.foldlM
      (fun g e => if rolls worker e.2 then g.rollFlow worker boot e.1 e.2 else .ok g) g))
  | [], _, _, _ => .refl
  | e :: l, g, hnd, hfind => by
    rw [List.map_cons, List.nodup_cons] at hnd
    rw [List.forall_mem_cons] at hfind
    rw [List.foldlM_cons]
    by_cases hr : rolls worker e.2 = true
    · obtain ⟨g₁, f', hw, hfl, hedit, hstate⟩ := g.rollFlow_cases op worker boot e.1 e.2
      have hf₁ : g₁.flows.find? e.1 = some e.2 := hfl ▸ hfind.1
      simp only [hr, if_true]
      refine writes_bind (s := id) ?_ fun g' hg' => ?_
      · rw [hstate]
        exact hw.trans (writes_insertFlow g₁ hf₁ hedit)
      · rw [hg', stateAfter, id] at hstate
        refine foldlM_rollFlow_writes worker boot l g' hnd.2 fun e' he' => ?_
        have hne : e'.1 ≠ e.1 := fun h => hnd.1 (h ▸ List.mem_map_of_mem he')
        rw [hstate]
        exact (Table.find?_insert_ne hne).trans (hfl ▸ hfind.2 e' he')
    · rw [if_neg hr]
      exact foldlM_rollFlow_writes worker boot l g hnd.2 hfind.2

theorem enrol_writes (g : Governor) (reg : WorkerRegistration) :
    Writes (.registerWorker reg) g (g.enrol reg) := by
  have hinstall : ∀ (l : List ResourceSpec) (g : Governor), (∀ rs ∈ l, rs ∈ reg.inventory) →
      Writes (.registerWorker reg) g (l.foldl (fun g rs => g.installResource rs id) g) := by
    intro l
    induction l with
    | nil => exact fun g _ => .refl
    | cons rs l ih =>
      intro g hl
      rw [List.forall_mem_cons] at hl
      exact .trans (g.installResource_writes hl.1 fun r => ⟨rfl, rfl⟩) (ih _ hl.2)
  exact (hinstall reg.inventory g fun _ h => h).trans
    (Write.writes (.rest rfl rfl rfl rfl rfl fun _ => ⟨rfl, rfl⟩))

theorem registerWorker_writes (g : Governor) (reg : WorkerRegistration) :
    Writes (.registerWorker reg) g (stateAfter id (g.registerWorker reg)) := by
  unfold registerWorker
  dsimp only
  refine .trans (g.enrol_writes reg) ?_
  split
  · refine writes_bind (s := id) ?_ fun g' _ => g'.writes_recomputeGoverned
    exact foldlM_rollFlow_writes reg.worker reg.boot _ _ (g.enrol reg).flows.nodup
      fun e he => Table.find?_of_mem he
  · exact (g.enrol reg).writes_recomputeGoverned

theorem deregisterWorker_writes (g : Governor) (worker : WorkerId) :
    Writes op g (g.deregisterWorker worker) := by
  refine .trans (g.writes_mapFlows (F := fun _ f => if rolls worker f then
    { f with assignedWorker := none, lastError := ascii "worker lost" } else f) fun fid f => ?_)
    (Write.writes (.rest rfl rfl rfl rfl rfl fun _ => ⟨rfl, rfl⟩))
  split
  · exact ⟨⟨_, _, rfl⟩, Or.inl rfl, id, Or.inl rfl, fun _ => Or.inl⟩
  · exact .refl f

theorem releaseReservation_writes (g : Governor) (rid : ReservationId) :
    Writes op g (g.releaseReservation rid).1 := by
  unfold releaseReservation
  cases g.reservations.find? rid with
  | none => exact .refl
  | some rsv =>
    dsimp only
    split
    · exact .refl
    · exact .trans (Write.writes (.release g rid))
        ((writes_recomputeReserved _).trans (writes_recomputeSaturation _))

theorem reportProgress_writes (g : Governor) (fid : FlowId) (attempt : AttemptId)
    (fgen : FlowGeneration) (boot : WorkerBootId) (bytes : UInt64) :
    Writes op g (g.reportProgress fid attempt fgen boot bytes).1 := by
  unfold reportProgress
  cases hf : g.flows.find? fid with
  | none => exact .refl
  | some f =>
    dsimp only
    split
    · exact writes_insertFlow g hf ⟨⟨_, _, rfl⟩, Or.inl rfl, id, Or.inl rfl, fun _ => Or.inl⟩
    · exact .refl

theorem countCompletion_writes (g : Governor) (spec : FlowSpec) (hop : op.counts = true) :
    Writes op g (g.countCompletion spec) :=
  Write.writes (.rest rfl rfl rfl rfl rfl fun h => by rw [hop] at h; cases h)

theorem reportCompletion_writes (g : Governor) (fid : FlowId) (attempt : AttemptId)
    (fgen : FlowGeneration) (boot : WorkerBootId) (bytes : UInt64) :
    Writes (.reportCompletion fid attempt fgen boot bytes) g
      (stateAfter Prod.fst (g.reportCompletion fid attempt fgen boot bytes)) := by
  unfold reportCompletion
  cases hf : g.flows.find? fid with
  | none => exact .refl
  | some f =>
    dsimp only
    split
    · have hedit : FlowEdit g.gen f { f with bytesDone := max f.bytesDone bytes } :=
        ⟨⟨_, _, rfl⟩, Or.inl rfl, id, Or.inl rfl, fun _ => Or.inl⟩
      split
      · exact writes_insertFlow g hf hedit
      · rename_i f' hset
        have hedit' : FlowEdit g.gen f { f' with lastMs := g.now } :=
          let h := hedit.setState hset
          ⟨h.spec, h.state, h.rated, h.attempt, h.reservation⟩
        exact (writes_insertFlow g hf hedit').trans ((countCompletion_writes _ _ rfl).trans
          ((writes_releaseOf _ _).trans (writes_recomputeUsage _)))
    · exact .refl

end Governor

/-- From any state, an operation other than a restoration makes only the writes above. -/
theorem apply_writes (g : Governor) {op : Op} (hlive : (Event.call op).live = true) :
    Writes op g (g.apply op) := by
  cases op with
  | setAutoClock auto => exact Write.writes (.rest rfl rfl rfl rfl rfl fun _ => ⟨rfl, rfl⟩)
  | advanceMs dt => exact Write.writes (.rest rfl rfl rfl rfl rfl fun _ => ⟨rfl, rfl⟩)
  | addResource spec =>
    refine .trans ?_ (Governor.writes_recomputeGoverned _)
    exact g.installResource_writes (List.mem_singleton.mpr rfl) fun r => ⟨rfl, rfl⟩
  | updateCapacity res measured confidence provenance latency depth bump =>
    exact g.updateCapacity_writes res measured confidence provenance latency depth bump
  | setResourceEnabled res enabled => exact g.setResourceEnabled_writes res enabled
  | invalidateResourceCapacity res => exact g.invalidateResourceCapacity_writes res
  | addPath path => exact g.addPath_writes path
  | invalidatePath path => exact g.invalidatePath_writes path
  | submitFlow spec => exact g.submitFlow_writes spec
  | cancelFlow flow reason => exact g.cancelFlow_writes flow reason
  | resumeFlow flow => exact g.resumeFlow_writes flow
  | tick => exact g.tick_writes
  | releaseReservation rid => exact g.releaseReservation_writes rid
  | registerWorker reg => exact g.registerWorker_writes reg
  | deregisterWorker worker => exact g.deregisterWorker_writes worker
  | reportProgress flow attempt fgen boot bytes =>
    exact g.reportProgress_writes flow attempt fgen boot bytes
  | reportCompletion flow attempt fgen boot bytes =>
    exact g.reportCompletion_writes flow attempt fgen boot bytes
  | restore snap => cases hlive

/-! ### Runs -/

/-- An event other than a restoration writes, or changes the order of the tables. -/
theorem step_writes {g g' : Governor} {e : Event} (hs : g.Step e g') (hlive : e.live = true) :
    (∃ op, Writes op g g') ∨ g.Rehashed g' := by
  cases hs with
  | call op => exact Or.inl ⟨op, apply_writes g hlive⟩
  | clock t => exact Or.inl ⟨.tick, Write.writes (.rest rfl rfl rfl rfl rfl fun _ => ⟨rfl, rfl⟩)⟩
  | rehash hr => exact Or.inr hr

section Rules
variable {P : Governor → Prop} (hwrite : ∀ op g g', Write op g g' → P g → P g')
  (hrehash : ∀ g h, g.Rehashed h → P g → P h) {g g' : Governor} {es : List Event}
include hwrite hrehash

theorem step_keeps {e : Event} (hs : g.Step e g') (hlive : e.live = true) (h : P g) : P g' := by
  rcases step_writes hs hlive with ⟨op, hw⟩ | hr
  · exact hw.inv (hwrite op) h
  · exact hrehash g g' hr h

/-- What every write and every rehash keeps holds along every run without restorations. -/
theorem run_live (hrun : Lib.Run Governor.Step g es g') (hlive : ∀ e ∈ es, e.live = true)
    (h₀ : P g) : P g' :=
  hrun.inv_of (P := P) (Q := fun e => e.live = true)
    (fun _ _ _ hl h hs => step_keeps hwrite hrehash hs hl h) hlive h₀

/-- What restorations keep as well is kept by every event. -/
theorem step_writes_restore (hrestore : ∀ g snap, P g → P (g.restore snap)) {e : Event}
    (hs : g.Step e g') (h : P g) : P g' := by
  cases hlive : e.live with
  | true => exact step_keeps hwrite hrehash hs hlive h
  | false =>
    cases hs with
    | call op =>
      cases op with
      | restore snap => exact hrestore g snap h
      | _ => cases hlive
    | clock => cases hlive
    | rehash => cases hlive

end Rules

section Flows
variable {Q : FlowId → FlowRT → Prop}
  (hedit : ∀ gen fid f f', FlowEdit gen f f' → Q fid f → Q fid f')
  (hsubmit : ∀ f, validateFlowSpec f.spec = none → (∃ s, f.state = .named s) → f.Rated →
    Q f.spec.id f)
  (hrestore : ∀ fs : FlowSnapshot, Q fs.spec.id (Governor.restoreFlow fs))
include hedit hsubmit hrestore

/-- What submissions and restorations bring in and edits keep, every event keeps of every flow. -/
theorem flows_of_step {g g' : Governor} {e : Event} (hs : g.Step e g')
    (h : ∀ fid f, g.flows.find? fid = some f → Q fid f) :
    ∀ fid f, g'.flows.find? fid = some f → Q fid f := by
  refine step_writes_restore (P := fun g => ∀ fid f, g.flows.find? fid = some f → Q fid f)
    (fun op g g' hw h => ?_) (fun g h hr hk fid f hf => ?_) (fun g snap _ fid f hf => ?_) hs h
  · cases hw with
    | rest _ _ hfl =>
      intro fid f hf
      exact h fid f (hfl ▸ hf)
    | draw => exact h
    | resources => exact h
    | install => exact h
    | path => exact h
    | paths => exact h
    | file => exact h
    | submit spec f _ hv hspec hs hrated =>
      intro fid f' hf'
      rw [Table.find?_insert] at hf'
      split at hf'
      · rename_i he
        subst hspec
        rw [← Option.some.inj hf', he]
        exact hsubmit f hv hs hrated
      · exact h fid f' hf'
    | flows fs hfs =>
      intro fid f' hf'
      obtain ⟨f, hf, he⟩ := hfs fid f' hf'
      exact hedit g.gen fid f f' he (h fid f hf)
    | release rid =>
      intro fid f hf
      obtain ⟨rs, hrs⟩ := g.releaseReservationInternal_eq rid
      rw [hrs] at hf
      exact h fid f hf
  · exact hk fid f ((hr.flows.find? fid).trans hf)
  · obtain ⟨fs, -, hid, rfl⟩ := Table.ofList_find? hf
    exact hid ▸ hrestore fs

/-- And it holds of every flow in every state of every run. -/
theorem flows_of_run {g₀ g : Governor} {es : List Event} (hfresh : g₀.Fresh)
    (hrun : Lib.Run Governor.Step g₀ es g) : ∀ fid f, g.flows.find? fid = some f → Q fid f := by
  refine hrun.inv (P := fun g => ∀ fid f, g.flows.find? fid = some f → Q fid f)
    (fun _ _ _ h hs => flows_of_step hedit hsubmit hrestore hs h) fun fid f hf => ?_
  rw [← Governor.view_flows, hfresh.view.1] at hf
  cases hf

end Flows

theorem FlowEdit.keyed {gen : IdGen} {fid : FlowId} {f f' : FlowRT} (he : FlowEdit gen f f')
    (hf : f.spec.id = fid) :
    f'.spec.id = fid := by
  obtain ⟨attempt, gen, hspec⟩ := he.spec
  rw [hspec]
  exact hf

theorem flowsKeyed_of_step {g g' : Governor} {e : Event} (hs : g.Step e g') (h : g.FlowsKeyed) :
    g'.FlowsKeyed :=
  flows_of_step (fun _ fid _ f' he hf => show f'.spec.id = fid from he.keyed hf)
    (fun _ _ _ _ => rfl)
    (fun _ => rfl) hs h

theorem flowsRated_of_step {g g' : Governor} {e : Event} (hs : g.Step e g')
    (h : ∀ fid f, g.flows.find? fid = some f → f.Rated) :
    ∀ fid f, g'.flows.find? fid = some f → f.Rated :=
  flows_of_step (fun _ _ _ _ he hf => he.rated hf) (fun _ _ _ hr => hr)
    (fun fs => ⟨fs.granted.nonneg, fs.granted.le_max⟩) hs h

/-- In every state of every run, restorations included, flows are filed under their own ids. -/
theorem flowsKeyed_of_run {g₀ g : Governor} {es : List Event} (hfresh : g₀.Fresh)
    (hrun : Lib.Run Governor.Step g₀ es g) : g.FlowsKeyed :=
  flows_of_run (fun _ fid _ f' he hf => show f'.spec.id = fid from he.keyed hf) (fun _ _ _ _ => rfl)
    (fun _ => rfl) hfresh hrun

/-- In every state of every run, restorations included, grants are valid rates. -/
theorem flowsRated_of_run {g₀ g : Governor} {es : List Event} (hfresh : g₀.Fresh)
    (hrun : Lib.Run Governor.Step g₀ es g) :
    ∀ fid f, g.flows.find? fid = some f → f.Rated :=
  flows_of_run (fun _ _ _ _ he hf => he.rated hf) (fun _ _ _ hr => hr)
    (fun fs => ⟨fs.granted.nonneg, fs.granted.le_max⟩) hfresh hrun

/-! ### Registrations do not throw -/

namespace Governor

/-- The roll of a flow with a valid grant goes through and leaves the flow Reserved. -/
theorem rollFlow_rated {g : Governor} {worker : WorkerId} (boot : WorkerBootId) (fid : FlowId)
    {f : FlowRT} (hroll : rolls worker f = true) (hr : f.Rated) :
    ∃ g' f', g.rollFlow worker boot fid f = .ok g' ∧ g'.workers = g.workers ∧
      g'.flows = g.flows.insert fid f' ∧ f'.state = .named .reserved ∧
      f'.spec.generation = nextGeneration f.spec.generation := by
  obtain ⟨hrun, -⟩ := rolls_iff.mp hroll
  obtain ⟨rs, hrs⟩ := g.releaseOf_eq f
  cases hp : g.paths.find? f.spec.path with
  | none =>
    refine
      ⟨_, { rolledFlow f (g.releaseOf f).gen.next.1 worker boot with state := .named .reserved },
      rollFlow_stray worker boot fid hrun hp, ?_, ?_, rfl, rfl⟩
    all_goals rw [hrs]; rfl
  | some path =>
    have hc : ∃ c : Capacity, c.value = rollGrant f :=
      ⟨⟨rollGrant f, isValidRate_iff.mpr (rollGrant_rated hr)⟩, rfl⟩
    obtain ⟨c, hc⟩ := hc
    refine ⟨_, { rolledFlow f (g.releaseOf f).gen.next.1 worker boot with
      reservation := some (g.releaseOf f).drawn.gen.next.1, granted := c.value
      state := .named .reserved }, rollFlow_reminted worker boot fid hrun hp hc, ?_, ?_, rfl, rfl⟩
    all_goals rw [hrs]; rfl

/-- The roll loop rolls every flow it is to roll and no other. -/
theorem foldlM_rollFlow_rated (worker : WorkerId) (boot : WorkerBootId) :
    ∀ (l : List (FlowId × FlowRT)) (g : Governor), (∀ e ∈ l, e.2.Rated) →
      ∃ g', l.foldlM (fun g e => if rolls worker e.2 then g.rollFlow worker boot e.1 e.2 else .ok g)
        g = .ok g' ∧ g'.workers = g.workers ∧
        ∀ fid f', g'.flows.find? fid = some f' → f'.state = .named .reserved ∨
          g.flows.find? fid = some f' ∧ ∀ f, (fid, f) ∈ l → rolls worker f = false
  | [], g, _ => ⟨g, rfl, rfl, fun fid f' hf' => Or.inr ⟨hf', fun f hf => by cases hf⟩⟩
  | e :: l, g, h => by
    rw [List.forall_mem_cons] at h
    rw [List.foldlM_cons]
    by_cases hroll : rolls worker e.2 = true
    · obtain ⟨g₁, f₁, h₁, hw₁, hf₁, hs₁, -⟩ := rollFlow_rated (g := g) boot e.1 hroll h.1
      obtain ⟨g₂, h₂, hw₂, hf₂⟩ := foldlM_rollFlow_rated worker boot l g₁ h.2
      rw [if_pos hroll, h₁]
      refine ⟨g₂, h₂, hw₂.trans hw₁, fun fid f' hf' => ?_⟩
      rcases hf₂ fid f' hf' with hs | ⟨hkeep, hl⟩
      · exact Or.inl hs
      · rw [hf₁, Table.find?_insert] at hkeep
        split at hkeep
        · exact Or.inl (Option.some.inj hkeep ▸ hs₁)
        · rename_i hne
          refine Or.inr ⟨hkeep, fun f hf => ?_⟩
          rcases List.mem_cons.mp hf with he | hf
          · exact absurd (congrArg Prod.fst he) hne
          · exact hl f hf
    · rw [if_neg hroll]
      obtain ⟨g₂, h₂, hw₂, hf₂⟩ := foldlM_rollFlow_rated worker boot l g h.2
      refine ⟨g₂, h₂, hw₂, fun fid f' hf' => ?_⟩
      rcases hf₂ fid f' hf' with hs | ⟨hkeep, hl⟩
      · exact Or.inl hs
      · refine Or.inr ⟨hkeep, fun f hf => ?_⟩
        rcases List.mem_cons.mp hf with rfl | hf
        · simpa using hroll
        · exact hl f hf

/-- The spec as it is installed: a null generation is replaced by a fresh one. -/
def installedSpec (g : Governor) (spec : ResourceSpec) : ResourceSpec :=
  if spec.generation.isNull then { spec with generation := freshGeneration g.gen.next64.1 }
  else spec

theorem installResource_eq (g : Governor) (spec : ResourceSpec) (write : ResRT → ResRT) :
    g.installResource spec write = { (if spec.generation.isNull then g.drawn else g) with
      resources := g.resources.insert spec.id
        (write { (g.resources.find? spec.id).getD { spec := spec } with
          spec := g.installedSpec spec, measured := 0, lastMs := g.now }) } := by
  unfold installResource installedSpec
  by_cases h : spec.generation.isNull = true
  · simp only [h, if_true]
    rfl
  · simp only [h]
    rfl

/-- The inventory of a registration writes resources and draws identities. -/
theorem foldl_installResource_rest : ∀ (l : List ResourceSpec) (g : Governor), ∃ rs n,
    n ≤ l.length ∧ l.foldl (fun g rs => g.installResource rs id) g =
      { g with resources := rs, gen := { g.gen with calls := g.gen.calls + n } }
  | [], _ => ⟨_, 0, le_refl _, rfl⟩
  | spec :: l, g => by
    obtain ⟨rs, n, hn, h⟩ := foldl_installResource_rest l (g.installResource spec id)
    rw [List.foldl_cons, h, g.installResource_eq spec id]
    by_cases hnull : spec.generation.isNull = true
    · refine ⟨rs, n + 1, Nat.succ_le_succ hn, ?_⟩
      rw [if_pos hnull]
      simp [drawn, IdGen.drawn, add_comm, add_left_comm]
    · refine ⟨rs, n, hn.trans (Nat.le_succ _), ?_⟩
      rw [if_neg hnull]

theorem enrol_workers (g : Governor) (reg : WorkerRegistration) :
    (g.enrol reg).workers = g.workers.insert reg.worker reg.entry := by
  obtain ⟨rs, n, -, h⟩ := foldl_installResource_rest reg.inventory g
  rw [enrol, h]
  rfl

/-- Where grants are valid rates, a registration goes through: it enters its boot and, on a restart,
    leaves no flow Running on the worker. -/
theorem registerWorker_ok {g : Governor} (h : ∀ fid f, g.flows.find? fid = some f → f.Rated)
    (reg : WorkerRegistration) : ∃ g', g.registerWorker reg = .ok g' ∧
      g'.workers = (g.enrol reg).workers ∧
      ∀ fid f', g'.flows.find? fid = some f' → f'.state = .named .reserved ∨
        g.flows.find? fid = some f' ∧ (g.isRestart reg = true → rolls reg.worker f' = false) := by
  have hfl := g.enrol_flows reg
  have hrated : ∀ e ∈ (g.enrol reg).flows.entries, e.2.Rated := fun e he =>
    h e.1 e.2 (Table.find?_of_mem (hfl ▸ he))
  unfold registerWorker
  dsimp only
  split
  · obtain ⟨g₁, h₁, hw₁, hf₁⟩ := foldlM_rollFlow_rated reg.worker reg.boot
      (g.enrol reg).flows.entries (g.enrol reg) hrated
    refine ⟨g₁.recomputeGoverned, by rw [h₁]; rfl, hw₁, fun fid f' hf' => ?_⟩
    rcases hf₁ fid f' hf' with hs | ⟨hkeep, hl⟩
    · exact Or.inl hs
    · exact Or.inr ⟨hfl ▸ hkeep, fun _ => hl f' (Table.mem_of_find? hkeep)⟩
  · rename_i hre
    exact ⟨_, rfl, rfl, fun fid f' hf' => Or.inr ⟨hfl ▸ hf', fun h => absurd h hre⟩⟩

/-! ### Operations that leave the flows alone -/

theorem apply_flows (g : Governor) {op : Op} (h : op.writesFlows = false) :
    (g.apply op).flows = g.flows := by
  cases op with
  | setAutoClock auto => rfl
  | advanceMs dt => rfl
  | addResource spec =>
    change (g.installResource spec fun r => { r with confidence := 0 }).flows = _
    rw [g.installResource_eq]
    split <;> rfl
  | updateCapacity res measured confidence provenance latency depth bump =>
    change (stateAfter id (g.updateCapacity _ _ _ _ _ _ _)).flows = _
    unfold updateCapacity
    cases g.resources.find? res with
    | none => rfl
    | some r =>
      dsimp only
      split
      · rfl
      · cases bump <;> rfl
  | setResourceEnabled res enabled =>
    change (g.setResourceEnabled res enabled).flows = _
    unfold setResourceEnabled
    cases g.resources.find? res <;> rfl
  | invalidateResourceCapacity res =>
    change (g.invalidateResourceCapacity res).flows = _
    unfold invalidateResourceCapacity
    cases g.resources.find? res <;> rfl
  | addPath path =>
    change (stateAfter id (g.addPath path)).flows = _
    unfold addPath
    cases validatePath path <;> rfl
  | invalidatePath path => rfl
  | releaseReservation rid =>
    change (g.releaseReservation rid).1.flows = _
    unfold releaseReservation
    cases g.reservations.find? rid with
    | none => rfl
    | some rsv =>
      dsimp only
      split
      · rfl
      · obtain ⟨rs, h⟩ := g.releaseReservationInternal_eq rid
        rw [h]
        rfl
  | _ => cases h

end Governor

end BG
