import Mathlib
import BandwidthGovernor.Governor.Guarantees
import BandwidthGovernor.Governor.Writes

/-! The queue-admission step of `tick`, in closed form.

    The step writes no resource, so it tests every queued flow against the same figures: those that
    were stored before the tick. What it admits is the set of flows that pass the test alone. -/

namespace BG

open Lib

namespace Governor

/-! ### One flow -/

/-- The initial grant as a capacity. -/
def initialCapacity (spec : FlowSpec) (avail : ℚ) : Capacity :=
  ⟨initialGrant spec avail, isValidRate_iff.mpr (initialGrant_bounds spec avail)⟩

/-- The hops and the rate a queued flow is admitted over and at, when its minimum fits. -/
def admission (g : Governor) (spec : FlowSpec) : Option (List PathHop × Capacity) :=
  match g.paths.find? spec.path with
  | none => none
  | some path =>
    let scan := g.scanHops spec.requestedMin.value {} path.hops
    if !scan.feasible || decide (scan.bottleneckAvail < spec.requestedMin.value - kEps) then none
    else some (path.hops, initialCapacity spec scan.bottleneckAvail)

theorem scanHops_congr {g h : Governor} (hr : h.resources.find? = g.resources.find?) (m : ℚ) :
    ∀ (hops : List PathHop) (s : Scan), h.scanHops m s hops = g.scanHops m s hops
  | [], _ => rfl
  | hop :: hops, s => by
    unfold scanHops
    rw [hr]
    cases g.resources.find? hop.resource with
    | none => rfl
    | some r => exact scanHops_congr hr m hops _

theorem admission_congr {g h : Governor} (hr : h.resources.find? = g.resources.find?)
    (hp : h.paths.find? = g.paths.find?) (spec : FlowSpec) :
    h.admission spec = g.admission spec := by
  unfold admission
  rw [hp]
  cases g.paths.find? spec.path with
  | none => rfl
  | some path =>
    simp only [scanHops_congr hr]

/-- Admit a flow, or leave it in the queue. -/
def admitAs (g : Governor) (fid : FlowId) (f : FlowRT) :
    Option (List PathHop × Capacity) → Governor
  | none => g
  | some (hops, c) => g.dequeued fid f hops c

/-- `admit_queued` never throws. -/
theorem admitQueued_eq (g : Governor) (fid : FlowId) {f : FlowRT} (hq : f.state = .named .queued) :
    g.admitQueued fid f = .ok (g.admitAs fid f (g.admission f.spec)) := by
  unfold admitQueued admission
  cases g.paths.find? f.spec.path with
  | none => rfl
  | some path =>
    dsimp only
    generalize g.scanHops f.spec.requestedMin.value {} path.hops = scan
    split
    · rfl
    · have hmint : g.mintReservation f.spec .null path.hops
          (initialGrant f.spec scan.bottleneckAvail) = _ :=
        g.mintReservation_ok f.spec .null path.hops (initialCapacity f.spec scan.bottleneckAvail)
      have hset : ∀ f' : FlowRT, f'.state = .named .queued →
          setFlowState f' .reserved = .ok { f' with state := .named .reserved } := fun f' h =>
        setFlowState_ok h (Or.inr (by decide))
      rw [hmint]
      dsimp only [bind, Except.bind]
      rw [hset]
      · rfl
      · exact hq

/-! ### The whole queue -/

/-- The queued flows, in table order. -/
def queue (g : Governor) : List (FlowId × FlowRT) :=
  g.flows.entries.filter fun e => decide (e.2.state = .named .queued)

/-- The state after the queue has been worked off: each flow is tested against the figures of
    `g`. -/
def drained (g : Governor) : Governor :=
  g.queue.foldl (fun h e => h.admitAs e.1 e.2 (g.admission e.2.spec)) g

/-- An admission writes flows, reservations and the generator. -/
theorem admitAs_rest (g : Governor) (fid : FlowId) (f : FlowRT)
    (o : Option (List PathHop × Capacity)) : ∃ fs rs gen,
      g.admitAs fid f o = { g with flows := fs, reservations := rs, gen := gen } := by
  cases o with
  | none => exact ⟨_, _, _, rfl⟩
  | some x => exact ⟨_, _, _, rfl⟩

theorem admitAs_other (g : Governor) {fid x : FlowId} (f : FlowRT)
    (o : Option (List PathHop × Capacity)) (hx : x ≠ fid) :
    (g.admitAs fid f o).flows.find? x = g.flows.find? x := by
  cases o with
  | none => rfl
  | some y => exact Table.find?_insert_ne hx

theorem foldl_admitAs_rest (G : Governor) : ∀ (l : List (FlowId × FlowRT)) (g : Governor),
    ∃ fs rs gen, l.foldl (fun h e => h.admitAs e.1 e.2 (G.admission e.2.spec)) g =
      { g with flows := fs, reservations := rs, gen := gen }
  | [], g => ⟨_, _, _, rfl⟩
  | e :: l, g => by
    obtain ⟨fs, rs, gen, h⟩ := g.admitAs_rest e.1 e.2 (G.admission e.2.spec)
    obtain ⟨fs', rs', gen', h'⟩ := foldl_admitAs_rest G l (g.admitAs e.1 e.2 (G.admission e.2.spec))
    exact ⟨fs', rs', gen', by rw [List.foldl_cons, h', h]⟩

theorem drained_rest (g : Governor) : ∃ fs rs gen,
    g.drained = { g with flows := fs, reservations := rs, gen := gen } :=
  foldl_admitAs_rest g g.queue g

theorem queue_spec {g : Governor} {e : FlowId × FlowRT} (h : e ∈ g.queue) :
    g.flows.find? e.1 = some e.2 ∧ e.2.state = .named .queued := by
  obtain ⟨hmem, hs⟩ := List.mem_filter.mp h
  exact ⟨Table.find?_of_mem hmem, by simpa using hs⟩

theorem queue_nodup (g : Governor) : (g.queue.map Prod.fst).Nodup :=
  g.flows.nodup.sublist (List.filter_sublist.map Prod.fst)

/-- The drain loop, whatever state it has reached. -/
theorem foldlM_admitQueued (G : Governor) : ∀ (l : List (FlowId × FlowRT)) (g : Governor),
    g.resources = G.resources → g.paths = G.paths → (l.map Prod.fst).Nodup →
    (∀ e ∈ l, g.flows.find? e.1 = some e.2 ∧ e.2.state = .named .queued) →
    (l.map Prod.fst).foldlM (fun g fid =>
      match g.flows.find? fid with
      | none => .ok g
      | some f => if f.state ≠ .named .queued then .ok g else g.admitQueued fid f) g =
      (.ok
        (l.foldl (fun h e => h.admitAs e.1 e.2 (G.admission e.2.spec)) g) : Except Fault Governor)
  | [], _, _, _, _, _ => rfl
  | e :: l, g, hr, hp, hnd, hl => by
    rw [List.map_cons, List.nodup_cons] at hnd
    rw [List.forall_mem_cons] at hl
    obtain ⟨⟨hf, hq⟩, hl⟩ := hl
    have hadm : g.admission e.2.spec = G.admission e.2.spec :=
      admission_congr (by rw [hr]) (by rw [hp]) _
    rw [List.map_cons, List.foldlM_cons, hf]
    dsimp only
    rw [if_neg (not_not_intro hq), admitQueued_eq g e.1 hq, hadm]
    obtain ⟨fs, rs, gen, hrest⟩ := g.admitAs_rest e.1 e.2 (G.admission e.2.spec)
    refine foldlM_admitQueued G l _ (by rw [hrest]; exact hr) (by rw [hrest]; exact hp) hnd.2
      fun e' he' => ⟨?_, (hl e' he').2⟩
    have hne : e'.1 ≠ e.1 := fun h => hnd.1 (h ▸ List.mem_map_of_mem he')
    exact (g.admitAs_other e.2 _ hne).trans (hl e' he').1

/-- The queue-admission step never throws. -/
theorem drainQueue_eq (g : Governor) : g.drainQueue = .ok g.drained :=
  foldlM_admitQueued g g.queue g rfl rfl g.queue_nodup fun _ he => queue_spec he

/-! ### The flows afterwards -/

/-- A queued flow after the step, under the reservation it got if it was admitted. -/
def served (g : Governor) (rid : ReservationId) (f : FlowRT) : FlowRT :=
  if f.state = .named .queued then
    match g.admission f.spec with
    | none => f
    | some (_, c) => { f with
        reservation := some rid, granted := c.value, admittedMs := g.now
        state := .named .reserved }
  else f

theorem foldl_admitAs_flows (G : Governor) : ∀ (l : List (FlowId × FlowRT)) (g : Governor),
    g.now = G.now → (l.map Prod.fst).Nodup →
    (∀ e ∈ l, g.flows.find? e.1 = some e.2 ∧ e.2.state = .named .queued) → ∀ fid,
    (fid ∉ l.map Prod.fst → (l.foldl (fun h e => h.admitAs e.1 e.2 (G.admission e.2.spec))
      g).flows.find? fid = g.flows.find? fid) ∧
    ∀ f, (fid, f) ∈ l → ∃ rid, (l.foldl (fun h e => h.admitAs e.1 e.2 (G.admission e.2.spec))
      g).flows.find? fid = some (G.served rid f)
  | [], _, _, _, _, _ => ⟨fun _ => rfl, fun _ h => by cases h⟩
  | e :: l, g, hnow, hnd, hl, fid => by
    rw [List.map_cons, List.nodup_cons] at hnd
    rw [List.forall_mem_cons] at hl
    obtain ⟨⟨hf, hq⟩, hl⟩ := hl
    obtain ⟨fs, rs, gen, hrest⟩ := g.admitAs_rest e.1 e.2 (G.admission e.2.spec)
    obtain ⟨hout, hin⟩ := foldl_admitAs_flows G l (g.admitAs e.1 e.2 (G.admission e.2.spec))
      (by rw [hrest]; exact hnow) hnd.2 (fun e' he' => ⟨by
        have hne : e'.1 ≠ e.1 := fun h => hnd.1 (h ▸ List.mem_map_of_mem he')
        exact (g.admitAs_other e.2 _ hne).trans (hl e' he').1, (hl e' he').2⟩) fid
    rw [List.foldl_cons]
    refine ⟨fun hni => ?_, fun f hmem => ?_⟩
    · rw [List.map_cons, List.mem_cons, not_or] at hni
      exact (hout hni.2).trans (g.admitAs_other e.2 _ hni.1)
    · rcases List.mem_cons.mp hmem with he | hmem
      · obtain ⟨rfl, rfl⟩ := Prod.mk.inj he
        rw [hout hnd.1]
        simp only [served, if_pos hq]
        cases G.admission e.2.spec with
        | none => exact ⟨.null, hf⟩
        | some x =>
          refine ⟨g.gen.next.1, (Table.find?_insert_self _ _ _).trans ?_⟩
          rw [← hnow]
          rfl
      · exact hin f hmem

/-- Every flow after the step. -/
theorem drained_flows (g : Governor) : ∃ rid : FlowId → ReservationId, ∀ fid,
    g.drained.flows.find? fid = (g.flows.find? fid).map (g.served (rid fid)) := by
  have hone : ∀ fid, ∃ rid, g.drained.flows.find? fid = (g.flows.find? fid).map (g.served rid) := by
    intro fid
    obtain ⟨hout, hin⟩ := foldl_admitAs_flows g g.queue g rfl g.queue_nodup
      (fun _ he => queue_spec he) fid
    cases hf : g.flows.find? fid with
    | none =>
      refine ⟨.null, (hout fun hmem => ?_).trans hf⟩
      obtain ⟨e, he, rfl⟩ := List.mem_map.mp hmem
      rw [(queue_spec he).1] at hf
      cases hf
    | some f =>
      by_cases hq : f.state = .named .queued
      · exact hin f (List.mem_filter.mpr ⟨Table.mem_of_find? hf, by simpa using hq⟩)
      · refine ⟨.null, (hout fun hmem => ?_).trans ?_⟩
        · obtain ⟨e, he, rfl⟩ := List.mem_map.mp hmem
          obtain ⟨hfe, hqe⟩ := queue_spec he
          rw [hfe, Option.some.injEq] at hf
          exact hq (hf ▸ hqe)
        · rw [hf, Option.map_some, served, if_neg hq]
  exact ⟨fun fid => (hone fid).choose, fun fid => (hone fid).choose_spec⟩

/-! ### Minimum guarantees -/

/-- Whether a flow waits in the queue and passes the hop scan alone. -/
def isCandidate (g : Governor) (f : FlowRT) : Bool :=
  decide (f.state = .named .queued) && (g.admission f.spec).isSome

/-- The minima of the candidates that cross a resource. -/
def candidateMinimaOn (g : Governor) (rid : ResourceId) : ℚ :=
  g.flows.sum fun _ f => if g.isCandidate f && g.crosses rid f then f.spec.requestedMin.value else 0

def candidates (g : Governor) : ℕ := g.flows.sum fun _ f => if g.isCandidate f then 1 else 0

/-- How many of the queued flows of `g` are Reserved in `g'`. -/
def admittedIn (g g' : Governor) : ℕ :=
  g.flows.sum fun fid f => if f.state = .named .queued ∧
    (g'.flows.find? fid).map FlowRT.state = some (.named .reserved) then 1 else 0

theorem served_spec (g : Governor) (rid : ReservationId) (f : FlowRT) :
    (g.served rid f).spec = f.spec := by
  unfold served
  split
  · cases g.admission f.spec <;> rfl
  · rfl

/-- A served flow is scheduled if it was, or if it was a candidate. -/
theorem isScheduled_served (g : Governor) (rid : ReservationId) (f : FlowRT) :
    isScheduled (g.served rid f).state = (isScheduled f.state || g.isCandidate f) := by
  unfold served isCandidate
  split
  · rename_i hq
    cases g.admission f.spec with
    | none => simp
    | some x => simp [hq, isScheduled]
  · rename_i hq
    simp [hq]

theorem drained_same {g : Governor} {rid : FlowId → ReservationId}
    (h : ∀ fid, g.drained.flows.find? fid = (g.flows.find? fid).map (g.served (rid fid))) :
    g.drained.flows.Same (g.flows.mapVals fun fid f => g.served (rid fid) f) :=
  Table.same_of_find? fun fid => by
    rw [Table.find?_mapVals]
    exact h fid

/-- The step adds the minima of the candidates, all of them. -/
theorem minimaOn_drained (g : Governor) (rid : ResourceId) :
    g.drained.minimaOn rid = g.minimaOn rid + g.candidateMinimaOn rid := by
  obtain ⟨ids, hfl⟩ := g.drained_flows
  obtain ⟨fs, rs, gen, hrest⟩ := g.drained_rest
  have hpaths : g.drained.paths.find? = g.paths.find? := by rw [hrest]
  rw [minimaOn, (drained_same hfl).sum, Table.sum_mapVals, minimaOn, candidateMinimaOn,
    ← Table.sum_add]
  refine Table.sum_congr fun fid f _ => ?_
  have hspec := g.served_spec (ids fid) f
  rw [isScheduled_served, crosses_congr hpaths (congrArg FlowSpec.path hspec), hspec]
  cases hs : isScheduled f.state with
  | false => simp
  | true =>
    have hc : g.isCandidate f = false := by
      rcases isScheduled_cases hs with h | h | h <;> simp [isCandidate, h]
    simp [hc]

theorem admittedIn_drained (g : Governor) : g.admittedIn g.drained = g.candidates := by
  obtain ⟨ids, hfl⟩ := g.drained_flows
  refine Table.sum_congr fun fid f hf => ?_
  rw [hfl, Table.find?_of_mem hf, Option.map_some, Option.map_some]
  unfold served isCandidate
  by_cases hq : f.state = .named .queued
  · cases g.admission f.spec with
    | none => simp [hq]
    | some x => simp [hq]
  · simp [hq]

/-! ### The step within a tick -/

/-- The state the queue is worked off from. -/
def aged (g : Governor) : Governor := g.advanceTenantStarvation g.now

/-- Ageing changes neither spec nor state of a flow, and no other table. -/
theorem aged_eq (g : Governor) : ∃ age : FlowRT → FlowRT,
    (∀ f, (age f).spec = f.spec ∧ (age f).state = f.state) ∧
      g.aged = { g with flows := g.flows.mapVals fun _ f => age f } := by
  refine ⟨_, fun f => ?_, rfl⟩
  dsimp only
  split
  · exact ⟨rfl, rfl⟩
  · exact ⟨rfl, rfl⟩

theorem prepareTick_eq (g : Governor) :
    g.prepareTick = .ok g.aged.drained.recomputeGoverned.recomputeReserved := by
  rw [prepareTick, show g.advanceTenantStarvation g.now = g.aged from rfl, drainQueue_eq]
  rfl

theorem sum_aged {M : Type} [AddCommMonoid M] {g : Governor} {F : FlowId → FlowRT → M}
    (hF : ∀ fid f f', f'.spec = f.spec → f'.state = f.state → F fid f' = F fid f) :
    g.aged.flows.sum F = g.flows.sum F := by
  obtain ⟨age, hage, haged⟩ := g.aged_eq
  rw [haged]
  exact (Table.sum_mapVals _ _ _).trans
    (Table.sum_congr fun fid f _ => hF fid f (age f) (hage f).1 (hage f).2)

/-- Ageing does not change who is a candidate. -/
theorem isCandidate_aged (g : Governor) {f f' : FlowRT} (hspec : f'.spec = f.spec)
    (hs : f'.state = f.state) : g.aged.isCandidate f' = g.isCandidate f := by
  obtain ⟨age, -, haged⟩ := g.aged_eq
  rw [isCandidate, isCandidate, hs, hspec,
    admission_congr (h := g.aged) (g := g) (by rw [haged]) (by rw [haged])]

theorem aged_paths (g : Governor) : g.aged.paths.find? = g.paths.find? := rfl

theorem minimaOn_aged (g : Governor) (rid : ResourceId) : g.aged.minimaOn rid = g.minimaOn rid := by
  refine (sum_aged fun fid f f' hspec hs => ?_).trans (Table.sum_congr fun fid f _ => ?_)
  · rw [hspec, hs, crosses_congr rfl (congrArg FlowSpec.path hspec)]
  · rw [crosses_congr (g := g) g.aged_paths rfl]

theorem candidateMinimaOn_aged (g : Governor) (rid : ResourceId) :
    g.aged.candidateMinimaOn rid = g.candidateMinimaOn rid := by
  refine (sum_aged fun fid f f' hspec hs => ?_).trans (Table.sum_congr fun fid f _ => ?_)
  · rw [isCandidate_aged g hspec hs, isCandidate_aged g rfl rfl, hspec,
      crosses_congr rfl (congrArg FlowSpec.path hspec)]
  · rw [isCandidate_aged g rfl rfl, crosses_congr (g := g) g.aged_paths rfl]

theorem candidates_aged (g : Governor) : g.aged.candidates = g.candidates := by
  refine (sum_aged fun fid f f' hspec hs => ?_).trans (Table.sum_congr fun fid f _ => ?_)
  · rw [isCandidate_aged g hspec hs, isCandidate_aged g rfl rfl]
  · rw [isCandidate_aged g rfl rfl]

theorem admittedIn_aged (g h : Governor) : g.aged.admittedIn h = g.admittedIn h :=
  sum_aged fun fid f f' _ hs => by rw [hs]

/-- The resources as a tick arbitrates them. -/
theorem prepared_find? (g : Governor) (rid : ResourceId) :
    g.aged.drained.recomputeGoverned.recomputeReserved.resources.find? rid =
      (g.resources.find? rid).map fun r => { r with
        governed := g.governedNow r, reserved := g.aged.drained.reservedOn rid } := by
  obtain ⟨fs, rs, gen, hrest⟩ := g.aged.drained_rest
  have hres : g.aged.drained.resources = g.resources := by rw [hrest]; rfl
  have hgov : ∀ r, g.aged.drained.governedNow r = g.governedNow r := fun r => by rw [hrest]; rfl
  have hreserved : g.aged.drained.recomputeGoverned.reservedOn rid =
      g.aged.drained.reservedOn rid := rfl
  rw [recomputeReserved_find?, recomputeGoverned_find?, hres, Option.map_map, hreserved]
  simp only [Function.comp_def, hgov]

end Governor

/-- A tick that finds the minima of the scheduled flows within the capacity it governs leaves them
    so, up to one tolerance for each flow it admits, exactly when the minima of the queued flows
    that pass the hop scan, each alone, fit what is left of it together. -/
theorem queue_admission_fits_iff (g : Governor) : ∃ g₁, g.prepareTick = .ok g₁ ∧
    (((∀ rid r, g₁.resources.find? rid = some r → g.minimaOn rid ≤ r.governed) →
        ∀ rid r, g₁.resources.find? rid = some r →
          g₁.minimaOn rid ≤ r.governed + g.admittedIn g₁ * kEps) ↔
      ((∀ rid r, g.resources.find? rid = some r → g.minimaOn rid ≤ g.governedNow r) →
        ∀ rid r, g.resources.find? rid = some r →
          g.candidateMinimaOn rid ≤ g.governedNow r - g.minimaOn rid + g.candidates * kEps)) := by
  refine ⟨_, g.prepareTick_eq, ?_⟩
  have hfind : ∀ {P : ResourceId → ℚ → Prop},
      (∀ rid r, g.aged.drained.recomputeGoverned.recomputeReserved.resources.find? rid = some r →
        P rid r.governed) ↔ ∀ rid r, g.resources.find? rid = some r → P rid (g.governedNow r) := by
    intro P
    refine ⟨fun h rid r hr => ?_, fun h rid r hr => ?_⟩
    · exact h rid _ (by rw [Governor.prepared_find?, hr]; rfl)
    · rw [Governor.prepared_find?] at hr
      obtain ⟨r₀, hr₀, rfl⟩ := Option.map_eq_some_iff.mp hr
      exact h rid r₀ hr₀
  have hmin : ∀ rid, g.aged.drained.recomputeGoverned.recomputeReserved.minimaOn rid =
      g.minimaOn rid + g.candidateMinimaOn rid := fun rid => by
    refine (g.aged.minimaOn_drained rid).trans ?_
    rw [Governor.minimaOn_aged, Governor.candidateMinimaOn_aged]
  have hcount : g.admittedIn g.aged.drained.recomputeGoverned.recomputeReserved = g.candidates := by
    rw [← Governor.candidates_aged, ← Governor.admittedIn_drained, Governor.admittedIn_aged]
    rfl
  rw [hfind (P := fun rid c => g.minimaOn rid ≤ c), hcount,
    hfind (P := fun rid c => g.aged.drained.recomputeGoverned.recomputeReserved.minimaOn rid ≤
      c + g.candidates * kEps)]
  simp only [hmin]
  refine imp_congr_right fun _ => forall_congr' fun rid => forall_congr' fun r =>
    imp_congr_right fun _ => ?_
  constructor
  · intro h
    linarith
  · intro h
    linarith

namespace Sample

/-- Two flows of minimum 60 are queued before their link of rate 100 is registered. -/
def lateLink : List Op :=
  [.addPath (path 1 [1]), .submitFlow (flow 1 1 60 60 60), .submitFlow (flow 2 1 60 60 60),
   .addResource (link 1 100)]

end Sample

/-- The state the tick then arbitrates over. -/
def Sample.latePrepared : Governor :=
  (start.after lateLink).aged.drained.recomputeGoverned.recomputeReserved

/-- Both flows are admitted by one tick, and their minima exceed the link. -/
theorem queue_admission_overcommits : ∃ es g g₁ r, Reaches es g ∧ g.prepareTick = .ok g₁ ∧
    (∀ rid r, g₁.resources.find? rid = some r → g.minimaOn rid ≤ r.governed) ∧
    g₁.resources.find? ⟨0, 1⟩ = some r ∧
    r.governed + g.admittedIn g₁ * kEps < g₁.minimaOn ⟨0, 1⟩ := by
  have hreach := Sample.reaches (by decide +kernel : (Sample.lateLink.all fun op =>
    (Event.call op).live) = true)
  have hbefore : (Sample.latePrepared.resources.entries.all fun e =>
      decide ((Sample.start.after Sample.lateLink).minimaOn e.1 ≤ e.2.governed)) = true := by
    decide +kernel
  have hafter : (Sample.latePrepared.resources.find? ⟨0, 1⟩).map (fun r => decide (r.governed +
      (Sample.start.after Sample.lateLink).admittedIn Sample.latePrepared * kEps <
        Sample.latePrepared.minimaOn ⟨0, 1⟩)) = some true := by
    decide +kernel
  obtain ⟨r, hr, hlt⟩ := Option.map_eq_some_iff.mp hafter
  refine
    ⟨_, _, _, r, hreach, Governor.prepareTick_eq _, fun rid r hr => ?_, hr, of_decide_eq_true hlt⟩
  exact of_decide_eq_true (List.all_eq_true.mp hbefore (rid, r) (Table.mem_of_find? hr))

end BG
