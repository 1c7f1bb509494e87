import Mathlib
import BandwidthGovernor.Governor.Pace
import BandwidthGovernor.Transport.Server

/-! What the worker processes are held to: the rate each process paces a flow at, against the rate
    the governor grants it.

    The send loop writes to the processes of Running flows only. It brings those up to date and
    leaves every other rate as it was sent last, so a pass ends well exactly when no other flow is
    held above its due. Which events spoil that is `keepsPace`: ticks that throttle or preempt a
    paced flow, its cancellation or completion, and processes that bring jobs along. -/

namespace BG

open Lib

/-! ### Flow snapshots -/

/-- The snapshot of a flow whose grant is a valid rate. -/
def flowSnap (f : FlowRT) : FlowSnapshot :=
  { spec := f.spec, state := f.state, granted := .setValue f.granted, admittedMs := f.admittedMs
    lastUpdateMs := f.lastMs, bytesTransferred := f.bytesDone, burstRemaining := f.burstRemaining
    retryCount := f.retries, starvationMs := f.starvationMs, reservation := f.reservation
    assignedWorker := f.assignedWorker, assignedBoot := f.assignedBoot, lastError := f.lastError }

theorem flowSnap_granted {f : FlowRT} (h : f.Rated) : (flowSnap f).granted.value = f.granted := by
  simp [flowSnap, Capacity.setValue, isValidRate_iff, h.1, h.2]

theorem toFlowSnap_ok {f : FlowRT} (h : f.Rated) : toFlowSnap f = .ok (flowSnap f) := by
  have hset : Capacity.setValue f.granted = ⟨f.granted, isValidRate_iff.mpr h⟩ := by
    simp [Capacity.setValue, isValidRate_iff, h.1, h.2]
  unfold toFlowSnap
  rw [max_eq_right h.1, Capacity.make_of_mem h.1 h.2, flowSnap, hset]
  rfl

theorem mapM_ok {α β ε : Type} {f : α → Except ε β} {h : α → β} :
    ∀ {l : List α}, (∀ a ∈ l, f a = .ok (h a)) → l.mapM f = .ok (l.map h)
  | [], _ => rfl
  | a :: l, hl => by
    rw [List.forall_mem_cons] at hl
    rw [List.mapM_cons, hl.1, mapM_ok hl.2]
    rfl

/-- With valid grants, `list_flows` lists the snapshots of all flows. -/
theorem listFlows_ok {g : Governor} (h : ∀ fid f, g.flows.find? fid = some f → f.Rated) :
    ∃ l, g.listFlows = .ok l ∧ l.Perm (g.flows.vals.map flowSnap) := by
  have hsnaps : g.flowSnaps = .ok (g.flows.vals.map flowSnap) := mapM_ok fun f hf => by
    obtain ⟨e, he, rfl⟩ := List.mem_map.mp hf
    exact toFlowSnap_ok (h e.1 e.2 (Table.find?_of_mem he))
  refine ⟨sortById (fun f => f.spec.id) (g.flows.vals.map flowSnap), ?_,
    List.perm_insertionSort _ _⟩
  rw [Governor.listFlows, hsnaps]
  rfl

/-- A governor's flows have distinct ids, so their snapshots do. -/
theorem snaps_nodup {g : Governor} (hk : g.FlowsKeyed) :
    ((g.flows.vals.map flowSnap).map fun f => f.spec.id).Nodup := by
  have hids : (g.flows.vals.map flowSnap).map (fun f => f.spec.id) =
      g.flows.entries.map Prod.fst := by
    rw [List.map_map, Table.vals, List.map_map]
    exact List.map_congr_left fun e he => hk e.1 e.2 (Table.find?_of_mem he)
  exact hids ▸ g.flows.nodup

/-! ### Frames and rates -/

namespace Process

theorem receive_dispatch (p : Process) (d : Dispatch) (fid : FlowId) :
    (p.receive (.flowDispatch d)).held fid =
      if fid = d.flow.id then some d.grant.value else p.held fid := by
  simp only [held, receive, Table.find?_insert]
  split <;> rfl

theorem receive_grant (p : Process) (g : Grant) (fid : FlowId) :
    (p.receive (.flowGrant g)).held fid =
      if fid = g.flow then (p.held fid).map fun _ => g.grant.value else p.held fid := by
  simp only [held, receive, Table.find?_insert]
  split
  · cases p.jobs.find? fid <;> rfl
  · rfl

end Process

namespace Server
variable {s : Server}

theorem sendFlow_gov (s : Server) (f : FlowSnapshot) :
    (s.sendFlow f).gov = s.gov ∧ (s.sendFlow f).workers = s.workers := by
  unfold sendFlow
  cases s.routeOf f with
  | none => exact ⟨rfl, rfl⟩
  | some r =>
    dsimp only
    split <;> exact ⟨rfl, rfl⟩

theorem routeOf_congr {s s' : Server} (hg : s'.gov = s.gov) (hw : s'.workers = s.workers)
    (f : FlowSnapshot) : s'.routeOf f = s.routeOf f := by
  simp only [routeOf, hg, hw]

/-- The rate a process paces a flow at. -/
def rate (s : Server) (c : ConnId) (fid : FlowId) : Option ℚ := (s.procs c).held fid

theorem rate_sendFrame (s : Server) (c c' : ConnId) (frame : Frame) (fid : FlowId) :
    (s.sendFrame c frame).rate c' fid =
      if c' = c then ((s.procs c).receive frame).held fid else s.rate c' fid := by
  simp only [rate, sendFrame, Function.update_apply]
  split <;> rfl

/-- A flow's frame is about no other flow and goes to no other process. -/
theorem rate_sendFlow_other (f : FlowSnapshot) {c : ConnId} {fid : FlowId}
    (h : fid = f.spec.id → ∀ rid, s.routeOf f ≠ some (c, rid)) :
    (s.sendFlow f).rate c fid = s.rate c fid := by
  unfold sendFlow
  cases hr : s.routeOf f with
  | none => rfl
  | some r =>
    obtain ⟨c', rid⟩ := r
    have hne : fid = f.spec.id → c ≠ c' := fun he hc => h he rid (hc ▸ hr)
    dsimp only
    split
    · rw [rate_sendFrame, Process.receive_grant]
      split
      · rename_i hc
        subst hc
        exact if_neg fun he => hne he rfl
      · rfl
    · refine (rate_sendFrame s c' c (.flowDispatch (dispatchOf f rid)) fid).trans ?_
      rw [Process.receive_dispatch]
      split
      · rename_i hc
        subst hc
        exact if_neg fun he => hne he rfl
      · rfl

/-- A routed flow is paced at its grant, if at all; it is if it was before. -/
theorem rate_sendFlow_routed {f : FlowSnapshot} {c : ConnId} {rid : ReservationId}
    (h : s.routeOf f = some (c, rid)) :
    (s.sendFlow f).rate c f.spec.id = some f.granted.value ∨
      (s.sendFlow f).rate c f.spec.id = none ∧ s.rate c f.spec.id = none := by
  unfold sendFlow
  rw [h]
  dsimp only
  split
  · rw [rate_sendFrame, if_pos rfl, Process.receive_grant,
      if_pos (show f.spec.id = (grantOf f).flow from rfl)]
    cases hh : (s.procs c).held f.spec.id with
    | none => exact Or.inr ⟨rfl, hh⟩
    | some ρ => exact Or.inl rfl
  · refine Or.inl ((rate_sendFrame s c c (.flowDispatch (dispatchOf f rid)) f.spec.id).trans ?_)
    rw [if_pos rfl, Process.receive_dispatch]
    exact if_pos rfl

/-! ### The send loop -/

theorem foldl_sendFlow_gov : ∀ (l : List FlowSnapshot) (s : Server),
    (l.foldl sendFlow s).gov = s.gov ∧ (l.foldl sendFlow s).workers = s.workers
  | [], _ => ⟨rfl, rfl⟩
  | f :: l, s => by
    obtain ⟨hg, hw⟩ := s.sendFlow_gov f
    obtain ⟨hg', hw'⟩ := foldl_sendFlow_gov l (s.sendFlow f)
    exact ⟨hg'.trans hg, hw'.trans hw⟩

/-- Without a route to the process, the loop leaves its rate for the flow alone. -/
theorem rate_foldl_other {c : ConnId} {fid : FlowId} : ∀ (l : List FlowSnapshot) (s : Server),
    (∀ f ∈ l, fid = f.spec.id → ∀ rid, s.routeOf f ≠ some (c, rid)) →
      (l.foldl sendFlow s).rate c fid = s.rate c fid
  | [], _, _ => rfl
  | f :: l, s, h => by
    rw [List.forall_mem_cons] at h
    obtain ⟨hg, hw⟩ := s.sendFlow_gov f
    have hrest := rate_foldl_other l (s.sendFlow f) fun f' hf' he rid => by
      rw [routeOf_congr hg hw]
      exact h.2 f' hf' he rid
    exact hrest.trans (rate_sendFlow_other f h.1)

/-- With one, the process ends up at the flow's grant. -/
theorem rate_foldl_routed {f : FlowSnapshot} {c : ConnId} {rid : ReservationId}
    (l : List FlowSnapshot) (s : Server) (hnd : (l.map fun f => f.spec.id).Nodup) (hmem : f ∈ l)
    (hr : s.routeOf f = some (c, rid)) :
    (l.foldl sendFlow s).rate c f.spec.id = some f.granted.value ∨
      (l.foldl sendFlow s).rate c f.spec.id = none ∧ s.rate c f.spec.id = none := by
  induction l generalizing s with
  | nil => cases hmem
  | cons f' l ih =>
    rw [List.map_cons, List.nodup_cons] at hnd
    obtain ⟨hg, hw⟩ := s.sendFlow_gov f'
    rw [List.foldl_cons]
    rcases List.mem_cons.mp hmem with rfl | hl
    · have hlast : (l.foldl sendFlow (s.sendFlow f)).rate c f.spec.id =
          (s.sendFlow f).rate c f.spec.id := by
        refine rate_foldl_other l _ fun x hx he => absurd ?_ hnd.1
        exact List.mem_map.mpr ⟨x, hx, he.symm⟩
      rw [hlast]
      exact rate_sendFlow_routed hr
    · have hne : f.spec.id ≠ f'.spec.id := fun he => hnd.1 (List.mem_map.mpr ⟨f, hl, he⟩)
      have hsame : (s.sendFlow f').rate c f.spec.id = s.rate c f.spec.id :=
        rate_sendFlow_other f' fun he => absurd he hne
      rw [← hsame]
      exact ih _ hnd.2 hl ((routeOf_congr hg hw f).trans hr)

/-- After the frames, the loop only cleans up `dispatched_`. -/
theorem sendLoop_eq {l : List FlowSnapshot} (hl : s.gov.listFlows = .ok l) :
    ∃ d, s.sendLoop = .ok { l.foldl sendFlow s with dispatched := d } :=
  ⟨_, by rw [sendLoop, hl]; rfl⟩

/-! ### Whole runs -/

/-- The governor of a server makes a run of its own. -/
theorem Reaches.gov {es : List ServerEvent} (h : Reaches es s) :
    ∃ g₀ es', g₀.Fresh ∧ Lib.Run Governor.Step g₀ es' s.gov := by
  obtain ⟨g₀, hfresh, hrun⟩ := h
  refine hrun.inv (P := fun s => ∃ g₀ es', g₀.Fresh ∧ Lib.Run Governor.Step g₀ es' s.gov)
    (fun s e s' hs hstep => ?_) ⟨g₀, [], hfresh, .nil _⟩
  obtain ⟨g₁, es', hfresh₁, hrun₁⟩ := hs
  cases hstep with
  | gov hg => exact ⟨g₁, _, hfresh₁, hrun₁.append (.single hg)⟩
  | @enter c reg =>
    refine ⟨g₁, _, hfresh₁, hrun₁.append (.single (e := .call (.registerWorker reg)) ?_)⟩
    rw [enter_gov]
    exact .call s.gov (.registerWorker reg)
  | own => exact ⟨g₁, es', hfresh₁, hrun₁⟩
  | close => exact ⟨g₁, es', hfresh₁, hrun₁⟩
  | finish => exact ⟨g₁, es', hfresh₁, hrun₁⟩
  | send hok =>
    have hgov : s'.gov = s.gov := by
      cases hl : s.gov.listFlows with
      | error e =>
        rw [sendLoop, hl] at hok
        cases hok
      | ok l =>
        obtain ⟨d, hd⟩ := sendLoop_eq hl
        obtain rfl := Except.ok.inj (hd.symm.trans hok)
        exact (foldl_sendFlow_gov l s).1
    exact ⟨g₁, es', hfresh₁, hgov ▸ hrun₁⟩

/-! ### Rates that are due -/

/-- The rate at which the connected process of a worker paces a flow. -/
def pace (s : Server) (worker : Option WorkerId) (fid : FlowId) : Option ℚ := do
  let w ← worker
  let c ← s.workers.find? w
  s.rate c fid

theorem pace_eq_some {worker : Option WorkerId} {fid : FlowId} {ρ : ℚ} :
    s.pace worker fid = some ρ ↔
      ∃ w c, worker = some w ∧ s.workers.find? w = some c ∧ s.rate c fid = some ρ := by
  simp only [pace, bind, Option.bind_eq_some_iff]
  constructor
  · rintro ⟨w, hw, c, hc, hρ⟩
    exact ⟨w, c, hw, hc, hρ⟩
  · rintro ⟨w, c, hw, hc, hρ⟩
    exact ⟨w, hw, c, hc, hρ⟩

theorem pace_congr {s' : Server} {worker : Option WorkerId} {fid : FlowId}
    (hw : s'.workers = s.workers) (hr : ∀ c, s'.rate c fid = s.rate c fid) :
    s'.pace worker fid = s.pace worker fid := by
  simp only [pace, hw, hr]

/-- A rate a flow may be paced at: no more than its grant while it is Running or Throttled, zero
    when it is not scheduled at all. -/
structure Due (f : FlowRT) (ρ : ℚ) : Prop where
  moving : isMoving f.state = true → ρ ≤ f.granted
  stopped : isScheduled f.state = false → ρ = 0

/-- Every flow is paced at a rate it may be paced at. -/
def WithinDue (s : Server) : Prop := ∀ fid f ρ, s.gov.flows.find? fid = some f →
  s.pace f.assignedWorker fid = some ρ → Due f ρ

/-! ### What the next pass finds -/

/-- Whether the send loop has a rate to send for a flow: it is Running and its reservation is on
    file. -/
def Renews (g : Governor) (f : FlowRT) : Prop :=
  f.state = .named .running ∧ g.hasReservation f = true

/-- The next pass renews a flow or may leave it at its rate. -/
def Steers (s : Server) : Prop := ∀ fid f ρ, s.gov.flows.find? fid = some f →
  s.pace f.assignedWorker fid = some ρ → Renews s.gov f ∨ Due f ρ

theorem routeOf_of_renews {f : FlowRT} {w : WorkerId} {c : ConnId} (h : Renews s.gov f)
    (hw : f.assignedWorker = some w) (hc : s.workers.find? w = some c) :
    ∃ rid, s.routeOf (flowSnap f) = some (c, rid) := by
  obtain ⟨hrun, hres⟩ := h
  obtain ⟨rid, rsv, hr, hrsv⟩ := Governor.hasReservation_iff.mp hres
  exact ⟨rid, by simp [routeOf, flowSnap, hrun, hr, hrsv, hw, hc]⟩

theorem renews_of_routeOf {f : FlowRT} {c : ConnId} {rid : ReservationId}
    (h : s.routeOf (flowSnap f) = some (c, rid)) : Renews s.gov f := by
  unfold routeOf at h
  split at h
  · rename_i hrun
    simp only [Option.bind_eq_bind, Option.bind_eq_some_iff] at h
    obtain ⟨w, -, rid', hr, rsv, hrsv, -⟩ := h
    exact ⟨hrun, Governor.hasReservation_iff.mpr ⟨rid', rsv, hr, hrsv⟩⟩
  · cases h

/-- What a pass does to the rate of a flow at its own process. -/
theorem pace_sendLoop (hk : s.gov.FlowsKeyed)
    (hr : ∀ fid f, s.gov.flows.find? fid = some f → f.Rated) :
    ∃ s', s.sendLoop = .ok s' ∧ s'.gov = s.gov ∧ ∀ fid f, s.gov.flows.find? fid = some f →
      (Renews s.gov f → ∀ ρ, s'.pace f.assignedWorker fid = some ρ → ρ = f.granted) ∧
      (¬ Renews s.gov f → s'.pace f.assignedWorker fid = s.pace f.assignedWorker fid) := by
  obtain ⟨l, hl, hperm⟩ := listFlows_ok hr
  have hnd : (l.map fun f => f.spec.id).Nodup := (hperm.map _).nodup_iff.mpr (snaps_nodup hk)
  obtain ⟨hg, hw⟩ := foldl_sendFlow_gov l s
  obtain ⟨d, hd⟩ := sendLoop_eq hl
  refine ⟨_, hd, hg, fun fid f hf => ⟨fun hn ρ hρ => ?_, fun hn => ?_⟩⟩
  · obtain ⟨w, c, hfw, hc, hrate⟩ := pace_eq_some.mp hρ
    obtain ⟨rid, hroute⟩ := routeOf_of_renews hn hfw (hw ▸ hc)
    have hmem : flowSnap f ∈ l := hperm.mem_iff.mpr
      (List.mem_map_of_mem (List.mem_map.mpr ⟨_, Table.mem_of_find? hf, rfl⟩))
    have h := rate_foldl_routed l s hnd hmem hroute
    rw [flowSnap_granted (hr fid f hf), show (flowSnap f).spec.id = fid from hk fid f hf] at h
    rcases h with hsent | ⟨hnone, -⟩
    · exact Option.some.inj (hrate.symm.trans hsent)
    · exact absurd (hrate.symm.trans hnone) (by simp)
  · have hsame : ∀ c, (l.foldl sendFlow s).rate c fid = s.rate c fid := fun c => by
      refine rate_foldl_other l s fun x hx he rid hroute => hn ?_
      obtain ⟨f', hf', rfl⟩ := List.mem_map.mp (hperm.mem_iff.mp hx)
      obtain ⟨e, he', rfl⟩ := List.mem_map.mp hf'
      have hid : fid = e.1 := he.trans (hk e.1 e.2 (Table.find?_of_mem he'))
      have : f = e.2 := Option.some.inj (hf.symm.trans (hid ▸ Table.find?_of_mem he'))
      exact this ▸ renews_of_routeOf hroute
    exact pace_congr hw hsame

theorem due_granted {f : FlowRT} (h : f.state = .named .running) : Due f f.granted :=
  ⟨fun _ => le_refl _, fun hs => by rw [h] at hs; cases hs⟩

/-- A pass ends within due exactly when it found nothing it cannot steer, and leaves it so. -/
theorem sendLoop_steers (hk : s.gov.FlowsKeyed)
    (hr : ∀ fid f, s.gov.flows.find? fid = some f → f.Rated) :
    ∃ s', s.sendLoop = .ok s' ∧ (s'.WithinDue ↔ s.Steers) ∧ (s'.Steers ↔ s.Steers) := by
  obtain ⟨s', hok, hg, hpace⟩ := pace_sendLoop hk hr
  have hstay : ∀ fid f ρ, s.gov.flows.find? fid = some f → ¬ Renews s.gov f →
      (s'.pace f.assignedWorker fid = some ρ ↔ s.pace f.assignedWorker fid = some ρ) :=
    fun fid f ρ hf hn => by rw [(hpace fid f hf).2 hn]
  refine ⟨s', hok, ⟨fun h fid f ρ hf hρ => ?_, fun h fid f ρ hf hρ => ?_⟩,
    ⟨fun h fid f ρ hf hρ => ?_, fun h fid f ρ hf hρ => ?_⟩⟩
  · by_cases hn : Renews s.gov f
    · exact Or.inl hn
    · exact Or.inr (h fid f ρ (hg ▸ hf) ((hstay fid f ρ hf hn).mpr hρ))
  · rw [hg] at hf
    by_cases hn : Renews s.gov f
    · rw [(hpace fid f hf).1 hn ρ hρ]
      exact due_granted hn.1
    · exact (h fid f ρ hf ((hstay fid f ρ hf hn).mp hρ)).resolve_left hn
  · by_cases hn : Renews s.gov f
    · exact Or.inl hn
    · exact hg ▸ h fid f ρ (hg ▸ hf) ((hstay fid f ρ hf hn).mpr hρ)
  · rw [hg] at hf ⊢
    by_cases hn : Renews s.gov f
    · exact Or.inl hn
    · exact h fid f ρ hf ((hstay fid f ρ hf hn).mp hρ)

/-! ### Events -/

/-- Whether a tick keeps right a flow that is paced at `ρ`: it is Running with its reservation on
    file, or Running or Throttled with a share that is no less; a flow it preempts is at zero. -/
def sustains (g : Governor) (fid : FlowId) (f : FlowRT) (ρ : ℚ) : Bool :=
  match g.targetOf fid f with
  | .running => g.hasReservation f || decide (ρ ≤ g.grantOf g.now fid)
  | .throttled => decide (ρ ≤ g.grantOf g.now fid)
  | _ => decide (ρ = 0)

/-- Whether the process a worker registers with may pace a flow as it does. -/
def fits (g : Governor) (f : FlowRT) (ρ : ℚ) : Bool :=
  decide (f.state = .named .running) && g.hasReservation f ||
    (!isMoving f.state || decide (ρ ≤ f.granted)) && (isScheduled f.state || decide (ρ = 0))

/-- Whether an event keeps paces right, judged on the state before it. A tick sustains the flows it
    arbitrates, at the processes they are driven by. A flow that is cancelled or completed is paced
    at zero, if at all. A process takes a worker's slot without jobs of that worker's flows that it
    may not pace as it does. -/
def keepsPace (s : Server) : ServerEvent → Bool
  | .gov (.call .tick) => s.gov.prepared.flows.entries.all fun e => !isScheduled e.2.state ||
      (s.pace (s.gov.prepared.driver e.2) e.1).all (sustains s.gov.prepared e.1 e.2)
  | .gov (.call (.cancelFlow fid _)) => (s.gov.flows.find? fid).all fun f =>
      isTerminal f.state || (s.pace f.assignedWorker fid).all fun ρ => decide (ρ = 0)
  | .gov (.call (.reportCompletion fid attempt fgen boot _)) =>
    (s.gov.flows.find? fid).all fun f => !s.gov.authorised f attempt fgen boot ||
      (s.pace f.assignedWorker fid).all fun ρ => decide (ρ = 0)
  | .own c => (s.entered c).all fun w => s.gov.flows.entries.all fun e =>
      !decide (e.2.assignedWorker = some w) || (s.rate c e.1).all (fits s.gov e.2)
  | _ => true

theorem fits_iff {g : Governor} {f : FlowRT} {ρ : ℚ} :
    fits g f ρ = true ↔ Renews g f ∨ Due f ρ := by
  simp only [fits, Renews, Bool.or_eq_true, Bool.and_eq_true, decide_eq_true_eq,
    Bool.not_eq_true']
  refine or_congr Iff.rfl ⟨fun ⟨hm, hs⟩ => ⟨fun h => ?_, fun h => ?_⟩, fun h => ⟨?_, ?_⟩⟩
  · exact hm.resolve_left (by simp [h])
  · exact hs.resolve_left (by simp [h])
  · cases hm : isMoving f.state with
    | false => exact Or.inl rfl
    | true => exact Or.inr (h.moving hm)
  · cases hs : isScheduled f.state with
    | false => exact Or.inr (h.stopped hs)
    | true => exact Or.inl rfl

theorem due_stopped {f : FlowRT} {ρ : ℚ} (h : isScheduled f.state = false) :
    Due f ρ ↔ ρ = 0 := by
  refine ⟨fun hd => hd.stopped h, fun hz => ⟨fun hm => ?_, fun _ => hz⟩⟩
  rw [isScheduled_eq, hm] at h
  cases h

theorem due_moving {f : FlowRT} {ρ : ℚ} (h : isMoving f.state = true) :
    Due f ρ ↔ ρ ≤ f.granted := by
  refine ⟨fun hd => hd.moving h, fun hle => ⟨fun _ => hle, fun hs => ?_⟩⟩
  rw [isScheduled_eq, h] at hs
  cases hs

theorem Due.congr {f f' : FlowRT} {ρ : ℚ} (h : Due f ρ) (hf : f.SamePace f') : Due f' ρ where
  moving := fun hm => hf.granted ▸ h.moving (hf.state ▸ hm)
  stopped := fun hs => h.stopped (hf.state ▸ hs)

/-- A check of the flows that are paced, in words. -/
theorem all_paced_iff {t : Table FlowId FlowRT} {P : FlowId × FlowRT → Bool}
    {o : FlowId × FlowRT → Option ℚ} {q : FlowId × FlowRT → ℚ → Bool} :
    (t.entries.all fun e => !P e || (o e).all (q e)) = true ↔ ∀ fid f ρ, t.find? fid = some f →
      P (fid, f) = true → o (fid, f) = some ρ → q (fid, f) ρ = true := by
  simp only [List.all_eq_true, Bool.or_eq_true, Bool.not_eq_true', Option.all_eq_true]
  constructor
  · intro h fid f ρ hf hP hρ
    exact (h (fid, f) (Table.mem_of_find? hf)).resolve_left (by simp [hP]) ρ hρ
  · intro h e he
    cases hP : P e with
    | false => exact Or.inl rfl
    | true => exact Or.inr fun ρ hρ => h e.1 e.2 ρ (Table.find?_of_mem he) hP hρ

/-- What the tick makes of a flow that takes part is steered exactly when the tick sustains it. -/
theorem sustains_iff {g g' : Governor} (hg : g'.reservations = g.reservations) {fid : FlowId}
    {f : FlowRT} {ρ : ℚ} (hs : isScheduled f.state = true) : sustains g fid f ρ = true ↔
      Renews g' (g.settled g.now fid f) ∨ Due (g.settled g.now fid f) ρ := by
  obtain ⟨hstate, hgranted, -, hrsv⟩ := g.settled_pace fid hs
  have hres := Governor.hasReservation_congr hg hrsv
  have htarget : g.targetOf fid f = .preempted ∨ g.targetOf fid f = .throttled ∨
      g.targetOf fid f = .running := by
    unfold Governor.targetOf
    split
    · exact Or.inr (Or.inr rfl)
    · exact Governor.gradeOf_cases f _
  rw [Renews, hres, sustains]
  rcases htarget with ht | ht | ht
  · rw [ht] at hstate
    rw [ht, due_stopped (by rw [hstate]; rfl), hstate]
    simp
  · rw [ht] at hstate
    rw [ht, due_moving (by rw [hstate]; rfl), hstate, hgranted]
    simp
  · rw [ht] at hstate
    rw [ht, due_moving (by rw [hstate]; rfl), hstate, hgranted]
    simp

/-- An event that leaves the paces of the flows alone. -/
theorem Steers.of_leaves (h : s.Steers) {s' : Server} (hw : s'.workers = s.workers)
    (hp : s'.procs = s.procs) (hl : s.gov.LeavesPace s'.gov)
    (hr : s.gov.KeepsReservations s'.gov) : s'.Steers := by
  intro fid f' ρ hf' hρ
  have hpace : ∀ w, s'.pace w fid = s.pace w fid := fun w =>
    pace_congr hw fun c => by rw [rate, rate, hp]
  rcases hl fid f' hf' with hres | hnone | ⟨f, hf, hsame⟩
  · refine Or.inr ⟨fun hm => ?_, fun hs => ?_⟩
    · rw [hres] at hm
      cases hm
    · rw [hres] at hs
      cases hs
  · rw [hnone] at hρ
    cases hρ
  · rw [hpace, hsame.worker] at hρ
    rcases h fid f ρ hf hρ with ⟨hrun, hres⟩ | hdue
    · exact Or.inl ⟨hsame.state.trans hrun, hr.hasReservation hsame.reservation hres⟩
    · exact Or.inr (hdue.congr hsame)

/-- An event at which processes lose jobs or connections. -/
theorem Steers.of_pace (h : s.Steers) {s' : Server} (hg : s'.gov = s.gov)
    (hp : ∀ w x ρ, s'.pace w x = some ρ → s.pace w x = some ρ) : s'.Steers := by
  intro fid f ρ hf hρ
  rw [hg] at hf ⊢
  exact h fid f ρ hf (hp _ _ _ hρ)

/-- An operation that ends the flow it names, where `ends` says so. -/
theorem steers_ended_iff (h : s.Steers) {g' : Governor} {fid : FlowId} {F : FlowRT → FlowRT}
    {ends : FlowRT → Bool} (hflows : ∀ x, g'.flows.find? x =
      if x = fid then (s.gov.flows.find? fid).map F else s.gov.flows.find? x)
    (hr : s.gov.KeepsReservations g') (hF : ∀ f, (F f).assignedWorker = f.assignedWorker)
    (hends : ∀ f, ends f = true → isScheduled (F f).state = false)
    (hkeeps : ∀ f, ends f = false → F f = f) : Steers { s with gov := g' } ↔
      ((s.gov.flows.find? fid).all fun f => !ends f ||
        (s.pace f.assignedWorker fid).all fun ρ => decide (ρ = 0)) = true := by
  have hold : ∀ f ρ, Renews s.gov f ∨ Due f ρ → Renews g' f ∨ Due f ρ := fun f ρ =>
    Or.imp_left fun hn => ⟨hn.1, hr.hasReservation rfl hn.2⟩
  constructor
  · intro h'
    rw [Option.all_eq_true]
    intro f hf
    cases he : ends f with
    | false => rfl
    | true =>
      rw [Bool.not_true, Bool.false_or, Option.all_eq_true]
      intro ρ hρ
      have hf' : g'.flows.find? fid = some (F f) := by
        rw [hflows, if_pos rfl, hf]
        rfl
      have hstop := hends f he
      rcases h' fid (F f) ρ hf' ((hF f).symm ▸ hρ) with ⟨hrun, -⟩ | hdue
      · rw [hrun] at hstop
        cases hstop
      · exact decide_eq_true (hdue.stopped hstop)
  · intro hall x f' ρ hf' hρ
    change g'.flows.find? x = some f' at hf'
    rw [hflows] at hf'
    split at hf'
    · rename_i hx
      subst hx
      obtain ⟨f, hf, rfl⟩ := Option.map_eq_some_iff.mp hf'
      rw [hF] at hρ
      cases he : ends f with
      | false =>
        rw [hkeeps f he]
        exact hold f ρ (h x f ρ hf hρ)
      | true =>
        have hthis := Option.all_eq_true _ _ |>.mp hall f hf
        rw [he, Bool.not_true, Bool.false_or, Option.all_eq_true] at hthis
        exact Or.inr ((due_stopped (hends f he)).mpr (of_decide_eq_true (hthis ρ hρ)))
    · exact hold f' ρ (h x f' ρ hf' hρ)

theorem steers_cancel_iff (h : s.Steers) (fid : FlowId) (reason : Str) :
    Steers { s with gov := s.gov.apply (.cancelFlow fid reason) } ↔
      s.keepsPace (.gov (.call (.cancelFlow fid reason))) = true := by
  have hF : ∀ f, (Governor.cancelledFlow reason f).assignedWorker = f.assignedWorker := by
    intro f
    unfold Governor.cancelledFlow
    split
    · rfl
    · cases hset : setFlowState f .cancelled with
      | error e => rfl
      | ok f' =>
        obtain rfl := setFlowState_eq_ok hset
        rfl
  have hends : ∀ f, (!isTerminal f.state) = true →
      isScheduled (Governor.cancelledFlow reason f).state = false := by
    intro f ht
    rw [Bool.not_eq_true'] at ht
    unfold Governor.cancelledFlow
    rw [if_neg (by simp [ht])]
    cases hset : setFlowState f .cancelled with
    | ok f' =>
      obtain rfl := setFlowState_eq_ok hset
      rfl
    | error e =>
      -- only a state outside the table cannot be cancelled
      by_contra hs
      rw [Bool.not_eq_false] at hs
      simp only [isScheduled, Bool.or_eq_true, decide_eq_true_eq] at hs
      rcases hs with (hs | hs) | hs
      all_goals
        rw [setFlowState_ok hs (Or.inr (by decide))] at hset
        cases hset
  have hkeeps : ∀ f, (!isTerminal f.state) = false → Governor.cancelledFlow reason f = f := by
    intro f ht
    exact if_pos (by simpa using ht)
  have hiff := steers_ended_iff h (s.gov.cancelFlow_find? fid reason)
    (s.gov.apply_keepsReservations rfl) hF hends hkeeps
  simp only [Bool.not_not] at hiff
  exact hiff

theorem steers_complete_iff (h : s.Steers) (fid : FlowId) (attempt : AttemptId)
    (fgen : FlowGeneration) (boot : WorkerBootId) (bytes : UInt64) :
    Steers { s with gov := s.gov.apply (.reportCompletion fid attempt fgen boot bytes) } ↔
      s.keepsPace (.gov (.call (.reportCompletion fid attempt fgen boot bytes))) = true := by
  have hF : ∀ f, (s.gov.completedFlow attempt fgen boot bytes f).assignedWorker =
      f.assignedWorker := by
    intro f
    unfold Governor.completedFlow
    split <;> rfl
  have hends : ∀ f, s.gov.authorised f attempt fgen boot = true →
      isScheduled (s.gov.completedFlow attempt fgen boot bytes f).state = false := by
    intro f ha
    rw [Governor.completedFlow, if_pos ha]
    rfl
  have hkeeps : ∀ f, s.gov.authorised f attempt fgen boot = false →
      s.gov.completedFlow attempt fgen boot bytes f = f := by
    intro f ha
    exact if_neg (by simp [ha])
  exact steers_ended_iff h (s.gov.reportCompletion_find? fid attempt fgen boot bytes)
    (s.gov.apply_keepsReservations rfl) hF hends hkeeps

theorem steers_tick_iff (h : s.Steers) : Steers { s with gov := s.gov.apply .tick } ↔
    s.keepsPace (.gov (.call .tick)) = true := by
  have htick : s.gov.apply .tick = s.gov.prepared.arbitrated := by
    change stateAfter id s.gov.tick = _
    rw [Governor.tick_prepared]
    rfl
  have hflows : ∀ x, (s.gov.apply .tick).flows.find? x = (s.gov.prepared.flows.find? x).map
      (s.gov.prepared.settled s.gov.prepared.now x) := fun x => by
    rw [htick, Governor.arbitrated_flows, Table.find?_mapVals]
  have hres : (s.gov.apply .tick).reservations = s.gov.prepared.reservations := by
    rw [htick, Governor.arbitrated_reservations]
  rw [keepsPace, all_paced_iff]
  constructor
  · intro h' x f ρ hf hs hρ
    rw [sustains_iff hres hs]
    refine h' x _ ρ ((hflows x).trans (by rw [hf]; rfl)) ?_
    rw [(s.gov.prepared.settled_pace x hs).2.2.1]
    exact hρ
  · intro hall x f' ρ hf' hρ
    obtain ⟨f, hf, rfl⟩ := Option.map_eq_some_iff.mp ((hflows x).symm.trans hf')
    cases hs : isScheduled f.state with
    | true =>
      rw [(s.gov.prepared.settled_pace x hs).2.2.1] at hρ
      exact (sustains_iff hres hs).mp (hall x f ρ hf hs hρ)
    | false =>
      rw [s.gov.prepared.settled_idle x hs] at hρ ⊢
      obtain ⟨f₀, hf₀, hsame⟩ := Governor.prepared_idle hf hs
      rw [hsame.worker] at hρ
      rcases h x f₀ ρ hf₀ hρ with ⟨hrun, -⟩ | hdue
      · rw [hsame.state, hrun] at hs
        cases hs
      · exact Or.inr (hdue.congr hsame)

theorem pace_own (s : Server) (c : ConnId) (w : WorkerId) (worker : Option WorkerId) (x : FlowId) :
    (s.own c w).pace worker x = if worker = some w then s.rate c x else s.pace worker x := by
  cases worker with
  | none => rfl
  | some w' =>
    have hfind : (s.own c w).workers.find? w' =
        if w' = w then some c else s.workers.find? w' := by
      change ((s.workers.erase w).insert w c).find? w' = _
      rw [Table.find?_insert, Table.find?_erase]
      split <;> rfl
    change ((s.own c w).workers.find? w').bind (fun c => s.rate c x) = _
    rw [hfind]
    by_cases hw : w' = w
    · rw [if_pos hw, if_pos (congrArg some hw)]
      rfl
    · rw [if_neg hw, if_neg fun he => hw (Option.some.inj he)]
      rfl

theorem steers_own_iff (h : s.Steers) {c : ConnId} {w : WorkerId} (hc : s.entered c = some w) :
    (s.own c w).Steers ↔ s.keepsPace (.own c) = true := by
  rw [keepsPace, hc, Option.all_some, all_paced_iff]
  constructor
  · intro h' x f ρ hf hw hρ
    refine fits_iff.mpr (h' x f ρ hf ?_)
    rw [pace_own, if_pos (of_decide_eq_true hw)]
    exact hρ
  · intro hall x f ρ hf hρ
    rw [pace_own] at hρ
    split at hρ
    · rename_i hw
      exact fits_iff.mp (hall x f ρ hf (decide_eq_true hw) hρ)
    · exact h x f ρ hf hρ

theorem pace_close {c : ConnId} {worker : Option WorkerId} {x : FlowId} {ρ : ℚ}
    (h : (s.close c).pace worker x = some ρ) : s.pace worker x = some ρ := by
  obtain ⟨w, c', hw, hc, hρ⟩ := pace_eq_some.mp h
  change (s.workers.filter _).find? w = some c' at hc
  rw [Table.find?_filter, Option.filter_eq_some_iff] at hc
  exact pace_eq_some.mpr ⟨w, c', hw, hc.1, hρ⟩

theorem pace_finish {c : ConnId} {fid : FlowId} {worker : Option WorkerId} {x : FlowId} {ρ : ℚ}
    (h : pace { s with procs := Function.update s.procs c ((s.procs c).finish fid) } worker x =
      some ρ) : s.pace worker x = some ρ := by
  obtain ⟨w, c', hw, hc, hρ⟩ := pace_eq_some.mp h
  refine pace_eq_some.mpr ⟨w, c', hw, hc, ?_⟩
  simp only [rate, Function.update_apply] at hρ ⊢
  split at hρ
  · rename_i he
    subst he
    by_cases hx : x = fid
    · simp [Process.held, Process.finish, Table.find?_erase, hx] at hρ
    · simpa [Process.held, Process.finish, Table.find?_erase, hx] using hρ
  · exact hρ

/-- From a state that can be steered, exactly the events that keep paces right lead to one. -/
theorem step_steers_iff (hk : s.gov.FlowsKeyed)
    (hr : ∀ fid f, s.gov.flows.find? fid = some f → f.Rated) (h : s.Steers) {e : ServerEvent}
    {s' : Server} (hs : s.Step e s') : s'.Steers ↔ s.keepsPace e = true := by
  cases hs with
  | gov hg =>
    cases hg with
    | call op =>
      cases hop : op.paces with
      | true =>
        cases op with
        | tick => exact steers_tick_iff h
        | cancelFlow fid reason => exact steers_cancel_iff h fid reason
        | reportCompletion fid attempt fgen boot bytes =>
          exact steers_complete_iff h fid attempt fgen boot bytes
        | _ => cases hop
      | false =>
        cases hlive : (Event.call op).live with
        | true =>
          refine iff_of_true (h.of_leaves rfl rfl (Governor.apply_leavesPace hr hlive hop)
            (s.gov.apply_keepsReservations hlive)) ?_
          cases op <;> first | rfl | cases hop
        | false =>
          cases op with
          | restore snap =>
            refine iff_of_true (fun fid f ρ hf hρ => ?_) rfl
            rw [Governor.restore_unassigned hf] at hρ
            cases hρ
          | _ => cases hlive
    | clock t => exact iff_of_true (h.of_leaves rfl rfl (.of_eq rfl) fun _ hx => hx) rfl
    | rehash hre =>
      refine iff_of_true (h.of_leaves rfl rfl (.of_find? fun fid => (hre.flows.find? fid).symm)
        fun rid hx => ?_) rfl
      exact (hre.reservations.find? rid) ▸ hx
  | @enter c reg =>
    have hrest : (s.enter c reg).workers = s.workers ∧ (s.enter c reg).procs = s.procs := by
      unfold enter
      rcases s.gov.registerWorker reg with ⟨e, g⟩ | g <;> exact ⟨rfl, rfl⟩
    refine iff_of_true (h.of_leaves hrest.1 hrest.2 ?_ ?_) rfl
    · rw [enter_gov]
      exact Governor.apply_leavesPace hr rfl rfl
    · rw [enter_gov]
      exact s.gov.apply_keepsReservations rfl
  | own hc => exact steers_own_iff h hc
  | close c => exact iff_of_true (h.of_pace rfl fun _ _ _ => pace_close) rfl
  | finish c fid => exact iff_of_true (h.of_pace rfl fun _ _ _ => pace_finish) rfl
  | send hok =>
    obtain ⟨s₁, hok₁, -, hsteers⟩ := sendLoop_steers hk hr
    obtain rfl := Except.ok.inj (hok₁.symm.trans hok)
    exact iff_of_true (hsteers.mpr h) rfl

/-! ### Runs in which every event keeps paces right -/

theorem Reaches.step {es : List ServerEvent} {e : ServerEvent} {s' : Server} (h : Reaches es s)
    (hs : s.Step e s') : Reaches (es ++ [e]) s' := by
  obtain ⟨g₀, hfresh, hrun⟩ := h
  exact ⟨g₀, hfresh, hrun.append (.single hs)⟩

theorem Reaches.sound {es : List ServerEvent} (h : Reaches es s) :
    s.gov.FlowsKeyed ∧ ∀ fid f, s.gov.flows.find? fid = some f → f.Rated := by
  obtain ⟨g₀, es', hfresh, hrun⟩ := h.gov
  exact ⟨flowsKeyed_of_run hfresh hrun, flowsRated_of_run hfresh hrun⟩

/-- A pass ends with every flow paced within its due exactly from a state that can be steered. -/
theorem Reaches.pass_iff {es : List ServerEvent} (h : Reaches es s) :
    (∃ s', s.sendLoop = .ok s' ∧ s'.WithinDue) ↔ s.Steers := by
  obtain ⟨s', hok, hdue, -⟩ := sendLoop_steers h.sound.1 h.sound.2
  constructor
  · rintro ⟨s₁, hok₁, hdue₁⟩
    obtain rfl := Except.ok.inj (hok.symm.trans hok₁)
    exact hdue.mp hdue₁
  · exact fun hsteers => ⟨s', hok, hdue.mpr hsteers⟩

theorem steers_of_run {g₀ : Governor} {es : List ServerEvent} (hfresh : g₀.Fresh)
    (hrun : Lib.Run (fun s e s' => Step s e s' ∧ s.keepsPace e = true) (.new g₀) es s) :
    s.Steers ∧ ∃ es', Reaches es' s := by
  refine hrun.inv (P := fun s => s.Steers ∧ ∃ es', Reaches es' s) (fun s e s' hs hstep => ?_) ?_
  · obtain ⟨hsteers, es', hreach⟩ := hs
    obtain ⟨hk, hr⟩ := hreach.sound
    exact ⟨(step_steers_iff hk hr hsteers hstep.1).mpr hstep.2, _, hreach.step hstep.1⟩
  · refine ⟨fun fid f ρ _ hρ => ?_, [], g₀, hfresh, .nil _⟩
    -- no worker is connected yet
    obtain ⟨w, c, -, hc, -⟩ := pace_eq_some.mp hρ
    cases hc

/-- In every run whose events keep paces right, a pass leaves every flow paced within its due. The
    next event keeps it so exactly when it keeps paces right itself. -/
theorem paced_within_due {g₀ : Governor} {es : List ServerEvent} (hfresh : g₀.Fresh)
    (hrun : Lib.Run (fun s e s' => Step s e s' ∧ s.keepsPace e = true) (.new g₀) es s) :
    (∃ s', s.sendLoop = .ok s' ∧ s'.WithinDue) ∧ ∀ e t, s.Step e t →
      ((∃ t', t.sendLoop = .ok t' ∧ t'.WithinDue) ↔ s.keepsPace e = true) := by
  obtain ⟨hsteers, es', hreach⟩ := steers_of_run hfresh hrun
  refine ⟨hreach.pass_iff.mpr hsteers, fun e t hs => ?_⟩
  exact (hreach.step hs).pass_iff.trans (step_steers_iff hreach.sound.1 hreach.sound.2 hsteers hs)

end Server

namespace Sample

/-- The link drops to 30 under a flow of rate 80. -/
def throttling : List ServerEvent :=
  serving ++ [.gov (.call (.updateCapacity ⟨0, 1⟩ 30 1 [] 0 0 false)), .gov (.call .tick), .send]

/-- A second flow is served beside the first one, which finishes and is reported. -/
def sharing : List ServerEvent :=
  serving ++ [.gov (.call (.submitFlow (flow 2 1 10 20 20))), .gov (.call .tick), .send,
    .finish 1 ⟨0, 1⟩, .gov (.call (.reportCompletion ⟨0, 1⟩ ⟨0, 1⟩ ⟨0, 1⟩ ⟨0, 1⟩ 7)),
    .gov (.call .tick)]

end Sample

/-- The worker keeps a throttled flow at the rate it was dispatched at. -/
theorem throttled_flow_overpaced : ∃ s, Server.Reaches Sample.throttling s ∧ ¬ s.WithinDue := by
  obtain ⟨s, hs, hflow, hpace⟩ : ∃ s,
      Sample.throttling.foldlM Server.perform Sample.server = some s ∧
      ((s.gov.flows.find? ⟨0, 1⟩).map fun f => (isMoving f.state, f.granted, f.assignedWorker)) =
        some (true, 30, some ⟨0, 1⟩) ∧ s.pace (some ⟨0, 1⟩) ⟨0, 1⟩ = some 80 := by
    refine ⟨(Sample.throttling.foldlM Server.perform Sample.server).get (by decide +kernel),
      (Option.some_get _).symm, ?_, ?_⟩
    all_goals decide +kernel
  obtain ⟨f, hf, hdata⟩ := Option.map_eq_some_iff.mp hflow
  rw [Prod.mk.injEq, Prod.mk.injEq] at hdata
  obtain ⟨hmoving, hgranted, hworker⟩ := hdata
  refine ⟨s, Sample.server_reaches hs, fun h => ?_⟩
  have hle := (h ⟨0, 1⟩ f 80 hf (hworker ▸ hpace)).moving hmoving
  rw [hgranted] at hle
  norm_num at hle

theorem paced_within_due_sharing : ∃ s s', Server.Reaches Sample.sharing s ∧
    s.sendLoop = .ok s' ∧ s'.WithinDue := by
  obtain ⟨s, hs⟩ : ∃ s, Sample.sharing.foldlM (fun s e => if s.keepsPace e then s.perform e
      else none) Sample.server = some s := ⟨_, (Option.some_get (by decide +kernel)).symm⟩
  have hrun : Lib.Run (fun s e s' => Server.Step s e s' ∧ s.keepsPace e = true) Sample.server
      Sample.sharing s := by
    refine .of_foldlM (fun {s e s'} h => ?_) hs
    rw [Option.ite_none_right_eq_some] at h
    exact ⟨Server.step_perform h.2, h.1⟩
  obtain ⟨s', hok, hdue⟩ := (Server.paced_within_due Sample.start_fresh hrun).1
  have hreach : Lib.Run Server.Step Sample.server Sample.sharing s :=
    hrun.mono fun _ _ _ h => h.1
  exact ⟨s, s', ⟨Sample.start, Sample.start_fresh, hreach⟩, hok, hdue⟩

end BG
