import Mathlib
import BandwidthGovernor.Governor.Fences

/-! The reservations behind scheduled flows.

    A flow that is Reserved, Running or Throttled is to hold an Active reservation minted under its
    current attempt and generation. Two operations can break this: `release_reservation` on the
    reservation of such a flow, and `resume_flow` on a preempted flow whose reservation has been
    released meanwhile. Nothing else does. -/

namespace BG

open Lib

/-! ### Backed flows -/

/-- A reservation minted under the flow's current attempt and generation, for its path. -/
structure Authorises (rsv : Reservation) (f : FlowRT) : Prop where
  attempt : rsv.attempt = f.spec.attempt
  generation : rsv.flowGeneration = f.spec.generation
  path : rsv.path = f.spec.path

/-- The flow has been admitted and not ended. -/
def isStanding (s : Coded FlowState) : Bool := isScheduled s || decide (s = .named .preempted)

/-- What the view holds for a flow: the reservation it names is its own, one is there once it has
    been admitted, Active while it is scheduled, and its path is known. -/
structure View.Backs (v : View) (fid : FlowId) (f : FlowRT) : Prop where
  own : ∀ rid rsv, f.reservation = some rid → v.reservations rid = some rsv → rsv.flow = fid
  held : isStanding f.state = true → ∃ rid rsv, f.reservation = some rid ∧
    v.reservations rid = some rsv ∧ Authorises rsv f ∧
    (isScheduled f.state = true → rsv.state = .named .active)
  routed : ∃ p, v.paths f.spec.path = some p

/-- Every flow but possibly one is backed. -/
def View.BackedBut (v : View) (x : FlowId) : Prop :=
  ∀ fid f, fid ≠ x → v.flows fid = some f → v.Backs fid f

def View.Backed (v : View) : Prop := ∀ fid f, v.flows fid = some f → v.Backs fid f

/-- No scheduled flow holds the reservation. -/
def View.Spares (v : View) (rid : ReservationId) : Prop :=
  ∀ fid f, v.flows fid = some f → isScheduled f.state = true → f.reservation ≠ some rid

/-- If the flow is preempted, its reservation is Active. -/
def View.Resumable (v : View) (fid : FlowId) : Prop :=
  ∀ f, v.flows fid = some f → f.state = .named .preempted →
    ∀ rid rsv, f.reservation = some rid → v.reservations rid = some rsv →
      rsv.state = .named .active

namespace View
variable {v w : View} {fid x : FlowId} {f : FlowRT}

theorem Backed.but (h : v.Backed) (x : FlowId) : v.BackedBut x := fun fid f _ hf => h fid f hf

/-- What a flow is backed by stays when its reservation and the known paths do. -/
theorem Backs.frame (h : v.Backs fid f)
    (hr : ∀ rid, f.reservation = some rid → w.reservations rid = v.reservations rid)
    (hp : ∀ pid p, v.paths pid = some p → ∃ q, w.paths pid = some q) : w.Backs fid f where
  own rid rsv hres hrsv := h.own rid rsv hres (hr rid hres ▸ hrsv)
  held hs := by
    obtain ⟨rid, rsv, hres, hrsv, hauth, hact⟩ := h.held hs
    exact ⟨rid, rsv, hres, (hr rid hres).trans hrsv, hauth, hact⟩
  routed := by
    obtain ⟨p, hpath⟩ := h.routed
    exact hp _ p hpath

theorem BackedBut.setFlow (h : v.BackedBut fid) (hf : v.Backs fid f) :
    (v.setFlow fid f).Backed := by
  intro x f' hx
  rcases setFlow_cases hx with ⟨rfl, rfl⟩ | ⟨hne, hx⟩
  · exact hf.frame (fun _ _ => rfl) fun _ p hp => ⟨p, hp⟩
  · exact (h x f' hne hx).frame (fun _ _ => rfl) fun _ p hp => ⟨p, hp⟩

/-- A release leaves other reservations alone. -/
theorem release_of_ne (v : View) {rid y : ReservationId} (h : y ≠ rid) :
    (v.release rid).reservations y = v.reservations y := by
  unfold release
  cases v.reservations rid with
  | none => rfl
  | some rsv =>
    dsimp only
    cases reservationTransition rsv.state (.named .released) with
    | none => rfl
    | some s => exact Function.update_of_ne h _ _

/-- Releasing the reservation of a flow leaves every other flow backed: reservations are not
    shared. -/
theorem Backed.releaseOf (h : v.Backed) (ho : v.OnFile) (hf : v.flows fid = some f) :
    (v.releaseOf f).BackedBut fid := by
  intro x f' hne hx
  rw [releaseOf_flows] at hx
  refine (h x f' hx).frame (fun rid hres => ?_) fun pid p hp => ⟨p, (releaseOf_paths v f) ▸ hp⟩
  unfold View.releaseOf
  cases hr : f.reservation with
  | none => rfl
  | some rid₀ =>
    refine release_of_ne v fun he => ?_
    subst he
    obtain ⟨rsv, hrsv⟩ := ho.held x f' rid hx hres
    exact hne (((h x f' hx).own rid rsv hres hrsv).symm.trans ((h fid f hf).own rid rsv hr hrsv))

/-- Filing a fresh reservation leaves every flow backed. -/
theorem BackedBut.file (h : v.BackedBut x) (ho : v.OnFile) (hc : v.gen.calls < 2 ^ 64)
    {rsv : Reservation} (hid : rsv.id = v.gen.next.1) : (v.file rsv).BackedBut x := by
  intro fid f hne hf
  refine (h fid f hne hf).frame (fun rid hres => ?_) fun _ p hp => ⟨p, hp⟩
  obtain ⟨rsv₀, hrsv₀⟩ := ho.held fid f rid hf hres
  obtain ⟨k, hk, hkid⟩ := ho.minted rid rsv₀ hrsv₀
  refine Function.update_of_ne (fun he => ?_) _ _
  exact IdGen.next_ne hc hk ((hid.symm.trans he.symm).trans hkid)

/-- Minting a reservation for a flow and linking the flow to it. -/
theorem BackedBut.mint (h : v.BackedBut fid) (ho : v.OnFile) (hc : v.gen.calls < 2 ^ 64)
    {spec : FlowSpec} (boot : WorkerBootId) {p : Path} (c : Capacity) (hid : spec.id = fid)
    (hp : v.paths spec.path = some p) (hspec : f.spec = spec)
    (hres : f.reservation = some v.gen.next.1) :
    ((v.file (v.minted spec boot p.hops c)).setFlow fid f).Backed := by
  subst hspec
  have hfiled : (v.file (v.minted f.spec boot p.hops c)).reservations v.gen.next.1 =
      some (v.minted f.spec boot p.hops c) := Function.update_self _ _ _
  refine (h.file ho hc rfl).setFlow ⟨fun rid rsv hr hrsv => ?_, fun _ => ?_, p, hp⟩
  · rw [hres, Option.some.injEq] at hr
    rw [← hr, hfiled, Option.some.injEq] at hrsv
    exact hrsv ▸ hid
  · exact ⟨_, _, hres, hfiled, ⟨rfl, rfl, rfl⟩, fun _ => rfl⟩

/-- A release changes at most the state of a reservation. -/
theorem release_state (v : View) (rid : ReservationId) {y : ReservationId} {rsv : Reservation}
    (h : v.reservations y = some rsv) :
    ∃ s, (v.release rid).reservations y = some { rsv with state := s } := by
  by_cases he : y = rid
  · subst he
    unfold release
    rw [h]
    dsimp only
    cases reservationTransition rsv.state (.named .released) with
    | none => exact ⟨rsv.state, h⟩
    | some s => exact ⟨s, Function.update_self _ _ _⟩
  · exact ⟨rsv.state, (release_of_ne v he).trans h⟩

theorem release_flow (v : View) (rid : ReservationId) {y : ReservationId} {rsv : Reservation}
    (h : (v.release rid).reservations y = some rsv) :
    ∃ rsv₀, v.reservations y = some rsv₀ ∧ rsv₀.flow = rsv.flow := by
  obtain ⟨rsv₀, h₀, rfl | ⟨-, rfl⟩⟩ := release_reservations v rid h
  · exact ⟨rsv, h₀, rfl⟩
  · exact ⟨rsv₀, h₀, rfl⟩

/-- A flow that has ended is backed by what it named before, released or not. -/
theorem Backs.ended (h : v.Backs fid f) {f' : FlowRT} (hs : isStanding f'.state = false)
    (hspec : f'.spec = f.spec) (hres : f'.reservation = f.reservation) :
    (v.releaseOf f).Backs fid f' := by
  refine ⟨fun rid rsv hr hrsv => ?_, fun hst => ?_, ?_⟩
  · rw [hres] at hr
    unfold View.releaseOf at hrsv
    rw [hr] at hrsv
    obtain ⟨rsv₀, h₀, hflow⟩ := release_flow v rid hrsv
    exact hflow.symm.trans (h.own rid rsv₀ hr h₀)
  · rw [hs] at hst
    cases hst
  · rw [hspec, releaseOf_paths]
    exact h.routed

/-- Releasing a reservation that no scheduled flow holds. -/
theorem Backed.release (h : v.Backed) {rid : ReservationId} (hspare : v.Spares rid) :
    (v.release rid).Backed := by
  obtain ⟨hflows, -, hpaths, -⟩ := View.release_rest v rid
  intro fid f hf
  rw [hflows] at hf
  have hb := h fid f hf
  refine ⟨fun y rsv hr hrsv => ?_, fun hst => ?_, hpaths ▸ hb.routed⟩
  · obtain ⟨rsv₀, h₀, hflow⟩ := release_flow v rid hrsv
    exact hflow.symm.trans (hb.own y rsv₀ hr h₀)
  · obtain ⟨y, rsv, hr, hrsv, hauth, hact⟩ := hb.held hst
    by_cases he : y = rid
    · obtain ⟨s, hs⟩ := release_state v rid hrsv
      exact ⟨y, _, hr, hs, ⟨hauth.attempt, hauth.generation, hauth.path⟩,
        fun hsch => absurd (he ▸ hr) (hspare fid f hf hsch)⟩
    · exact ⟨y, rsv, hr, (release_of_ne v he).trans hrsv, hauth, hact⟩

/-- A flow in another standing, with the same spec and reservation. -/
theorem Backs.moved (h : v.Backs fid f) {f' : FlowRT} (hspec : f'.spec = f.spec)
    (hres : f'.reservation = f.reservation)
    (hst : isStanding f'.state = true → isStanding f.state = true)
    (hact : isScheduled f'.state = true → isScheduled f.state = true ∨
      ∀ rid rsv, f.reservation = some rid → v.reservations rid = some rsv →
        rsv.state = .named .active) : v.Backs fid f' where
  own rid rsv hr := h.own rid rsv (hres ▸ hr)
  held hs := by
    obtain ⟨rid, rsv, hr, hrsv, hauth, hactive⟩ := h.held (hst hs)
    refine ⟨rid, rsv, hres.trans hr, hrsv, ⟨?_, ?_, ?_⟩, fun hsch => ?_⟩
    · rw [hspec]; exact hauth.attempt
    · rw [hspec]; exact hauth.generation
    · rw [hspec]; exact hauth.path
    · exact (hact hsch).elim hactive fun hall => hall rid rsv hr hrsv
  routed := hspec ▸ h.routed

end View

/-! ### What the transactions do to it -/

theorem isStanding_of_scheduled {s : Coded FlowState} (h : isScheduled s = true) :
    isStanding s = true := by
  simp [isStanding, h]

/-- A move keeps a flow backed; resuming a preempted one needs its reservation Active. -/
theorem FlowMove.backs {v : View} {k : Kind} {fid : FlowId} {f f' : FlowRT}
    (hm : FlowMove v k fid f f') (hresume : k = .resume fid → v.Resumable fid)
    (hf : v.flows fid = some f) (h : v.Backs fid f) : v.Backs fid f' := by
  obtain ⟨hspec, hres, -, -⟩ := hm.keeps
  cases hm with
  | age => exact h.moved hspec hres id Or.inl
  | dispatch o ng t hr =>
    have hsch : isScheduled f.state = true := by simp [isScheduled, hr]
    exact h.moved hspec hres (fun _ => isStanding_of_scheduled hsch) fun _ => Or.inl hsch
  | regrade ng t hmov =>
    have hsch : isScheduled f.state = true := by simp [isScheduled_eq, hmov]
    exact h.moved hspec hres (fun _ => isStanding_of_scheduled hsch) fun _ => Or.inl hsch
  | resume hs =>
    refine h.moved hspec hres (fun _ => ?_) fun _ => ?_
    · rcases hs with hs | hs <;> rw [hs] <;> rfl
    · rcases hs with hs | hs
      · exact Or.inr fun rid rsv => hresume rfl f hf hs rid rsv
      · exact Or.inl (by rw [hs]; rfl)
  | progress => exact h.moved hspec hres id Or.inl

/-- A transaction keeps every flow backed, unless it releases the reservation of a scheduled flow or
    resumes a preempted flow whose reservation is not Active. -/
theorem Txn.backed {v w : View} {k : Kind} (ht : Txn v k w) (hwf : v.WF) (ho : v.OnFile)
    (hc : w.gen.calls ≤ 2 ^ 64) (hrelease : ∀ rid, k = .release rid → v.Spares rid)
    (hresume : ∀ fid, k = .resume fid → v.Resumable fid) (h : v.Backed) : w.Backed := by
  have hsame : ∀ {u : View}, u.flows = v.flows → u.reservations = v.reservations →
      (∀ pid p, v.paths pid = some p → ∃ q, u.paths pid = some q) → u.Backed :=
    fun hfl hrs hpt fid f hf => (h fid f (hfl ▸ hf)).frame (fun rid _ => congrFun hrs rid) hpt
  cases ht with
  | draw => exact hsame rfl rfl fun _ p hp => ⟨p, hp⟩
  | bump => exact hsame rfl rfl fun _ p hp => ⟨p, hp⟩
  | join => exact hsame rfl rfl fun _ p hp => ⟨p, hp⟩
  | path p =>
    refine hsame rfl rfl fun pid q hq => ?_
    by_cases he : pid = p.id
    · exact ⟨p, he ▸ Function.update_self _ _ _⟩
    · exact ⟨q, (Function.update_of_ne he _ _).trans hq⟩
  | lose worker =>
    intro fid f' hf'
    obtain ⟨f, hf, rfl⟩ := Option.map_eq_some_iff.mp hf'
    refine View.Backs.frame (v := v) ?_ (fun _ _ => rfl) fun _ p hp => ⟨p, hp⟩
    split
    · exact (h fid f hf).moved rfl rfl id Or.inl
    · exact h fid f hf
  | moves k F hF =>
    intro fid f' hf'
    obtain ⟨f, hf, rfl⟩ := Option.map_eq_some_iff.mp hf'
    refine View.Backs.frame (v := v) ?_ (fun _ _ => rfl) fun _ p hp => ⟨p, hp⟩
    rcases hF fid f hf with he | hm
    · rw [he]; exact h fid f hf
    · exact hm.backs (hresume fid) hf (h fid f hf)
  | park spec t _ _ hp =>
    refine (h.but spec.id).setFlow ⟨fun _ _ hr => ?_, fun hs => ?_, hp⟩
    · cases hr
    · cases hs
  | reserve spec p c t _ _ hp => exact (h.but spec.id).mint ho hc .null c rfl hp rfl rfl
  | dequeue fid f p c t hf _ hp =>
    exact (h.but fid).mint ho hc .null c (hwf.keyed fid f hf) hp rfl rfl
  | cancel fid f reason hf =>
    rw [View.setFlow_releaseOf]
    exact (h.releaseOf ho hf).setFlow ((h fid f hf).ended rfl rfl rfl)
  | complete fid f b t hf =>
    rw [View.setFlow_releaseOf]
    exact (h.releaseOf ho hf).setFlow ((h fid f hf).ended rfl rfl rfl)
  | release rid => exact h.release (hrelease rid rfl)
  | remint fid f p c hf hs hfree =>
    have hst : isStanding f.state = true := by rcases hs with hs | hs <;> rw [hs] <;> rfl
    obtain ⟨rid, -, hr, -⟩ := (h fid f hf).held hst
    rw [hfree] at hr
    cases hr
  | roll fid f p c worker boot hf _ _ hp =>
    have hbut : (v.releaseOf f).draw.BackedBut fid := fun x f' hne hx =>
      (h.releaseOf ho hf x f' hne hx).frame (fun _ _ => rfl) fun _ p hp => ⟨p, hp⟩
    have hpath : (v.releaseOf f).draw.paths f.spec.path = some p :=
      (congrFun (View.releaseOf_paths v f) _).trans hp
    exact hbut.mint (ho.releaseOf f).draw hc boot c (hwf.keyed fid f hf) hpath rfl rfl
  | rollStray fid f worker boot hf _ _ hp =>
    obtain ⟨p, hpath⟩ := (h fid f hf).routed
    rw [hp] at hpath
    cases hpath

/-- A release only writes reservations. -/
theorem Txn.release_flows {v w : View} {rid : ReservationId} (ht : Txn v (.release rid) w) :
    w.flows = v.flows := by
  cases ht with
  | release => exact (View.release_rest v rid).1
  | moves k F hF =>
    funext fid
    cases hf : v.flows fid with
    | none => simp [hf]
    | some f =>
      rcases hF fid f hf with he | hm
      · simp [hf, he]
      · cases hm

theorem FlowMove.resumed {v : View} {x fid : FlowId} {f f' : FlowRT}
    (hm : FlowMove v (.resume x) fid f f') : f'.state = .named .reserved := by
  cases hm
  rfl

/-- A resumed flow is no longer preempted. -/
theorem Txn.resumable {v w : View} {fid : FlowId} (ht : Txn v (.resume fid) w)
    (h : v.Resumable fid) : w.Resumable fid := by
  cases ht with
  | moves k F hF =>
    intro f' hf' hs
    obtain ⟨f, hf, rfl⟩ := Option.map_eq_some_iff.mp hf'
    rcases hF fid f hf with he | hm
    · rw [he] at hs ⊢
      exact h f hf hs
    · rw [hm.resumed] at hs
      cases hs
  | remint fid f p c hf =>
    intro f' hf' hs
    rw [View.setFlow_self, Option.some.injEq] at hf'
    rw [← hf'] at hs
    cases hs

/-! ### Runs -/

namespace Governor

/-- What an event in a run may not do: release the reservation of a scheduled flow, or resume a
    preempted flow whose reservation is not Active. -/
def keepsBacking (g : Governor) : Event → Bool
  | .call (.releaseReservation rid) =>
    g.flows.vals.all fun f => !(isScheduled f.state && decide (f.reservation = some rid))
  | .call (.resumeFlow fid) =>
    match g.flows.find? fid with
    | none => true
    | some f => !decide (f.state = .named .preempted) ||
      match f.reservation.bind g.reservations.find? with
      | none => true
      | some rsv => decide (rsv.state = .named .active)
  | _ => true

theorem keepsBacking_release {g : Governor} {rid : ReservationId}
    (h : g.keepsBacking (.call (.releaseReservation rid)) = true) : g.view.Spares rid := by
  intro fid f hf hs hr
  have hmem : f ∈ g.flows.vals := List.mem_map.mpr ⟨(fid, f), Table.mem_of_find? hf, rfl⟩
  have := List.all_eq_true.mp h f hmem
  simp [hs, hr] at this

theorem keepsBacking_resume {g : Governor} {fid : FlowId}
    (h : g.keepsBacking (.call (.resumeFlow fid)) = true) : g.view.Resumable fid := by
  intro f hf hs rid rsv hr hrsv
  rw [view_flows] at hf
  rw [view_reservations] at hrsv
  simpa [keepsBacking, hf, hs, hr, hrsv] using h

end Governor

theorem Event.kinds_release {e : Event} {rid : ReservationId} (hlive : e.live = true)
    (h : e.kinds (.release rid)) : e = .call (.releaseReservation rid) := by
  cases e with
  | clock => cases h
  | rehash => cases h
  | call op =>
    cases op with
    | releaseReservation r => cases h; rfl
    | registerWorker reg => rcases h with h | h | ⟨fid, h⟩ <;> cases h
    | tick => rcases h with h | h | ⟨fid, h⟩ <;> cases h
    | restore => cases hlive
    | _ => cases h

theorem Event.kinds_resume {e : Event} {fid : FlowId} (hlive : e.live = true)
    (h : e.kinds (.resume fid)) : e = .call (.resumeFlow fid) := by
  cases e with
  | clock => cases h
  | rehash => cases h
  | call op =>
    cases op with
    | resumeFlow x => cases h; rfl
    | registerWorker reg => rcases h with h | h | ⟨fid, h⟩ <;> cases h
    | tick => rcases h with h | h | ⟨fid, h⟩ <;> cases h
    | restore => cases hlive
    | _ => cases h

/-- In every run from a fresh coordinator that releases no reservation of a scheduled flow and
    resumes no preempted flow whose reservation is not Active, every scheduled flow holds an Active
    reservation minted under its current authority (as long as the id counter has not wrapped). -/
theorem scheduled_flows_backed {g₀ g : Governor} {es : List Event} (hfresh : g₀.Fresh)
    (hrun : Lib.Run (fun g e g' => g.Step e g' ∧ (e.live && g.keepsBacking e) = true) g₀ es g)
    (hcalls : g.gen.calls ≤ 2 ^ 64) {fid : FlowId} {f : FlowRT} (hf : g.flows.find? fid = some f)
    (hs : isScheduled f.state = true) : ∃ rid rsv, f.reservation = some rid ∧
      g.reservations.find? rid = some rsv ∧ rsv.state = .named .active ∧ Authorises rsv f := by
  have hend : g.view.WF ∧ g.view.OnFile ∧ (g.gen.calls ≤ 2 ^ 64 → g.view.Backed) := by
    refine hrun.inv (P := fun g => g.view.WF ∧ g.view.OnFile ∧
      (g.gen.calls ≤ 2 ^ 64 → g.view.Backed)) (fun g e g' hP hstep => ?_) ?_
    · obtain ⟨hwf, ho, hb⟩ := hP
      obtain ⟨hstep, hok⟩ := hstep
      obtain ⟨hlive, hkeep⟩ := Bool.and_eq_true_iff.mp hok
      -- The conditions on the event are read in its first state and stay true while it runs.
      obtain ⟨hwf', ho', hb', -⟩ := (step_ran hwf hlive hstep).inv
        (I := fun v => v.WF ∧ v.OnFile ∧ (v.gen.calls ≤ 2 ^ 64 → v.Backed) ∧
          (∀ rid, e = .call (.releaseReservation rid) → v.Spares rid) ∧
          ∀ fid, e = .call (.resumeFlow fid) → v.Resumable fid)
        (fun v k w hk hv ht => by
          obtain ⟨hwfv, hov, hbv, hspare, hresume⟩ := hv
          refine ⟨ht.wf hwfv, ht.onFile hov, fun hc => ?_, fun rid he => ?_, fun fid he => ?_⟩
          · refine ht.backed hwfv hov hc (fun rid hkr => hspare rid ?_)
              (fun fid hkr => hresume fid ?_)
              (hbv (ht.calls_le.trans hc))
            · exact Event.kinds_release hlive (hkr ▸ hk)
            · exact Event.kinds_resume hlive (hkr ▸ hk)
          · have hkr : k = .release rid := by subst he; exact hk
            subst hkr
            unfold View.Spares
            rw [ht.release_flows]
            exact hspare rid he
          · have hkr : k = .resume fid := by subst he; exact hk
            subst hkr
            exact ht.resumable (hresume fid he))
        ⟨hwf, ho, hb, fun rid he => Governor.keepsBacking_release (he ▸ hkeep),
          fun fid he => Governor.keepsBacking_resume (he ▸ hkeep)⟩
      exact ⟨hwf', ho', hb'⟩
    · obtain ⟨hfl, hr, -, -⟩ := hfresh.view
      exact ⟨hfresh.wf, ⟨fun rid rsv h => by simp [hr] at h, fun fid f rid h => by simp [hfl] at h⟩,
        fun _ fid f h => by simp [hfl] at h⟩
  obtain ⟨rid, rsv, hr, hrsv, hauth, hact⟩ :=
    (hend.2.2 hcalls fid f hf).held (isStanding_of_scheduled hs)
  exact ⟨rid, rsv, hr, hrsv, hact hs, hauth⟩

/-- The theorem for flow 1 driven by worker 1. -/
theorem scheduled_flows_backed_driven : ∃ f rid rsv,
    (Sample.start.after Sample.driven).flows.find? ⟨0, 1⟩ = some f ∧ f.reservation = some rid ∧
    (Sample.start.after Sample.driven).reservations.find? rid = some rsv ∧
    rsv.state = .named .active ∧ Authorises rsv f := by
  obtain ⟨f, -, hf, -, hr, -⟩ := Sample.isDriven_spec
    (by decide +kernel : Sample.isDriven (Sample.start.after Sample.driven) true = true)
  have hchecks :
    Sample.start.checks (fun g e => e.live && g.keepsBacking e) Sample.driven = true := by
    decide +kernel
  obtain ⟨rid, rsv, h⟩ := scheduled_flows_backed Sample.start_fresh (Governor.run_checked hchecks)
    (by decide +kernel) hf (by rw [hr]; rfl)
  exact ⟨f, rid, rsv, hf, h⟩

/-- The state and the reservation state of flow 1. -/
def Sample.standing (g : Governor) : Option (Coded FlowState × Coded ReservationState) := do
  let f ← g.flows.find? ⟨0, 1⟩
  let rid ← f.reservation
  let rsv ← g.reservations.find? rid
  pure (f.state, rsv.state)

/-- When its reservation is released, flow 1 keeps Running without an Active one. -/
theorem running_flow_unbacked : ∃ es g f rid rsv, Reaches es g ∧
    g.flows.find? ⟨0, 1⟩ = some f ∧ f.state = .named .running ∧ f.reservation = some rid ∧
    g.reservations.find? rid = some rsv ∧ rsv.state = .named .released := by
  have h : Sample.standing (Sample.start.after
      (Sample.driven ++ [.releaseReservation Sample.start.gen.next.1])) =
      some (.named .running, .named .released) := by decide +kernel
  simp only [Sample.standing, bind, Option.bind_eq_some_iff] at h
  obtain ⟨f, hf, rid, hr, rsv, hrsv, h⟩ := h
  obtain ⟨hs, hrs⟩ := Prod.mk.inj (Option.some.inj h)
  exact ⟨_, _, f, rid, rsv, Sample.reaches rfl, hf, hs, hr, hrsv, hrs⟩

end BG
