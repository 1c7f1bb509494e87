import Mathlib
import BandwidthGovernor.Governor.Lifecycle
import BandwidthGovernor.Cluster.Delivery

/-! From a dispatch to the completion of its flow.

    A flow ends Completed once the process it was dispatched to has been given the time to move its
    bytes and the reports have arrived. What it takes meanwhile is that the governor goes on
    authorising the dispatch, that the connection holds, and that nothing is dispatched over the
    job; ticks, other flows, other workers and their losses do not matter. -/

namespace BG

open Lib

/-! ### The desk of a flow that is not dispatched again -/

/-- Whether a frame is a dispatch of the flow. -/
def Frame.dispatches (fid : FlowId) : Frame → Bool
  | .flowDispatch d => decide (d.flow.id = fid)
  | .flowGrant _ => false

/-- The job is on the desk, with the credit it has come to. -/
def Desk.Works (d : Desk) (j : Job) (credit : ℕ) : Prop :=
  d.pledge = some (j, credit) ∧ d.done = false ∧ credit < j.spec.byteCount.toNat

namespace Desk
variable {fid : FlowId} {j : Job} {credit : ℕ}

theorem Works.receive {d : Desk} (h : d.Works j credit) {fr : Frame}
    (hfr : fr.dispatches fid = false) : (d.receive fid (.frame fr)).Works j credit := by
  cases fr with
  | flowDispatch x =>
    rw [Desk.receive, if_neg (of_decide_eq_false hfr)]
    exact h
  | flowGrant g =>
    rw [Desk.receive]
    split
    · exact h
    · exact h

theorem Works.foldl_receive : ∀ (frs : List Frame) {d : Desk}, d.Works j credit →
    (∀ fr ∈ frs, fr.dispatches fid = false) →
    ((frs.map Message.frame).foldl (Desk.receive fid) d).Works j credit
  | [], _, h, _ => h
  | fr :: frs, _, h, hfrs => by
    rw [List.forall_mem_cons] at hfrs
    exact Works.foldl_receive frs (h.receive hfrs.1) hfrs.2

/-- A slice goes on with the job, or completes it. -/
theorem Works.slice {d : Desk} (h : d.Works j credit) (k : Conversion) (δ : ℚ) :
    (d.slice fid k δ).1.Works j (credit + (Worker.budget k δ d.rate).toNat) ∨
      Desk.report fid j j.spec.byteCount.toNat true ∈ (d.slice fid k δ).2 := by
  obtain ⟨hp, hdone, -⟩ := h
  rw [Desk.slice, hp]
  dsimp only
  rw [Desk.pay]
  split
  · exact Or.inr (List.mem_singleton_self _)
  · exact Or.inl ⟨rfl, hdone, by omega⟩

end Desk

/-! ### Serving a flow -/

namespace Cluster

/-- What a turn of the process behind `c` is worth to the flow, in bytes. -/
def earned (c : ConnId) (fid : FlowId) (s : Cluster) : ClusterEvent → ℕ
  | .turn c' n k elapsed =>
    if c' = c ∧ elapsed ≥ 1 then
      (Worker.budget k elapsed ((((s.outbound.pending c).take n).map Message.frame).foldl
        (Desk.receive fid) ((s.procs c).desk fid)).rate).toNat
    else 0
  | _ => 0

/-- The flow is Completed. -/
def Ended (s : Cluster) (fid : FlowId) : Prop :=
  ∃ f, s.gov.flows.find? fid = some f ∧ f.state = .named .completed

/-- The governor would accept a report under the identity of the job. -/
def Authorises (s : Cluster) (fid : FlowId) (j : Job) : Prop :=
  ∃ f, s.gov.flows.find? fid = some f ∧ s.gov.authorised f j.attempt j.fgen j.boot = true

/-- What a step must leave alone: the connection, the authority of the job until the flow is
    Completed, and the job itself. -/
structure Favours (c : ConnId) (fid : FlowId) (j : Job) (e : ClusterEvent) (s : Cluster) :
    Prop where
  connected : e ≠ .sever c
  authority : s.Ended fid ∨ s.Authorises fid j
  frames : ∀ fr ∈ s.outbound.pending c, fr.dispatches fid = false

/-- A completion of the job is on its way to the coordinator. -/
def Announced (s : Cluster) (c : ConnId) (fid : FlowId) (j : Job) : Prop :=
  Desk.report fid j j.spec.byteCount.toNat true ∈ s.inbound.pending c

/-- The process is at work on the job, or has announced its completion, or the flow is Completed. -/
structure Serves (c : ConnId) (fid : FlowId) (j : Job) (credit : ℕ) (s : Cluster) : Prop where
  frames : ∀ fr ∈ s.outbound.pending c, fr.dispatches fid = false
  authority : s.Ended fid ∨ s.Authorises fid j
  progress : s.Ended fid ∨ s.Announced c fid j ∨ ((s.procs c).desk fid).Works j credit

section Steps
variable {log : List Report} {s s' : Cluster} {c : ConnId} {fid : FlowId} {j : Job} {credit : ℕ}

/-- A flow stays Completed. -/
theorem Ended.step {e : ClusterEvent} (h : s.Ended fid) (hh : s.Honest log)
    (he : e.genuine = true) (hs : s.Step e s') : s'.Ended fid := by
  obtain ⟨f, hf, hstate⟩ := h
  rcases hs.gov_step with ⟨e', hgov, hstep⟩ | ⟨-, hgov⟩
  · obtain ⟨f', hf', hset⟩ := (step_ran hh.wf (govEvent_live he hgov) hstep).inv
      (I := fun v => ∃ f', v.flows fid = some f' ∧ Settled f f')
      (fun v k w _ hv ht => by
        obtain ⟨f₁, hf₁, h₁⟩ := hv
        obtain ⟨f₂, hf₂, h₂⟩ := ht.settled hf₁ (by rw [h₁.state, hstate]; rfl)
        exact ⟨f₂, hf₂, h₁.trans h₂⟩) ⟨f, hf, .refl f⟩
    exact ⟨f', hf', hset.state.trans hstate⟩
  · exact ⟨f, hgov ▸ hf, hstate⟩

/-- An authorised completion ends the flow. -/
theorem Authorises.complete (h : s.Authorises fid j) {r : Report} (hflow : r.flow = fid)
    (hattempt : r.attempt = j.attempt) (hfgen : r.fgen = j.fgen) (hboot : r.boot = j.boot)
    (hdone : r.completed = true) : (s.handle c r).Ended fid := by
  obtain ⟨f, hf, ha⟩ := h
  have hop : (s.handle c r).gov = stateAfter Prod.fst
      (s.gov.reportCompletion fid j.attempt j.fgen j.boot r.bytes) := by
    rw [handle, Report.op, if_pos hdone, hflow, hattempt, hfgen, hboot]
    rfl
  rw [Ended, hop]
  unfold Governor.reportCompletion
  rw [hf]
  dsimp only
  rw [if_pos ha, Governor.setFlowState_completed (Governor.authorised_running ha)]
  refine ⟨{ f with bytesDone := max f.bytesDone r.bytes, state := .named .completed
                   lastMs := s.gov.now }, ?_, rfl⟩
  change (Governor.view _).flows fid = _
  simp only [stateAfter, Governor.view_recomputeUsage, Governor.view_releaseOf,
    Governor.view_countCompletion, Governor.view_insertFlow, View.releaseOf_flows]
  exact View.setFlow_self _ _ _

/-- Only its own turns change a process. -/
theorem Step.procs_eq {e : ClusterEvent} (hs : s.Step e s') (he : ∀ n k δ, e ≠ .turn c n k δ) :
    s'.procs c = s.procs c := by
  cases hs with
  | enter reg => rw [(s.enter_keeps _ reg).2.2.2]
  | visit => rw [← (s.visit_keeps _).2.1]
  | turn c' n k δ =>
    have hne : c ≠ c' := fun hc => he n k δ (hc ▸ rfl)
    simp only [Cluster.turn, Function.update_of_ne hne]
  | _ => rfl

/-- A report on its way gets lost with the connection only. -/
theorem Step.inbound_mem {e : ClusterEvent} (hs : s.Step e s') (he : e ≠ .sever c) {r : Report}
    (hr : r ∈ s.inbound.pending c) :
    r ∈ s'.inbound.pending c ∨ s' = s.handle c r := by
  cases hs with
  | @enter c' reg => exact Or.inl ((s.enter_keeps c' reg).1 ▸ hr)
  | @visit flows rest f => exact Or.inl ((s.visit_keeps f).1 ▸ hr)
  | turn c' n k δ =>
    refine Or.inl ?_
    rw [Cluster.turn]
    by_cases hc : c = c'
    · subst hc
      rw [Channels.send_self]
      exact List.mem_append_left _ hr
    · rw [Channels.send_of_ne _ _ hc]
      exact hr
  | @report c' r' rest hfree hpending =>
    by_cases hc : c = c'
    · subst hc
      rw [hpending] at hr
      rcases List.mem_cons.mp hr with rfl | hr
      · exact Or.inr rfl
      · refine Or.inl ?_
        change r ∈ (s.inbound.take c 1).pending c
        rw [Channels.take_self, hpending]
        exact hr
    · exact Or.inl ((Channels.take_of_ne s.inbound 1 hc).symm ▸ hr)
  | sever c' =>
    refine Or.inl ?_
    have hne : c ≠ c' := fun hc => he (hc ▸ rfl)
    change r ∈ Function.update s.inbound.pending c' [] c
    rw [Function.update_of_ne hne]
    exact hr
  | _ => exact Or.inl hr

/-- A turn of the process goes on with the job, or announces its completion. -/
theorem Serves.turn (h : s.Serves c fid j credit) (hh : s.Honest log)
    (hworks : ((s.procs c).desk fid).Works j credit) (n : ℕ) (k : Conversion) (δ : ℚ) :
    (((s.turn c n k δ).procs c).desk fid).Works j
        (credit + s.earned c fid (.turn c n k δ)) ∨
      (s.turn c n k δ).Announced c fid j := by
  have hframes : ∀ fr ∈ (s.outbound.pending c).take n, fr.dispatches fid = false :=
    fun fr hfr => h.frames fr (List.mem_of_mem_take hfr)
  obtain ⟨hdesk, hreports⟩ := Worker.turn_desk (hh.sound c) fid
    { messages := ((s.outbound.pending c).take n).map Message.frame, conversion := k
      elapsed := δ }
  have hworks' := hworks.foldl_receive _ hframes
  rw [Desk.turn, if_neg (by rw [hworks.2.1]; exact Bool.false_ne_true)] at hdesk hreports
  dsimp only at hdesk hreports
  have hprocs : (s.turn c n k δ).procs c = ((s.procs c).turn
      { messages := ((s.outbound.pending c).take n).map Message.frame, conversion := k
        elapsed := δ }).1 := Function.update_self ..
  rw [hprocs, hdesk, earned]
  by_cases hδ : δ ≥ 1
  · rw [if_pos hδ] at hreports
    rw [if_pos hδ, if_pos ⟨rfl, hδ⟩]
    refine (hworks'.slice k δ).imp_right fun hmem => ?_
    rw [← hreports] at hmem
    change _ ∈ (s.inbound.send c _).pending c
    rw [Channels.send_self]
    exact List.mem_append_right _ (List.mem_filter.mp hmem).1
  · rw [if_neg hδ, if_neg fun hc => hδ hc.2, Nat.add_zero]
    exact Or.inl hworks'

theorem earned_other {e : ClusterEvent} (he : ∀ n k δ, e ≠ .turn c n k δ) :
    s.earned c fid e = 0 := by
  cases e with
  | turn c' n k δ =>
    rw [earned, if_neg]
    rintro ⟨rfl, -⟩
    exact he n k δ rfl
  | _ => rfl

/-- A favourable step keeps serving the flow. -/
theorem Serves.step {e : ClusterEvent} (h : s.Serves c fid j credit) (hh : s.Honest log)
    (he : e.genuine = true) (hs : s.Step e s') (hfav : s'.Favours c fid j e) :
    s'.Serves c fid j (credit + s.earned c fid e) := by
  refine ⟨hfav.frames, hfav.authority, ?_⟩
  rcases h.progress with hend | hann | hworks
  · exact Or.inl (hend.step hh he hs)
  · rcases hs.inbound_mem hfav.connected hann with hmem | rfl
    · exact Or.inr (Or.inl hmem)
    · refine Or.inl ?_
      rcases h.authority with hend | hauth
      · exact hend.step hh he hs
      · exact hauth.complete rfl rfl rfl rfl rfl
  · by_cases hturn : ∃ n k δ, e = .turn c n k δ
    · obtain ⟨n, k, δ, rfl⟩ := hturn
      cases hs
      exact Or.inr (h.turn hh hworks n k δ).symm
    · have hne : ∀ n k δ, e ≠ .turn c n k δ := fun n k δ he => hturn ⟨n, k, δ, he⟩
      rw [earned_other hne, hs.procs_eq hne]
      exact Or.inr (Or.inr hworks)

end Steps

end Cluster

/-- Flows are completed. A process has a job with some credit, and from then on the connection
    holds, the governor authorises the job until its flow is Completed and sends no other dispatch
    of it; anything else may happen. Once the turns of the process have been worth the bytes that
    were missing and its reports have been handled, the flow is Completed with exactly its bytes. -/
theorem service_completes {es₀ es : List ClusterEvent} {log₀ : List Report} {s s' : Cluster}
    (h : Cluster.Logs es₀ log₀ s) (hes₀ : ∀ e ∈ es₀, e.genuine = true) {c : ConnId} {fid : FlowId}
    {j : Job} {credit : ℕ} (hworks : ((s.procs c).desk fid).Works j credit)
    (hauth : s.Authorises fid j)
    (hframes : ∀ fr ∈ s.outbound.pending c, fr.dispatches fid = false) {worth : List ℕ}
    (hrun : Lib.Logged (fun s e s' => s.Step e s' ∧ s'.Favours c fid j e)
      (fun s e => [s.earned c fid e]) s es worth s')
    (hes : ∀ e ∈ es, e.genuine = true)
    (hworth : j.spec.byteCount.toNat ≤ credit + worth.sum)
    (hquiet : s'.inbound.pending c = []) :
    ∃ f, s'.gov.flows.find? fid = some f ∧ f.state = .named .completed ∧
      f.bytesDone = f.spec.byteCount := by
  have hstart : s.Serves c fid j (credit + ([] : List ℕ).sum) :=
    ⟨hframes, Or.inr hauth, Or.inr (Or.inr hworks)⟩
  obtain ⟨⟨log, hh⟩, hserves⟩ := hrun.inv_of
    (P := fun worth s => (∃ log, s.Honest log) ∧ s.Serves c fid j (credit + worth.sum))
    (Q := fun e => e.genuine = true) (fun worth s e s' he hp hs => by
      obtain ⟨⟨log, hh⟩, hserves⟩ := hp
      refine ⟨⟨_, hh.step he hs.1⟩, ?_⟩
      rw [List.sum_append, List.sum_singleton, ← Nat.add_assoc]
      exact hserves.step hh he hs.1 hs.2) hes ⟨⟨_, h.honest hes₀⟩, hstart⟩
  rw [List.nil_append] at hserves
  rcases hserves.progress with ⟨f, hf, hstate⟩ | hann | ⟨-, -, hshort⟩
  · exact ⟨f, hf, hstate, (hh.bytes_le hf).2 hstate⟩
  · rw [Cluster.Announced, hquiet] at hann
    cases hann
  · exact absurd hworth (Nat.not_le.mpr hshort)

/-! ### A flow that is served -/

namespace Sample

/-- The process behind connection 1 takes the dispatch of flow 1. -/
def taking : List ClusterEvent := dispatching ++ [.turn 1 1 .wrapping 0]

def taken : Cluster := (taking.foldlM Cluster.perform cluster).get (by decide +kernel)

def pledged : Job := ((taken.procs 1).jobs.find? ⟨0, 1⟩).get (by decide +kernel)

def ticked : Cluster := { taken with gov := taken.gov.apply .tick }

def driving : Cluster := ticked.turn 1 0 .wrapping 1000

def served : Cluster :=
  driving.handle 1 ((driving.inbound.pending 1).head
    (List.ne_nil_of_length_pos (by decide +kernel)))

def isAuthorised (s : Cluster) : Bool :=
  (s.gov.flows.find? ⟨0, 1⟩).elim false fun f =>
    s.gov.authorised f pledged.attempt pledged.fgen pledged.boot

theorem authorises {s : Cluster} (h : isAuthorised s = true) : s.Authorises ⟨0, 1⟩ pledged := by
  unfold isAuthorised at h
  cases hf : s.gov.flows.find? ⟨0, 1⟩ with
  | none =>
    rw [hf] at h
    cases h
  | some f =>
    rw [hf, Option.elim_some] at h
    exact ⟨f, hf, h⟩

theorem favours {s : Cluster} {e : ClusterEvent} (he : e ≠ .sever 1)
    (ha : s.Ended ⟨0, 1⟩ ∨ s.Authorises ⟨0, 1⟩ pledged)
    (hf : ((s.outbound.pending 1).all fun fr => !fr.dispatches ⟨0, 1⟩) = true) :
    s.Favours 1 ⟨0, 1⟩ pledged e :=
  ⟨he, ha, fun fr hfr => by simpa using List.all_eq_true.mp hf fr hfr⟩

end Sample

/-- The theorem for flow 1: a tick, a second of work, and its report. -/
theorem service_completes_served : ∃ f, Sample.served.gov.flows.find? ⟨0, 1⟩ = some f ∧
    f.state = .named .completed ∧ f.bytesDone = f.spec.byteCount := by
  have hperform : Sample.taking.foldlM Cluster.perform Sample.cluster = some Sample.taken :=
    (Option.some_get _).symm
  obtain ⟨log, hlog⟩ := Sample.cluster_logs hperform
  have hpledge : ((Sample.taken.procs 1).desk ⟨0, 1⟩).pledge = some (Sample.pledged, 0) := by
    have hmoved : ((Sample.taken.procs 1).moved ⟨0, 1⟩).toNat = 0 := by decide +kernel
    have hjob : (Sample.taken.procs 1).jobs.find? ⟨0, 1⟩ = some Sample.pledged :=
      (Option.some_get _).symm
    rw [Worker.desk, hmoved, hjob]
    rfl
  have hended : (Sample.served.gov.flows.find? ⟨0, 1⟩).map FlowRT.state =
      some (.named .completed) := by decide +kernel
  obtain ⟨f, hf, hstate⟩ := Option.map_eq_some_iff.mp hended
  have hgenuine : ∀ e ∈ Sample.taking, e.genuine = true := List.all_eq_true.mp (by decide)
  refine @service_completes _ [.gov (.call .tick), .turn 1 0 .wrapping 1000, .report 1] log _ _ hlog
    hgenuine 1 ⟨0, 1⟩ Sample.pledged 0 ⟨hpledge, by decide +kernel, by decide +kernel⟩
    (Sample.authorises (by decide +kernel)) ?_ _ (.cons ⟨.gov (.call _ .tick), ?_⟩ (.cons
      ⟨.turn Sample.ticked 1 0 _ _, ?_⟩ (.cons ⟨.report ?_ (List.cons_head_tail _).symm, ?_⟩
        (.nil Sample.served)))) (List.all_eq_true.mp (by decide)) (by decide +kernel)
    (List.eq_nil_of_length_eq_zero (by decide +kernel))
  · exact fun fr hfr => by
      simpa using List.all_eq_true.mp (by decide +kernel : ((Sample.taken.outbound.pending 1).all
        fun fr => !fr.dispatches ⟨0, 1⟩) = true) fr hfr
  · exact Sample.favours (by simp) (Or.inr (Sample.authorises (by decide +kernel)))
      (by decide +kernel)
  · exact Sample.favours (by simp) (Or.inr (Sample.authorises (by decide +kernel)))
      (by decide +kernel)
  · decide +kernel
  · exact Sample.favours (by simp) (Or.inl ⟨f, hf, hstate⟩) (by decide +kernel)

end BG
