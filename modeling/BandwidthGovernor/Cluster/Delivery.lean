import Mathlib
import BandwidthGovernor.Lib.Log
import BandwidthGovernor.Governor.Bytes
import BandwidthGovernor.Transport.Pacing
import BandwidthGovernor.Cluster.Network

/-! The bytes the coordinator credits against what the processes report.

    The log of a run is everything the processes have reported. Frames, listed flows, jobs and
    reports all speak of flows by their byte count, which stands; so a report under way stays true,
    and what the governor credits to an attempt is the figure of one report on that attempt. -/

namespace BG

open Lib

/-! ### What a turn reports -/

section
variable {w : Worker} {P : FlowSpec → Prop}

/-- A report on a job: at most its byte count, and all of it on completion. -/
def Report.On (r : Report) (spec : FlowSpec) : Prop :=
  spec.id = r.flow ∧ r.bytes ≤ spec.byteCount ∧ (r.completed = true ↔ r.bytes = spec.byteCount)

theorem Worker.receive_jobs (hw : ∀ fid j, w.jobs.find? fid = some j → P j.spec) {m : Message}
    (hm : ∀ d, m = .frame (.flowDispatch d) → P d.flow) :
    ∀ fid j, (w.receive m).jobs.find? fid = some j → P j.spec := by
  intro fid j hj
  cases m with
  | frame f =>
    cases f with
    | flowDispatch d =>
      simp only [Worker.receive, Table.find?_insert] at hj
      split at hj
      · rw [← Option.some.inj hj]
        exact hm d rfl
      · exact hw fid j hj
    | flowGrant g => exact hw fid j hj
  | flowCancel => exact hw fid j hj
  | shutdown => exact hw fid j hj
  | other => exact hw fid j hj

theorem Worker.foldl_receive_jobs : ∀ (ms : List Message) {w : Worker},
    (∀ fid j, w.jobs.find? fid = some j → P j.spec) →
    (∀ d, Message.frame (.flowDispatch d) ∈ ms → P d.flow) →
    ∀ fid j, (ms.foldl Worker.receive w).jobs.find? fid = some j → P j.spec
  | [], _, hw, _ => hw
  | m :: ms, _, hw, hm => by
    refine foldl_receive_jobs ms (Worker.receive_jobs hw fun d hd => ?_) fun d hd => ?_
    · exact hm d (hd ▸ List.mem_cons_self)
    · exact hm d (List.mem_cons_of_mem m hd)

theorem Worker.Sound.slice_on {k : Conversion} {δ : ℚ} (h : w.Sound) {r : Report}
    (hr : r ∈ (w.slice k δ).2) : ∃ j, w.jobs.find? r.flow = some j ∧ r.On j.spec := by
  have hmem : r ∈ (w.slice k δ).2.filter fun r' => decide (r'.flow = r.flow) :=
    List.mem_filter.mpr ⟨hr, decide_eq_true rfl⟩
  rw [Worker.slice_reports] at hmem
  cases hj : w.jobs.find? r.flow with
  | none =>
    rw [hj] at hmem
    cases hmem
  | some j =>
    obtain ⟨-, hsum, hfin, -, -⟩ := h.shared (k := k) (δ := δ) hj
    rw [hj, Option.elim_some] at hmem
    refine ⟨j, rfl, h.keyed r.flow j hj, ?_⟩
    cases hf : w.finishes k δ r.flow with
    | true =>
      rw [hf, if_pos rfl, List.mem_singleton] at hmem
      have hall : r.bytes = j.spec.byteCount := by
        refine UInt64.toNat_inj.mp ?_
        rw [congrArg Report.bytes hmem, hsum, Nat.min_eq_right (hfin.mp hf)]
      exact ⟨UInt64.le_of_eq hall, iff_of_true (congrArg Report.completed hmem) hall⟩
    | false =>
      rw [hf, if_neg Bool.false_ne_true] at hmem
      have hshort := mt hfin.mpr (by rw [hf]; exact Bool.false_ne_true)
      rw [Nat.min_eq_left (by omega)] at hsum
      split at hmem
      · rw [List.mem_singleton] at hmem
        have hbytes := congrArg Report.bytes hmem
        dsimp only at hbytes
        refine ⟨?_, iff_of_false ?_ ?_⟩
        · rw [UInt64.le_iff_toNat_le, hbytes]
          omega
        · rw [congrArg Report.completed hmem]
          exact Bool.false_ne_true
        · rw [← UInt64.toNat_inj, hbytes]
          omega
      · cases hmem

/-- A turn takes on jobs it was sent, and reports on jobs it has. -/
theorem Worker.Sound.turn_on {t : Turn} (h : w.Sound)
    (hw : ∀ fid j, w.jobs.find? fid = some j → P j.spec)
    (hm : ∀ d, Message.frame (.flowDispatch d) ∈ t.messages → P d.flow) :
    (∀ fid j, (w.turn t).1.jobs.find? fid = some j → P j.spec) ∧
    ∀ r ∈ (w.turn t).2, ∃ spec, P spec ∧ r.On spec := by
  have hw' := Worker.foldl_receive_jobs t.messages hw hm
  have h' := h.foldl_receive t.messages
  unfold Worker.turn
  split
  · exact ⟨hw, fun r hr => by cases hr⟩
  · dsimp only
    generalize t.messages.foldl Worker.receive w = w' at hw' h'
    split
    · refine ⟨fun fid j hj => ?_, fun r hr => ?_⟩
      · rw [(Worker.slice_at fid).1] at hj
        split at hj
        · cases hj
        · exact hw' fid j hj
      · obtain ⟨j, hj, hon⟩ := h'.slice_on hr
        exact ⟨j.spec, hw' _ j hj, hon⟩
    · exact ⟨hw', fun r hr => by cases hr⟩

end

/-! ### Honesty -/

/-- The events of a run in which only the processes report, and nothing is restored. -/
def ClusterEvent.genuine : ClusterEvent → Bool
  | .gov (.call (.reportProgress _ _ _ _ _)) => false
  | .gov (.call (.reportCompletion _ _ _ _ _)) => false
  | .gov e => e.live
  | _ => true

theorem ClusterEvent.genuine_gov {e : Event} (h : (ClusterEvent.gov e).genuine = true) :
    e.live = true ∧ ∀ k, e.kinds k → k.reports = false := by
  cases e with
  | call op =>
    cases op with
    | reportProgress => cases h
    | reportCompletion => cases h
    | restore => cases h
    | tick => exact ⟨rfl, fun k hk => by rcases hk with rfl | rfl | ⟨fid, rfl⟩ <;> rfl⟩
    | registerWorker => exact ⟨rfl, fun k hk => by rcases hk with rfl | rfl | ⟨fid, rfl⟩ <;> rfl⟩
    | _ => exact ⟨rfl, fun k hk => by first | exact hk.elim | (cases hk; rfl)⟩
  | clock => exact ⟨rfl, fun k hk => hk.elim⟩
  | rehash => exact ⟨rfl, fun k hk => hk.elim⟩

theorem Report.op_live (r : Report) : (Event.call r.op).live = true := by
  unfold Report.op
  split <;> rfl

namespace Cluster

/-- What a genuine event is to the governor is live. -/
theorem govEvent_live {s : Cluster} {e : ClusterEvent} {e' : Event} (he : e.genuine = true)
    (hgov : s.govEvent e = some e') : e'.live = true := by
  cases e with
  | gov e =>
    obtain rfl := Option.some.inj hgov
    exact (ClusterEvent.genuine_gov he).1
  | enter c reg => exact Option.some.inj hgov ▸ rfl
  | report c =>
    obtain ⟨r, -, rfl⟩ := Option.map_eq_some_iff.mp hgov
    exact r.op_live
  | _ => cases hgov

end Cluster

/-- A flow spec that agrees with the flow on file. -/
def View.Knows (v : View) (spec : FlowSpec) : Prop := v.byteCount spec.id = some spec.byteCount

theorem View.Knows.byteCount_eq {v : View} {spec : FlowSpec} (h : v.Knows spec) {fid : FlowId}
    (hid : spec.id = fid) {f : FlowRT} (hf : v.flows fid = some f) :
    f.spec.byteCount = spec.byteCount := by
  have hfile : v.byteCount fid = some f.spec.byteCount := by
    rw [View.byteCount, hf, Option.map_some]
  rw [View.Knows, hid, hfile, Option.some.injEq] at h
  exact h

/-- The flow is blank, or a report of the log is the source of its credit. -/
def FlowRT.Credited (log : List Report) (fid : FlowId) (f : FlowRT) : Prop :=
  f.Blank ∨ ∃ r ∈ log, r.flow = fid ∧ r.attempt = f.spec.attempt ∧ r.fgen = f.spec.generation ∧
    r.bytes = f.bytesDone ∧ (f.state = .named .completed → r.completed = true)

theorem FlowRT.Kept.credited {log : List Report} {fid : FlowId} {f f' : FlowRT} (hk : f.Kept f')
    (h : f.Credited log fid) : f'.Credited log fid := by
  rcases h with ⟨hb, hs⟩ | ⟨r, hr, hflow, hattempt, hfgen, hbytes, hdone⟩
  · exact Or.inl ⟨hk.bytes.trans hb, fun hc => hs (hk.completed hc)⟩
  · exact Or.inr ⟨r, hr, hflow, hattempt.trans hk.attempt.symm, hfgen.trans hk.generation.symm,
      hbytes.trans hk.bytes.symm, fun hc => hdone (hk.completed hc)⟩

theorem FlowRT.Credited.mono {log log' : List Report} {fid : FlowId} {f : FlowRT}
    (h : f.Credited log fid) (hlog : ∀ r ∈ log, r ∈ log') : f.Credited log' fid := by
  rcases h with hb | ⟨r, hr, hrest⟩
  · exact Or.inl hb
  · exact Or.inr ⟨r, hlog r hr, hrest⟩

namespace Cluster

/-- What the processes report in an event. -/
def reported (s : Cluster) : ClusterEvent → List Report
  | .turn c n k elapsed => ((s.procs c).turn
      { messages := ((s.outbound.pending c).take n).map Message.frame, conversion := k
        elapsed := elapsed }).2
  | _ => []

/-- What is under way speaks of flows as they are on file, and every credit comes from the log. -/
structure Honest (log : List Report) (s : Cluster) : Prop where
  wf : s.gov.view.WF
  logged : ∀ r ∈ log, ∃ spec, s.gov.view.Knows spec ∧ r.On spec
  inbound : s.inbound.Carries fun _ r => r ∈ log
  outbound : s.outbound.Carries fun _ fr => ∀ d, fr = .flowDispatch d → s.gov.view.Knows d.flow
  pass : ∀ flows rest, s.pass = some (flows, rest) → ∀ f ∈ rest, s.gov.view.Knows f.spec
  sound : ∀ c, (s.procs c).Sound
  jobs : ∀ c fid j, (s.procs c).jobs.find? fid = some j → s.gov.view.Knows j.spec
  credited : ∀ fid f, s.gov.flows.find? fid = some f → f.Credited log fid

theorem honest_new {g₀ : Governor} (h : g₀.Fresh) : Honest [] (.new g₀) where
  wf := h.wf
  logged := fun _ hr => by cases hr
  inbound := Channels.carries_empty
  outbound := Channels.carries_empty
  pass := fun _ _ hp => by cases hp
  sound := fun _ => Worker.sound_new
  jobs := fun _ _ _ hj => by cases hj
  credited := fun fid f hf => by
    have hnone : g₀.view.flows fid = none := h.view.1 fid
    have hsome : g₀.view.flows fid = some f := hf
    rw [hnone] at hsome
    cases hsome

section Steps
variable {log : List Report} {s s' : Cluster}

/-- A step at the governor: what was known stays known, so only the credits are to be shown. -/
theorem Honest.govern (h : s.Honest log) {e : Event} (hs : s.gov.Step e s'.gov)
    (hlive : e.live = true) (hin : ∀ c, ∀ r ∈ s'.inbound.pending c, r ∈ s.inbound.pending c)
    (hout : s'.outbound = s.outbound) (hpass : s'.pass = s.pass) (hprocs : s'.procs = s.procs)
    (hcredited : ∀ fid f, s'.gov.flows.find? fid = some f → f.Credited log fid) :
    s'.Honest log := by
  have hknows : ∀ spec, s.gov.view.Knows spec → s'.gov.view.Knows spec :=
    fun spec hk => hs.byteCount h.wf hlive hk
  refine ⟨(step_ran h.wf hlive hs).wf h.wf, fun r hr => ?_,
    fun c r hr => h.inbound c r (hin c r hr), ?_, fun flows rest hp f hf => ?_, fun c => ?_,
    fun c fid j hj => ?_, hcredited⟩
  · obtain ⟨spec, hk, hon⟩ := h.logged r hr
    exact ⟨spec, hknows spec hk, hon⟩
  · rw [hout]
    exact h.outbound.mono fun c fr hfr d hd => hknows d.flow (hfr d hd)
  · exact hknows f.spec (h.pass flows rest (hpass ▸ hp) f hf)
  · rw [hprocs]
    exact h.sound c
  · rw [hprocs] at hj
    exact hknows j.spec (h.jobs c fid j hj)

/-- A report on file never exceeds its flow, so neither does a credit. -/
theorem Honest.bytes_le (h : s.Honest log) {fid : FlowId} {f : FlowRT}
    (hf : s.gov.flows.find? fid = some f) : f.bytesDone ≤ f.spec.byteCount ∧
      (f.state = .named .completed → f.bytesDone = f.spec.byteCount) := by
  rcases h.credited fid f hf with ⟨hb, hs⟩ | ⟨r, hr, hflow, -, -, hbytes, hdone⟩
  · exact ⟨hb ▸ UInt64.zero_le, fun hc => absurd hc hs⟩
  · obtain ⟨spec, hk, hid, hle, hiff⟩ := h.logged r hr
    rw [hk.byteCount_eq (hid.trans hflow) hf, ← hbytes]
    exact ⟨hle, fun hc => hiff.mp (hdone hc)⟩

/-- A report from the log credits its flow, if it is accepted. -/
theorem Honest.report (h : s.Honest log) {r : Report} (hr : r ∈ log) (fid : FlowId) (f' : FlowRT)
    (hf' : (s.gov.apply r.op).flows.find? fid = some f') : f'.Credited log fid := by
  have hcredit : ∃ state, (state = .named .completed → r.completed = true) ∧
      s.gov.Credits (s.gov.apply r.op) r.flow r.attempt r.fgen r.boot r.bytes state := by
    unfold Report.op
    split
    · rename_i hc
      exact ⟨_, fun _ => hc, s.gov.reportCompletion_credits r.flow r.attempt r.fgen r.boot r.bytes⟩
    · exact ⟨_, fun hc => (by cases hc),
        s.gov.reportProgress_credits r.flow r.attempt r.fgen r.boot r.bytes⟩
  obtain ⟨state, hdone, hcredit⟩ := hcredit
  obtain ⟨f, hf, rfl | ⟨rfl, ha, hspec, hbytes, hstate⟩⟩ := hcredit fid f' hf'
  · exact h.credited fid f' hf
  have hid : f.spec.attempt = r.attempt ∧ f.spec.generation = r.fgen := by
    simp only [Governor.authorised, Bool.and_eq_true, decide_eq_true_eq] at ha
    exact ⟨ha.1.1.1.2, ha.1.1.2⟩
  -- The credit is the figure of the report, unless an earlier progress report had more.
  have hsource : f'.bytesDone = r.bytes → f'.Credited log r.flow := fun hb =>
    Or.inr ⟨r, hr, rfl, hspec ▸ hid.1.symm, hspec ▸ hid.2.symm, hb.symm,
      fun hc => hdone (hstate ▸ hc)⟩
  have hmax : max f.bytesDone r.bytes =
      if f.bytesDone ≤ r.bytes then r.bytes else f.bytesDone := rfl
  rw [hmax] at hbytes
  by_cases hle : f.bytesDone ≤ r.bytes
  · exact hsource (hbytes.trans (if_pos hle))
  rw [if_neg hle] at hbytes
  by_cases hc : r.completed = true
  · -- A completion carries the byte count, which no credit exceeds.
    obtain ⟨spec, hk, hflow, -, hiff⟩ := h.logged r hr
    have hcount : f.spec.byteCount = spec.byteCount := hk.byteCount_eq hflow hf
    exact absurd (hiff.mp hc ▸ hcount ▸ (h.bytes_le hf).1) hle
  · have hopen : f'.state ≠ .named .completed := fun hs => hc (hdone (hstate ▸ hs))
    rcases h.credited r.flow f hf with ⟨hb, -⟩ | ⟨r₀, hr₀, hflow, hattempt, hfgen, hbytes₀, -⟩
    · exact Or.inl ⟨hbytes.trans hb, hopen⟩
    · exact Or.inr ⟨r₀, hr₀, hflow, hspec ▸ hattempt, hspec ▸ hfgen, hbytes₀.trans hbytes.symm,
        fun hs => absurd hs hopen⟩

/-- A step at the governor that is no report. -/
theorem Honest.live (h : s.Honest log) {e : Event} (hs : s.gov.Step e s'.gov)
    (hlive : e.live = true) (hk : ∀ k, e.kinds k → k.reports = false)
    (hin : s'.inbound = s.inbound) (hout : s'.outbound = s.outbound) (hpass : s'.pass = s.pass)
    (hprocs : s'.procs = s.procs) : s'.Honest log :=
  h.govern hs hlive (fun _ _ hr => hin ▸ hr) hout hpass hprocs
    (hs.kept h.wf hlive hk (fun _ _ hb => Or.inl hb) (fun _ _ _ hkept hc => hkept.credited hc)
      h.credited)

/-- Frames and reports may be lost, and flows may be listed anew. -/
theorem Honest.network (h : s.Honest log) (hgov : s'.gov = s.gov)
    (hin : ∀ c, ∀ r ∈ s'.inbound.pending c, r ∈ s.inbound.pending c)
    (hout : s'.outbound.Carries fun _ fr => ∀ d, fr = .flowDispatch d → s.gov.view.Knows d.flow)
    (hpass : ∀ flows rest, s'.pass = some (flows, rest) → ∀ f ∈ rest, s.gov.view.Knows f.spec)
    (hprocs : s'.procs = s.procs) : s'.Honest log := by
  refine ⟨hgov ▸ h.wf, hgov ▸ h.logged, fun c r hr => h.inbound c r (hin c r hr), hgov ▸ hout,
    hgov ▸ hpass, hprocs ▸ h.sound, ?_, hgov ▸ h.credited⟩
  rw [hprocs, hgov]
  exact h.jobs

/-- The flows a pass lists are on file. -/
theorem Honest.listed (h : s.Honest log) {flows : List FlowSnapshot}
    (hl : s.gov.listFlows = .ok flows) : ∀ f ∈ flows, s.gov.view.Knows f.spec := by
  have hrated : ∀ fid f, s.gov.flows.find? fid = some f → f.Rated :=
    fun fid f hf => (h.wf.flowOk hf).rated
  obtain ⟨l, hl', hperm⟩ := listFlows_ok hrated
  obtain rfl : l = flows := Except.ok.inj (hl'.symm.trans hl)
  intro f hf
  obtain ⟨f₀, hf₀, rfl⟩ := List.mem_map.mp (hperm.mem_iff.mp hf)
  obtain ⟨e, he, rfl⟩ := List.mem_map.mp hf₀
  have hfile : s.gov.view.flows e.1 = some e.2 := Table.find?_of_mem he
  have hid : e.2.spec.id = e.1 := h.wf.keyed e.1 e.2 hfile
  rw [View.Knows, flowSnap, hid, View.byteCount, hfile, Option.map_some]

theorem enter_keeps (s : Cluster) (c : ConnId) (reg : WorkerRegistration) :
    (s.enter c reg).inbound = s.inbound ∧ (s.enter c reg).outbound = s.outbound ∧
      (s.enter c reg).pass = s.pass ∧ (s.enter c reg).procs = s.procs := by
  rw [enter]
  rcases s.gov.registerWorker reg with ⟨e, g⟩ | g <;> exact ⟨rfl, rfl, rfl, rfl⟩

theorem visit_keeps (s : Cluster) (f : FlowSnapshot) :
    (s.visit f).inbound = s.inbound ∧ (s.visit f).procs = s.procs ∧
      ∀ P : ConnId → Frame → Prop, s.outbound.Carries P →
        (∀ c d, d.flow = f.spec → P c (.flowDispatch d)) → (∀ c g, P c (.flowGrant g)) →
        (s.visit f).outbound.Carries P := by
  unfold visit
  rcases s.routeOf f with _ | ⟨c, rid⟩
  · exact ⟨rfl, rfl, fun P h _ _ => h⟩
  · dsimp only
    split
    · refine ⟨rfl, rfl, fun P h _ hg => h.send fun m hm => ?_⟩
      rw [List.mem_singleton.mp hm]
      exact hg c _
    · refine ⟨rfl, rfl, fun P h hd _ => h.send fun m hm => ?_⟩
      rw [List.mem_singleton.mp hm]
      exact hd c _ rfl

/-- A turn puts what it reports on the log, and it is true of flows on file. -/
theorem Honest.turn (h : s.Honest log) (c : ConnId) (n : ℕ) (k : Conversion) (elapsed : ℚ) :
    (s.turn c n k elapsed).Honest (log ++ s.reported (.turn c n k elapsed)) := by
  have hm : ∀ d, Message.frame (.flowDispatch d) ∈
      ((s.outbound.pending c).take n).map Message.frame → s.gov.view.Knows d.flow := by
    intro d hd
    obtain ⟨fr, hfr, he⟩ := List.mem_map.mp hd
    exact h.outbound.taken hfr d (Message.frame.inj he)
  obtain ⟨hjobs, hreports⟩ := (h.sound c).turn_on (P := s.gov.view.Knows) (h.jobs c)
    (t := { messages := ((s.outbound.pending c).take n).map Message.frame, conversion := k
            elapsed := elapsed }) hm
  have hsound := (h.sound c).turn
    { messages := ((s.outbound.pending c).take n).map Message.frame, conversion := k
      elapsed := elapsed }
  refine ⟨h.wf, fun r hr => ?_, ?_, h.outbound.take c n, h.pass, fun x => ?_, fun x fid j hj => ?_,
    fun fid f hf => (h.credited fid f hf).mono fun r hr => List.mem_append_left _ hr⟩
  · rcases List.mem_append.mp hr with hr | hr
    · exact h.logged r hr
    · exact hreports r hr
  · exact (h.inbound.mono fun x r hr => List.mem_append_left _ hr).send
      fun r hr => List.mem_append_right _ hr
  · change (Function.update s.procs c _ x).Sound
    by_cases hx : x = c
    · subst hx
      rw [Function.update_self]
      exact hsound
    · rw [Function.update_of_ne hx]
      exact h.sound x
  · change (Function.update s.procs c _ x).jobs.find? fid = some j at hj
    by_cases hx : x = c
    · subst hx
      rw [Function.update_self] at hj
      exact hjobs fid j hj
    · rw [Function.update_of_ne hx] at hj
      exact h.jobs x fid j hj

end Steps

theorem Honest.step {log : List Report} {s s' : Cluster} {e : ClusterEvent} (h : s.Honest log)
    (he : e.genuine = true) (hs : s.Step e s') : s'.Honest (log ++ s.reported e) := by
  have hquiet : ∀ {e : ClusterEvent}, s.reported e = [] → s'.Honest log →
      s'.Honest (log ++ s.reported e) := fun hr hh => by
    rw [hr, List.append_nil]
    exact hh
  cases hs with
  | @gov e g hg =>
    obtain ⟨hlive, hk⟩ := ClusterEvent.genuine_gov he
    exact hquiet rfl (h.live hg hlive hk rfl rfl rfl rfl)
  | @enter c reg =>
    obtain ⟨hin, hout, hpass, hprocs⟩ := s.enter_keeps c reg
    refine hquiet rfl (h.live (e := .call (.registerWorker reg)) ?_ rfl (fun k hk => ?_) hin hout
      hpass hprocs)
    · rw [enter_gov]
      exact .call s.gov _
    · rcases hk with rfl | rfl | ⟨fid, rfl⟩ <;> rfl
  | own => exact hquiet rfl (h.network rfl (fun _ _ hr => hr) h.outbound h.pass rfl)
  | close => exact hquiet rfl (h.network rfl (fun _ _ hr => hr) h.outbound h.pass rfl)
  | list hp hl =>
    refine hquiet rfl (h.network rfl (fun _ _ hr => hr) h.outbound
      (fun flows rest hpass f hf => ?_) rfl)
    obtain ⟨rfl, rfl⟩ := Prod.mk.inj (Option.some.inj hpass)
    exact h.listed hl f hf
  | @visit flows rest f hp =>
    obtain ⟨hin, hprocs, hout⟩ := s.visit_keeps f
    refine hquiet rfl (h.network (s.visit_gov f) (fun c r hr => hin ▸ hr) ?_ ?_ hprocs)
    · refine hout _ h.outbound (fun c d hd d' hd' => ?_) fun c g d hd => by cases hd
      rw [← Frame.flowDispatch.inj hd', hd]
      exact h.pass flows (f :: rest) hp f List.mem_cons_self
    · intro flows' rest' hpass f' hf'
      obtain ⟨rfl, rfl⟩ := Prod.mk.inj (Option.some.inj hpass)
      exact h.pass flows (f :: rest) hp f' (List.mem_cons_of_mem f hf')
  | clean =>
    exact hquiet rfl (h.network rfl (fun _ _ hr => hr) h.outbound (fun _ _ hp => by cases hp) rfl)
  | turn c n k elapsed => exact h.turn c n k elapsed
  | @report c r rest hfree hr =>
    have hmem : r ∈ s.inbound.pending c := hr ▸ List.mem_cons_self
    exact hquiet rfl (h.govern (e := .call r.op) (.call s.gov r.op) r.op_live
      (fun x m hm => Channels.mem_of_take hm) rfl rfl rfl (h.report (h.inbound c r hmem)))
  | sever c =>
    refine hquiet rfl (h.network rfl (fun x m hm => Channels.mem_of_cut hm) ?_ h.pass rfl)
    exact h.outbound.cut c

/-- A run from the start, with everything the processes reported. -/
def Logs (es : List ClusterEvent) (log : List Report) (s : Cluster) : Prop :=
  ∃ g₀ : Governor, g₀.Fresh ∧ Lib.Logged Step reported (.new g₀) es log s

theorem Logs.honest {es : List ClusterEvent} {log : List Report} {s : Cluster} (h : Logs es log s)
    (hes : ∀ e ∈ es, e.genuine = true) : s.Honest log := by
  obtain ⟨g₀, hfresh, hrun⟩ := h
  exact hrun.inv_of (P := fun log s => s.Honest log) (Q := fun e => e.genuine = true)
    (fun _ _ _ _ he hh hs => hh.step he hs) hes (honest_new hfresh)

end Cluster

/-- Every credited byte was reported by a process. In every run of the cluster in which only the
    processes report and nothing is restored, whatever is lost, late or restarted: no flow has more
    bytes than its byte count, a Completed flow has exactly those, and the bytes of a flow, unless
    it has none, are the figure of one report of some process on the attempt and generation the
    flow is in; of a Completed flow, the figure of a completion. -/
theorem credited_was_reported {es : List ClusterEvent} {log : List Report} {s : Cluster}
    (h : Cluster.Logs es log s) (hes : ∀ e ∈ es, e.genuine = true) {fid : FlowId} {f : FlowRT}
    (hf : s.gov.flows.find? fid = some f) :
    f.bytesDone ≤ f.spec.byteCount ∧
    (f.state = .named .completed → f.bytesDone = f.spec.byteCount) ∧
    (f.bytesDone ≠ 0 ∨ f.state = .named .completed →
      ∃ r ∈ log, r.flow = fid ∧ r.attempt = f.spec.attempt ∧ r.fgen = f.spec.generation ∧
        r.bytes = f.bytesDone ∧ (f.state = .named .completed → r.completed = true)) := by
  have hh := h.honest hes
  obtain ⟨hle, hdone⟩ := hh.bytes_le hf
  refine ⟨hle, hdone, fun hsome => (hh.credited fid f hf).resolve_left fun hb => ?_⟩
  exact hsome.elim (fun hn => hn hb.1) hb.2

/-! ### A run to the end -/

namespace Sample

def cluster : Cluster := .new start

/-- A flow of rate 80 with ten bytes is dispatched over connection 1. -/
def dispatching : List ClusterEvent :=
  (oneLink.map fun op => .gov (.call op)) ++
    [.enter 1 (worker 1), .own 1, .gov (.call (.submitFlow (flow 1 1 60 80 100))),
     .gov (.call .tick), .list, .visit, .clean]

/-- It is driven for a second and reported. -/
def delivering : List ClusterEvent := dispatching ++ [.turn 1 1 .wrapping 1000, .report 1]

theorem cluster_logs {es : List ClusterEvent} {s : Cluster}
    (h : es.foldlM Cluster.perform cluster = some s) : ∃ log, Cluster.Logs es log s := by
  obtain ⟨log, hlog⟩ : ∃ log, Lib.Logged Cluster.Step Cluster.reported cluster es log s :=
    (Cluster.run_perform h).logged
  exact ⟨log, start, start_fresh, hlog⟩

end Sample

/-- The theorem for flow 1: it ends Completed with its ten bytes, which a process has reported. -/
theorem credited_was_reported_delivered : ∃ s log f, Cluster.Logs Sample.delivering log s ∧
    s.gov.flows.find? ⟨0, 1⟩ = some f ∧ f.state = .named .completed ∧
    f.bytesDone = f.spec.byteCount ∧ ∃ r ∈ log, r.flow = ⟨0, 1⟩ ∧ r.completed = true := by
  have hend : (Sample.delivering.foldlM Cluster.perform Sample.cluster).bind
      (fun s => (s.gov.flows.find? ⟨0, 1⟩).map FlowRT.state) = some (.named .completed) := by
    decide +kernel
  obtain ⟨s, hs, hend⟩ := Option.bind_eq_some_iff.mp hend
  obtain ⟨f, hf, hstate⟩ := Option.map_eq_some_iff.mp hend
  obtain ⟨log, hlog⟩ := Sample.cluster_logs hs
  have hgenuine : ∀ e ∈ Sample.delivering, e.genuine = true :=
    List.all_eq_true.mp (by decide : Sample.delivering.all ClusterEvent.genuine = true)
  obtain ⟨-, hdone, hsource⟩ := credited_was_reported hlog hgenuine hf
  obtain ⟨r, hr, hflow, -, -, -, hc⟩ := hsource (Or.inr hstate)
  exact ⟨s, log, f, hlog, hf, hstate, hdone hstate, r, hr, hflow, hc hstate⟩

end BG
