import Mathlib
import BandwidthGovernor.Lib.Channel
import BandwidthGovernor.Worker.Runtime

/-! The coordinator server and its worker processes with the network between them.

    Frames and reports travel on first-in-first-out channels, one pair per connection, and the
    scheduler visits the flows it listed one by one, so that anything may happen in between. The
    processes are the workers of `Worker/Runtime.lean`; the acks they ignore are left out. -/

namespace BG

open Lib

structure Cluster where
  gov : Governor
  workers : Table WorkerId ConnId
  dispatched : Table FlowId AttemptId
  /-- Handlers between `register_worker` and the update of `workers_`. -/
  entered : ConnId → Option WorkerId
  /-- The scheduler's pass: the flows it listed, and those it has still to visit. -/
  pass : Option (List FlowSnapshot × List FlowSnapshot)
  outbound : Channels ConnId Frame
  inbound : Channels ConnId Report
  procs : ConnId → Worker

/-- The call a Progress or Completion frame stands for. -/
def Report.op (r : Report) : Op :=
  if r.completed then .reportCompletion r.flow r.attempt r.fgen r.boot r.bytes
  else .reportProgress r.flow r.attempt r.fgen r.boot r.bytes

namespace Cluster

def new (gov : Governor) : Cluster :=
  { gov := gov, workers := .empty, dispatched := .empty, entered := fun _ => none, pass := none
    outbound := .empty, inbound := .empty, procs := fun _ => {} }

/-- Register, first half: a throw is answered with a negative ack and ends the handler. -/
def enter (s : Cluster) (c : ConnId) (reg : WorkerRegistration) : Cluster :=
  match s.gov.registerWorker reg with
  | .error (_, g) => { s with gov := g }
  | .ok g => { s with gov := g, entered := Function.update s.entered c (some reg.worker) }

/-- Register, second half. -/
def own (s : Cluster) (c : ConnId) (w : WorkerId) : Cluster :=
  { s with
    workers := (s.workers.erase w).insert w c
    entered := Function.update s.entered c none }

/-- The end of a handler thread. -/
def close (s : Cluster) (c : ConnId) : Cluster :=
  { s with
    workers := s.workers.filter fun _ c' => !decide (c' = c)
    entered := Function.update s.entered c none }

/-- Where the frames of a listed flow go, with its reservation. -/
def routeOf (s : Cluster) (f : FlowSnapshot) : Option (ConnId × ReservationId) :=
  if f.state = .named .running then do
    let w ← f.assignedWorker
    let rid ← f.reservation
    let _ ← s.gov.reservations.find? rid
    let c ← s.workers.find? w
    pure (c, rid)
  else none

/-- The body of the send loop. -/
def visit (s : Cluster) (f : FlowSnapshot) : Cluster :=
  match s.routeOf f with
  | none => s
  | some (c, rid) =>
    if s.dispatched.find? f.spec.id = some f.spec.attempt then
      { s with outbound := s.outbound.send c [.flowGrant (Server.grantOf f)] }
    else { s with
      outbound := s.outbound.send c [.flowDispatch (Server.dispatchOf f rid)]
      dispatched := s.dispatched.insert f.spec.id f.spec.attempt }

/-- The end of a pass: flows that are not running may be dispatched again. -/
def clean (s : Cluster) (flows : List FlowSnapshot) : Cluster :=
  let running := (flows.filter fun f => decide (f.state = .named .running)).map fun f => f.spec.id
  { s with dispatched := s.dispatched.filter fun fid _ => decide (fid ∈ running), pass := none }

/-- A turn of the process at the end of a connection, with the oldest `n` frames in its inbox. -/
def turn (s : Cluster) (c : ConnId) (n : ℕ) (k : Conversion) (elapsed : ℚ) : Cluster :=
  let t : Turn :=
    { messages := ((s.outbound.pending c).take n).map Message.frame, conversion := k
      elapsed := elapsed }
  let (w, reports) := (s.procs c).turn t
  { s with
    outbound := s.outbound.take c n, inbound := s.inbound.send c reports
    procs := Function.update s.procs c w }

/-- A handler takes a report off its connection. -/
def handle (s : Cluster) (c : ConnId) (r : Report) : Cluster :=
  { s with gov := s.gov.apply r.op, inbound := s.inbound.take c 1 }

/-- A connection breaks. -/
def sever (s : Cluster) (c : ConnId) : Cluster :=
  { s with outbound := s.outbound.cut c, inbound := s.inbound.cut c }

end Cluster

/-- What can happen next: an event at the governor other than the halves of Register and the reports
    of workers, a step of a handler thread, a step of the scheduler's pass, a turn of a process, the
    loss of a connection. -/
inductive ClusterEvent where
  | gov (e : Event)
  | enter (c : ConnId) (reg : WorkerRegistration)
  | own (c : ConnId)
  | close (c : ConnId)
  | list
  | visit
  | clean
  | turn (c : ConnId) (n : ℕ) (k : Conversion) (elapsed : ℚ)
  | report (c : ConnId)
  | sever (c : ConnId)

namespace Cluster

/-- A handler thread works on one frame at a time, the scheduler on one flow. -/
inductive Step : Cluster → ClusterEvent → Cluster → Prop where
  | gov {s : Cluster} {e : Event} {g : Governor} :
      s.gov.Step e g → Step s (.gov e) { s with gov := g }
  | enter {s : Cluster} {c : ConnId} (reg : WorkerRegistration) :
      s.entered c = none → Step s (.enter c reg) (s.enter c reg)
  | own {s : Cluster} {c : ConnId} {w : WorkerId} :
      s.entered c = some w → Step s (.own c) (s.own c w)
  | close (s : Cluster) (c : ConnId) : Step s (.close c) (s.close c)
  | list {s : Cluster} {flows : List FlowSnapshot} : s.pass = none → s.gov.listFlows = .ok flows →
      Step s .list { s with pass := some (flows, flows) }
  | visit {s : Cluster} {flows rest : List FlowSnapshot} {f : FlowSnapshot} :
      s.pass = some (flows, f :: rest) →
      Step s .visit { s.visit f with pass := some (flows, rest) }
  | clean {s : Cluster} {flows : List FlowSnapshot} : s.pass = some (flows, []) →
      Step s .clean (s.clean flows)
  | turn (s : Cluster) (c : ConnId) (n : ℕ) (k : Conversion) (elapsed : ℚ) :
      Step s (.turn c n k elapsed) (s.turn c n k elapsed)
  | report {s : Cluster} {c : ConnId} {r : Report} {rest : List Report} : s.entered c = none →
      s.inbound.pending c = r :: rest → Step s (.report c) (s.handle c r)
  | sever (s : Cluster) (c : ConnId) : Step s (.sever c) (s.sever c)

/-- A cluster state reached from the start, with the events that led there. -/
def Reaches (es : List ClusterEvent) (s : Cluster) : Prop :=
  ∃ g₀, g₀.Fresh ∧ Lib.Run Step (.new g₀) es s

/-- Carry an event out, when it is enabled; a rehash and a clock reading are not ours to choose. -/
def perform (s : Cluster) : ClusterEvent → Option Cluster
  | .gov (.call op) => some { s with gov := s.gov.apply op }
  | .gov _ => none
  | .enter c reg => if s.entered c = none then some (s.enter c reg) else none
  | .own c => (s.entered c).map (s.own c)
  | .close c => some (s.close c)
  | .list => if s.pass.isNone then
      s.gov.listFlows.toOption.map fun flows => { s with pass := some (flows, flows) } else none
  | .visit => match s.pass with
    | some (flows, f :: rest) => some { s.visit f with pass := some (flows, rest) }
    | _ => none
  | .clean => match s.pass with
    | some (flows, []) => some (s.clean flows)
    | _ => none
  | .turn c n k elapsed => some (s.turn c n k elapsed)
  | .report c => match s.inbound.pending c with
    | r :: _ => if s.entered c = none then some (s.handle c r) else none
    | [] => none
  | .sever c => some (s.sever c)

theorem step_perform {s s' : Cluster} {e : ClusterEvent} (h : s.perform e = some s') :
    s.Step e s' := by
  cases e with
  | gov e =>
    cases e with
    | call op => exact Option.some.inj h ▸ .gov (.call s.gov op)
    | clock t => cases h
    | rehash => cases h
  | enter c reg =>
    simp only [perform, Option.ite_none_right_eq_some, Option.some.injEq] at h
    exact h.2 ▸ .enter reg h.1
  | own c =>
    obtain ⟨w, hw, rfl⟩ := Option.map_eq_some_iff.mp h
    exact .own hw
  | close c => exact Option.some.inj h ▸ .close s c
  | list =>
    simp only [perform, Option.ite_none_right_eq_some] at h
    obtain ⟨hpass, h⟩ := h
    obtain ⟨flows, hflows, rfl⟩ := Option.map_eq_some_iff.mp h
    refine .list (Option.isNone_iff_eq_none.mp hpass) ?_
    cases hl : s.gov.listFlows with
    | error e =>
      rw [hl] at hflows
      cases hflows
    | ok l =>
      rw [hl] at hflows
      exact congrArg Except.ok (Option.some.inj hflows)
  | visit =>
    rw [perform] at h
    split at h
    · rename_i hpass
      exact Option.some.inj h ▸ .visit hpass
    · cases h
  | clean =>
    rw [perform] at h
    split at h
    · rename_i hpass
      exact Option.some.inj h ▸ .clean hpass
    · cases h
  | turn c n k elapsed => exact Option.some.inj h ▸ .turn s c n k elapsed
  | report c =>
    rw [perform] at h
    split at h
    · rename_i hr
      simp only [Option.ite_none_right_eq_some, Option.some.injEq] at h
      exact h.2 ▸ .report h.1 hr
    · cases h
  | sever c => exact Option.some.inj h ▸ .sever s c

theorem run_perform {es : List ClusterEvent} {s s' : Cluster} (h : es.foldlM perform s = some s') :
    Lib.Run Step s es s' := .of_foldlM step_perform h

/-! ### The governor of a cluster -/

theorem enter_gov (s : Cluster) (c : ConnId) (reg : WorkerRegistration) :
    (s.enter c reg).gov = s.gov.apply (.registerWorker reg) := by
  have happly : s.gov.apply (.registerWorker reg) = stateAfter id (s.gov.registerWorker reg) := rfl
  rw [happly, enter]
  rcases s.gov.registerWorker reg with ⟨e, g⟩ | g <;> rfl

theorem visit_gov (s : Cluster) (f : FlowSnapshot) : (s.visit f).gov = s.gov := by
  unfold visit
  rcases s.routeOf f with _ | ⟨c, rid⟩
  · rfl
  · dsimp only
    split <;> rfl

/-- What an event of the cluster is to the governor, if anything. -/
def govEvent (s : Cluster) : ClusterEvent → Option Event
  | .gov e => some e
  | .enter _ reg => some (.call (.registerWorker reg))
  | .report c => (s.inbound.pending c).head?.map fun r => .call r.op
  | _ => none

/-- Every step of the cluster is at most one step of its governor. -/
theorem Step.gov_step {s s' : Cluster} {e : ClusterEvent} (hs : s.Step e s') :
    (∃ e', s.govEvent e = some e' ∧ s.gov.Step e' s'.gov) ∨
      s.govEvent e = none ∧ s'.gov = s.gov := by
  cases hs with
  | gov h => exact Or.inl ⟨_, rfl, h⟩
  | @enter c reg =>
    refine Or.inl ⟨_, rfl, ?_⟩
    rw [enter_gov]
    exact .call s.gov _
  | own => exact Or.inr ⟨rfl, rfl⟩
  | close => exact Or.inr ⟨rfl, rfl⟩
  | list => exact Or.inr ⟨rfl, rfl⟩
  | visit => exact Or.inr ⟨rfl, visit_gov s _⟩
  | clean => exact Or.inr ⟨rfl, rfl⟩
  | turn => exact Or.inr ⟨rfl, rfl⟩
  | @report c r rest _ hr =>
    refine Or.inl ⟨.call r.op, by rw [govEvent, hr]; rfl, .call s.gov r.op⟩
  | sever => exact Or.inr ⟨rfl, rfl⟩

end Cluster

end BG
