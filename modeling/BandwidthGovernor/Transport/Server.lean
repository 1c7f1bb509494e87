import Mathlib
import BandwidthGovernor.Governor.Writes

/-! The coordinator server (`transport.cpp`) and the worker processes it drives (`bgworker.cpp`).

    Each connection has a handler thread and a process at the other end; one more thread runs the
    scheduler. A frame that is sent is received at once, and the pacing of a process is kept as the
    rate it applies to each of its jobs. What a thread does under one lock is one event. -/

namespace BG

open Lib

/-- A connection, by the order of acceptance. -/
abbrev ConnId := ℕ

/-- `payload::Dispatch`. -/
structure Dispatch where
  flow : FlowSpec
  attempt : AttemptId
  fgen : FlowGeneration
  boot : WorkerBootId
  grant : Capacity
  reservation : ReservationId

/-- `payload::Grant`. -/
structure Grant where
  flow : FlowId
  attempt : AttemptId
  fgen : FlowGeneration
  boot : WorkerBootId
  grant : Capacity

/-- The frames the scheduler sends. -/
inductive Frame where
  | flowDispatch (d : Dispatch)
  | flowGrant (g : Grant)

/-! ### The worker process -/

structure Job where
  spec : FlowSpec
  attempt : AttemptId
  fgen : FlowGeneration
  boot : WorkerBootId
  reservation : ReservationId
  grant : Capacity

structure Process where
  jobs : Table FlowId Job := .empty
  grants : Table FlowId ℚ := .empty
  accum : Table FlowId UInt64 := .empty

namespace Process

/-- One turn of the message loop. -/
def receive (p : Process) : Frame → Process
  | .flowDispatch d =>
    { jobs := p.jobs.insert d.flow.id
        { spec := d.flow, attempt := d.attempt, fgen := d.fgen, boot := d.boot
          reservation := d.reservation, grant := d.grant }
      grants := p.grants.insert d.flow.id d.grant.value
      accum := p.accum.insert d.flow.id 0 }
  | .flowGrant g => { p with grants := p.grants.insert g.flow g.grant.value }

/-- The rate a job is paced at; `grants[fid]` reads as zero when there is no entry. -/
def held (p : Process) (fid : FlowId) : Option ℚ :=
  (p.jobs.find? fid).map fun _ => (p.grants.find? fid).getD 0

/-- A job whose backend is done is reported and dropped. -/
def finish (p : Process) (fid : FlowId) : Process :=
  { jobs := p.jobs.erase fid, grants := p.grants.erase fid, accum := p.accum.erase fid }

end Process

/-! ### The server -/

structure Server where
  gov : Governor
  workers : Table WorkerId ConnId
  dispatched : Table FlowId AttemptId
  /-- Handlers between `register_worker` and the update of `workers_`. -/
  entered : ConnId → Option WorkerId
  procs : ConnId → Process

namespace Server

/-- A server over a fresh governor. -/
def new (gov : Governor) : Server :=
  { gov := gov, workers := .empty, dispatched := .empty, entered := fun _ => none
    procs := fun _ => {} }

def sendFrame (s : Server) (c : ConnId) (frame : Frame) : Server :=
  { s with procs := Function.update s.procs c ((s.procs c).receive frame) }

/-- First half of the Register handler: the governor's own registration. A throw is answered with
    a negative ack and ends the handler. -/
def enter (s : Server) (c : ConnId) (reg : WorkerRegistration) : Server :=
  match s.gov.registerWorker reg with
  | .error (_, g) => { s with gov := g }
  | .ok g => { s with gov := g, entered := Function.update s.entered c (some reg.worker) }

theorem enter_gov (s : Server) (c : ConnId) (reg : WorkerRegistration) :
    (s.enter c reg).gov = s.gov.apply (.registerWorker reg) := by
  have happly : s.gov.apply (.registerWorker reg) = stateAfter id (s.gov.registerWorker reg) := rfl
  rw [happly, enter]
  rcases s.gov.registerWorker reg with ⟨e, g⟩ | g <;> rfl

/-- Second half: the connection takes the worker's slot. -/
def own (s : Server) (c : ConnId) (w : WorkerId) : Server :=
  { s with
    workers := (s.workers.erase w).insert w c
    entered := Function.update s.entered c none }

/-- The end of a handler thread. -/
def close (s : Server) (c : ConnId) : Server :=
  { s with
    workers := s.workers.filter fun _ c' => !decide (c' = c)
    entered := Function.update s.entered c none }

/-- The dispatch built from a flow snapshot. -/
def dispatchOf (f : FlowSnapshot) (rid : ReservationId) : Dispatch :=
  { flow := f.spec, attempt := f.spec.attempt, fgen := f.spec.generation, boot := f.assignedBoot
    grant := f.granted, reservation := rid }

/-- The grant built from a flow snapshot. -/
def grantOf (f : FlowSnapshot) : Grant :=
  { flow := f.spec.id, attempt := f.spec.attempt, fgen := f.spec.generation, boot := f.assignedBoot
    grant := f.granted }

/-- Where a flow's frames go, with its reservation: a Running flow with an assigned worker that is
    connected and a reservation that is on file. -/
def routeOf (s : Server) (f : FlowSnapshot) : Option (ConnId × ReservationId) :=
  if f.state = .named .running then do
    let w ← f.assignedWorker
    let rid ← f.reservation
    let _ ← s.gov.reservations.find? rid
    let c ← s.workers.find? w
    pure (c, rid)
  else none

/-- The body of the send loop: a dispatch for a new attempt, a grant otherwise. -/
def sendFlow (s : Server) (f : FlowSnapshot) : Server :=
  match s.routeOf f with
  | none => s
  | some (c, rid) =>
    if s.dispatched.find? f.spec.id = some f.spec.attempt then
      s.sendFrame c (.flowGrant (grantOf f))
    else { s.sendFrame c (.flowDispatch (dispatchOf f rid)) with
      dispatched := s.dispatched.insert f.spec.id f.spec.attempt }

/-- The scheduler's pass over the flows, after its tick. -/
def sendLoop (s : Server) : Except Error Server := do
  let flows ← s.gov.listFlows
  let s := flows.foldl sendFlow s
  let running := (flows.filter fun f => decide (f.state = .named .running)).map fun f => f.spec.id
  pure { s with dispatched := s.dispatched.filter fun fid _ => decide (fid ∈ running) }

end Server

/-! ### Runs -/

/-- The events of a server: any event of the governor (frames of other kinds, the scheduler's tick),
    the halves of Register handlers, the end of a connection, the send loop, and a process that
    finishes a job. -/
inductive ServerEvent where
  | gov (e : Event)
  | enter (c : ConnId) (reg : WorkerRegistration)
  | own (c : ConnId)
  | close (c : ConnId)
  | send
  | finish (c : ConnId) (fid : FlowId)

namespace Server

/-- A handler thread works on one frame at a time. -/
inductive Step : Server → ServerEvent → Server → Prop where
  | gov {s : Server} {e : Event} {g : Governor} :
      s.gov.Step e g → Step s (.gov e) { s with gov := g }
  | enter {s : Server} {c : ConnId} (reg : WorkerRegistration) :
      s.entered c = none → Step s (.enter c reg) (s.enter c reg)
  | own {s : Server} {c : ConnId} {w : WorkerId} :
      s.entered c = some w → Step s (.own c) (s.own c w)
  | close (s : Server) (c : ConnId) : Step s (.close c) (s.close c)
  | send {s s' : Server} : s.sendLoop = .ok s' → Step s .send s'
  | finish (s : Server) (c : ConnId) (fid : FlowId) :
      Step s (.finish c fid) { s with procs := Function.update s.procs c ((s.procs c).finish fid) }

/-- A server state reached from the start, with the events that led there. -/
def Reaches (es : List ServerEvent) (s : Server) : Prop :=
  ∃ g₀, g₀.Fresh ∧ Lib.Run Step (.new g₀) es s

/-- Carry an event out, when it is enabled; a rehash and a clock reading are not ours to choose. -/
def perform (s : Server) : ServerEvent → Option Server
  | .gov (.call op) => some { s with gov := s.gov.apply op }
  | .gov _ => none
  | .enter c reg => if s.entered c = none then some (s.enter c reg) else none
  | .own c => (s.entered c).map (s.own c)
  | .close c => some (s.close c)
  | .send => s.sendLoop.toOption
  | .finish c fid =>
    some { s with procs := Function.update s.procs c ((s.procs c).finish fid) }

theorem step_perform {s s' : Server} {e : ServerEvent} (h : s.perform e = some s') :
    s.Step e s' := by
  cases e with
  | gov e =>
    cases e with
    | call op => exact Option.some.inj h ▸ .gov (.call s.gov op)
    | clock t => cases h
    | rehash => cases h
  | enter c reg =>
    simp only [perform, Option.ite_none_right_eq_some, Option.some.injEq] at h
    exact h.2 ▸ .enter reg h.1
  | own c =>
    obtain ⟨w, hw, rfl⟩ := Option.map_eq_some_iff.mp h
    exact .own hw
  | close c => exact Option.some.inj h ▸ .close s c
  | send =>
    cases hok : s.sendLoop with
    | error err =>
      rw [perform, hok] at h
      cases h
    | ok s₁ =>
      rw [perform, hok] at h
      exact Option.some.inj h ▸ .send hok
  | finish c fid => exact Option.some.inj h ▸ .finish s c fid

theorem run_perform {es : List ServerEvent} {s s' : Server} (h : es.foldlM perform s = some s') :
    Lib.Run Step s es s' := .of_foldlM step_perform h

end Server

namespace Sample

def server : Server := .new start

/-- A flow of rate 80 is dispatched to the worker behind connection 1. -/
def serving : List ServerEvent :=
  (oneLink.map fun op => .gov (.call op)) ++
    [.enter 1 (worker 1), .own 1, .gov (.call (.submitFlow (flow 1 1 60 80 100))),
     .gov (.call .tick), .send]

theorem server_reaches {es : List ServerEvent} {s : Server}
    (h : es.foldlM Server.perform server = some s) :
    Server.Reaches es s := ⟨start, start_fresh, Server.run_perform h⟩

end Sample

end BG
