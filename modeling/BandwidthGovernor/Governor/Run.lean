import BandwidthGovernor.Lib.Run
import BandwidthGovernor.Governor.Snapshot

/-! Runs of the coordinator: any sequence of public operations, in between which the process clock
    may move and the hash tables may change their iteration order. -/

namespace BG

open Lib

/-- The public operations that write state. `load` is `decode_snapshot` followed by `restore`; the
    queries write nothing. -/
inductive Op where
  | setAutoClock (auto : Bool)
  | advanceMs (dt : ℚ)
  | addResource (spec : ResourceSpec)
  | updateCapacity (res : ResourceId) (measured confidence : ℚ) (provenance : Str)
      (measuredLatencyMs : ℚ) (queueDepth : UInt64) (bumpGeneration : Bool)
  | setResourceEnabled (res : ResourceId) (enabled : Bool)
  | invalidateResourceCapacity (res : ResourceId)
  | addPath (path : Path)
  | invalidatePath (path : PathId)
  | submitFlow (spec : FlowSpec)
  | cancelFlow (flow : FlowId) (reason : Str)
  | resumeFlow (flow : FlowId)
  | tick
  | releaseReservation (id : ReservationId)
  | registerWorker (reg : WorkerRegistration)
  | deregisterWorker (worker : WorkerId)
  | reportProgress (flow : FlowId) (attempt : AttemptId) (fgen : FlowGeneration)
      (boot : WorkerBootId) (bytes : UInt64)
  | reportCompletion (flow : FlowId) (attempt : AttemptId) (fgen : FlowGeneration)
      (boot : WorkerBootId) (bytes : UInt64)
  | restore (snap : GovernorSnapshot)

/-- What can happen to the coordinator between two observations. -/
inductive Event where
  | call (op : Op)
  | clock (steady : ℚ)
  | rehash

/-- The state after an operation that may throw. -/
def stateAfter {α : Type} (state : α → Governor) : Except Fault α → Governor
  | .ok a => state a
  | .error (_, g) => g

namespace Governor

/-- The state an operation leaves behind, whether or not it threw. -/
def apply (g : Governor) : Op → Governor
  | .setAutoClock auto => g.setAutoClock auto
  | .advanceMs dt => g.advanceMs dt
  | .addResource spec => g.addResource spec
  | .updateCapacity res measured confidence provenance latency depth bump =>
    stateAfter id (g.updateCapacity res measured confidence provenance latency depth bump)
  | .setResourceEnabled res enabled => g.setResourceEnabled res enabled
  | .invalidateResourceCapacity res => g.invalidateResourceCapacity res
  | .addPath path => stateAfter id (g.addPath path)
  | .invalidatePath path => g.invalidatePath path
  | .submitFlow spec => stateAfter Prod.fst (g.submitFlow spec)
  | .cancelFlow flow reason => stateAfter Prod.fst (g.cancelFlow flow reason)
  | .resumeFlow flow => stateAfter Prod.fst (g.resumeFlow flow)
  | .tick => stateAfter id g.tick
  | .releaseReservation id => (g.releaseReservation id).1
  | .registerWorker reg => stateAfter id (g.registerWorker reg)
  | .deregisterWorker worker => g.deregisterWorker worker
  | .reportProgress flow attempt fgen boot bytes =>
    (g.reportProgress flow attempt fgen boot bytes).1
  | .reportCompletion flow attempt fgen boot bytes =>
    stateAfter Prod.fst (g.reportCompletion flow attempt fgen boot bytes)
  | .restore snap => g.restore snap

/-- Two states that differ only in the iteration order of their tables. -/
structure Rehashed (g h : Governor) : Prop where
  resources : g.resources.Same h.resources
  paths : g.paths.Same h.paths
  flows : g.flows.Same h.flows
  reservations : g.reservations.Same h.reservations
  workers : g.workers.Same h.workers
  tenants : g.tenants.Same h.tenants
  workloads : g.workloads.Same h.workloads
  rest : h = { g with
    resources := h.resources, paths := h.paths, flows := h.flows, reservations := h.reservations
    workers := h.workers, tenants := h.tenants, workloads := h.workloads }

inductive Step : Governor → Event → Governor → Prop where
  | call (g : Governor) (op : Op) : Step g (.call op) (g.apply op)
  | clock (g : Governor) (t : ℚ) : Step g (.clock t) { g with steadyNow := t }
  | rehash {g h : Governor} : Rehashed g h → Step g .rehash h

/-- A governor fresh from its constructor. -/
def Fresh (g : Governor) : Prop := ∃ entropy config steady, g = Governor.new entropy config steady

end Governor

/-- The state after a sequence of operations. -/
def Governor.after (g : Governor) (ops : List Op) : Governor := ops.foldl Governor.apply g

theorem Governor.run_after : ∀ (ops : List Op) (g : Governor),
    Lib.Run Governor.Step g (ops.map Event.call) (g.after ops)
  | [], g => .nil g
  | op :: ops, g => .cons (.call g op) (run_after ops (g.apply op))

/-- Whether a check holds before every operation of a sequence. -/
def Governor.checks (ok : Governor → Event → Bool) : Governor → List Op → Bool
  | _, [] => true
  | g, op :: ops => ok g (.call op) && checks ok (g.apply op) ops

theorem Governor.run_checked {ok : Governor → Event → Bool} : ∀ {ops : List Op} {g : Governor},
    checks ok g ops = true → Lib.Run (fun g e g' => g.Step e g' ∧ ok g e = true) g
      (ops.map Event.call) (g.after ops)
  | [], g, _ => .nil g
  | op :: ops, g, h => by
    rw [checks, Bool.and_eq_true] at h
    exact .cons ⟨.call g op, h.1⟩ (run_checked h.2)

/-- Events other than a restoration. -/
def Event.live : Event → Bool
  | .call (.restore _) => false
  | _ => true

/-- States reachable from a fresh governor without restoration, with the events that led there. -/
def Reaches (es : List Event) (g : Governor) : Prop :=
  (∀ e ∈ es, e.live = true) ∧ ∃ g₀, g₀.Fresh ∧ Lib.Run Governor.Step g₀ es g

/-- A sequence of operations without restoration leads to a reachable state. -/
theorem reaches_after (entropy : UInt64) (config : GovernorConfig) (steady : ℚ) {ops : List Op}
    (h : ∀ op ∈ ops, (Event.call op).live = true) :
    Reaches (ops.map Event.call) ((Governor.new entropy config steady).after ops) :=
  ⟨fun e he => by
      obtain ⟨op, hop, rfl⟩ := List.mem_map.mp he
      exact h op hop,
    _, ⟨entropy, config, steady, rfl⟩, Governor.run_after ops _⟩

/-! ### Sample inputs -/

namespace Sample

def rate (n : ℕ) : Capacity := .setValue n

/-- A link of the given nominal rate. -/
def link (i : UInt64) (n : ℕ) : ResourceSpec :=
  { id := ⟨0, i⟩, nominal := rate n, generation := ⟨0, 1⟩ }

/-- A path over the links with the given ids. -/
def path (i : UInt64) (links : List UInt64) : Path :=
  ⟨⟨0, i⟩, links.map fun r => ⟨⟨0, r⟩, ⟨0, 1⟩⟩, ⟨0, 1⟩⟩

/-- A flow on a path with the given minimum, preferred and maximum rate. -/
def flow (i p : UInt64) (minimum preferred maximum : ℕ) : FlowSpec :=
  { id := ⟨0, i⟩, tenant := ⟨0, 1⟩, workload := ⟨0, 1⟩, attempt := ⟨0, i⟩, generation := ⟨0, 1⟩
    path := ⟨0, p⟩, byteCount := 10, requestedMin := rate minimum
    requestedPreferred := rate preferred, requestedMax := rate maximum }

/-- Worker 1, which backs link 1, under the given boot. -/
def worker (boot : UInt64) : WorkerRegistration :=
  { worker := ⟨0, 1⟩, boot := ⟨0, boot⟩, inventory := [link 1 100] }

/-- A fresh coordinator with a fixed salt. -/
def start : Governor := .new 0 { idSalt := 7 } 0

theorem start_fresh : start.Fresh := ⟨0, _, 0, rfl⟩

/-- One link of rate 100 behind path 1. -/
def oneLink : List Op := [.addResource (link 1 100), .addPath (path 1 [1])]

theorem reaches {ops : List Op} (h : (ops.all fun op => (Event.call op).live) = true) :
    Reaches (ops.map Event.call) (start.after ops) :=
  reaches_after 0 _ 0 fun op hop => List.all_eq_true.mp h op hop

end Sample

end BG
