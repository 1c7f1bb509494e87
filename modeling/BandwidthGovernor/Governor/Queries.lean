import Mathlib.Data.List.Destutter
import BandwidthGovernor.Persist.Encoding

/-! The queries of the coordinator besides `list_*`: single records, path analysis, explanations and
    the admission preview. They write nothing. -/

namespace BG

open Lib

/-- `operator+=`. -/
def Capacity.add (a b : Capacity) : Capacity := .setValue (a.value + b.value)

structure PathAnalysis where
  path : PathId
  bottleneck : Option ResourceId
  totalRequested : Capacity
  feasible : Capacity
  limitingResource : Option ResourceId
  competingFlows : List FlowId
  saturated : Bool
  capacityGeneration : CapacityGeneration

/-- What `analyze_path` gathers hop by hop. -/
structure PathScan where
  bottleneck : ℚ := kMaxRate
  bottleneckId : Option ResourceId := none
  totalRequested : Capacity := .zero
  competing : List FlowId := []

namespace Governor

def resource (g : Governor) (res : ResourceId) : Except Error (Option ResourceSnapshot) :=
  match g.resources.find? res with
  | none => .ok none
  | some r => do
    let s ← toResourceSnap r g.now g.policy.fairnessWindowMs
    pure (some s)

def flow (g : Governor) (fl : FlowId) : Except Error (Option FlowSnapshot) :=
  match g.flows.find? fl with
  | none => .ok none
  | some f => do
    let s ← toFlowSnap f
    pure (some s)

/-- The hop loop of `analyze_path`; an unregistered hop is skipped. -/
def analyzeHop (g : Governor) (s : PathScan) (hop : PathHop) : PathScan :=
  match g.resources.find? hop.resource with
  | none => s
  | some r =>
    let s := { s with totalRequested := s.totalRequested.add .zero }
    let s := if r.governed < s.bottleneck then
        { s with bottleneck := r.governed, bottleneckId := some hop.resource } else s
    g.flows.entries.foldl (fun s e =>
      if isScheduled e.2.state &&
          (g.hopsOf e.2).any fun fh => decide (fh.resource = hop.resource) then
        { s with competing := s.competing ++ [e.1]
                 totalRequested := s.totalRequested.add e.2.spec.requestedPreferred }
      else s) s

def analyzePath (g : Governor) (path : PathId) : Except Error (Option PathAnalysis) :=
  match g.paths.find? path with
  | none => .ok none
  | some p => do
    let s := p.hops.foldl g.analyzeHop {}
    let feasible ← Capacity.make (max 0 s.bottleneck)
    pure (some
      { path := p.id, bottleneck := s.bottleneckId, totalRequested := s.totalRequested
        feasible := feasible, limitingResource := s.bottleneckId
        competingFlows := (sortById id s.competing).destutter (· ≠ ·)
        saturated := decide (s.totalRequested.value > feasible.value + kEps)
        capacityGeneration := g.capacityGeneration })

/-- The switch of `explain_flow` over the state of the flow. -/
def explainState (d : Decision) : Coded FlowState → Decision
  | .named .running => { d with kind := .named .grant }
  | .named .throttled =>
    { d with kind := .named .throttle, throttleReason := ascii "grant below minimum guarantee" }
  | .named .preempted =>
    { d with kind := .named .preempt
             preemptionReason := ascii "preempted to honor higher priority or guarantee" }
  | .named .queued =>
    { d with kind := .named .defer, deferReason := ascii "waiting for capacity" }
  | _ => { d with kind := .named .defer }

/-- The lowest governed capacity on the registered hops. -/
def lowestHop (g : Governor) (s : ℚ × Option ResourceId) (hop : PathHop) : ℚ × Option ResourceId :=
  match g.resources.find? hop.resource with
  | none => s
  | some r => if r.governed < s.1 then (r.governed, some hop.resource) else s

/-- The bottleneck and generations that `explain_flow` reports for a flow on a known path. -/
def explainPath (g : Governor) (p : Path) (d : Decision) : Decision :=
  let bottleneck := (p.hops.foldl g.lowestHop (kMaxRate, none)).2
  { d with
    bottleneck := bottleneck, capacityGeneration := g.capacityGeneration
    resourceGeneration := match bottleneck with
      | none => g.capacityGeneration
      | some rid => match g.resources.find? rid with
        | none => d.resourceGeneration
        | some r => r.spec.generation }

def explainFlow (g : Governor) (fl : FlowId) : Except Error Decision :=
  let d : Decision := { flow := fl, kind := .named .defer }
  match g.flows.find? fl with
  | none => .ok { d with kindReason := ascii "unknown flow" }
  | some f => do
    let granted ← Capacity.make (max 0 f.granted)
    let d := { d with
      tenant := f.spec.tenant, workload := f.spec.workload
      requested := f.spec.requestedPreferred, granted := granted
      minimumGuarantee := f.spec.requestedMin, preferred := f.spec.requestedPreferred
      maximum := f.spec.requestedMax, path := f.spec.path, priority := f.spec.priority
      latencyClass := f.spec.latencyClass, starvationAge := f.starvationMs / 1000
      burstRemaining := f.burstRemaining }
    let d := explainState d f.state
    let d := { d with
      saturated := decide (f.spec.requestedPreferred.value > f.granted + kEps) }
    let d := match g.paths.find? f.spec.path with
      | none => d
      | some p => g.explainPath p d
    pure { d with factors := [
      ⟨ascii "composite_weight", g.flowWeight f g.now, 1, ascii
        "arbitration weight from priority, latency, deadline, starvation, fairness"⟩,
      ⟨ascii "granted", f.granted, 1, ascii "current governed byte rate"⟩,
      ⟨ascii "starvation_age", d.starvationAge, 1, ascii "seconds waiting for service"⟩] }

/-- The hop loop of `explain_admission`: an unregistered hop is skipped, and the figures are the
    stored ones. -/
def previewHop (g : Governor) (minimum : ℚ) (s : Scan) (hop : PathHop) : Scan :=
  match g.resources.find? hop.resource with
  | none => s
  | some r =>
    let avail := max 0 (r.governed - r.reserved - r.allocated)
    let s := if avail + kEps < minimum then { s with feasible := false } else s
    if avail < s.bottleneckAvail then
      { s with bottleneckAvail := avail, bottleneck := some hop.resource } else s

/-- `explain_admission`, with its out parameter as the result. -/
def explainAdmission (g : Governor) (spec : FlowSpec) : Except Error Decision :=
  match validateFlowSpec spec with
  | some err => .ok { makeDecision spec .reject 0 false err none with rejectReason := ascii err }
  | none => match g.paths.find? spec.path with
    | none =>
      .ok { makeDecision spec .reject 0 false "unknown path" none with
        rejectReason := ascii "unknown path" }
    | some path =>
      let s := path.hops.foldl (g.previewHop spec.requestedMin.value) {}
      if !s.feasible then
        .ok { makeDecision spec .defer 0 true "minimum guarantee infeasible" s.bottleneck with
          deferReason := ascii "minimum guarantee infeasible" }
      else do
        let grant := clamp (min (min spec.requestedPreferred.value spec.requestedMax.value)
          s.bottleneckAvail) spec.requestedMin.value spec.requestedMax.value
        let d := makeDecision spec .admits grant
          (decide (s.bottleneckAvail < spec.requestedPreferred.value)) "admitted" s.bottleneck
        let granted ← Capacity.make grant
        pure { d with granted := granted }

/-- `snapshot` is `build_snapshot_locked` under the lock. -/
def snapshot (g : Governor) : Except Error GovernorSnapshot := g.buildSnapshot

end Governor

end BG
