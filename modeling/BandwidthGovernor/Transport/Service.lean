import Mathlib
import BandwidthGovernor.Transport.Framing

/-! The handler of a connection over its bytes (`handle_connection` in `transport.cpp`).

    A handler receives frames, decodes a request, runs it and sends a frame back; an exception on
    the way is answered with a negative ack, and a frame that cannot be received ends the
    connection. On encoded requests the bytes do not show: `serve` is `runs`, and the replies decode
    to the outcomes. The state file keeps what was written last; its file system does not fail. -/

namespace BG

open Lib

/-- What the handlers work on. -/
structure Service where
  gov : Governor
  workers : Table WorkerId ConnId := .empty
  file : Option Bytes := none

/-- `what()`. -/
def Error.what : Error → String
  | .value text => text
  | .transition text => text

/-! ### Requests -/

inductive Request where
  | register (r : Register)
  | submitFlow (spec : FlowSpec)
  | progress (r : Report)
  | completion (r : Report)
  | queryResources
  | queryFlows
  | queryReservations
  | snapshot
  | save
  | load

inductive Outcome where
  | registered (a : RegisterAck)
  | admitted (a : AdmissionWire)
  | ack (a : Ack)
  | response (r : Response)

/-- The ack that answers an exception. -/
def Outcome.refused (what : String) : Outcome := .ack { ok := false, reason := ascii what }

def Outcome.body (b : Bytes) : Outcome := .response { ok := true, message := [], body := b }

def Register.registration (r : Register) : WorkerRegistration :=
  { worker := r.worker, boot := r.boot, inventory := r.inventory, protocolVersion := r.protocol
    backend := r.backend }

namespace Service

/-- The state and the outcome when the body of a response may throw. -/
def respond (s : Service) : Except Error Bytes → Service × Outcome
  | .error e => (s, .refused e.what)
  | .ok b => (s, .body b)

/-- The cases of the switch, each from the decoded request to what is sent. -/
def run (s : Service) (c : ConnId) : Request → Service × Outcome
  | .register r => match s.gov.registerWorker r.registration with
    | .error (e, g) => ({ s with gov := g }, .refused e.what)
    | .ok g => ({ s with gov := g, workers := (s.workers.erase r.worker).insert r.worker c },
      .registered { ok := true, coordinator := g.coordinator, epoch := g.epoch
                    generation := g.capacityGeneration, reason := [] })
  | .submitFlow spec => match s.gov.submitFlow spec with
    | .error (e, g) => ({ s with gov := g }, .refused e.what)
    | .ok (g, r) => ({ s with gov := g },
      .admitted { admitted := r.admitted, flow := spec, decision := r.decision
                  reservation := r.reservation })
  | .progress r =>
    let (g, ok) := s.gov.reportProgress r.flow r.attempt r.fgen r.boot r.bytes
    ({ s with gov := g }, .ack { ok := ok, reason := [] })
  | .completion r => match s.gov.reportCompletion r.flow r.attempt r.fgen r.boot r.bytes with
    | .error (e, g) => ({ s with gov := g }, .refused e.what)
    | .ok (g, ok) => ({ s with gov := g }, .ack { ok := ok, reason := [] })
  | .queryResources => s.respond (s.gov.listResources >>= encodeResourceSnapshot)
  | .queryFlows => s.respond (s.gov.listFlows >>= encodeFlowSnapshot)
  | .queryReservations => s.respond (encodeReservationSnapshot s.gov.listReservations)
  | .snapshot => s.respond s.gov.save
  | .save => match s.gov.save with
    | .error e => (s, .refused e.what)
    | .ok b => ({ s with file := some b }, .body [])
  | .load => match s.file with
    | none => (s, .refused "could not open state file for read: bandwidth.entity")
    | some b =>
      if b.isEmpty then (s, .refused "state file is empty")
      else match s.gov.load b with
        | .error e => (s, .refused e.what)
        | .ok g => ({ s with gov := g }, .body [])

/-- Requests one after the other, with their outcomes. -/
def runs (c : ConnId) : Service → List Request → Service × List Outcome
  | s, [] => (s, [])
  | s, r :: rs =>
    let (s, o) := s.run c r
    let (s, os) := runs c s rs
    (s, o :: os)

end Service

/-! ### Frames -/

/-- The frame a request is sent in. -/
def Request.frame : Request → Except Error DecodedFrame
  | .register r => (encodeRegister r).map fun b => ⟨.named .register, b⟩
  | .submitFlow spec => (encodeFlowSpec spec).map fun b => ⟨.named .submitFlow, b⟩
  | .progress r => (encodeReport r).map fun b => ⟨.named .progress, b⟩
  | .completion r => (encodeReport r).map fun b => ⟨.named .completion, b⟩
  | .queryResources => .ok ⟨.named .queryResources, []⟩
  | .queryFlows => .ok ⟨.named .queryFlows, []⟩
  | .queryReservations => .ok ⟨.named .queryReservations, []⟩
  | .snapshot => .ok ⟨.named .snapshot, []⟩
  | .save => .ok ⟨.named .save, []⟩
  | .load => .ok ⟨.named .load, []⟩

/-- What the switch makes of a frame; other types are passed over. -/
def DecodedFrame.request (m : DecodedFrame) : Except Error (Option Request) :=
  match m.type with
  | .named .register => (decodeRegister m.payload).map fun r => some (.register r)
  | .named .submitFlow => (decodeFlowSpec m.payload).map fun f => some (.submitFlow f)
  | .named .progress => (decodeReport m.payload).map fun r => some (.progress r)
  | .named .completion => (decodeReport m.payload).map fun r => some (.completion r)
  | .named .queryResources => .ok (some .queryResources)
  | .named .queryFlows => .ok (some .queryFlows)
  | .named .queryReservations => .ok (some .queryReservations)
  | .named .snapshot => .ok (some .snapshot)
  | .named .save => .ok (some .save)
  | .named .load => .ok (some .load)
  | _ => .ok none

def Outcome.frame : Outcome → Except Error DecodedFrame
  | .registered a => (encodeRegisterAck a).map fun b => ⟨.named .registerAck, b⟩
  | .admitted a => (encodeAdmission a).map fun b => ⟨.named .submitAck, b⟩
  | .ack a => (encodeAck a).map fun b => ⟨.named .ack, b⟩
  | .response r => (encodeResponse r).map fun b => ⟨.named .response, b⟩

/-- What a client makes of a frame. -/
def DecodedFrame.outcome (m : DecodedFrame) : Except Error (Option Outcome) :=
  match m.type with
  | .named .registerAck => (decodeRegisterAck m.payload).map fun a => some (.registered a)
  | .named .submitAck => (decodeAdmission m.payload).map fun a => some (.admitted a)
  | .named .ack => (decodeAck m.payload).map fun a => some (.ack a)
  | .named .response => (decodeResponse m.payload).map fun r => some (.response r)
  | _ => .ok none

/-- The frame that is sent: when an outcome cannot be written, that exception is answered. -/
def Outcome.sent (o : Outcome) : List DecodedFrame :=
  match o.frame with
  | .ok m => [m]
  | .error e => (Outcome.refused e.what).frame.toOption.toList

namespace Service

/-- One turn of the handler. -/
def handle (s : Service) (c : ConnId) (m : DecodedFrame) : Service × List DecodedFrame :=
  match m.request with
  | .error e => (s, (Outcome.refused e.what).sent)
  | .ok none => (s, [])
  | .ok (some r) =>
    let (s, o) := s.run c r
    (s, o.sent)

/-- At most `n` turns of the handler, up to the first frame that cannot be received. -/
def serve (c : ConnId) : ℕ → Service → Stream → Service × List DecodedFrame
  | 0, s, _ => (s, [])
  | n + 1, s, stream => match recvFrame stream with
    | .ok (some (m, stream)) =>
      let (s, out) := s.handle c m
      let (s, rest) := serve c n s stream
      (s, out ++ rest)
    | _ => (s, [])

end Service

/-! ### Requests and outcomes read back -/

def Request.Sendable : Request → Prop
  | .register r => r.Sendable
  | .submitFlow spec => spec.Sendable
  | _ => True

def Outcome.Sendable : Outcome → Prop
  | .registered a => a.Sendable
  | .admitted a => a.Sendable
  | .ack a => a.Sendable
  | .response r => r.Sendable

/-- A message that round-trips does so inside a frame. -/
theorem framed {α β : Type} {encode : α → Sink Error} {decode : Bytes → Except Error α} {v : α}
    (h : RoundTrips encode decode v) (type : Coded WireType) (wrap : α → β) :
    ∃ b, (encode v).map (DecodedFrame.mk type) = .ok ⟨type, b⟩ ∧
      (decode b).map (fun a => some (wrap a)) = .ok (some (wrap v)) := by
  obtain ⟨b, hb, hd⟩ := h
  exact ⟨b, by rw [hb]; rfl, by rw [hd]; rfl⟩

theorem Request.request_frame {r : Request} (h : r.Sendable) :
    ∃ m, r.frame = .ok m ∧ m.request = .ok (some r) := by
  cases r with
  | register r =>
    obtain ⟨b, hb, hd⟩ := framed (register_roundTrips h) (.named .register) Request.register
    exact ⟨_, hb, hd⟩
  | submitFlow spec =>
    have hspec : RoundTrips encodeFlowSpec decodeFlowSpec spec :=
      roundTrips_of_delivers (delivers_spec h)
    obtain ⟨b, hb, hd⟩ := framed hspec (.named .submitFlow) Request.submitFlow
    exact ⟨_, hb, hd⟩
  | progress r =>
    obtain ⟨b, hb, hd⟩ := framed (report_roundTrips r) (.named .progress) Request.progress
    exact ⟨_, hb, hd⟩
  | completion r =>
    obtain ⟨b, hb, hd⟩ := framed (report_roundTrips r) (.named .completion) Request.completion
    exact ⟨_, hb, hd⟩
  | _ => exact ⟨_, rfl, rfl⟩

theorem Outcome.outcome_frame {o : Outcome} (h : o.Sendable) :
    ∃ m, o.sent = [m] ∧ m.outcome = .ok (some o) := by
  have hsent : ∀ {m : DecodedFrame}, o.frame = .ok m → o.sent = [m] := fun hm => by
    rw [Outcome.sent, hm]
  cases o with
  | registered a =>
    obtain ⟨b, hb, hd⟩ := framed (registerAck_roundTrips h) (.named .registerAck) Outcome.registered
    exact ⟨_, hsent hb, hd⟩
  | admitted a =>
    obtain ⟨b, hb, hd⟩ := framed (admission_roundTrips h) (.named .submitAck) Outcome.admitted
    exact ⟨_, hsent hb, hd⟩
  | ack a =>
    obtain ⟨b, hb, hd⟩ := framed (ack_roundTrips h) (.named .ack) Outcome.ack
    exact ⟨_, hsent hb, hd⟩
  | response r =>
    obtain ⟨b, hb, hd⟩ := framed (response_roundTrips h) (.named .response) Outcome.response
    exact ⟨_, hsent hb, hd⟩

/-! ### Whole connections -/

/-- The request in a frame, if there is one that decodes. -/
def DecodedFrame.understood (m : DecodedFrame) : Option Request := m.request.toOption.join

namespace Service
variable {c : ConnId}

/-- The handler on frames that have arrived. -/
def handles (c : ConnId) : Service → List DecodedFrame → Service × List DecodedFrame
  | s, [] => (s, [])
  | s, m :: ms =>
    let (s, out) := s.handle c m
    let (s, rest) := handles c s ms
    (s, out ++ rest)

/-- A connection that carries frames is handled frame by frame, and then ends. -/
theorem serve_frames : ∀ {ms : List DecodedFrame}, (∀ m ∈ ms, m.payload.length ≤ 2 ^ 28) →
    ∀ {stream : Stream}, stream.Flows →
    stream.flatten = (ms.map fun m => encodeFrame m.type m.payload).flatten →
    ∀ {n : ℕ}, ms.length < n → ∀ s : Service, s.serve c n stream = s.handles c ms
  | [], _, stream, hs, hflat, n + 1, _, s => by
    rw [serve, recvFrame_end hs hflat]
    rfl
  | m :: ms, hm, stream, hs, hflat, n + 1, hn, s => by
    rw [List.forall_mem_cons] at hm
    rw [List.map_cons, List.flatten_cons] at hflat
    obtain ⟨stream', hs', hflat', hr⟩ := recvFrame_encodeFrame hs m hm.1 hflat
    rw [serve, hr, handles]
    dsimp only
    rw [serve_frames hm.2 hs' hflat' (Nat.lt_of_succ_lt_succ hn)]

/-- A frame that is not understood leaves the service as it is. -/
theorem handle_state (s : Service) (m : DecodedFrame) :
    (s.handle c m).1 = m.understood.elim s fun r => (s.run c r).1 := by
  rw [handle, DecodedFrame.understood]
  rcases m.request with e | _ | r <;> rfl

/-- Whatever the frames are, the service goes through the requests that decode, in their order. -/
theorem handles_state : ∀ (ms : List DecodedFrame) (s : Service),
    (s.handles c ms).1 = (s.runs c (ms.filterMap DecodedFrame.understood)).1
  | [], _ => rfl
  | m :: ms, s => by
    rw [handles, List.filterMap_cons]
    dsimp only
    rw [handles_state ms, handle_state]
    cases m.understood with
    | none => rfl
    | some r => rfl

theorem handle_request {m : DecodedFrame} {r : Request} (h : m.request = .ok (some r))
    (s : Service) : s.handle c m = ((s.run c r).1, (s.run c r).2.sent) := by
  rw [handle, h]

/-- Encoded requests are answered one by one with their outcomes. -/
theorem handles_outcomes : ∀ {rs : List Request} {ms : List DecodedFrame},
    List.Forall₂ (fun r m => m.request = .ok (some r)) rs ms → ∀ {s : Service},
    (∀ o ∈ (s.runs c rs).2, o.Sendable) → (s.handles c ms).2.map DecodedFrame.outcome =
      (s.runs c rs).2.map fun o => .ok (some o)
  | [], [], _, _, _ => rfl
  | r :: rs, m :: ms, h, s, hos => by
    rw [List.forall₂_cons] at h
    rw [runs] at hos ⊢
    dsimp only at hos ⊢
    rw [List.forall_mem_cons] at hos
    obtain ⟨reply, hsent, hreply⟩ := Outcome.outcome_frame hos.1
    have hhandle : s.handle c m = ((s.run c r).1, [reply]) := by
      rw [handle_request h.1, hsent]
    rw [handles, hhandle]
    dsimp only
    rw [List.singleton_append, List.map_cons, List.map_cons, hreply,
      handles_outcomes h.2 hos.2]

end Service

theorem requests_of_frames : ∀ {rs : List Request} {ms : List DecodedFrame},
    (∀ r ∈ rs, r.Sendable) → List.Forall₂ (fun r m => r.frame = .ok m) rs ms →
    List.Forall₂ (fun r m => m.request = .ok (some r)) rs ms
  | [], [], _, _ => .nil
  | r :: rs, m :: ms, hrs, h => by
    rw [List.forall_mem_cons] at hrs
    rw [List.forall₂_cons] at h
    obtain ⟨m', hframe, hrequest⟩ := Request.request_frame hrs.1
    obtain rfl : m' = m := Except.ok.inj (hframe.symm.trans h.1)
    exact .cons hrequest (requests_of_frames hrs.2 h.2)

theorem understood_of_requests : ∀ {rs : List Request} {ms : List DecodedFrame},
    List.Forall₂ (fun r m => m.request = .ok (some r)) rs ms →
    ms.filterMap DecodedFrame.understood = rs
  | [], [], _ => rfl
  | r :: rs, m :: ms, h => by
    rw [List.forall₂_cons] at h
    have hm : m.understood = some r := by
      rw [DecodedFrame.understood, h.1]
      rfl
    rw [List.filterMap_cons, hm, understood_of_requests h.2]

/-- The bytes of a connection do not show. Frames that arrive in any chunks take the service through
    the requests that decode, in their order, and what does not decode changes nothing. When the
    frames are those of requests that can be sent, the client decodes the replies, one for one, to
    the outcomes of these requests. -/
theorem requests_served (c : ConnId) (s : Service) {ms : List DecodedFrame}
    (hms : ∀ m ∈ ms, m.payload.length ≤ 2 ^ 28) {stream : Stream} (hs : stream.Flows)
    (hflat : stream.flatten = (ms.map fun m => encodeFrame m.type m.payload).flatten) {n : ℕ}
    (hn : ms.length < n) :
    (s.serve c n stream).1 = (s.runs c (ms.filterMap DecodedFrame.understood)).1 ∧
    ∀ rs : List Request, (∀ r ∈ rs, r.Sendable) →
      List.Forall₂ (fun r m => r.frame = .ok m) rs ms → (∀ o ∈ (s.runs c rs).2, o.Sendable) →
      (s.serve c n stream).1 = (s.runs c rs).1 ∧
      (s.serve c n stream).2.map DecodedFrame.outcome =
        (s.runs c rs).2.map fun o => .ok (some o) := by
  rw [Service.serve_frames hms hs hflat hn]
  refine ⟨Service.handles_state ms s, fun rs hrs hframes hos => ?_⟩
  have hreq := requests_of_frames hrs hframes
  refine ⟨?_, Service.handles_outcomes hreq hos⟩
  rw [Service.handles_state, understood_of_requests hreq]

namespace Sample

/-- Worker 1 registers link 1, and a client asks for a state file that was never written. -/
def calls : List Request :=
  [.register { worker := ⟨0, 1⟩, boot := ⟨0, 1⟩, backend := [], inventory := [link 1 100] }, .load]

def callFrames : List DecodedFrame := calls.map fun r => r.frame.toOption.getD ⟨.named .ack, []⟩

/-- The frames in chunks of three bytes. -/
def callStream : Stream :=
  ((callFrames.map fun m => encodeFrame m.type m.payload).flatten).toChunks 3

def service : Service := { gov := start }

theorem calls_sendable : ∀ r ∈ calls, r.Sendable := by
  intro r hr
  rcases List.mem_cons.mp hr with rfl | hr
  · refine ⟨by simp [Fits], by decide, fun rs hrs => ?_⟩
    rw [List.mem_singleton.mp hrs]
    exact link_sendable
  · rw [List.mem_singleton.mp hr]
    trivial

theorem callFrames_frame : List.Forall₂ (fun r m => r.frame = .ok m) calls callFrames := by
  have hall : ∀ rs : List Request, (∀ r ∈ rs, r.Sendable) →
      List.Forall₂ (fun r m => r.frame = .ok m) rs
        (rs.map fun r => r.frame.toOption.getD ⟨.named .ack, []⟩) := by
    intro rs hrs
    rw [List.forall₂_map_right_iff, List.forall₂_same]
    intro r hr
    obtain ⟨m, hm, -⟩ := Request.request_frame (hrs r hr)
    rw [hm]
    rfl
  exact hall calls calls_sendable

theorem outcomes_sendable : ∀ o ∈ (service.runs 1 calls).2, o.Sendable := by
  have hok : (start.registerWorker (worker 1)).toOption.isSome = true := by decide +kernel
  cases hg : start.registerWorker (worker 1) with
  | error e =>
    rw [hg] at hok
    cases hok
  | ok g =>
    have hrun : (service.runs 1 calls).2 = [.registered
        { ok := true, coordinator := g.coordinator, epoch := g.epoch
          generation := g.capacityGeneration, reason := [] },
        .refused "could not open state file for read: bandwidth.entity"] := by
      have hreg : service.gov.registerWorker (Register.registration { worker := ⟨0, 1⟩
                                                                      boot := ⟨0, 1⟩
                                                                      backend := []
                                                                      inventory := [link 1 100] })
          = .ok g := hg
      rw [calls, Service.runs, Service.run, hreg]
      rfl
    rw [hrun]
    intro o ho
    rcases List.mem_cons.mp ho with rfl | ho
    · exact ⟨by simp, by simp⟩
    · rw [List.mem_singleton.mp ho]
      exact ⟨by simp [ascii], by simp⟩

end Sample

/-- The theorem for a registration and a load that arrive in chunks of three bytes. -/
theorem requests_served_chunks :
    (Sample.service.serve 1 3 Sample.callStream).1 = (Sample.service.runs 1 Sample.calls).1 ∧
    (Sample.service.serve 1 3 Sample.callStream).2.map DecodedFrame.outcome =
      (Sample.service.runs 1 Sample.calls).2.map fun o => .ok (some o) := by
  refine (requests_served 1 Sample.service ?_ ?_ ?_ (by decide)).2 Sample.calls
    Sample.calls_sendable Sample.callFrames_frame Sample.outcomes_sendable
  · intro m hm
    revert m
    decide +kernel
  · intro b hb
    revert b
    decide +kernel
  · decide +kernel

end BG
