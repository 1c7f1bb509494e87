import Mathlib
import BandwidthGovernor.Transport.Pacing

/-! Register handlers of one worker id, interleaved.

    A handler writes the governor's worker table and then the server's connection table, each under
    its own lock. The last handler through the first door decides the boot, the last one through the
    second decides the connection. -/

namespace BG

open Lib

/-! ### Interleavings -/

/-- The registrations among the events, with their connections, in the order the governor takes
    them. -/
def entersOf (es : List ServerEvent) : List (ConnId × WorkerRegistration) :=
  es.filterMap fun
    | .enter c reg => some (c, reg)
    | _ => none

/-- The connections that take a worker's slot, in order. -/
def ownsOf (es : List ServerEvent) : List ConnId :=
  es.filterMap fun
    | .own c => some c
    | _ => none

/-- The events of Register handlers that name `w`. -/
inductive ServerEvent.Registers (w : WorkerId) : ServerEvent → Prop where
  | enter (c : ConnId) {reg : WorkerRegistration} : reg.worker = w → Registers w (.enter c reg)
  | own (c : ConnId) : Registers w (.own c)

/-- Whether an event is a step of a connection's Register handler. -/
def ServerEvent.isOf (c : ConnId) : ServerEvent → Bool
  | .enter c' _ => decide (c = c')
  | .own c' => decide (c = c')
  | _ => false

namespace Server
variable {s s' : Server} {w : WorkerId} {es : List ServerEvent}

/-- The boot the governor has on file for a worker. -/
def bootOf (s : Server) (w : WorkerId) : Option WorkerBootId :=
  (s.gov.workers.find? w).map WorkerRT.boot

theorem getLast?_cons_or {α : Type} (a : α) (l : List α) :
    (a :: l).getLast? = l.getLast?.or (some a) := by
  cases l with
  | nil => rfl
  | cons b l =>
    rw [List.getLast?_cons_cons, List.getLast?_cons]
    rfl

/-- First half of a handler, from a reachable state. -/
theorem Reaches.enter {es₀ : List ServerEvent} (h : Reaches es₀ s) (c : ConnId)
    (reg : WorkerRegistration) : (s.enter c reg).bootOf reg.worker = some reg.boot ∧
      (s.enter c reg).workers = s.workers ∧
      (s.enter c reg).entered = Function.update s.entered c (some reg.worker) := by
  obtain ⟨g₀, es', hfresh, hrun⟩ := h.gov
  obtain ⟨g', hok, hw, -⟩ := Governor.registerWorker_ok (flowsRated_of_run hfresh hrun) reg
  have hentry : g'.workers.find? reg.worker = some reg.entry :=
    by rw [hw, Governor.enrol_workers, Table.find?_insert_self]
  simp [Server.enter, hok, bootOf, hentry, WorkerRegistration.entry]

theorem Reaches.snoc {es₀ : List ServerEvent} {e : ServerEvent} (h : Reaches es₀ s)
    (hs : s.Step e s') : Reaches (es₀ ++ [e]) s' := by
  obtain ⟨g₀, hfresh, hrun⟩ := h
  exact ⟨g₀, hfresh, hrun.append (.single hs)⟩

/-- Along an interleaving, the governor has the boot of the last registration and the server the
    connection of the last claim. -/
theorem run_registers (hrun : Lib.Run Step s es s') (hes : ∀ e ∈ es, e.Registers w)
    (hin : ∀ c w', s.entered c = some w' → w' = w) (hreach : ∃ es₀, Reaches es₀ s) :
    s'.bootOf w = ((entersOf es).getLast?.map fun x => x.2.boot).or (s.bootOf w) ∧
      s'.workers.find? w = (ownsOf es).getLast?.or (s.workers.find? w) := by
  induction hrun with
  | nil s => exact ⟨rfl, rfl⟩
  | @cons s s₁ s' e es hstep _ ih =>
    rw [List.forall_mem_cons] at hes
    obtain ⟨es₀, hr⟩ := hreach
    have hr₁ : ∃ es₀, Reaches es₀ s₁ := ⟨_, hr.snoc hstep⟩
    obtain ⟨he, hes⟩ := hes
    cases he with
    | @enter c reg hw =>
      subst hw
      cases hstep
      obtain ⟨hboot, hworkers, hent⟩ := hr.enter c reg
      obtain ⟨ihb, ihw⟩ := ih hes (fun c' w' h => by
        rw [hent, Function.update_apply] at h
        split at h
        · exact (Option.some.inj h).symm
        · exact hin c' w' h) hr₁
      refine ⟨?_, ihw.trans (by rw [hworkers]; rfl)⟩
      rw [ihb, hboot, show entersOf (.enter c reg :: es) = (c, reg) :: entersOf es from rfl,
        getLast?_cons_or]
      cases (entersOf es).getLast? <;> rfl
    | own c =>
      cases hstep with
      | @own _ w' hent =>
        obtain rfl := hin c w' hent
        obtain ⟨ihb, ihw⟩ := ih hes (fun c' w' h => by
          have h' : Function.update s.entered c none c' = some w' := h
          rw [Function.update_apply] at h'
          split at h'
          · cases h'
          · exact hin c' w' h') hr₁
        refine ⟨ihb, ?_⟩
        rw [ihw, show ownsOf (.own c :: es) = c :: ownsOf es from rfl, getLast?_cons_or]
        have hslot : (s.own c w').workers.find? w' = some c := Table.find?_insert_self _ _ _
        rw [hslot]
        cases (ownsOf es).getLast? <;> rfl

/-- The first event of an interleaving is a registration. -/
theorem entersOf_ne_nil (hrun : Lib.Run Step s es s') (hes : ∀ e ∈ es, e.Registers w)
    (hidle : ∀ c, s.entered c = none) (hne : es ≠ []) : entersOf es ≠ [] := by
  cases hrun with
  | nil => exact absurd rfl hne
  | @cons _ s₁ _ e es hstep _ =>
    cases hes e (List.mem_cons_self ..) with
    | enter c hw => simp [entersOf]
    | own c =>
      cases hstep with
      | own hent =>
        rw [hidle c] at hent
        cases hent

/-- A step of another connection's handler leaves a connection idle. -/
theorem Step.idle {e : ServerEvent} {c : ConnId} (hs : s.Step e s') (he : e.isOf c = false)
    (hr : e.Registers w) (h : s.entered c = none) : s'.entered c = none := by
  cases hr with
  | @enter c' reg =>
    cases hs
    have hne : c ≠ c' := by simpa [ServerEvent.isOf] using he
    unfold Server.enter
    rcases s.gov.registerWorker reg with ⟨err, g⟩ | g
    · exact h
    · exact (Function.update_of_ne hne _ _).trans h
  | own c' =>
    cases hs
    have hne : c ≠ c' := by simpa [ServerEvent.isOf] using he
    exact (Function.update_of_ne hne _ _).trans h

/-- A handler that has entered is done only after it took the slot. -/
theorem entered_of_ownsOf_nil (hrun : Lib.Run Step s es s') (hes : ∀ e ∈ es, e.Registers w)
    (hreach : ∃ es₀, Reaches es₀ s) (hown : ownsOf es = [])
    (h : entersOf es ≠ [] ∨ ∃ c, s.entered c ≠ none) : ∃ c, s'.entered c ≠ none := by
  induction hrun with
  | nil s => exact h.resolve_left fun h => h rfl
  | @cons s s₁ s' e es hstep _ ih =>
    rw [List.forall_mem_cons] at hes
    obtain ⟨es₀, hr⟩ := hreach
    obtain ⟨he, hes⟩ := hes
    cases he with
    | @enter c reg hw =>
      refine ih hes ⟨_, hr.snoc hstep⟩ hown (Or.inr ⟨c, ?_⟩)
      cases hstep
      rw [(hr.enter c reg).2.2, Function.update_self]
      simp
    | own c => cases hown

end Server

/-- When all Register handlers of a worker are done, the connection in the worker's slot is the one
    whose boot the governor has exactly when one handler was last at both. -/
theorem registrations_agree_iff {es₀ es : List ServerEvent} {s s' : Server} {w : WorkerId}
    (hreach : Server.Reaches es₀ s) (hidle : ∀ c, s.entered c = none)
    (hrun : Lib.Run Server.Step s es s') (hes : ∀ e ∈ es, e.Registers w) (hne : es ≠ [])
    (hboots : ((entersOf es).map fun x => x.2.boot).Nodup) (hdone : ∀ c, s'.entered c = none) :
    (∃ c reg, (c, reg) ∈ entersOf es ∧ s'.workers.find? w = some c ∧
      s'.bootOf w = some reg.boot) ↔
    (entersOf es).getLast?.map Prod.fst = (ownsOf es).getLast? := by
  have hin : ∀ c w', s.entered c = some w' → w' = w := fun c w' h => by
    rw [hidle c] at h
    cases h
  have henter := Server.entersOf_ne_nil hrun hes hidle hne
  have hown : ownsOf es ≠ [] := fun h => by
    obtain ⟨c, hc⟩ := Server.entered_of_ownsOf_nil hrun hes ⟨es₀, hreach⟩ h (Or.inl henter)
    exact hc (hdone c)
  obtain ⟨hboot, hslot⟩ := Server.run_registers hrun hes hin ⟨es₀, hreach⟩
  obtain ⟨⟨c₁, reg₁⟩, hlast⟩ : ∃ x, (entersOf es).getLast? = some x :=
    ⟨_, List.getLast?_eq_some_getLast henter⟩
  obtain ⟨c₂, hlast₂⟩ : ∃ c, (ownsOf es).getLast? = some c :=
    ⟨_, List.getLast?_eq_some_getLast hown⟩
  rw [hlast] at hboot ⊢
  rw [hlast₂] at hslot ⊢
  have hmem : (c₁, reg₁) ∈ entersOf es := List.mem_of_getLast? hlast
  constructor
  · rintro ⟨c, reg, hc, hs, hb⟩
    have hreg : reg₁.boot = reg.boot := Option.some.inj (hboot.symm.trans hb)
    have hsame : (c₁, reg₁) = (c, reg) := List.inj_on_of_nodup_map hboots hmem hc hreg
    have hconn : c₂ = c := Option.some.inj (hslot.symm.trans hs)
    rw [hconn, Option.map_some, hsame]
  · intro heq
    have hconn : c₁ = c₂ := Option.some.inj heq
    exact ⟨c₁, reg₁, hmem, hconn ▸ hslot, hboot⟩

namespace Sample

/-- Two processes register as worker 1; the first one to reach the governor is the last one to take
    the slot. -/
def crossing : List ServerEvent := [.enter 1 (worker 1), .enter 2 (worker 2), .own 2, .own 1]

/-- Two processes register as worker 1 one after the other. -/
def oneByOne : List ServerEvent := [.enter 1 (worker 1), .own 1, .enter 2 (worker 2), .own 2]

theorem registers_worker (c : ConnId) (b : UInt64) :
    (ServerEvent.enter c (worker b)).Registers ⟨0, 1⟩ := .enter c rfl

/-- Handlers of connections 1 and 2 leave every other connection idle. -/
theorem idle_of_perform {es : List ServerEvent} {s : Server}
    (hs : es.foldlM Server.perform server = some s) (hes : ∀ e ∈ es, e.Registers ⟨0, 1⟩)
    (hof : ∀ e ∈ es, ∀ c, c ≠ 1 → c ≠ 2 → e.isOf c = false)
    (h₁ : s.entered 1 = none) (h₂ : s.entered 2 = none) (c : ConnId) : s.entered c = none := by
  by_cases hc₁ : c = 1
  · exact hc₁ ▸ h₁
  by_cases hc₂ : c = 2
  · exact hc₂ ▸ h₂
  exact (Server.run_perform hs).inv_of (P := fun s => s.entered c = none) (Q := fun e => e ∈ es)
    (fun s e s' he hi hstep => hstep.idle (hof e he c hc₁ hc₂) (hes e he) hi) (fun e he => he) rfl

theorem crossing_registers : ∀ e ∈ crossing, e.Registers ⟨0, 1⟩ := by
  simp [crossing, registers_worker, ServerEvent.Registers.own]

theorem oneByOne_registers : ∀ e ∈ oneByOne, e.Registers ⟨0, 1⟩ := by
  simp [oneByOne, registers_worker, ServerEvent.Registers.own]

end Sample

/-- The slot holds connection 1 while the governor has the boot connection 2 registered. -/
theorem registrations_cross : ∃ s, Lib.Run Server.Step Sample.server Sample.crossing s ∧
    (∀ e ∈ Sample.crossing, e.Registers ⟨0, 1⟩) ∧
    ((entersOf Sample.crossing).map fun x => x.2.boot).Nodup ∧ (∀ c, s.entered c = none) ∧
    ¬ ∃ c reg, (c, reg) ∈ entersOf Sample.crossing ∧ s.workers.find? ⟨0, 1⟩ = some c ∧
      s.bootOf ⟨0, 1⟩ = some reg.boot := by
  obtain ⟨s, hs, ⟨h₁, h₂⟩, hslot, hboot⟩ : ∃ s,
      Sample.crossing.foldlM Server.perform Sample.server = some s ∧
      (s.entered 1 = none ∧ s.entered 2 = none) ∧
      s.workers.find? ⟨0, 1⟩ = some 1 ∧ s.bootOf ⟨0, 1⟩ = some ⟨0, 2⟩ := by
    refine ⟨(Sample.crossing.foldlM Server.perform Sample.server).get (by decide +kernel),
      (Option.some_get _).symm, ?_, ?_, ?_⟩
    all_goals decide +kernel
  refine ⟨s, Server.run_perform hs, Sample.crossing_registers, by decide,
    Sample.idle_of_perform hs Sample.crossing_registers ?_ h₁ h₂, ?_⟩
  · simp +contextual [Sample.crossing, ServerEvent.isOf]
  · rintro ⟨c, reg, hmem, hc, hb⟩
    obtain rfl : 1 = c := Option.some.inj (hslot.symm.trans hc)
    have hreg : (⟨0, 2⟩ : WorkerBootId) = reg.boot := Option.some.inj (hboot.symm.trans hb)
    simp only [entersOf, Sample.crossing, List.filterMap_cons, List.filterMap_nil,
      List.mem_cons, Prod.mk.injEq, List.not_mem_nil, or_false] at hmem
    rcases hmem with ⟨-, rfl⟩ | ⟨hc, -⟩
    · cases hreg
    · cases hc

/-- When the handlers finish in the order in which they entered, map and governor agree. -/
theorem registrations_agree_iff_oneByOne : ∃ s,
    Lib.Run Server.Step Sample.server Sample.oneByOne s ∧
    ∃ c reg, (c, reg) ∈ entersOf Sample.oneByOne ∧ s.workers.find? ⟨0, 1⟩ = some c ∧
      s.bootOf ⟨0, 1⟩ = some reg.boot := by
  obtain ⟨s, hs, h₁, h₂⟩ : ∃ s, Sample.oneByOne.foldlM Server.perform Sample.server = some s ∧
      s.entered 1 = none ∧ s.entered 2 = none := by
    refine ⟨(Sample.oneByOne.foldlM Server.perform Sample.server).get (by decide +kernel),
      (Option.some_get _).symm, by decide +kernel⟩
  have hreach : Server.Reaches [] Sample.server := ⟨Sample.start, Sample.start_fresh, .nil _⟩
  refine ⟨s, Server.run_perform hs, (registrations_agree_iff hreach (fun c => rfl)
    (Server.run_perform hs) Sample.oneByOne_registers (by decide) (by decide)
    (Sample.idle_of_perform hs Sample.oneByOne_registers ?_ h₁ h₂)).mpr rfl⟩
  simp +contextual [Sample.oneByOne, ServerEvent.isOf]

end BG
