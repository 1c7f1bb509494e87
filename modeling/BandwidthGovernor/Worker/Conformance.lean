import Mathlib
import BandwidthGovernor.Worker.Runtime

/-! What a worker moves against what it was granted.

    `Meter` follows one flow along a run: the last dispatch, and what the grants since then were
    worth in bytes. A report never exceeds that worth, and it completes the flow exactly when it
    carries the byte count of the dispatch. -/

namespace BG

open Lib

/-- A desk with its last dispatch and the worth of the grants since. -/
structure Meter where
  desk : Desk := {}
  sent : Option Dispatch := none
  worth : ℚ := 0

namespace Meter

def receive (fid : FlowId) (m : Meter) (msg : Message) : Meter :=
  match msg with
  | .frame (.flowDispatch d) =>
    if d.flow.id = fid then { desk := m.desk.receive fid msg, sent := some d, worth := 0 }
    else { m with desk := m.desk.receive fid msg }
  | _ => { m with desk := m.desk.receive fid msg }

def turn (fid : FlowId) (m : Meter) (t : Turn) : Meter :=
  if m.desk.done then m
  else
    let m := t.messages.foldl (receive fid) m
    if t.elapsed ≥ 1 then
      { m with
        desk := (m.desk.slice fid t.conversion t.elapsed).1
        worth := m.worth + m.desk.rate * t.elapsed / 1000 }
    else m

/-- The credit is covered by the worth, and the job is that of the last dispatch. -/
structure Covers (m : Meter) : Prop where
  rate : 0 ≤ m.desk.rate ∧ m.desk.rate ≤ kMaxRate
  worth : 0 ≤ m.worth
  pledge : ∀ j c, m.desk.pledge = some (j, c) →
    (∃ d, m.sent = some d ∧ j = d.job) ∧ (c : ℚ) ≤ m.worth ∧ c ≤ j.spec.byteCount.toNat

theorem covers_new : ({} : Meter).Covers where
  rate := ⟨le_refl _, kMaxRate_pos.le⟩
  worth := le_refl _
  pledge := fun _ _ h => by cases h

theorem receive_desk (fid : FlowId) (m : Meter) (msg : Message) :
    (m.receive fid msg).desk = m.desk.receive fid msg := by
  unfold receive
  split
  · split <;> rfl
  · rfl

theorem foldl_receive_desk (fid : FlowId) : ∀ (ms : List Message) (m : Meter),
    (ms.foldl (receive fid) m).desk = ms.foldl (Desk.receive fid) m.desk
  | [], _ => rfl
  | msg :: ms, m => by
    rw [List.foldl_cons, List.foldl_cons, foldl_receive_desk fid ms, receive_desk]

theorem Covers.receive {fid : FlowId} {m : Meter} (h : m.Covers) (msg : Message) :
    (m.receive fid msg).Covers := by
  cases msg with
  | frame f =>
    cases f with
    | flowDispatch d =>
      simp only [Meter.receive, Desk.receive]
      split
      · refine ⟨⟨d.grant.nonneg, d.grant.le_max⟩, le_refl _, fun j c hp => ?_⟩
        obtain ⟨rfl, rfl⟩ := Prod.mk.inj (Option.some.inj hp)
        exact ⟨⟨d, rfl, rfl⟩, by simp, Nat.zero_le _⟩
      · exact ⟨h.rate, h.worth, h.pledge⟩
    | flowGrant g =>
      simp only [Meter.receive, Desk.receive]
      split
      · exact ⟨⟨g.grant.nonneg, g.grant.le_max⟩, h.worth, h.pledge⟩
      · exact ⟨h.rate, h.worth, h.pledge⟩
  | flowCancel => exact ⟨h.rate, h.worth, h.pledge⟩
  | shutdown => exact ⟨h.rate, h.worth, h.pledge⟩
  | other => exact ⟨h.rate, h.worth, h.pledge⟩

theorem Covers.foldl_receive {fid : FlowId} : ∀ (ms : List Message) {m : Meter}, m.Covers →
    (ms.foldl (Meter.receive fid) m).Covers
  | [], _, h => h
  | msg :: ms, _, h => Covers.foldl_receive ms (h.receive msg)

/-- At a valid rate the budget of a slice of at most 18 seconds is in range of the conversion. -/
theorem budget_le (k : Conversion) {rate δ : ℚ} (hr : 0 ≤ rate ∧ rate ≤ kMaxRate) (h0 : 0 ≤ δ)
    (hδ : δ ≤ 18000) : ((Worker.budget k δ rate).toNat : ℚ) ≤ rate * δ / 1000 := by
  have hnonneg : 0 ≤ rate * δ / 1000 := by
    have := mul_nonneg hr.1 h0
    positivity
  have hrange : rate * δ / 1000 < 2 ^ 64 := by
    have hle : rate * δ ≤ 10 ^ 18 * 18000 := mul_le_mul hr.2 hδ h0 (by norm_num)
    linarith
  rw [Worker.budget, k.exact _ hnonneg hrange]
  exact Nat.floor_le hnonneg

/-- What a report must satisfy. -/
def Allows (m : Meter) (r : Report) : Prop :=
  ∃ d, m.sent = some d ∧ r.attempt = d.attempt ∧ r.fgen = d.fgen ∧ r.boot = d.boot ∧
    r.bytes ≤ d.flow.byteCount ∧ (r.completed = true ↔ r.bytes = d.flow.byteCount) ∧
    (r.bytes.toNat : ℚ) ≤ m.worth

/-- A turn keeps the credit covered, and its reports within the worth. -/
theorem Covers.turn {fid : FlowId} {m : Meter} (h : m.Covers) {t : Turn} (ht : t.elapsed ≤ 18000) :
    (m.turn fid t).Covers ∧ (m.turn fid t).desk = (m.desk.turn fid t).1 ∧
    ∀ r ∈ (m.desk.turn fid t).2, (m.turn fid t).Allows r := by
  rw [Meter.turn, Desk.turn]
  split
  · exact ⟨h, rfl, fun r hr => by cases hr⟩
  have h' : (t.messages.foldl (Meter.receive fid) m).Covers := h.foldl_receive t.messages
  dsimp only
  rw [← foldl_receive_desk]
  generalize t.messages.foldl (Meter.receive fid) m = m at h'
  split
  · rename_i hms
    have h0 : 0 ≤ t.elapsed := le_trans zero_le_one hms
    have hbudget := budget_le t.conversion h'.rate h0 ht
    have hgain : 0 ≤ m.desk.rate * t.elapsed / 1000 := by
      have := mul_nonneg h'.rate.1 h0
      positivity
    cases hp : m.desk.pledge with
    | none =>
      simp only [Desk.slice, hp]
      refine ⟨⟨h'.rate, add_nonneg h'.worth hgain, fun j c hjc => ?_⟩, trivial,
        fun r hr => by cases hr⟩
      rw [hp] at hjc
      cases hjc
    | some p =>
      obtain ⟨j, c⟩ := p
      obtain ⟨⟨d, hd, rfl⟩, hc, hle⟩ := h'.pledge j c hp
      have hbytes : d.job.spec.byteCount = d.flow.byteCount := rfl
      simp only [Desk.slice, hp, Desk.pay, hbytes] at hle ⊢
      have hlt := d.flow.byteCount.toNat_lt
      split
      · rename_i hreach
        have hcast : (d.flow.byteCount.toNat : ℚ) ≤
            c + (Worker.budget t.conversion t.elapsed m.desk.rate).toNat := by exact_mod_cast hreach
        refine ⟨⟨⟨le_refl _, kMaxRate_pos.le⟩, add_nonneg h'.worth hgain,
          fun j c hjc => by cases hjc⟩, trivial, fun r hr => ?_⟩
        rw [List.mem_singleton.mp hr]
        refine ⟨d, hd, rfl, rfl, rfl, ?_, ?_, ?_⟩
        · simp [Desk.report]
        · simp [Desk.report]
        · simp only [Desk.report, UInt64.ofNat_toNat]
          linarith
      · rename_i hshort
        have hsum : (c : ℚ) + (Worker.budget t.conversion t.elapsed m.desk.rate).toNat ≤
            m.worth + m.desk.rate * t.elapsed / 1000 := add_le_add hc hbudget
        refine ⟨⟨h'.rate, add_nonneg h'.worth hgain, fun j' c' hjc => ?_⟩, trivial,
          fun r hr => ?_⟩
        · obtain ⟨rfl, rfl⟩ := Prod.mk.inj (Option.some.inj hjc)
          refine ⟨⟨d, hd, rfl⟩, by exact_mod_cast hsum, ?_⟩
          rw [hbytes]
          omega
        · split at hr
          · rw [List.mem_singleton.mp hr]
            have hnat : (UInt64.ofNat (c + (Worker.budget t.conversion t.elapsed
                m.desk.rate).toNat)).toNat =
                c + (Worker.budget t.conversion t.elapsed m.desk.rate).toNat :=
              UInt64.toNat_ofNat_of_lt' (show _ < 2 ^ 64 by omega)
            refine ⟨d, hd, rfl, rfl, rfl, ?_, ?_, ?_⟩
            · rw [UInt64.le_iff_toNat_le, Desk.report, hnat]
              omega
            · simp only [Desk.report, Bool.false_eq_true, false_iff, ← UInt64.toNat_inj, hnat]
              omega
            · rw [Desk.report, hnat]
              exact_mod_cast hsum
          · cases hr
  · exact ⟨h', rfl, fun r hr => by cases hr⟩

/-- The meter of a flow after a run. -/
def after (fid : FlowId) (ts : List Turn) : Meter := ts.foldl (turn fid) {}

theorem covers_after (fid : FlowId) : ∀ (ts : List Turn) {m : Meter}, m.Covers →
    (∀ t ∈ ts, t.elapsed ≤ 18000) →
    (ts.foldl (turn fid) m).Covers ∧ (ts.foldl (turn fid) m).desk = (m.desk.turns fid ts).1
  | [], _, h, _ => ⟨h, rfl⟩
  | t :: ts, m, h, ht => by
    rw [List.forall_mem_cons] at ht
    obtain ⟨h₁, hdesk, -⟩ := @Covers.turn fid m h t ht.1
    obtain ⟨h₂, hdesk'⟩ := covers_after fid ts h₁ ht.2
    exact ⟨h₂, by rw [List.foldl_cons, hdesk', hdesk]; rfl⟩

end Meter

/-- The bytes a worker reports conform to its grants. Along every run of the main loop whose turns
    take at most 18 seconds, a report bears the identity of the last dispatch of its flow, carries
    at most the byte count and at most what the grants since that dispatch were worth, and completes
    the flow exactly when it carries the byte count. -/
theorem worker_conforms {ts : List Turn} {t : Turn} (ht : ∀ t' ∈ ts ++ [t], t'.elapsed ≤ 18000)
    {r : Report} (hr : r ∈ ((({} : Worker).turns ts).1.turn t).2) :
    (Meter.after r.flow (ts ++ [t])).Allows r := by
  obtain ⟨hs, hdesk, -⟩ := Worker.turns_desk_of_sound r.flow ts Worker.sound_new
  rw [List.forall_mem_append] at ht
  obtain ⟨hc, hmeter⟩ := Meter.covers_after r.flow ts Meter.covers_new ht.1
  have hreports := (Worker.turn_desk hs r.flow t).2
  have hmem : r ∈ ((({} : Worker).turns ts).1.desk r.flow |>.turn r.flow t).2 := by
    rw [← hreports]
    exact List.mem_filter.mpr ⟨hr, decide_eq_true rfl⟩
  rw [hdesk, show ({} : Worker).desk r.flow = {} from rfl] at hmem
  rw [Meter.after, List.foldl_append]
  refine (hc.turn (ht.2 t (List.mem_singleton_self t))).2.2 r ?_
  rw [hmeter]
  exact hmem

namespace Sample

/-- The dispatch of flow 1 at rate 4. -/
def dispatch : Dispatch :=
  { flow := flow 1 1 1 4 100, attempt := ⟨0, 1⟩, fgen := ⟨0, 1⟩, boot := ⟨0, 1⟩, grant := rate 4
    reservation := ⟨0, 1⟩ }

def accepting : Turn :=
  { messages := [.frame (.flowDispatch dispatch)], conversion := .wrapping, elapsed := 0 }

/-- A slice of a second. -/
def working : Turn := { messages := [], conversion := .wrapping, elapsed := 1000 }

end Sample

/-- The theorem for a worker that has driven flow 1 for a second. -/
theorem worker_conforms_driving :
    ∃ r ∈ ((({} : Worker).turns [Sample.accepting]).1.turn Sample.working).2,
      (Meter.after r.flow [Sample.accepting, Sample.working]).Allows r := by
  obtain ⟨r, hr⟩ := List.exists_mem_of_length_pos (by decide +kernel :
    0 < ((({} : Worker).turns [Sample.accepting]).1.turn Sample.working).2.length)
  refine ⟨r, hr, @worker_conforms [Sample.accepting] Sample.working (fun t ht => ?_) r hr⟩
  rcases List.mem_cons.mp ht with rfl | ht
  · exact show (0 : ℚ) ≤ 18000 by norm_num
  · rw [List.mem_singleton.mp ht]
    exact show (1000 : ℚ) ≤ 18000 by norm_num

end BG
