import Mathlib
import BandwidthGovernor.Transport.Server
import BandwidthGovernor.Transport.Wire

/-! The worker runtime (`bgworker.cpp`) over the synthetic backend (`backend.cpp`).

    A turn of the main loop takes the messages that have arrived, and once a millisecond has passed
    it drives every job through one pacing slice. Bytes are 64-bit words there. `Desk` is the same
    worker seen from one flow, with credit as a natural number and no backend:
    `worker_refines_desk` says that the worker refines it, flow by flow. -/

namespace BG

open Lib

/-! ### The synthetic backend -/

structure BackendJob where
  total : UInt64 := 0
  done : UInt64 := 0

/-- `SyntheticBackend`. -/
structure Backend where
  jobs : Table FlowId BackendJob := .empty

namespace Backend

def submit (b : Backend) (spec : FlowSpec) : Backend :=
  { jobs := b.jobs.insert spec.id { total := spec.byteCount, done := 0 } }

/-- Move at most `budget` bytes. -/
def step (b : Backend) (flow : FlowId) (budget : UInt64) : Backend × UInt64 :=
  match b.jobs.find? flow with
  | none => (b, 0)
  | some j =>
    if j.done ≥ j.total then (b, 0)
    else
      let remaining := j.total - j.done
      let move := if budget < remaining then budget else remaining
      ({ jobs := b.jobs.insert flow { j with done := j.done + move } }, move)

def completed (b : Backend) (flow : FlowId) : UInt64 :=
  match b.jobs.find? flow with
  | none => 0
  | some j => j.done

def isDone (b : Backend) (flow : FlowId) : Bool :=
  match b.jobs.find? flow with
  | none => true
  | some j => decide (j.done ≥ j.total)

def cancel (b : Backend) (flow : FlowId) : Backend := { jobs := b.jobs.erase flow }

/-- No active work remains. -/
def allDone (b : Backend) : Bool := b.jobs.vals.all fun j => !decide (j.done < j.total)

end Backend

/-! ### The main loop -/

/-- A frame as the main loop distinguishes it. -/
inductive Message where
  | frame (f : Frame)
  | flowCancel
  | shutdown
  | other

/-- The conversion of a `double` to `uint64_t`: it truncates in range, and the language says nothing
    about values out of range. -/
structure Conversion where
  toU64 : ℚ → UInt64
  exact : ∀ x, 0 ≤ x → x < 2 ^ 64 → (toU64 x).toNat = ⌊x⌋₊

/-- The conversion that wraps around out of range. -/
def Conversion.wrapping : Conversion where
  toU64 x := UInt64.ofNat ⌊x⌋₊
  exact x h0 hx := by
    have hlt : ⌊x⌋₊ < 2 ^ 64 := (Nat.floor_lt h0).mpr (by exact_mod_cast hx)
    exact UInt64.toNat_ofNat_of_lt' hlt

structure Worker where
  jobs : Table FlowId Job := .empty
  grants : Table FlowId ℚ := .empty
  accum : Table FlowId UInt64 := .empty
  backend : Backend := {}
  done : Bool := false

/-- A pacing slice on its way over the jobs. -/
structure Slice where
  worker : Worker
  toReport : List FlowId := []
  toComplete : List FlowId := []

def Dispatch.job (d : Dispatch) : Job :=
  { spec := d.flow, attempt := d.attempt, fgen := d.fgen, boot := d.boot
    reservation := d.reservation, grant := d.grant }

namespace Worker

def receive (w : Worker) : Message → Worker
  | .frame (.flowDispatch d) => { w with
      backend := w.backend.submit d.flow
      jobs := w.jobs.insert d.flow.id d.job
      grants := w.grants.insert d.flow.id d.grant.value
      accum := w.accum.insert d.flow.id 0 }
  | .frame (.flowGrant g) => { w with grants := w.grants.insert g.flow g.grant.value }
  | .flowCancel => { w with done := true }
  | .shutdown => { w with done := true }
  | .other => w

/-- `grants[fid]`, which enters a zero when there is no grant. -/
def rate (w : Worker) (fid : FlowId) : ℚ := (w.grants.find? fid).getD 0

/-- `accum[fid]`. -/
def moved (w : Worker) (fid : FlowId) : UInt64 := (w.accum.find? fid).getD 0

/-- The bytes a slice of `δ` milliseconds is worth at a rate. -/
def budget (k : Conversion) (δ rate : ℚ) : UInt64 := k.toU64 (rate * δ / 1000)

/-- The loop body over the jobs. -/
def drive (k : Conversion) (δ : ℚ) (s : Slice) (fid : FlowId) : Slice :=
  let w := s.worker
  let (backend, moved) := w.backend.step fid (budget k δ (w.rate fid))
  let w := { w with
    grants := w.grants.insert fid (w.rate fid)
    accum := w.accum.insert fid (w.moved fid + moved)
    backend := backend }
  if backend.isDone fid then { s with worker := w, toComplete := s.toComplete ++ [fid] }
  else if moved > 0 then { s with worker := w, toReport := s.toReport ++ [fid] }
  else { s with worker := w }

/-- The report on a job that is still on file. -/
def reportOn (w : Worker) (completed : Bool) (fid : FlowId) : Option Report :=
  (w.jobs.find? fid).map fun j =>
    { flow := fid, attempt := j.attempt, fgen := j.fgen, boot := j.boot, bytes := w.moved fid
      completed := completed }

/-- A completed job is forgotten. -/
def forget (w : Worker) (fid : FlowId) : Worker :=
  { w with
    jobs := w.jobs.erase fid, grants := w.grants.erase fid, accum := w.accum.erase fid
    backend := w.backend.cancel fid }

/-- One pacing slice, with the reports it sends. -/
def slice (k : Conversion) (δ : ℚ) (w : Worker) : Worker × List Report :=
  let s := w.jobs.keys.foldl (drive k δ) { worker := w }
  let reports := s.toReport.filterMap (s.worker.reportOn false)
  let completions := s.toComplete.filterMap (s.worker.reportOn true)
  (s.toComplete.foldl forget s.worker, reports ++ completions)

end Worker

/-- What a turn of the main loop finds: the messages in the inbox, the time since the last slice. -/
structure Turn where
  messages : List Message
  conversion : Conversion
  elapsed : ℚ

namespace Worker

/-- One turn of the main loop, while the worker is not done. -/
def turn (w : Worker) (t : Turn) : Worker × List Report :=
  if w.done then (w, [])
  else
    let w := t.messages.foldl receive w
    if t.elapsed ≥ 1 then w.slice t.conversion t.elapsed else (w, [])

/-- The main loop, with everything it reports. -/
def turns : Worker → List Turn → Worker × List Report
  | w, [] => (w, [])
  | w, t :: ts =>
    let (w, reports) := w.turn t
    let (w, later) := turns w ts
    (w, reports ++ later)

/-- The end of the process: the backend is told to drop every job. -/
def halt (w : Worker) : Worker :=
  { w with backend := w.jobs.keys.foldl Backend.cancel w.backend }

end Worker

/-! ### The worker seen from one flow -/

/-- The job of a flow with the bytes it has been credited, and the rate it is paced at. -/
structure Desk where
  rate : ℚ := 0
  pledge : Option (Job × ℕ) := none
  done : Bool := false

namespace Desk

def receive (fid : FlowId) (d : Desk) : Message → Desk
  | .frame (.flowDispatch x) =>
    if x.flow.id = fid then { d with rate := x.grant.value, pledge := some (x.job, 0) } else d
  | .frame (.flowGrant g) => if g.flow = fid then { d with rate := g.grant.value } else d
  | .flowCancel => { d with done := true }
  | .shutdown => { d with done := true }
  | .other => d

def report (fid : FlowId) (j : Job) (bytes : ℕ) (completed : Bool) : Report :=
  { flow := fid, attempt := j.attempt, fgen := j.fgen, boot := j.boot, bytes := UInt64.ofNat bytes
    completed := completed }

/-- A slice adds its budget to the credit. A credit that reaches the byte count completes the job,
    and the excess is lost. -/
def pay (fid : FlowId) (d : Desk) (j : Job) (credit budget : ℕ) : Desk × List Report :=
  if j.spec.byteCount.toNat ≤ credit + budget then
    ({ d with rate := 0, pledge := none }, [report fid j j.spec.byteCount.toNat true])
  else
    ({ d with pledge := some (j, credit + budget) },
      if 0 < budget then [report fid j (credit + budget) false] else [])

def slice (fid : FlowId) (k : Conversion) (δ : ℚ) (d : Desk) : Desk × List Report :=
  match d.pledge with
  | none => (d, [])
  | some (j, credit) => d.pay fid j credit (Worker.budget k δ d.rate).toNat

def turn (fid : FlowId) (d : Desk) (t : Turn) : Desk × List Report :=
  if d.done then (d, [])
  else
    let d := t.messages.foldl (receive fid) d
    if t.elapsed ≥ 1 then d.slice fid t.conversion t.elapsed else (d, [])

def turns (fid : FlowId) : Desk → List Turn → Desk × List Report
  | d, [] => (d, [])
  | d, t :: ts =>
    let (d, reports) := d.turn fid t
    let (d, later) := turns fid d ts
    (d, reports ++ later)

end Desk

/-- The desk of a flow. -/
def Worker.desk (w : Worker) (fid : FlowId) : Desk :=
  { rate := w.rate fid, pledge := (w.jobs.find? fid).map fun j => (j, (w.moved fid).toNat)
    done := w.done }

/-! ### Jobs and their backend -/

namespace BackendJob

/-- What a slice with this budget moves. -/
def move (budget : UInt64) (j : BackendJob) : UInt64 :=
  if j.done ≥ j.total then 0 else if budget < j.total - j.done then budget else j.total - j.done

def moveOn (budget : UInt64) (j : BackendJob) : BackendJob :=
  { j with done := j.done + j.move budget }

/-- Within the byte count the words do not wrap around. -/
theorem moveOn_done {j : BackendJob} (h : j.done ≤ j.total) (budget : UInt64) :
    (j.moveOn budget).done.toNat = min (j.done.toNat + budget.toNat) j.total.toNat := by
  have hlt := j.total.toNat_lt
  rw [UInt64.le_iff_toNat_le] at h
  have hsub : j.done ≤ j.total → (j.total - j.done).toNat = j.total.toNat - j.done.toNat :=
    UInt64.toNat_sub_of_le _ _
  simp only [moveOn, move, ge_iff_le, UInt64.le_iff_toNat_le, UInt64.lt_iff_toNat_lt,
    UInt64.toNat_add] at hsub ⊢
  split
  · simp only [UInt64.toNat_zero]
    omega
  · rw [hsub h]
    split
    · omega
    · rw [hsub h]
      omega

theorem move_pos_iff {j : BackendJob} (h : j.done < j.total) (budget : UInt64) :
    0 < j.move budget ↔ 0 < budget := by
  have hsub := UInt64.toNat_sub_of_le _ _ (UInt64.le_of_lt h)
  rw [UInt64.lt_iff_toNat_lt] at h
  simp only [move, ge_iff_le, UInt64.le_iff_toNat_le, UInt64.lt_iff_toNat_lt, UInt64.toNat_zero]
  rw [if_neg (by omega), hsub]
  split
  · exact Iff.rfl
  · rw [hsub]
    omega

end BackendJob

theorem Backend.step_find? (b : Backend) (flow x : FlowId) (budget : UInt64) :
    (b.step flow budget).1.jobs.find? x = if x = flow then
      (b.jobs.find? flow).map (BackendJob.moveOn budget) else b.jobs.find? x := by
  unfold step
  cases hj : b.jobs.find? flow with
  | none =>
    dsimp only
    split
    · rename_i hx
      rw [hx]
      exact hj
    · rfl
  | some j =>
    dsimp only
    split
    · rename_i hdone
      have hstay : j.moveOn budget = j := by
        rw [BackendJob.moveOn, BackendJob.move, if_pos hdone]
        simp
      split
      · rename_i hx
        rw [hx, hj, Option.map_some, hstay]
      · rfl
    · rename_i hdone
      rw [Table.find?_insert, Option.map_some, BackendJob.moveOn, BackendJob.move, if_neg hdone]

theorem Backend.step_moved (b : Backend) (flow : FlowId) (budget : UInt64) :
    (b.step flow budget).2 = ((b.jobs.find? flow).map (BackendJob.move budget)).getD 0 := by
  unfold step
  cases b.jobs.find? flow with
  | none => rfl
  | some j =>
    rw [Option.map_some, Option.getD_some, BackendJob.move]
    dsimp only
    split
    · rfl
    · rfl

/-- A job and its backend agree on what has been moved, and nothing else is under way. -/
structure Worker.Sound (w : Worker) : Prop where
  keyed : ∀ fid j, w.jobs.find? fid = some j → j.spec.id = fid
  backed : ∀ fid j, w.jobs.find? fid = some j → ∃ b, w.backend.jobs.find? fid = some b ∧
    b.total = j.spec.byteCount ∧ b.done ≤ b.total ∧ w.moved fid = b.done
  idle : ∀ fid, w.jobs.find? fid = none → w.backend.jobs.find? fid = none

namespace Worker

theorem sound_new : ({} : Worker).Sound where
  keyed := fun _ _ h => by cases h
  backed := fun _ _ h => by cases h
  idle := fun _ _ => rfl

/-! ### Messages -/

theorem receive_desk (w : Worker) (fid : FlowId) (m : Message) :
    (w.receive m).desk fid = (w.desk fid).receive fid m := by
  cases m with
  | frame f =>
    cases f with
    | flowDispatch d =>
      simp only [receive, desk, Desk.receive, rate, moved, Table.find?_insert, eq_comm (a := fid)]
      split
      · rfl
      · rfl
    | flowGrant g =>
      simp only [receive, desk, Desk.receive, rate, moved, Table.find?_insert, eq_comm (a := fid)]
      split
      · rfl
      · rfl
  | flowCancel => rfl
  | shutdown => rfl
  | other => rfl

theorem Sound.receive {w : Worker} (h : w.Sound) (m : Message) : (w.receive m).Sound := by
  cases m with
  | frame f =>
    cases f with
    | flowDispatch d =>
      refine ⟨fun fid j hj => ?_, fun fid j hj => ?_, fun fid hj => ?_⟩
      · simp only [Worker.receive, Table.find?_insert] at hj
        split at hj
        · rename_i hx
          rw [← Option.some.inj hj, hx]
          rfl
        · exact h.keyed fid j hj
      · simp only [Worker.receive, Table.find?_insert] at hj
        simp only [Worker.receive, Backend.submit, moved, Table.find?_insert]
        split at hj
        · rename_i hx
          rw [if_pos hx, if_pos hx, ← Option.some.inj hj]
          exact ⟨_, rfl, rfl, UInt64.zero_le, rfl⟩
        · rename_i hx
          rw [if_neg hx, if_neg hx]
          exact h.backed fid j hj
      · simp only [Worker.receive, Table.find?_insert] at hj
        simp only [Worker.receive, Backend.submit, Table.find?_insert]
        split at hj
        · cases hj
        · rename_i hx
          rw [if_neg hx]
          exact h.idle fid hj
    | flowGrant g => exact ⟨h.keyed, h.backed, h.idle⟩
  | flowCancel => exact ⟨h.keyed, h.backed, h.idle⟩
  | shutdown => exact ⟨h.keyed, h.backed, h.idle⟩
  | other => exact h

theorem foldl_receive_desk (fid : FlowId) : ∀ (ms : List Message) (w : Worker),
    (ms.foldl receive w).desk fid = ms.foldl (Desk.receive fid) (w.desk fid)
  | [], _ => rfl
  | m :: ms, w => by
    rw [List.foldl_cons, List.foldl_cons, foldl_receive_desk fid ms, receive_desk]

theorem Sound.foldl_receive : ∀ (ms : List Message) {w : Worker}, w.Sound →
    (ms.foldl Worker.receive w).Sound
  | [], _, h => h
  | m :: ms, _, h => Sound.foldl_receive ms (h.receive m)

/-! ### Slices -/

section Slice
variable (k : Conversion) (δ : ℚ)

/-- What a slice moves for a flow. -/
def share (w : Worker) (fid : FlowId) : UInt64 :=
  ((w.backend.jobs.find? fid).map (BackendJob.move (budget k δ (w.rate fid)))).getD 0

/-- Whether a slice completes a flow. -/
def finishes (w : Worker) (fid : FlowId) : Bool :=
  (w.backend.step fid (budget k δ (w.rate fid))).1.isDone fid

/-- A slice of `w` that has driven the jobs in `l`. -/
structure Driven (w : Worker) (l : List FlowId) (s : Slice) : Prop where
  jobs : s.worker.jobs = w.jobs
  done : s.worker.done = w.done
  rate : ∀ x, s.worker.rate x = w.rate x
  moved : ∀ x, s.worker.moved x = if x ∈ l then w.moved x + w.share k δ x else w.moved x
  backend : ∀ x, s.worker.backend.jobs.find? x = if x ∈ l then
    (w.backend.jobs.find? x).map (BackendJob.moveOn (budget k δ (w.rate x)))
    else w.backend.jobs.find? x
  toComplete : s.toComplete = l.filter (w.finishes k δ)
  toReport : s.toReport = l.filter fun x => !w.finishes k δ x && decide (0 < w.share k δ x)

variable {k δ} {w : Worker}

theorem isDone_congr {b b' : Backend} {fid : FlowId} (h : b.jobs.find? fid = b'.jobs.find? fid) :
    b.isDone fid = b'.isDone fid := by
  rw [Backend.isDone, Backend.isDone, h]

/-- Driving one more job touches nothing of the others. -/
theorem Driven.drive {l : List FlowId} {s : Slice} (h : Driven k δ w l s) {fid : FlowId}
    (hn : fid ∉ l) : Driven k δ w (l ++ [fid]) (drive k δ s fid) := by
  have hback : s.worker.backend.jobs.find? fid = w.backend.jobs.find? fid :=
    (h.backend fid).trans (if_neg hn)
  have hmoved : s.worker.moved fid = w.moved fid := (h.moved fid).trans (if_neg hn)
  have hshare : (s.worker.backend.step fid (budget k δ (s.worker.rate fid))).2 =
      w.share k δ fid := by
    rw [Backend.step_moved, h.rate, hback, share]
  have hfin : (s.worker.backend.step fid (budget k δ (s.worker.rate fid))).1.isDone fid =
      w.finishes k δ fid := by
    refine isDone_congr ?_
    rw [Backend.step_find?, Backend.step_find?, if_pos rfl, if_pos rfl, h.rate, hback]
  have hw : (Worker.drive k δ s fid).worker = { s.worker with
      grants := s.worker.grants.insert fid (s.worker.rate fid)
      accum := s.worker.accum.insert fid (s.worker.moved fid +
        (s.worker.backend.step fid (budget k δ (s.worker.rate fid))).2)
      backend := (s.worker.backend.step fid (budget k δ (s.worker.rate fid))).1 } := by
    unfold Worker.drive
    dsimp only
    split
    · rfl
    · split <;> rfl
  have hlists : (Worker.drive k δ s fid).toComplete =
        s.toComplete ++ (if w.finishes k δ fid then [fid] else []) ∧
      (Worker.drive k δ s fid).toReport = s.toReport ++
        (if !w.finishes k δ fid && decide (0 < w.share k δ fid) then [fid] else []) := by
    unfold Worker.drive
    dsimp only
    rw [hfin, hshare]
    split
    · rename_i hf
      simp [hf]
    · rename_i hf
      split
      · rename_i hm
        simp [hf, show 0 < w.share k δ fid from hm]
      · rename_i hm
        simp [hf, show ¬ 0 < w.share k δ fid from hm]
  refine ⟨by rw [hw, h.jobs], by rw [hw, h.done], fun x => ?_, fun x => ?_, fun x => ?_, ?_, ?_⟩
  · rw [hw, ← h.rate x]
    simp only [Worker.rate, Table.find?_insert]
    split
    · rename_i hx
      rw [hx]
      rfl
    · rfl
  · rw [hw]
    have hins : ∀ v : UInt64, ((s.worker.accum.insert fid v).find? x).getD 0 =
        if x = fid then v else s.worker.moved x := fun v => by
      rw [Table.find?_insert]
      split <;> rfl
    change ((s.worker.accum.insert fid _).find? x).getD 0 = _
    rw [hins, hshare, hmoved, h.moved]
    by_cases hx : x = fid
    · rw [if_pos hx, hx, if_pos (by simp)]
    · simp [hx]
  · rw [hw]
    change (s.worker.backend.step fid _).1.jobs.find? x = _
    rw [Backend.step_find?, hback, h.rate, h.backend]
    by_cases hx : x = fid
    · rw [if_pos hx, hx, if_pos (by simp)]
    · simp [hx]
  · rw [hlists.1, h.toComplete, List.filter_append]
    simp [List.filter_cons]
  · rw [hlists.2, h.toReport, List.filter_append]
    simp [List.filter_cons]

theorem Driven.foldl : ∀ (l l₀ : List FlowId) {s : Slice}, Driven k δ w l₀ s → (l₀ ++ l).Nodup →
    Driven k δ w (l₀ ++ l) (l.foldl (Worker.drive k δ) s)
  | [], l₀, s, h, _ => by
    rw [List.append_nil]
    exact h
  | fid :: l, l₀, s, h, hnd => by
    have hn : fid ∉ l₀ := fun hm =>
      (List.nodup_append.mp hnd).2.2 fid hm fid List.mem_cons_self rfl
    rw [List.append_cons] at hnd ⊢
    exact Driven.foldl l (l₀ ++ [fid]) (h.drive hn) hnd

/-- Every job of the worker driven once. -/
theorem driven_all (w : Worker) : Driven k δ w w.jobs.keys
    (w.jobs.keys.foldl (Worker.drive k δ) { worker := w }) := by
  have hstart : Driven k δ w [] { worker := w } := by
    refine ⟨rfl, rfl, fun x => rfl, fun x => ?_, fun x => ?_, rfl, rfl⟩
    · rw [if_neg List.not_mem_nil]
    · rw [if_neg List.not_mem_nil]
  exact Driven.foldl w.jobs.keys [] hstart w.jobs.nodup

/-- What a slice does to a job on file, in whole bytes. -/
theorem Sound.shared (h : w.Sound) {fid : FlowId} {j : Job} (hj : w.jobs.find? fid = some j) :
    (w.moved fid).toNat ≤ j.spec.byteCount.toNat ∧
    (w.moved fid + w.share k δ fid).toNat =
      min ((w.moved fid).toNat + (budget k δ (w.rate fid)).toNat) j.spec.byteCount.toNat ∧
    (w.finishes k δ fid = true ↔
      j.spec.byteCount.toNat ≤ (w.moved fid).toNat + (budget k δ (w.rate fid)).toNat) ∧
    (w.finishes k δ fid = false → (0 < w.share k δ fid ↔ 0 < budget k δ (w.rate fid))) ∧
    ∃ b, w.backend.jobs.find? fid = some b ∧ b.total = j.spec.byteCount ∧
      (b.moveOn (budget k δ (w.rate fid))).done = w.moved fid + w.share k δ fid := by
  obtain ⟨b, hb, htotal, hle, hmoved⟩ := h.backed fid j hj
  have hshare : w.share k δ fid = b.move (budget k δ (w.rate fid)) := by
    rw [share, hb]
    rfl
  have hdone := BackendJob.moveOn_done hle (budget k δ (w.rate fid))
  have hsum : (b.moveOn (budget k δ (w.rate fid))).done = w.moved fid + w.share k δ fid := by
    rw [hmoved, hshare]
    rfl
  have hfin : w.finishes k δ fid =
      decide ((b.moveOn (budget k δ (w.rate fid))).done ≥ b.total) := by
    rw [finishes, Backend.isDone, Backend.step_find?, if_pos rfl, hb, Option.map_some]
    rfl
  have hfin' : w.finishes k δ fid = true ↔
      j.spec.byteCount.toNat ≤ (w.moved fid).toNat + (budget k δ (w.rate fid)).toNat := by
    rw [hfin, decide_eq_true_iff, ge_iff_le, UInt64.le_iff_toNat_le, hdone, htotal, hmoved,
      le_min_iff]
    exact and_iff_left (le_refl _)
  rw [UInt64.le_iff_toNat_le, htotal, ← hmoved] at hle
  refine ⟨hle, by rw [← hsum, hdone, htotal, hmoved], hfin', fun hopen => ?_, b, hb, htotal, hsum⟩
  rw [hshare]
  refine BackendJob.move_pos_iff ?_ _
  have hnot := mt hfin'.mpr (by rw [hopen]; exact Bool.false_ne_true)
  rw [UInt64.lt_iff_toNat_lt, htotal, ← hmoved]
  omega

end Slice

/-! ### What a slice leaves behind -/

theorem foldl_forget (x : FlowId) : ∀ (l : List FlowId) (w : Worker),
    (l.foldl forget w).jobs.find? x = (if x ∈ l then none else w.jobs.find? x) ∧
    (l.foldl forget w).rate x = (if x ∈ l then 0 else w.rate x) ∧
    (l.foldl forget w).moved x = (if x ∈ l then 0 else w.moved x) ∧
    (l.foldl forget w).backend.jobs.find? x =
      (if x ∈ l then none else w.backend.jobs.find? x) ∧
    (l.foldl forget w).done = w.done
  | [], w => by simp
  | y :: l, w => by
    obtain ⟨hjobs, hrate, hmoved, hback, hdone⟩ := foldl_forget x l (w.forget y)
    rw [List.foldl_cons, hjobs, hrate, hmoved, hback, hdone]
    by_cases hy : x = y
    · simp [hy, forget, Backend.cancel, Table.find?_erase, Worker.rate, Worker.moved]
    · simp [hy, forget, Backend.cancel, Table.find?_erase, Worker.rate, Worker.moved]

/-- Of the reports on distinct flows at most one is on a given flow. -/
theorem filterMap_reports {f : FlowId → Option Report} (hf : ∀ x r, f x = some r → r.flow = x)
    (fid : FlowId) : ∀ {l : List FlowId}, l.Nodup →
    (l.filterMap f).filter (fun r => decide (r.flow = fid)) = if fid ∈ l then (f fid).toList else []
  | [], _ => rfl
  | x :: l, hnd => by
    rw [List.nodup_cons] at hnd
    have ih := filterMap_reports hf fid hnd.2
    by_cases hx : x = fid
    · subst hx
      rw [if_neg hnd.1] at ih
      cases hr : f x with
      | none => simp [hr, ih]
      | some r => simp [hr, ih, hf x r hr]
    · have hne : fid ≠ x := fun h => hx h.symm
      cases hr : f x with
      | none => simp [hr, ih, hne]
      | some r => simp [hr, ih, hne, hf x r hr, hx]

theorem reportOn_flow {w : Worker} {c : Bool} (x : FlowId) (r : Report)
    (h : w.reportOn c x = some r) : r.flow = x := by
  obtain ⟨j, -, rfl⟩ := Option.map_eq_some_iff.mp h
  rfl

section
variable {k : Conversion} {δ : ℚ} {w : Worker}

/-- The state after a slice, flow by flow. -/
theorem slice_at (x : FlowId) :
    (w.slice k δ).1.jobs.find? x =
      (if (w.jobs.find? x).isSome ∧ w.finishes k δ x = true then none else w.jobs.find? x) ∧
    (w.slice k δ).1.rate x =
      (if (w.jobs.find? x).isSome ∧ w.finishes k δ x = true then 0 else w.rate x) ∧
    ((w.jobs.find? x).isSome → w.finishes k δ x = false →
      (w.slice k δ).1.moved x = w.moved x + w.share k δ x ∧
      (w.slice k δ).1.backend.jobs.find? x =
        (w.backend.jobs.find? x).map (BackendJob.moveOn (budget k δ (w.rate x)))) ∧
    ((w.jobs.find? x).isSome → w.finishes k δ x = true →
      (w.slice k δ).1.backend.jobs.find? x = none) ∧
    (w.jobs.find? x = none → (w.slice k δ).1.backend.jobs.find? x = w.backend.jobs.find? x) ∧
    (w.slice k δ).1.done = w.done := by
  have hd := driven_all (k := k) (δ := δ) w
  obtain ⟨hjobs, hrate, hmoved, hback, hdone⟩ := foldl_forget x
    (w.jobs.keys.foldl (drive k δ) { worker := w }).toComplete
    (w.jobs.keys.foldl (drive k δ) { worker := w }).worker
  have hkey : x ∈ w.jobs.keys ↔ (w.jobs.find? x).isSome = true := Table.contains_iff.symm
  have hmem : x ∈ (w.jobs.keys.foldl (drive k δ) { worker := w }).toComplete ↔
      (w.jobs.find? x).isSome = true ∧ w.finishes k δ x = true := by
    rw [hd.toComplete, List.mem_filter, hkey]
  simp only [hmem, hd.jobs, hd.rate, hd.moved, hkey] at hjobs hrate hmoved
  simp only [hmem, hd.backend, hd.done, hkey] at hback hdone
  refine ⟨hjobs, hrate, fun hs hf => ⟨hmoved.trans ?_, hback.trans ?_⟩, fun hs hf => hback.trans ?_,
    fun hn => hback.trans ?_, hdone⟩
  · simp [hs, hf]
  · simp [hs, hf]
  · simp [hs, hf]
  · simp [hn]

/-- The reports of a slice on one flow. -/
theorem slice_reports (fid : FlowId) :
    (w.slice k δ).2.filter (fun r => decide (r.flow = fid)) = (w.jobs.find? fid).elim [] fun j =>
      if w.finishes k δ fid then
        [⟨fid, j.attempt, j.fgen, j.boot, w.moved fid + w.share k δ fid, true⟩]
      else if 0 < w.share k δ fid then
        [⟨fid, j.attempt, j.fgen, j.boot, w.moved fid + w.share k δ fid, false⟩]
      else [] := by
  have hd := driven_all (k := k) (δ := δ) w
  have hnd := w.jobs.nodup
  rw [slice]
  dsimp only
  generalize w.jobs.keys.foldl (drive k δ) { worker := w } = s at hd
  have hkey : fid ∈ w.jobs.keys ↔ (w.jobs.find? fid).isSome = true := Table.contains_iff.symm
  rw [List.filter_append, filterMap_reports reportOn_flow fid (hd.toReport ▸ hnd.filter _),
    filterMap_reports reportOn_flow fid (hd.toComplete ▸ hnd.filter _), hd.toReport, hd.toComplete]
  simp only [List.mem_filter, hkey, reportOn, hd.jobs, hd.moved]
  cases hj : w.jobs.find? fid with
  | none => simp
  | some j =>
    cases hf : w.finishes k δ fid with
    | true => simp
    | false =>
      by_cases hm : 0 < w.share k δ fid
      · simp [hm]
      · simp [hm]

theorem Sound.slice (h : w.Sound) : (w.slice k δ).1.Sound := by
  have hon : ∀ fid j, (w.slice k δ).1.jobs.find? fid = some j →
      w.jobs.find? fid = some j ∧ w.finishes k δ fid = false := fun fid j hj => by
    rw [(slice_at fid).1] at hj
    split at hj
    · cases hj
    · rename_i hno
      exact ⟨hj, by simpa [hj] using hno⟩
  refine ⟨fun fid j hj => h.keyed fid j (hon fid j hj).1, fun fid j hj => ?_, fun fid hj => ?_⟩
  · obtain ⟨hj₀, hopen⟩ := hon fid j hj
    obtain ⟨-, hsum, -, -, b, hb, htotal, hdone⟩ := h.shared (k := k) (δ := δ) hj₀
    obtain ⟨hmoved, hback⟩ := (slice_at (k := k) (δ := δ) fid).2.2.1 (by rw [hj₀]; rfl) hopen
    refine ⟨b.moveOn (budget k δ (w.rate fid)), by rw [hback, hb]; rfl, htotal, ?_, hmoved.trans
      hdone.symm⟩
    rw [UInt64.le_iff_toNat_le, hdone, hsum, show (b.moveOn _).total = b.total from rfl, htotal]
    exact Nat.min_le_right ..
  · cases hj₀ : w.jobs.find? fid with
    | none => rw [(slice_at fid).2.2.2.2.1 hj₀, h.idle fid hj₀]
    | some j =>
      rw [(slice_at fid).1, hj₀] at hj
      split at hj
      · rename_i hf
        exact (slice_at fid).2.2.2.1 (by rw [hj₀]; rfl) hf.2
      · cases hj

/-- A slice of the worker is, for each flow, a slice of its desk. -/
theorem slice_desk (h : w.Sound) (fid : FlowId) :
    (w.slice k δ).1.desk fid = ((w.desk fid).slice fid k δ).1 ∧
    (w.slice k δ).2.filter (fun r => decide (r.flow = fid)) = ((w.desk fid).slice fid k δ).2 := by
  obtain ⟨hjobs, hrate, hon, -, -, hdone⟩ := slice_at (k := k) (δ := δ) (w := w) fid
  rw [slice_reports, desk, hjobs, hrate, hdone, desk, Desk.slice]
  cases hj : w.jobs.find? fid with
  | none => simp
  | some j =>
    obtain ⟨hle, hsum, hfin, hpos, -⟩ := h.shared (k := k) (δ := δ) hj
    rw [Option.map_some, Option.elim_some]
    dsimp only
    rw [Desk.pay]
    cases hf : w.finishes k δ fid with
    | true =>
      have hreach := hfin.mp hf
      have htotal : w.moved fid + w.share k δ fid = UInt64.ofNat j.spec.byteCount.toNat := by
        refine UInt64.toNat_inj.mp ?_
        rw [hsum, Nat.min_eq_right hreach, UInt64.ofNat_toNat]
      rw [if_pos hreach, htotal]
      simp [Desk.report]
    | false =>
      have hshort : ¬ j.spec.byteCount.toNat ≤
          (w.moved fid).toNat + (budget k δ (w.rate fid)).toNat := by
        rw [← hfin, hf]
        exact Bool.false_ne_true
      have hmoved := (hon (by rw [hj]; rfl) hf).1
      rw [Nat.min_eq_left (by omega)] at hsum
      have hnat : w.moved fid + w.share k δ fid =
          UInt64.ofNat ((w.moved fid).toNat + (budget k δ (w.rate fid)).toNat) := by
        rw [← hsum, UInt64.ofNat_toNat]
      have hpos' : 0 < w.share k δ fid ↔ 0 < (budget k δ (w.rate fid)).toNat :=
        (hpos hf).trans UInt64.lt_iff_toNat_lt
      rw [if_neg hshort, hmoved]
      constructor
      · simp [hsum]
      · by_cases hm : 0 < w.share k δ fid
        · simp [hm, hpos'.mp hm, hnat, Desk.report]
        · simp [hm, mt hpos'.mpr hm]

end

/-! ### Turns -/

theorem Sound.turn {w : Worker} (h : w.Sound) (t : Turn) : (w.turn t).1.Sound := by
  unfold Worker.turn
  split
  · exact h
  · dsimp only
    split
    · exact (h.foldl_receive t.messages).slice
    · exact h.foldl_receive t.messages

/-- A turn of the worker is, for each flow, a turn of its desk. -/
theorem turn_desk {w : Worker} (h : w.Sound) (fid : FlowId) (t : Turn) :
    (w.turn t).1.desk fid = ((w.desk fid).turn fid t).1 ∧
    (w.turn t).2.filter (fun r => decide (r.flow = fid)) = ((w.desk fid).turn fid t).2 := by
  rw [turn, Desk.turn, show (w.desk fid).done = w.done from rfl, ← foldl_receive_desk]
  split
  · exact ⟨rfl, rfl⟩
  · dsimp only
    split
    · exact slice_desk (h.foldl_receive t.messages) fid
    · exact ⟨rfl, rfl⟩

theorem turns_desk_of_sound (fid : FlowId) : ∀ (ts : List Turn) {w : Worker}, w.Sound →
    (w.turns ts).1.Sound ∧ (w.turns ts).1.desk fid = ((w.desk fid).turns fid ts).1 ∧
    (w.turns ts).2.filter (fun r => decide (r.flow = fid)) = ((w.desk fid).turns fid ts).2
  | [], _, h => ⟨h, rfl, rfl⟩
  | t :: ts, w, h => by
    obtain ⟨hdesk, hreports⟩ := turn_desk h fid t
    obtain ⟨hs, hdesk', hreports'⟩ := turns_desk_of_sound fid ts (h.turn t)
    rw [hdesk] at hdesk' hreports'
    refine ⟨hs, hdesk', ?_⟩
    rw [turns, Desk.turns]
    dsimp only
    rw [List.filter_append, hreports, hreports']

/-- A worker that has ended leaves no work with its backend. -/
theorem Sound.halt {w : Worker} (h : w.Sound) (fid : FlowId) :
    w.halt.backend.jobs.find? fid = none := by
  have hcancel : ∀ (l : List FlowId) (b : Backend), (l.foldl Backend.cancel b).jobs.find? fid =
      if fid ∈ l then none else b.jobs.find? fid := by
    intro l
    induction l with
    | nil => exact fun b => rfl
    | cons x l ih =>
      intro b
      rw [List.foldl_cons, ih, Backend.cancel, Table.find?_erase]
      by_cases hx : fid = x
      · simp [hx]
      · simp [hx]
  rw [Worker.halt, hcancel]
  split
  · rfl
  · rename_i hn
    exact h.idle fid (Table.find?_eq_none.mpr hn)

end Worker

/-- The worker refines its desks. Whatever messages arrive and however the slices fall, what it
    reports on a flow is, report by report, what the desk of the flow reports, and what its backend
    has moved is the credit of the desk. -/
theorem worker_refines_desk (ts : List Turn) (fid : FlowId) :
    (({} : Worker).turns ts).2.filter (fun r => decide (r.flow = fid)) =
      (({} : Desk).turns fid ts).2 ∧
    (({} : Desk).turns fid ts).1.pledge.map (fun p => (p.1.spec.byteCount, p.2)) =
      ((({} : Worker).turns ts).1.backend.jobs.find? fid).map fun b => (b.total, b.done.toNat) := by
  obtain ⟨hs, hdesk, hreports⟩ := Worker.turns_desk_of_sound fid ts Worker.sound_new
  rw [show ({} : Worker).desk fid = {} from rfl] at hdesk hreports
  refine ⟨hreports, ?_⟩
  rw [← hdesk, Worker.desk]
  generalize (({} : Worker).turns ts).1 = w at hs
  cases hj : w.jobs.find? fid with
  | none => rw [hs.idle fid hj]; rfl
  | some j =>
    obtain ⟨b, hb, htotal, -, hmoved⟩ := hs.backed fid j hj
    rw [hb, Option.map_some, Option.map_some, Option.map_some, hmoved, htotal]

end BG
