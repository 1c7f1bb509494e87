import Mathlib
import BandwidthGovernor.Governor.Writes

/-! The tenant and workload accounts against the flow table.

    A flow counts for its owners through its `Charge`. Submissions add a charge, completions turn
    one into a completed one, and every other operation leaves both the charges and the accounts
    alone. -/

namespace BG

open Lib

/-- What a flow counts for. -/
structure Charge where
  tenant : TenantId
  workload : WorkloadId
  byteCount : UInt64
  completed : Bool

def FlowRT.charge (f : FlowRT) : Charge :=
  { tenant := f.spec.tenant, workload := f.spec.workload, byteCount := f.spec.byteCount
    completed := decide (f.state = .named .completed) }

/-- The charges of all flows on file. -/
def Governor.charges (g : Governor) : List Charge := g.flows.vals.map FlowRT.charge

/-- The charges that belong to one owner. -/
def chargesOf {K : Type} [DecidableEq K] (own : Charge → K) (cs : List Charge) (k : K) :
    List Charge :=
  cs.filter fun c => decide (own c = k)

/-- The completed ones among the charges. -/
def completedOf (cs : List Charge) : List Charge := cs.filter Charge.completed

/-- An account states its charges: how many there are, how many are completed (both counters are
    64 bits wide), and the bytes of the completed ones. -/
structure Account.States (a : Account) (cs : List Charge) : Prop where
  submitted : a.submitted.toNat = cs.length % 2 ^ 64
  completed : a.completed.toNat = (completedOf cs).length % 2 ^ 64
  servedBytes : a.servedBytes = ((completedOf cs).map fun c => (c.byteCount.toNat : ℚ)).sum

/-- Every owner's account states the owner's charges; without an entry it is the empty account. -/
def Accounts {K : Type} [DecidableEq K] (own : Charge → K) (accounts : Table K Account)
    (cs : List Charge) : Prop :=
  ∀ k, ((accounts.find? k).getD {}).States (chargesOf own cs k)

/-- The books are right for tenants and for workloads. -/
structure Governor.Audited (g : Governor) : Prop where
  tenants : Accounts Charge.tenant g.tenants g.charges
  workloads : Accounts Charge.workload g.workloads g.charges

/-! ### One account -/

namespace Account.States
variable {a : Account} {c : Charge} {cs cs' : List Charge}

theorem perm (h : a.States cs) (hp : cs.Perm cs') : a.States cs' :=
  ⟨hp.length_eq ▸ h.submitted, (hp.filter _).length_eq ▸ h.completed,
    h.servedBytes.trans ((hp.filter _).map _).sum_eq⟩

theorem submit (h : a.States cs) (hc : c.completed = false) :
    { a with submitted := a.submitted + 1 }.States (c :: cs) := by
  have hkeep : completedOf (c :: cs) = completedOf cs := by simp [completedOf, hc]
  refine ⟨?_, hkeep ▸ h.completed, hkeep ▸ h.servedBytes⟩
  have hsub := h.submitted
  simp only [UInt64.toNat_add, UInt64.toNat_one, List.length_cons]
  omega

theorem complete (h : a.States (c :: cs)) (hc : c.completed = false) :
    { a with completed := a.completed + 1, servedBytes := a.servedBytes + c.byteCount.toNat }.States
      ({ c with completed := true } :: cs) := by
  have hbefore : completedOf (c :: cs) = completedOf cs := by simp [completedOf, hc]
  have hafter : completedOf ({ c with completed := true } :: cs) =
      { c with completed := true } :: completedOf cs := by simp [completedOf]
  refine ⟨h.submitted, ?_, ?_⟩
  · have hcomp := hbefore ▸ h.completed
    rw [hafter]
    simp only [UInt64.toNat_add, UInt64.toNat_one, List.length_cons]
    omega
  · rw [hafter, List.map_cons, List.sum_cons, add_comm]
    exact congrArg _ (hbefore ▸ h.servedBytes)

end Account.States

/-! ### All accounts of one kind of owner -/

namespace Accounts
variable {K : Type} [DecidableEq K] {own : Charge → K} {accounts : Table K Account} {c : Charge}
  {cs cs' : List Charge}

theorem perm (h : Accounts own accounts cs) (hp : cs.Perm cs') : Accounts own accounts cs' :=
  fun k => (h k).perm (hp.filter _)

theorem chargesOf_own : chargesOf own (c :: cs) (own c) = c :: chargesOf own cs (own c) := by
  simp [chargesOf]

theorem chargesOf_other {k : K} (hk : k ≠ own c) :
    chargesOf own (c :: cs) k = chargesOf own cs k := by
  simp [chargesOf, Ne.symm hk]

theorem submit (h : Accounts own accounts cs) (hc : c.completed = false) (hp : (c :: cs).Perm cs') :
    Accounts own (accounts.insert (own c) { (accounts.find? (own c)).getD {} with
      submitted := ((accounts.find? (own c)).getD {}).submitted + 1 }) cs' := by
  refine perm (fun k => ?_) hp
  rw [Table.find?_insert]
  split
  · rename_i hk
    subst hk
    rw [chargesOf_own]
    exact (h (own c)).submit hc
  · rename_i hk
    rw [chargesOf_other hk]
    exact h k

theorem complete (h : Accounts own accounts (c :: cs)) (hc : c.completed = false)
    (hown : own { c with completed := true } = own c)
    (hp : ({ c with completed := true } :: cs).Perm cs') :
    Accounts own (accounts.insert (own c) { (accounts.find? (own c)).getD {} with
      completed := ((accounts.find? (own c)).getD {}).completed + 1
      servedBytes := ((accounts.find? (own c)).getD {}).servedBytes + c.byteCount.toNat }) cs' := by
  refine perm (fun k => ?_) hp
  rw [Table.find?_insert]
  split
  · rename_i hk
    subst hk
    have hc' := h (own c)
    rw [chargesOf_own] at hc'
    rw [← hown, chargesOf_own, hown]
    exact hc'.complete hc
  · rename_i hk
    rw [chargesOf_other (hown.symm ▸ hk)]
    exact chargesOf_other hk ▸ h k

end Accounts

/-! ### The charges along a run -/

/-- Transactions that change no charge. -/
def Kind.chargeless : Kind → Bool
  | .submit _ => false
  | .complete _ => false
  | _ => true

theorem chargeless_of_kinds {op : Op} {k : Kind} (hop : op.counts = false)
    (hlive : (Event.call op).live = true) (hk : op.kinds k) : k.chargeless = true := by
  cases op with
  | submitFlow => cases hop
  | reportCompletion => cases hop
  | restore => cases hlive
  | tick => obtain rfl | rfl | ⟨fid, rfl⟩ := hk <;> rfl
  | registerWorker => obtain rfl | rfl | ⟨fid, rfl⟩ := hk <;> rfl
  | setAutoClock => exact hk.elim
  | advanceMs => exact hk.elim
  | setResourceEnabled => exact hk.elim
  | _ => exact hk ▸ rfl

theorem charge_eq {f f' : FlowRT} (ht : f'.spec.tenant = f.spec.tenant)
    (hw : f'.spec.workload = f.spec.workload) (hb : f'.spec.byteCount = f.spec.byteCount)
    (hs : f'.state = .named .completed ↔ f.state = .named .completed) : f'.charge = f.charge := by
  simp only [FlowRT.charge, ht, hw, hb, hs]

theorem FlowMove.charge {v : View} {k : Kind} {fid : FlowId} {f f' : FlowRT}
    (h : FlowMove v k fid f f') : f'.charge = f.charge := by
  cases h with
  | age => rfl
  | dispatch o ng t hs =>
    obtain ⟨hspec, -, -⟩ := dispatchTo_spec { f with granted := ng } o
    refine charge_eq ?_ ?_ ?_ (by simp [hs])
    all_goals dsimp only; rw [hspec]
  | regrade ng t hm =>
    refine charge_eq rfl rfl rfl ⟨fun h => ?_, fun h => ?_⟩
    · rcases Governor.gradeOf_cases f ng with hg | hg | hg <;> rw [hg] at h <;> cases h
    · rw [h] at hm; cases hm
  | resume hs =>
    refine charge_eq rfl rfl rfl ?_
    rcases hs with hs | hs <;> simp [hs]
  | progress => rfl

/-- The charge filed under an id. -/
def View.chargeAt (v : View) (fid : FlowId) : Option Charge := (v.flows fid).map FlowRT.charge

theorem View.chargeAt_congr {v w : View} (h : w.flows = v.flows) : w.chargeAt = v.chargeAt := by
  funext fid
  rw [View.chargeAt, View.chargeAt, h]

theorem View.chargeAt_setFlow {u v : View} (hu : u.flows = v.flows) {fid : FlowId} {f f' : FlowRT}
    (hf : v.flows fid = some f) (hc : f'.charge = f.charge) :
    (u.setFlow fid f').chargeAt = v.chargeAt := by
  funext x
  simp only [View.chargeAt, View.setFlow, hu, Function.update_apply]
  split
  · rename_i hx
    rw [hx, hf, Option.map_some, Option.map_some, hc]
  · rfl

/-- No other transaction than a submission or a completion changes a charge. -/
theorem Txn.chargeAt {v w : View} {k : Kind} (ht : Txn v k w) (hk : k.chargeless = true) :
    w.chargeAt = v.chargeAt := by
  cases ht with
  | draw => rfl
  | bump => rfl
  | path => rfl
  | join => rfl
  | lose worker =>
    funext fid
    simp only [View.chargeAt, View.lose, Option.map_map]
    refine congrArg (fun F => (v.flows fid).map F) (funext fun f => ?_)
    simp only [Function.comp_apply]
    split <;> rfl
  | moves k F hF =>
    funext fid
    cases hf : v.flows fid with
    | none => simp [View.chargeAt, hf]
    | some f =>
      have hc : (F fid f).charge = f.charge := by
        rcases hF fid f hf with he | hm
        · rw [he]
        · exact hm.charge
      simp [View.chargeAt, hf, hc]
  | park => cases hk
  | reserve => cases hk
  | dequeue fid f p c t hf hq =>
    exact View.chargeAt_setFlow rfl hf (charge_eq rfl rfl rfl (by simp [hq]))
  | cancel fid f reason hf hn =>
    refine (View.chargeAt_congr (View.releaseOf_flows _ f)).trans (View.chargeAt_setFlow rfl hf ?_)
    refine charge_eq rfl rfl rfl ⟨fun h => ?_, fun h => ?_⟩
    · cases h
    · rw [h] at hn
      cases hn
  | complete => cases hk
  | release rid => exact View.chargeAt_congr (View.release_rest v rid).1
  | remint fid f p c hf hs =>
    refine View.chargeAt_setFlow rfl hf (charge_eq rfl rfl rfl ?_)
    rcases hs with hs | hs <;> simp [hs]
  | roll fid f p c worker boot hf hs =>
    refine View.chargeAt_setFlow (View.releaseOf_flows v f) hf ?_
    exact charge_eq rfl rfl rfl (by simp [hs])
  | rollStray fid f worker boot hf hs =>
    refine View.chargeAt_setFlow (View.releaseOf_flows v f) hf ?_
    exact charge_eq rfl rfl rfl (by simp [hs])

/-- The list of charges is determined by the charges under the ids, up to order. -/
theorem Governor.charges_perm {g g' : Governor} (h : g'.view.chargeAt = g.view.chargeAt) :
    g.charges.Perm g'.charges := by
  have hsame : (g.flows.mapVals fun _ f => f.charge).Same (g'.flows.mapVals fun _ f => f.charge) :=
    Table.same_of_find? fun fid => by
      rw [Table.find?_mapVals, Table.find?_mapVals]
      exact (congrFun h fid).symm
  have hvals : ∀ t : Table FlowId FlowRT,
      (t.mapVals fun _ f => f.charge).entries.map Prod.snd = t.vals.map FlowRT.charge := fun t => by
    simp [Table.mapVals, Table.vals, List.map_map, Function.comp_def]
  have hperm := hsame.map Prod.snd
  rwa [hvals, hvals] at hperm

theorem apply_accounts {g : Governor} {op : Op} (hop : op.counts = false)
    (hlive : (Event.call op).live = true) :
    (g.apply op).tenants = g.tenants ∧ (g.apply op).workloads = g.workloads := by
  refine (apply_writes g hlive).inv
    (P := fun h => h.tenants = g.tenants ∧ h.workloads = g.workloads)
    (fun h h' hw hh => ?_) ⟨rfl, rfl⟩
  cases hw with
  | rest _ _ _ _ _ hkeep => exact ⟨(hkeep hop).1.trans hh.1, (hkeep hop).2.trans hh.2⟩
  | release rid =>
    obtain ⟨rs, hrs⟩ := h.releaseReservationInternal_eq rid
    rw [hrs]
    exact hh
  | _ => exact hh

/-! ### The books along a run -/

namespace Governor.Audited
variable {g g' : Governor}

theorem of_charges (h : g.Audited) (ht : g'.tenants = g.tenants) (hw : g'.workloads = g.workloads)
    (hc : g'.view.chargeAt = g.view.chargeAt) : g'.Audited :=
  ⟨ht ▸ h.tenants.perm (charges_perm hc), hw ▸ h.workloads.perm (charges_perm hc)⟩

/-- A new flow is counted once for its tenant and once for its workload. -/
theorem file (h : g.Audited) {spec : FlowSpec} {f : FlowRT} (hnew : g.flows.find? spec.id = none)
    (hspec : f.spec = spec) (hs : f.state ≠ .named .completed) {flows : Table FlowId FlowRT}
    (hflows : flows = g.flows.insert spec.id f) (hf : g'.flows = flows)
    (ht : g'.tenants = (g.countSubmission spec).tenants)
    (hw : g'.workloads = (g.countSubmission spec).workloads) : g'.Audited := by
  have hp : (f.charge :: g.charges).Perm g'.charges := by
    rw [Governor.charges, Governor.charges, hf, hflows]
    exact ((Table.vals_insert_new hnew f).map FlowRT.charge).symm
  have hc : f.charge.completed = false := decide_eq_false hs
  subst hspec
  exact ⟨ht ▸ h.tenants.submit hc hp, hw ▸ h.workloads.submit hc hp⟩

theorem submitFlow (h : g.Audited) (spec : FlowSpec) :
    (stateAfter Prod.fst (g.submitFlow spec)).Audited := by
  obtain ⟨g', res, hok, hs⟩ := g.submitFlow_spec spec
  rw [hok, stateAfter]
  generalize res.admitted = b at hs
  cases hs with
  | refused => exact h
  | parked path hv hnew => exact h.file hnew rfl (by simp [parkedFlow]) rfl rfl rfl rfl
  | admitted path c hv hnew => exact h.file hnew rfl (by simp [reservedFlow]) rfl rfl rfl rfl

/-- Only a Running flow completes, so no flow is counted twice. -/
theorem reportCompletion (h : g.Audited) (fid : FlowId) (attempt : AttemptId)
    (fgen : FlowGeneration) (boot : WorkerBootId) (bytes : UInt64) :
    (stateAfter Prod.fst (g.reportCompletion fid attempt fgen boot bytes)).Audited := by
  unfold Governor.reportCompletion
  cases hf : g.flows.find? fid with
  | none => exact h
  | some f =>
    dsimp only
    split
    · rename_i ha
      have hrun := authorised_running ha
      rw [setFlowState_ok (f := { f with bytesDone := max f.bytesDone bytes }) (a := .running) hrun
        (Or.inr (by decide))]
      obtain ⟨rest, hbefore, hafter⟩ := Table.vals_insert_old hf
      have hc : f.charge.completed = false := decide_eq_false (by rw [hrun]; decide)
      have ht := h.tenants.perm (hbefore.map FlowRT.charge)
      have hw := h.workloads.perm (hbefore.map FlowRT.charge)
      have hp := ((hafter { f with
        bytesDone := max f.bytesDone bytes, state := .named .completed, lastMs := g.now }).map
        FlowRT.charge).symm
      dsimp only [stateAfter]
      obtain ⟨rs, hrs⟩ := Governor.releaseOf_eq (Governor.countCompletion { g with
        flows := g.flows.insert fid { f with
          bytesDone := max f.bytesDone bytes, state := .named .completed,
          lastMs := g.now } } f.spec)
        { f with bytesDone := max f.bytesDone bytes, state := .named .completed, lastMs := g.now }
      rw [hrs]
      exact ⟨ht.complete hc rfl hp, hw.complete hc rfl hp⟩
    · exact h

theorem step (h : g.Audited) (hwf : g.view.WF) {e : Event} (hlive : e.live = true)
    (hs : g.Step e g') : g'.Audited := by
  cases hs with
  | call op =>
    cases hop : op.counts with
    | false =>
      obtain ⟨ht, hw⟩ := apply_accounts (g := g) hop hlive
      refine h.of_charges ht hw ?_
      refine (apply_ran hwf hlive).inv (I := fun v => v.chargeAt = g.view.chargeAt)
        (fun v k w hk hv htx => ?_) rfl
      exact (htx.chargeAt (chargeless_of_kinds hop hlive hk)).trans hv
    | true =>
      cases op with
      | submitFlow spec => exact h.submitFlow spec
      | reportCompletion fid attempt fgen boot bytes =>
        exact h.reportCompletion fid attempt fgen boot bytes
      | _ => cases hop
  | clock t => exact ⟨h.tenants, h.workloads⟩
  | rehash hr =>
    have hp : g.charges.Perm g'.charges := charges_perm (by rw [hr.view])
    refine ⟨fun k => ?_, fun k => ?_⟩
    · rw [← hr.tenants.find? k]
      exact h.tenants.perm hp k
    · rw [← hr.workloads.find? k]
      exact h.workloads.perm hp k

end Governor.Audited

theorem Governor.Fresh.audited {g : Governor} (h : g.Fresh) : g.Audited := by
  obtain ⟨entropy, config, steady, rfl⟩ := h
  exact ⟨fun k => ⟨rfl, rfl, rfl⟩, fun k => ⟨rfl, rfl, rfl⟩⟩

/-- In every reachable state, every tenant and every workload is charged for exactly the flows on
    file, and served exactly the bytes of those that are Completed. -/
theorem accounts_exact {es : List Event} {g : Governor} (h : Reaches es g) : g.Audited := by
  obtain ⟨hlive, g₀, hfresh, hrun⟩ := h
  exact (hrun.inv_of (P := fun g => g.view.WF ∧ g.Audited) (Q := fun e => e.live = true)
    (fun g e g' he hg hs => ⟨(step_ran hg.1 he hs).wf hg.1, hg.2.step hg.1 he hs⟩) hlive
    ⟨hfresh.wf, hfresh.audited⟩).2

namespace Sample

/-- One flow is completed and reported again, a second one is cancelled. -/
def bookkeeping : List Op := oneLink ++
  [.submitFlow (flow 1 1 10 20 30), .submitFlow (flow 2 1 10 20 30), .tick,
   .reportCompletion ⟨0, 1⟩ ⟨0, 1⟩ ⟨0, 1⟩ .null 10, .reportCompletion ⟨0, 1⟩ ⟨0, 1⟩ ⟨0, 1⟩ .null 10,
   .cancelFlow ⟨0, 2⟩ []]

end Sample

theorem accounts_exact_bookkeeping : (Sample.start.after Sample.bookkeeping).Audited ∧
    (((Sample.start.after Sample.bookkeeping).tenants.find? ⟨0, 1⟩).map
      fun a => (a.submitted, a.completed, a.servedBytes)) = some (2, 1, 10) :=
  ⟨accounts_exact (Sample.reaches (by decide +kernel)), by decide +kernel⟩

end BG
