import Mathlib
import BandwidthGovernor.Governor.Admission

/-! Flows and their reservations stay linked.

    A live reservation belongs to a flow that has not ended and points back at it. Four transactions
    mint a reservation and four retire one; the link holds after each, and when every flow has ended
    nothing is held any more. -/

namespace BG

open Lib

/-! ### Links -/

/-- What a live reservation and its flow agree on. -/
structure LinkedTo (rid : ReservationId) (rsv : Reservation) (f : FlowRT) : Prop where
  open_ : isTerminal f.state = false
  back : f.reservation = some rid
  attempt : rsv.attempt = f.spec.attempt
  generation : rsv.flowGeneration = f.spec.generation
  path : rsv.path = f.spec.path

/-- Reservations are Active or Released, and while live are linked to their flow; a queued flow has
    none. -/
structure View.Linked (v : View) : Prop where
  states : ∀ rid rsv, v.reservations rid = some rsv →
    rsv.state = .named .active ∨ rsv.state = .named .released
  live : ∀ rid rsv, v.reservations rid = some rsv → isLive rsv.state = true →
    ∃ f, v.flows rsv.flow = some f ∧ LinkedTo rid rsv f
  queued : ∀ fid f, v.flows fid = some f → f.state = .named .queued → f.reservation = none

/-- No live reservation belongs to the flow. -/
def View.Unlinked (v : View) (fid : FlowId) : Prop :=
  ∀ rid rsv, v.reservations rid = some rsv → isLive rsv.state = true → rsv.flow ≠ fid

namespace View
variable {v w : View}

theorem Linked.unlinked_of_none (h : v.Linked) {fid : FlowId} (hf : v.flows fid = none) :
    v.Unlinked fid := by
  intro rid rsv hr hl he
  obtain ⟨f, hf', -⟩ := h.live rid rsv hr hl
  rw [he, hf] at hf'
  cases hf'

theorem Linked.unlinked_of_free (h : v.Linked) {fid : FlowId} {f : FlowRT}
    (hf : v.flows fid = some f) (hfree : f.reservation = none) : v.Unlinked fid := by
  intro rid rsv hr hl he
  obtain ⟨f', hf', hlink⟩ := h.live rid rsv hr hl
  rw [he, hf, Option.some.injEq] at hf'
  have hback := hlink.back
  rw [← hf', hfree] at hback
  cases hback

/-- Writing a flow that no live reservation belongs to. -/
theorem Linked.setFlow (h : v.Linked) {fid : FlowId} (hu : v.Unlinked fid) {f : FlowRT}
    (hq : f.state = .named .queued → f.reservation = none) : (v.setFlow fid f).Linked where
  states := h.states
  live rid rsv hr hl := by
    have hne : rsv.flow ≠ fid := hu rid rsv hr hl
    obtain ⟨f', hf', hlink⟩ := h.live rid rsv hr hl
    exact ⟨f', (v.setFlow_of_ne f hne).trans hf', hlink⟩
  queued fid' f' hf' hs := by
    rcases setFlow_cases hf' with ⟨rfl, rfl⟩ | ⟨-, hf'⟩
    · exact hq hs
    · exact h.queued fid' f' hf' hs

theorem Linked.release (h : v.Linked) (rid : ReservationId) : (v.release rid).Linked := by
  have hflows := (View.release_rest v rid).1
  refine ⟨fun x rsv hx => ?_, fun x rsv hx hl => ?_, hflows ▸ h.queued⟩
  · obtain ⟨rsv₀, h₀, rfl | ⟨-, rfl⟩⟩ := release_reservations v rid hx
    · exact h.states x rsv h₀
    · exact Or.inr rfl
  · obtain ⟨rsv₀, h₀, rfl | ⟨-, rfl⟩⟩ := release_reservations v rid hx
    · exact hflows ▸ h.live x rsv h₀ hl
    · cases hl

theorem Linked.releaseOf (h : v.Linked) (f : FlowRT) : (v.releaseOf f).Linked := by
  unfold View.releaseOf
  cases f.reservation with
  | none => exact h
  | some rid => exact h.release rid

/-- Releasing a flow's reservation unlinks the flow. -/
theorem Linked.unlinked_releaseOf (h : v.Linked) {fid : FlowId} {f : FlowRT}
    (hf : v.flows fid = some f) : (v.releaseOf f).Unlinked fid := by
  cases hr : f.reservation with
  | none =>
    have hrel : v.releaseOf f = v := by simp [View.releaseOf, hr]
    rw [hrel]
    exact h.unlinked_of_free hf hr
  | some rid =>
    have hrel : v.releaseOf f = v.release rid := by simp [View.releaseOf, hr]
    rw [hrel]
    intro x rsv hx hl he
    obtain ⟨rsv₀, h₀, rfl | ⟨-, rfl⟩⟩ := release_reservations v rid hx
    · obtain ⟨f', hf', hlink⟩ := h.live x rsv h₀ hl
      rw [he, hf, Option.some.injEq] at hf'
      have hxr : x = rid := Option.some.inj (hlink.back.symm.trans (hf' ▸ hr))
      subst hxr
      -- the reservation the flow points at was Active, so it is Released now
      have hact : rsv.state = .named .active := (h.states x rsv h₀).resolve_right fun hs => by
        rw [hs] at hl; cases hl
      have := (View.release_active v h₀ hact).symm.trans hx
      rw [Option.some.injEq] at this
      rw [← this] at hl
      cases hl
    · cases hl

theorem Linked.draw (h : v.Linked) : v.draw.Linked := ⟨h.states, h.live, h.queued⟩

/-- Minting a reservation for an unlinked flow and relinking the flow. -/
theorem Linked.mint (h : v.Linked) {fid : FlowId}
    (hu : v.Unlinked fid) {spec : FlowSpec} (boot : WorkerBootId) (hops : List PathHop)
    (c : Capacity) {f : FlowRT} (hspec : spec.id = fid) (hs : f.spec = spec)
    (hback : f.reservation = some v.gen.next.1) (hopen : isTerminal f.state = false)
    (hq : f.state ≠ .named .queued) :
    ((v.file (v.minted spec boot hops c)).setFlow fid f).Linked := by
  refine ⟨fun x rsv hx => ?_, fun x rsv hx hl => ?_, fun fid' f' hf' hs' => ?_⟩
  · rcases file_cases hx with ⟨-, rfl⟩ | hx
    · exact Or.inl rfl
    · exact h.states x rsv hx
  · rcases file_cases hx with ⟨rfl, rfl⟩ | hx
    · refine ⟨f, ?_, hopen, hback, by rw [hs]; rfl, by rw [hs]; rfl, by rw [hs]; rfl⟩
      exact hspec ▸ setFlow_self _ _ _
    · obtain ⟨f', hf', hlink⟩ := h.live x rsv hx hl
      exact ⟨f', (setFlow_of_ne _ f (hu x rsv hx hl)).trans hf', hlink⟩
  · rcases setFlow_cases hf' with ⟨rfl, rfl⟩ | ⟨-, hf'⟩
    · exact absurd hs' hq
    · exact h.queued fid' f' hf' hs'

end View

/-! ### The links are an invariant -/

/-- A move keeps what links a flow to its reservation. -/
theorem FlowMove.keeps {v : View} {k : Kind} {fid : FlowId} {f f' : FlowRT}
    (hm : FlowMove v k fid f f') : f'.spec = f.spec ∧ f'.reservation = f.reservation ∧
      (isTerminal f.state = false → isTerminal f'.state = false) ∧
      (f'.state = .named .queued → f.state = .named .queued) := by
  cases hm with
  | age => exact ⟨rfl, rfl, id, id⟩
  | dispatch o ng t =>
    obtain ⟨hs, -, hr⟩ := dispatchTo_spec { f with granted := ng } o
    exact ⟨hs, hr, fun _ => rfl, fun h => by cases h⟩
  | regrade ng t =>
    have hgrade : isTerminal (.named (Governor.gradeOf f ng)) = false ∧
        (Coded.named (Governor.gradeOf f ng) : Coded FlowState) ≠ .named .queued := by
      rcases Governor.gradeOf_cases f ng with h | h | h
      all_goals
        rw [h]
        exact ⟨rfl, by decide⟩
    exact ⟨rfl, rfl, fun _ => hgrade.1, fun h => absurd h hgrade.2⟩
  | resume => exact ⟨rfl, rfl, fun _ => rfl, fun h => by cases h⟩
  | progress => exact ⟨rfl, rfl, id, id⟩

/-- Rewriting every flow in place, with its spec, reservation and standing kept. -/
theorem View.Linked.mapFlows {v : View} (h : v.Linked) {F : FlowId → FlowRT → FlowRT}
    (hF : ∀ fid f, v.flows fid = some f → (F fid f).spec = f.spec ∧
      (F fid f).reservation = f.reservation ∧
      (isTerminal f.state = false → isTerminal (F fid f).state = false) ∧
      ((F fid f).state = .named .queued → f.state = .named .queued)) :
    View.Linked { v with flows := fun fid => (v.flows fid).map (F fid) } where
  states := h.states
  live rid rsv hr hl := by
    obtain ⟨f, hf, hlink⟩ := h.live rid rsv hr hl
    obtain ⟨hs, hres, hterm, -⟩ := hF _ f hf
    refine ⟨F rsv.flow f, by simp [hf], hterm hlink.open_, hres.trans hlink.back, ?_, ?_, ?_⟩
    · rw [hs]; exact hlink.attempt
    · rw [hs]; exact hlink.generation
    · rw [hs]; exact hlink.path
  queued fid f' hf' hq := by
    obtain ⟨f, hf, rfl⟩ := Option.map_eq_some_iff.mp hf'
    obtain ⟨-, hres, -, hqueued⟩ := hF fid f hf
    exact hres.trans (h.queued fid f hf (hqueued hq))

theorem View.setFlow_releaseOf (v : View) (fid : FlowId) (f f' : FlowRT) :
    (v.setFlow fid f').releaseOf f = (v.releaseOf f).setFlow fid f' := by
  unfold releaseOf
  cases f.reservation with
  | none => rfl
  | some rid =>
    have hsame : (v.setFlow fid f').reservations = v.reservations := rfl
    simp only [release, hsame]
    cases v.reservations rid with
    | none => rfl
    | some rsv =>
      dsimp only
      cases reservationTransition rsv.state (.named .released) <;> rfl

/-- Every transaction keeps the links. -/
theorem Txn.linked {v w : View} {k : Kind} (ht : Txn v k w) (hwf : v.WF) (h : v.Linked) :
    w.Linked := by
  cases ht with
  | draw => exact h.draw
  | bump => exact ⟨h.states, h.live, h.queued⟩
  | path => exact ⟨h.states, h.live, h.queued⟩
  | join => exact ⟨h.states, h.live, h.queued⟩
  | lose worker =>
    have := h.mapFlows (F := fun _ f => if Governor.rolls worker f then
        { f with assignedWorker := none, lastError := ascii "worker lost" } else f)
      fun fid f hf => by split <;> exact ⟨rfl, rfl, id, id⟩
    exact ⟨this.states, this.live, this.queued⟩
  | moves k F hF =>
    refine h.mapFlows fun fid f hf => ?_
    rcases hF fid f hf with he | hm
    · rw [he]; exact ⟨rfl, rfl, id, id⟩
    · exact hm.keeps
  | park spec t hnew => exact h.setFlow (h.unlinked_of_none hnew) fun _ => rfl
  | reserve spec p c t hnew =>
    exact h.mint (h.unlinked_of_none hnew) .null p.hops c rfl rfl rfl rfl (by simp [reservedFlow])
  | dequeue fid f p c t hf hq =>
    exact h.mint (h.unlinked_of_free hf (h.queued fid f hf hq)) .null p.hops c (hwf.keyed fid f hf)
      rfl rfl rfl (by simp)
  | cancel fid f reason hf =>
    rw [View.setFlow_releaseOf]
    exact (h.releaseOf f).setFlow (h.unlinked_releaseOf hf) fun hq => by cases hq
  | complete fid f b t hf =>
    rw [View.setFlow_releaseOf]
    exact (h.releaseOf f).setFlow (h.unlinked_releaseOf hf) fun hq => by cases hq
  | release rid => exact h.release rid
  | remint fid f p c hf _ hfree =>
    exact h.mint (h.unlinked_of_free hf hfree) .null p.hops c (hwf.keyed fid f hf)
      rfl rfl rfl (by simp)
  | roll fid f p c worker boot hf =>
    exact (h.releaseOf f).draw.mint (h.unlinked_releaseOf hf) boot p.hops c (hwf.keyed fid f hf)
      rfl rfl rfl (by simp)
  | rollStray fid f worker boot hf =>
    exact (h.releaseOf f).draw.setFlow (h.unlinked_releaseOf hf) fun hq => by cases hq

/-- In every reachable state flows and reservations are linked. -/
theorem Reaches.linked {es : List Event} {g : Governor} (h : Reaches es g) : g.view.Linked := by
  obtain ⟨hlive, g₀, hfresh, hrun⟩ := h
  obtain ⟨hf, hr, -, -⟩ := hfresh.view
  refine (run_inv hrun hfresh.wf hlive (fun e _ v k w _ hwf hv ht => ht.linked hwf hv) ?_).2
  exact ⟨fun rid rsv h => by simp [hr] at h, fun rid rsv h => by simp [hr] at h,
    fun fid f h => by simp [hf] at h⟩

/-! ### When every flow has ended -/

/-- Completed or Cancelled. -/
def isDone (s : Coded FlowState) : Bool :=
  decide (s = .named .completed) || decide (s = .named .cancelled)

/-- Every flow is Completed or Cancelled. -/
def View.Done (v : View) : Prop := ∀ fid f, v.flows fid = some f → isDone f.state = true

theorem isTerminal_of_isDone {s : Coded FlowState} (h : isDone s = true) : isTerminal s = true := by
  simp only [isDone, isTerminal, Bool.or_eq_true] at h ⊢
  exact Or.inl h

theorem not_isScheduled_of_isDone {s : Coded FlowState} (h : isDone s = true) :
    isScheduled s = false := by
  simp only [isDone, Bool.or_eq_true, decide_eq_true_eq] at h
  rcases h with rfl | rfl <;> rfl

theorem View.Done.setFlow {v : View} {fid : FlowId} {f : FlowRT} (h : (v.setFlow fid f).Done) :
    isDone f.state = true := h fid f (v.setFlow_self fid f)

theorem FlowMove.done {v : View} {k : Kind} {fid : FlowId} {f f' : FlowRT}
    (hm : FlowMove v k fid f f') (h : isDone f'.state = true) : isDone f.state = true := by
  cases hm with
  | age => exact h
  | dispatch => cases h
  | regrade ng t =>
    dsimp only at h
    rcases Governor.gradeOf_cases f ng with hg | hg | hg
    all_goals
      rw [hg] at h
      cases h
  | resume => cases h
  | progress => exact h

/-- The transactions that end a flow. -/
def Kind.ends : Kind → Bool
  | .cancel _ => true
  | .complete _ => true
  | _ => false

/-- No other transaction leads to a state where every flow has ended, except from one. -/
theorem Txn.done_back {v w : View} {k : Kind} (ht : Txn v k w) (hk : k.ends = false)
    (h : w.Done) : v.Done := by
  cases ht with
  | draw => exact h
  | bump => exact h
  | path => exact h
  | join => exact h
  | lose worker =>
    intro fid f hf
    have hlost : (v.lose worker).flows fid = some (if Governor.rolls worker f then
        { f with assignedWorker := none, lastError := ascii "worker lost" } else f) := by
      simp only [View.lose, hf, Option.map_some]
    have hdone := h fid _ hlost
    split at hdone <;> exact hdone
  | moves k F hF =>
    intro fid f hf
    have hdone := h fid (F fid f) (by simp only [hf, Option.map_some])
    rcases hF fid f hf with he | hm
    · exact he ▸ hdone
    · exact hm.done hdone
  | park => cases h.setFlow
  | reserve => cases h.setFlow
  | dequeue => cases h.setFlow
  | cancel => cases hk
  | complete => cases hk
  | release rid => exact fun fid f hf => h fid f ((View.release_rest v rid).1.symm ▸ hf)
  | remint => cases h.setFlow
  | roll => cases h.setFlow
  | rollStray => cases h.setFlow

theorem Ran.done_back {P : Kind → Prop} {g g' : Governor} (h : Ran P g g')
    (hP : ∀ k, P k → k.ends = false) (hd : g'.view.Done) : g.view.Done := by
  by_contra hn
  exact h.inv (I := fun v => ¬ v.Done)
    (fun v k w hk hv ht hw => hv (ht.done_back (hP k hk) hw)) hn hd

namespace Governor

/-- When every flow has ended, the reserved and allocated figures are zero. -/
def Idle (g : Governor) : Prop :=
  g.view.Done → ∀ rid r, g.resources.find? rid = some r → r.reserved = 0 ∧ r.allocated = 0

theorem reservedOn_of_done {g : Governor} (hl : g.view.Linked) (hd : g.view.Done)
    (rid : ResourceId) : g.reservedOn rid = 0 := by
  refine List.sum_eq_zero fun x hx => ?_
  obtain ⟨rsv, hrsv, rfl⟩ := List.mem_map.mp hx
  obtain ⟨e, he, rfl⟩ := List.mem_map.mp hrsv
  refine if_neg fun hheld => ?_
  rw [heldAside, Bool.and_eq_true] at hheld
  obtain ⟨f, hf, hlink⟩ := hl.live e.1 e.2 (Table.find?_of_mem he) hheld.1
  have hterm := isTerminal_of_isDone (hd _ f hf)
  rw [hlink.open_] at hterm
  cases hterm

theorem allocatedOn_of_done {g : Governor} (hd : g.view.Done) (rid : ResourceId) :
    g.allocatedOn rid = 0 := by
  refine List.sum_eq_zero fun x hx => ?_
  obtain ⟨f, hf, rfl⟩ := List.mem_map.mp hx
  obtain ⟨e, he, rfl⟩ := List.mem_map.mp hf
  have hs := not_isScheduled_of_isDone (hd e.1 e.2 (Table.find?_of_mem he))
  rw [isScheduled_eq, Bool.or_eq_false_iff] at hs
  simp [hs.1]

/-- A recompute of the usage leaves the figures right. -/
theorem idle_recomputeUsage {g : Governor} (hl : g.recomputeUsage.view.Linked) :
    g.recomputeUsage.Idle := by
  intro hd rid r hr
  rw [view_recomputeUsage] at hl hd
  rw [recomputeUsage_find?] at hr
  obtain ⟨r₀, -, rfl⟩ := Option.map_eq_some_iff.mp hr
  exact ⟨reservedOn_of_done hl hd rid, allocatedOn_of_done hd rid⟩

/-- Every resource has the figures it had. -/
def KeepsStored (g g' : Governor) : Prop := ∀ rid r', g'.resources.find? rid = some r' →
  ∃ r, g.resources.find? rid = some r ∧ r'.reserved = r.reserved ∧ r'.allocated = r.allocated

namespace KeepsStored
variable {g g' g'' : Governor}

theorem of_eq (h : g'.resources.find? = g.resources.find?) : g.KeepsStored g' := fun _ r' hr' =>
  ⟨r', h ▸ hr', rfl, rfl⟩

theorem trans (h : g.KeepsStored g') (h' : g'.KeepsStored g'') : g.KeepsStored g'' := by
  intro rid r'' hr''
  obtain ⟨r', hr', h₁, h₂⟩ := h' rid r'' hr''
  obtain ⟨r, hr, h₃, h₄⟩ := h rid r' hr'
  exact ⟨r, hr, h₁.trans h₃, h₂.trans h₄⟩

/-- Rewriting every resource in place with its figures kept. -/
theorem mapVals {F : ResourceId → ResRT → ResRT}
    (hF : ∀ rid r, (F rid r).reserved = r.reserved ∧ (F rid r).allocated = r.allocated) :
    g.KeepsStored { g with resources := g.resources.mapVals F } := by
  intro rid r' hr'
  rw [Table.find?_mapVals] at hr'
  obtain ⟨r, hr, rfl⟩ := Option.map_eq_some_iff.mp hr'
  exact ⟨r, hr, hF rid r⟩

theorem insert {rid : ResourceId} {r r₁ : ResRT} (hr : g.resources.find? rid = some r)
    (h₁ : r₁.reserved = r.reserved) (h₂ : r₁.allocated = r.allocated) :
    g.KeepsStored { g with resources := g.resources.insert rid r₁ } := by
  intro x r' hr'
  rw [Table.find?_insert] at hr'
  split at hr'
  · rename_i he
    cases hr'
    exact he ▸ ⟨r, hr, h₁, h₂⟩
  · exact ⟨r', hr', rfl, rfl⟩

theorem recomputeGoverned (g : Governor) : g.KeepsStored g.recomputeGoverned :=
  mapVals fun _ _ => ⟨rfl, rfl⟩

theorem recomputeSaturation (g : Governor) : g.KeepsStored g.recomputeSaturation :=
  mapVals fun _ _ => ⟨rfl, rfl⟩

theorem bump (g : Governor) (res : ResourceId) : g.KeepsStored (g.bumpResourceGeneration res) :=
  mapVals fun rid r => by
    dsimp only
    split <;> exact ⟨rfl, rfl⟩

theorem bumpCapacity (g : Governor) : g.KeepsStored g.bumpCapacityGeneration := of_eq rfl

end KeepsStored

/-- Every resource has the figures it had, or none. -/
def KeepsFigures (g g' : Governor) : Prop := ∀ rid r', g'.resources.find? rid = some r' →
  (r'.reserved = 0 ∧ r'.allocated = 0) ∨
    ∃ r, g.resources.find? rid = some r ∧ r'.reserved = r.reserved ∧ r'.allocated = r.allocated

namespace KeepsFigures
variable {g g' g'' : Governor}

theorem of_resources (h : g'.resources = g.resources) : KeepsFigures g g' := fun _ r' hr =>
  Or.inr ⟨r', h ▸ hr, rfl, rfl⟩

theorem trans (h : KeepsFigures g g') (h' : KeepsFigures g' g'') : KeepsFigures g g'' := by
  intro rid r'' hr
  rcases h' rid r'' hr with hz | ⟨r', hr', h₁, h₂⟩
  · exact Or.inl hz
  · rcases h rid r' hr' with hz | ⟨r, hr, h₃, h₄⟩
    · exact Or.inl ⟨h₁.trans hz.1, h₂.trans hz.2⟩
    · exact Or.inr ⟨r, hr, h₁.trans h₃, h₂.trans h₄⟩

theorem of_stored (h : g.KeepsStored g') : KeepsFigures g g' := fun rid r' hr' =>
  Or.inr (h rid r' hr')

/-- Writing one resource with the figures it had, or none. -/
theorem of_insert {rid : ResourceId} {r₁ : ResRT} (h : g'.resources = g.resources.insert rid r₁)
    (hF : (r₁.reserved = 0 ∧ r₁.allocated = 0) ∨ ∃ r, g.resources.find? rid = some r ∧
      r₁.reserved = r.reserved ∧ r₁.allocated = r.allocated) : KeepsFigures g g' := by
  intro x r' hr
  rw [h, Table.find?_insert] at hr
  split at hr
  · rename_i he
    cases hr
    exact he ▸ hF
  · exact Or.inr ⟨r', hr, rfl, rfl⟩

theorem install (g : Governor) (spec : ResourceSpec) {write : ResRT → ResRT}
    (hw : ∀ r, (write r).reserved = r.reserved ∧ (write r).allocated = r.allocated) :
    KeepsFigures g (g.installResource spec write) := by
  unfold installResource
  refine of_insert rfl ?_
  simp only [(hw _).1, (hw _).2]
  cases h : g.resources.find? spec.id with
  | none => exact Or.inl ⟨rfl, rfl⟩
  | some r => exact Or.inr ⟨r, rfl, rfl, rfl⟩

theorem idle (h : KeepsFigures g g') (hd : g'.view.Done → g.view.Done) (hi : g.Idle) :
    g'.Idle := by
  intro hdone rid r' hr
  rcases h rid r' hr with hz | ⟨r, hr, h₁, h₂⟩
  · exact hz
  · obtain ⟨h₃, h₄⟩ := hi (hd hdone) rid r hr
    exact ⟨h₁.trans h₃, h₂.trans h₄⟩

end KeepsFigures

/-! ### Figures under each operation -/

theorem updateCapacity_stored (g : Governor) (res : ResourceId) (measured confidence : ℚ)
    (provenance : Str) (latency : ℚ) (depth : UInt64) (bump : Bool) : g.KeepsStored
      (stateAfter id (g.updateCapacity res measured confidence provenance latency depth bump)) := by
  unfold updateCapacity
  cases hr : g.resources.find? res with
  | none => exact .of_eq rfl
  | some r =>
    dsimp only
    split
    · exact .of_eq rfl
    · refine .trans (.trans ?_ (.recomputeGoverned _)) (.recomputeSaturation _)
      cases bump with
      | false => exact .insert hr rfl rfl
      | true =>
        refine .trans ?_ (.bumpCapacity _)
        refine .trans ?_ (.bump _ res)
        exact .insert hr rfl rfl

theorem setResourceEnabled_stored (g : Governor) (res : ResourceId) (enabled : Bool) :
    g.KeepsStored (g.setResourceEnabled res enabled) := by
  unfold setResourceEnabled
  cases hr : g.resources.find? res with
  | none => exact .of_eq rfl
  | some r =>
    refine .trans (.trans ?_ (.recomputeGoverned _)) (.recomputeSaturation _)
    exact .insert hr rfl rfl

theorem invalidateResourceCapacity_stored (g : Governor) (res : ResourceId) :
    g.KeepsStored (g.invalidateResourceCapacity res) := by
  unfold invalidateResourceCapacity
  cases g.resources.find? res with
  | none => exact .of_eq rfl
  | some r =>
    refine .trans (.trans ?_ (.recomputeGoverned _)) (.recomputeSaturation _)
    exact .trans (.bump g res) (.bumpCapacity _)

theorem enrol_figures (g : Governor) (reg : WorkerRegistration) : KeepsFigures g (g.enrol reg) := by
  have hfold : ∀ (l : List ResourceSpec) (g : Governor),
      KeepsFigures g (l.foldl (fun g rs => g.installResource rs id) g) := by
    intro l
    induction l with
    | nil => exact fun g => .of_resources rfl
    | cons rs l ih => exact fun g => (KeepsFigures.install g rs fun _ => ⟨rfl, rfl⟩).trans (ih _)
  exact (hfold reg.inventory g).trans (.of_resources rfl)

/-- When every flow has ended, a registration rolls none. -/
theorem registerWorker_of_done {g : Governor} (hd : g.view.Done) (reg : WorkerRegistration) :
    g.registerWorker reg = .ok (g.enrol reg).recomputeGoverned := by
  have hnone : ∀ (l : List (FlowId × FlowRT)) (g : Governor),
      (∀ e ∈ l, isDone e.2.state = true) → l.foldlM (fun g e =>
        if rolls reg.worker e.2 then g.rollFlow reg.worker reg.boot e.1 e.2 else .ok g) g =
          .ok g := by
    intro l
    induction l with
    | nil => exact fun g _ => rfl
    | cons e l ih =>
      intro g he
      rw [List.forall_mem_cons] at he
      have hr : ¬ rolls reg.worker e.2 = true := fun hr => by
        have hdone := he.1
        rw [(rolls_iff.mp hr).1] at hdone
        cases hdone
      rw [List.foldlM_cons, if_neg hr]
      exact ih g he.2
  unfold registerWorker
  dsimp only
  rw [hnone _ (g.enrol reg) fun e he => hd e.1 e.2 (Table.find?_of_mem (g.enrol_flows reg ▸ he))]
  split <;> rfl

theorem releaseOf_resources (g : Governor) (f : FlowRT) :
    (g.releaseOf f).resources = g.resources := by
  obtain ⟨rs, h⟩ := g.releaseOf_eq f
  rw [h]

/-- A cancellation or completion that goes through ends with fresh sums. -/
theorem cancelFlow_usage (g : Governor) (fid : FlowId) (reason : Str) :
    stateAfter Prod.fst (g.cancelFlow fid reason) = g ∨ ∃ h : Governor,
      h.resources = g.resources ∧
        stateAfter Prod.fst (g.cancelFlow fid reason) = h.recomputeUsage := by
  unfold cancelFlow
  cases g.flows.find? fid with
  | none => exact Or.inl rfl
  | some f =>
    dsimp only
    split
    · exact Or.inl rfl
    · cases setFlowState f .cancelled with
      | error e => exact Or.inl rfl
      | ok f' =>
        refine Or.inr ⟨_, ?_, rfl⟩
        exact releaseOf_resources _ _

theorem reportCompletion_usage (g : Governor) (fid : FlowId) (attempt : AttemptId)
    (fgen : FlowGeneration) (boot : WorkerBootId) (bytes : UInt64) :
    stateAfter Prod.fst (g.reportCompletion fid attempt fgen boot bytes) = g ∨ ∃ h : Governor,
      h.resources = g.resources ∧
        stateAfter Prod.fst (g.reportCompletion fid attempt fgen boot bytes) =
          h.recomputeUsage := by
  unfold reportCompletion
  cases g.flows.find? fid with
  | none => exact Or.inl rfl
  | some f =>
    dsimp only
    split
    · rename_i ha
      rw [setFlowState_ok (f := { f with bytesDone := max f.bytesDone bytes }) (a := .running)
        (authorised_running ha) (Or.inr (by decide))]
      refine Or.inr ⟨_, ?_, rfl⟩
      exact releaseOf_resources _ _
    · exact Or.inl rfl

theorem submitFlow_idle {g : Governor} (hi : g.Idle) (spec : FlowSpec) :
    (stateAfter Prod.fst (g.submitFlow spec)).Idle := by
  obtain ⟨g', res, hok, hs⟩ := g.submitFlow_spec spec
  rw [hok, stateAfter]
  generalize res.admitted = b at hs
  cases hs with
  | refused => exact hi
  | parked =>
    intro hd
    rw [parked, view_insertFlow] at hd
    cases hd.setFlow
  | admitted =>
    intro hd
    rw [view_recomputeUsage, admitted, view_insertFlow] at hd
    cases hd.setFlow

theorem resumeFlow_resources {g : Governor} (hwf : g.view.WF) (fid : FlowId) :
    (stateAfter Prod.fst (g.resumeFlow fid)).resources = g.resources := by
  unfold resumeFlow
  cases hf : g.flows.find? fid with
  | none => rfl
  | some f =>
    dsimp only
    split
    · rfl
    · rcases g.rereserve_spec (hwf.flowOk hf).rated with h | ⟨path, c, -, -, h⟩
      · simp only [h, bind, Except.bind]
        cases setFlowState f .reserved <;> rfl
      · simp only [h, bind, Except.bind]
        split <;> rfl

theorem releaseReservation_idle {g : Governor} (hi : g.Idle) (rid : ReservationId)
    (hl : (g.releaseReservation rid).1.view.Linked) : (g.releaseReservation rid).1.Idle := by
  have hback := (g.releaseReservation_ran rid).done_back (by rintro k rfl; rfl)
  unfold releaseReservation at hl hback ⊢
  cases hr : g.reservations.find? rid with
  | none => exact hi
  | some rsv =>
    rw [hr] at hl hback
    dsimp only at hl hback ⊢
    split
    · exact hi
    · rename_i hlive
      rw [if_neg hlive] at hl hback
      intro hd res r hres
      have hresources : (g.releaseReservationInternal rid).resources = g.resources := by
        unfold releaseReservationInternal
        rw [hr]
        dsimp only
        split <;> rfl
      simp only [recomputeSaturation, Table.find?_mapVals, recomputeReserved_find?, hresources,
        Option.map_map] at hres
      obtain ⟨r₀, hr₀, rfl⟩ := Option.map_eq_some_iff.mp hres
      exact ⟨reservedOn_of_done (g := g.releaseReservationInternal rid) hl hd res,
        (hi (hback hd) res r₀ hr₀).2⟩

/-- Every operation but a restoration keeps the idle figures at zero. -/
theorem apply_idle {g : Governor} (hwf : g.view.WF) {op : Op}
    (hlive : (Event.call op).live = true) (hl : (g.apply op).view.Linked) (hi : g.Idle) :
    (g.apply op).Idle := by
  have hran := apply_ran hwf hlive
  cases op with
  | setAutoClock auto => exact hi
  | advanceMs dt => exact hi
  | addResource spec =>
    have hkeep : KeepsFigures g (g.installResource spec fun r => { r with confidence := 0 }) :=
      .install g spec fun _ => ⟨rfl, rfl⟩
    exact (hkeep.trans (.of_stored (.recomputeGoverned _))).idle
      (hran.done_back (by rintro k rfl; rfl)) hi
  | updateCapacity res measured confidence provenance latency depth bump =>
    exact
      (KeepsFigures.of_stored (g.updateCapacity_stored res measured confidence provenance latency
      depth bump)).idle (hran.done_back (by rintro k rfl; rfl)) hi
  | setResourceEnabled res enabled =>
    exact (KeepsFigures.of_stored (g.setResourceEnabled_stored res enabled)).idle
      (hran.done_back (by rintro k ⟨⟩)) hi
  | invalidateResourceCapacity res =>
    exact (KeepsFigures.of_stored (g.invalidateResourceCapacity_stored res)).idle
      (hran.done_back (by rintro k rfl; rfl)) hi
  | addPath path =>
    refine (KeepsFigures.of_resources ?_).idle (hran.done_back (by rintro k rfl; rfl)) hi
    change (stateAfter id (g.addPath path)).resources = _
    unfold addPath
    cases validatePath path <;> rfl
  | invalidatePath path =>
    exact (KeepsFigures.of_resources (g := g) rfl).idle (hran.done_back (by rintro k rfl; rfl)) hi
  | submitFlow spec => exact submitFlow_idle hi spec
  | cancelFlow flow reason =>
    change (stateAfter Prod.fst (g.cancelFlow flow reason)).view.Linked at hl
    change (stateAfter Prod.fst (g.cancelFlow flow reason)).Idle
    rcases g.cancelFlow_usage flow reason with h | ⟨h, -, he⟩
    · rw [h]; exact hi
    · rw [he] at hl ⊢; exact idle_recomputeUsage hl
  | resumeFlow flow =>
    exact (KeepsFigures.of_resources (resumeFlow_resources hwf flow)).idle
      (hran.done_back (by rintro k rfl; rfl)) hi
  | tick =>
    obtain ⟨g', -, -, htick⟩ := tick_eq hwf
    have happ : g.apply .tick = g'.recomputeGoverned.recomputeReserved.arbitrated := by
      simp only [apply, htick, stateAfter, id]
    rw [happ] at hl ⊢
    exact idle_recomputeUsage hl
  | releaseReservation rid => exact releaseReservation_idle hi rid hl
  | registerWorker reg =>
    intro hd
    have hd₀ := hran.done_back (by rintro k (rfl | rfl | ⟨fid, rfl⟩) <;> rfl) hd
    have happ : g.apply (.registerWorker reg) = (g.enrol reg).recomputeGoverned := by
      simp only [apply, registerWorker_of_done hd₀, stateAfter, id]
    rw [happ] at hd ⊢
    exact ((g.enrol_figures reg).trans (.of_stored (.recomputeGoverned _))).idle
      (fun _ => hd₀) hi hd
  | deregisterWorker worker =>
    have hkeep : KeepsFigures g (g.deregisterWorker worker) := .of_resources rfl
    exact hkeep.idle (hran.done_back (by rintro k rfl; rfl)) hi
  | reportProgress flow attempt fgen boot bytes =>
    refine (KeepsFigures.of_resources ?_).idle (hran.done_back (by rintro k rfl; rfl)) hi
    change (g.reportProgress flow attempt fgen boot bytes).1.resources = _
    unfold reportProgress
    cases g.flows.find? flow with
    | none => rfl
    | some f => dsimp only; split <;> rfl
  | reportCompletion flow attempt fgen boot bytes =>
    change (stateAfter Prod.fst (g.reportCompletion flow attempt fgen boot bytes)).view.Linked at hl
    change (stateAfter Prod.fst (g.reportCompletion flow attempt fgen boot bytes)).Idle
    rcases g.reportCompletion_usage flow attempt fgen boot bytes with h | ⟨h, -, he⟩
    · rw [h]; exact hi
    · rw [he] at hl ⊢; exact idle_recomputeUsage hl
  | restore snap => cases hlive

end Governor

theorem step_idle {g h : Governor} {e : Event} (hwf : g.view.WF) (hlive : e.live = true)
    (hs : g.Step e h) (hl : h.view.Linked) (hi : g.Idle) : h.Idle := by
  cases hs with
  | call op => exact Governor.apply_idle hwf hlive hl hi
  | clock t => exact hi
  | rehash hr =>
    intro hd rid r hres
    exact hi (hr.view ▸ hd) rid r ((hr.resources.find? rid).trans hres)

theorem Reaches.idle {es : List Event} {g : Governor} (h : Reaches es g) : g.Idle := by
  obtain ⟨hlive, g₀, hfresh, hrun⟩ := h
  have hreach₀ : Reaches [] g₀ := ⟨by simp, g₀, hfresh, .nil g₀⟩
  have hlinked₀ : g₀.view.Linked := hreach₀.linked
  have hidle₀ : g₀.Idle := by
    obtain ⟨entropy, config, steady, rfl⟩ := hfresh
    intro _ rid r hr
    cases hr
  refine (hrun.inv_of (P := fun g => g.view.WF ∧ g.view.Linked ∧ g.Idle)
    (Q := fun e => e.live = true) (fun g e h he hg hs => ?_) hlive
    ⟨hfresh.wf, hlinked₀, hidle₀⟩).2.2
  obtain ⟨hwf, hlinked, hidle⟩ := hg
  have hran := step_ran hwf he hs
  have hboth : h.view.WF ∧ h.view.Linked := hran.inv (I := fun v => v.WF ∧ v.Linked)
    (fun v k w _ hv ht => ⟨ht.wf hv.1, ht.linked hv.1 hv.2⟩) ⟨hwf, hlinked⟩
  exact ⟨hboth.1, hboth.2, step_idle hwf he hs hboth.2 hidle⟩

theorem Governor.accountingAtZero_of_done {g : Governor} (hl : g.view.Linked) (hi : g.Idle)
    (hd : g.view.Done) : g.accountingAtZero = true := by
  have hk := kEps_pos
  simp only [accountingAtZero, Bool.and_eq_true, List.all_eq_true]
  refine ⟨⟨fun r hr => ?_, fun f hf => ?_⟩, fun rsv hrsv => ?_⟩
  · obtain ⟨e, he, rfl⟩ := List.mem_map.mp hr
    obtain ⟨h₁, h₂⟩ := hi hd e.1 e.2 (Table.find?_of_mem he)
    simp [h₁, h₂, hk.le]
  · obtain ⟨e, he, rfl⟩ := List.mem_map.mp hf
    rw [not_isScheduled_of_isDone (hd e.1 e.2 (Table.find?_of_mem he))]
    rfl
  · obtain ⟨e, he, rfl⟩ := List.mem_map.mp hrsv
    rw [Bool.not_eq_true', ← Bool.not_eq_true]
    intro hlive
    obtain ⟨f, hf, hlink⟩ := hl.live e.1 e.2 (Table.find?_of_mem he) hlive
    have hterm := isTerminal_of_isDone (hd _ f hf)
    rw [hlink.open_] at hterm
    cases hterm

/-- No reservation leaks. In every reachable state a live reservation belongs to a flow that has not
    ended, points back at it and carries its attempt, generation and path; no flow has two; and when
    every flow is Completed or Cancelled the accounting is at zero. -/
theorem reservations_never_leak {es : List Event} {g : Governor} (h : Reaches es g) :
    (∀ rid rsv, g.reservations.find? rid = some rsv →
      rsv.state = .named .active ∨ rsv.state = .named .pending →
      ∃ f, g.flows.find? rsv.flow = some f ∧ f.state ≠ .named .completed ∧
        f.state ≠ .named .cancelled ∧ f.state ≠ .named .failed ∧ f.reservation = some rid ∧
        rsv.attempt = f.spec.attempt ∧ rsv.flowGeneration = f.spec.generation ∧
        rsv.path = f.spec.path) ∧
    (∀ rid₁ rid₂ rsv₁ rsv₂, g.reservations.find? rid₁ = some rsv₁ →
      g.reservations.find? rid₂ = some rsv₂ → isLive rsv₁.state = true →
      isLive rsv₂.state = true → rsv₁.flow = rsv₂.flow → rid₁ = rid₂) ∧
    ((∀ fid f, g.flows.find? fid = some f →
        f.state = .named .completed ∨ f.state = .named .cancelled) →
      g.accountingAtZero = true) := by
  refine ⟨fun rid rsv hr hl => ?_, fun rid₁ rid₂ rsv₁ rsv₂ h₁ h₂ hl₁ hl₂ he => ?_, fun hd => ?_⟩
  · obtain ⟨f, hf, hlink⟩ := h.linked.live rid rsv hr (by simpa [isLive] using hl)
    have hopen := hlink.open_
    simp only [isTerminal, Bool.or_eq_false_iff, decide_eq_false_iff_not] at hopen
    exact ⟨f, hf, hopen.1.1, hopen.1.2, hopen.2, hlink.back, hlink.attempt, hlink.generation,
      hlink.path⟩
  · obtain ⟨f₁, hf₁, hlink₁⟩ := h.linked.live rid₁ rsv₁ h₁ hl₁
    obtain ⟨f₂, hf₂, hlink₂⟩ := h.linked.live rid₂ rsv₂ h₂ hl₂
    rw [he, hf₂, Option.some.injEq] at hf₁
    rw [← hf₁] at hlink₁
    exact Option.some.inj (hlink₁.back.symm.trans hlink₂.back)
  · exact Governor.accountingAtZero_of_done h.linked h.idle fun fid f hf => by
      simpa [isDone] using hd fid f hf

/-- The theorem after a flow has run and been cancelled. -/
theorem reservations_never_leak_cancelled :
    (Sample.start.after (Sample.oneLink ++ [.submitFlow (Sample.flow 1 1 40 80 100), .tick,
      .cancelFlow ⟨0, 1⟩ []])).accountingAtZero = true := by
  refine (reservations_never_leak (Sample.reaches rfl)).2.2 fun fid f hf => ?_
  have hall : ((Sample.start.after (Sample.oneLink ++ [.submitFlow (Sample.flow 1 1 40 80 100),
      .tick, .cancelFlow ⟨0, 1⟩ []])).flows.entries.all fun e => isDone e.2.state) = true := by
    decide +kernel
  simpa [isDone] using List.all_eq_true.mp hall (fid, f) (Table.mem_of_find? hf)

end BG
