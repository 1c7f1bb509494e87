import Mathlib
import BandwidthGovernor.Transport.Server

/-! The boot a dispatch carries against the boot the fence reads.

    A flow copies the boot of its worker when it is dispatched. A restart refreshes the copies of
    Running flows only; the invariant is that no moving flow is left with an old one. -/

namespace BG

open Lib

/-- The boot a flow copied is the one its worker, when it is alive, is registered under. -/
def View.BootCurrent (v : View) (f : FlowRT) : Prop :=
  ∀ w wr, f.assignedWorker = some w → v.workers w = some wr → wr.alive = true →
    f.assignedBoot = wr.boot

/-- Moving flows hold current boots, queued flows have no worker. -/
structure View.Booted (v : View) : Prop where
  moving : ∀ fid f, v.flows fid = some f → isMoving f.state = true → v.BootCurrent f
  queued : ∀ fid f, v.flows fid = some f → f.state = .named .queued → f.assignedWorker = none

/-- A flow whose binding is that of `f` and which is moving or queued only if `f` is. -/
structure SameBinding (f f' : FlowRT) : Prop where
  moving : isMoving f'.state = true → isMoving f.state = true
  queued : f'.state = .named .queued → f.state = .named .queued
  worker : f'.assignedWorker = f.assignedWorker
  boot : f'.assignedBoot = f.assignedBoot

theorem SameBinding.refl (f : FlowRT) : SameBinding f f := ⟨id, id, rfl, rfl⟩

/-- A state in which a flow neither moves nor waits. -/
def isAtRest (s : Coded FlowState) : Prop := isMoving s = false ∧ s ≠ .named .queued

namespace View
variable {v w : View}

theorem BootCurrent.of_binding {f f' : FlowRT} (h : v.BootCurrent f) (hw : w.workers = v.workers)
    (hb : SameBinding f f') : w.BootCurrent f' := fun x wr hx hwr ha => by
  rw [hb.boot]
  exact h x wr (hb.worker ▸ hx) (hw ▸ hwr) ha

theorem Booted.of_flows (h : v.Booted) (hw : w.workers = v.workers)
    (hf : ∀ fid f', w.flows fid = some f' →
      (∃ f, v.flows fid = some f ∧ SameBinding f f') ∨ isAtRest f'.state) : w.Booted := by
  refine ⟨fun fid f' hf' hm => ?_, fun fid f' hf' hq => ?_⟩
  · rcases hf fid f' hf' with ⟨f, hf₀, hb⟩ | hrest
    · exact (h.moving fid f hf₀ (hb.moving hm)).of_binding hw hb
    · rw [hrest.1] at hm
      cases hm
  · rcases hf fid f' hf' with ⟨f, hf₀, hb⟩ | hrest
    · exact hb.worker.trans (h.queued fid f hf₀ (hb.queued hq))
    · exact absurd hq hrest.2

theorem Booted.setFlow (h : v.Booted) (hw : w.workers = v.workers) {fid : FlowId} {f : FlowRT}
    (hf : w.flows = (v.setFlow fid f).flows) (hrest : isAtRest f.state) : w.Booted := by
  refine h.of_flows hw fun x f' hf' => ?_
  rcases View.setFlow_cases (hf ▸ hf') with ⟨-, rfl⟩ | ⟨-, hx⟩
  · exact Or.inr hrest
  · exact Or.inl ⟨f', hx, .refl f'⟩

theorem Booted.releaseOf (h : v.Booted) (f : FlowRT) : (v.releaseOf f).Booted :=
  h.of_flows (releaseOf_workers v f) fun _ f' hf' =>
    Or.inl ⟨f', releaseOf_flows v f ▸ hf', .refl f'⟩

end View

/-- Transactions that bind no flow to a worker and change no worker's boot. -/
def Kind.binds : Kind → Bool
  | .settle => true
  | .join _ => true
  | _ => false

theorem FlowMove.binding {v : View} {k : Kind} {fid : FlowId} {f f' : FlowRT}
    (h : FlowMove v k fid f f') (hk : k.binds = false) : SameBinding f f' ∨ isAtRest f'.state := by
  cases h with
  | age => exact Or.inl ⟨id, id, rfl, rfl⟩
  | dispatch => cases hk
  | regrade => cases hk
  | resume => exact Or.inr ⟨rfl, by simp⟩
  | progress => exact Or.inl ⟨id, id, rfl, rfl⟩

theorem FlowMove.age_keeps {v : View} {fid : FlowId} {f f' : FlowRT}
    (h : FlowMove v .age fid f f') :
    f'.state = f.state ∧ f'.spec = f.spec ∧ f'.assignedWorker = f.assignedWorker ∧
      f'.assignedBoot = f.assignedBoot := by
  cases h
  exact ⟨rfl, rfl, rfl, rfl⟩

theorem Txn.booted {v w : View} {k : Kind} (ht : Txn v k w) (hk : k.binds = false)
    (h : v.Booted) : w.Booted := by
  cases ht with
  | draw => exact ⟨h.moving, h.queued⟩
  | bump => exact ⟨h.moving, h.queued⟩
  | path => exact ⟨h.moving, h.queued⟩
  | join => cases hk
  | lose worker =>
    have hcase : ∀ fid f', (v.lose worker).flows fid = some f' → ∃ f, v.flows fid = some f ∧
        f'.state = f.state ∧ f'.assignedBoot = f.assignedBoot ∧
        (f'.assignedWorker = none ∨ f'.assignedWorker = f.assignedWorker) := by
      intro fid f' hf'
      obtain ⟨f, hf, rfl⟩ := Option.map_eq_some_iff.mp hf'
      refine ⟨f, hf, ?_⟩
      split
      · exact ⟨rfl, rfl, Or.inl rfl⟩
      · exact ⟨rfl, rfl, Or.inr rfl⟩
    refine ⟨fun fid f' hf' hm x wr hx hwr ha => ?_, fun fid f' hf' hq => ?_⟩
    · obtain ⟨f, hf, hs, hb, hwk⟩ := hcase fid f' hf'
      have hx₀ : f.assignedWorker = some x := by
        rcases hwk with hn | hn
        · rw [hn] at hx
          cases hx
        · exact hn ▸ hx
      simp only [View.lose] at hwr
      split at hwr
      · obtain ⟨wr₀, -, rfl⟩ := Option.map_eq_some_iff.mp hwr
        cases ha
      · rw [hb]
        exact h.moving fid f hf (hs ▸ hm) x wr hx₀ hwr ha
    · obtain ⟨f, hf, hs, -, hwk⟩ := hcase fid f' hf'
      rcases hwk with hn | hn
      · exact hn
      · exact hn.trans (h.queued fid f hf (hs ▸ hq))
  | moves k F hF =>
    refine h.of_flows rfl fun fid f' hf' => ?_
    obtain ⟨f, hf, rfl⟩ := Option.map_eq_some_iff.mp hf'
    rcases hF fid f hf with he | hm
    · rw [he]
      exact Or.inl ⟨f, hf, .refl f⟩
    · exact (hm.binding hk).imp_left fun hb => ⟨f, hf, hb⟩
  | park spec t hnew =>
    refine ⟨fun fid f' hf' hm => ?_, fun fid f' hf' hq => ?_⟩
    · rcases View.setFlow_cases hf' with ⟨-, rfl⟩ | ⟨-, hx⟩
      · cases hm
      · exact h.moving fid f' hx hm
    · rcases View.setFlow_cases hf' with ⟨-, rfl⟩ | ⟨-, hx⟩
      · rfl
      · exact h.queued fid f' hx hq
  | reserve => exact h.setFlow rfl rfl ⟨rfl, by simp [reservedFlow]⟩
  | dequeue => exact h.setFlow rfl rfl ⟨rfl, by simp⟩
  | cancel fid f =>
    exact h.setFlow (View.releaseOf_workers _ f) (View.releaseOf_flows _ f) ⟨rfl, by simp⟩
  | complete fid f =>
    exact h.setFlow (View.releaseOf_workers _ f) (View.releaseOf_flows _ f) ⟨rfl, by simp⟩
  | release rid =>
    exact h.of_flows (View.release_rest v rid).2.1 fun fid f' hf' =>
      Or.inl ⟨f', (View.release_rest v rid).1 ▸ hf', .refl f'⟩
  | remint => exact h.setFlow rfl rfl ⟨rfl, by simp⟩
  | roll fid f => exact (h.releaseOf f).setFlow rfl rfl ⟨rfl, by simp⟩
  | rollStray fid f => exact (h.releaseOf f).setFlow rfl rfl ⟨rfl, by simp⟩

/-! ### The tick -/

namespace Governor

/-- Whether some alive worker backs a hop of a path. -/
theorem pickWorkerForPath_isSome {g : Governor} {pid : PathId} :
    (g.pickWorkerForPath pid).isSome = true ↔ ∃ p, g.paths.find? pid = some p ∧
      ∃ wid w, g.workers.find? wid = some w ∧ (w.alive && p.hops.any fun hop =>
        w.backResources.any fun rid => decide (rid = hop.resource)) = true := by
  unfold pickWorkerForPath
  cases g.paths.find? pid with
  | none => simp
  | some p =>
    simp only [List.find?_isSome, Option.some.injEq, exists_eq_left']
    constructor
    · rintro ⟨e, he, hp⟩
      exact ⟨e.1, e.2, Table.find?_of_mem he, hp⟩
    · rintro ⟨wid, w, hw, hp⟩
      exact ⟨(wid, w), Table.mem_of_find? hw, hp⟩

theorem pickWorkerForPath_isSome_congr {g g' : Governor} (hp : g'.view.paths = g.view.paths)
    (hw : g'.view.workers = g.view.workers) (pid : PathId) :
    (g'.pickWorkerForPath pid).isSome = (g.pickWorkerForPath pid).isSome := by
  rw [Bool.eq_iff_iff, pickWorkerForPath_isSome, pickWorkerForPath_isSome]
  simp only [← view_paths, ← view_workers, hp, hw]

/-- Settling binds a Reserved flow to an alive worker under its boot, or leaves it as it is. -/
theorem arbitrated_booted {g : Governor} (h : g.view.Booted)
    (hres : ∀ fid f, g.flows.find? fid = some f → f.state = .named .reserved →
      g.view.BootCurrent f ∨ (g.pickWorkerForPath f.spec.path).isSome = true) :
    g.arbitrated.view.Booted := by
  have hcase : ∀ fid f', g.arbitrated.view.flows fid = some f' → ∃ f, g.flows.find? fid = some f ∧
      f' = g.settled g.now fid f := fun fid f' hf' => by
    rw [view_flows, arbitrated_flows, Table.find?_mapVals] at hf'
    obtain ⟨f, hf, rfl⟩ := Option.map_eq_some_iff.mp hf'
    exact ⟨f, hf, rfl⟩
  refine ⟨fun fid f' hf' hm => ?_, fun fid f' hf' hq => ?_⟩
  · obtain ⟨f, hf, rfl⟩ := hcase fid f' hf'
    unfold settled at hm ⊢
    dsimp only at hm ⊢
    split
    · rename_i hr
      cases hpick : g.pickWorkerForPath f.spec.path with
      | none =>
        have hcur := (hres fid f hf hr).resolve_right (by simp [hpick])
        exact fun x wr hx hwr ha => hcur x wr hx hwr ha
      | some e =>
        obtain ⟨wid, wr₀⟩ := e
        obtain ⟨hw, -⟩ := pickWorkerForPath_alive hpick
        intro x wr hx hwr ha
        obtain rfl : wid = x := Option.some.inj hx
        obtain rfl : wr₀ = wr := Option.some.inj (hw.symm.trans hwr)
        rfl
    · rename_i hr
      split
      · rename_i hmv
        exact fun x wr hx hwr ha => h.moving fid f hf hmv x wr hx hwr ha
      · rename_i hmv
        rw [if_neg hr, if_neg hmv] at hm
        exact absurd hm hmv
  · obtain ⟨f, hf, rfl⟩ := hcase fid f' hf'
    unfold settled at hq ⊢
    dsimp only at hq ⊢
    split at hq
    · cases hq
    · rename_i hr
      split at hq
      · rcases gradeOf_cases f (g.grantOf g.now fid) with hg | hg | hg <;> rw [hg] at hq <;>
          cases hq
      · rename_i hmv
        rw [if_neg hr, if_neg hmv]
        exact h.queued fid f hf hq

/-- Up to arbitration, a tick makes no Reserved flow with a worker. -/
theorem prepareTick_booted {g : Governor} (hwf : g.view.WF) (h : g.view.Booted) :
    ∃ g' : Governor, g.prepareTick = .ok g'.recomputeGoverned.recomputeReserved ∧
      g'.view.Booted ∧ g'.view.workers = g.view.workers ∧ g'.view.paths = g.view.paths ∧
      ∀ fid f', g'.view.flows fid = some f' → f'.state = .named .reserved →
        f'.assignedWorker = none ∨ ∃ f, g.view.flows fid = some f ∧ f.state = .named .reserved ∧
          f.spec = f'.spec ∧ SameBinding f f' := by
  obtain ⟨g', hok, hr⟩ := prepareTick_ran hwf
  refine ⟨g', hok, hr.inv (I := fun v => v.Booted ∧ v.workers = g.view.workers ∧
    v.paths = g.view.paths ∧ ∀ fid f', v.flows fid = some f' → f'.state = .named .reserved →
      f'.assignedWorker = none ∨ ∃ f, g.view.flows fid = some f ∧ f.state = .named .reserved ∧
        f.spec = f'.spec ∧ SameBinding f f')
    (fun v k w hk hv ht => ?_)
    ⟨h, rfl, rfl, fun fid f' hf' hs => Or.inr ⟨f', hf', hs, rfl, .refl f'⟩⟩⟩
  obtain ⟨hb, hw, hp, hres⟩ := hv
  have hb' : w.Booted := ht.booted (by rcases hk with rfl | ⟨fid, rfl⟩ <;> rfl) hb
  rcases hk with rfl | ⟨x, rfl⟩
  · cases ht with
    | moves k F hF =>
      refine ⟨hb', hw, hp, fun fid f' hf' hs => ?_⟩
      obtain ⟨f, hf, rfl⟩ := Option.map_eq_some_iff.mp hf'
      have hage : (F fid f).state = f.state ∧ (F fid f).spec = f.spec ∧
          (F fid f).assignedWorker = f.assignedWorker ∧
          (F fid f).assignedBoot = f.assignedBoot := by
        rcases hF fid f hf with he | hm
        · rw [he]
          exact ⟨rfl, rfl, rfl, rfl⟩
        · exact hm.age_keeps
      obtain ⟨hst, hsp, hwk, hbt⟩ := hage
      rcases hres fid f hf (hst ▸ hs) with hn | ⟨f₀, hf₀, hs₀, hsp₀, hb₀⟩
      · exact Or.inl (hwk.trans hn)
      · refine Or.inr ⟨f₀, hf₀, hs₀, hsp₀.trans hsp.symm, ?_⟩
        exact ⟨fun hm => hb₀.moving (hst ▸ hm), fun hq => hb₀.queued (hst ▸ hq),
          hwk.trans hb₀.worker, hbt.trans hb₀.boot⟩
  · cases ht with
    | moves k F hF =>
      have hid : ∀ fid f, v.flows fid = some f → F fid f = f := fun fid f hf =>
        (hF fid f hf).elim id fun hm => by cases hm
      refine ⟨hb', hw, hp, fun fid f' hf' hs => ?_⟩
      obtain ⟨f, hf, rfl⟩ := Option.map_eq_some_iff.mp hf'
      rw [hid fid f hf] at hs ⊢
      exact hres fid f hf hs
    | dequeue fid f p c t hf hq =>
      refine ⟨hb', hw, hp, fun fid' f' hf' hs => ?_⟩
      rcases View.setFlow_cases hf' with ⟨-, rfl⟩ | ⟨-, hx⟩
      · exact Or.inl (hb.queued x f hf hq)
      · exact hres fid' f' hx hs

/-! ### Conditions on the events -/

/-- Whether the boot a flow copied is current. -/
def holdsBoot (g : Governor) (f : FlowRT) : Bool :=
  match f.assignedWorker with
  | none => true
  | some w => match g.workers.find? w with
    | none => true
    | some wr => !wr.alive || decide (f.assignedBoot = wr.boot)

theorem bootCurrent_of_holdsBoot {g : Governor} {f : FlowRT} (h : g.holdsBoot f = true) :
    g.view.BootCurrent f := fun w wr hw hwr ha => by
  rw [view_workers] at hwr
  simpa [holdsBoot, hw, hwr, ha] using h

/-- The events that leave no moving flow with an old boot. A registration must find every Throttled
    flow of its worker, and every Running one it does not roll, under the boot it brings; a tick
    must have an alive worker for the path of every Reserved flow with an old boot. -/
def keepsBoots (g : Governor) : Event → Bool
  | .call (.registerWorker reg) => g.flows.vals.all fun f =>
    !(decide (f.assignedWorker = some reg.worker) && (decide (f.state = .named .throttled) ||
      decide (f.state = .named .running) && !g.isRestart reg)) || decide (f.assignedBoot = reg.boot)
  | .call .tick => g.flows.vals.all fun f => !decide (f.state = .named .reserved) ||
    g.holdsBoot f || (g.pickWorkerForPath f.spec.path).isSome
  | _ => true

theorem keepsBoots_tick {g : Governor} (h : g.keepsBoots (.call .tick) = true) {fid : FlowId}
    {f : FlowRT} (hf : g.flows.find? fid = some f) (hs : f.state = .named .reserved) :
    g.view.BootCurrent f ∨ (g.pickWorkerForPath f.spec.path).isSome = true := by
  have hmem : f ∈ g.flows.vals := List.mem_map.mpr ⟨(fid, f), Table.mem_of_find? hf, rfl⟩
  have := List.all_eq_true.mp h f hmem
  simp only [hs, decide_true, Bool.not_true, Bool.false_or, Bool.or_eq_true] at this
  exact this.imp_left bootCurrent_of_holdsBoot

theorem keepsBoots_register {g : Governor} {reg : WorkerRegistration}
    (h : g.keepsBoots (.call (.registerWorker reg)) = true) {fid : FlowId} {f : FlowRT}
    (hf : g.flows.find? fid = some f) (hm : isMoving f.state = true)
    (hw : f.assignedWorker = some reg.worker)
    (hr : g.isRestart reg = true → rolls reg.worker f = false) : f.assignedBoot = reg.boot := by
  have hmem : f ∈ g.flows.vals := List.mem_map.mpr ⟨(fid, f), Table.mem_of_find? hf, rfl⟩
  have hall := List.all_eq_true.mp h f hmem
  rcases isMoving_cases hm with hs | hs
  · have hno : g.isRestart reg = false := by
      cases hre : g.isRestart reg with
      | false => rfl
      | true =>
        have := hr hre
        simp [rolls, hs, hw] at this
    simpa [hs, hw, hno] using hall
  · simpa [hs, hw] using hall

theorem tick_booted {g : Governor} (hwf : g.view.WF) (h : g.view.Booted)
    (hk : g.keepsBoots (.call .tick) = true) : (g.apply .tick).view.Booted := by
  obtain ⟨g', hok, hb, hw, hp, hres⟩ := prepareTick_booted hwf h
  have htick : g.apply .tick = g'.recomputeGoverned.recomputeReserved.arbitrated := by
    rw [apply, tick, hok]
    change stateAfter id g'.recomputeGoverned.recomputeReserved.arbitrate = _
    rw [arbitrate_eq]
    rfl
  rw [htick]
  refine arbitrated_booted (g := g'.recomputeGoverned.recomputeReserved) hb fun fid f' hf' hs => ?_
  rcases hres fid f' hf' hs with hn | ⟨f, hf, hs₀, hspec, hbind⟩
  · refine Or.inl fun x wr hx => ?_
    rw [hn] at hx
    cases hx
  · have hpick : (g'.recomputeGoverned.recomputeReserved.pickWorkerForPath f'.spec.path).isSome =
        (g.pickWorkerForPath f'.spec.path).isSome := pickWorkerForPath_isSome_congr hp hw _
    rw [hpick, ← hspec]
    exact (keepsBoots_tick hk hf hs₀).imp_left fun hc => hc.of_binding hw hbind

theorem registerWorker_booted {g : Governor} (hwf : g.view.WF) (h : g.view.Booted)
    {reg : WorkerRegistration} (hk : g.keepsBoots (.call (.registerWorker reg)) = true) :
    (g.apply (.registerWorker reg)).view.Booted := by
  have hrated : ∀ fid f, g.flows.find? fid = some f → f.Rated := fun fid f hf =>
    let hg := hwf.granted fid f hf
    ⟨hg.1, hg.2.trans f.spec.requestedMax.le_max⟩
  obtain ⟨g', hok, hw, hf⟩ := registerWorker_ok hrated reg
  have happly : g.apply (.registerWorker reg) = g' := by
    rw [apply, hok]
    rfl
  have hwk : ∀ x, g'.workers.find? x =
      if x = reg.worker then some reg.entry else g.workers.find? x := fun x => by
    rw [hw, enrol_workers, Table.find?_insert]
  rw [happly]
  refine ⟨fun fid f' hf' hm x wr hx hwr ha => ?_, fun fid f' hf' hq => ?_⟩
  · rcases hf fid f' hf' with hs | ⟨hkeep, hroll⟩
    · rw [hs] at hm
      cases hm
    · rw [view_workers, hwk] at hwr
      split at hwr
      · rename_i he
        rw [← Option.some.inj hwr]
        exact keepsBoots_register hk hkeep hm (he ▸ hx) hroll
      · exact h.moving fid f' hkeep hm x wr hx hwr ha
  · rcases hf fid f' hf' with hs | ⟨hkeep, -⟩
    · rw [hs] at hq
      cases hq
    · exact h.queued fid f' hkeep hq

end Governor

theorem Event.binds_of_kinds {e : Event} {k : Kind} (hlive : e.live = true) (hk : e.kinds k)
    (hb : k.binds = true) : e = .call .tick ∨ ∃ reg, e = .call (.registerWorker reg) := by
  cases e with
  | clock => cases hk
  | rehash => cases hk
  | call op =>
    cases op with
    | tick => exact Or.inl rfl
    | registerWorker reg => exact Or.inr ⟨reg, rfl⟩
    | restore => cases hlive
    | setAutoClock => exact hk.elim
    | advanceMs => exact hk.elim
    | setResourceEnabled => exact hk.elim
    | _ => rw [show k = _ from hk] at hb; cases hb

theorem step_booted {g g' : Governor} {e : Event} (hs : g.Step e g') (hlive : e.live = true)
    (hk : g.keepsBoots e = true) (hwf : g.view.WF) (h : g.view.Booted) : g'.view.Booted := by
  by_cases he : e = .call .tick ∨ ∃ reg, e = .call (.registerWorker reg)
  · rcases he with rfl | ⟨reg, rfl⟩
    · cases hs
      exact Governor.tick_booted hwf h hk
    · cases hs
      exact Governor.registerWorker_booted hwf h hk
  · refine (step_ran hwf hlive hs).inv (fun v k w hkind hv ht => ht.booted ?_ hv) h
    exact Bool.eq_false_iff.mpr fun hb => he (Event.binds_of_kinds hlive hkind hb)

/-- In every run whose registrations and ticks meet the conditions, a Running flow of an alive
    worker holds the boot the worker is registered under, and the frames built from it carry a boot
    that its reports pass the fence with. -/
theorem dispatched_boots_current {g₀ g : Governor} {es : List Event} (hfresh : g₀.Fresh)
    (hrun : Lib.Run (fun g e g' => g.Step e g' ∧ (e.live && g.keepsBoots e) = true) g₀ es g)
    {fid : FlowId} {f : FlowRT} (hf : g.flows.find? fid = some f)
    (hs : f.state = .named .running) {w : WorkerId} (hw : f.assignedWorker = some w)
    {wr : WorkerRT} (hwr : g.workers.find? w = some wr) (ha : wr.alive = true) :
    f.assignedBoot = wr.boot ∧ ∀ snap, toFlowSnap f = .ok snap →
      (∀ rid, g.bootCurrent f (Server.dispatchOf snap rid).boot = true) ∧
        g.bootCurrent f (Server.grantOf snap).boot = true := by
  have hend : g.view.WF ∧ g.view.Booted := by
    refine hrun.inv (P := fun g => g.view.WF ∧ g.view.Booted) (fun g e g' hP hstep => ?_) ?_
    · obtain ⟨hstep, hok⟩ := hstep
      obtain ⟨hlive, hkeep⟩ := Bool.and_eq_true_iff.mp hok
      exact ⟨(step_ran hP.1 hlive hstep).wf hP.1, step_booted hstep hlive hkeep hP.1 hP.2⟩
    · obtain ⟨hfl, -⟩ := hfresh.view
      exact ⟨hfresh.wf, fun fid f h => by simp [hfl] at h, fun fid f h => by simp [hfl] at h⟩
  have hboot : f.assignedBoot = wr.boot :=
    hend.2.moving fid f hf (by rw [hs]; rfl) w wr hw hwr ha
  have hfence : g.bootCurrent f f.assignedBoot = true := by
    simp [Governor.bootCurrent, hw, hwr, ha, hboot]
  refine ⟨hboot, fun snap hsnap => ?_⟩
  have hcopy : snap.assignedBoot = f.assignedBoot := by
    unfold toFlowSnap at hsnap
    cases hc : Capacity.make (max 0 f.granted) with
    | error e =>
      rw [hc] at hsnap
      cases hsnap
    | ok c =>
      rw [hc] at hsnap
      rw [← Except.ok.inj hsnap]
  rw [← hcopy] at hfence
  exact ⟨fun rid => hfence, hfence⟩

namespace Sample

/-- A flow of worker 1 is throttled while the link is slow; the worker restarts, then the link
    recovers. -/
def restartWhileThrottled : List Op := oneLink ++
  [.registerWorker (worker 1), .submitFlow (flow 1 1 60 80 100), .tick,
   .updateCapacity ⟨0, 1⟩ 30 1 [] 0 0 false, .tick, .registerWorker (worker 2),
   .updateCapacity ⟨0, 1⟩ 100 1 [] 0 0 false, .tick]

/-- The worker restarts under the Running flow. -/
def restartWhileRunning : List Op := oneLink ++
  [.registerWorker (worker 1), .submitFlow (flow 1 1 60 80 100), .tick,
   .registerWorker (worker 2), .tick]

/-- State, worker and boot of flow 1, with the boot of worker 1 while it is alive. -/
def binding (g : Governor) :
    Option (Coded FlowState × Option WorkerId × WorkerBootId × WorkerBootId) := do
  let f ← g.flows.find? ⟨0, 1⟩
  let wr ← g.workers.find? ⟨0, 1⟩
  if wr.alive then pure (f.state, f.assignedWorker, f.assignedBoot, wr.boot) else none

theorem binding_spec {g : Governor} {s : Coded FlowState} {w : Option WorkerId}
    {b b' : WorkerBootId} (h : binding g = some (s, w, b, b')) : ∃ f wr,
      g.flows.find? ⟨0, 1⟩ = some f ∧ g.workers.find? ⟨0, 1⟩ = some wr ∧ wr.alive = true ∧
      f.state = s ∧ f.assignedWorker = w ∧ f.assignedBoot = b ∧ wr.boot = b' := by
  simp only [binding, bind, Option.bind_eq_some_iff] at h
  obtain ⟨f, hf, wr, hwr, h⟩ := h
  split at h
  · rename_i ha
    simp only [pure, Option.some.injEq, Prod.mk.injEq] at h
    exact ⟨f, wr, hf, hwr, ha, h⟩
  · cases h

end Sample

/-- Flow 1 runs again on its alive worker under the boot from before the restart. -/
theorem running_flow_stale_boot : ∃ es g f wr, Reaches es g ∧ g.flows.find? ⟨0, 1⟩ = some f ∧
    f.state = .named .running ∧ f.assignedWorker = some ⟨0, 1⟩ ∧
    g.workers.find? ⟨0, 1⟩ = some wr ∧ wr.alive = true ∧ f.assignedBoot ≠ wr.boot := by
  obtain ⟨f, wr, hf, hwr, ha, hs, hw, hb, hb'⟩ := Sample.binding_spec
    (by decide +kernel : Sample.binding (Sample.start.after Sample.restartWhileThrottled) =
      some (.named .running, some ⟨0, 1⟩, ⟨0, 1⟩, ⟨0, 2⟩))
  refine ⟨_, _, f, wr, Sample.reaches (by decide +kernel), hf, hs, hw, hwr, ha, ?_⟩
  rw [hb, hb']
  decide

theorem dispatched_boots_current_restart : ∃ f wr,
    (Sample.start.after Sample.restartWhileRunning).flows.find? ⟨0, 1⟩ = some f ∧
    f.state = .named .running ∧
    (Sample.start.after Sample.restartWhileRunning).workers.find? ⟨0, 1⟩ = some wr ∧
    f.assignedBoot = wr.boot := by
  obtain ⟨f, wr, hf, hwr, ha, hs, hw, -, -⟩ := Sample.binding_spec
    (by decide +kernel : Sample.binding (Sample.start.after Sample.restartWhileRunning) =
      some (.named .running, some ⟨0, 1⟩, ⟨0, 2⟩, ⟨0, 2⟩))
  have hchecks : Sample.start.checks (fun g e => e.live && g.keepsBoots e)
      Sample.restartWhileRunning = true := by decide +kernel
  exact ⟨f, wr, hf, hs, hwr,
    (dispatched_boots_current Sample.start_fresh (Governor.run_checked hchecks) hf hs hw hwr ha).1⟩

end BG
