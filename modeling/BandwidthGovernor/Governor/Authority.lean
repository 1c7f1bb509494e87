import Mathlib
import BandwidthGovernor.Governor.Generations
import BandwidthGovernor.Governor.Lifecycle

/-! The authority generations along runs.

    A restart rolls the generation of a flow to its successor, a capacity change that of the
    coordinator; once they are in force nothing else writes them. The successor is greater, except
    for the last value, which is followed by `⟨0, 1⟩`: from there the successors go through all the
    odd values back to the last one. -/

namespace BG

open Lib

/-! ### Successors -/

namespace Id128
variable {t : IdTag} {a b c : Id128 t}

/-- Both words all ones. -/
def last (t : IdTag) : Id128 t := ⟨0xFFFFFFFFFFFFFFFF, 0xFFFFFFFFFFFFFFFF⟩

theorem isLast_iff : a.isLast = true ↔ a = last t := by
  have hword : ∀ x : UInt64, x + 1 = 0 ↔ x = 0xFFFFFFFFFFFFFFFF := fun x => by
    have hx := x.toNat_lt
    have hnum : (0xFFFFFFFFFFFFFFFF : UInt64).toNat = 2 ^ 64 - 1 := by decide
    rw [← UInt64.toNat_inj, ← UInt64.toNat_inj, UInt64.toNat_add, hnum]
    simp only [UInt64.toNat_one, UInt64.toNat_zero]
    omega
  obtain ⟨hi, lo⟩ := a
  simp only [isLast, last, Bool.and_eq_true, beq_iff_eq, hword, Id128.mk.injEq]

theorem le_of_lt (h : a.lt b = true) : a.le b := le_iff.mpr (lt_iff.mp h).le

theorem lt_of_le_of_ne (h : a.le b) (hne : b ≠ a) : a.lt b = true :=
  lt_iff.mpr ((le_iff.mp h).lt_of_ne fun he => hne (value_injective he).symm)

theorem lt_of_lt_of_le (h : a.lt b = true) (h' : b.le c) : a.lt c = true :=
  lt_iff.mpr ((lt_iff.mp h).trans_le (le_iff.mp h'))

theorem lt_irrefl : a.lt a = false := le_refl a

end Id128

section Successors
variable {t : IdTag} {a : Id128 t}

/-- Forcing the low bit. -/
theorem toNat_or_one (x : UInt64) : (x ||| 1).toNat = 2 * (x.toNat / 2) + 1 := by
  have hmod : (x.toNat ||| 1) % 2 = 1 := by simp [Nat.or_mod_two_eq_one]
  have hdiv : (x.toNat ||| 1) / 2 = x.toNat / 2 := by simp [Nat.or_div_two]
  rw [UInt64.toNat_or, UInt64.toNat_one]
  omega

theorem nextGeneration_odd (a : Id128 t) : (nextGeneration a).lo.toNat % 2 = 1 := by
  rw [nextGeneration, toNat_or_one]
  omega

theorem nextGeneration_isNull (a : Id128 t) : (nextGeneration a).isNull = false := by
  have hodd := nextGeneration_odd a
  have hlo : (nextGeneration a).lo ≠ 0 := fun h => by
    rw [h] at hodd
    cases hodd
  simp [Id128.isNull, hlo]

theorem nextGeneration_last : nextGeneration (Id128.last t) = ⟨0, 1⟩ := by
  have hwrap : (0xFFFFFFFFFFFFFFFF : UInt64) + 1 = 0 := by decide
  have hbit : (0 : UInt64) ||| 1 = 1 := by decide
  simp only [nextGeneration, Id128.last, hwrap, hbit, if_true]

theorem value_last : (Id128.last t).value = 2 ^ 128 - 1 := by
  have hnum : (0xFFFFFFFFFFFFFFFF : UInt64).toNat = 2 ^ 64 - 1 := by decide
  simp only [Id128.value, Id128.last, hnum]
  norm_num

theorem value_one : (⟨0, 1⟩ : Id128 t).value = 1 := by
  simp [Id128.value]

theorem lt_nextGeneration_iff : a.lt (nextGeneration a) = true ↔ a.isLast = false := by
  refine ⟨fun h => ?_, lt_nextGeneration⟩
  cases hl : a.isLast with
  | false => rfl
  | true =>
    rw [Id128.isLast_iff.mp hl, nextGeneration_last, Id128.lt_iff, value_last, value_one] at h
    omega

/-- From an odd value, short of the last, the successor is the next odd value. -/
theorem value_nextGeneration (hodd : a.lo.toNat % 2 = 1) (h : a.isLast = false) :
    (nextGeneration a).value = a.value + 2 := by
  have hlo := a.lo.toNat_lt
  rw [Id128.value, Id128.value, nextGeneration]
  dsimp only
  rw [toNat_or_one]
  split
  · rename_i hz
    have hhi : a.hi + 1 ≠ 0 := fun he => by simp [Id128.isLast, he, hz] at h
    have hsucc := toNat_succ hhi
    have hcarry : (a.lo + 1).toNat = 0 := by rw [hz]; rfl
    rw [UInt64.toNat_add, UInt64.toNat_one] at hcarry
    rw [hz, UInt64.toNat_zero]
    omega
  · rename_i hz
    have hsucc := toNat_succ hz
    omega

/-- The successors of `⟨0, 1⟩` are the odd values in order. -/
theorem value_iterate (k : ℕ) (hk : k < 2 ^ 127) :
    (nextGeneration^[k] (⟨0, 1⟩ : Id128 t)).value = 2 * k + 1 ∧
      (nextGeneration^[k] (⟨0, 1⟩ : Id128 t)).lo.toNat % 2 = 1 := by
  induction k with
  | zero => exact ⟨value_one, by simp⟩
  | succ k ih =>
    obtain ⟨hval, hodd⟩ := ih (by omega)
    rw [Function.iterate_succ_apply']
    refine ⟨?_, nextGeneration_odd _⟩
    have hlast : (nextGeneration^[k] (⟨0, 1⟩ : Id128 t)).isLast = false := by
      rw [← Bool.not_eq_true, Id128.isLast_iff]
      intro he
      have hv := congrArg Id128.value he
      rw [hval, value_last] at hv
      omega
    rw [value_nextGeneration hodd hlast, hval]
    omega

/-- `2 ^ 127` successors of the last value lead back to it. -/
theorem iterate_last : nextGeneration^[2 ^ 127] (Id128.last t) = Id128.last t := by
  obtain ⟨n, hn⟩ : ∃ n, 2 ^ 127 = n + 1 := ⟨2 ^ 127 - 1, rfl⟩
  rw [hn, Function.iterate_succ_apply, nextGeneration_last]
  refine Id128.value_injective ?_
  rw [(value_iterate n (by omega)).1, value_last]
  omega

end Successors

/-! ### What a step writes -/

/-- The generation of a flow on file. -/
def View.flowGeneration (v : View) (fid : FlowId) : Option FlowGeneration :=
  (v.flows fid).map fun f => f.spec.generation

namespace Governor

def flowGeneration (g : Governor) (fid : FlowId) : Option FlowGeneration :=
  (g.flows.find? fid).map fun f => f.spec.generation

/-- Whether an event bumps the capacity generation of the coordinator. -/
def bumpsCapacity (g : Governor) : Event → Bool
  | .call (.updateCapacity res measured confidence _ _ _ bump) =>
    bump && decide (acceptable measured confidence) && (g.resources.find? res).isSome
  | .call (.invalidateResourceCapacity res) => (g.resources.find? res).isSome
  | _ => false

/-- Whether an event rolls a flow. -/
def rollsFlow (g : Governor) (fid : FlowId) : Event → Bool
  | .call (.registerWorker reg) => g.isRestart reg && (g.flows.find? fid).any (rolls reg.worker)
  | _ => false

end Governor

/-- Only a bump writes the capacity generation. -/
theorem Txn.capacityGeneration {v w : View} {k : Kind} (ht : Txn v k w) (hk : k ≠ .bump) :
    w.capacityGeneration = v.capacityGeneration := by
  cases ht with
  | bump => exact absurd rfl hk
  | cancel fid f => exact View.releaseOf_capacityGeneration _ f
  | complete fid f => exact View.releaseOf_capacityGeneration _ f
  | release rid => exact (View.release_rest v rid).2.2.2.2.2
  | roll fid f => exact View.releaseOf_capacityGeneration v f
  | rollStray fid f => exact View.releaseOf_capacityGeneration v f
  | _ => rfl

namespace View
variable {v : View} {x : FlowId} {c : FlowGeneration}

/-- A write to a flow that is new or keeps its generation. -/
theorem flowGeneration_setFlow {u : View} (hu : u.flows = v.flows) (h : v.flowGeneration x = some c)
    {fid : FlowId} {f₀ : FlowRT} (hfid : v.flows fid = none ∨
      ∃ f, v.flows fid = some f ∧ f₀.spec.generation = f.spec.generation) :
    (u.setFlow fid f₀).flowGeneration x = some c := by
  by_cases hx : x = fid
  · subst hx
    rcases hfid with hn | ⟨f, hf, he⟩
    · rw [flowGeneration, hn] at h
      cases h
    · rw [flowGeneration, hf, Option.map_some] at h
      rw [flowGeneration, setFlow_self, Option.map_some, he, h]
  · rw [flowGeneration, setFlow_of_ne _ _ hx, hu]
    exact h

theorem flowGeneration_mapFlows {F : FlowId → FlowRT → FlowRT} (h : v.flowGeneration x = some c)
    (hF : ∀ fid f, v.flows fid = some f → (F fid f).spec.generation = f.spec.generation) :
    flowGeneration { v with flows := fun fid => (v.flows fid).map (F fid) } x = some c := by
  obtain ⟨f, hf, rfl⟩ := Option.map_eq_some_iff.mp h
  simp [flowGeneration, hf, hF x f hf]

end View

/-- Transactions other than rolls keep the generation of every flow on file. -/
theorem Txn.flowGeneration {v w : View} {k : Kind} (ht : Txn v k w)
    (hk : ∀ fid worker boot, k ≠ .roll fid worker boot) {x : FlowId} {c : FlowGeneration}
    (h : v.flowGeneration x = some c) : w.flowGeneration x = some c := by
  cases ht with
  | lose worker =>
    exact View.flowGeneration_mapFlows (F := fun _ f => if Governor.rolls worker f then
        { f with assignedWorker := none, lastError := ascii "worker lost" } else f) h
      fun fid f _ => by split <;> rfl
  | moves k F hF =>
    refine View.flowGeneration_mapFlows h fun fid f hf => ?_
    rcases hF fid f hf with he | hm
    · rw [he]
    · rw [hm.keeps.1]
  | park spec t hnew => exact View.flowGeneration_setFlow rfl h (Or.inl hnew)
  | reserve spec p c t hnew => exact View.flowGeneration_setFlow rfl h (Or.inl hnew)
  | dequeue fid f p c t hf => exact View.flowGeneration_setFlow rfl h (Or.inr ⟨f, hf, rfl⟩)
  | cancel fid f reason hf =>
    rw [View.setFlow_releaseOf]
    exact View.flowGeneration_setFlow (v.releaseOf_flows f) h (Or.inr ⟨f, hf, rfl⟩)
  | complete fid f b t hf =>
    rw [View.setFlow_releaseOf]
    exact View.flowGeneration_setFlow (v.releaseOf_flows f) h (Or.inr ⟨f, hf, rfl⟩)
  | release rid =>
    rw [View.flowGeneration, (View.release_rest v rid).1]
    exact h
  | remint fid f p c hf => exact View.flowGeneration_setFlow rfl h (Or.inr ⟨f, hf, rfl⟩)
  | roll fid f p c worker boot => exact absurd rfl (hk fid worker boot)
  | rollStray fid f worker boot => exact absurd rfl (hk fid worker boot)
  | _ => exact h

namespace Governor

/-- The roll loop rolls every flow it is to roll once. -/
theorem foldlM_rollFlow_generation (worker : WorkerId) (boot : WorkerBootId) :
    ∀ (l : List (FlowId × FlowRT)) (g : Governor), (l.map Prod.fst).Nodup →
      (∀ e ∈ l, g.flows.find? e.1 = some e.2 ∧ e.2.Rated) →
      ∃ g', l.foldlM (fun g e => if rolls worker e.2 then g.rollFlow worker boot e.1 e.2 else .ok g)
        g = .ok g' ∧
        (∀ e ∈ l, g'.flowGeneration e.1 = some (if rolls worker e.2 then
          nextGeneration e.2.spec.generation else e.2.spec.generation)) ∧
        ∀ x, x ∉ l.map Prod.fst → g'.flows.find? x = g.flows.find? x
  | [], g, _, _ => ⟨g, rfl, fun _ he => (nomatch he), fun _ _ => rfl⟩
  | e :: l, g, hnd, hl => by
    rw [List.map_cons, List.nodup_cons] at hnd
    rw [List.forall_mem_cons] at hl
    obtain ⟨⟨hf, hr⟩, hl⟩ := hl
    rw [List.foldlM_cons]
    -- The first turn writes no other flow, so the rest of the list is still on file.
    obtain ⟨g₁, h₁, hgen₁, hrest₁⟩ : ∃ g₁,
        (if rolls worker e.2 then g.rollFlow worker boot e.1 e.2 else .ok g) = .ok g₁ ∧
        g₁.flowGeneration e.1 = some (if rolls worker e.2 then
          nextGeneration e.2.spec.generation else e.2.spec.generation) ∧
        ∀ x, x ≠ e.1 → g₁.flows.find? x = g.flows.find? x := by
      by_cases hroll : rolls worker e.2 = true
      · obtain ⟨g₁, f₁, h₁, -, hf₁, -, hgen⟩ := rollFlow_rated (g := g) boot e.1 hroll hr
        refine ⟨g₁, by rw [if_pos hroll, h₁], ?_, fun x hx => ?_⟩
        · rw [if_pos hroll, flowGeneration, hf₁, Table.find?_insert_self, Option.map_some, hgen]
        · rw [hf₁]
          exact Table.find?_insert_ne hx
      · refine ⟨g, by rw [if_neg hroll], ?_, fun x _ => rfl⟩
        rw [if_neg hroll, flowGeneration, hf, Option.map_some]
    have hkeep : ∀ e' ∈ l, g₁.flows.find? e'.1 = some e'.2 ∧ e'.2.Rated := fun e' he' => by
      have hne : e'.1 ≠ e.1 := fun h => hnd.1 (h ▸ List.mem_map_of_mem he')
      exact ⟨(hrest₁ _ hne).trans (hl e' he').1, (hl e' he').2⟩
    obtain ⟨g₂, h₂, hgen₂, hrest₂⟩ := foldlM_rollFlow_generation worker boot l g₁ hnd.2 hkeep
    refine ⟨g₂, by rw [h₁]; exact h₂, fun e' he' => ?_, fun x hx => ?_⟩
    · rcases List.mem_cons.mp he' with rfl | he'
      · rw [flowGeneration, hrest₂ _ hnd.1]
        exact hgen₁
      · exact hgen₂ e' he'
    · rw [List.map_cons, List.mem_cons, not_or] at hx
      exact (hrest₂ x hx.2).trans (hrest₁ x hx.1)

theorem registerWorker_generation {g : Governor} (hwf : g.view.WF) (reg : WorkerRegistration)
    {fid : FlowId} {c : FlowGeneration} (h : g.flowGeneration fid = some c) :
    (g.apply (.registerWorker reg)).flowGeneration fid =
      some (if g.rollsFlow fid (.call (.registerWorker reg)) then nextGeneration c else c) := by
  obtain ⟨f, hf, rfl⟩ := Option.map_eq_some_iff.mp h
  have hfl := g.enrol_flows reg
  rw [apply, registerWorker, rollsFlow, hf, Option.any_some]
  dsimp only
  by_cases hre : g.isRestart reg = true
  · have hrated : ∀ e ∈ (g.enrol reg).flows.entries, e.2.Rated := fun e he => by
      have he' : g.view.flows e.1 = some e.2 := Table.find?_of_mem (hfl ▸ he)
      exact (hwf.flowOk he').rated
    obtain ⟨g₁, h₁, hgen, -⟩ := foldlM_rollFlow_generation reg.worker reg.boot
      (g.enrol reg).flows.entries (g.enrol reg) (g.enrol reg).flows.nodup fun e he =>
        ⟨Table.find?_of_mem he, hrated e he⟩
    rw [if_pos hre, h₁, hre, Bool.true_and]
    exact hgen (fid, f) (Table.mem_of_find? (hfl ▸ hf))
  · rw [if_neg hre, Bool.eq_false_iff.mpr hre, Bool.false_and]
    rw [if_neg Bool.false_ne_true]
    change ((g.enrol reg).flows.find? fid).map _ = _
    rw [hfl, hf]
    rfl

/-- The kinds of an operation other than the two capacity changes. -/
theorem capacityGeneration_of_ran {P : Kind → Prop} {g g' : Governor} (h : Ran P g g')
    (hP : ∀ k, P k → k ≠ .bump) : g'.capacityGeneration = g.capacityGeneration :=
  h.inv (I := fun v => v.capacityGeneration = g.capacityGeneration)
    (fun _ k _ hk hv ht => (ht.capacityGeneration (hP k hk)).trans hv) rfl

theorem flowGeneration_of_ran {P : Kind → Prop} {g g' : Governor} (h : Ran P g g')
    (hP : ∀ k, P k → ∀ fid worker boot, k ≠ .roll fid worker boot) {fid : FlowId}
    {c : FlowGeneration} (hc : g.flowGeneration fid = some c) : g'.flowGeneration fid = some c :=
  h.inv (I := fun v => v.flowGeneration fid = some c)
    (fun _ k _ hk hv ht => ht.flowGeneration (hP k hk) hv) hc

theorem step_capacityGeneration {g g' : Governor} {e : Event} (hwf : g.view.WF) (hs : g.Step e g')
    (hlive : e.live = true) : g'.capacityGeneration =
      if g.bumpsCapacity e then nextGeneration g.capacityGeneration else g.capacityGeneration := by
  cases hs with
  | clock t => rfl
  | rehash hr => exact congrArg View.capacityGeneration hr.view
  | call op =>
    cases op with
    | updateCapacity res measured confidence provenance latency depth bump =>
      rw [apply, updateCapacity, bumpsCapacity]
      cases g.resources.find? res with
      | none => simp [stateAfter]
      | some r =>
        dsimp only
        by_cases h : acceptable measured confidence
        · rw [if_neg fun hbad => not_acceptable.mp hbad h]
          cases bump <;> simp [h] <;> rfl
        · rw [if_pos (not_acceptable.mpr h)]
          simp [h, stateAfter]
    | invalidateResourceCapacity res =>
      rw [apply, invalidateResourceCapacity, bumpsCapacity]
      cases g.resources.find? res with
      | none => rfl
      | some r => rfl
    | restore snap => cases hlive
    | _ =>
      refine capacityGeneration_of_ran (apply_ran hwf hlive) ?_
      rintro k hk rfl
      simp [Op.kinds] at hk

theorem step_flowGeneration {g g' : Governor} {e : Event} (hwf : g.view.WF) (hs : g.Step e g')
    (hlive : e.live = true) {fid : FlowId} {c : FlowGeneration}
    (hc : g.flowGeneration fid = some c) :
    g'.flowGeneration fid = some (if g.rollsFlow fid e then nextGeneration c else c) := by
  cases hs with
  | clock t => exact hc
  | rehash hr => exact (congrArg (fun v => View.flowGeneration v fid) hr.view).trans hc
  | call op =>
    cases op with
    | registerWorker reg => exact registerWorker_generation hwf reg hc
    | restore snap => cases hlive
    | _ =>
      refine flowGeneration_of_ran (apply_ran hwf hlive) ?_ hc
      rintro k hk x worker boot rfl
      simp [Op.kinds] at hk

/-- Capacity generation and flow generations move ahead when they are to move, and stay
    otherwise. -/
structure MovesAhead (g : Governor) (e : Event) (g' : Governor) : Prop where
  capacity : if g.bumpsCapacity e then g.capacityGeneration.lt g'.capacityGeneration = true
    else g'.capacityGeneration = g.capacityGeneration
  flow : ∀ fid c, g.flowGeneration fid = some c → ∃ c', g'.flowGeneration fid = some c' ∧
    if g.rollsFlow fid e then c.lt c' = true else c' = c

/-- The event moves no generation that is the last. -/
structure HasNext (g : Governor) (e : Event) : Prop where
  capacity : g.bumpsCapacity e = true → g.capacityGeneration.isLast = false
  flow : ∀ fid c, g.flowGeneration fid = some c → g.rollsFlow fid e = true → c.isLast = false

theorem movesAhead_iff {g g' : Governor} {e : Event} (hwf : g.view.WF) (hs : g.Step e g')
    (hlive : e.live = true) : g.MovesAhead e g' ↔ g.HasNext e := by
  have hcap := step_capacityGeneration hwf hs hlive
  have hflow : ∀ fid c, g.flowGeneration fid = some c → g'.flowGeneration fid =
      some (if g.rollsFlow fid e then nextGeneration c else c) :=
    fun _ _ => step_flowGeneration hwf hs hlive
  constructor
  · intro h
    refine ⟨fun hb => ?_, fun fid c hc hr => ?_⟩
    · have hlt := h.capacity
      rw [if_pos hb] at hlt hcap
      rw [hcap] at hlt
      exact lt_nextGeneration_iff.mp hlt
    · obtain ⟨c', hc', hlt⟩ := h.flow fid c hc
      have he := hflow fid c hc
      rw [hc', Option.some.injEq] at he
      rw [if_pos hr] at hlt he
      rw [he] at hlt
      exact lt_nextGeneration_iff.mp hlt
  · intro h
    refine ⟨?_, fun fid c hc => ⟨_, hflow fid c hc, ?_⟩⟩
    · rw [hcap]
      split
      · rename_i hb
        exact lt_nextGeneration_iff.mpr (h.capacity hb)
      · rfl
    · split
      · rename_i hr
        exact lt_nextGeneration_iff.mpr (h.flow fid c hc hr)
      · rfl

/-- No generation of `g` is past its value in `g'`. -/
structure NotPast (g g' : Governor) : Prop where
  capacity : g.capacityGeneration.le g'.capacityGeneration
  flow : ∀ fid c, g.flowGeneration fid = some c → ∃ c', g'.flowGeneration fid = some c' ∧ c.le c'

theorem MovesAhead.notPast {g g' : Governor} {e : Event} (h : g.MovesAhead e g') :
    g.NotPast g' := by
  refine ⟨?_, fun fid c hc => ?_⟩
  · have hcap := h.capacity
    split at hcap
    · exact Id128.le_of_lt hcap
    · rw [hcap]
      exact Id128.le_refl _
  · obtain ⟨c', hc', hmove⟩ := h.flow fid c hc
    refine ⟨c', hc', ?_⟩
    split at hmove
    · exact Id128.le_of_lt hmove
    · rw [hmove]
      exact Id128.le_refl _

theorem NotPast.trans {g g' g'' : Governor} (h : g.NotPast g') (h' : g'.NotPast g'') :
    g.NotPast g'' := by
  refine ⟨h.capacity.trans h'.capacity, fun fid c hc => ?_⟩
  obtain ⟨c₁, hc₁, hle₁⟩ := h.flow fid c hc
  obtain ⟨c₂, hc₂, hle₂⟩ := h'.flow fid c₁ hc₁
  exact ⟨c₂, hc₂, hle₁.trans hle₂⟩

/-- Runs without restoration in which every generation that moves has a next one. -/
def Forward (g : Governor) (es : List Event) (g' : Governor) : Prop :=
  Lib.Run (fun g e g' => g.Step e g' ∧ e.live = true ∧ g.HasNext e) g es g'

theorem Forward.notPast {g g' : Governor} {es : List Event} (h : g.Forward es g')
    (hwf : g.view.WF) : g'.view.WF ∧ g.NotPast g' := by
  unfold Forward at h
  induction h with
  | nil g => exact ⟨hwf, Id128.le_refl _, fun fid c hc => ⟨c, hc, Id128.le_refl _⟩⟩
  | cons hstep _ ih =>
    obtain ⟨hs, hlive, hnext⟩ := hstep
    obtain ⟨hwf', hrest⟩ := ih ((step_ran hwf hlive hs).wf hwf)
    exact ⟨hwf', ((movesAhead_iff hwf hs hlive).mpr hnext).notPast.trans hrest⟩

theorem hasNext_of_flows {g : Governor} (hcap : g.capacityGeneration.isLast = false)
    (hflows : (g.flows.vals.all fun f => !f.spec.generation.isLast) = true) (e : Event) :
    g.HasNext e := by
  refine ⟨fun _ => hcap, fun fid c hc _ => ?_⟩
  obtain ⟨f, hf, rfl⟩ := Option.map_eq_some_iff.mp hc
  have hmem : f ∈ g.flows.vals := List.mem_map.mpr ⟨(fid, f), Table.mem_of_find? hf, rfl⟩
  simpa using List.all_eq_true.mp hflows f hmem

end Governor

/-- The successor of a generation is not null and is greater exactly when there is a greater one. So
    a step of the coordinator moves the generations it is to move ahead, and no other, exactly when
    none of them is the last value. In a run of such steps a generation never goes back, and one
    that has moved has left its earlier values behind for good. -/
theorem generations_move_forward {es : List Event} {g : Governor} (h : Reaches es g) :
    (∀ {t : IdTag} (a : Id128 t), (nextGeneration a).isNull = false ∧
      a.lt (nextGeneration a) = true ↔ a.isLast = false) ∧
    (∀ e g', g.Step e g' → e.live = true → (g.MovesAhead e g' ↔ g.HasNext e)) ∧
    ∀ {es₁ es₂ : List Event} {g₁ g₂ : Governor}, g.Forward es₁ g₁ → g₁.Forward es₂ g₂ →
      g.NotPast g₁ ∧
      (g₁.capacityGeneration ≠ g.capacityGeneration →
        g.capacityGeneration.lt g₂.capacityGeneration = true) ∧
      ∀ fid c c₁, g.flowGeneration fid = some c → g₁.flowGeneration fid = some c₁ → c₁ ≠ c →
        ∃ c₂, g₂.flowGeneration fid = some c₂ ∧ c.lt c₂ = true := by
  refine ⟨fun a => ?_, fun e g' hs hlive => Governor.movesAhead_iff h.wf hs hlive,
    fun hrun₁ hrun₂ => ?_⟩
  · rw [lt_nextGeneration_iff]
    exact and_iff_right (nextGeneration_isNull a)
  · obtain ⟨hwf₁, hfirst⟩ := hrun₁.notPast h.wf
    obtain ⟨-, hsecond⟩ := hrun₂.notPast hwf₁
    refine ⟨hfirst, fun hne => ?_, fun fid c c₁ hc hc₁ hne => ?_⟩
    · exact Id128.lt_of_lt_of_le (Id128.lt_of_le_of_ne hfirst.capacity hne) hsecond.capacity
    · obtain ⟨d, hd, hle⟩ := hfirst.flow fid c hc
      obtain rfl : d = c₁ := Option.some.inj (hd.symm.trans hc₁)
      obtain ⟨c₂, hc₂, hle₂⟩ := hsecond.flow fid d hc₁
      exact ⟨c₂, hc₂, Id128.lt_of_lt_of_le (Id128.lt_of_le_of_ne hle hne) hle₂⟩

/-- The theorem for flow 1: its worker restarts, then the scheduler ticks. -/
theorem generations_move_forward_restarted : ∃ c,
    (((Sample.start.after Sample.driven).apply (.registerWorker (Sample.worker 2))).apply
      .tick).flowGeneration ⟨0, 1⟩ = some c ∧ (⟨0, 1⟩ : FlowGeneration).lt c = true := by
  have hreach : Reaches (Sample.driven.map Event.call) (Sample.start.after Sample.driven) :=
    Sample.reaches rfl
  refine ((generations_move_forward hreach).2.2
    (.single ⟨.call _ (.registerWorker (Sample.worker 2)), rfl, ?_⟩)
    (.single ⟨.call _ .tick, rfl, ?_⟩)).2.2 ⟨0, 1⟩ ⟨0, 1⟩ ⟨0, 3⟩ ?_ ?_ (by decide)
  · exact Governor.hasNext_of_flows (by decide +kernel) (by decide +kernel) _
  · exact Governor.hasNext_of_flows (by decide +kernel) (by decide +kernel) _
  · decide +kernel
  · decide +kernel

namespace Sample

/-- Flow 1 is submitted under the last generation and dispatched to worker 1. -/
def drivenLast : List Op :=
  [.registerWorker (worker 1), .addPath (path 1 [1]),
    .submitFlow { flow 1 1 40 80 100 with generation := .last _ }, .tick]

end Sample

/-- The last generation is followed by `⟨0, 1⟩`, and comes again after `2 ^ 127` successors. A flow
    may be submitted under it: when worker 1 restarts, the generation of flow 1 goes back. -/
theorem last_generation_wraps :
    (Id128.last .flowGeneration).isNull = false ∧
    (Id128.last .flowGeneration).lt (nextGeneration (Id128.last .flowGeneration)) = false ∧
    nextGeneration^[2 ^ 127] (Id128.last .flowGeneration) = Id128.last .flowGeneration ∧
    Reaches (Sample.drivenLast.map Event.call) (Sample.start.after Sample.drivenLast) ∧
    (Sample.start.after Sample.drivenLast).flowGeneration ⟨0, 1⟩ = some (.last _) ∧
    ((Sample.start.after Sample.drivenLast).apply
      (.registerWorker (Sample.worker 2))).flowGeneration ⟨0, 1⟩ = some ⟨0, 1⟩ := by
  refine ⟨by decide, by decide, iterate_last, Sample.reaches rfl, ?_, ?_⟩
  · decide +kernel
  · decide +kernel

end BG
