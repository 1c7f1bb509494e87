import Mathlib
import BandwidthGovernor.FillLevel
import BandwidthGovernor.Governor.Figures
import BandwidthGovernor.Governor.Priority

/-! What the states of flows say about their grants after a tick.

    A tick grades the flows that were Running or Throttled by their grants, and makes every Reserved
    flow Running, whatever its grant is: those it found Reserved and those it admits from the queue.
    Such a flow gets its minimum up to the tolerance exactly when every registered resource on its
    path has a large enough share of it to give, which can be told before the tick. -/

namespace BG

open Lib

/-! ### What an entry is sure of -/

/-- The minimum as the allocator reads it. -/
def AllocEntry.floor (e : AllocEntry) : ℚ := Min.min e.min e.max

/-- The entry as the allocator reads it, the minimum and the target clamped into the caps. -/
def AllocEntry.tidy (e : AllocEntry) : AllocEntry :=
  { e with min := e.floor, want := clamp e.want e.floor e.max }

/-- The share of a floor a capacity is sure to give: all of it while the floors fit, and otherwise
    in proportion. -/
def sureShare (capacity floors floor : ℚ) : ℚ :=
  if 0 < capacity ∧ floors ≤ capacity + kEps then floor else floor * capacity / floors

section
variable {entries : List AllocEntry} {capacity : ℚ}

theorem clamp_floor {e : AllocEntry} (hmin : 0 ≤ e.min) :
    clamp e.min 0 e.max = e.floor := by
  rw [clamp, if_neg (not_lt.mpr hmin), AllocEntry.floor]
  split
  · rename_i h
    exact (min_eq_right h.le).symm
  · rename_i h
    exact (min_eq_left (not_lt.mp h)).symm

theorem AllocEntry.tidy_valid {e : AllocEntry} (hmin : 0 ≤ e.min) (hmax : 0 ≤ e.max) :
    e.tidy.Valid where
  min_nonneg := le_min hmin hmax
  min_le := (clamp_mem (min_le_right _ _)).1
  want_le := (clamp_mem (min_le_right _ _)).2

/-- Tidying does not change the slot. -/
theorem toSlot_tidy {e : AllocEntry} (hmin : 0 ≤ e.min) (hmax : 0 ≤ e.max) (i : ℕ) :
    toSlot i e.tidy = toSlot i e := by
  have hfloor :
    clamp e.floor 0 e.max = e.floor := clamp_of_mem (le_min hmin hmax) (min_le_right _ _)
  have hwant := clamp_mem (v := e.want) (min_le_right e.min e.max : e.floor ≤ e.max)
  have hsame : clamp (clamp e.want e.floor e.max) e.floor e.max = clamp e.want e.floor e.max :=
    clamp_of_mem hwant.1 hwant.2
  rw [toSlot, toSlot, clamp_floor hmin]
  simp only [AllocEntry.tidy, hfloor, hsame]

theorem toSlots_tidy (h : ∀ e ∈ entries, 0 ≤ e.min ∧ 0 ≤ e.max) :
    toSlots (entries.map AllocEntry.tidy) = toSlots entries := by
  refine List.ext_getElem (by simp [toSlots]) fun i hi hi' => ?_
  have hi : i < entries.length := by simpa [toSlots] using hi'
  have he := h _ (List.getElem_mem hi)
  simp [toSlots, toSlot_tidy he.1 he.2]

theorem slotLess_tidy : slotLess (entries.map AllocEntry.tidy) = slotLess entries := by
  funext a b
  unfold slotLess
  rw [List.getElem?_map, List.getElem?_map]
  cases entries[a]? <;> cases entries[b]? <;> rfl

/-- Tidying does not change what is granted. -/
theorem allocateWeighted_tidy (h : ∀ e ∈ entries, 0 ≤ e.min ∧ 0 ≤ e.max) (capacity : ℚ) :
    (allocateWeighted (entries.map AllocEntry.tidy) capacity).granted =
      (allocateWeighted entries capacity).granted := by
  have hslots := toSlots_tidy h
  have hrun : Fill.run (entries.map AllocEntry.tidy) capacity = Fill.run entries capacity := by
    simp only [Fill.run, Fill.start, hslots, slotLess_tidy]
  unfold allocateWeighted
  rw [hrun, hslots, List.isEmpty_map, List.map_map]
  split
  · rfl
  · dsimp only
    split
    · dsimp only
      rw [List.zipWith_map_right]
      rfl
    · rfl

/-- A grant covers the minimum up to the tolerance exactly when the sure share does. -/
theorem allocateWeighted_covers (h : ∀ e ∈ entries, 0 ≤ e.min ∧ 0 ≤ e.max) (hcap : 0 ≤ capacity) :
    List.Forall₂ (fun v e => e.min ≤ v + kEps ↔
        e.min ≤ sureShare capacity (entries.map AllocEntry.floor).sum e.floor + kEps)
      (allocateWeighted entries capacity).granted entries := by
  have hk := kEps_pos
  have hv : ∀ e ∈ entries.map AllocEntry.tidy, e.Valid := by
    intro e he
    obtain ⟨e, hmem, rfl⟩ := List.mem_map.mp he
    exact AllocEntry.tidy_valid (h e hmem).1 (h e hmem).2
  have hmin : (entries.map AllocEntry.tidy).map AllocEntry.min = entries.map AllocEntry.floor := by
    rw [List.map_map]
    rfl
  rcases eq_or_lt_of_le hcap with rfl | hpos
  · have hzero : (allocateWeighted entries 0).granted = entries.map fun _ => 0 := by
      rw [allocateWeighted, if_pos (Or.inr (le_refl _))]
    rw [hzero]
    refine List.forall₂_map_left_iff.mpr (List.forall₂_same.mpr fun e _ => ?_)
    rw [sureShare, if_neg fun hc => lt_irrefl _ hc.1, mul_zero, zero_div]
  · rw [← allocateWeighted_tidy h]
    rcases le_or_gt (entries.map AllocEntry.floor).sum (capacity + kEps) with hfits | hover
    · simp only [sureShare, if_pos (And.intro hpos hfits)]
      rcases eq_or_ne entries [] with rfl | hne
      · exact .nil
      have hfits' : ((entries.map AllocEntry.tidy).map AllocEntry.min).sum ≤ capacity + kEps := by
        rwa [hmin]
      rw [(allocateWeighted_filled hv (by simpa using hne) hpos hfits').1]
      obtain ⟨hof, hin, -⟩ := run_spec hv hfits'
      have hall := List.forall₂_map_right_iff.mp ((List.forall₂_and_left _ _).mpr ⟨hin, hof⟩)
      refine List.forall₂_map_left_iff.mpr (hall.imp fun s e hse => ?_)
      obtain ⟨⟨hge, hle⟩, hs⟩ := hse
      have hfloor : e.floor ≤ s.granted := hs.min.ge.trans hge
      have hmax : s.granted ≤ e.max := (hle.trans hs.want.le).trans (clamp_mem (min_le_right _ _)).2
      constructor
      · intro hm
        rw [← sub_le_iff_le_add] at hm ⊢
        exact le_min (by linarith) (hm.trans hmax)
      · intro hm
        linarith
    · have hnot : ¬ (0 < capacity ∧ (entries.map AllocEntry.floor).sum ≤ capacity + kEps) :=
        fun hc => absurd hc.2 (not_le.mpr hover)
      simp only [sureShare, if_neg hnot]
      rw [allocateWeighted_cut hv hpos (by rwa [hmin]), hmin, List.map_map]
      exact List.forall₂_map_left_iff.mpr (List.forall₂_same.mpr fun e _ => Iff.rfl)

end

/-! ### What a contender is sure of -/

/-- The minimum as the allocator reads it. -/
def FlowSpec.floor (s : FlowSpec) : ℚ := Min.min s.requestedMin.value s.requestedMax.value

namespace Governor

/-- What a flow is sure of on a resource, among contenders with these floors. -/
def sureOf (room floors : ℚ) (f : FlowRT) : ℚ := sureShare room floors f.spec.floor

theorem offer_covers {g : Governor} (hk : g.FlowsKeyed) {t : ℚ} {rid : ResourceId} (r : ResRT)
    {fid : FlowId} {f : FlowRT} (hf : g.flows.find? fid = some f) {e : AllocEntry} {v : ℚ}
    (hid : e.flow = fid)
    (hx : (e, v) ∈ ((g.contenders rid).map (g.allocEntry t)).zip (g.ratesOn t rid r)) :
    f.spec.requestedMin.value ≤ v + kEps ↔ f.spec.requestedMin.value ≤
      sureOf (max 0 (r.governed - r.reserved))
        (g.flows.sum fun _ f =>
          if isScheduled f.state && g.crosses rid f then f.spec.floor else 0) f +
        kEps := by
  obtain ⟨f', hf', rfl⟩ := List.mem_map.mp (List.of_mem_zip hx).1
  obtain rfl : f' = f := hk.contender_eq hf' hid hf
  have hbounds : ∀ e ∈ (g.contenders rid).map (g.allocEntry t), 0 ≤ e.min ∧ 0 ≤ e.max := by
    intro e he
    obtain ⟨f, -, rfl⟩ := List.mem_map.mp he
    exact ⟨f.spec.requestedMin.nonneg, f.spec.requestedMax.nonneg⟩
  have hfloors : (((g.contenders rid).map (g.allocEntry t)).map AllocEntry.floor).sum =
      g.flows.sum fun _ f =>
        if isScheduled f.state && g.crosses rid f then f.spec.floor else 0 := by
    rw [List.map_map]
    exact g.sum_contenders rid fun f => f.spec.floor
  have hall := allocateWeighted_covers hbounds (le_max_left 0 (r.governed - r.reserved))
  rw [hfloors] at hall
  exact forall₂_offer hall hx

/-- An offer comes from a resource the flow crosses. -/
theorem offer_crosses {g : Governor} (hk : g.FlowsKeyed) {t : ℚ} {rid : ResourceId} {r : ResRT}
    {fid : FlowId} {f : FlowRT} (hf : g.flows.find? fid = some f) {e : AllocEntry} {v : ℚ}
    (hid : e.flow = fid)
    (hx : (e, v) ∈ ((g.contenders rid).map (g.allocEntry t)).zip (g.ratesOn t rid r)) :
    g.crosses rid f = true := by
  obtain ⟨f', hf', rfl⟩ := List.mem_map.mp (List.of_mem_zip hx).1
  obtain rfl : f' = f := hk.contender_eq hf' hid hf
  have hmem := (List.mem_filter.mp hf').2
  rw [Bool.and_eq_true] at hmem
  exact hmem.2

/-- A contender is granted its minimum up to the tolerance exactly when it is within the tolerance,
    or the flow has a registered hop and every registered hop has a large enough share for it. -/
theorem grantOf_covers_iff {g : Governor} (hk : g.FlowsKeyed) (t : ℚ) {fid : FlowId} {f : FlowRT}
    (hf : g.flows.find? fid = some f) (hs : isScheduled f.state = true) :
    f.spec.requestedMin.value ≤ g.grantOf t fid + kEps ↔ f.spec.requestedMin.value ≤ kEps ∨
      (∃ rid r, g.resources.find? rid = some r ∧ g.crosses rid f = true) ∧
      ∀ rid r, g.resources.find? rid = some r → g.crosses rid f = true →
        f.spec.requestedMin.value ≤ sureOf (max 0 (r.governed - r.reserved))
          (g.flows.sum fun _ f =>
            if isScheduled f.state && g.crosses rid f then f.spec.floor else 0)
          f + kEps := by
  constructor
  · intro hcov
    rcases grantOf_cases hk t fid with ⟨-, hzero⟩ | ⟨rid, r, ⟨e, v⟩, hr, hx, hid, -⟩
    · left
      linarith
    · refine Or.inr ⟨⟨rid, r, hr, offer_crosses hk hf hid hx⟩, fun rid' r' hr' hc => ?_⟩
      obtain ⟨v', hv'⟩ := exists_offer t hf hs r' hc
      have hentry : (g.allocEntry t f).flow = fid := hk fid f hf
      have hle : g.grantOf t fid ≤ v' := hentry ▸ grantOf_le_offer hk hr' hv'
      exact (offer_covers hk r' hf hentry hv').mp (by linarith)
  · rintro (hsmall | ⟨⟨rid, r, hr, hc⟩, hall⟩)
    · have hnn : 0 ≤ g.grantOf t fid := by
        rw [grantOf]
        cases hm : (g.grantMin t).find? fid with
        | none => exact le_refl _
        | some m => exact (grantMin_bounds g t hm).1
      linarith
    · rcases grantOf_cases hk t fid with ⟨hnone, -⟩ | ⟨rid', r', ⟨e, v⟩, hr', hx, hid, hv⟩
      · exact absurd hnone (grantMin_ne_none hk t hf hs hr hc)
      · rw [← hv]
        exact (offer_covers hk r' hf hid hx).mpr (hall rid' r' hr' (offer_crosses hk hf hid hx))

/-! ### What can be told before the tick -/

/-- Whether a flow takes part in the arbitration of the next tick: it is scheduled, or it waits in
    the queue and passes the hop scan. -/
def takesPart (g : Governor) (f : FlowRT) : Bool := isScheduled f.state || g.isCandidate f

/-- The floors of the flows that take part and cross a resource. -/
def floorsOn (g : Governor) (rid : ResourceId) : ℚ :=
  g.flows.sum fun _ f => if g.takesPart f && g.crosses rid f then f.spec.floor else 0

/-- Whether the next tick files a reservation under this id. -/
def mints (g : Governor) (x : ReservationId) : Bool :=
  (List.range g.candidates).any fun i => decide (x = g.gen.mintedAt (g.gen.calls + i))

/-- Whether a reservation is still held aside when the tick arbitrates: it is not replaced under its
    id, and its flow does not take part. -/
def staysAside (g : Governor) (x : ReservationId) (rsv : Reservation) : Bool :=
  !g.mints x && (isLive rsv.state && match g.flows.find? rsv.flow with
    | none => false
    | some f => !g.takesPart f)

def asideOn (g : Governor) (rid : ResourceId) : ℚ :=
  g.reservations.sum fun x rsv => if g.staysAside x rsv then allocationOn rid rsv.allocations else 0

/-- Whether the next tick can grant a flow its minimum up to the tolerance: the minimum is within
    the tolerance, or the flow has a registered hop and on every registered hop the share it is sure
    of covers the minimum. -/
def Coverable (g : Governor) (f : FlowRT) : Prop :=
  f.spec.requestedMin.value ≤ kEps ∨
    (∃ rid r, g.resources.find? rid = some r ∧ g.crosses rid f = true) ∧
    ∀ rid r, g.resources.find? rid = some r → g.crosses rid f = true →
      f.spec.requestedMin.value ≤
        sureOf (max 0 (g.governedNow r - g.asideOn rid)) (g.floorsOn rid) f + kEps

theorem mints_iff {g : Governor} {x : ReservationId} : g.mints x = true ↔
    ∃ i < g.candidates, x = g.gen.mintedAt (g.gen.calls + i) := by
  simp [mints]

/-- The reservations filed while the queue is worked off: those minted are of admitted flows, the
    others are as they were. -/
theorem foldl_admitAs_reservations (G : Governor) (x : ReservationId) :
    ∀ (l : List (FlowId × FlowRT)) (g : Governor),
    ((∃ i < l.countP fun e => (G.admission e.2.spec).isSome, x = g.gen.mintedAt (g.gen.calls + i)) →
      ∃ rsv e,
        (l.foldl (fun h e => h.admitAs e.1 e.2 (G.admission e.2.spec)) g).reservations.find? x =
        some rsv ∧ e ∈ l ∧ (G.admission e.2.spec).isSome = true ∧ rsv.flow = e.2.spec.id) ∧
    ((¬ ∃ i < l.countP fun e => (G.admission e.2.spec).isSome,
        x = g.gen.mintedAt (g.gen.calls + i)) →
      (l.foldl (fun h e => h.admitAs e.1 e.2 (G.admission e.2.spec)) g).reservations.find? x =
        g.reservations.find? x)
  | [], g => by
    refine ⟨?_, fun _ => rfl⟩
    rintro ⟨i, hi, -⟩
    exact absurd hi (Nat.not_lt_zero i)
  | e :: l, g => by
    rw [List.foldl_cons, List.countP_cons]
    cases ha : G.admission e.2.spec with
    | none =>
      obtain ⟨hin, hout⟩ := foldl_admitAs_reservations G x l g
      simp only [Option.isSome_none, Bool.false_eq_true, if_false, add_zero]
      refine ⟨fun hi => ?_, hout⟩
      obtain ⟨rsv, e', hf, he', hrest⟩ := hin hi
      exact ⟨rsv, e', hf, List.mem_cons_of_mem _ he', hrest⟩
    | some o =>
      obtain ⟨hops, c⟩ := o
      obtain ⟨hin, hout⟩ := foldl_admitAs_reservations G x l (g.dequeued e.1 e.2 hops c)
      simp only [Option.isSome_some, if_true]
      have hlater : ∀ i, ((g.dequeued e.1 e.2 hops c).gen.mintedAt
          ((g.dequeued e.1 e.2 hops c).gen.calls + i) : ReservationId) =
            g.gen.mintedAt (g.gen.calls + (i + 1)) := fun i => by
        rw [add_comm i 1, ← add_assoc]
        rfl
      simp only [hlater] at hin hout
      have hfiled : (g.dequeued e.1 e.2 hops c).reservations.find? (g.gen.mintedAt g.gen.calls) =
          some (g.view.minted e.2.spec .null hops c) := Table.find?_insert_self ..
      constructor
      · rintro ⟨i, hi, rfl⟩
        by_cases hagain : ∃ j < l.countP fun e => (G.admission e.2.spec).isSome,
            (g.gen.mintedAt (g.gen.calls + i) : ReservationId) =
              g.gen.mintedAt (g.gen.calls + (j + 1))
        · obtain ⟨rsv, e', hf, he', hrest⟩ := hin hagain
          exact ⟨rsv, e', hf, List.mem_cons_of_mem _ he', hrest⟩
        · cases i with
          | zero =>
            exact ⟨_, e, (hout hagain).trans hfiled, List.mem_cons_self, by rw [ha]; rfl, rfl⟩
          | succ i => exact absurd ⟨i, by omega, rfl⟩ hagain
      · intro hno
        have hne : x ≠ g.gen.mintedAt g.gen.calls := fun h => hno ⟨0, by omega, h⟩
        have hnot : ¬ ∃ i < l.countP fun e => (G.admission e.2.spec).isSome,
            x = g.gen.mintedAt (g.gen.calls + (i + 1)) := by
          rintro ⟨i, hi, h⟩
          exact hno ⟨i + 1, by omega, h⟩
        rw [show g.admitAs e.1 e.2 (some (hops, c)) = g.dequeued e.1 e.2 hops c from rfl, hout hnot]
        exact Table.find?_insert_ne hne

theorem countP_queue (g : Governor) :
    (g.queue.countP fun e => (g.admission e.2.spec).isSome) = g.candidates := by
  have hall : ∀ l : List (FlowId × FlowRT),
      (l.filter fun e => decide (e.2.state = .named .queued)).countP
        (fun e => (g.admission e.2.spec).isSome) =
      (l.map fun e => if g.isCandidate e.2 then 1 else 0).sum := by
    intro l
    rw [List.countP_filter]
    induction l with
    | nil => rfl
    | cons e l ih =>
      rw [List.countP_cons, ih, List.map_cons, List.sum_cons, isCandidate, Bool.and_comm, add_comm]
  exact hall g.flows.entries

/-- What is held aside once the queue has been worked off. -/
theorem reservedOn_drained {g : Governor} (hk : g.FlowsKeyed) (rid : ResourceId) :
    g.drained.reservedOn rid = g.asideOn rid := by
  obtain ⟨ids, hfl⟩ := g.drained_flows
  rw [reservedOn_eq_sum]
  refine Table.sum_eq_of_find? fun x => ?_
  obtain ⟨hin, hout⟩ := foldl_admitAs_reservations g x g.queue g
  rw [countP_queue, ← mints_iff] at hin hout
  cases hm : g.mints x with
  | true =>
    obtain ⟨rsv, e, hrsv, he, hadm, hflow⟩ := hin hm
    obtain ⟨hfe, hq⟩ := queue_spec he
    have hheld : g.drained.heldAside rsv = false := by
      rw [heldAside, hflow, hk e.1 e.2 hfe, hfl, hfe, Option.map_some]
      simp [isScheduled_served, isCandidate, hq, hadm]
    rw [show g.drained.reservations.find? x = some rsv from hrsv, Option.elim_some, heldAt, hheld]
    cases g.reservations.find? x with
    | none => rfl
    | some old => simp [staysAside, hm]
  | false =>
    rw [show g.drained.reservations.find? x = _ from hout (by simp [hm])]
    cases g.reservations.find? x with
    | none => rfl
    | some rsv =>
      have hsame : g.drained.heldAside rsv = g.staysAside x rsv := by
        rw [heldAside, staysAside, hm, hfl, Bool.not_false, Bool.true_and]
        cases g.flows.find? rsv.flow with
        | none => rfl
        | some f => simp only [Option.map_some, isScheduled_served, takesPart]
      rw [Option.elim_some, Option.elim_some, heldAt, hsame]

theorem takesPart_aged (g : Governor) {f f' : FlowRT} (hspec : f'.spec = f.spec)
    (hs : f'.state = f.state) : g.aged.takesPart f' = g.takesPart f := by
  rw [takesPart, takesPart, hs, isCandidate_aged g hspec hs]

theorem asideOn_aged (g : Governor) (rid : ResourceId) : g.aged.asideOn rid = g.asideOn rid := by
  obtain ⟨age, hage, haged⟩ := g.aged_eq
  have hmints : ∀ x, g.aged.mints x = g.mints x := fun x => by
    rw [mints, mints, candidates_aged]
    rfl
  refine Table.sum_congr fun x rsv _ => ?_
  have hstay : g.aged.staysAside x rsv = g.staysAside x rsv := by
    rw [staysAside, staysAside, hmints,
      show g.aged.flows.find? rsv.flow = (g.flows.find? rsv.flow).map age by
        rw [haged]
        exact Table.find?_mapVals ..]
    cases g.flows.find? rsv.flow with
    | none => rfl
    | some f => simp only [Option.map_some, takesPart_aged g (hage f).1 (hage f).2]
  rw [hstay]

theorem aged_keyed {g : Governor} (h : g.FlowsKeyed) : g.aged.FlowsKeyed := by
  obtain ⟨age, hage, haged⟩ := g.aged_eq
  intro fid f hf
  rw [haged, Table.find?_mapVals] at hf
  obtain ⟨f₀, hf₀, rfl⟩ := Option.map_eq_some_iff.mp hf
  rw [(hage f₀).1]
  exact h fid f₀ hf₀

/-- Working off the queue leaves Reserved what was so, and makes the candidates so. -/
theorem served_reserved_iff (g : Governor) (rid : ReservationId) (f : FlowRT) :
    (g.served rid f).state = .named .reserved ↔
      f.state = .named .reserved ∨ g.isCandidate f = true := by
  unfold served isCandidate
  split
  · rename_i hq
    cases g.admission f.spec with
    | none => simp [hq]
    | some x => simp [hq]
  · rename_i hq
    simp [hq]

/-- The flows a tick arbitrates. -/
theorem prepared_states (g : Governor) : ∃ edit : FlowId → FlowRT → FlowRT,
    (∀ fid f, (edit fid f).spec = f.spec ∧ isScheduled (edit fid f).state = g.takesPart f ∧
      ((edit fid f).state = .named .reserved ↔
        f.state = .named .reserved ∨ g.isCandidate f = true)) ∧
      ∀ fid, g.prepared.flows.find? fid = (g.flows.find? fid).map (edit fid) := by
  obtain ⟨age, hage, haged⟩ := g.aged_eq
  obtain ⟨rid, hrid⟩ := g.aged.drained_flows
  refine ⟨fun fid f => g.aged.served (rid fid) (age f), fun fid f => ⟨?_, ?_, ?_⟩, fun fid => ?_⟩
  · rw [served_spec, (hage f).1]
  · rw [isScheduled_served, ← takesPart, takesPart_aged g (hage f).1 (hage f).2]
  · rw [served_reserved_iff, (hage f).2, isCandidate_aged g (hage f).1 (hage f).2]
  · change g.aged.drained.flows.find? fid = _
    rw [hrid, haged, Table.find?_mapVals, Option.map_map]
    rfl

theorem prepared_crosses (g : Governor) {f f' : FlowRT} (h : f'.spec = f.spec) (rid : ResourceId) :
    g.prepared.crosses rid f' = g.crosses rid f := by
  obtain ⟨fs, rs, gen, hrest⟩ := g.aged.drained_rest
  have hpaths : g.prepared.paths.find? = g.paths.find? := by
    rw [prepared, hrest]
    rfl
  exact crosses_congr hpaths (congrArg FlowSpec.path h) rid

theorem prepared_floors (g : Governor) (rid : ResourceId) :
    (g.prepared.flows.sum fun _ f => if isScheduled f.state && g.prepared.crosses rid f then
      f.spec.floor else 0) = g.floorsOn rid := by
  obtain ⟨edit, hedit, hfind⟩ := g.prepared_states
  refine Table.sum_eq_of_find? fun fid => ?_
  rw [hfind]
  cases g.flows.find? fid with
  | none => rfl
  | some f =>
    obtain ⟨hspec, hs, -⟩ := hedit fid f
    rw [Option.map_some, Option.elim_some, Option.elim_some, hs, g.prepared_crosses hspec, hspec]

/-- What a tick grants a flow that takes part, told before the tick. -/
theorem prepared_covers_iff {g : Governor} (hk : g.FlowsKeyed) (t : ℚ) {fid : FlowId}
    {f f' : FlowRT}
    (hf' : g.prepared.flows.find? fid = some f') (hspec : f'.spec = f.spec)
    (hs : isScheduled f'.state = true) :
    f.spec.requestedMin.value ≤ g.prepared.grantOf t fid + kEps ↔ g.Coverable f := by
  have haside : ∀ rid, g.aged.drained.reservedOn rid = g.asideOn rid := fun rid =>
    (reservedOn_drained (aged_keyed hk) rid).trans (g.asideOn_aged rid)
  have hres : ∀ rid, g.prepared.resources.find? rid = (g.resources.find? rid).map fun r =>
      { r with governed := g.governedNow r, reserved := g.asideOn rid } := fun rid => by
    rw [prepared, prepared_find?, haside]
  have hsure : ∀ room floors, sureOf room floors f' = sureOf room floors f := fun room floors => by
    rw [sureOf, sureOf, hspec]
  rw [← hspec, grantOf_covers_iff (prepared_keyed hk) t hf' hs, Coverable, hspec]
  simp only [g.prepared_crosses hspec, prepared_floors, hsure, hres]
  refine or_congr_right (and_congr ?_ (forall_congr' fun rid => ?_))
  · refine exists_congr fun rid => ?_
    cases g.resources.find? rid with
    | none => simp
    | some r => simp
  · cases g.resources.find? rid with
    | none => simp
    | some r => simp

end Governor

/-! ### The claims of the states -/

/-- The states after a tick tell the truth about the flows that took part: what is Running has its
    minimum up to the tolerance, and what is short of it is Throttled or Preempted. -/
structure Governor.TellsTruth (g g' : Governor) : Prop where
  running : ∀ fid f', g'.flows.find? fid = some f' → f'.state = .named .running →
    f'.spec.requestedMin.value ≤ f'.granted + kEps
  short : ∀ fid f f', g.flows.find? fid = some f → g.takesPart f = true →
    g'.flows.find? fid = some f' → f'.granted + kEps < f'.spec.requestedMin.value →
    f'.state = .named .throttled ∨ f'.state = .named .preempted

namespace Governor

/-- Graded by its grant, a flow is Running only with its minimum. -/
theorem gradeOf_running {f : FlowRT} {ng : ℚ} (h : gradeOf f ng = .running) :
    f.spec.requestedMin.value ≤ ng + kEps := by
  unfold gradeOf at h
  split at h
  · cases h
  · split at h
    · cases h
    · rename_i hge
      exact not_lt.mp hge

/-- A flow that takes part is Running afterwards if it was Reserved, and graded otherwise. -/
theorem settled_cases (g : Governor) (t : ℚ) (fid : FlowId) {f : FlowRT}
    (hs : isScheduled f.state = true) :
    f.state = .named .reserved ∧ (g.settled t fid f).state = .named .running ∨
      f.state ≠ .named .reserved ∧
        (g.settled t fid f).state = .named (gradeOf f (g.grantOf t fid)) := by
  unfold settled
  by_cases hr : f.state = .named .reserved
  · rw [if_pos hr]
    exact Or.inl ⟨hr, rfl⟩
  · rw [if_neg hr, if_pos (by simpa [isScheduled_eq, hr] using hs)]
    exact Or.inr ⟨hr, rfl⟩

/-- Every flow that takes part is afterwards Running, Throttled or Preempted. -/
theorem settled_state {g : Governor} {t : ℚ} {fid : FlowId} {f : FlowRT}
    (hs : isScheduled f.state = true) (hne : (g.settled t fid f).state ≠ .named .running) :
    (g.settled t fid f).state = .named .throttled ∨
      (g.settled t fid f).state = .named .preempted := by
  rcases settled_cases g t fid hs with ⟨-, h⟩ | ⟨-, h⟩
  · exact absurd h hne
  · rw [h] at hne ⊢
    rcases gradeOf_cases f (g.grantOf t fid) with hg | hg | hg
    · exact Or.inr (congrArg Coded.named hg)
    · exact Or.inl (congrArg Coded.named hg)
    · exact absurd (congrArg Coded.named hg) hne

end Governor

/-- In every state of every run, restorations included, the tick leaves states that tell the truth
    exactly when every flow that enters its grading as Reserved, found so or admitted from the
    queue, can be granted its minimum. -/
theorem states_tell_truth_iff {g₀ g : Governor} {es : List Event} (hfresh : g₀.Fresh)
    (hrun : Lib.Run Governor.Step g₀ es g) : ∃ g', g.tick = .ok g' ∧
    (g.TellsTruth g' ↔ ∀ fid f, g.flows.find? fid = some f →
      (f.state = .named .reserved ∨ g.isCandidate f = true) → g.Coverable f) := by
  have hk := flowsKeyed_of_run hfresh hrun
  obtain ⟨edit, hedit, hfind⟩ := g.prepared_states
  refine ⟨_, g.tick_prepared, ?_⟩
  have hafter : ∀ fid, g.prepared.arbitrated.flows.find? fid =
      (g.flows.find? fid).map fun f => g.prepared.settled g.prepared.now fid (edit fid f) :=
    fun fid => by
      rw [Governor.arbitrated_flows, Table.find?_mapVals, hfind, Option.map_map]
      rfl
  have hcov : ∀ {fid f}, g.flows.find? fid = some f → g.takesPart f = true →
      (f.spec.requestedMin.value ≤ g.prepared.grantOf g.prepared.now fid + kEps ↔
        g.Coverable f) := by
    intro fid f hf hp
    obtain ⟨hspec, hs, -⟩ := hedit fid f
    exact Governor.prepared_covers_iff hk _ (by rw [hfind, hf]; rfl) hspec (hs.trans hp)
  constructor
  · intro htrue fid f hf hres
    obtain ⟨hspec, hs, hiff⟩ := hedit fid f
    have hp : g.takesPart f = true := by
      rw [← hs, hiff.mpr hres]
      rfl
    have hrunning :
      (g.prepared.settled g.prepared.now fid (edit fid f)).state = .named .running := by
      rcases Governor.settled_cases g.prepared g.prepared.now _ (hs.trans hp) with h | h
      · exact h.2
      · exact absurd (hiff.mpr hres) h.1
    have hmin := htrue.running fid _ (by rw [hafter, hf]; rfl) hrunning
    rw [Governor.settled_spec, hspec, Governor.settled_granted (hs.trans hp)] at hmin
    exact (hcov hf hp).mp hmin
  · intro hall
    have hcase : ∀ {fid f}, g.flows.find? fid = some f → g.takesPart f = true →
        (g.prepared.settled g.prepared.now fid (edit fid f)).state = .named .running →
        f.spec.requestedMin.value ≤ g.prepared.grantOf g.prepared.now fid + kEps := by
      intro fid f hf hp hrunning
      obtain ⟨hspec, hs, hiff⟩ := hedit fid f
      rcases Governor.settled_cases g.prepared g.prepared.now _ (hs.trans hp) with
        ⟨hr, -⟩ | ⟨-, hgrade⟩
      · exact (hcov hf hp).mpr (hall fid f hf (hiff.mp hr))
      · rw [hgrade] at hrunning
        rw [← hspec]
        exact Governor.gradeOf_running (Coded.named.inj hrunning)
    refine ⟨fun fid f' hf' hrunning => ?_, fun fid f f' hf hp hf' hlt => ?_⟩
    · rw [hafter] at hf'
      obtain ⟨f, hf, rfl⟩ := Option.map_eq_some_iff.mp hf'
      obtain ⟨hspec, hs, -⟩ := hedit fid f
      obtain ⟨hsched, hgrant⟩ := Governor.settled_moving (by rw [hrunning]; rfl)
      rw [Governor.settled_spec, hspec, hgrant]
      exact hcase hf (hs.symm.trans hsched) hrunning
    · rw [hafter, hf, Option.map_some, Option.some.injEq] at hf'
      subst hf'
      obtain ⟨hspec, hs, -⟩ := hedit fid f
      rw [Governor.settled_spec, hspec, Governor.settled_granted (hs.trans hp)] at hlt
      exact Governor.settled_state (hs.trans hp) fun hrunning =>
        absurd (hcase hf hp hrunning) (not_le.mpr hlt)

/-! ### Two ticks -/

/-- `Coverable`, checked resource by resource. -/
def Governor.coverable (g : Governor) (f : FlowRT) : Bool :=
  decide (f.spec.requestedMin.value ≤ kEps) ||
    (g.resources.entries.any fun e => g.crosses e.1 f) &&
    g.resources.entries.all fun e => !g.crosses e.1 f || decide (f.spec.requestedMin.value ≤
      sureOf (max 0 (g.governedNow e.2 - g.asideOn e.1)) (g.floorsOn e.1) f + kEps)

theorem Governor.coverable_iff {g : Governor} {f : FlowRT} :
    g.coverable f = true ↔ g.Coverable f := by
  have hall : ∀ {P : ResourceId → ResRT → Prop}, (∀ e ∈ g.resources.entries, P e.1 e.2) ↔
      ∀ rid r, g.resources.find? rid = some r → P rid r := by
    intro P
    exact ⟨fun h rid r hr => h (rid, r) (Table.mem_of_find? hr), fun h e he =>
      h e.1 e.2 (Table.find?_of_mem he)⟩
  have hany : (∃ e ∈ g.resources.entries, g.crosses e.1 f = true) ↔
      ∃ rid r, g.resources.find? rid = some r ∧ g.crosses rid f = true := by
    constructor
    · rintro ⟨e, he, hc⟩
      exact ⟨e.1, e.2, Table.find?_of_mem he, hc⟩
    · rintro ⟨rid, r, hr, hc⟩
      exact ⟨(rid, r), Table.mem_of_find? hr, hc⟩
  rw [coverable, Bool.or_eq_true, Bool.and_eq_true, List.any_eq_true, List.all_eq_true, hany,
    decide_eq_true_eq, Coverable, ← hall]
  simp only [Bool.or_eq_true, Bool.not_eq_true', decide_eq_true_eq, ← Bool.not_eq_true,
    ← imp_iff_not_or]

namespace Sample

/-- Flow 1 is admitted over a link of rate 100. -/
def admitted : List Op := oneLink ++ [.submitFlow (flow 1 1 50 80 100)]

/-- The link goes down before the first tick. -/
def unplugged : List Op := admitted ++ [.setResourceEnabled ⟨0, 1⟩ false]

end Sample

/-- The theorem for the flow on its link. -/
theorem states_tell_truth_admitted : ∃ g', (Sample.start.after Sample.admitted).tick = .ok g' ∧
    (Sample.start.after Sample.admitted).TellsTruth g' := by
  obtain ⟨g', htick, hiff⟩ := states_tell_truth_iff Sample.start_fresh
    (Governor.run_after Sample.admitted Sample.start)
  have hall : ((Sample.start.after Sample.admitted).flows.entries.all fun e =>
      (Sample.start.after Sample.admitted).coverable e.2) = true := by decide +kernel
  exact ⟨g', htick, hiff.mpr fun fid f hf _ => Governor.coverable_iff.mp
    (List.all_eq_true.mp hall (fid, f) (Table.mem_of_find? hf))⟩

/-- Its link down, the flow is Running at rate zero after the tick. -/
theorem reserved_flow_runs_short : ∃ g' f', Reaches (Sample.unplugged.map Event.call)
      (Sample.start.after Sample.unplugged) ∧
    (Sample.start.after Sample.unplugged).tick = .ok g' ∧ g'.flows.find? ⟨0, 1⟩ = some f' ∧
    f'.state = .named .running ∧ f'.granted + kEps < f'.spec.requestedMin.value ∧
    ¬ (Sample.start.after Sample.unplugged).TellsTruth g' := by
  have hshort : ((Sample.start.after Sample.unplugged).prepared.arbitrated.flows.find? ⟨0, 1⟩).map
      (fun f => decide (f.state = .named .running ∧
        f.granted + kEps < f.spec.requestedMin.value)) = some true := by decide +kernel
  obtain ⟨f', hf', hd⟩ := Option.map_eq_some_iff.mp hshort
  obtain ⟨hrunning, hlt⟩ := of_decide_eq_true hd
  exact ⟨_, f', Sample.reaches (by decide), Governor.tick_prepared _, hf', hrunning, hlt,
    fun htrue => absurd (htrue.running _ f' hf' hrunning) (not_le.mpr hlt)⟩

end BG
