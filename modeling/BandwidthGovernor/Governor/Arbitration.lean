import Mathlib
import BandwidthGovernor.Fill
import BandwidthGovernor.Governor.Aggregates

/-! What `tick` arbitrates: the contenders of each resource, and the grant of each flow as the
    smallest offer over its registered hops. -/

namespace BG

open Lib

namespace Governor

/-! ### Contention -/

/-- The entries filed under a resource so far. -/
def entriesAt (c : Table ResourceId ResContention) (rid : ResourceId) : List AllocEntry :=
  ((c.find? rid).map ResContention.entries).getD []

/-- Contention records are filed under their own resource. -/
def Filed (c : Table ResourceId ResContention) : Prop :=
  ∀ rid rc, c.find? rid = some rc → rc.res = rid

theorem entriesAt_touchHop (c : Table ResourceId ResContention) (hop : PathHop)
    (rid : ResourceId) : entriesAt (touchHop c hop) rid = entriesAt c rid := by
  by_cases h : rid = hop.resource
  · subst h
    cases hc : c.find? hop.resource <;> simp [entriesAt, touchHop, hc]
  · simp [entriesAt, touchHop, h]

theorem filed_touchHop {c : Table ResourceId ResContention} (hc : Filed c) (hop : PathHop) :
    Filed (touchHop c hop) ∧ (touchHop c hop).contains hop.resource = true := by
  refine ⟨fun rid rc h => ?_, by simp [Table.contains, touchHop]⟩
  rw [touchHop, Table.find?_insert] at h
  split at h
  · cases h; exact Eq.symm ‹_›
  · exact hc rid rc h

theorem contains_insert_of {c : Table ResourceId ResContention} {rid k : ResourceId}
    {rc : ResContention} (h : c.contains rid = true) : (c.insert k rc).contains rid = true := by
  rw [Table.contains, Table.find?_insert]
  split
  · rfl
  · exact h

/-- After the first hop loop every hop has a record, and no entry has changed. -/
theorem foldl_touchHop : ∀ (hops : List PathHop) (c : Table ResourceId ResContention), Filed c →
    Filed (hops.foldl touchHop c) ∧
      (∀ rid, entriesAt (hops.foldl touchHop c) rid = entriesAt c rid) ∧
      ∀ rid, c.contains rid = true ∨ rid ∈ hops.map PathHop.resource →
        (hops.foldl touchHop c).contains rid = true
  | [], c, hc => ⟨hc, fun _ => rfl, fun rid h => by simpa using h⟩
  | hop :: hops, c, hc => by
    obtain ⟨hfiled, hself⟩ := filed_touchHop hc hop
    obtain ⟨h₁, h₂, h₃⟩ := foldl_touchHop hops (touchHop c hop) hfiled
    refine ⟨h₁, fun rid => (h₂ rid).trans (entriesAt_touchHop c hop rid), fun rid h => h₃ rid ?_⟩
    rcases h with h | h
    · exact Or.inl (contains_insert_of h)
    · rcases List.mem_cons.mp h with rfl | h
      · exact Or.inl hself
      · exact Or.inr h

/-- Joining a hop adds the entry once, at that hop only. -/
theorem joinHop_spec {c : Table ResourceId ResContention} (hc : Filed c) {hop : PathHop}
    (hmem : c.contains hop.resource = true) (e : AllocEntry) :
    Filed (joinHop e c hop) ∧
      (∀ rid, c.contains rid = true → (joinHop e c hop).contains rid = true) ∧
      ∀ rid, entriesAt (joinHop e c hop) rid =
        if rid = hop.resource ∧ e.flow ∉ (entriesAt c rid).map AllocEntry.flow then
          entriesAt c rid ++ [e] else entriesAt c rid := by
  obtain ⟨rc, hrc⟩ := Option.isSome_iff_exists.mp hmem
  have hany : (rc.entries.any fun x => decide (x.flow = e.flow)) = true ↔
      e.flow ∈ (entriesAt c hop.resource).map AllocEntry.flow := by
    simp [entriesAt, hrc, List.any_eq_true, List.mem_map]
  unfold joinHop
  simp only [hrc, Option.getD_some]
  split
  · rename_i h
    refine ⟨hc, fun _ h => h, fun rid => ?_⟩
    split
    · rename_i h'; exact absurd (hany.mp h) (h'.1 ▸ h'.2)
    · rfl
  · rename_i h
    have hnot := fun h' => h (hany.mpr h')
    refine ⟨fun rid x hx => ?_, fun _ h => contains_insert_of h, fun rid => ?_⟩
    · rw [Table.find?_insert] at hx
      split at hx
      · rename_i heq; cases hx; exact (hc _ rc hrc).trans heq.symm
      · exact hc rid x hx
    · by_cases hr : rid = hop.resource
      · subst hr
        rw [if_pos ⟨rfl, hnot⟩]
        simp [entriesAt, hrc]
      · rw [if_neg fun h => hr h.1]
        simp [entriesAt, hr]

theorem foldl_joinHop (e : AllocEntry) : ∀ (hops : List PathHop)
    (c : Table ResourceId ResContention), Filed c →
    (∀ hop ∈ hops, c.contains hop.resource = true) →
    Filed (hops.foldl (joinHop e) c) ∧ ∀ rid, entriesAt (hops.foldl (joinHop e) c) rid =
      if rid ∈ hops.map PathHop.resource ∧ e.flow ∉ (entriesAt c rid).map AllocEntry.flow then
        entriesAt c rid ++ [e] else entriesAt c rid
  | [], c, hc, _ => ⟨hc, fun rid => by simp⟩
  | hop :: hops, c, hc, hmem => by
    rw [List.forall_mem_cons] at hmem
    obtain ⟨hfiled, hkeep, hat⟩ := joinHop_spec hc hmem.1 e
    obtain ⟨h₁, h₂⟩ := foldl_joinHop e hops (joinHop e c hop) hfiled
      fun h hh => hkeep _ (hmem.2 h hh)
    refine ⟨h₁, fun rid => ?_⟩
    rw [List.foldl_cons, h₂ rid, hat rid]
    by_cases hpresent : e.flow ∈ (entriesAt c rid).map AllocEntry.flow
    · simp [hpresent]
    · by_cases hr : rid = hop.resource
      · simp [hr, hr ▸ hpresent]
      · simp [hr, hpresent]

/-- The flows that contend for a resource, in table order. -/
def contenders (g : Governor) (rid : ResourceId) : List FlowRT :=
  g.flows.vals.filter fun f => isScheduled f.state && g.crosses rid f

theorem contend_spec {g : Governor} {t : ℚ} {c : Table ResourceId ResContention} (hc : Filed c)
    {f : FlowRT} (hnew : ∀ rid, f.spec.id ∉ (entriesAt c rid).map AllocEntry.flow) :
    Filed (g.contend t c f) ∧ ∀ rid, entriesAt (g.contend t c f) rid = entriesAt c rid ++
      if isScheduled f.state && g.crosses rid f then [g.allocEntry t f] else [] := by
  unfold contend
  split
  · rename_i hs
    obtain ⟨h₁, h₂, h₃⟩ := foldl_touchHop (g.hopsOf f) c hc
    obtain ⟨h₄, h₅⟩ := foldl_joinHop (g.allocEntry t f) (g.hopsOf f) _ h₁ fun hop hh =>
      h₃ _ (Or.inr (List.mem_map_of_mem hh))
    refine ⟨h₄, fun rid => ?_⟩
    have hfresh : (g.allocEntry t f).flow ∉ (entriesAt c rid).map AllocEntry.flow := hnew rid
    rw [h₅ rid, h₂ rid]
    by_cases hx : rid ∈ (g.hopsOf f).map PathHop.resource
    · rw [if_pos ⟨hx, hfresh⟩]; simp [hs, crosses, hx]
    · rw [if_neg fun h => hx h.1]; simp [crosses, hx]
  · rename_i hs
    exact ⟨hc, fun rid => by simp [hs]⟩

/-- Folding the contention loop over flows with distinct ids. -/
theorem foldl_contend (g : Governor) (t : ℚ) : ∀ (l : List FlowRT)
    (c : Table ResourceId ResContention), Filed c → (l.map fun f => f.spec.id).Nodup →
    (∀ f ∈ l, ∀ rid, f.spec.id ∉ (entriesAt c rid).map AllocEntry.flow) →
    Filed (l.foldl (g.contend t) c) ∧ ∀ rid, entriesAt (l.foldl (g.contend t) c) rid =
      entriesAt c rid ++ (l.filter fun f => isScheduled f.state && g.crosses rid f).map
        (g.allocEntry t)
  | [], c, hc, _, _ => ⟨hc, fun rid => by simp⟩
  | f :: l, c, hc, hnd, hnew => by
    rw [List.map_cons, List.nodup_cons] at hnd
    rw [List.forall_mem_cons] at hnew
    obtain ⟨hfiled, hat⟩ := contend_spec (g := g) (t := t) hc hnew.1
    obtain ⟨h₁, h₂⟩ := foldl_contend g t l _ hfiled hnd.2 fun f' hf' rid => by
      rw [hat rid, List.map_append, List.mem_append, not_or]
      refine ⟨hnew.2 f' hf' rid, fun h => ?_⟩
      have : f'.spec.id = f.spec.id := by
        split at h
        · simpa [allocEntry] using h
        · simp at h
      exact hnd.1 (this ▸ List.mem_map_of_mem (f := fun f : FlowRT => f.spec.id) hf')
    refine ⟨h₁, fun rid => ?_⟩
    rw [List.foldl_cons, h₂ rid, hat rid, List.filter_cons]
    split <;> simp

/-- Flows are filed under their own id. -/
def FlowsKeyed (g : Governor) : Prop := ∀ fid f, g.flows.find? fid = some f → f.spec.id = fid

theorem FlowsKeyed.ids {g : Governor} (h : g.FlowsKeyed) :
    g.flows.vals.map (fun f => f.spec.id) = g.flows.keys := by
  simp only [Table.vals, Table.keys, List.map_map]
  exact List.map_congr_left fun e he => h e.1 e.2 (Table.find?_of_mem he)

theorem contention_spec {g : Governor} (h : g.FlowsKeyed) (t : ℚ) :
    Filed (g.contention t) ∧
      ∀ rid, entriesAt (g.contention t) rid = (g.contenders rid).map (g.allocEntry t) := by
  obtain ⟨h₁, h₂⟩ := foldl_contend g t g.flows.vals .empty (fun rid rc hx => by simp at hx)
    (h.ids ▸ g.flows.nodup) (fun f _ rid => by simp [entriesAt])
  exact ⟨h₁, fun rid => by rw [contention, h₂ rid]; simp [entriesAt, contenders]⟩

/-! ### Grants -/

theorem lowerGrant_find?_self (t : Table FlowId ℚ) (x : AllocEntry × ℚ) :
    ∃ m, (lowerGrant t x).find? x.1.flow = some m ∧ m ≤ x.2 := by
  unfold lowerGrant
  cases h : t.find? x.1.flow with
  | none => exact ⟨x.2, by simp, le_refl _⟩
  | some m =>
    by_cases hlt : x.2 < m
    · exact ⟨x.2, by simp [hlt], le_refl _⟩
    · exact ⟨m, by simp [hlt, h], not_lt.mp hlt⟩

theorem lowerGrant_find?_le {t : Table FlowId ℚ} {fid : FlowId} {m : ℚ}
    (h : t.find? fid = some m) (x : AllocEntry × ℚ) :
    ∃ m', (lowerGrant t x).find? fid = some m' ∧ m' ≤ m := by
  by_cases hx : fid = x.1.flow
  · subst hx
    unfold lowerGrant
    rw [h]
    by_cases hlt : x.2 < m
    · exact ⟨x.2, by simp [hlt], hlt.le⟩
    · exact ⟨m, by simp [hlt, h], le_refl _⟩
  · refine ⟨m, ?_, le_refl _⟩
    unfold lowerGrant
    cases t.find? x.1.flow with
    | none => simpa [hx] using h
    | some m' => by_cases hlt : x.2 < m' <;> simp [hlt, hx, h]

theorem foldl_lowerGrant_le_acc : ∀ (l : List (AllocEntry × ℚ)) {t : Table FlowId ℚ}
    {fid : FlowId} {m : ℚ}, t.find? fid = some m →
    ∃ m', (l.foldl lowerGrant t).find? fid = some m' ∧ m' ≤ m
  | [], _, _, m, h => ⟨m, h, le_refl _⟩
  | x :: l, _, _, _, h => by
    obtain ⟨m₁, h₁, hle₁⟩ := lowerGrant_find?_le h x
    obtain ⟨m₂, h₂, hle₂⟩ := foldl_lowerGrant_le_acc l h₁
    exact ⟨m₂, h₂, hle₂.trans hle₁⟩

/-- The grant is at most every offer made to the flow. -/
theorem foldl_lowerGrant_le : ∀ (l : List (AllocEntry × ℚ)) (t : Table FlowId ℚ)
    {x : AllocEntry × ℚ}, x ∈ l → ∃ m, (l.foldl lowerGrant t).find? x.1.flow = some m ∧ m ≤ x.2
  | y :: l, t, x, hx => by
    rcases List.mem_cons.mp hx with rfl | hl
    · obtain ⟨m₁, h₁, hle₁⟩ := lowerGrant_find?_self t x
      obtain ⟨m₂, h₂, hle₂⟩ := foldl_lowerGrant_le_acc l h₁
      exact ⟨m₂, h₂, hle₂.trans hle₁⟩
    · exact foldl_lowerGrant_le l (lowerGrant t y) hl

/-- The grant is one of the offers made to the flow. -/
theorem foldl_lowerGrant_mem : ∀ (l : List (AllocEntry × ℚ)) {t : Table FlowId ℚ} {fid : FlowId}
    {m : ℚ}, (l.foldl lowerGrant t).find? fid = some m →
    t.find? fid = some m ∨ ∃ x ∈ l, x.1.flow = fid ∧ x.2 = m
  | [], _, _, _, h => Or.inl h
  | x :: l, t, fid, m, h => by
    rcases foldl_lowerGrant_mem l h with h' | ⟨y, hy, hyf⟩
    · by_cases hx : fid = x.1.flow
      · subst hx
        unfold lowerGrant at h'
        cases ht : t.find? x.1.flow with
        | none =>
          simp only [ht, Table.find?_insert_self, Option.some.injEq] at h'
          exact Or.inr ⟨x, List.mem_cons_self .., rfl, h'⟩
        | some m' =>
          simp only [ht] at h'
          split at h'
          · rw [Table.find?_insert_self, Option.some.injEq] at h'
            exact Or.inr ⟨x, List.mem_cons_self .., rfl, h'⟩
          · exact Or.inl (ht ▸ h')
      · left
        unfold lowerGrant at h'
        cases ht : t.find? x.1.flow with
        | none => simpa [ht, hx] using h'
        | some m' =>
          simp only [ht] at h'
          split at h'
          · simpa [hx] using h'
          · exact h'
    · exact Or.inr ⟨y, List.mem_cons_of_mem _ hy, hyf⟩

/-- The rates offered on one resource, entry by entry. -/
def offersOn (g : Governor) (rc : ResContention) : List (AllocEntry × ℚ) :=
  match g.resources.find? rc.res with
  | none => []
  | some r => rc.entries.zip (allocateWeighted rc.entries (max 0 (r.governed - r.reserved))).granted

theorem grantMin_eq (g : Governor) (t : ℚ) : g.grantMin t =
    ((g.contention t).vals.flatMap g.offersOn).foldl lowerGrant .empty := by
  rw [List.foldl_flatMap, grantMin]
  congr 1
  funext grants rc
  unfold allocateResource offersOn
  cases g.resources.find? rc.res <;> rfl

/-- What holds of the entry of every flow holds of every contender. -/
theorem contention_forall {P : AllocEntry → Prop} (g : Governor) (t : ℚ)
    (hP : ∀ f, P (g.allocEntry t f)) : ∀ rc ∈ (g.contention t).vals, ∀ a ∈ rc.entries, P a := by
  have htouch : ∀ (hops : List PathHop) (c : Table ResourceId ResContention),
      (∀ rid rc, c.find? rid = some rc → ∀ a ∈ rc.entries, P a) →
      ∀ rid rc, (hops.foldl touchHop c).find? rid = some rc → ∀ a ∈ rc.entries, P a := by
    intro hops
    induction hops with
    | nil => exact fun c hc => hc
    | cons hop hops ih =>
      refine fun c hc => ih (touchHop c hop) fun rid rc hrc a ha => ?_
      rw [touchHop, Table.find?_insert] at hrc
      split at hrc
      · cases hf : c.find? hop.resource with
        | none => simp [hf] at hrc; simp [← hrc] at ha
        | some rc₀ =>
          rw [hf, Option.some.injEq] at hrc
          exact hc _ rc₀ hf a (by simpa [← hrc] using ha)
      · exact hc rid rc hrc a ha
  have hjoin : ∀ (f : FlowRT) (hops : List PathHop) (c : Table ResourceId ResContention),
      (∀ rid rc, c.find? rid = some rc → ∀ a ∈ rc.entries, P a) →
      ∀ rid rc, (hops.foldl (joinHop (g.allocEntry t f)) c).find? rid = some rc →
        ∀ a ∈ rc.entries, P a := by
    intro f hops
    induction hops with
    | nil => exact fun c hc => hc
    | cons hop hops ih =>
      refine fun c hc => ih (joinHop _ c hop) fun rid rc hrc a ha => ?_
      unfold joinHop at hrc
      dsimp only at hrc
      split at hrc
      · exact hc rid rc hrc a ha
      · rw [Table.find?_insert] at hrc
        split at hrc
        · rw [Option.some.injEq] at hrc
          rw [← hrc, List.mem_append, List.mem_singleton] at ha
          rcases ha with ha | rfl
          · cases hf : c.find? hop.resource with
            | none => simp [hf] at ha
            | some rc₀ => exact hc _ rc₀ hf a (by simpa [hf] using ha)
          · exact hP f
        · exact hc rid rc hrc a ha
  have hall : ∀ (l : List FlowRT) (c : Table ResourceId ResContention),
      (∀ rid rc, c.find? rid = some rc → ∀ a ∈ rc.entries, P a) →
      ∀ rid rc, (l.foldl (g.contend t) c).find? rid = some rc → ∀ a ∈ rc.entries, P a := by
    intro l
    induction l with
    | nil => exact fun c hc => hc
    | cons f l ih =>
      refine fun c hc => ih (g.contend t c f) ?_
      unfold contend
      split
      · exact hjoin f _ _ (htouch _ c hc)
      · exact hc
  intro rc hrc
  obtain ⟨e, he, rfl⟩ := List.mem_map.mp hrc
  exact hall g.flows.vals .empty (fun rid rc hx => by simp at hx) e.1 e.2 (Table.find?_of_mem he)

/-- In any state, a grant is a valid rate. -/
theorem grantMin_bounds (g : Governor) (t : ℚ) {fid : FlowId} {m : ℚ}
    (h : (g.grantMin t).find? fid = some m) : 0 ≤ m ∧ m ≤ kMaxRate := by
  rw [grantMin_eq] at h
  rcases foldl_lowerGrant_mem _ h with h0 | ⟨x, hx, -, rfl⟩
  · simp at h0
  · obtain ⟨rc, hrc, hx⟩ := List.mem_flatMap.mp hx
    unfold offersOn at hx
    cases hr : g.resources.find? rc.res with
    | none => simp [hr] at hx
    | some r =>
      rw [hr] at hx
      refine allocateWeighted_bounds kMaxRate_pos.le (fun e he => ?_) _ _ (List.of_mem_zip hx).2
      exact contention_forall (P := fun e => 0 ≤ e.max ∧ e.max ≤ kMaxRate) g t
        (fun f => ⟨f.spec.requestedMax.nonneg, f.spec.requestedMax.le_max⟩) rc hrc e he

/-- The rates granted on a registered resource to its contenders, in order. -/
def ratesOn (g : Governor) (t : ℚ) (rid : ResourceId) (r : ResRT) : List ℚ :=
  (allocateWeighted ((g.contenders rid).map (g.allocEntry t))
    (max 0 (r.governed - r.reserved))).granted

/-- The specs of all flows have a consistent rate envelope. -/
def Enveloped (g : Governor) : Prop := ∀ f ∈ g.flows.vals, f.spec.Envelope

theorem allocEntry_valid {g : Governor} {f : FlowRT} (h : f.spec.Envelope) (t : ℚ) :
    (g.allocEntry t f).Valid :=
  ⟨f.spec.requestedMin.nonneg, h.min_le, h.le_max⟩

theorem ratesOn_allotment {g : Governor} (h : g.Enveloped) (t : ℚ) (rid : ResourceId) (r : ResRT) :
    Allotment ((g.contenders rid).map (g.allocEntry t)) (max 0 (r.governed - r.reserved))
      (g.ratesOn t rid r) := by
  refine allocateWeighted_allotment (fun e he => ?_) _
  obtain ⟨f, hf, rfl⟩ := List.mem_map.mp he
  exact allocEntry_valid (h f (List.mem_of_mem_filter hf)) t

/-- An offer is a rate some registered resource grants one of its contenders. -/
theorem mem_offers {g : Governor} (h : g.FlowsKeyed) {t : ℚ} {x : AllocEntry × ℚ} :
    x ∈ (g.contention t).vals.flatMap g.offersOn ↔
      ∃ rid r, g.resources.find? rid = some r ∧
        x ∈ ((g.contenders rid).map (g.allocEntry t)).zip (g.ratesOn t rid r) := by
  obtain ⟨hfiled, hat⟩ := contention_spec h t
  have hentries : ∀ {rid rc}, (g.contention t).find? rid = some rc →
      rc.entries = (g.contenders rid).map (g.allocEntry t) := fun {rid rc} hf => by
    have := hat rid
    simpa [entriesAt, hf] using this
  simp only [List.mem_flatMap, Table.vals, List.mem_map]
  constructor
  · rintro ⟨rc, ⟨e, he, rfl⟩, hx⟩
    have hf := Table.find?_of_mem (k := e.1) (v := e.2) he
    have hres := hfiled _ _ hf
    unfold offersOn at hx
    cases hr : g.resources.find? e.2.res with
    | none => simp [hr] at hx
    | some r =>
      simp only [hr, hentries hf] at hx
      exact ⟨e.1, r, hres ▸ hr, hx⟩
  · rintro ⟨rid, r, hr, hx⟩
    cases hf : (g.contention t).find? rid with
    | none =>
      have := hat rid
      simp only [entriesAt, hf, Option.map_none, Option.getD_none] at this
      simp [← this] at hx
    | some rc =>
      refine ⟨rc, ⟨(rid, rc), Table.mem_of_find? hf, rfl⟩, ?_⟩
      simpa [offersOn, hfiled _ _ hf, hr, hentries hf, ratesOn] using hx

/-- The grant of a flow: the entry of `grant_min`, or zero. -/
def grantOf (g : Governor) (t : ℚ) (fid : FlowId) : ℚ := ((g.grantMin t).find? fid).getD 0

theorem grantOf_le_offer {g : Governor} (h : g.FlowsKeyed) {t : ℚ} {rid : ResourceId} {r : ResRT}
    (hr : g.resources.find? rid = some r) {x : AllocEntry × ℚ}
    (hx : x ∈ ((g.contenders rid).map (g.allocEntry t)).zip (g.ratesOn t rid r)) :
    g.grantOf t x.1.flow ≤ x.2 := by
  obtain ⟨m, hm, hle⟩ := foldl_lowerGrant_le _ .empty ((mem_offers h).mpr ⟨rid, r, hr, hx⟩)
  rw [grantOf, grantMin_eq, hm]
  exact hle

/-- A flow without a grant entry gets zero; otherwise its grant is some offer made to it. -/
theorem grantOf_cases {g : Governor} (h : g.FlowsKeyed) (t : ℚ) (fid : FlowId) :
    ((g.grantMin t).find? fid = none ∧ g.grantOf t fid = 0) ∨
      ∃ rid r x, g.resources.find? rid = some r ∧
        x ∈ ((g.contenders rid).map (g.allocEntry t)).zip (g.ratesOn t rid r) ∧
        x.1.flow = fid ∧ x.2 = g.grantOf t fid := by
  unfold grantOf
  cases hf : (g.grantMin t).find? fid with
  | none => exact Or.inl ⟨rfl, rfl⟩
  | some m =>
    right
    rw [grantMin_eq] at hf
    rcases foldl_lowerGrant_mem _ hf with h0 | ⟨x, hx, hxf, rfl⟩
    · simp at h0
    · obtain ⟨rid, r, hr, hx⟩ := (mem_offers h).mp hx
      exact ⟨rid, r, x, hr, hx, hxf, rfl⟩

/-- A contender is the flow on file under its id. -/
theorem FlowsKeyed.contender_eq {g : Governor} (h : g.FlowsKeyed) {rid : ResourceId}
    {f f' : FlowRT} {fid : FlowId} (hf' : f' ∈ g.contenders rid) (hid : f'.spec.id = fid)
    (hf : g.flows.find? fid = some f) : f' = f := by
  obtain ⟨e, he, rfl⟩ := List.mem_map.mp (List.mem_of_mem_filter hf')
  have hkey := Table.find?_of_mem (k := e.1) (v := e.2) he
  rw [← h e.1 e.2 hkey, hid, hf] at hkey
  exact (Option.some.inj hkey).symm

theorem forall₂_offer {R : ℚ → AllocEntry → Prop} {rates : List ℚ} {entries : List AllocEntry}
    (h : List.Forall₂ R rates entries) {e : AllocEntry} {v : ℚ} (hx : (e, v) ∈ entries.zip rates) :
    R v e := by
  refine List.forall₂_zip h ?_
  rw [← List.zip_swap]
  exact List.mem_map.mpr ⟨_, hx, rfl⟩

/-- Grants lie between zero and the preferred rate. -/
theorem grantOf_mem {g : Governor} (hk : g.FlowsKeyed) (he : g.Enveloped) (t : ℚ) {fid : FlowId}
    {f : FlowRT} (hf : g.flows.find? fid = some f) :
    0 ≤ g.grantOf t fid ∧ g.grantOf t fid ≤ f.spec.requestedPreferred.value := by
  rcases grantOf_cases hk t fid with ⟨-, h0⟩ | ⟨rid, r, ⟨e, v⟩, -, hx, hxf, hxg⟩
  · rw [h0]; exact ⟨le_refl _, f.spec.requestedPreferred.nonneg⟩
  · obtain ⟨f', hf', rfl⟩ := List.mem_map.mp (List.of_mem_zip hx).1
    have hff : f' = f := hk.contender_eq hf' hxf hf
    rw [← hxg, ← hff]
    exact forall₂_offer (ratesOn_allotment he t rid r).each hx

end Governor

end BG
