import Mathlib
import BandwidthGovernor.Governor.Writes
import BandwidthGovernor.Governor.Fences
import BandwidthGovernor.Persist.RoundTrip

/-! Releasing reservations after a load.

    `release_reservation` refuses the four ended states, the transition table allows Released from
    Active only, and `release_reservation_internal` ignores a refused transition. A blob may hold
    Pending reservations, for which the three disagree: they are reported as released and stay
    Pending. Without them a release happens once, from any blob. -/

namespace BG

open Lib

/-- The reservation can no longer be released. -/
def isEnded (s : Coded ReservationState) : Bool :=
  decide (s = .named .released) || decide (s = .named .cancelled) ||
    decide (s = .named .expired) || decide (s = .named .failed)

/-! ### What a release does -/

namespace View
variable {v : View}

/-- Every reservation is Active or ended. -/
def Settled (v : View) : Prop := ∀ rid rsv, v.reservations rid = some rsv →
  rsv.state = .named .active ∨ isEnded rsv.state = true

theorem Settled.release (h : v.Settled) (rid : ReservationId) : (v.release rid).Settled := by
  intro x rsv hx
  obtain ⟨rsv₀, h₀, rfl | ⟨-, rfl⟩⟩ := release_reservations v rid hx
  · exact h x rsv h₀
  · exact Or.inr rfl

/-- A released reservation has ended. -/
theorem Settled.released (h : v.Settled) {rid : ReservationId} {rsv : Reservation}
    (hr : (v.release rid).reservations rid = some rsv) : isEnded rsv.state = true := by
  obtain ⟨rsv₀, h₀, he⟩ := release_reservations v rid hr
  rcases h rid rsv₀ h₀ with hact | hend
  · rw [release_active v h₀ hact, Option.some.injEq] at hr
    rw [← hr]
    rfl
  · rcases he with rfl | ⟨-, rfl⟩
    · exact hend
    · rfl

theorem Settled.releasedOf (h : v.Settled) {f : FlowRT} {rid : ReservationId} {rsv : Reservation}
    (hf : f.reservation = some rid) (hr : (v.releaseOf f).reservations rid = some rsv) :
    isEnded rsv.state = true := by
  unfold releaseOf at hr
  rw [hf] at hr
  exact h.released hr

/-- An ended reservation is not written again by a release. -/
theorem release_ended (rid : ReservationId) {x : ReservationId} {rsv : Reservation}
    (h : v.reservations x = some rsv)
    (he : isEnded rsv.state = true) :
    ∃ rsv', (v.release rid).reservations x = some rsv' ∧ isEnded rsv'.state = true := by
  obtain ⟨rsv', hr', -⟩ := release_keeps v rid h
  refine ⟨rsv', hr', ?_⟩
  obtain ⟨rsv₀, h₀, rfl | ⟨-, rfl⟩⟩ := release_reservations v rid hr'
  · rw [h, Option.some.injEq] at h₀
    exact h₀ ▸ he
  · rfl

end View

namespace Governor
variable {g : Governor}

/-- The guard of `release_reservation`. -/
theorem releaseReservation_true {id : ReservationId} {g' : Governor}
    (h : g.releaseReservation id = (g', true)) : ∃ rsv, g.reservations.find? id = some rsv ∧
      isEnded rsv.state = false ∧ g'.view = g.view.release id := by
  unfold releaseReservation at h
  cases hr : g.reservations.find? id with
  | none => rw [hr] at h; cases h
  | some rsv =>
    simp only [hr] at h
    split at h
    · cases h
    · rename_i hs
      refine ⟨rsv, rfl, ?_, ?_⟩
      · simpa [isEnded, not_or, and_assoc] using hs
      · rw [← (Prod.mk.inj h).1]
        simp

theorem releaseReservation_of_ended {id : ReservationId} {rsv : Reservation}
    (hr : g.reservations.find? id = some rsv) (he : isEnded rsv.state = true) :
    (g.releaseReservation id).2 = false := by
  unfold releaseReservation
  rw [hr]
  dsimp only
  rw [if_pos]
  simpa [isEnded, or_assoc] using he

/-- A reservation that is neither Active nor ended is reported as released, and left as it is. -/
theorem releaseReservation_unsettled {id : ReservationId} {rsv : Reservation}
    (hr : g.reservations.find? id = some rsv) (hact : rsv.state ≠ .named .active)
    (he : isEnded rsv.state = false) :
    ∃ g', g.releaseReservation id = (g', true) ∧ g'.reservations.find? id = some rsv := by
  have htrans : reservationTransition rsv.state (.named .released) = none := by
    unfold reservationTransition
    rw [if_neg fun h => by rw [h] at he; cases he]
    cases hs : rsv.state with
    | unnamed c hc => rfl
    | named s =>
      rw [hs] at hact he
      cases s with
      | pending => rfl
      | active => exact absurd rfl hact
      | _ => cases he
  have hinternal : g.releaseReservationInternal id = g := by
    unfold releaseReservationInternal
    rw [hr]
    simp only [htrans]
  have hguard : ¬ (rsv.state = .named .released ∨ rsv.state = .named .cancelled ∨
      rsv.state = .named .expired ∨ rsv.state = .named .failed) := by
    simpa [isEnded, not_or, and_assoc] using he
  refine ⟨g.recomputeReserved.recomputeSaturation, ?_, hr⟩
  unfold releaseReservation
  rw [hr]
  simp only [if_neg hguard, hinternal]

/-! ### Identities that are not minted again -/

/-- No reservation on file has an id that is still to be minted before the counter wraps. -/
def SpentIds (g : Governor) : Prop := ∀ rid rsv k, g.reservations.find? rid = some rsv →
  g.gen.calls ≤ k → k < 2 ^ 64 → g.gen.mintedAt k ≠ rid

/-- The reservation has ended. -/
def HasEnded (g : Governor) (rid : ReservationId) : Prop :=
  ∃ rsv, g.reservations.find? rid = some rsv ∧ isEnded rsv.state = true

end Governor

section Writes
variable {op : Op} {g g' : Governor}

theorem Write.settled (hw : Write op g g') (h : g.view.Settled) : g'.view.Settled := by
  cases hw with
  | rest _ _ _ hr =>
    intro rid rsv hx
    rw [Governor.view_reservations, hr] at hx
    exact h rid rsv hx
  | file rsv hm =>
    intro x rsv' hx
    rw [Governor.view_fileReservation] at hx
    rcases View.file_cases hx with ⟨-, rfl⟩ | hx
    · exact Or.inl hm.state
    · exact h x rsv' hx
  | release rid =>
    rw [Governor.view_releaseReservationInternal]
    exact h.release rid
  | _ => exact h

theorem Write.gen (hw : Write op g g') : g'.gen.rng = g.gen.rng ∧ g'.gen.salt = g.gen.salt ∧
    g.gen.calls ≤ g'.gen.calls := by
  cases hw with
  | rest _ _ _ _ hgen => rw [hgen]; exact ⟨rfl, rfl, le_refl _⟩
  | draw => exact ⟨rfl, rfl, Nat.le_succ _⟩
  | file => exact ⟨rfl, rfl, Nat.le_succ _⟩
  | release rid =>
    rw [← Governor.view_gen, Governor.view_releaseReservationInternal,
      (View.release_rest _ rid).2.2.2.1]
    exact ⟨rfl, rfl, le_refl _⟩
  | _ => exact ⟨rfl, rfl, le_refl _⟩

/-- The reservations on file after a write: those before it, released or not, and a minted one. -/
theorem Write.reservations (hw : Write op g g') {rid : ReservationId} {rsv : Reservation}
    (hr : g'.reservations.find? rid = some rsv) :
    (∃ rsv₀, g.reservations.find? rid = some rsv₀ ∧ rsv = { rsv₀ with state := rsv.state }) ∨
      rid = g.gen.next.1 ∧ rsv.id = rid ∧ g'.gen = g.gen.drawn ∧ g.Issues op rsv.attempt := by
  cases hw with
  | rest _ _ _ h => exact Or.inl ⟨rsv, h ▸ hr, rfl⟩
  | file rsv' hm hi =>
    have hr' : (g.view.file rsv').reservations rid = some rsv := by
      rw [← Governor.view_fileReservation]
      exact hr
    rcases View.file_cases hr' with ⟨hid, rfl⟩ | hx
    · exact Or.inr ⟨hid.trans hm.id, hid.symm, rfl, hi⟩
    · exact Or.inl ⟨rsv, hx, rfl⟩
  | release x =>
    have hr' : (g.view.release x).reservations rid = some rsv := by
      rw [← Governor.view_releaseReservationInternal]
      exact hr
    obtain ⟨rsv₀, h₀, rfl | ⟨-, rfl⟩⟩ := View.release_reservations _ _ hr'
    · exact Or.inl ⟨rsv, h₀, rfl⟩
    · exact Or.inl ⟨rsv₀, h₀, rfl⟩
  | _ => exact Or.inl ⟨rsv, hr, rfl⟩

theorem Write.spentIds (hw : Write op g g') (hc : g'.gen.calls ≤ 2 ^ 64) (h : g.SpentIds) :
    g'.SpentIds := by
  obtain ⟨hrng, hsalt, hcalls⟩ := hw.gen
  have hat : ∀ k, (g'.gen.mintedAt k : ReservationId) = g.gen.mintedAt k := fun k => by
    simp only [IdGen.mintedAt, IdGen.idAt, hrng, hsalt]
  intro rid rsv k hr hk hlt
  rw [hat]
  rcases hw.reservations hr with ⟨rsv₀, h₀, -⟩ | ⟨hid, -, hgen, -⟩
  · exact h rid rsv₀ k h₀ (hcalls.trans hk) hlt
  · intro he
    have hone : g'.gen.calls = g.gen.calls + 1 := congrArg IdGen.calls hgen
    have hnext : (g.gen.mintedAt g.gen.calls : ReservationId) = g.gen.next.1 := rfl
    have := IdGen.mintedAt_inj hlt (by omega) (he.trans (hid.trans hnext.symm))
    omega

/-- Until the counter wraps, an ended reservation stays ended. -/
theorem Write.hasEnded (hw : Write op g g') (hc : g'.gen.calls ≤ 2 ^ 64) (hs : g.SpentIds)
    {rid : ReservationId} (h : g.HasEnded rid) : g'.HasEnded rid := by
  obtain ⟨rsv, hr, he⟩ := h
  cases hw with
  | rest _ _ _ hrs => exact ⟨rsv, hrs ▸ hr, he⟩
  | file rsv' hm =>
    have hcalls : g.gen.calls < 2 ^ 64 := hc
    have hne : rid ≠ rsv'.id := fun hid =>
      hs rid rsv g.gen.calls hr (le_refl _) hcalls (hm.id.symm.trans hid.symm)
    exact ⟨rsv, (Table.find?_insert_ne hne).trans hr, he⟩
  | release x =>
    obtain ⟨rsv', hr', he'⟩ := View.release_ended (v := g.view) x hr he
    rw [← Governor.view_releaseReservationInternal] at hr'
    exact ⟨rsv', hr', he'⟩
  | _ => exact ⟨rsv, hr, he⟩

end Writes

/-! ### Runs from a loaded state -/

namespace Governor
variable {g g' : Governor}

/-- A successful cancellation writes the flow and releases its reservation. -/
theorem cancelFlow_true {fid : FlowId} {reason : Str}
    (h : g.cancelFlow fid reason = .ok (g', true)) :
    ∃ f, g'.view = (g.view.setFlow fid f).releaseOf f := by
  unfold cancelFlow at h
  cases hf : g.flows.find? fid with
  | none => rw [hf] at h; cases h
  | some f =>
    simp only [hf] at h
    split at h
    · cases h
    · split at h
      · cases h
      · rename_i f' hset
        rw [← (Prod.mk.inj (Except.ok.inj h)).1]
        exact ⟨{ f' with lastError := reason }, by simp⟩

/-- So does a successful completion. -/
theorem reportCompletion_true {fid : FlowId} {attempt : AttemptId} {fgen : FlowGeneration}
    {boot : WorkerBootId} {bytes : UInt64}
    (h : g.reportCompletion fid attempt fgen boot bytes = .ok (g', true)) :
    ∃ f, g'.view = (g.view.setFlow fid f).releaseOf f := by
  unfold reportCompletion at h
  cases hf : g.flows.find? fid with
  | none => rw [hf] at h; cases h
  | some f =>
    simp only [hf] at h
    split at h
    · split at h
      · cases h
      · rename_i f' hset
        rw [← (Prod.mk.inj (Except.ok.inj h)).1]
        exact ⟨{ f' with lastMs := g.now }, by simp⟩
    · cases h

/-- The reservation of a flow that was written and released has ended. -/
theorem ended_of_released {fid : FlowId} {f : FlowRT} (hs : g.view.Settled)
    (hg : g'.view = (g.view.setFlow fid f).releaseOf f) {f' : FlowRT} {rid : ReservationId}
    {rsv : Reservation} (hf : g'.flows.find? fid = some f') (hr : f'.reservation = some rid)
    (hrsv : g'.reservations.find? rid = some rsv) : isEnded rsv.state = true := by
  rw [← view_flows, hg, View.releaseOf_flows, View.setFlow_self, Option.some.injEq] at hf
  rw [← view_reservations, hg] at hrsv
  exact View.Settled.releasedOf (v := g.view.setFlow fid f) hs (hf ▸ hr) hrsv

/-- What a release, a cancellation and a completion achieve in a state, whatever follows. -/
structure ReleasesOnce (g : Governor) : Prop where
  released : ∀ id g', g.releaseReservation id = (g', true) →
    ∃ rsv, g'.reservations.find? id = some rsv ∧ rsv.state = .named .released
  once : ∀ id g', g.releaseReservation id = (g', true) → ∀ es h, (∀ e ∈ es, e.live = true) →
    Lib.Run Governor.Step g' es h → h.gen.calls ≤ 2 ^ 64 → (h.releaseReservation id).2 = false
  cancelled : ∀ fid reason g', g.cancelFlow fid reason = .ok (g', true) → ∀ f rid rsv,
    g'.flows.find? fid = some f → f.reservation = some rid →
    g'.reservations.find? rid = some rsv → isEnded rsv.state = true
  completed : ∀ fid attempt fgen boot bytes g',
    g.reportCompletion fid attempt fgen boot bytes = .ok (g', true) → ∀ f rid rsv,
    g'.flows.find? fid = some f → f.reservation = some rid →
    g'.reservations.find? rid = some rsv → isEnded rsv.state = true

theorem SpentIds.rehash (h : g.SpentIds) (hr : g.Rehashed g') : g'.SpentIds := by
  have hv := hr.view
  intro rid rsv k hrsv hk
  rw [← view_reservations, hv] at hrsv
  rw [← view_gen, hv] at hk ⊢
  exact h rid rsv k hrsv hk

theorem HasEnded.rehash {rid : ReservationId} (h : g.HasEnded rid) (hr : g.Rehashed g') :
    g'.HasEnded rid := by
  obtain ⟨rsv, hrsv, he⟩ := h
  exact ⟨rsv, (congrFun (congrArg View.reservations hr.view) rid).trans hrsv, he⟩

/-- Once ended, a reservation stays so until the counter wraps. -/
theorem HasEnded.run {rid : ReservationId} {es : List Event} (h : g.HasEnded rid) (hs : g.SpentIds)
    (hrun : Lib.Run Governor.Step g es g') (hlive : ∀ e ∈ es, e.live = true)
    (hc : g'.gen.calls ≤ 2 ^ 64) : g'.HasEnded rid := by
  refine (run_live (P := fun g => g.gen.calls ≤ 2 ^ 64 → g.SpentIds ∧ g.HasEnded rid)
    (fun op g g' hw hP hc => ?_) (fun g h hr hP hc => ?_) hrun hlive (fun _ => ⟨hs, h⟩) hc).2
  · obtain ⟨hs, he⟩ := hP (hw.gen.2.2.trans hc)
    exact ⟨hw.spentIds hc hs, hw.hasEnded hc hs he⟩
  · have hgen : h.gen = g.gen := congrArg View.gen hr.view
    obtain ⟨hs, he⟩ := hP (hgen ▸ hc)
    exact ⟨hs.rehash hr, he.rehash hr⟩

theorem releasesOnce_of_settled (h : g.view.Settled) (hs : g.SpentIds) : g.ReleasesOnce := by
  have hrel : ∀ id g', g.releaseReservation id = (g', true) →
      ∃ rsv, g'.reservations.find? id = some rsv ∧ rsv.state = .named .released := by
    intro id g' hrel
    obtain ⟨rsv, hr, he, hg'⟩ := releaseReservation_true hrel
    have hact : rsv.state = .named .active := (h id rsv hr).resolve_right fun hend => by
      rw [he] at hend
      cases hend
    exact ⟨_, (congrFun (congrArg View.reservations hg') id).trans
      (View.release_active g.view hr hact), rfl⟩
  refine ⟨hrel, fun id g' hok es k hlive hrun hc => ?_, fun fid reason g' hok f rid rsv => ?_,
    fun fid attempt fgen boot bytes g' hok f rid rsv => ?_⟩
  · obtain ⟨rsv, hr, hstate⟩ := hrel id g' hok
    have hended : g'.HasEnded id := ⟨rsv, hr, by rw [hstate]; rfl⟩
    obtain ⟨rsv₀, hr₀, -, hg'⟩ := releaseReservation_true hok
    have hgen : g'.gen = g.gen :=
      (congrArg View.gen hg').trans (View.release_rest g.view id).2.2.2.1
    have hs' : g'.SpentIds := fun x y n hx hn => by
      rw [hgen] at hn ⊢
      rw [← view_reservations, hg'] at hx
      obtain ⟨y₀, hy₀, -⟩ := View.release_reservations _ _ hx
      exact hs x y₀ n hy₀ hn
    obtain ⟨rsv', hr', he'⟩ := hended.run hs' hrun hlive hc
    exact releaseReservation_of_ended hr' he'
  · obtain ⟨f', hg'⟩ := cancelFlow_true hok
    exact ended_of_released h hg'
  · obtain ⟨f', hg'⟩ := reportCompletion_true hok
    exact ended_of_released h hg'

end Governor

/-- Releases after a load. From any accepted blob, in every run that follows, a release is reported
    once and leaves the reservation Released, and cancellations and completions end theirs, exactly
    when the loaded reservations are all Active or ended (as long as no id on file is minted
    again). -/
theorem releases_once_iff {h g : Governor} {data : Bytes} (_hload : h.load data = .ok g)
    (hspent : g.SpentIds) (hcalls : g.gen.calls ≤ 2 ^ 64) :
    (∀ es g', (∀ e ∈ es, e.live = true) → Lib.Run Governor.Step g es g' →
      g'.gen.calls ≤ 2 ^ 64 → g'.ReleasesOnce) ↔
    ∀ rid rsv, g.reservations.find? rid = some rsv →
      rsv.state = .named .active ∨ isEnded rsv.state = true := by
  constructor
  · intro hall rid rsv hr
    by_contra hbad
    obtain ⟨hact, he⟩ := not_or.mp hbad
    rw [Bool.not_eq_true] at he
    obtain ⟨g', hok, hsame⟩ := Governor.releaseReservation_unsettled hr hact he
    obtain ⟨rsv', hr', hstate⟩ := (hall [] g (by simp) (.nil g) hcalls).released rid g' hok
    rw [hsame, Option.some.injEq] at hr'
    rw [hr', hstate] at he
    cases he
  · intro hset es g' hlive hrun hc
    obtain ⟨hset', hspent'⟩ := run_live
      (P := fun g => g.view.Settled ∧ (g.gen.calls ≤ 2 ^ 64 → g.SpentIds))
      (fun op g g' hw hP => ⟨hw.settled hP.1, fun hc =>
        hw.spentIds hc (hP.2 (hw.gen.2.2.trans hc))⟩)
      (fun g h hr hP => ⟨fun rid rsv hx => hP.1 rid rsv (by rw [← hr.view]; exact hx),
        fun hc => (hP.2 ((congrArg (fun v => v.gen.calls) hr.view) ▸ hc)).rehash hr⟩)
      hrun hlive ⟨hset, fun _ => hspent⟩
    exact Governor.releasesOnce_of_settled hset' (hspent' hc)

namespace Sample

/-- What was encoded is decoded as it was. -/
theorem decodes {s : GovernorSnapshot} (hd : s.Doubles) (hok : s.Storable) (hstr : s.ShortStrings)
    (hk : s.Keyed) (hlen : ∀ payload, encodePayload s = .ok payload → payload.length ≤ 2 ^ 30) :
    ∃ data, decodeSnapshot data = .ok { s with
      formatVersion := kFormatVersion, flows := s.flows.map FlowSnapshot.unassigned } := by
  obtain ⟨payload, hp⟩ := encodePayload_ok hstr
  obtain ⟨data, -, hread, -⟩ := decodeSnapshot_encodeSnapshot hp (hlen payload hp)
  rw [GovernorSnapshot.stored_eq hd hk] at hread
  exact ⟨data, hread hok⟩

/-- What is saved can be loaded. -/
theorem loads (h : Governor) {s : GovernorSnapshot} (hd : s.Doubles) (hok : s.Storable)
    (hstr : s.ShortStrings) (hk : s.Keyed)
    (hlen : ∀ payload, encodePayload s = .ok payload → payload.length ≤ 2 ^ 30) :
    ∃ data, h.load data = .ok (h.restore { s with
      formatVersion := kFormatVersion, flows := s.flows.map FlowSnapshot.unassigned }) := by
  obtain ⟨data, hdec⟩ := decodes hd hok hstr hk hlen
  refine ⟨data, ?_⟩
  simp only [Governor.load, hdec]
  rfl

/-- The sample snapshot, loaded into a fresh coordinator. -/
def loaded : Governor := start.restore { snapshot with
  formatVersion := kFormatVersion, flows := snapshot.flows.map FlowSnapshot.unassigned }

theorem loaded_reservations {rid : ReservationId} {rsv : Reservation}
    (h : loaded.reservations.find? rid = some rsv) :
    rid = ⟨0, 9⟩ ∧ rsv.state = .named .active := by
  obtain ⟨r, hr, hid, rfl⟩ := Table.ofList_find? h
  rw [List.mem_singleton.mp hr] at hid ⊢
  exact ⟨hid.symm, rfl⟩

/-- With salt 7 an id with high word zero could only be minted at one position. -/
theorem mintedAt_ne {t : IdTag} {n : UInt64} (hn : start.gen.rng (7 ^^^ n).toNat ≠ 0) {k : ℕ}
    (hk : k < 2 ^ 64) : (start.gen.mintedAt k : Id128 t) ≠ ⟨0, n⟩ := by
  intro he
  have hsalt : start.gen.salt = 7 := rfl
  simp only [IdGen.mintedAt, IdGen.idAt, hsalt, Id128.mk.injEq] at he
  obtain ⟨hhi, hlo⟩ := he
  rw [hhi] at hlo
  have hcount : UInt64.ofNat k = 7 ^^^ n := by
    have := congrArg (fun x => (7 : UInt64) ^^^ x) hlo
    simpa [← UInt64.xor_assoc] using this
  have hpos : k = (7 ^^^ n).toNat := by
    have := congrArg UInt64.toNat hcount
    rwa [UInt64.toNat_ofNat', Nat.mod_eq_of_lt hk] at this
  exact hn (hpos ▸ hhi)

/-- Reservation 9 has none of the ids the generator is still to mint. -/
theorem loaded_spent : loaded.SpentIds := by
  intro rid rsv k hr _ hk
  rw [(loaded_reservations hr).1]
  exact mintedAt_ne (by decide +kernel) hk

end Sample

/-- The theorem at the sample snapshot, right after the load. -/
theorem releases_once_iff_loaded : Sample.loaded.ReleasesOnce := by
  obtain ⟨data, hload⟩ := Sample.loads Sample.start Sample.snapshot_doubles Sample.snapshot_storable
    Sample.snapshot_shortStrings Sample.snapshot_keyed Sample.snapshot_payload
  have hcalls : Sample.loaded.gen.calls ≤ 2 ^ 64 := by decide +kernel
  exact (releases_once_iff (g := Sample.loaded) hload Sample.loaded_spent hcalls).mpr
    (fun rid rsv hr => Or.inl (Sample.loaded_reservations hr).2) [] _ (by simp) (.nil _) hcalls

namespace Sample

/-- The sample snapshot with its reservation Pending. -/
def pendingSnapshot : GovernorSnapshot :=
  { snapshot with
    reservations := snapshot.reservations.map fun r => { r with state := .named .pending } }

theorem pendingSnapshot_doubles : pendingSnapshot.Doubles where
  policy := snapshot_doubles.policy
  savedAtMs := snapshot_doubles.savedAtMs
  resources := snapshot_doubles.resources
  flows := snapshot_doubles.flows
  reservations := by unfold AllDouble; decide +kernel
  tenants := snapshot_doubles.tenants
  workloads := snapshot_doubles.workloads
  resourceState := snapshot_doubles.resourceState

theorem pendingSnapshot_storable : pendingSnapshot.Storable := by
  intro tag
  cases tag with
  | reservations => exact ⟨by decide, by unfold Reservation.Storable; decide, by decide⟩
  | policy => exact snapshot_storable .policy
  | coord => exact snapshot_storable .coord
  | resources => exact snapshot_storable .resources
  | paths => exact snapshot_storable .paths
  | flows => exact snapshot_storable .flows
  | tenants => exact snapshot_storable .tenants
  | workloads => exact snapshot_storable .workloads
  | resourceState => exact snapshot_storable .resourceState

theorem pendingSnapshot_payload (payload : Bytes)
    (h : encodePayload pendingSnapshot = .ok payload) : payload.length ≤ 2 ^ 30 := by
  have hlen : ∀ n ∈ (encodePayload pendingSnapshot).toOption.map List.length, n ≤ 1024 := by
    decide +kernel
  have := hlen payload.length (by simp [h, Except.toOption])
  omega

end Sample

/-- A blob with a Pending reservation: its release succeeds twice. -/
theorem pending_released_twice : ∃ data g g₁ g₂, Sample.start.load data = .ok g ∧
    g.releaseReservation ⟨0, 9⟩ = (g₁, true) ∧ g₁.releaseReservation ⟨0, 9⟩ = (g₂, true) := by
  have hs := Sample.snapshot_shortStrings
  have hk := Sample.snapshot_keyed
  obtain ⟨data, hload⟩ := Sample.loads Sample.start Sample.pendingSnapshot_doubles
    Sample.pendingSnapshot_storable ⟨hs.resources, hs.flows, hs.resourceState⟩
    ⟨hk.tenants, hk.workloads, hk.resourceState⟩ Sample.pendingSnapshot_payload
  obtain ⟨rsv, hr, hstate⟩ : ∃ rsv, (Sample.start.restore { Sample.pendingSnapshot with
      formatVersion := kFormatVersion
      flows :=
        Sample.pendingSnapshot.flows.map FlowSnapshot.unassigned }).reservations.find? ⟨0, 9⟩ =
        some rsv ∧ rsv.state = .named .pending := ⟨_, rfl, rfl⟩
  have hact : rsv.state ≠ .named .active := by rw [hstate]; decide
  have he : isEnded rsv.state = false := by rw [hstate]; rfl
  obtain ⟨g₁, h₁, hr₁⟩ := Governor.releaseReservation_unsettled hr hact he
  obtain ⟨g₂, h₂, -⟩ := Governor.releaseReservation_unsettled hr₁ hact he
  exact ⟨data, _, g₁, g₂, hload, h₁, h₂⟩

end BG
