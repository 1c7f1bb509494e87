import Mathlib
import BandwidthGovernor.Governor.Observation
import BandwidthGovernor.Persist.Releases

/-! Identities across a recovery.

    The generator is a function of its seed and the number of calls, and its position is not part of
    the saved state: a governor with the same salt starts over. Its mints after a load are new only
    when it has already drawn as many identities as the saved run had. -/

namespace BG

open Lib

/-! ### Identities from outside and in a state -/

/-- The reservation ids an event brings in. -/
def Event.BringsReservation : Event → ReservationId → Prop
  | .call (.restore snap), rid => (∃ r ∈ snap.reservations, r.id = rid) ∨
      ∃ f ∈ snap.flows, f.reservation = some rid
  | _, _ => False

/-- The attempt ids an event brings in. -/
def Event.BringsAttempt : Event → AttemptId → Prop
  | .call (.submitFlow spec), a => spec.attempt = a
  | .call (.restore snap), a => (∃ r ∈ snap.reservations, r.attempt = a) ∨
      ∃ f ∈ snap.flows, f.spec.attempt = a
  | _, _ => False

namespace Governor

/-- The reservation id occurs in the state. -/
def HoldsReservation (g : Governor) (rid : ReservationId) : Prop :=
  (∃ key rsv, g.reservations.find? key = some rsv ∧ (key = rid ∨ rsv.id = rid)) ∨
    ∃ fid f, g.flows.find? fid = some f ∧ f.reservation = some rid

/-- The attempt id occurs in the state. -/
def HoldsAttempt (g : Governor) (a : AttemptId) : Prop :=
  (∃ rid rsv, g.reservations.find? rid = some rsv ∧ rsv.attempt = a) ∨
    ∃ fid f, g.flows.find? fid = some f ∧ f.spec.attempt = a

/-- Every id of the state came from outside or was drawn. -/
structure Traced (R : ReservationId → Prop) (A : AttemptId → Prop) (g : Governor) : Prop where
  reservation : ∀ rid, g.HoldsReservation rid → R rid ∨ g.gen.Drew rid
  attempt : ∀ a, g.HoldsAttempt a → A a ∨ g.gen.Drew a

end Governor

/-! ### The generator along a run -/

/-- Two generators of one seed, the second at least as far. -/
structure IdGen.Precedes (a b : IdGen) : Prop where
  rng : b.rng = a.rng
  salt : b.salt = a.salt
  calls : a.calls ≤ b.calls

namespace IdGen
variable {a b c : IdGen}

theorem Precedes.refl (a : IdGen) : Precedes a a := ⟨rfl, rfl, le_refl _⟩

theorem Precedes.trans (h : Precedes a b) (h' : Precedes b c) : Precedes a c :=
  ⟨h'.rng.trans h.rng, h'.salt.trans h.salt, h.calls.trans h'.calls⟩

theorem mintedAt_congr {t : IdTag} (hrng : b.rng = a.rng) (hsalt : b.salt = a.salt) (k : ℕ) :
    (b.mintedAt k : Id128 t) = a.mintedAt k := by
  simp only [mintedAt, idAt, hrng, hsalt]

theorem Drew.mono {t : IdTag} {x : Id128 t} (h : a.Drew x) (hp : Precedes a b) : b.Drew x := by
  obtain ⟨k, hk, hx⟩ := h
  exact ⟨k, hk.trans_le hp.calls, hx.trans (mintedAt_congr hp.rng hp.salt k).symm⟩

/-- What was drawn before is not drawn again until the counter wraps. -/
theorem Drew.ne {t : IdTag} {x : Id128 t} (h : a.Drew x) (hrng : b.rng = a.rng)
    (hsalt : b.salt = a.salt) {j : ℕ} (hj : a.calls ≤ j) (hwrap : j < 2 ^ 64) :
    b.mintedAt j ≠ x := by
  obtain ⟨k, hk, rfl⟩ := h
  rw [mintedAt_congr hrng hsalt]
  intro he
  have := mintedAt_inj hwrap (by omega) he
  omega

end IdGen

theorem step_gen {g g' : Governor} {e : Event} (hs : g.Step e g') : g.gen.Precedes g'.gen := by
  refine step_writes_restore (P := fun x => g.gen.Precedes x.gen) (fun op x y hw h => ?_)
    (fun x y hr h => ?_) (fun x snap h => h) hs (.refl _)
  · obtain ⟨hrng, hsalt, hcalls⟩ := hw.gen
    exact h.trans ⟨hrng, hsalt, hcalls⟩
  · rw [show y.gen = x.gen from congrArg View.gen hr.view]
    exact h

theorem run_gen {g g' : Governor} {es : List Event} (hrun : Lib.Run Governor.Step g es g') :
    g.gen.Precedes g'.gen :=
  hrun.inv (P := fun x => g.gen.Precedes x.gen) (fun _ _ _ h hs => h.trans (step_gen hs)) (.refl _)

/-! ### Where the identities of a state come from -/

section Traced
variable {R : ReservationId → Prop} {A : AttemptId → Prop} {op : Op} {g g' : Governor}

/-- The flows on file after a write: edited ones, and a submitted one. -/
theorem Write.flows_cases (hw : Write op g g') {fid : FlowId} {f' : FlowRT}
    (hf : g'.flows.find? fid = some f') :
    (∃ f, g.flows.find? fid = some f ∧ FlowEdit g.gen f f') ∨
      op = .submitFlow f'.spec ∧ ∀ rid, f'.reservation = some rid → g.gen.Drew rid := by
  cases hw with
  | rest _ _ h => exact Or.inl ⟨f', h ▸ hf, .refl f'⟩
  | submit spec f hop _ hspec _ _ hres =>
    rw [Table.find?_insert] at hf
    split at hf
    · cases hf
      exact Or.inr ⟨hspec ▸ hop, hres⟩
    · exact Or.inl ⟨f', hf, .refl f'⟩
  | flows fs hfs => exact Or.inl (hfs fid f' hf)
  | release rid =>
    obtain ⟨rs, hrs⟩ := g.releaseReservationInternal_eq rid
    rw [hrs] at hf
    exact Or.inl ⟨f', hf, .refl f'⟩
  | _ => exact Or.inl ⟨f', hf, .refl f'⟩

theorem Write.traced (hw : Write op g g') (hA : ∀ spec, op = .submitFlow spec → A spec.attempt)
    (h : g.Traced R A) : g'.Traced R A := by
  have hgen : g.gen.Precedes g'.gen := ⟨hw.gen.1, hw.gen.2.1, hw.gen.2.2⟩
  have hR : ∀ rid, g.HoldsReservation rid → R rid ∨ g'.gen.Drew rid := fun rid hr =>
    (h.reservation rid hr).imp_right fun hd => hd.mono hgen
  have hA' : ∀ a, g.HoldsAttempt a → A a ∨ g'.gen.Drew a := fun a ha =>
    (h.attempt a ha).imp_right fun hd => hd.mono hgen
  constructor
  · rintro rid (⟨key, rsv, hr, hid⟩ | ⟨fid, f', hf, hres⟩)
    · rcases hw.reservations hr with ⟨rsv₀, h₀, he⟩ | ⟨hkey, hself, hdrawn, -⟩
      · refine hR rid (Or.inl ⟨key, rsv₀, h₀, hid.imp_right fun hid => ?_⟩)
        rw [he] at hid
        exact hid
      · have : key = rid := hid.elim id fun hid => hself.symm.trans hid
        rw [← this, hkey, hdrawn]
        exact Or.inr (IdGen.drew_next _)
    · rcases hw.flows_cases hf with ⟨f, hf₀, hedit⟩ | ⟨-, hdrew⟩
      · rcases hedit.reservation rid hres with hold | hdrew
        · exact hR rid (Or.inr ⟨fid, f, hf₀, hold⟩)
        · exact Or.inr (hdrew.mono hgen)
      · exact Or.inr ((hdrew rid hres).mono hgen)
  · rintro a (⟨rid, rsv, hr, rfl⟩ | ⟨fid, f', hf, rfl⟩)
    · rcases hw.reservations hr with ⟨rsv₀, h₀, he⟩ | ⟨-, -, -, hissue⟩
      · rw [he]
        exact hA' _ (Or.inl ⟨rid, rsv₀, h₀, rfl⟩)
      · rcases hissue with ⟨spec, hop, ha⟩ | ⟨fid, f, hf, ha⟩ | hdrew
        · exact Or.inl (ha ▸ hA spec hop)
        · exact hA' _ (Or.inr ⟨fid, f, hf, ha.symm⟩)
        · exact Or.inr (hdrew.mono hgen)
    · rcases hw.flows_cases hf with ⟨f, hf₀, hedit⟩ | ⟨hop, -⟩
      · rcases hedit.attempt with hold | hdrew
        · rw [hold]
          exact hA' _ (Or.inr ⟨fid, f, hf₀, rfl⟩)
        · exact Or.inr (hdrew.mono hgen)
      · exact Or.inl (hA _ hop)

theorem Traced.rehash (h : g.Traced R A) (hr : g.Rehashed g') : g'.Traced R A := by
  have hgen : g'.gen = g.gen := congrArg View.gen hr.view
  constructor
  · rintro rid (⟨key, rsv, hrsv, hid⟩ | ⟨fid, f, hf, hres⟩)
    · rw [hgen]
      exact h.reservation rid (Or.inl ⟨key, rsv, (hr.reservations.find? key).trans hrsv, hid⟩)
    · rw [hgen]
      exact h.reservation rid (Or.inr ⟨fid, f, (hr.flows.find? fid).trans hf, hres⟩)
  · rintro a (⟨rid, rsv, hrsv, ha⟩ | ⟨fid, f, hf, ha⟩)
    · rw [hgen]
      exact h.attempt a (Or.inl ⟨rid, rsv, (hr.reservations.find? rid).trans hrsv, ha⟩)
    · rw [hgen]
      exact h.attempt a (Or.inr ⟨fid, f, (hr.flows.find? fid).trans hf, ha⟩)

/-- A restored state holds the ids of the snapshot. -/
theorem restore_holds (g : Governor) (snap : GovernorSnapshot) :
    (∀ rid, (g.restore snap).HoldsReservation rid →
      (Event.call (.restore snap)).BringsReservation rid) ∧
    ∀ a, (g.restore snap).HoldsAttempt a → (Event.call (.restore snap)).BringsAttempt a := by
  constructor
  · rintro rid (⟨key, rsv, hr, hid⟩ | ⟨fid, f, hf, hres⟩)
    · obtain ⟨r, hmem, hkey, rfl⟩ := Table.ofList_find? hr
      exact Or.inl ⟨r, hmem, hid.elim (fun h => hkey.trans h) fun h => h⟩
    · obtain ⟨fs, hmem, -, rfl⟩ := Table.ofList_find? hf
      exact Or.inr ⟨fs, hmem, hres⟩
  · rintro a (⟨rid, rsv, hr, ha⟩ | ⟨fid, f, hf, ha⟩)
    · obtain ⟨r, hmem, -, rfl⟩ := Table.ofList_find? hr
      exact Or.inl ⟨r, hmem, ha⟩
    · obtain ⟨fs, hmem, -, rfl⟩ := Table.ofList_find? hf
      exact Or.inr ⟨fs, hmem, ha⟩

theorem step_traced {e : Event} (hs : g.Step e g') (hR : ∀ rid, e.BringsReservation rid → R rid)
    (hA : ∀ a, e.BringsAttempt a → A a) (h : g.Traced R A) : g'.Traced R A := by
  cases hs with
  | clock => exact ⟨h.reservation, h.attempt⟩
  | rehash hr => exact Traced.rehash h hr
  | call op =>
    cases hlive : (Event.call op).live with
    | true =>
      refine (apply_writes g hlive).inv (fun x y hw hx => hw.traced (fun spec hop => ?_) hx) h
      exact hA spec.attempt (by rw [hop]; rfl)
    | false =>
      cases op with
      | restore snap =>
        obtain ⟨hres, hatt⟩ := restore_holds g snap
        exact ⟨fun rid hr => Or.inl (hR rid (hres rid hr)), fun a ha => Or.inl (hA a (hatt a ha))⟩
      | _ => cases hlive

/-- In every run every id came in through an event of it or was drawn. -/
theorem run_traced {g₀ : Governor} {es : List Event} (hfresh : g₀.Fresh)
    (hrun : Lib.Run Governor.Step g₀ es g) :
    g.Traced (fun rid => ∃ e ∈ es, e.BringsReservation rid)
      fun a => ∃ e ∈ es, e.BringsAttempt a := by
  obtain ⟨hflows, hreservations, -, -⟩ := hfresh.view
  refine hrun.inv_of (Q := fun e => e ∈ es) (fun x e y he hx hs => ?_) (fun _ he => he) ⟨?_, ?_⟩
  · exact step_traced hs (fun rid hr => ⟨e, he, hr⟩) (fun a ha => ⟨e, he, ha⟩) hx
  · rintro rid (⟨key, rsv, hr, -⟩ | ⟨fid, f, hf, -⟩)
    · rw [← Governor.view_reservations, hreservations] at hr
      cases hr
    · rw [← Governor.view_flows, hflows] at hf
      cases hf
  · rintro a (⟨rid, rsv, hr, -⟩ | ⟨fid, f, hf, -⟩)
    · rw [← Governor.view_reservations, hreservations] at hr
      cases hr
    · rw [← Governor.view_flows, hflows] at hf
      cases hf

end Traced

/-! ### Loading what was saved -/

/-- What is saved and loads is loaded as it is stored. -/
theorem load_saved {g h h' : Governor} {blob : Bytes} (hsave : g.save = .ok blob)
    (hload : h.load blob = .ok h') :
    ∃ s, g.buildSnapshot = .ok s ∧ s.Storable ∧ h' = h.restore s.stored := by
  obtain ⟨s, hs, henc⟩ := Governor.bind_eq_ok hsave
  obtain ⟨payload, hp, henv⟩ := encodeSnapshot_eq_ok henc
  obtain ⟨snap, hdec, hrest⟩ := Governor.bind_eq_ok hload
  -- the length bound of the envelope reader bounds what was written
  have hlen : payload.length ≤ 2 ^ 30 := decodeSnapshot_length hdec henv
  rw [decodeSnapshot_of_envelope hlen henv] at hdec
  obtain ⟨hok, herr⟩ := decodePayload_encodePayload hp hlen
  by_cases hst : s.Storable
  · rw [hok hst, Except.ok.injEq] at hdec
    refine ⟨s, hs, hst, ?_⟩
    rw [hdec]
    exact (Except.ok.inj hrest).symm
  · obtain ⟨e, he⟩ := herr hst
    rw [he] at hdec
    cases hdec

theorem buildSnapshot_ids {g : Governor} {s : GovernorSnapshot} (h : g.buildSnapshot = .ok s) :
    s.reservations = g.reservations.vals ∧
      ∀ fs ∈ s.flows, ∃ f ∈ g.flows.vals, fs.spec = f.spec ∧ fs.reservation = f.reservation := by
  obtain ⟨rs, -, h⟩ := Governor.bind_eq_ok h
  obtain ⟨fs, hfs, h⟩ := Governor.bind_eq_ok h
  cases h
  refine ⟨rfl, fun x hx => ?_⟩
  obtain ⟨f, hf, hsnap⟩ := Governor.mapM_mem hfs x hx
  obtain ⟨c, -, hsnap⟩ := Governor.bind_eq_ok hsnap
  cases hsnap
  exact ⟨f, hf, rfl, rfl⟩

/-- A loaded state holds no ids but those of the saved one. -/
theorem loaded_holds {g h h' : Governor} {blob : Bytes} (hsave : g.save = .ok blob)
    (hload : h.load blob = .ok h') : (∀ rid, h'.HoldsReservation rid → g.HoldsReservation rid) ∧
      ∀ a, h'.HoldsAttempt a → g.HoldsAttempt a := by
  obtain ⟨s, hs, -, rfl⟩ := load_saved hsave hload
  obtain ⟨hrs, hfs⟩ := buildSnapshot_ids hs
  obtain ⟨hres, hatt⟩ := restore_holds h s.stored
  have hreservation : ∀ r ∈ s.stored.reservations, ∃ key rsv, g.reservations.find? key = some rsv ∧
      r.id = rsv.id ∧ r.attempt = rsv.attempt := by
    intro r hr
    obtain ⟨rsv, hmem, rfl⟩ := List.mem_map.mp hr
    rw [hrs] at hmem
    obtain ⟨e, he, rfl⟩ := List.mem_map.mp hmem
    exact ⟨e.1, e.2, Table.find?_of_mem he, rfl, rfl⟩
  have hflow : ∀ x ∈ s.stored.flows, ∃ fid f, g.flows.find? fid = some f ∧
      x.reservation = f.reservation ∧ x.spec.attempt = f.spec.attempt := by
    intro x hx
    obtain ⟨fs, hmem, rfl⟩ := List.mem_map.mp hx
    obtain ⟨f, hf, hspec, hr⟩ := hfs fs hmem
    obtain ⟨e, he, rfl⟩ := List.mem_map.mp hf
    have hattempt : fs.spec.attempt = e.2.spec.attempt := congrArg FlowSpec.attempt hspec
    exact ⟨e.1, e.2, Table.find?_of_mem he, hr, hattempt⟩
  constructor
  · intro rid hr
    rcases hres rid hr with ⟨r, hmem, hid⟩ | ⟨fs, hmem, hid⟩
    · obtain ⟨key, rsv, hfind, he, -⟩ := hreservation r hmem
      exact Or.inl ⟨key, rsv, hfind, Or.inr (he.symm.trans hid)⟩
    · obtain ⟨fid, f, hfind, he, -⟩ := hflow fs hmem
      exact Or.inr ⟨fid, f, hfind, he.symm.trans hid⟩
  · intro a ha
    rcases hatt a ha with ⟨r, hmem, hid⟩ | ⟨fs, hmem, hid⟩
    · obtain ⟨key, rsv, hfind, -, he⟩ := hreservation r hmem
      exact Or.inl ⟨key, rsv, hfind, he.symm.trans hid⟩
    · obtain ⟨fid, f, hfind, -, he⟩ := hflow fs hmem
      exact Or.inr ⟨fid, f, hfind, he.symm.trans hid⟩

/-! ### After the load -/

/-- A reservation stays on file, but for its state, while its id is not minted again. -/
theorem Write.keeps_reservation {op : Op} {g g' : Governor} (hw : Write op g g')
    (hc : g'.gen.calls ≤ 2 ^ 64) (hs : g.SpentIds) {rid : ReservationId} {rsv : Reservation}
    (hr : g.reservations.find? rid = some rsv) :
    ∃ s, g'.reservations.find? rid = some { rsv with state := s } := by
  cases hw with
  | rest _ _ _ hrs => exact ⟨rsv.state, hrs ▸ hr⟩
  | file rsv' hm =>
    have hcalls : g.gen.calls < 2 ^ 64 := hc
    have hne : rid ≠ rsv'.id := fun hid =>
      hs rid rsv g.gen.calls hr (le_refl _) hcalls (hm.id.symm.trans hid.symm)
    exact ⟨rsv.state, (Table.find?_insert_ne hne).trans hr⟩
  | release x =>
    obtain ⟨rsv', hr', -⟩ := View.release_keeps g.view x hr
    obtain ⟨rsv₀, h₀, he⟩ := View.release_reservations _ _ hr'
    rw [Governor.view_reservations, hr, Option.some.injEq] at h₀
    rw [← Governor.view_releaseReservationInternal] at hr'
    rcases he with rfl | ⟨-, rfl⟩
    · exact ⟨rsv'.state, h₀ ▸ hr'⟩
    · exact ⟨_, h₀ ▸ hr'⟩
  | _ => exact ⟨rsv.state, hr⟩

theorem run_keeps_reservation {g g' : Governor} {es : List Event}
    (hrun : Lib.Run Governor.Step g es g') (hlive : ∀ e ∈ es, e.live = true)
    (hc : g'.gen.calls ≤ 2 ^ 64) (hs : g.SpentIds) {rid : ReservationId} {rsv : Reservation}
    (hr : g.reservations.find? rid = some rsv) :
    ∃ s, g'.reservations.find? rid = some { rsv with state := s } := by
  refine (run_live (P := fun x => x.gen.calls ≤ 2 ^ 64 → x.SpentIds ∧
    ∃ s, x.reservations.find? rid = some { rsv with state := s }) (fun op x y hw hP hc => ?_)
    (fun x y hr hP hc => ?_) hrun hlive (fun _ => ⟨hs, rsv.state, hr⟩) hc).2
  · obtain ⟨hs, s, hs'⟩ := hP (hw.gen.2.2.trans hc)
    obtain ⟨s', hs''⟩ := hw.keeps_reservation hc hs hs'
    exact ⟨hw.spentIds hc hs, s', hs''⟩
  · obtain ⟨hs, s, hs'⟩ := hP ((congrArg (fun v => v.gen.calls) hr.view) ▸ hc)
    exact ⟨hs.rehash hr, s, (hr.reservations.find? rid).symm.trans hs'⟩

/-- The second governor is past the first: it has drawn at least as many identities, and none of
    those it is still to draw came into the first run from outside. -/
structure Ahead (es : List Event) (g h : Governor) : Prop where
  calls : g.gen.calls ≤ h.gen.calls
  reservations : ∀ e ∈ es, ∀ rid, e.BringsReservation rid → ∀ j, h.gen.calls ≤ j → j < 2 ^ 64 →
    h.gen.mintedAt j ≠ rid
  attempts : ∀ e ∈ es, ∀ a, e.BringsAttempt a → ∀ j, h.gen.calls ≤ j → j < 2 ^ 64 →
    h.gen.mintedAt j ≠ a

/-- From the loaded state `h` to `k` every identity drawn differs from all reservation and attempt
    ids of `h`, and the recovered reservations are still on file. -/
structure NeverReuses (h k : Governor) : Prop where
  reservations : ∀ j, h.gen.calls ≤ j → j < k.gen.calls → ∀ rid, h.HoldsReservation rid →
    k.gen.mintedAt j ≠ rid
  attempts : ∀ j, h.gen.calls ≤ j → j < k.gen.calls → ∀ a, h.HoldsAttempt a → k.gen.mintedAt j ≠ a
  kept : ∀ rid rsv, h.reservations.find? rid = some rsv →
    ∃ s, k.reservations.find? rid = some { rsv with state := s }

/-- Governors of one nonzero salt have one stream of identities. -/
theorem same_stream (entropy entropy' : UInt64) {config config' : GovernorConfig}
    (steady steady' : ℚ)
    (hsalt : config.idSalt ≠ 0) (hsame : config'.idSalt = config.idSalt) :
    (Governor.new entropy' config' steady').gen.rng = (Governor.new entropy config steady).gen.rng ∧
      (Governor.new entropy' config' steady').gen.salt =
        (Governor.new entropy config steady).gen.salt := by
  constructor
  · change Mt64.draw (if config'.idSalt = 0 then entropy' else config'.idSalt) =
      Mt64.draw (if config.idSalt = 0 then entropy else config.idSalt)
    rw [hsame, if_neg hsalt, if_neg hsalt]
  · exact hsame

/-- Identities are not reused across a recovery when the second governor is past the first. -/
theorem recovery_never_reuses {config config' : GovernorConfig} (hsalt : config.idSalt ≠ 0)
    (hsame : config'.idSalt = config.idSalt) {entropy entropy' : UInt64} {steady steady' : ℚ}
    {es es' fs : List Event} {g h h' k : Governor} {blob : Bytes}
    (hfirst : Lib.Run Governor.Step (.new entropy config steady) es g) (hsave : g.save = .ok blob)
    (hsecond : Lib.Run Governor.Step (.new entropy' config' steady') es' h)
    (hload : h.load blob = .ok h') (hahead : Ahead es g h) (hrun : Lib.Run Governor.Step h' fs k)
    (hlive : ∀ e ∈ fs, e.live = true) (hcalls : k.gen.calls ≤ 2 ^ 64) : NeverReuses h' k := by
  have htraced := run_traced ⟨entropy, config, steady, rfl⟩ hfirst
  obtain ⟨hrng₀, hsalt₀⟩ := same_stream entropy entropy' steady steady' hsalt hsame
  have hg := run_gen hfirst
  have hh := run_gen hsecond
  have hk := run_gen hrun
  obtain ⟨s, -, -, hrestored⟩ := load_saved hsave hload
  have hgen : h'.gen = h.gen := by rw [hrestored]; rfl
  rw [hgen] at hk
  have hrng : k.gen.rng = g.gen.rng := by rw [hk.rng, hh.rng, hrng₀, hg.rng]
  have hsalt' : k.gen.salt = g.gen.salt := by rw [hk.salt, hh.salt, hsalt₀, hg.salt]
  obtain ⟨hres, hatt⟩ := loaded_holds hsave hload
  have hreservations : ∀ j, h.gen.calls ≤ j → j < 2 ^ 64 → ∀ rid, h'.HoldsReservation rid →
      k.gen.mintedAt j ≠ rid := by
    intro j hj hwrap rid hr
    rcases htraced.reservation rid (hres rid hr) with ⟨e, he, hb⟩ | hdrew
    · rw [IdGen.mintedAt_congr hk.rng hk.salt]
      exact hahead.reservations e he rid hb j hj hwrap
    · exact hdrew.ne hrng hsalt' (hahead.calls.trans hj) hwrap
  refine ⟨fun j hj hlt => hreservations j (hgen ▸ hj) (by omega), fun j hj hlt a ha => ?_,
    fun rid rsv hr => ?_⟩
  · rw [hgen] at hj
    rcases htraced.attempt a (hatt a ha) with ⟨e, he, hb⟩ | hdrew
    · rw [IdGen.mintedAt_congr hk.rng hk.salt]
      exact hahead.attempts e he a hb j hj (by omega)
    · exact hdrew.ne hrng hsalt' (hahead.calls.trans hj) (by omega)
  · have hspent : h'.SpentIds := by
      intro x y j hx hj hwrap
      rw [hgen] at hj ⊢
      rw [← IdGen.mintedAt_congr hk.rng hk.salt]
      exact hreservations j hj hwrap x (Or.inl ⟨x, y, hx, Or.inl rfl⟩)
    exact run_keeps_reservation hrun hlive hcalls hspent hr

namespace Sample

/-- A run that admitted flow 1. -/
def saved : Governor := start.after (oneLink ++ [.submitFlow (flow 1 1 40 80 100)])

def savedSnapshot : GovernorSnapshot := saved.buildSnapshot.toOption.getD (.blank 1)

theorem saved_build : saved.buildSnapshot = .ok savedSnapshot := by
  have hsome : saved.buildSnapshot.toOption.isSome = true := by decide +kernel
  unfold savedSnapshot
  cases h : saved.buildSnapshot with
  | error e => rw [h] at hsome; cases hsome
  | ok s => rfl

theorem savedSnapshot_doubles : savedSnapshot.Doubles where
  policy := by unfold AllDouble; decide +kernel
  savedAtMs := by decide +kernel
  resources := by unfold AllDouble; decide +kernel
  flows := by unfold AllDouble; decide +kernel
  reservations := by unfold AllDouble; decide +kernel
  tenants := by unfold AllDouble; decide +kernel
  workloads := by unfold AllDouble; decide +kernel
  resourceState := by unfold AllDouble; decide +kernel

theorem savedSnapshot_storable : savedSnapshot.Storable := by
  intro tag
  have hd := savedSnapshot_doubles
  cases tag with
  | policy => exact hd.policy.finite
  | coord => exact hd.savedAtMs.finite
  | resources => exact ⟨by decide +kernel, by decide +kernel, by decide +kernel⟩
  | paths => exact ⟨by decide +kernel, by decide +kernel, by decide +kernel⟩
  | flows =>
    refine ⟨by decide +kernel, fun f hf => ⟨?_, (hd.flows f hf).1.finite⟩, by decide +kernel⟩
    revert f
    decide +kernel
  | reservations =>
    refine ⟨by decide +kernel, ?_, by decide +kernel⟩
    unfold Reservation.Storable
    decide +kernel
  | tenants => exact ⟨by decide +kernel, fun a ha => (hd.tenants a ha).finite⟩
  | workloads => exact ⟨by decide +kernel, fun a ha => (hd.workloads a ha).finite⟩
  | resourceState =>
    refine ⟨by decide +kernel, fun r hr => ⟨?_, (hd.resourceState r hr).1.finite⟩⟩
    revert r
    decide +kernel

/-- The run can be saved, and what was saved can be loaded. -/
theorem saved_loads : ∃ blob, saved.save = .ok blob ∧
    ∀ h : Governor, h.load blob = .ok (h.restore savedSnapshot.stored) := by
  have hsome : (encodePayload savedSnapshot).toOption.isSome = true := by decide +kernel
  have hlen : ∀ n ∈ (encodePayload savedSnapshot).toOption.map List.length, n ≤ 4096 := by
    decide +kernel
  cases hp : encodePayload savedSnapshot with
  | error e => rw [hp] at hsome; cases hsome
  | ok payload =>
    have hle : payload.length ≤ 2 ^ 30 := by
      have := hlen payload.length (by simp [hp, Except.toOption])
      omega
    obtain ⟨blob, henc, hdec, -⟩ := decodeSnapshot_encodeSnapshot hp hle
    refine ⟨blob, ?_, fun h => ?_⟩
    · simp only [Governor.save, saved_build]
      exact henc
    · simp only [Governor.load, hdec savedSnapshot_storable]
      rfl

/-- A governor of the same salt that has drawn one identity, for a link without a generation. -/
def late : Governor := start.after [.addResource { link 9 100 with generation := .null }]

theorem late_ahead :
    Ahead ((oneLink ++ [Op.submitFlow (flow 1 1 40 80 100)]).map Event.call) saved late := by
  refine ⟨by decide +kernel, fun e he rid hb => ?_, fun e he a hb j hj hwrap => ?_⟩
  · obtain ⟨op, hop, rfl⟩ := List.mem_map.mp he
    simp only [oneLink, List.cons_append, List.nil_append, List.mem_cons, List.not_mem_nil,
      or_false] at hop
    rcases hop with rfl | rfl | rfl <;> cases hb
  · obtain ⟨op, hop, rfl⟩ := List.mem_map.mp he
    simp only [oneLink, List.cons_append, List.nil_append, List.mem_cons, List.not_mem_nil,
      or_false] at hop
    rcases hop with rfl | rfl | rfl
    · cases hb
    · cases hb
    · have ha : a = ⟨0, 1⟩ := hb.symm
      have hne := mintedAt_ne (t := .attempt) (n := 1) (by decide +kernel) hwrap
      have hgen := IdGen.mintedAt_congr (t := .attempt) (a := start.gen) (b := late.gen) rfl rfl j
      rw [ha, hgen]
      exact hne

end Sample

/-- The theorem where the second governor has drawn one identity before the load and then admits
    flow 2. -/
theorem recovery_never_reuses_late : ∃ blob h', Sample.saved.save = .ok blob ∧
    Sample.late.load blob = .ok h' ∧
    NeverReuses h' (h'.apply (.submitFlow (Sample.flow 2 1 10 20 100))) := by
  obtain ⟨blob, hsave, hload⟩ := Sample.saved_loads
  refine ⟨blob, _, hsave, hload Sample.late, ?_⟩
  have hsalt : ({ idSalt := 7 } : GovernorConfig).idSalt ≠ 0 := by decide
  exact recovery_never_reuses hsalt rfl (Governor.run_after _ Sample.start) hsave
    (Governor.run_after _ Sample.start) (hload Sample.late) Sample.late_ahead
    (.single (.call _ _)) (by simp [Event.live]) (by decide +kernel)

/-- A fresh governor of the same salt: the first reservation it mints after the load, for flow 2,
    takes the id of the recovered reservation of flow 1 and overwrites it. -/
theorem recovered_reservation_overwritten : ∃ blob h' rid rsv rsv', Sample.saved.save = .ok blob ∧
    Sample.start.load blob = .ok h' ∧ h'.reservations.find? rid = some rsv ∧
    rsv.flow = ⟨0, 1⟩ ∧ h'.gen.next.1 = rid ∧
    (h'.apply (.submitFlow (Sample.flow 2 1 10 20 100))).reservations.find? rid = some rsv' ∧
    rsv'.flow = ⟨0, 2⟩ ∧
    ¬ NeverReuses h' (h'.apply (.submitFlow (Sample.flow 2 1 10 20 100))) := by
  obtain ⟨blob, hsave, hload⟩ := Sample.saved_loads
  have hold : ((Sample.start.restore Sample.savedSnapshot.stored).reservations.find?
      Sample.start.gen.next.1).map Reservation.flow = some ⟨0, 1⟩ := by decide +kernel
  have hnew : (((Sample.start.restore Sample.savedSnapshot.stored).apply
      (.submitFlow (Sample.flow 2 1 10 20 100))).reservations.find?
        Sample.start.gen.next.1).map Reservation.flow = some ⟨0, 2⟩ := by decide +kernel
  obtain ⟨rsv, hr, hflow⟩ := Option.map_eq_some_iff.mp hold
  obtain ⟨rsv', hr', hflow'⟩ := Option.map_eq_some_iff.mp hnew
  refine
    ⟨blob, _, _, rsv, rsv', hsave, hload Sample.start, hr, hflow, rfl, hr', hflow', fun h => ?_⟩
  obtain ⟨s, hkept⟩ := h.kept _ rsv hr
  rw [hr', Option.some.injEq] at hkept
  rw [hkept] at hflow'
  rw [hflow'] at hflow
  cases hflow

end BG
