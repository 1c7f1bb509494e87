import Mathlib
import BandwidthGovernor.Persist.Identities
import BandwidthGovernor.Transport.Decoders

/-! What `decode_snapshot` leaves unchecked.

    The readers check every field by itself. Whether the decoded flows and paths pass the checks of
    `submit_flow` and `add_path`, and whether the reservations the flows name are there, is decided
    by the records that stand in the bytes: `Holds` finds them, `Records.Linked` says what they have
    to satisfy. -/

namespace BG

open Lib

/-! ### Records as words -/

theorem getChecked_iff {E : Type} [Enumerators E] {last : UInt32} (h : Enumerated E last)
    {e : Error}
    {c : Coded E} {s s' : Bytes} : (getChecked last e).run s = .ok (c, s') ↔
      ∃ w : UInt32, s = u32Bytes w ++ s' ∧ c = Coded.ofCode w ∧ w ≤ last := by
  rw [checks_code h e s c s', getCode_iff]
  constructor
  · rintro ⟨⟨w, rfl, rfl⟩, hin⟩
    exact ⟨w, rfl, rfl, (Coded.inRange_ofCode h w).mp hin⟩
  · rintro ⟨w, rfl, rfl, hle⟩
    exact ⟨⟨w, rfl, rfl⟩, (Coded.inRange_ofCode h w).mpr hle⟩

def hopBytes (h : PathHop) : Bytes := idBytes h.resource ++ idBytes h.generation

theorem readHop_iff {h : PathHop} {s s' : Bytes} :
    readHop.run s = .ok (h, s') ↔ s = hopBytes h ++ s' := by
  simp only [readHop, run_bind_iff, getId_iff, run_pure_iff]
  constructor
  · rintro ⟨resource, _, rfl, generation, _, rfl, rfl, rfl⟩
    rw [hopBytes, List.append_assoc]
  · rintro rfl
    exact ⟨h.resource, _, by rw [hopBytes, List.append_assoc], h.generation, s', rfl, rfl, rfl⟩

def pathBytes (p : Path) : Bytes :=
  idBytes p.id ++ (idBytes p.pathGeneration ++ (u32Bytes (UInt32.ofNat p.hops.length) ++
    p.hops.flatMap hopBytes))

/-- A path record, to its last byte. -/
def PathLay (p : Path) (b : Bytes) : Prop := p.hops.length ≤ 256 ∧ b = pathBytes p

theorem lays_readPath : Lays PathLay Eq readPath where
  sound := by
    intro s p s' h
    obtain ⟨id, _, hid, h⟩ := run_bind_iff.mp h
    obtain ⟨generation, _, hgen, h⟩ := run_bind_iff.mp h
    obtain ⟨hops, _, hhops, h⟩ := run_bind_iff.mp h
    obtain ⟨rfl, rfl⟩ := run_pure_iff.mp h
    obtain rfl := getId_iff.mp hid
    obtain rfl := getId_iff.mp hgen
    obtain ⟨hcounted, hle⟩ := (checks_list readHop 256 _ _ _ _).mp hhops
    obtain ⟨n, _, hn, hmany⟩ := run_bind_iff.mp hcounted
    obtain rfl := getU32_iff.mp hn
    obtain ⟨rfl, hlen⟩ := (getMany_iff readHop_iff).mp hmany
    refine ⟨_, _, ?_, ⟨hle, rfl⟩, rfl⟩
    simp only [pathBytes, List.append_assoc, hlen, UInt32.ofNat_toNat]
  complete := by
    rintro p _ s' ⟨hle, rfl⟩
    refine ⟨p, ?_, rfl⟩
    have hn : (UInt32.ofNat p.hops.length).toNat = p.hops.length := u32_ofNat_toNat (by omega)
    have hmany : (getMany readHop (UInt32.ofNat p.hops.length).toNat).run
        (p.hops.flatMap hopBytes ++ s') = .ok (p.hops, s') :=
      (getMany_iff readHop_iff).mpr ⟨rfl, hn.symm⟩
    have hhops := (checks_list readHop 256 (.value "path has too many hops")
      (u32Bytes (UInt32.ofNat p.hops.length) ++ (p.hops.flatMap hopBytes ++ s')) p.hops s').mpr
      ⟨run_bind_iff.mpr ⟨_, _, getU32_iff.mpr rfl, hmany⟩, hle⟩
    simp only [readPath, pathBytes, List.append_assoc]
    exact run_bind_iff.mpr ⟨_, _, getId_iff.mpr rfl, run_bind_iff.mpr ⟨_, _, getId_iff.mpr rfl,
      run_bind_iff.mpr ⟨_, _, hhops, rfl⟩⟩⟩

/-- A presence byte and, unless it is zero, an identity. -/
def optBytes {t : IdTag} (present : UInt8) (v : Id128 t) : Bytes :=
  present :: if present = 0 then [] else idBytes v

/-- The identity behind a presence byte. -/
def named {t : IdTag} (present : UInt8) (v : Id128 t) : Option (Id128 t) :=
  if present = 0 then none else some v

theorem getOptId_iff {t : IdTag} {o : Option (Id128 t)} {s s' : Bytes} :
    getOptId.run s = .ok (o, s') ↔
      ∃ present v, s = optBytes present v ++ s' ∧ o = named present v := by
  simp only [getOptId, run_bind_iff, getBool_iff, optBytes, named]
  constructor
  · rintro ⟨_, s₁, ⟨b, rfl, rfl⟩, h⟩
    by_cases hb : b = 0
    · simp only [hb, ne_eq, not_true_eq_false, decide_false, Bool.false_eq_true, if_false,
        run_pure_iff] at h
      exact ⟨b, .null, by simp [hb, h.2], by simp [hb, h.1]⟩
    · simp only [hb, ne_eq, not_false_eq_true, decide_true, if_true, run_map_iff, getId_iff] at h
      obtain ⟨v, rfl, rfl⟩ := h
      exact ⟨b, v, by simp [hb], by simp [hb]⟩
  · rintro ⟨b, v, rfl, rfl⟩
    refine ⟨_, _, ⟨b, rfl, rfl⟩, ?_⟩
    by_cases hb : b = 0
    · simp only [hb, ne_eq, not_true_eq_false, decide_false, Bool.false_eq_true, if_false, if_true]
      rfl
    · simp only [hb, ne_eq, not_false_eq_true, decide_true, if_true, if_false]
      exact run_map_iff.mpr ⟨v, getId_iff.mpr rfl, rfl⟩

/-- The words of a flow snapshot. -/
structure FlowRecord where
  spec : FlowWords
  state : UInt32
  granted : UInt64
  admitted : UInt64
  updated : UInt64
  transferred : UInt64
  burst : UInt64
  retries : UInt64
  starvation : UInt64
  present : UInt8
  reservation : ReservationId
  lastError : Str

namespace FlowRecord

/-- What the reader checks, word by word. -/
structure Fit (w : FlowRecord) : Prop where
  spec : w.spec.Fit
  dir : w.spec.dir ≤ 1
  lat : w.spec.lat ≤ 2
  state : w.state ≤ 8
  granted : RateWord w.granted
  admitted : (Double.toRat? w.admitted).isSome
  updated : (Double.toRat? w.updated).isSome
  starvation : (Double.toRat? w.starvation).isSome
  lastError : ShortStr w.lastError

def encode (w : FlowRecord) : Bytes :=
  w.spec.encode ++ (u32Bytes w.state ++ (u64Bytes w.granted ++ (u64Bytes w.admitted ++
    (u64Bytes w.updated ++ (u64Bytes w.transferred ++ (u64Bytes w.burst ++ (u64Bytes w.retries ++
    (u64Bytes w.starvation ++ (optBytes w.present w.reservation ++ strBytes w.lastError)))))))))

/-- A flow snapshot, to its last byte. -/
def Lay (w : FlowRecord) (b : Bytes) : Prop := w.Fit ∧ b = w.encode

/-- The words are those of the snapshot. -/
structure Spells (f : FlowSnapshot) (w : FlowRecord) : Prop where
  spec : FlowWords.Spells f.spec w.spec
  reservation : f.reservation = named w.present w.reservation

end FlowRecord

theorem lays_readFlowSpec :
    Lays (fun w b => FlowWords.Lay w b ∧ w.dir ≤ 1 ∧ w.lat ≤ 2) FlowWords.Spells readFlowSpec := by
  refine lays_rSpec.checked checks_flowSpec fun {f w} h => ?_
  rw [h.dir, h.lat, Coded.inRange_ofCode enumerated_directionality,
    Coded.inRange_ofCode enumerated_latencyClass, and_true]

theorem lays_readReservation :
    Lays (fun w b => ReservationWords.Lay w b ∧ w.count ≤ 256 ∧ w.state ≤ 5)
      ReservationWords.Spells readReservation := by
  refine lays_rReservation.checked checks_reservation fun {r w} h => ?_
  rw [h.count, h.state, Coded.inRange_ofCode enumerated_reservationState, and_true,
    UInt32.le_iff_toNat_le]
  rfl

theorem lays_readFlowSnapshot : Lays FlowRecord.Lay FlowRecord.Spells readFlowSnapshot where
  sound := by
    intro s f s' h
    simp only [readFlowSnapshot, run_bind_iff, getChecked_iff enumerated_flowState, getCapacity_iff,
      getF64_iff, getU64_iff, getOptId_iff, getStr_iff, run_pure_iff] at h
    obtain ⟨spec, s₁, hspec, _, _, ⟨state, rfl, rfl, hstate⟩, c, _, ⟨granted, rfl, hc⟩, q₁, _,
      ⟨admitted, rfl, h₁⟩,
      q₂, _, ⟨updated, rfl, h₂⟩, transferred, _, rfl, burst, _, rfl, retries, _, rfl, q₃, _,
      ⟨starvation, rfl, h₃⟩, _, _, ⟨present, v, rfl, rfl⟩, err, _, ⟨rfl, herr⟩, rfl, rfl⟩ := h
    obtain ⟨w, _, rfl, ⟨⟨hfit, rfl⟩, hdir, hlat⟩, hspell⟩ := lays_readFlowSpec.sound hspec
    refine ⟨⟨w, state, granted, admitted, updated, transferred, burst, retries, starvation, present,
      v, err⟩, _, ?_, ⟨⟨hfit, hdir, hlat, hstate, ⟨c, hc⟩, Option.isSome_iff_exists.mpr ⟨q₁, h₁⟩,
      Option.isSome_iff_exists.mpr ⟨q₂, h₂⟩, Option.isSome_iff_exists.mpr ⟨q₃, h₃⟩, herr⟩, rfl⟩,
      ⟨hspell, rfl⟩⟩
    simp only [FlowRecord.encode, List.append_assoc]
  complete := by
    rintro w _ s' ⟨⟨hfit, hdir, hlat, hstate, ⟨c, hc⟩, h₁, h₂, h₃, herr⟩, rfl⟩
    obtain ⟨q₁, h₁⟩ := Option.isSome_iff_exists.mp h₁
    obtain ⟨q₂, h₂⟩ := Option.isSome_iff_exists.mp h₂
    obtain ⟨q₃, h₃⟩ := Option.isSome_iff_exists.mp h₃
    rw [FlowRecord.encode, List.append_assoc]
    obtain ⟨spec, hspec, hspell⟩ := lays_readFlowSpec.complete _ ⟨⟨hfit, rfl⟩, hdir, hlat⟩
    refine ⟨⟨spec, .ofCode w.state, c, q₁, q₂, w.transferred, w.burst, w.retries, q₃,
      named w.present w.reservation, none, .null, w.lastError⟩, ?_, ⟨hspell, rfl⟩⟩
    simp only [readFlowSnapshot, List.append_assoc, run_bind_iff, getCapacity_iff, getF64_iff,
      getChecked_iff enumerated_flowState, getU64_iff, getOptId_iff, getStr_iff,
          run_pure_iff] at hspec ⊢
    exact ⟨_, _, hspec, _, _, ⟨_, rfl, rfl, hstate⟩, _, _, ⟨_, rfl, hc⟩, _, _, ⟨_, rfl, h₁⟩, _, _,
      ⟨_, rfl, h₂⟩,
      _, _, rfl, _, _, rfl, _, _, rfl, _, _, ⟨_, rfl, h₃⟩, _, _, ⟨_, _, rfl, rfl⟩, _, _,
      ⟨rfl, herr⟩, rfl, rfl⟩

/-! ### Sections -/

section
variable {α ω : Type} {L : ω → Bytes → Prop} {rel : α → ω → Prop}

/-- A count and that many records. -/
def Counted (L : ω → Bytes → Prop) (ws : List ω) (body : Bytes) : Prop :=
  ∃ bs, List.Forall₂ L ws bs ∧ ws.length < 2 ^ 32 ∧
    body = u32Bytes (UInt32.ofNat ws.length) ++ bs.flatten

/-- The records in a body are those of the list. -/
structure Carries (L : ω → Bytes → Prop) (rel : α → ω → Prop) (body : Bytes) (l : List α) :
    Prop where
  found : ∃ ws, Counted L ws body
  words : ∀ ws, Counted L ws body → List.Forall₂ rel l ws

theorem getRecords_eq_ok {t : IdTag} {read : Source α} {key : α → Id128 t} {tooMany dup : String}
    {body s : Bytes} {l : List α} (hr : (getRecords read key tooMany dup).run body = .ok (l, s)) :
    (getList read kMaxList (.value tooMany)).run body = .ok (l, s) ∧ (l.map key).Nodup := by
  obtain ⟨n, s₁, hn, hrest⟩ := run_bind_iff.mp hr
  obtain ⟨hle, hrecs⟩ := require_bind_eq_ok hrest
  obtain ⟨hmany, -, hnd⟩ := getDistinct_eq_ok hrecs
  refine ⟨?_, hnd⟩
  rw [getList, run_bind_ok hn, run_bind_ok (run_require_true hle _ _), hmany]

theorem getList_carries {read : Source α} {bound : UInt32} {e : Error} {body : Bytes} {l : List α}
    (h : Lays L rel read) (hr : (getList read bound e).run body = .ok (l, [])) :
    Carries L rel body l := by
  obtain ⟨n, s, hn, hrest⟩ := run_bind_iff.mp hr
  obtain ⟨-, hrecs⟩ := require_bind_eq_ok hrest
  obtain rfl := getU32_iff.mp hn
  refine ⟨?_, ?_⟩
  · obtain ⟨ws, bs, rfl, hlen, hws, -⟩ := h.many_sound hrecs
    refine ⟨ws, bs, hws, hlen ▸ n.toNat_lt, ?_⟩
    rw [hlen, UInt32.ofNat_toNat, List.append_nil]
  · rintro ws ⟨bs, hws, hlt, heq⟩
    have hsame := getU32_iff.mpr heq
    rw [hn] at hsame
    cases hsame
    rw [u32_ofNat_toNat hlt, ← List.append_nil bs.flatten] at hrecs
    exact h.many_unique hws hrecs

end

def sectionBytes (x : SectionTag × Bytes) : Bytes :=
  x.1.code :: (u32Bytes (UInt32.ofNat x.2.length) ++ x.2)

theorem SectionTag.code_of_ofCode? {c : UInt8} {t : SectionTag} (h : ofCode? c = some t) :
    t.code = c := by
  simpa using List.find?_some h

/-- One turn of the loop takes one section. -/
theorem stepSections_eq_ok {seen seen' : List UInt8} {s s' : GovernorSnapshot} {b rest : Bytes}
    (h : (stepSections seen s).run b = .ok ((seen', s'), rest)) :
    ∃ t body, b = sectionBytes (t, body) ++ rest ∧ body.length < 2 ^ 32 ∧ t.code ∉ seen ∧
      seen' = t.code :: seen ∧ (readSection s t).run body = .ok (s', []) := by
  unfold stepSections at h
  obtain ⟨tag, _, htag, h₁⟩ := run_bind_iff.mp h
  obtain rfl := getU8_iff.mp htag
  obtain ⟨len, _, hlen, h₂⟩ := run_bind_iff.mp h₁
  obtain rfl := getU32_iff.mp hlen
  obtain ⟨left, _, hget, h₃⟩ := run_bind_iff.mp h₂
  cases hget
  obtain ⟨-, h₄⟩ := require_bind_eq_ok h₃
  obtain ⟨hseen, h₅⟩ := require_bind_eq_ok h₄
  rw [decide_eq_true_eq] at hseen
  obtain ⟨body, _, hbody, h₆⟩ := run_bind_iff.mp h₅
  obtain ⟨rfl, hblen⟩ := getBytes_iff.mp hbody
  cases ht : SectionTag.ofCode? tag with
  | none =>
    simp only [ht] at h₆
    cases h₆
  | some t =>
    simp only [ht] at h₆
    obtain ⟨⟨s₁, left⟩, _, hlift, h₇⟩ := run_bind_iff.mp h₆
    obtain ⟨hempty, h₈⟩ := require_bind_eq_ok h₇
    obtain ⟨hpair, rfl⟩ := run_pure_iff.mp h₈
    obtain ⟨rfl, rfl⟩ := Prod.mk.inj hpair
    have hcode := SectionTag.code_of_ofCode? ht
    cases hread : (readSection s t).run body with
    | error e =>
      rw [hread] at hlift
      cases hlift
    | ok x =>
      rw [hread] at hlift
      cases hlift
      obtain rfl : left = [] := List.isEmpty_iff.mp hempty
      refine ⟨t, body, ?_, hblen ▸ len.toNat_lt, hcode ▸ hseen, by rw [hcode], hread⟩
      simp only [sectionBytes, hcode, hblen, UInt32.ofNat_toNat, List.cons_append,
        List.append_assoc]

/-- The section's part of the snapshot is what the section decodes to. -/
def Decoded (s : GovernorSnapshot) : SectionTag × Bytes → Prop
  | (.policy, _) | (.coord, _) => True
  | (.resources, body) => ∃ m d,
    (getRecords readResourceSpec ResourceSpec.id m d).run body = .ok (s.resources, [])
  | (.paths, body) => ∃ m d, (getRecords readPath Path.id m d).run body = .ok (s.paths, [])
  | (.flows, body) => ∃ m d,
    (getRecords readFlowSnapshot (fun f => f.spec.id) m d).run body = .ok (s.flows, [])
  | (.reservations, body) => ∃ m d,
    (getRecords readReservation Reservation.id m d).run body = .ok (s.reservations, [])
  | (.tenants, body) => ∃ e l, (getList readTenantAcc kMaxList e).run body = .ok (l, []) ∧
    s.tenants = .ofList Accounting.owner id l
  | (.workloads, body) => ∃ e l, (getList readWorkloadAcc kMaxList e).run body = .ok (l, []) ∧
    s.workloads = .ofList Accounting.owner id l
  | (.resourceState, body) => ∃ e l,
    (getList readResourceSnapshot kMaxList e).run body = .ok (l, []) ∧
    s.resourceState = .ofList ResourceSnapshot.id id l

/-- A section decodes to its own part and leaves the others. -/
theorem readSection_decoded {s s' : GovernorSnapshot} {t : SectionTag} {body : Bytes}
    (h : (readSection s t).run body = .ok (s', [])) :
    Decoded s' (t, body) ∧ ∀ x : SectionTag × Bytes, x.1 ≠ t → Decoded s x → Decoded s' x := by
  have hkeep : (∀ x : SectionTag × Bytes, x.1 ≠ t → Decoded s x → Decoded s' x) ↔
      ∀ (u : SectionTag) (y : Bytes), u ≠ t → Decoded s (u, y) → Decoded s' (u, y) :=
    Prod.forall
  rw [hkeep]
  cases t with
  | policy =>
    obtain ⟨_, _, -, h⟩ := run_bind_iff.mp h
    obtain ⟨rfl, -⟩ := run_pure_iff.mp h
    exact ⟨trivial, fun u y _ hx => by cases u <;> exact hx⟩
  | coord =>
    obtain ⟨_, _, -, h⟩ := run_bind_iff.mp h
    obtain ⟨_, _, -, h⟩ := run_bind_iff.mp h
    obtain ⟨_, _, -, h⟩ := run_bind_iff.mp h
    obtain ⟨_, _, -, h⟩ := run_bind_iff.mp h
    obtain ⟨rfl, -⟩ := run_pure_iff.mp h
    exact ⟨trivial, fun u y _ hx => by cases u <;> exact hx⟩
  | _ =>
    obtain ⟨l, _, hl, h⟩ := run_bind_iff.mp h
    obtain ⟨rfl, rfl⟩ := run_pure_iff.mp h
    refine ⟨?_, fun u y hu hx => by cases u <;> first | exact absurd rfl hu | exact hx⟩
    first
    | exact ⟨_, _, hl⟩
    | exact ⟨_, l, hl, rfl⟩

/-- The section's records are in the snapshot. -/
def Filled (s : GovernorSnapshot) : SectionTag × Bytes → Prop
  | (.paths, body) => Carries PathLay Eq body s.paths
  | (.flows, body) => Carries FlowRecord.Lay FlowRecord.Spells body s.flows
  | (.reservations, body) =>
    Carries (fun w b => ReservationWords.Lay w b ∧ w.count ≤ 256 ∧ w.state ≤ 5)
      ReservationWords.Spells body s.reservations ∧ (s.reservations.map Reservation.id).Nodup
  | _ => True

theorem Decoded.filled {s : GovernorSnapshot} : ∀ {x : SectionTag × Bytes}, Decoded s x → Filled s x
  | (.paths, _), ⟨_, _, h⟩ => getList_carries lays_readPath (getRecords_eq_ok h).1
  | (.flows, _), ⟨_, _, h⟩ => getList_carries lays_readFlowSnapshot (getRecords_eq_ok h).1
  | (.reservations, _), ⟨_, _, h⟩ =>
    ⟨getList_carries lays_readReservation (getRecords_eq_ok h).1, (getRecords_eq_ok h).2⟩
  | (.policy, _), _ => trivial
  | (.coord, _), _ => trivial
  | (.resources, _), _ => trivial
  | (.tenants, _), _ => trivial
  | (.workloads, _), _ => trivial
  | (.resourceState, _), _ => trivial

/-- The loop takes the bytes section by section, to the end. -/
theorem readSections_eq_ok {n : ℕ} {seen seen' : List UInt8} {s s' : GovernorSnapshot}
    {b rest : Bytes} (h : (readSections n seen s).run b = .ok ((seen', s'), rest))
    (hn : b.length < n) :
    ∃ secs : List (SectionTag × Bytes), b = secs.flatMap sectionBytes ∧
      (∀ x ∈ secs, x.2.length < 2 ^ 32) ∧ (∀ x ∈ secs, Decoded s' x) ∧
      (∀ c ∈ seen', c ∈ seen ∨ ∃ x ∈ secs, x.1.code = c) ∧
      ∀ x : SectionTag × Bytes, x.1.code ∈ seen → Decoded s x → Decoded s' x := by
  induction n generalizing seen s b with
  | zero => omega
  | succ n ih =>
    obtain ⟨left, _, hget, h⟩ := run_bind_iff.mp h
    cases hget
    split at h
    next hempty =>
      obtain ⟨hpair, rfl⟩ := run_pure_iff.mp h
      obtain ⟨rfl, rfl⟩ := Prod.mk.inj hpair
      exact ⟨[], List.isEmpty_iff.mp hempty, by simp, by simp, fun c hc => Or.inl hc,
        fun x _ hx => hx⟩
    next =>
      obtain ⟨⟨seen₁, s₁⟩, b₁, hstep, h⟩ := run_bind_iff.mp h
      obtain ⟨t, body, rfl, hlen, hseen, rfl, hread⟩ := stepSections_eq_ok hstep
      obtain ⟨hfill, hkeep⟩ := readSection_decoded hread
      have hshort : b₁.length < n := by
        rw [sectionBytes, List.cons_append, List.length_cons, List.length_append] at hn
        omega
      obtain ⟨secs, rfl, hlens, hfilled, hseen', hkept⟩ := ih h hshort
      refine ⟨(t, body) :: secs, rfl, ?_, ?_, ?_, ?_⟩
      · rw [List.forall_mem_cons]
        exact ⟨hlen, hlens⟩
      · rw [List.forall_mem_cons]
        exact ⟨hkept (t, body) List.mem_cons_self hfill, hfilled⟩
      · intro c hc
        rcases hseen' c hc with hc | ⟨x, hx, rfl⟩
        · rcases List.mem_cons.mp hc with rfl | hc
          · exact Or.inr ⟨(t, body), List.mem_cons_self, rfl⟩
          · exact Or.inl hc
        · exact Or.inr ⟨x, List.mem_cons_of_mem _ hx, rfl⟩
      · intro x hx hf
        refine hkept x (List.mem_cons_of_mem _ hx) (hkeep x (fun he => hseen ?_) hf)
        rwa [he] at hx

/-- The bytes are an envelope around these sections. -/
def Sections (b : Bytes) (secs : List (SectionTag × Bytes)) : Prop :=
  (∀ x ∈ secs, x.2.length < 2 ^ 32) ∧ envelope (secs.flatMap sectionBytes) = .ok b

theorem sectionBytes_inj {x y : SectionTag × Bytes} {r r' : Bytes} (hx : x.2.length < 2 ^ 32)
    (hy : y.2.length < 2 ^ 32) (h : sectionBytes x ++ r = sectionBytes y ++ r') :
    x = y ∧ r = r' := by
  obtain ⟨t, a⟩ := x
  obtain ⟨u, b⟩ := y
  simp only [sectionBytes, List.cons_append, List.append_assoc, List.cons.injEq] at h
  obtain ⟨hcode, h⟩ := h
  have hlen := getU32_iff.mpr h
  rw [getU32_iff.mpr rfl] at hlen
  obtain ⟨hn, hrest⟩ := Prod.mk.inj (Except.ok.inj hlen)
  have hab : a.length = b.length := by
    rw [← u32_ofNat_toNat hx, ← u32_ofNat_toNat hy, hn]
  obtain ⟨rfl, rfl⟩ := List.append_inj hrest hab
  rw [SectionTag.code_injective hcode]
  exact ⟨rfl, rfl⟩

theorem flatMap_sectionBytes_inj {l l' : List (SectionTag × Bytes)}
    (hl : ∀ x ∈ l, x.2.length < 2 ^ 32) (hl' : ∀ x ∈ l', x.2.length < 2 ^ 32)
    (h : l.flatMap sectionBytes = l'.flatMap sectionBytes) : l = l' := by
  induction l generalizing l' with
  | nil =>
    cases l' with
    | nil => rfl
    | cons y l' => simp [sectionBytes] at h
  | cons x l ih =>
    cases l' with
    | nil => simp [sectionBytes] at h
    | cons y l' =>
      rw [List.forall_mem_cons] at hl hl'
      obtain ⟨rfl, hrest⟩ := sectionBytes_inj hl.1 hl'.1 h
      rw [ih hl.2 hl'.2 hrest]

/-- An accepted blob is a sequence of sections, one for every tag, and its records are decoded. -/
theorem decodeSnapshot_sections {b : Bytes} {s : GovernorSnapshot} (h : decodeSnapshot b = .ok s) :
    ∃ secs, Sections b secs ∧ (∀ t, ∃ body, (t, body) ∈ secs) ∧ ∀ x ∈ secs, Decoded s x := by
  unfold decodeSnapshot at h
  split at h
  · cases h
  obtain ⟨⟨⟨version, payload⟩, rest⟩, hread, h⟩ := Governor.bind_eq_ok h
  obtain ⟨-, -, henv⟩ := readEnvelope_eq_ok hread
  obtain ⟨⟨⟨seen, s'⟩, left⟩, hsecs, h⟩ := Governor.bind_eq_ok h
  simp only at h
  split at h
  next hall =>
    obtain rfl := Except.ok.inj h
    obtain ⟨secs, rfl, hlens, hfilled, hseen, -⟩ :=
      readSections_eq_ok hsecs (Nat.lt_succ_self _)
    refine ⟨secs, ⟨hlens, henv⟩, fun t => ?_, hfilled⟩
    have hmem : t.code ∈ seen := by
      have ht : t ∈ SectionTag.all := by cases t <;> decide
      simpa using List.all_eq_true.mp hall t ht
    rcases hseen t.code hmem with hnil | ⟨x, hx, hcode⟩
    · cases hnil
    · rw [← SectionTag.code_injective hcode]
      exact ⟨x.2, hx⟩
  next => cases h

theorem sections_unique {b : Bytes} {s : GovernorSnapshot} (h : decodeSnapshot b = .ok s)
    {l l' : List (SectionTag × Bytes)} (hl : Sections b l) (hl' : Sections b l') : l = l' := by
  have h₁ := readEnvelope_envelope (decodeSnapshot_length h hl.2) hl.2
  have h₂ := readEnvelope_envelope (decodeSnapshot_length h hl'.2) hl'.2
  rw [h₁] at h₂
  have hpay := congrArg (fun x => x.1.2) (Except.ok.inj h₂)
  exact flatMap_sectionBytes_inj hl.1 hl'.1 hpay

/-! ### What the records have to satisfy -/

/-- The path, flow and reservation records of a blob. -/
structure Records where
  paths : List Path
  flows : List FlowRecord
  reservations : List ReservationWords

/-- The records stand in the bytes, each kind in a section of its own. -/
structure Holds (b : Bytes) (r : Records) : Prop where
  paths : ∃ secs body, Sections b secs ∧ (.paths, body) ∈ secs ∧ Counted PathLay r.paths body
  flows : ∃ secs body, Sections b secs ∧ (.flows, body) ∈ secs ∧
    Counted FlowRecord.Lay r.flows body
  reservations : ∃ secs body, Sections b secs ∧ (.reservations, body) ∈ secs ∧
    Counted (fun w b => ReservationWords.Lay w b ∧ w.count ≤ 256 ∧ w.state ≤ 5) r.reservations body

/-- Two doubles in order, by their bits. -/
def WordLe (a b : UInt64) : Prop :=
  ∀ x y, Double.toRat? a = some x → Double.toRat? b = some y → x ≤ y

/-- A path without null words that has hops and visits no resource twice. -/
structure Path.Sane (p : Path) : Prop where
  id : p.id ≠ .null
  generation : p.pathGeneration ≠ .null
  hops : p.hops ≠ []
  resource : ∀ h ∈ p.hops, h.resource ≠ .null ∧ h.generation ≠ .null
  nodup : p.resources.Nodup

/-- Flow words without null ids, of a positive size, with rates in order and no negative
    deadline. -/
structure FlowWords.Sane (w : FlowWords) : Prop where
  id : w.id ≠ .null
  tenant : w.tenant ≠ .null
  attempt : w.attempt ≠ .null
  generation : w.generation ≠ .null
  pos : w.bytes ≠ 0
  bound : w.bytes ≤ 1000000000000000000
  lo_mid : WordLe w.lo w.mid
  mid_hi : WordLe w.mid w.hi
  deadline : WordLe 0 w.deadline

/-- Every record is sane, and every reservation a flow names is a record of that flow. -/
structure Records.Linked (r : Records) : Prop where
  paths : ∀ p ∈ r.paths, p.Sane
  flows : ∀ w ∈ r.flows, w.spec.Sane
  links : ∀ w ∈ r.flows, ∀ rid, named w.present w.reservation = some rid →
    ∃ q ∈ r.reservations, q.id = rid ∧ q.flow = w.spec.id

theorem Id128.isNull_iff {t : IdTag} {a : Id128 t} : a.isNull = true ↔ a = .null := by
  cases a
  simp [isNull, null]

theorem validateHops_iff {seen : List ResourceId} {hops : List PathHop} :
    validateHops seen hops = none ↔ (∀ h ∈ hops, h.resource ≠ .null ∧ h.generation ≠ .null) ∧
      (∀ h ∈ hops, h.resource ∉ seen) ∧ (hops.map PathHop.resource).Nodup := by
  induction hops generalizing seen with
  | nil => simp [validateHops]
  | cons h hops ih =>
    simp only [validateHops, Id128.isNull_iff, List.forall_mem_cons, List.map_cons,
      List.nodup_cons, List.mem_map, not_exists, not_and]
    split_ifs with h₁ h₂ h₃
    · simp [h₁]
    · simp [h₂]
    · simp [h₃]
    · rw [ih]
      simp only [List.mem_append, List.mem_singleton, not_or]
      constructor
      · rintro ⟨hn, hs, hd⟩
        exact ⟨⟨⟨h₁, h₂⟩, hn⟩, ⟨h₃, fun x hx => (hs x hx).1⟩, fun x hx => (hs x hx).2, hd⟩
      · rintro ⟨⟨-, hn⟩, ⟨-, hs⟩, hne, hd⟩
        exact ⟨hn, fun x hx => ⟨hs x hx, hne x hx⟩, hd⟩

theorem validatePath_iff {p : Path} : validatePath p = none ↔ p.Sane := by
  simp only [validatePath, Id128.isNull_iff, List.isEmpty_iff]
  constructor
  · intro h
    split_ifs at h with h₁ h₂ h₃
    obtain ⟨hn, -, hd⟩ := validateHops_iff.mp h
    exact ⟨h₁, h₂, h₃, hn, hd⟩
  · rintro ⟨h₁, h₂, h₃, hn, hd⟩
    rw [if_neg h₁, if_neg h₂, if_neg h₃]
    exact validateHops_iff.mpr ⟨hn, by simp, hd⟩

theorem wordLe_iff {a b : UInt64} {x y : ℚ} (ha : Double.toRat? a = some x)
    (hb : Double.toRat? b = some y) : WordLe a b ↔ x ≤ y := by
  constructor
  · intro h
    exact h x y ha hb
  · intro h x' y' hx' hy'
    rw [ha] at hx'
    rw [hb] at hy'
    cases hx'
    cases hy'
    exact h

theorem bytes_le_iff (n : UInt64) :
    n ≤ 1000000000000000000 ↔ ¬ (n.toNat : ℚ) > kMaxBytes := by
  have hmax : kMaxBytes = ((1000000000000000000 : ℕ) : ℚ) := by norm_num [kMaxBytes]
  rw [hmax, not_lt, Nat.cast_le, UInt64.le_iff_toNat_le]
  rfl

theorem validateFlowSpec_iff {f : FlowSpec} {w : FlowWords} (h : FlowWords.Spells f w) :
    validateFlowSpec f = none ↔ w.Sane := by
  have hzero : Double.toRat? 0 = some 0 := by decide +kernel
  simp only [validateFlowSpec, Id128.isNull_iff, h.id, h.tenant, h.attempt, h.generation, h.bytes]
  constructor
  · intro hv
    split_ifs at hv with h₁ h₂ h₃ h₄ h₅ h₆ h₇ h₈ h₉ h₁₀
    refine ⟨h₁, h₂, h₃, h₄, h₅, ?_, (wordLe_iff h.lo h.mid).mpr (not_lt.mp h₈),
      (wordLe_iff h.mid h.hi).mpr (not_lt.mp h₉), (wordLe_iff hzero h.deadline).mpr (not_lt.mp h₁₀)⟩
    exact (bytes_le_iff w.bytes).mpr h₆
  · rintro ⟨h₁, h₂, h₃, h₄, h₅, h₆, h₇, h₈, h₉⟩
    have hlo := (wordLe_iff h.lo h.mid).mp h₇
    have hhi := (wordLe_iff h.mid h.hi).mp h₈
    have hdl := (wordLe_iff hzero h.deadline).mp h₉
    rw [if_neg h₁, if_neg h₂, if_neg h₃, if_neg h₄, if_neg h₅,
      if_neg ((bytes_le_iff w.bytes).mp h₆),
      if_neg (not_lt.mpr (hlo.trans hhi)), if_neg (not_lt.mpr hlo), if_neg (not_lt.mpr hhi),
      if_neg (not_lt.mpr hdl)]

/-! ### Recovery -/

section
variable {α ω : Type} {rel : α → ω → Prop} {l : List α} {ws : List ω}

theorem forall₂_mem_left (h : List.Forall₂ rel l ws) {a : α} (ha : a ∈ l) : ∃ w ∈ ws, rel a w := by
  induction h with
  | nil => cases ha
  | cons hrel _ ih =>
    rcases List.mem_cons.mp ha with rfl | ha
    · exact ⟨_, List.mem_cons_self, hrel⟩
    · obtain ⟨w, hw, hr⟩ := ih ha
      exact ⟨w, List.mem_cons_of_mem _ hw, hr⟩

theorem forall₂_mem_right (h : List.Forall₂ rel l ws) {w : ω} (hw : w ∈ ws) : ∃ a ∈ l, rel a w :=
  forall₂_mem_left h.flip hw

end

/-- The decoded flows and paths pass their checks and every reservation a flow names is its own. -/
structure GovernorSnapshot.Valid (s : GovernorSnapshot) : Prop where
  flows : ∀ f ∈ s.flows, validateFlowSpec f.spec = none
  paths : ∀ p ∈ s.paths, validatePath p = none
  links : ∀ f ∈ s.flows, ∀ rid, f.reservation = some rid →
    ∃ r ∈ s.reservations, r.id = rid ∧ r.flow = f.spec.id

/-- The same of a running coordinator, in its tables. -/
structure Governor.Valid (g : Governor) : Prop where
  flows : ∀ fid f, g.flows.find? fid = some f → f.spec.id = fid ∧ validateFlowSpec f.spec = none
  paths : ∀ pid p, g.paths.find? pid = some p → p.id = pid ∧ validatePath p = none
  links : ∀ fid f rid, g.flows.find? fid = some f → f.reservation = some rid →
    ∃ r, g.reservations.find? rid = some r ∧ r.flow = fid

theorem restore_valid {s : GovernorSnapshot} (h : s.Valid)
    (hnd : (s.reservations.map Reservation.id).Nodup) (g : Governor) : (g.restore s).Valid where
  flows := by
    intro fid f hf
    obtain ⟨fs, hmem, hid, rfl⟩ := Table.ofList_find? hf
    exact ⟨hid, h.flows fs hmem⟩
  paths := by
    intro pid p hp
    obtain ⟨q, hmem, hid, rfl⟩ := Table.ofList_find? hp
    exact ⟨hid, h.paths q hmem⟩
  links := by
    intro fid f rid hf hres
    obtain ⟨fs, hmem, hid, rfl⟩ := Table.ofList_find? hf
    obtain ⟨r, hr, rfl, hflow⟩ := h.links fs hmem rid hres
    have hentry : (r.id, r) ∈ (g.restore s).reservations.entries :=
      (Table.ofList_entries hnd).symm ▸ List.mem_map.mpr ⟨r, hr, rfl⟩
    exact ⟨r, Table.find?_of_mem hentry, hflow.trans hid⟩

/-- Soundness of a snapshot by the records it was read from. -/
theorem valid_iff_linked {s : GovernorSnapshot} {r : Records}
    (hp : List.Forall₂ Eq s.paths r.paths)
    (hf : List.Forall₂ FlowRecord.Spells s.flows r.flows)
    (hr : List.Forall₂ ReservationWords.Spells s.reservations r.reservations) :
    s.Valid ↔ r.Linked := by
  rw [List.forall₂_eq_eq_eq] at hp
  constructor
  · rintro ⟨hflows, hpaths, hlinks⟩
    refine ⟨fun p hmem => validatePath_iff.mp (hpaths p (hp ▸ hmem)), fun w hw => ?_,
      fun w hw rid hrid => ?_⟩
    · obtain ⟨f, hfm, hspell⟩ := forall₂_mem_right hf hw
      exact (validateFlowSpec_iff hspell.spec).mp (hflows f hfm)
    · obtain ⟨f, hfm, hspell⟩ := forall₂_mem_right hf hw
      obtain ⟨q, hq, hid, hflow⟩ := hlinks f hfm rid (hspell.reservation.trans hrid)
      obtain ⟨v, hv, hqv⟩ := forall₂_mem_left hr hq
      exact ⟨v, hv, hqv.id ▸ hid, hqv.flow ▸ hflow.trans hspell.spec.id⟩
  · rintro ⟨hpaths, hflows, hlinks⟩
    refine ⟨fun f hfm => ?_, fun p hmem => validatePath_iff.mpr (hpaths p (hp ▸ hmem)),
      fun f hfm rid hrid => ?_⟩
    · obtain ⟨w, hw, hspell⟩ := forall₂_mem_left hf hfm
      exact (validateFlowSpec_iff hspell.spec).mpr (hflows w hw)
    · obtain ⟨w, hw, hspell⟩ := forall₂_mem_left hf hfm
      obtain ⟨v, hv, hid, hflow⟩ := hlinks w hw rid (hspell.reservation ▸ hrid)
      obtain ⟨q, hq, hqv⟩ := forall₂_mem_right hr hv
      exact ⟨q, hq, hqv.id.trans hid, (hqv.flow.trans hflow).trans hspell.spec.id.symm⟩

/-- The records of an accepted blob: there are some, and they are those of the snapshot. -/
theorem decodeSnapshot_records {b : Bytes} {s : GovernorSnapshot} (h : decodeSnapshot b = .ok s) :
    (s.reservations.map Reservation.id).Nodup ∧ (∃ r, Holds b r) ∧
      ∀ r, Holds b r → (s.Valid ↔ r.Linked) := by
  obtain ⟨secs, hsecs, htags, hdec⟩ := decodeSnapshot_sections h
  have hfilled : ∀ x ∈ secs, Filled s x := fun x hx => (hdec x hx).filled
  obtain ⟨pb, hpb⟩ := htags .paths
  obtain ⟨fb, hfb⟩ := htags .flows
  obtain ⟨rb, hrb⟩ := htags .reservations
  obtain ⟨hcr, hnd⟩ := hfilled _ hrb
  refine ⟨hnd, ?_, fun r hr => ?_⟩
  · obtain ⟨paths, hp⟩ := (hfilled _ hpb : Carries _ _ _ _).found
    obtain ⟨flows, hf⟩ := (hfilled _ hfb : Carries _ _ _ _).found
    obtain ⟨reservations, hr⟩ := hcr.found
    exact ⟨⟨paths, flows, reservations⟩, ⟨secs, pb, hsecs, hpb, hp⟩, ⟨secs, fb, hsecs, hfb, hf⟩,
      ⟨secs, rb, hsecs, hrb, hr⟩⟩
  · obtain ⟨⟨l₁, b₁, hl₁, hm₁, hp⟩, ⟨l₂, b₂, hl₂, hm₂, hf⟩, ⟨l₃, b₃, hl₃, hm₃, hr⟩⟩ := hr
    obtain rfl := sections_unique h hsecs hl₁
    obtain rfl := sections_unique h hsecs hl₂
    obtain rfl := sections_unique h hsecs hl₃
    exact valid_iff_linked ((hfilled _ hm₁ : Carries _ _ _ _).words _ hp)
      ((hfilled _ hm₂ : Carries _ _ _ _).words _ hf) ((hfilled _ hm₃ : _ ∧ _).1.words _ hr)

/-- A blob that `decode_snapshot` accepts recovers what the live checks promise exactly when the
    records in its bytes are sane and linked. -/
theorem recovery_valid_iff {b : Bytes} {s : GovernorSnapshot} (h : decodeSnapshot b = .ok s) :
    (s.Valid ∧ ∀ g h : Governor, g.load b = .ok h → h.Valid) ↔ ∀ r, Holds b r → r.Linked := by
  obtain ⟨hnd, ⟨r, hr⟩, hiff⟩ := decodeSnapshot_records h
  constructor
  · rintro ⟨hs, -⟩ r' hr'
    exact (hiff r' hr').mp hs
  · intro hlinked
    have hs : s.Valid := (hiff r hr).mpr (hlinked r hr)
    refine ⟨hs, fun g k hload => ?_⟩
    obtain ⟨snap, hdec, hrest⟩ := Governor.bind_eq_ok hload
    rw [h] at hdec
    cases hdec
    cases hrest
    exact restore_valid hs hnd g

/-- The theorem at the blob of the sample snapshot. -/
theorem recovery_valid_iff_sample : ∃ data s, decodeSnapshot data = .ok s ∧
    ∀ r, Holds data r → r.Linked := by
  obtain ⟨data, hdec⟩ := Sample.decodes Sample.snapshot_doubles Sample.snapshot_storable
    Sample.snapshot_shortStrings Sample.snapshot_keyed Sample.snapshot_payload
  refine ⟨data, _, hdec, (recovery_valid_iff hdec).mp ?_⟩
  have hvalid : GovernorSnapshot.Valid { Sample.snapshot with
      formatVersion := kFormatVersion
      flows := Sample.snapshot.flows.map FlowSnapshot.unassigned } := by
    refine ⟨by decide +kernel, by decide +kernel, fun f hf rid hrid => ?_⟩
    rw [List.mem_singleton.mp hf] at hrid ⊢
    cases hrid
    exact ⟨_, List.mem_singleton.mpr rfl, rfl, rfl⟩
  refine ⟨hvalid, fun g k hload => ?_⟩
  simp only [Governor.load, hdec] at hload
  cases hload
  exact restore_valid hvalid (by decide) g

namespace Sample

/-- The sample snapshot with a path without hops, and a flow of no bytes that names a reservation
    nobody holds. -/
def forged : GovernorSnapshot :=
  { snapshot with
    paths := [path 1 []]
    flows := snapshot.flows.map fun f => { f with
      spec := { f.spec with byteCount := 0 }, reservation := some ⟨0, 8⟩ } }

theorem forged_doubles : forged.Doubles where
  policy := snapshot_doubles.policy
  savedAtMs := snapshot_doubles.savedAtMs
  resources := snapshot_doubles.resources
  flows := by unfold AllDouble; decide +kernel
  reservations := snapshot_doubles.reservations
  tenants := snapshot_doubles.tenants
  workloads := snapshot_doubles.workloads
  resourceState := snapshot_doubles.resourceState

theorem forged_storable : forged.Storable := by
  intro tag
  have hd := forged_doubles
  cases tag with
  | paths => exact ⟨by decide, by decide, by decide⟩
  | flows =>
    exact ⟨by decide, fun f hf => ⟨by revert f; decide, (hd.flows f hf).1.finite⟩, by decide⟩
  | policy => exact snapshot_storable .policy
  | coord => exact snapshot_storable .coord
  | resources => exact snapshot_storable .resources
  | reservations => exact snapshot_storable .reservations
  | tenants => exact snapshot_storable .tenants
  | workloads => exact snapshot_storable .workloads
  | resourceState => exact snapshot_storable .resourceState

theorem forged_payload (payload : Bytes) (h : encodePayload forged = .ok payload) :
    payload.length ≤ 2 ^ 30 := by
  have hlen : ∀ n ∈ (encodePayload forged).toOption.map List.length, n ≤ 1024 := by
    decide +kernel
  have := hlen payload.length (by simp [h, Except.toOption])
  omega

end Sample

/-- A blob that is accepted although its path, its flow and the flow's reservation are all bad. -/
theorem forged_blob_accepted : ∃ data s, decodeSnapshot data = .ok s ∧
    (∃ f ∈ s.flows, validateFlowSpec f.spec ≠ none) ∧ (∃ p ∈ s.paths, validatePath p ≠ none) ∧
    (∃ f ∈ s.flows, ∃ rid, f.reservation = some rid ∧ ∀ r ∈ s.reservations, r.id ≠ rid) ∧
    ∀ g : Governor, ∃ h, g.load data = .ok h ∧ ¬ h.Valid := by
  have hs := Sample.snapshot_shortStrings
  obtain ⟨data, hdec⟩ := Sample.decodes Sample.forged_doubles Sample.forged_storable
    ⟨hs.resources, by decide +kernel, hs.resourceState⟩ ⟨Sample.snapshot_keyed.tenants,
      Sample.snapshot_keyed.workloads, Sample.snapshot_keyed.resourceState⟩ Sample.forged_payload
  refine ⟨data, _, hdec, ⟨_, List.mem_cons_self, by decide +kernel⟩,
    ⟨_, List.mem_cons_self, by decide +kernel⟩, ⟨_, List.mem_cons_self, ⟨0, 8⟩, rfl, by decide⟩,
    fun g => ?_⟩
  refine ⟨_, by simp only [Governor.load, hdec]; rfl, fun hv => ?_⟩
  have hpath := (hv.paths ⟨0, 1⟩ (Sample.path 1 []) rfl).2
  revert hpath
  decide

end BG
