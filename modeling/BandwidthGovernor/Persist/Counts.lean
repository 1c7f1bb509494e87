import Mathlib
import BandwidthGovernor.Persist.Recovery

/-! The records of a snapshot against the counts its sections declare.

    Four of the seven list sections are decoded into vectors, with a set of the ids seen so far: an
    id that comes twice is refused. The other three are decoded into maps, where the second record
    of an id takes the place of the first. A section keeps as many entries as it declares exactly
    when its ids are distinct, so that the decoder drops a record exactly where a map section
    repeats an id. -/

namespace BG

open Lib

/-! ### Readers of records -/

theorem local_getU8 : Local getU8 := (Local.bytes _ 1).map leNat |>.map _

theorem local_getU32 : Local getU32 := (Local.bytes _ 4).map leNat |>.map _

theorem local_getU64 : Local getU64 := (Local.bytes _ 8).map leNat |>.map _

theorem local_getF64 : Local getF64 := by
  refine local_getU64.bind fun bits => ?_
  cases Double.toRat? bits with
  | none => exact .throw _
  | some q => exact .pure q

theorem local_getStr : Local getStr :=
  local_getU32.bind fun _ => (Local.require _ _).bind fun _ => .bytes _ _

theorem local_getId {t : IdTag} : Local (getId (t := t)) :=
  local_getU64.bind fun _ => local_getU64.bind fun _ => .pure _

theorem local_getBool : Local getBool := local_getU8.map _

theorem local_getCapacity : Local getCapacity := by
  refine local_getF64.bind fun q => ?_
  cases Capacity.make q with
  | error e => exact .throw e
  | ok c => exact .pure c

theorem local_getChecked {E : Type} [Enumerators E] (last : UInt32) (e : Error) :
    Local (getChecked (E := E) last e) :=
  local_getU32.bind fun _ => (Local.require _ _).bind fun _ => .pure _

theorem local_getList {α : Type} {read : Source α} (h : Local read) (bound : UInt32) (e : Error) :
    Local (getList read bound e) :=
  local_getU32.bind fun n => (Local.require _ _).bind fun _ => h.many n.toNat

theorem local_getOptId {t : IdTag} : Local (getOptId (t := t)) := by
  refine local_getBool.bind fun present => ?_
  split
  · exact local_getId.map _
  · exact .pure none

theorem length_idBytes {t : IdTag} (v : Id128 t) : (idBytes v).length = 16 := rfl

theorem idBytes_injective {t : IdTag} : Function.Injective (idBytes (t := t)) := by
  intro v w h
  have hv := getId_iff.mpr (show idBytes v ++ [] = idBytes w ++ [] by rw [h])
  rw [getId_iff.mpr rfl] at hv
  exact (Prod.mk.inj (Except.ok.inj hv)).1

/-- A reader of records that start with their id. -/
structure Headed {α : Type} {t : IdTag} (read : Source α) (key : α → Id128 t) : Prop where
  reads : Local read
  head : ∀ {a b}, Takes read a b → b.take 16 = idBytes (key a)

theorem headed_getId {t : IdTag} : Headed (getId (t := t)) id where
  reads := local_getId
  head := by
    intro v b hb
    have hrun := getId_iff.mp (hb [])
    rw [List.append_nil, List.append_nil] at hrun
    rw [hrun]
    exact List.take_of_length_le (length_idBytes v).le

theorem Headed.bind {α β : Type} {t : IdTag} {read : Source α} {key : α → Id128 t}
    {f : α → Source β} {key' : β → Id128 t} (h : Headed read key) (hf : ∀ a, Local (f a))
    (hk : ∀ a, Yields (fun c => key' c = key a) (f a)) : Headed (read >>= f) key' where
  reads := h.reads.bind hf
  head := by
    intro c b hb
    obtain ⟨a, s, ha, hc⟩ := run_bind_iff.mp (hb [])
    obtain ⟨b₁, hs, htakes⟩ := h.reads _ a s ha
    have hid := h.head htakes
    have hlen : 16 ≤ b₁.length := by
      have := congrArg List.length hid
      rw [length_idBytes, List.length_take] at this
      omega
    rw [List.append_nil] at hs
    rw [hs, List.take_append_of_le_length hlen, hid, hk a s c [] hc]

theorem headed_readResourceSpec : Headed readResourceSpec ResourceSpec.id := by
  refine headed_getId.bind (fun _ => ?_) fun _ => ?_
  · exact (local_getChecked _ _).bind fun _ => local_getStr.bind fun _ => local_getStr.bind fun _ =>
      (local_getChecked _ _).bind fun _ => local_getCapacity.bind fun _ => local_getId.bind fun _ =>
      local_getBool.bind fun _ => .pure _
  · repeat refine .bind fun _ => ?_
    exact .pure rfl

theorem headed_readPath : Headed readPath Path.id := by
  have hhop : Local readHop := local_getId.bind fun _ => local_getId.bind fun _ => .pure _
  refine headed_getId.bind (fun _ => ?_) fun _ => ?_
  · exact local_getId.bind fun _ => (local_getList hhop _ _).bind fun _ => .pure _
  · repeat refine .bind fun _ => ?_
    exact .pure rfl

theorem headed_readFlowSpec : Headed readFlowSpec FlowSpec.id := by
  refine headed_getId.bind (fun _ => ?_) fun _ => ?_
  · exact local_getId.bind fun _ => local_getId.bind fun _ => local_getId.bind fun _ =>
      local_getId.bind fun _ => local_getStr.bind fun _ => local_getStr.bind fun _ =>
      local_getId.bind fun _ => local_getU64.bind fun _ => (local_getChecked _ _).bind fun _ =>
      (local_getU64.map _).bind fun _ => (local_getChecked _ _).bind fun _ =>
      local_getF64.bind fun _ => local_getCapacity.bind fun _ => local_getCapacity.bind fun _ =>
      local_getCapacity.bind fun _ => local_getU64.bind fun _ => local_getBool.bind fun _ =>
      local_getBool.bind fun _ => .pure _
  · repeat refine .bind fun _ => ?_
    exact .pure rfl

theorem headed_readFlowSnapshot : Headed readFlowSnapshot (fun f => f.spec.id) := by
  refine headed_readFlowSpec.bind (fun _ => ?_) fun _ => ?_
  · exact (local_getChecked _ _).bind fun _ => local_getCapacity.bind fun _ =>
      local_getF64.bind fun _ => local_getF64.bind fun _ => local_getU64.bind fun _ =>
      local_getU64.bind fun _ => local_getU64.bind fun _ => local_getF64.bind fun _ =>
      local_getOptId.bind fun _ => local_getStr.bind fun _ => .pure _
  · repeat refine .bind fun _ => ?_
    exact .pure rfl

theorem headed_readReservation : Headed readReservation Reservation.id := by
  have halloc : Local readResourceAllocation :=
    local_getId.bind fun _ => local_getCapacity.bind fun _ => .pure _
  refine headed_getId.bind (fun _ => ?_) fun _ => ?_
  · exact local_getId.bind fun _ => local_getId.bind fun _ => local_getId.bind fun _ =>
      local_getId.bind fun _ => (local_getList halloc _ _).bind fun _ => local_getId.bind fun _ =>
      local_getId.bind fun _ => local_getId.bind fun _ =>
        (local_getChecked _ _).bind fun _ => .pure _
  · repeat refine .bind fun _ => ?_
    exact .pure rfl

theorem headed_readAccounting {t : IdTag} : Headed (readAccounting (t := t)) Accounting.owner := by
  refine headed_getId.bind (fun _ => ?_) fun _ => ?_
  · exact local_getF64.bind fun _ => local_getF64.bind fun _ => local_getU64.bind fun _ =>
      local_getU64.bind fun _ => local_getU64.bind fun _ => local_getF64.bind fun _ => .pure _
  · repeat refine .bind fun _ => ?_
    exact .pure rfl

theorem headed_readResourceSnapshot : Headed readResourceSnapshot ResourceSnapshot.id := by
  refine headed_getId.bind (fun _ => ?_) fun _ => ?_
  · exact (local_getChecked _ _).bind fun _ => local_getStr.bind fun _ => local_getStr.bind fun _ =>
      (local_getChecked _ _).bind fun _ => local_getCapacity.bind fun _ =>
      local_getCapacity.bind fun _ => local_getCapacity.bind fun _ =>
        local_getCapacity.bind fun _ =>
      local_getCapacity.bind fun _ => local_getF64.bind fun _ => local_getF64.bind fun _ =>
      local_getU64.bind fun _ => local_getBool.bind fun _ => local_getF64.bind fun _ =>
      local_getF64.bind fun _ => local_getStr.bind fun _ => local_getF64.bind fun _ =>
      local_getF64.bind fun _ => local_getId.bind fun _ => (local_getChecked _ _).bind fun _ =>
      local_getBool.bind fun _ => .pure _
  · repeat refine .bind fun _ => ?_
    exact .pure rfl

/-! ### Ids in the bytes of a section -/

/-- The count in front of a section's records. -/
def declared (body : Bytes) : ℕ := leNat (body.take 4)

/-- Behind the count stand the records, and each starts with the sixteen bytes of its id. -/
def RecordIds (IsRecord : Bytes → Prop) (body : Bytes) (ids : List Bytes) : Prop :=
  ∃ bs : List Bytes, (∀ b ∈ bs, IsRecord b) ∧ bs.length < 2 ^ 32 ∧
    body = u32Bytes (UInt32.ofNat bs.length) ++ bs.flatten ∧ ids = bs.map (List.take 16)

theorem declared_eq {n : ℕ} (hn : n < 2 ^ 32) (rest : Bytes) :
    declared (u32Bytes (UInt32.ofNat n) ++ rest) = n := by
  have hlt : (UInt32.ofNat n).toNat < 256 ^ 4 := (UInt32.ofNat n).toNat_lt
  rw [declared, u32Bytes, List.take_left' (by rfl), leNat_leBytes hlt, u32_ofNat_toNat hn]

section
variable {α : Type} {t : IdTag} {read : Source α} {key : α → Id128 t} {bound : UInt32} {e : Error}
  {body : Bytes} {l : List α}

/-- Whole records are taken one by one. -/
theorem Headed.takes_all (h : Headed read key) : ∀ {bs : List Bytes},
    (∀ b ∈ bs, ∃ a, read.run b = .ok (a, [])) → ∃ ws, List.Forall₂ (Takes read) ws bs
  | [], _ => ⟨[], .nil⟩
  | b :: bs, hbs => by
    rw [List.forall_mem_cons] at hbs
    obtain ⟨⟨a, ha⟩, hrest⟩ := hbs
    obtain ⟨ws, hws⟩ := takes_all h hrest
    exact ⟨a :: ws, .cons (h.reads.takes ha) hws⟩

theorem Headed.map_take (h : Headed read key) {ws : List α} {bs : List Bytes}
    (hws : List.Forall₂ (Takes read) ws bs) :
    bs.map (List.take 16) = (ws.map key).map idBytes := by
  induction hws with
  | nil => rfl
  | cons hb _ ih => rw [List.map_cons, List.map_cons, List.map_cons, ih, h.head hb]

/-- The ids in the bytes of a list are those of the records read. -/
theorem Headed.recordIds (h : Headed read key)
    (hr : (getList read bound e).run body = .ok (l, [])) :
    declared body = l.length ∧
    (∃ ids, RecordIds (fun b => ∃ a, read.run b = .ok (a, [])) body ids) ∧
    ∀ ids, RecordIds (fun b => ∃ a, read.run b = .ok (a, [])) body ids →
      (ids.Nodup ↔ (l.map key).Nodup) := by
  have hcarries := getList_carries h.reads.lays hr
  refine ⟨?_, ?_, ?_⟩
  · obtain ⟨ws, hws⟩ := hcarries.found
    have hlen := (hcarries.words ws hws).length_eq
    obtain ⟨bs, -, hlt, rfl⟩ := hws
    rw [declared_eq hlt, hlen]
  · obtain ⟨ws, bs, hws, hlt, rfl⟩ := hcarries.found
    refine ⟨_, bs, fun b hb => ?_, hws.length_eq ▸ hlt, by rw [hws.length_eq], rfl⟩
    obtain ⟨a, -, ha⟩ := forall₂_mem_right hws hb
    have hrun := ha []
    rw [List.append_nil] at hrun
    exact ⟨a, hrun⟩
  · rintro ids ⟨bs, hbs, hlt, hbody, rfl⟩
    obtain ⟨ws, hws⟩ := h.takes_all hbs
    have hwords := hcarries.words ws ⟨bs, hws, hws.length_eq ▸ hlt, by rw [hws.length_eq, hbody]⟩
    rw [List.forall₂_eq_eq_eq] at hwords
    subst hwords
    rw [h.map_take hws, List.nodup_map_iff idBytes_injective]

end

/-! ### The seven list sections -/

namespace SectionTag

/-- The sections that are lists of records. -/
def lists : List SectionTag :=
  [resources, paths, flows, reservations, tenants, workloads, resourceState]

/-- Those that are decoded into maps. -/
def maps : List SectionTag := [tenants, workloads, resourceState]

/-- Whether bytes are one record of the section, as its reader has them. -/
def IsRecord : SectionTag → Bytes → Prop
  | policy, _ | coord, _ => False
  | resources, b => ∃ a, readResourceSpec.run b = .ok (a, [])
  | paths, b => ∃ a, readPath.run b = .ok (a, [])
  | flows, b => ∃ a, readFlowSnapshot.run b = .ok (a, [])
  | reservations, b => ∃ a, readReservation.run b = .ok (a, [])
  | tenants, b => ∃ a, readTenantAcc.run b = .ok (a, [])
  | workloads, b => ∃ a, readWorkloadAcc.run b = .ok (a, [])
  | resourceState, b => ∃ a, readResourceSnapshot.run b = .ok (a, [])

end SectionTag

/-- The number of entries of a decoded section. -/
def GovernorSnapshot.size (s : GovernorSnapshot) : SectionTag → ℕ
  | .policy | .coord => 0
  | .resources => s.resources.length
  | .paths => s.paths.length
  | .flows => s.flows.length
  | .reservations => s.reservations.length
  | .tenants => s.tenants.entries.length
  | .workloads => s.workloads.entries.length
  | .resourceState => s.resourceState.entries.length

/-- The section stands in the bytes with this body, and its records have these ids. -/
def Stands (b : Bytes) (t : SectionTag) (body : Bytes) (ids : List Bytes) : Prop :=
  (∃ secs, Sections b secs ∧ (t, body) ∈ secs) ∧ RecordIds t.IsRecord body ids

/-- A list section: its ids are found, and it is kept whole where it should be. -/
def KeptWhole (s : GovernorSnapshot) (t : SectionTag) (body : Bytes) : Prop :=
  (∃ ids, RecordIds t.IsRecord body ids) ∧ ∀ ids, RecordIds t.IsRecord body ids →
    (s.size t = declared body ∧ ids.Nodup ↔ (t ∈ SectionTag.maps → ids.Nodup))

section
variable {α : Type} {k : IdTag} {read : Source α} {key : α → Id128 k} {body : Bytes} {l : List α}
  {s : GovernorSnapshot} {t : SectionTag}

/-- A vector refuses the second record of an id. -/
theorem Headed.vector (h : Headed read key) {m d : String} (ht : t ∉ SectionTag.maps)
    (hrec : t.IsRecord = fun b => ∃ a, read.run b = .ok (a, [])) (hsize : s.size t = l.length)
    (hr : (getRecords read key m d).run body = .ok (l, [])) : KeptWhole s t body := by
  obtain ⟨hlist, hnd⟩ := getRecords_eq_ok hr
  obtain ⟨hdecl, hids, hiff⟩ := h.recordIds hlist
  rw [KeptWhole, hrec]
  refine ⟨hids, fun ids hi => iff_of_true ⟨hsize.trans hdecl.symm, (hiff ids hi).mpr hnd⟩ ?_⟩
  exact fun hm => absurd hm ht

/-- A map keeps the last record of an id. -/
theorem Headed.map (h : Headed read key) {e : Error} (ht : t ∈ SectionTag.maps)
    (hrec : t.IsRecord = fun b => ∃ a, read.run b = .ok (a, []))
    (hsize : s.size t = (Table.ofList key id l).entries.length)
    (hr : (getList read kMaxList e).run body = .ok (l, [])) : KeptWhole s t body := by
  obtain ⟨hdecl, hids, hiff⟩ := h.recordIds hr
  rw [KeptWhole, hrec]
  refine ⟨hids, fun ids hi => ?_⟩
  rw [hsize, hdecl, Table.ofList_length_iff, ← hiff ids hi]
  exact ⟨fun hb _ => hb.2, fun hnd => ⟨hnd ht, hnd ht⟩⟩

end

theorem Decoded.keptWhole {s : GovernorSnapshot} {body : Bytes} : ∀ {t : SectionTag},
    t ∈ SectionTag.lists → Decoded s (t, body) → KeptWhole s t body
  | .resources, _, ⟨_, _, h⟩ => headed_readResourceSpec.vector (by decide) rfl rfl h
  | .paths, _, ⟨_, _, h⟩ => headed_readPath.vector (by decide) rfl rfl h
  | .flows, _, ⟨_, _, h⟩ => headed_readFlowSnapshot.vector (by decide) rfl rfl h
  | .reservations, _, ⟨_, _, h⟩ => headed_readReservation.vector (by decide) rfl rfl h
  | .tenants, _, ⟨_, _, h, hs⟩ =>
    headed_readAccounting.map (by decide) rfl (congrArg (fun t => t.entries.length) hs) h
  | .workloads, _, ⟨_, _, h, hs⟩ =>
    headed_readAccounting.map (by decide) rfl (congrArg (fun t => t.entries.length) hs) h
  | .resourceState, _, ⟨_, _, h, hs⟩ =>
    headed_readResourceSnapshot.map (by decide) rfl (congrArg (fun t => t.entries.length) hs) h

/-- In a blob that `decode_snapshot` accepts every list section stands with its ids, and all of them
    are decoded to as many entries as they declare, with distinct ids, exactly when the ids in the
    tenant, workload and resource state sections are distinct. -/
theorem records_kept_iff {b : Bytes} {s : GovernorSnapshot} (h : decodeSnapshot b = .ok s) :
    (∀ t ∈ SectionTag.lists, ∃ body ids, Stands b t body ids) ∧
    ((∀ t ∈ SectionTag.lists, ∀ body ids, Stands b t body ids →
        s.size t = declared body ∧ ids.Nodup) ↔
      ∀ t ∈ SectionTag.maps, ∀ body ids, Stands b t body ids → ids.Nodup) := by
  obtain ⟨secs, hsecs, htags, hdec⟩ := decodeSnapshot_sections h
  have hkept : ∀ t ∈ SectionTag.lists, ∀ body ids, Stands b t body ids →
      (s.size t = declared body ∧ ids.Nodup ↔ (t ∈ SectionTag.maps → ids.Nodup)) := by
    rintro t ht body ids ⟨⟨secs', hsecs', hmem⟩, hids⟩
    obtain rfl := sections_unique h hsecs hsecs'
    exact ((hdec _ hmem).keptWhole ht).2 ids hids
  have hlists : ∀ t ∈ SectionTag.maps, t ∈ SectionTag.lists := by decide
  refine ⟨fun t ht => ?_, fun hall t ht body ids hs => ?_, fun hmaps t ht body ids hs => ?_⟩
  · obtain ⟨body, hmem⟩ := htags t
    obtain ⟨ids, hids⟩ := ((hdec _ hmem).keptWhole ht).1
    exact ⟨body, ids, ⟨secs, hsecs, hmem⟩, hids⟩
  · exact (hall t (hlists t ht) body ids hs).2
  · exact (hkept t ht body ids hs).mpr fun hm => hmaps t hm body ids hs

namespace Sample

/-- The bytes of a tenant's record. -/
def tenantRecord (i : UInt64) : Bytes :=
  (writeTenantAcc { owner := ⟨0, i⟩, account := {} }).toOption.getD []

/-- The sections of a state in which nothing happened, but with this body for the tenants. -/
def sectionsWith (tenants : Bytes) : List (SectionTag × Bytes) := SectionTag.all.map fun t =>
  (t, if t = .tenants then tenants else (sectionBody (.blank 1) t).toOption.getD [])

/-- A blob of these sections. -/
def blobWith (tenants : Bytes) : Bytes :=
  (envelope ((sectionsWith tenants).flatMap sectionBytes)).toOption.getD []

/-- Two records of one tenant. -/
def repeated : Bytes := u32Bytes 2 ++ [tenantRecord 1, tenantRecord 1].flatten

theorem decoded_of_size {b : Bytes} {n : ℕ}
    (h : (decodeSnapshot b).toOption.map (fun s => s.size .tenants) = some n) :
    ∃ s, decodeSnapshot b = .ok s ∧ s.size .tenants = n := by
  cases hd : decodeSnapshot b with
  | error e =>
    rw [hd] at h
    cases h
  | ok s =>
    rw [hd] at h
    exact ⟨s, rfl, Option.some.inj h⟩

theorem tenantRecord_isRecord : SectionTag.tenants.IsRecord (tenantRecord 1) := by
  have h : (readTenantAcc.run (tenantRecord 1)).toOption.map Prod.snd = some [] := by decide +kernel
  cases hr : readTenantAcc.run (tenantRecord 1) with
  | error e =>
    rw [hr] at h
    cases h
  | ok x =>
    rw [hr] at h
    exact ⟨x.1, hr.trans (congrArg Except.ok (Prod.ext rfl (Option.some.inj h)))⟩

end Sample

/-- The theorem at a blob with the records of two tenants. -/
theorem records_kept_iff_two : ∃ b s, decodeSnapshot b = .ok s ∧ s.size .tenants = 2 ∧
    ∀ t ∈ SectionTag.lists, ∃ body ids, Stands b t body ids := by
  obtain ⟨s, hs, hsize⟩ := Sample.decoded_of_size (n := 2) (b := Sample.blobWith
    (u32Bytes 2 ++ [Sample.tenantRecord 1, Sample.tenantRecord 2].flatten)) (by decide +kernel)
  exact ⟨_, s, hs, hsize, (records_kept_iff hs).1⟩

/-- A section that declares two records of one tenant is accepted, and one entry is left. -/
theorem repeated_tenant_dropped :
    ∃ s ids, decodeSnapshot (Sample.blobWith Sample.repeated) = .ok s ∧
    Stands (Sample.blobWith Sample.repeated) .tenants Sample.repeated ids ∧
    declared Sample.repeated = 2 ∧ s.size .tenants = 1 ∧ ¬ ids.Nodup := by
  obtain ⟨s, hs, hsize⟩ := Sample.decoded_of_size (n := 1) (b := Sample.blobWith Sample.repeated)
    (by decide +kernel)
  refine ⟨s, [Sample.tenantRecord 1, Sample.tenantRecord 1].map (List.take 16), hs,
    ⟨⟨Sample.sectionsWith Sample.repeated, ⟨by decide +kernel, rfl⟩, ?_⟩, ?_⟩,
    by decide +kernel, hsize, ?_⟩
  · exact List.mem_map.mpr ⟨.tenants, by decide, rfl⟩
  · refine ⟨[Sample.tenantRecord 1, Sample.tenantRecord 1], ?_, by decide, rfl, rfl⟩
    simp [Sample.tenantRecord_isRecord]
  · decide +kernel

end BG
