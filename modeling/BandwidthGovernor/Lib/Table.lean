import Mathlib.Data.List.Nodup
import Mathlib.Data.List.Perm.Basic
import Mathlib.Algebra.BigOperators.Group.List.Basic
import Mathlib.Algebra.BigOperators.Group.Finset.Basic
import Mathlib.Algebra.Order.BigOperators.Group.List

/-! Finite tables: an association list whose keys are pairwise distinct, read in list order.

    The list order stands for the iteration order of a hash table. Overwriting a key keeps its
    position, a new key goes to the end, and `Same` relates two tables that differ only in order.
    Everything a client may rely on is phrased through `find?`, which order does not affect. -/

namespace Lib

/-- A finite map with an iteration order; the keys are distinct by construction. -/
structure Table (K V : Type) where
  entries : List (K × V)
  nodup : (entries.map Prod.fst).Nodup

namespace Table
variable {K V W : Type}

def empty : Table K V := ⟨[], List.nodup_nil⟩

def keys (t : Table K V) : List K := t.entries.map Prod.fst

def vals (t : Table K V) : List V := t.entries.map Prod.snd

/-- Two tables with the same entries in a possibly different order. -/
def Same (t u : Table K V) : Prop := t.entries.Perm u.entries

/-- Apply `f` to every value, in place. -/
def mapVals (f : K → V → W) (t : Table K V) : Table K W where
  entries := t.entries.map fun e => (e.1, f e.1 e.2)
  nodup := by simpa [List.map_map, Function.comp_def] using t.nodup

@[simp] theorem mapVals_keys (f : K → V → W) (t : Table K V) : (t.mapVals f).keys = t.keys := by
  simp [keys, mapVals, List.map_map, Function.comp_def]

@[simp] theorem mapVals_vals (f : K → V → W) (t : Table K V) :
    (t.mapVals f).vals = t.entries.map fun e => f e.1 e.2 := by
  simp [vals, mapVals, List.map_map, Function.comp_def]

@[simp] theorem mapVals_id (t : Table K V) : t.mapVals (fun _ v => v) = t := by
  cases t; simp [mapVals]

section Lookup
variable [DecidableEq K]

/-- Look a key up. -/
def find? (t : Table K V) (k : K) : Option V :=
  (t.entries.find? fun e => decide (e.1 = k)).map Prod.snd

def contains (t : Table K V) (k : K) : Bool := (t.find? k).isSome

/-- Write a key: in place when it is there, at the end when it is new. -/
def insert (t : Table K V) (k : K) (v : V) : Table K V where
  entries :=
    if k ∈ t.entries.map Prod.fst then t.entries.map fun e => if e.1 = k then (k, v) else e
    else t.entries ++ [(k, v)]
  nodup := by
    split
    · have : (t.entries.map fun e => if e.1 = k then (k, v) else e).map Prod.fst
          = t.entries.map Prod.fst := by
        rw [List.map_map]
        refine List.map_congr_left fun e _ => ?_
        by_cases he : e.1 = k <;> simp [he]
      rw [this]; exact t.nodup
    · rename_i hk
      rw [List.map_append, List.nodup_append]
      exact ⟨t.nodup, by simp, by rintro a ha b hb rfl; simp at hb; exact hk (hb ▸ ha)⟩

theorem mem_of_find? {t : Table K V} {k : K} {v : V} (h : t.find? k = some v) :
    (k, v) ∈ t.entries := by
  simp only [find?, Option.map_eq_some_iff] at h
  obtain ⟨e, he, rfl⟩ := h
  have hk : e.1 = k := by simpa using List.find?_some he
  exact hk ▸ List.mem_of_find?_eq_some he

theorem find?_of_mem {t : Table K V} {k : K} {v : V} (h : (k, v) ∈ t.entries) :
    t.find? k = some v := by
  obtain ⟨l, nd⟩ := t
  simp only [find?] at h ⊢
  induction l with
  | nil => simp at h
  | cons e l ih =>
    simp only [List.map_cons, List.nodup_cons] at nd
    rcases List.mem_cons.mp h with rfl | hl
    · simp
    · have hne : e.1 ≠ k := fun he => nd.1 (he ▸ List.mem_map_of_mem (f := Prod.fst) hl)
      rw [List.find?_cons_of_neg (by simpa using hne)]
      exact ih nd.2 hl

theorem find?_eq_some {t : Table K V} {k : K} {v : V} :
    t.find? k = some v ↔ (k, v) ∈ t.entries := ⟨mem_of_find?, find?_of_mem⟩

theorem find?_eq_none {t : Table K V} {k : K} : t.find? k = none ↔ k ∉ t.keys := by
  constructor
  · intro h hk
    obtain ⟨e, he, rfl⟩ := List.mem_map.mp hk
    rw [find?_of_mem (v := e.2) he] at h; cases h
  · intro h
    cases hf : t.find? k with
    | none => rfl
    | some v => exact absurd (List.mem_map_of_mem (f := Prod.fst) (mem_of_find? hf)) h

theorem contains_iff {t : Table K V} {k : K} : t.contains k = true ↔ k ∈ t.keys := by
  rw [contains, Option.isSome_iff_ne_none, ne_eq, find?_eq_none, not_not]

@[simp] theorem find?_empty (k : K) : (empty : Table K V).find? k = none := rfl

@[simp] theorem find?_mapVals (f : K → V → W) (t : Table K V) (k : K) :
    (t.mapVals f).find? k = (t.find? k).map (f k) := by
  obtain ⟨l, nd⟩ := t
  simp only [find?, mapVals]
  induction l with
  | nil => rfl
  | cons e l ih =>
    by_cases he : e.1 = k
    · simp [he]
    · simp only [List.map_cons, he, decide_false, Bool.false_eq_true, not_false_eq_true,
        List.find?_cons_of_neg]
      exact ih (List.nodup_cons.mp nd).2

theorem mem_insert {t : Table K V} {k : K} {v : V} {e : K × V} :
    e ∈ (t.insert k v).entries ↔ e = (k, v) ∨ (e.1 ≠ k ∧ e ∈ t.entries) := by
  unfold insert
  split
  · rename_i hk
    simp only [List.mem_map]
    constructor
    · rintro ⟨x, hx, rfl⟩
      by_cases hxk : x.1 = k
      · exact Or.inl (by simp [hxk])
      · exact Or.inr (by simpa [hxk] using hx)
    · rintro (rfl | ⟨hne, he⟩)
      · obtain ⟨x, hx, hxk⟩ := List.mem_map.mp hk
        exact ⟨x, hx, by simp [hxk]⟩
      · exact ⟨e, he, by simp [hne]⟩
  · rename_i hk
    simp only [List.mem_append, List.mem_singleton]
    constructor
    · rintro (he | rfl)
      · exact Or.inr ⟨fun h => hk (h ▸ List.mem_map_of_mem (f := Prod.fst) he), he⟩
      · exact Or.inl rfl
    · rintro (rfl | ⟨-, he⟩)
      · exact Or.inr rfl
      · exact Or.inl he

@[simp] theorem find?_insert (t : Table K V) (k k' : K) (v : V) :
    (t.insert k v).find? k' = if k' = k then some v else t.find? k' := by
  split
  · rename_i h
    exact find?_of_mem (mem_insert.mpr (Or.inl (by rw [h])))
  · rename_i h
    ext w
    rw [find?_eq_some, find?_eq_some, mem_insert]
    constructor
    · rintro (he | ⟨-, he⟩)
      · exact absurd (congrArg Prod.fst he) h
      · exact he
    · exact fun he => Or.inr ⟨h, he⟩

theorem find?_insert_self (t : Table K V) (k : K) (v : V) : (t.insert k v).find? k = some v := by
  simp

theorem find?_insert_ne {t : Table K V} {k k' : K} {v : V} (h : k' ≠ k) :
    (t.insert k v).find? k' = t.find? k' := by simp [h]

theorem Same.find? {t u : Table K V} (h : t.Same u) (k : K) : t.find? k = u.find? k := by
  ext v
  rw [find?_eq_some, find?_eq_some]
  exact h.mem_iff

/-- Tables with the same look-ups have the same entries. -/
theorem same_of_find? {t u : Table K V} (h : ∀ k, t.find? k = u.find? k) : t.Same u := by
  have hnd : ∀ w : Table K V, w.entries.Nodup := fun w => List.Nodup.of_map _ w.nodup
  refine (List.perm_ext_iff_of_nodup (hnd t) (hnd u)).mpr fun e => ?_
  rw [← find?_eq_some (k := e.1) (v := e.2), ← find?_eq_some (k := e.1) (v := e.2), h]

/-- Update the value at one key, if the key is there. -/
def modify (t : Table K V) (k : K) (f : V → V) : Table K V :=
  t.mapVals fun k' v => if k' = k then f v else v

@[simp] theorem find?_modify (t : Table K V) (k k' : K) (f : V → V) :
    (t.modify k f).find? k' = if k' = k then (t.find? k').map f else t.find? k' := by
  rw [modify, find?_mapVals]
  split
  · simp
  · cases t.find? k' <;> rfl

/-- Keep the entries that satisfy `p`. -/
def filter (t : Table K V) (p : K → V → Bool) : Table K V where
  entries := t.entries.filter fun e => p e.1 e.2
  nodup := t.nodup.sublist (List.filter_sublist.map Prod.fst)

/-- Drop a key. -/
def erase (t : Table K V) (k : K) : Table K V := t.filter fun k' _ => !decide (k' = k)

@[simp] theorem find?_filter (t : Table K V) (p : K → V → Bool) (k : K) :
    (t.filter p).find? k = (t.find? k).filter (p k) := by
  ext v
  rw [find?_eq_some, Option.filter_eq_some_iff, find?_eq_some]
  exact List.mem_filter

@[simp] theorem find?_erase (t : Table K V) (k k' : K) :
    (t.erase k).find? k' = if k' = k then none else t.find? k' := by
  rw [erase, find?_filter]
  split
  · rename_i h
    cases t.find? k' <;> simp [h]
  · rename_i h
    cases t.find? k' <;> simp [h]

/-- `for (a : l) t[key(a)] = val(a)`, from the empty table. -/
def ofList {A : Type} (key : A → K) (val : A → V) (l : List A) : Table K V :=
  l.foldl (fun t a => t.insert (key a) (val a)) empty

theorem mem_keys_insert {t : Table K V} {k k' : K} {v : V} :
    k' ∈ (t.insert k v).keys ↔ k' = k ∨ k' ∈ t.keys := by
  rw [← not_iff_not, ← find?_eq_none, find?_insert, not_or, ← find?_eq_none]
  by_cases h : k' = k <;> simp [h]

theorem insert_entries_new {t : Table K V} {k : K} (hk : k ∉ t.keys) (v : V) :
    (t.insert k v).entries = t.entries ++ [(k, v)] := if_neg hk

theorem vals_insert_new {t : Table K V} {k : K} (hk : t.find? k = none) (v : V) :
    (t.insert k v).vals.Perm (v :: t.vals) := by
  rw [vals, insert_entries_new (find?_eq_none.mp hk), List.map_append]
  exact List.perm_append_comm

/-- Overwriting a key exchanges one value. -/
theorem vals_insert_old {t : Table K V} {k : K} {v : V} (hk : t.find? k = some v) :
    ∃ rest, t.vals.Perm (v :: rest) ∧ ∀ w, (t.insert k w).vals.Perm (w :: rest) := by
  have hmem := mem_of_find? hk
  have hin : k ∈ t.entries.map Prod.fst := List.mem_map.mpr ⟨_, hmem, rfl⟩
  obtain ⟨l₁, l₂, hl⟩ := List.append_of_mem hmem
  have hnd := t.nodup
  rw [hl, List.map_append, List.map_cons, List.nodup_middle, List.nodup_cons, List.mem_append,
    not_or] at hnd
  have hkeep : ∀ (w : V) (l : List (K × V)), k ∉ l.map Prod.fst →
      (l.map fun e => if e.1 = k then (k, w) else e) = l := fun w l h => by
    conv_rhs => rw [← List.map_id l]
    exact List.map_congr_left fun e he => if_neg fun h' => h (List.mem_map.mpr ⟨e, he, h'⟩)
  refine ⟨l₁.map Prod.snd ++ l₂.map Prod.snd, ?_, fun w => ?_⟩
  · rw [vals, hl, List.map_append, List.map_cons]
    exact List.perm_middle
  · have hset : (t.insert k w).entries = l₁ ++ (k, w) :: l₂ := by
      rw [show (t.insert k w).entries = _ from if_pos hin, hl, List.map_append, List.map_cons,
        hkeep w _ hnd.1.1, hkeep w _ hnd.1.2, if_pos rfl]
    rw [vals, hset, List.map_append, List.map_cons]
    exact List.perm_middle

/-- With distinct keys, filing a list keeps it as it is. -/
theorem foldl_insert_entries {A : Type} (key : A → K) (val : A → V) :
    ∀ (l : List A) (t : Table K V),
    (t.keys ++ l.map key).Nodup →
      (l.foldl (fun t a => t.insert (key a) (val a)) t).entries =
        t.entries ++ l.map fun a => (key a, val a)
  | [], t, _ => by simp
  | a :: l, t, h => by
    have hnew : key a ∉ t.keys := fun hk =>
      (List.nodup_append.mp h).2.2 _ hk _ (List.mem_cons_self ..) rfl
    have hkeys : (t.insert (key a) (val a)).keys = t.keys ++ [key a] := by
      simp [keys, insert_entries_new hnew]
    rw [List.foldl_cons, foldl_insert_entries key val l _ (by rw [hkeys]; simpa using h),
      insert_entries_new hnew]
    simp

theorem ofList_entries {A : Type} {key : A → K} {val : A → V} {l : List A}
    (h : (l.map key).Nodup) : (ofList key val l).entries = l.map fun a => (key a, val a) :=
  foldl_insert_entries key val l empty h

/-- An entry of a table built from a list comes from one of its elements. -/
theorem ofList_find? {A : Type} {key : A → K} {val : A → V} {l : List A} {k : K} {v : V}
    (h : (ofList key val l).find? k = some v) : ∃ a ∈ l, key a = k ∧ val a = v := by
  have hfold : ∀ (l : List A) (t : Table K V),
      (l.foldl (fun t a => t.insert (key a) (val a)) t).find? k = some v →
        t.find? k = some v ∨ ∃ a ∈ l, key a = k ∧ val a = v := by
    intro l
    induction l with
    | nil => exact fun t h => Or.inl h
    | cons a l ih =>
      intro t h
      rcases ih _ h with h | ⟨b, hb, hk⟩
      · rw [find?_insert] at h
        split at h
        · rename_i he
          exact Or.inr ⟨a, List.mem_cons_self .., he.symm, Option.some.inj h⟩
        · exact Or.inl h
      · exact Or.inr ⟨b, List.mem_cons_of_mem _ hb, hk⟩
  rcases hfold l empty h with h | h
  · simp at h
  · exact h

/-- A table whose values know their keys is rebuilt from its values. -/
theorem mem_keys_ofList {A : Type} {key : A → K} {val : A → V} {l : List A} {k : K} :
    k ∈ (ofList key val l).keys ↔ k ∈ l.map key := by
  have hfold : ∀ (l : List A) (t : Table K V),
      k ∈ (l.foldl (fun t a => t.insert (key a) (val a)) t).keys ↔ k ∈ t.keys ∨ k ∈ l.map key := by
    intro l
    induction l with
    | nil => simp
    | cons a l ih =>
      intro t
      rw [List.foldl_cons, ih, mem_keys_insert, List.map_cons, List.mem_cons]
      tauto
  rw [ofList, hfold l empty]
  exact or_iff_right (List.not_mem_nil)

/-- A table built from a list has an entry for each of its elements exactly when no key comes
    twice. -/
theorem ofList_length_iff {A : Type} {key : A → K} {val : A → V} {l : List A} :
    (ofList key val l).entries.length = l.length ↔ (l.map key).Nodup := by
  constructor
  · intro h
    have hnd : (ofList key val l).keys.Nodup := (ofList key val l).nodup
    have hsub : (ofList key val l).keys.Subperm (l.map key) :=
      List.subperm_of_subset hnd fun k hk => mem_keys_ofList.mp hk
    have hperm := hsub.perm_of_length_le (by
      rw [List.length_map, ← h]
      exact (List.length_map Prod.fst).ge)
    exact hperm.nodup_iff.mp hnd
  · intro h
    rw [ofList_entries h, List.length_map]

theorem ofList_vals {t : Table K V} {key : V → K} (h : ∀ e ∈ t.entries, key e.2 = e.1) :
    ofList key id t.vals = t := by
  have hkeys : t.vals.map key = t.entries.map Prod.fst := by
    rw [vals, List.map_map]
    exact List.map_congr_left h
  have hentries : (ofList key id t.vals).entries = t.entries := by
    rw [ofList_entries (hkeys ▸ t.nodup), vals, List.map_map]
    conv_rhs => rw [← List.map_id t.entries]
    exact List.map_congr_left fun e he => Prod.ext (h e he) rfl
  cases t
  cases hlist : ofList key id _
  rw [hlist] at hentries
  congr

end Lookup

/-! ### Loops over a table -/

section Loop
variable {ε : Type}

/-- `for (auto& [k, v] : t) body(k, v)` on the entry list: the body may write the value and throw;
    a throw leaves the later entries as they were. -/
def forEachEntry (body : K → V → V × Option ε) : List (K × V) → List (K × V) × Option ε
  | [] => ([], none)
  | (k, v) :: l =>
    match body k v with
    | (v', some e) => ((k, v') :: l, some e)
    | (v', none) => ((k, v') :: (forEachEntry body l).1, (forEachEntry body l).2)

theorem forEachEntry_keys (body : K → V → V × Option ε) :
    ∀ l : List (K × V), (forEachEntry body l).1.map Prod.fst = l.map Prod.fst
  | [] => rfl
  | (k, v) :: l => by
    unfold forEachEntry
    split
    · rfl
    · simp [forEachEntry_keys body l]

def forEach (body : K → V → V × Option ε) (t : Table K V) : Table K V × Option ε :=
  (⟨(forEachEntry body t.entries).1, forEachEntry_keys body t.entries ▸ t.nodup⟩,
    (forEachEntry body t.entries).2)

theorem forEachEntry_ok {body : K → V → V × Option ε} : ∀ {l : List (K × V)},
    (∀ e ∈ l, (body e.1 e.2).2 = none) →
      forEachEntry body l = (l.map fun e => (e.1, (body e.1 e.2).1), none)
  | [], _ => rfl
  | (k, v) :: l, h => by
    rw [List.forall_mem_cons] at h
    obtain ⟨hk, hl⟩ := h
    unfold forEachEntry
    split
    · rename_i e he; rw [he] at hk; cases hk
    · rename_i v' he; simp [forEachEntry_ok hl, he]

/-- A body that never throws updates every value. -/
theorem forEach_ok {body : K → V → V × Option ε} {t : Table K V}
    (h : ∀ e ∈ t.entries, (body e.1 e.2).2 = none) :
    t.forEach body = (t.mapVals fun k v => (body k v).1, none) := by
  simp [forEach, forEachEntry_ok h, mapVals]

end Loop

/-! ### Sums over a table -/

section Sum
variable {M : Type} [AddCommMonoid M]

/-- Sum a quantity over all entries. -/
def sum (t : Table K V) (f : K → V → M) : M := (t.entries.map fun e => f e.1 e.2).sum

theorem Same.sum {t u : Table K V} (h : t.Same u) (f : K → V → M) : t.sum f = u.sum f :=
  (h.map _).sum_eq

theorem sum_mapVals (f : K → W → M) (h : K → V → W) (t : Table K V) :
    (t.mapVals h).sum f = t.sum fun k v => f k (h k v) := by
  simp [Table.sum, mapVals, List.map_map, Function.comp_def]

theorem sum_add (t : Table K V) (f h : K → V → M) :
    t.sum (fun k v => f k v + h k v) = t.sum f + t.sum h := List.sum_map_add

theorem sum_congr {t : Table K V} {f h : K → V → M}
    (hfh : ∀ k v, (k, v) ∈ t.entries → f k v = h k v) : t.sum f = t.sum h := by
  unfold Table.sum
  rw [List.map_congr_left fun e he => hfh e.1 e.2 he]

theorem sum_eq_zero {t : Table K V} {f : K → V → M}
    (hf : ∀ k v, (k, v) ∈ t.entries → f k v = 0) : t.sum f = 0 := by
  refine List.sum_eq_zero fun x hx => ?_
  obtain ⟨e, he, rfl⟩ := List.mem_map.mp hx
  exact hf e.1 e.2 he

theorem sum_insert_new [DecidableEq K] {t : Table K V} {k : K} (hk : t.find? k = none) (v : V)
    (f : K → V → M) : (t.insert k v).sum f = t.sum f + f k v := by
  have : k ∉ t.entries.map Prod.fst := find?_eq_none.mp hk
  simp [Table.sum, insert, this]

/-- A sum over a table, as one over its set of keys. -/
theorem sum_eq_finset_sum [DecidableEq K] (t : Table K V) (f : K → V → M) :
    t.sum f = ∑ k ∈ t.keys.toFinset, (t.find? k).elim 0 (f k) := by
  rw [List.sum_toFinset _ (show t.keys.Nodup from t.nodup), keys, List.map_map, Table.sum]
  refine congrArg List.sum (List.map_congr_left fun e he => ?_)
  rw [Function.comp_apply, find?_of_mem he]
  rfl

/-- Two sums agree when they agree key by key; a key that is not there counts as zero. -/
theorem sum_eq_of_find? [DecidableEq K] {t : Table K V} {u : Table K W} {f : K → V → M}
    {h : K → W → M} (hk : ∀ k, (t.find? k).elim 0 (f k) = (u.find? k).elim 0 (h k)) :
    t.sum f = u.sum h := by
  have hzero : ∀ {X : Type} (w : Table K X) (r : K → X → M) (k : K), k ∉ w.keys.toFinset →
      (w.find? k).elim 0 (r k) = 0 := fun w r k hn => by
    rw [find?_eq_none.mpr fun hm => hn (List.mem_toFinset.mpr hm)]
    rfl
  have hleft : t.keys.toFinset ⊆ t.keys.toFinset ∪ u.keys.toFinset := Finset.subset_union_left
  have hright : u.keys.toFinset ⊆ t.keys.toFinset ∪ u.keys.toFinset := Finset.subset_union_right
  rw [sum_eq_finset_sum, sum_eq_finset_sum, Finset.sum_subset hleft fun k _ => hzero t f k,
    Finset.sum_subset hright fun k _ => hzero u h k]
  exact Finset.sum_congr rfl fun k _ => hk k

variable [PartialOrder M] [IsOrderedAddMonoid M]

theorem sum_le_sum {t : Table K V} {f h : K → V → M}
    (hfh : ∀ k v, (k, v) ∈ t.entries → f k v ≤ h k v) : t.sum f ≤ t.sum h :=
  List.sum_le_sum fun e he => hfh e.1 e.2 he

theorem sum_nonneg {t : Table K V} {f : K → V → M}
    (hf : ∀ k v, (k, v) ∈ t.entries → 0 ≤ f k v) : 0 ≤ t.sum f := by
  refine List.sum_nonneg fun x hx => ?_
  obtain ⟨e, he, rfl⟩ := List.mem_map.mp hx
  exact hf e.1 e.2 he

/-- Sums that agree, of terms one of which is never the greater, agree term by term. -/
theorem eq_of_sum_eq {M : Type} [AddCommMonoid M] [PartialOrder M] [IsOrderedCancelAddMonoid M]
    {t : Table K V} {f h : K → V → M} (hle : ∀ k v, (k, v) ∈ t.entries → f k v ≤ h k v)
    (hsum : t.sum f = t.sum h) : ∀ k v, (k, v) ∈ t.entries → f k v = h k v := by
  intro k v hkv
  by_contra hne
  refine (List.sum_lt_sum (fun e : K × V => f e.1 e.2) (fun e => h e.1 e.2)
    (fun e he => hle e.1 e.2 he) ⟨(k, v), hkv, ?_⟩).ne hsum
  exact lt_of_le_of_ne (hle k v hkv) hne

end Sum

end Table
end Lib
