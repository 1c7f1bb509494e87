import Mathlib

/-! Binary writers and the readers that read them back.

    A writer yields bytes or an exception; a reader consumes a prefix of its input. `Reads w r a P`
    says everything about a reader on what a writer wrote, whatever follows it: the reader yields
    `a` and stops where the writer did when `P` holds, and throws when it does not. Records are
    read field by field, and `P` collects what the fields ask for. -/

namespace Lib

abbrev Bytes := List UInt8

/-- A reader of a byte stream that may throw. -/
abbrev Reader (ε : Type) := StateT Bytes (Except ε)

/-- What a writer appends, or the exception it throws. -/
abbrev Sink (ε : Type) := Except ε Bytes

/-- Writers one after the other. -/
def Sink.all {ε : Type} : List (Sink ε) → Sink ε
  | [] => .ok []
  | .error e :: _ => .error e
  | .ok a :: ws => Except.map (a ++ ·) (Sink.all ws)

/-! ### Little-endian numbers -/

/-- The `n` low bytes of a number, low byte first. -/
def leBytes : ℕ → ℕ → Bytes
  | 0, _ => []
  | n + 1, v => UInt8.ofNat v :: leBytes n (v / 256)

def leNat : Bytes → ℕ
  | [] => 0
  | b :: bs => b.toNat + 256 * leNat bs

@[simp] theorem leBytes_length : ∀ n v : ℕ, (leBytes n v).length = n
  | 0, _ => rfl
  | n + 1, v => by rw [leBytes, List.length_cons, leBytes_length n]

theorem leNat_leBytes : ∀ {n v : ℕ}, v < 256 ^ n → leNat (leBytes n v) = v
  | 0, v, h => by simp at h; simp [leBytes, leNat, h]
  | n + 1, v, h => by
    have hdiv : v / 256 < 256 ^ n := by
      rw [Nat.div_lt_iff_lt_mul (by norm_num)]
      rwa [pow_succ] at h
    rw [leBytes, leNat, leNat_leBytes hdiv, UInt8.toNat_ofNat']
    omega

theorem leBytes_leNat : ∀ bs : Bytes, leBytes bs.length (leNat bs) = bs
  | [] => rfl
  | b :: bs => by
    have hb := b.toNat_lt
    have hlow : UInt8.ofNat (b.toNat + 256 * leNat bs) = b := by
      apply UInt8.toNat_inj.mp
      rw [UInt8.toNat_ofNat']
      omega
    have hrest : (b.toNat + 256 * leNat bs) / 256 = leNat bs := by omega
    rw [leNat, List.length_cons, leBytes, hlow, hrest, leBytes_leNat bs]

theorem leNat_lt : ∀ bs : Bytes, leNat bs < 256 ^ bs.length
  | [] => by simp [leNat]
  | b :: bs => by
    have := leNat_lt bs
    have hb := b.toNat_lt
    rw [leNat, List.length_cons, pow_succ]
    omega

/-! ### Readers -/

section
variable {ε α β : Type}

/-- The next `n` bytes. -/
def getBytes (short : ε) (n : ℕ) : Reader ε Bytes := fun s =>
  if s.length < n then .error short else .ok (s.take n, s.drop n)

def getLE (short : ε) (n : ℕ) : Reader ε ℕ := leNat <$> getBytes short n

/-- Throw unless a check holds. -/
def require (c : Bool) (e : ε) : Reader ε Unit := if c then pure () else throw e

/-- A number of records, one after the other. -/
def getMany (r : Reader ε α) : ℕ → Reader ε (List α)
  | 0 => pure []
  | n + 1 => do
    let x ← r
    let xs ← getMany r n
    pure (x :: xs)

/-- A number of records with distinct keys, none of them among those already seen. -/
def getDistinct {κ : Type} [DecidableEq κ] (r : Reader ε α) (key : α → κ) (e : ε) :
    List κ → ℕ → Reader ε (List α)
  | _, 0 => pure []
  | seen, n + 1 => do
    let x ← r
    require (decide (key x ∉ seen)) e
    let xs ← getDistinct r key e (key x :: seen) n
    pure (x :: xs)

theorem getBytes_append (short : ε) (bs rest : Bytes) :
    (getBytes short bs.length).run (bs ++ rest) = .ok (bs, rest) := by
  simp [StateT.run, getBytes]

theorem getLE_append (short : ε) (bs rest : Bytes) :
    (getLE short bs.length).run (bs ++ rest) = .ok (leNat bs, rest) := by
  rw [getLE, StateT.run_map, getBytes_append]
  rfl

/-- A reader that succeeds is followed by the rest. -/
theorem run_bind_ok {r : Reader ε α} {f : α → Reader ε β} {s s' : Bytes} {a : α}
    (h : r.run s = .ok (a, s')) : (r >>= f).run s = (f a).run s' := by
  rw [StateT.run_bind, h]
  rfl

/-- An exception is not caught. -/
theorem run_bind_error {r : Reader ε α} {f : α → Reader ε β} {s : Bytes} {e : ε}
    (h : r.run s = .error e) : (r >>= f).run s = .error e := by
  rw [StateT.run_bind, h]
  rfl

/-- Looking at the rest of the input. -/
theorem run_get_bind (f : Bytes → Reader ε β) (s : Bytes) : (get >>= f).run s = (f s).run s := rfl

theorem run_require_true {c : Bool} (h : c = true) (e : ε) (s : Bytes) :
    (require c e).run s = .ok ((), s) := by
  rw [require, if_pos h]
  rfl

theorem run_require_false {c : Bool} (h : ¬ c = true) (e : ε) (s : Bytes) :
    (require c e).run s = .error e := by
  rw [require, if_neg h]
  rfl

/-! A reader that succeeded, taken apart. -/

theorem run_bind_eq_ok {r : Reader ε α} {f : α → Reader ε β} {s s'' : Bytes} {b : β}
    (h : (r >>= f).run s = .ok (b, s'')) :
    ∃ a s', r.run s = .ok (a, s') ∧ (f a).run s' = .ok (b, s'') := by
  rw [StateT.run_bind] at h
  cases hr : r.run s with
  | error e => rw [hr] at h; cases h
  | ok x => rw [hr] at h; exact ⟨x.1, x.2, rfl, h⟩

theorem getBytes_eq_ok {short : ε} {n : ℕ} {s s' b : Bytes}
    (h : (getBytes short n).run s = .ok (b, s')) : s = b ++ s' ∧ b.length = n := by
  simp only [StateT.run, getBytes] at h
  split at h
  · cases h
  · cases h
    rename_i hlen
    exact ⟨(List.take_append_drop n s).symm, List.length_take_of_le (not_lt.mp hlen)⟩

theorem run_map_eq_ok {r : Reader ε α} {g : α → β} {s s' : Bytes} {b : β}
    (h : (g <$> r).run s = .ok (b, s')) : ∃ a, r.run s = .ok (a, s') ∧ b = g a := by
  rw [StateT.run_map] at h
  cases hr : r.run s with
  | error e => rw [hr] at h; cases h
  | ok x =>
    rw [hr] at h
    cases h
    exact ⟨x.1, rfl, rfl⟩

/-- The bytes a number was read from are its own. -/
theorem getLE_eq_ok {short : ε} {n v : ℕ} {s s' : Bytes}
    (h : (getLE short n).run s = .ok (v, s')) : s = leBytes n v ++ s' ∧ v < 256 ^ n := by
  obtain ⟨b, hb, rfl⟩ := run_map_eq_ok h
  obtain ⟨rfl, rfl⟩ := getBytes_eq_ok hb
  exact ⟨by rw [leBytes_leNat], leNat_lt b⟩

theorem require_bind_eq_ok {c : Bool} {e : ε} {f : Unit → Reader ε β} {s s' : Bytes} {b : β}
    (h : (require c e >>= f).run s = .ok (b, s')) : c = true ∧ (f ()).run s = .ok (b, s') := by
  cases c with
  | false => cases h
  | true => exact ⟨rfl, h⟩

/-! Acceptance as an equivalence. -/

theorem run_bind_iff {r : Reader ε α} {f : α → Reader ε β} {s s'' : Bytes} {b : β} :
    (r >>= f).run s = .ok (b, s'') ↔
      ∃ a s', r.run s = .ok (a, s') ∧ (f a).run s' = .ok (b, s'') := by
  refine ⟨run_bind_eq_ok, fun ⟨a, s', hr, hf⟩ => ?_⟩
  rw [run_bind_ok hr, hf]

theorem run_map_iff {r : Reader ε α} {g : α → β} {s s' : Bytes} {b : β} :
    (g <$> r).run s = .ok (b, s') ↔ ∃ a, r.run s = .ok (a, s') ∧ b = g a := by
  refine ⟨run_map_eq_ok, fun ⟨a, hr, hb⟩ => ?_⟩
  rw [StateT.run_map, hr, hb]
  rfl

theorem run_pure_iff {a b : α} {s s' : Bytes} :
    (Pure.pure a : Reader ε α).run s = .ok (b, s') ↔ a = b ∧ s = s' := by
  rw [StateT.run_pure]
  exact ⟨fun h => by cases h; exact ⟨rfl, rfl⟩, fun ⟨ha, hs⟩ => by rw [ha, hs]; rfl⟩

theorem getBytes_iff {short : ε} {n : ℕ} {s s' b : Bytes} :
    (getBytes short n).run s = .ok (b, s') ↔ s = b ++ s' ∧ b.length = n := by
  refine ⟨getBytes_eq_ok, ?_⟩
  rintro ⟨rfl, rfl⟩
  exact getBytes_append short b s'

theorem getLE_iff {short : ε} {n v : ℕ} {s s' : Bytes} :
    (getLE short n).run s = .ok (v, s') ↔ s = leBytes n v ++ s' ∧ v < 256 ^ n := by
  refine ⟨getLE_eq_ok, ?_⟩
  rintro ⟨rfl, hv⟩
  have := getLE_append short (leBytes n v) s'
  rwa [leBytes_length, leNat_leBytes hv] at this

/-- `r` accepts what `r'` accepts and satisfies `P`, with the same value and the same rest. -/
def Checks (P : α → Prop) (r r' : Reader ε α) : Prop :=
  ∀ s a s', r.run s = .ok (a, s') ↔ r'.run s = .ok (a, s') ∧ P a

/-- Every value the reader yields satisfies `P`. -/
def Yields (P : α → Prop) (r : Reader ε α) : Prop := ∀ s a s', r.run s = .ok (a, s') → P a

namespace Yields

theorem pure {P : α → Prop} {a : α} (h : P a) : Yields P (Pure.pure a : Reader ε α) := by
  intro s b s' hb
  obtain ⟨rfl, -⟩ := run_pure_iff.mp hb
  exact h

theorem bind {P : β → Prop} {r : Reader ε α} {f : α → Reader ε β} (h : ∀ a, Yields P (f a)) :
    Yields P (r >>= f) := by
  intro s b s'' hb
  obtain ⟨a, s', -, hf⟩ := run_bind_eq_ok hb
  exact h a s' b s'' hf

end Yields

namespace Checks
variable {P : α → Prop} {Q : β → Prop} {r r' : Reader ε α} {f f' : α → Reader ε β}

theorem refl (r : Reader ε α) : Checks (fun _ => True) r r := fun _ _ _ =>
  (iff_of_eq (and_true _)).symm

/-- A field both readers read alike. -/
theorem same (h : ∀ a, Checks Q (f a) (f' a)) : Checks Q (r >>= f) (r >>= f') := by
  intro s b s''
  rw [run_bind_iff, run_bind_iff]
  constructor
  · rintro ⟨a, s', hr, hf⟩
    obtain ⟨hf', hQ⟩ := (h a s' b s'').mp hf
    exact ⟨⟨a, s', hr, hf'⟩, hQ⟩
  · rintro ⟨⟨a, s', hr, hf'⟩, hQ⟩
    exact ⟨a, s', hr, (h a s' b s'').mpr ⟨hf', hQ⟩⟩

/-- A field that only the first reader checks; it is found again in the result. -/
theorem field (proj : β → α) (hr : Checks P r r') (h : ∀ a, Checks Q (f a) (f' a))
    (hproj : ∀ a, Yields (fun b => proj b = a) (f' a)) :
    Checks (fun b => P (proj b) ∧ Q b) (r >>= f) (r' >>= f') := by
  intro s b s''
  rw [run_bind_iff, run_bind_iff]
  constructor
  · rintro ⟨a, s', ha, hf⟩
    obtain ⟨hf', hQ⟩ := (h a s' b s'').mp hf
    obtain ⟨ha', hP⟩ := (hr s a s').mp ha
    exact ⟨⟨a, s', ha', hf'⟩, (hproj a s' b s'' hf').symm ▸ hP, hQ⟩
  · rintro ⟨⟨a, s', ha', hf'⟩, hP, hQ⟩
    rw [hproj a s' b s'' hf'] at hP
    exact ⟨a, s', (hr s a s').mpr ⟨ha', hP⟩, (h a s' b s'').mpr ⟨hf', hQ⟩⟩

end Checks

/-- Every exception of the reader satisfies `P`. -/
def Throws (P : ε → Prop) (r : Reader ε α) : Prop := ∀ s e, r.run s = .error e → P e

namespace Throws
variable {P : ε → Prop} {r : Reader ε α} {f : α → Reader ε β}

theorem bind (h : Throws P r) (hf : ∀ a, Throws P (f a)) : Throws P (r >>= f) := by
  intro s e he
  cases hr : r.run s with
  | error e' =>
    rw [run_bind_error hr] at he
    cases he
    exact h s e hr
  | ok x =>
    rw [run_bind_ok hr] at he
    exact hf x.1 x.2 e he

theorem map (h : Throws P r) (g : α → β) : Throws P (g <$> r) := by
  intro s e he
  rw [StateT.run_map] at he
  cases hr : r.run s with
  | error e' =>
    rw [hr] at he
    cases he
    exact h s e hr
  | ok x => rw [hr] at he; cases he

theorem pure (a : α) : Throws P (Pure.pure a : Reader ε α) := fun _ _ he => by cases he

theorem bytes {short : ε} (h : P short) (n : ℕ) : Throws P (getBytes short n) := by
  intro s e he
  simp only [StateT.run, getBytes] at he
  split at he
  · cases he; exact h
  · cases he

theorem le {short : ε} (h : P short) (n : ℕ) : Throws P (getLE short n) := (bytes h n).map leNat

theorem require {e : ε} (h : P e) (c : Bool) : Throws P (Lib.require c e) := by
  intro s e' he
  cases c with
  | false => cases he; exact h
  | true => cases he

end Throws

end

/-! ### Reading back what was written -/

/-- On what `w` wrote, `r` yields `a` and leaves the rest when `P` holds, and throws otherwise. -/
structure Reads {ε α : Type} (w : Sink ε) (r : Reader ε α) (a : α) (P : Prop) : Prop where
  ok : P → ∀ bs rest, w = .ok bs → bs.length < 2 ^ 32 → r.run (bs ++ rest) = .ok (a, rest)
  error : ¬ P → ∀ bs rest, w = .ok bs → bs.length < 2 ^ 32 → ∃ e, r.run (bs ++ rest) = .error e

/-- The bytes of a sequence are those of its first writer and those of the others. -/
theorem Sink.all_cons_ok {ε : Type} {w : Sink ε} {ws : List (Sink ε)} {bs : Bytes}
    (h : Sink.all (w :: ws) = .ok bs) :
    ∃ a b, w = .ok a ∧ Sink.all ws = .ok b ∧ bs = a ++ b := by
  cases w with
  | error e => cases h
  | ok a =>
    cases hws : Sink.all ws with
    | error e => rw [Sink.all, hws] at h; cases h
    | ok b =>
      rw [Sink.all, hws] at h
      exact ⟨a, b, rfl, rfl, (Except.ok.inj h).symm⟩

theorem Sink.all_cons {ε : Type} {w : Sink ε} {ws : List (Sink ε)} {a b : Bytes} (h : w = .ok a)
    (h' : Sink.all ws = .ok b) : Sink.all (w :: ws) = .ok (a ++ b) := by
  rw [h, Sink.all, h']
  rfl

@[simp] theorem Sink.all_single {ε : Type} (w : Sink ε) : Sink.all [w] = w := by
  cases w with
  | error e => rfl
  | ok bs => simp [Sink.all, Except.map]

/-- A sequence of writers succeeds when each of them does. -/
theorem Sink.all_ok {ε : Type} : ∀ {ws : List (Sink ε)}, (∀ w ∈ ws, ∃ bs, w = .ok bs) →
    ∃ bs, Sink.all ws = .ok bs
  | [], _ => ⟨[], rfl⟩
  | w :: ws, h => by
    obtain ⟨a, ha⟩ := h w List.mem_cons_self
    obtain ⟨b, hb⟩ := all_ok fun w' hw' => h w' (List.mem_cons_of_mem w hw')
    exact ⟨a ++ b, all_cons ha hb⟩

/-- Writers that write something write at least a byte each. -/
theorem Sink.length_le_all {ε α : Type} {w : α → Sink ε} (hw : ∀ x bs, w x = .ok bs → bs ≠ []) :
    ∀ {l : List α} {bs : Bytes}, Sink.all (l.map w) = .ok bs → l.length ≤ bs.length
  | [], _, _ => Nat.zero_le _
  | x :: l, bs, h => by
    rw [List.map_cons] at h
    obtain ⟨a, b, ha, hb, rfl⟩ := all_cons_ok h
    have h₁ := length_le_all hw hb
    have h₂ := List.length_pos_of_ne_nil (hw x a ha)
    rw [List.length_cons, List.length_append]
    omega

namespace Reads
variable {ε α β : Type} {w : Sink ε} {ws : List (Sink ε)} {r : Reader ε α} {a : α} {b : β}
  {f : α → Reader ε β} {P Q : Prop}

theorem congr {a' : α} {P' : Prop} (h : Reads w r a P) (ha : a = a') (hP : P ↔ P') :
    Reads w r a' P' := by
  subst ha
  exact ⟨fun hp => h.ok (hP.mpr hp), fun hp => h.error (fun hp' => hp (hP.mp hp'))⟩

theorem pure (a : α) : Reads (Sink.all []) (Pure.pure a : Reader ε α) a True where
  ok _ bs rest h _ := by
    cases h
    rfl
  error h := absurd trivial h

/-- The next field of a record. -/
theorem cons (h : Reads w r a P) (h' : Reads (Sink.all ws) (f a) b Q) :
    Reads (Sink.all (w :: ws)) (r >>= f) b (P ∧ Q) := by
  refine ⟨fun hPQ bs rest hw hlen => ?_, fun hPQ bs rest hw hlen => ?_⟩
  · obtain ⟨x, y, hx, hy, rfl⟩ := Sink.all_cons_ok hw
    rw [List.length_append] at hlen
    rw [List.append_assoc, run_bind_ok (h.ok hPQ.1 x (y ++ rest) hx (by omega))]
    exact h'.ok hPQ.2 y rest hy (by omega)
  · obtain ⟨x, y, hx, hy, rfl⟩ := Sink.all_cons_ok hw
    rw [List.length_append] at hlen
    rw [List.append_assoc]
    by_cases hP : P
    · rw [run_bind_ok (h.ok hP x (y ++ rest) hx (by omega))]
      exact h'.error (fun hQ => hPQ ⟨hP, hQ⟩) y rest hy (by omega)
    · obtain ⟨e, he⟩ := h.error hP x (y ++ rest) hx (by omega)
      exact ⟨e, run_bind_error he⟩

/-- A writer on its own, read in two parts. -/
theorem bind (h : Reads w r a P) (h' : Reads (Sink.all []) (f a) b Q) :
    Reads w (r >>= f) b (P ∧ Q) := by
  have := h.cons h'
  rwa [Sink.all_single] at this

/-- A check on what was read. -/
theorem require {c : Bool} {e : ε} {k : Unit → Reader ε β} (h : Reads w (k ()) b Q) :
    Reads w (Lib.require c e >>= k) b (c = true ∧ Q) := by
  refine ⟨fun hcQ bs rest hw hlen => ?_, fun hcQ bs rest hw hlen => ?_⟩
  · rw [run_bind_ok (run_require_true hcQ.1 e _)]
    exact h.ok hcQ.2 bs rest hw hlen
  · by_cases hc : c = true
    · rw [run_bind_ok (run_require_true hc e _)]
      exact h.error (fun hQ => hcQ ⟨hc, hQ⟩) bs rest hw hlen
    · exact ⟨e, run_bind_error (run_require_false hc e _)⟩

/-- A reader that converts what it read. -/
theorem map (h : Reads w r a P) (g : α → β) : Reads w (g <$> r) (g a) P := by
  refine ⟨fun hP bs rest hw hlen => ?_, fun hP bs rest hw hlen => ?_⟩
  · rw [StateT.run_map, h.ok hP bs rest hw hlen]
    rfl
  · obtain ⟨e, he⟩ := h.error hP bs rest hw hlen
    rw [StateT.run_map, he]
    exact ⟨e, rfl⟩

/-- A property of the written length may be used. -/
theorem of_length (h : ∀ bs, w = .ok bs → bs.length < 2 ^ 32 → Reads w r a P) : Reads w r a P :=
  ⟨fun hP bs rest hw hlen => (h bs hw hlen).ok hP bs rest hw hlen,
    fun hP bs rest hw hlen => (h bs hw hlen).error hP bs rest hw hlen⟩

theorem le (short : ε) {n v : ℕ} (hv : v < 256 ^ n) :
    Reads (.ok (leBytes n v)) (getLE short n) v True where
  ok _ bs rest h _ := by
    cases h
    have := getLE_append short (leBytes n v) rest
    rwa [leBytes_length, leNat_leBytes hv] at this
  error h := absurd trivial h

theorem bytes (short : ε) (bs : Bytes) : Reads (.ok bs) (getBytes short bs.length) bs True where
  ok _ bs' rest h _ := by
    cases h
    exact getBytes_append short bs rest
  error h := absurd trivial h

variable {γ δ : Type} {wr : γ → Sink ε} {rd : Reader ε δ} {out : γ → δ} {ok : γ → Prop}

/-- Records one after the other. -/
theorem many : ∀ {l : List γ}, (∀ x ∈ l, Reads (wr x) rd (out x) (ok x)) →
    Reads (Sink.all (l.map wr)) (getMany rd l.length) (l.map out) (∀ x ∈ l, ok x)
  | [], _ => (Reads.pure []).congr rfl (by simp)
  | x :: l, h => by
    rw [List.forall_mem_cons] at h
    have hrest :
      Reads (Sink.all (l.map wr)) (getMany rd l.length >>= fun xs => Pure.pure (out x :: xs))
        (out x :: l.map out) (∀ y ∈ l, ok y) := by
      have := (many h.2).map fun xs => out x :: xs
      rwa [map_eq_pure_bind] at this
    exact
      (cons (f := fun y => getMany rd l.length >>= fun xs => Pure.pure (y :: xs)) h.1 hrest).congr
      rfl (by rw [List.forall_mem_cons])

/-- Records with distinct keys. -/
theorem distinct {κ : Type} [DecidableEq κ] {key : δ → κ} {e : ε} :
    ∀ {l : List γ} {seen : List κ}, (∀ x ∈ l, Reads (wr x) rd (out x) (ok x)) →
    Reads (Sink.all (l.map wr)) (getDistinct rd key e seen l.length) (l.map out)
      ((∀ x ∈ l, ok x) ∧ (∀ x ∈ l, key (out x) ∉ seen) ∧ (l.map fun x => key (out x)).Nodup)
  | [], seen, _ => (Reads.pure []).congr rfl (by simp)
  | x :: l, seen, h => by
    rw [List.forall_mem_cons] at h
    have hrest : Reads (Sink.all (l.map wr)) ((fun xs => out x :: xs) <$>
        getDistinct rd key e (key (out x) :: seen) l.length) (out x :: l.map out) _ :=
      (distinct h.2).map fun xs => out x :: xs
    rw [map_eq_pure_bind] at hrest
    refine (cons (f := fun y => Lib.require (decide (key y ∉ seen)) e >>= fun _ =>
      getDistinct rd key e (key y :: seen) l.length >>= fun xs => Pure.pure (y :: xs)) h.1
      (require (k := fun _ => getDistinct rd key e (key (out x) :: seen) l.length >>=
        fun xs => Pure.pure (out x :: xs)) hrest)).congr rfl ?_
    simp only [decide_eq_true_eq, List.forall_mem_cons, List.map_cons, List.nodup_cons]
    simp only [List.mem_cons, List.mem_map, not_or, not_exists, not_and]
    constructor
    · rintro ⟨h₁, h₂, h₃, h₄, h₅⟩
      exact ⟨⟨h₁, h₃⟩, ⟨h₂, fun y hy => (h₄ y hy).2⟩, fun y hy => (h₄ y hy).1, h₅⟩
    · rintro ⟨⟨h₁, h₃⟩, ⟨h₂, h₄⟩, h₅, h₆⟩
      exact ⟨h₁, h₂, h₃, fun y hy => ⟨h₅ y hy, h₄ y hy⟩, h₆⟩

end Reads

/-! ### Writers that are always read back -/

/-- `w` writes, and `r` yields `a` from what it wrote and leaves the rest. -/
def Delivers {ε α : Type} (w : Sink ε) (r : Reader ε α) (a : α) : Prop :=
  ∃ bs, w = .ok bs ∧ ∀ rest, r.run (bs ++ rest) = .ok (a, rest)

theorem Reads.delivers {ε α : Type} {w : Sink ε} {r : Reader ε α} {a : α} {P : Prop}
    (h : Reads w r a P) (hP : P) {bs : Bytes} (hw : w = .ok bs) (hlen : bs.length < 2 ^ 32) :
    Delivers w r a :=
  ⟨bs, hw, fun rest => h.ok hP bs rest hw hlen⟩

namespace Delivers
variable {ε α β : Type} {w : Sink ε} {ws : List (Sink ε)} {r : Reader ε α} {a : α} {b : β}
  {f : α → Reader ε β}

theorem congr {a' : α} (h : Delivers w r a) (ha : a = a') : Delivers w r a' := ha ▸ h

theorem pure (a : α) :
    Delivers (Sink.all []) (Pure.pure a : Reader ε α) a := ⟨[], rfl, fun _ => rfl⟩

/-- The next field of a record. -/
theorem cons (h : Delivers w r a) (h' : Delivers (Sink.all ws) (f a) b) :
    Delivers (Sink.all (w :: ws)) (r >>= f) b := by
  obtain ⟨x, hx, hrx⟩ := h
  obtain ⟨y, hy, hry⟩ := h'
  refine ⟨x ++ y, Sink.all_cons hx hy, fun rest => ?_⟩
  rw [List.append_assoc, run_bind_ok (hrx (y ++ rest))]
  exact hry rest

theorem map (h : Delivers w r a) (g : α → β) : Delivers w (g <$> r) (g a) := by
  obtain ⟨x, hx, hrx⟩ := h
  refine ⟨x, hx, fun rest => ?_⟩
  rw [StateT.run_map, hrx rest]
  rfl

theorem bytes (short : ε) (bs : Bytes) : Delivers (.ok bs) (getBytes short bs.length) bs :=
  ⟨bs, rfl, fun rest => getBytes_append short bs rest⟩

/-- Records one after the other. -/
theorem many {wr : β → Sink ε} {rd : Reader ε β} :
    ∀ {l : List β}, (∀ x ∈ l, Delivers (wr x) rd x) →
      Delivers (Sink.all (l.map wr)) (getMany rd l.length) l
  | [], _ => .pure []
  | x :: l, h => by
    rw [List.forall_mem_cons] at h
    obtain ⟨bx, hbx, hrx⟩ := h.1
    obtain ⟨bl, hbl, hrl⟩ := many h.2
    refine ⟨bx ++ bl, Sink.all_cons hbx hbl, fun rest => ?_⟩
    rw [List.append_assoc, List.length_cons, getMany, run_bind_ok (hrx (bl ++ rest)),
      run_bind_ok (hrl rest)]
    rfl

end Delivers

end Lib
