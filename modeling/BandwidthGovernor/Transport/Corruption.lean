import Mathlib
import BandwidthGovernor.Persist.RoundTrip
import BandwidthGovernor.Transport.Checksum
import BandwidthGovernor.Transport.Framing

/-! Damage to snapshots and frames.

    Both formats are sealed. The length field fixes how long the whole is, so what is too short or
    too long is not of the format. Two strings of one length start with the same header, and what
    follows it is a codeword of the checksum: in a snapshot the payload with its checksum, in a
    frame the type and the length as well. The readers accept nothing else. -/

namespace BG

open Lib

/-! ### The checksum at the end -/

/-- Bytes that end with the checksum of those before. -/
def Summed (t : Bytes) : Prop :=
  Crc.Codeword crcTable (BitVec.allOnes 32) (t.map UInt8.toBitVec)

/-- Only the entry of zero has a zero top byte. -/
theorem crcTable_topDistinct : Crc.TopDistinct crcTable :=
  crcTable_tabulates.topDistinct (by decide +kernel)

theorem summed_detects : Detects Summed 4 :=
  (Crc.detects crcTable_topDistinct _).comap fun _ _ => UInt8.toBitVec_inj.mp

theorem map_u32Bytes (v : UInt32) : (u32Bytes v).map UInt8.toBitVec = Crc.wordBytes v.toBitVec := by
  have hbyte : ∀ n : ℕ, (UInt8.ofNat n).toBitVec = BitVec.ofNat 8 n := fun _ => rfl
  have hpart : ∀ k : ℕ,
      (v.toBitVec >>> k).setWidth 8 = BitVec.ofNat 8 (v.toNat / 2 ^ k) := fun k => by
    refine BitVec.eq_of_toNat_eq ?_
    rw [BitVec.toNat_setWidth, BitVec.toNat_ushiftRight, BitVec.toNat_ofNat,
      Nat.shiftRight_eq_div_pow]
    rfl
  have hlow : v.toBitVec.setWidth 8 = BitVec.ofNat 8 v.toNat := by
    have h := hpart 0
    rwa [BitVec.ushiftRight_zero, pow_zero, Nat.div_one] at h
  simp only [u32Bytes, leBytes, List.map_cons, List.map_nil, hbyte, Crc.wordBytes, hpart, hlow,
    Nat.div_div_eq_div_mul]
  norm_num

theorem summed_crc32 (m : Bytes) : Summed (m ++ u32Bytes (crc32 m)) := by
  have h := Crc.codeword_append (T := crcTable) (BitVec.allOnes 32) (m.map UInt8.toBitVec)
  have hall : BitVec.allOnes 32 = (0xFFFFFFFF : UInt32).toBitVec := rfl
  rw [hall, ← crcUpdate_toBitVec, ← UInt32.toBitVec_not, ← map_u32Bytes, ← List.map_append] at h
  exact h

theorem leBytes_inj {k m n : ℕ} (hm : m < 256 ^ k) (hn : n < 256 ^ k)
    (h : leBytes k m = leBytes k n) :
    m = n := by
  rw [← leNat_leBytes hm, ← leNat_leBytes hn, h]

/-! ### What the readers throw -/

/-- The exception is a `value_error`. -/
def Error.IsValue (e : Error) : Prop := ∃ what, e = .value what

theorem throws_get {ε : Type} {P : ε → Prop} : Throws P (get : Reader ε Bytes) :=
  fun _ _ he => by cases he

theorem throws_require (c : Bool) (what : String) :
    Throws Error.IsValue (require c (Error.value what)) := .require ⟨what, rfl⟩ c

theorem throws_getBytes (n : ℕ) : Throws Error.IsValue (getBytes truncated n) := .bytes ⟨_, rfl⟩ n

theorem throws_getU32 : Throws Error.IsValue getU32 := (Throws.le ⟨_, rfl⟩ 4).map _

theorem throws_getU64 : Throws Error.IsValue getU64 := (Throws.le ⟨_, rfl⟩ 8).map _

theorem throws_readEnvelope : Throws Error.IsValue readEnvelope :=
  (throws_getBytes _).bind fun _ => (throws_require _ _).bind fun _ => throws_getU32.bind fun _ =>
  (throws_require _ _).bind fun _ => throws_getU64.bind fun _ => (throws_require _ _).bind fun _ =>
  (throws_getBytes _).bind fun _ => throws_getU32.bind fun _ => (throws_require _ _).bind fun _ =>
  throws_get.bind fun _ => (throws_require _ _).bind fun _ => .pure _

theorem throws_readFrame : Throws Error.IsValue readFrame :=
  throws_getU32.bind fun _ => (throws_require _ _).bind fun _ => throws_getU32.bind fun _ =>
  (throws_require _ _).bind fun _ => throws_getU32.bind fun _ => throws_getU32.bind fun _ =>
  throws_get.bind fun _ => (throws_require _ _).bind fun _ => (throws_getBytes _).bind fun _ =>
  throws_getU32.bind fun _ => throws_get.bind fun _ => (throws_require _ _).bind fun _ =>
  (throws_require _ _).bind fun _ => .pure _

/-! ### Envelopes -/

/-- An envelope around a payload within the bound. -/
def IsEnvelope (data : Bytes) : Prop :=
  ∃ payload, payload.length ≤ 2 ^ 30 ∧ envelope payload = .ok data

/-- Magic, version and length. -/
def envelopeHeader (n : ℕ) : Bytes :=
  kEnvelopeMagic ++ (u32Bytes kFormatVersion ++ leBytes 8 (UInt64.ofNat n).toNat)

theorem envelopeHeader_length (n : ℕ) : (envelopeHeader n).length = 20 := by
  simp [envelopeHeader, u32Bytes, kEnvelopeMagic, ascii]

theorem isEnvelope_iff {data : Bytes} : IsEnvelope data ↔ ∃ payload, payload.length ≤ 2 ^ 30 ∧
    data = envelopeHeader payload.length ++ (payload ++ u32Bytes (crc32 payload)) := by
  refine exists_congr fun payload => and_congr_right fun _ => ?_
  rw [envelope_eq, Except.ok.injEq, eq_comm]
  simp [envelopeHeader, u32Bytes]

theorem envelopeHeader_inj {m n : ℕ} (hm : m ≤ 2 ^ 30) (hn : n ≤ 2 ^ 30)
    (h : envelopeHeader m = envelopeHeader n) : m = n := by
  have hword : ∀ {k : ℕ}, k ≤ 2 ^ 30 → (UInt64.ofNat k).toNat = k := fun hk => by
    rw [UInt64.toNat_ofNat', Nat.mod_eq_of_lt (by omega)]
  have hlast := List.append_cancel_left (List.append_cancel_left h)
  rw [hword hm, hword hn] at hlast
  exact leBytes_inj (by omega) (by omega) hlast

theorem envelope_sealed : Sealed IsEnvelope Summed 20 where
  header x hx := by
    obtain ⟨payload, -, rfl⟩ := isEnvelope_iff.mp hx
    rw [List.length_append, envelopeHeader_length]
    omega
  length x y hx hy htake := by
    obtain ⟨p, hp, rfl⟩ := isEnvelope_iff.mp hx
    obtain ⟨q, hq, rfl⟩ := isEnvelope_iff.mp hy
    rw [List.take_left' (envelopeHeader_length _),
      List.take_left' (envelopeHeader_length _)] at htake
    have hlen := envelopeHeader_inj hp hq htake
    simp [hlen, envelopeHeader_length, u32Bytes]
  code x y hx hy hlen := by
    obtain ⟨p, hp, rfl⟩ := isEnvelope_iff.mp hx
    obtain ⟨q, hq, rfl⟩ := isEnvelope_iff.mp hy
    have hpq : p.length = q.length := by
      simp only [List.length_append, envelopeHeader_length, u32Bytes_length] at hlen
      omega
    exact ⟨envelopeHeader p.length, _, _, rfl, by rw [hpq], summed_crc32 p, summed_crc32 q⟩

/-- What is no envelope is rejected. -/
theorem decodeSnapshot_of_not {data : Bytes} (h : ¬ IsEnvelope data) :
    ∃ what, decodeSnapshot data = .error (.value what) := by
  unfold decodeSnapshot
  split
  · exact ⟨_, rfl⟩
  · cases hread : readEnvelope.run data with
    | error e =>
      obtain ⟨what, rfl⟩ := throws_readEnvelope _ _ hread
      exact ⟨what, rfl⟩
    | ok x =>
      obtain ⟨-, hlen, henv⟩ := readEnvelope_eq_ok hread
      exact absurd ⟨x.1.2, hlen, henv⟩ h

/-! ### Frames -/

/-- Magic and version. -/
def frameHead : Bytes := u32Bytes kWireMagic ++ u32Bytes kWireVersion

/-- What the checksum of a frame covers. -/
def frameBody (type : UInt32) (payload : Bytes) : Bytes :=
  crcHdr type (UInt32.ofNat payload.length) ++ payload

/-- A frame with some type word, around a payload that its length field can count. -/
def IsFrame (data : Bytes) : Prop := ∃ type payload, payload.length < 2 ^ 32 ∧
  data = frameHead ++ (frameBody type payload ++ u32Bytes (crc32 (frameBody type payload)))

theorem encodeFrame_eq (type : Coded WireType) (payload : Bytes) : encodeFrame type payload =
    frameHead ++
      (frameBody type.code payload ++ u32Bytes (crc32 (frameBody type.code payload))) := by
  simp [encodeFrame, frameCrc_eq, frameHead, frameBody, crcHdr]

theorem frame_length (type : UInt32) (payload : Bytes) :
    (frameHead ++ (frameBody type payload ++ u32Bytes (crc32 (frameBody type payload)))).length =
      payload.length + 20 := by
  simp only [frameHead, frameBody, crcHdr, List.length_append, u32Bytes_length]
  omega

/-- The first sixteen bytes of a frame. -/
theorem frame_take (type : UInt32) (payload : Bytes) :
    (frameHead ++ (frameBody type payload ++ u32Bytes (crc32 (frameBody type payload)))).take 16 =
      frameHead ++ crcHdr type (UInt32.ofNat payload.length) := by
  rw [frameBody, ← List.append_assoc, ← List.append_assoc, List.append_assoc (frameHead ++ _)]
  refine List.take_left' ?_
  simp [frameHead, crcHdr, u32Bytes]

theorem readFrame_eq_ok {data rest : Bytes} {f : DecodedFrame}
    (h : readFrame.run data = .ok (f, rest)) : IsFrame data := by
  unfold readFrame at h
  obtain ⟨magic, s₁, hmagic, h₁⟩ := run_bind_eq_ok h
  obtain rfl := getU32_eq_ok hmagic
  obtain ⟨hm, h₂⟩ := require_bind_eq_ok h₁
  rw [decide_eq_true_eq] at hm
  subst hm
  obtain ⟨ver, s₃, hver, h₃⟩ := run_bind_eq_ok h₂
  obtain rfl := getU32_eq_ok hver
  obtain ⟨hv, h₄⟩ := require_bind_eq_ok h₃
  rw [decide_eq_true_eq] at hv
  subst hv
  obtain ⟨type, s₅, htype, h₅⟩ := run_bind_eq_ok h₄
  obtain rfl := getU32_eq_ok htype
  obtain ⟨len, s₆, hlen, h₆⟩ := run_bind_eq_ok h₅
  obtain rfl := getU32_eq_ok hlen
  obtain ⟨left, s₇, hget, h₇⟩ := run_bind_eq_ok h₆
  cases hget
  obtain ⟨-, h₈⟩ := require_bind_eq_ok h₇
  obtain ⟨payload, s₉, hbody, h₉⟩ := run_bind_eq_ok h₈
  obtain ⟨rfl, hblen⟩ := getBytes_eq_ok hbody
  obtain ⟨crc, s₁₀, hcrc, h₁₀⟩ := run_bind_eq_ok h₉
  obtain rfl := getU32_eq_ok hcrc
  obtain ⟨left, s₁₁, hget, h₁₁⟩ := run_bind_eq_ok h₁₀
  cases hget
  obtain ⟨hempty, h₁₂⟩ := require_bind_eq_ok h₁₁
  rw [List.isEmpty_iff] at hempty
  subst hempty
  obtain ⟨hsum, -⟩ := require_bind_eq_ok h₁₂
  rw [decide_eq_true_eq] at hsum
  subst hsum
  refine ⟨type, payload, hblen ▸ len.toNat_lt, ?_⟩
  rw [frameBody, hblen, UInt32.ofNat_toNat, ← frameCrc_eq]
  simp [frameHead, crcHdr, u32Bytes]

theorem frame_sealed : Sealed IsFrame Summed 16 where
  header x hx := by
    obtain ⟨type, payload, -, rfl⟩ := hx
    rw [frame_length]
    omega
  length x y hx hy htake := by
    obtain ⟨a, p, hp, rfl⟩ := hx
    obtain ⟨b, q, hq, rfl⟩ := hy
    rw [frame_take, frame_take] at htake
    have hwords := List.append_cancel_left htake
    have hlen : u32Bytes (UInt32.ofNat p.length) = u32Bytes (UInt32.ofNat q.length) :=
      (List.append_inj hwords (by simp [u32Bytes])).2
    rw [u32Bytes, u32Bytes, u32_ofNat_toNat hp, u32_ofNat_toNat hq] at hlen
    rw [frame_length, frame_length, leBytes_inj (by omega) (by omega) hlen]
  code x y hx hy hlen := by
    obtain ⟨a, p, hp, rfl⟩ := hx
    obtain ⟨b, q, hq, rfl⟩ := hy
    exact ⟨frameHead, _, _, rfl, rfl, summed_crc32 _, summed_crc32 _⟩

theorem decodeFrame_of_not {data : Bytes} (h : ¬ IsFrame data) :
    ∃ what, decodeFrame data = .error (.value what) := by
  unfold decodeFrame decodeWith
  cases hread : readFrame.run data with
  | error e =>
    obtain ⟨what, rfl⟩ := throws_readFrame _ _ hread
    exact ⟨what, rfl⟩
  | ok x => exact absurd (readFrame_eq_ok hread) h

/-! ### Corruption -/

/-- An encoded snapshot whose payload is within the bound, and an encoded frame whose payload its
    length field can count: cut short, extended, or changed within four consecutive bytes, whichever
    fields these lie in, it is rejected with a `value_error`. -/
theorem corruption_detected :
    (∀ s payload data data', encodePayload s = .ok payload → payload.length ≤ 2 ^ 30 →
      encodeSnapshot s = .ok data → Corrupts 4 data data' →
      ∃ what, decodeSnapshot data' = .error (.value what)) ∧
    ∀ type payload data', payload.length < 2 ^ 32 → Corrupts 4 (encodeFrame type payload) data' →
      ∃ what, decodeFrame data' = .error (.value what) := by
  refine ⟨fun s payload data data' hp hlen hdata hc => ?_, fun type payload data' hlen hc => ?_⟩
  · obtain ⟨p, hp', henv⟩ := encodeSnapshot_eq_ok hdata
    obtain rfl : payload = p := Except.ok.inj (hp.symm.trans hp')
    exact decodeSnapshot_of_not (envelope_sealed.corrupted summed_detects ⟨payload, hlen, henv⟩ hc)
  · have hframe : IsFrame (encodeFrame type payload) :=
      ⟨type.code, payload, hlen, encodeFrame_eq type payload⟩
    exact decodeFrame_of_not (frame_sealed.corrupted summed_detects hframe hc)

/-- The theorem for a small snapshot with a byte more, and a frame with its type and the low byte of
    its length changed. -/
theorem corruption_detected_sample :
    (∃ data, encodeSnapshot Sample.snapshot = .ok data ∧
      ∃ what, decodeSnapshot (data ++ [0]) = .error (.value what)) ∧
    ∃ what, decodeFrame ((encodeFrame (.named .ack) [1, 2, 3]).take 9 ++ [1, 0, 0, 2] ++
      (encodeFrame (.named .ack) [1, 2, 3]).drop 13) = .error (.value what) := by
  obtain ⟨payload, hp⟩ := encodePayload_ok Sample.snapshot_shortStrings
  have hlen := Sample.snapshot_payload payload hp
  obtain ⟨data, hdata, -⟩ := decodeSnapshot_encodeSnapshot hp hlen
  refine ⟨⟨data, hdata, ?_⟩, ?_⟩
  · exact corruption_detected.1 _ payload data _ hp hlen hdata
      (.extended data [0] (List.cons_ne_nil _ _))
  · have hsplit : encodeFrame (.named .ack) [1, 2, 3] =
        (encodeFrame (.named .ack) [1, 2, 3]).take 9 ++ [0, 0, 0, 3] ++
          (encodeFrame (.named .ack) [1, 2, 3]).drop 13 := by decide +kernel
    refine corruption_detected.2 (.named .ack) [1, 2, 3] _ (by decide) ?_
    nth_rewrite 1 [hsplit]
    exact .damaged _ _ _ _ rfl (by decide) (by decide)

end BG
