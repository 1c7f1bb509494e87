import Mathlib
import BandwidthGovernor.Transport.Payload

/-! Frames on a stream (`transport.cpp`): `recv_exact`, `recv_frame`, and how they agree with the
    frame codec of `wire.cpp`.

    A stream is what successive calls of `recv` have to deliver, one list of bytes a call; a call
    that asks for less leaves the rest. -/

namespace BG

open Lib

/-! ### The socket -/

abbrev Stream := List Bytes

/-- `recv_exact`; `none` when the peer has closed before all bytes were there. -/
def recvExact : ℕ → Stream → Option (Bytes × Stream)
  | 0, s => some ([], s)
  | _ + 1, [] => none
  | n + 1, c :: s =>
    if c.isEmpty then none
    else if n + 1 < c.length then some (c.take (n + 1), c.drop (n + 1) :: s)
    else match recvExact (n + 1 - c.length) s with
      | none => none
      | some (b, s) => some (c ++ b, s)

/-- The four words of a frame header. -/
def readHeader : Source (UInt32 × UInt32 × UInt32 × UInt32) := do
  let magic ← getU32
  let ver ← getU32
  let type ← getU32
  let len ← getU32
  pure (magic, ver, type, len)

/-- `recv_frame`; `none` when the stream ends. -/
def recvFrame (s : Stream) : Except Error (Option (DecodedFrame × Stream)) :=
  match recvExact 16 s with
  | none => .ok none
  | some (hdr, s) => do
    let (magic, ver, type, len) ← decodeWith readHeader hdr
    if magic ≠ kWireMagic then throw (.value "bad wire magic on stream")
    else if ver ≠ kWireVersion then throw (.value "bad wire version on stream")
    else if len > (1 : UInt32) <<< 28 then throw (.value "wire frame too large")
    else match recvExact len.toNat s with
      | none => pure none
      | some (payload, s) => match recvExact 4 s with
        | none => pure none
        | some (crcb, s) => do
          let crc ← decodeWith getU32 crcb
          if crc ≠ frameCrc (crcHdr type len) payload then
            throw (.value "wire frame checksum mismatch on stream")
          else pure (some (⟨Coded.ofCode type, payload⟩, s))

/-- At most `n` calls of `recv_frame`, up to the first that finds the stream at its end. -/
def recvFrames : ℕ → Stream → Except Error (List DecodedFrame × Stream)
  | 0, s => .ok ([], s)
  | n + 1, s => do
    match ← recvFrame s with
    | none => pure ([], s)
    | some (frame, s) => do
      let (frames, s) ← recvFrames n s
      pure (frame :: frames, s)

/-! ### Partial reads -/

/-- No call of `recv` comes back empty before the end. -/
def Stream.Flows (s : Stream) : Prop := ∀ c ∈ s, c ≠ []

theorem recvExact_ok : ∀ {s : Stream} {n : ℕ}, s.Flows → n ≤ s.flatten.length →
    ∃ s', recvExact n s = some (s.flatten.take n, s') ∧ s'.flatten = s.flatten.drop n ∧ s'.Flows
  | s, 0, h, _ => ⟨s, by simp [recvExact], by simp, h⟩
  | [], n + 1, _, hn => by simp at hn
  | c :: s, n + 1, h, hn => by
    have hc : c ≠ [] := h c List.mem_cons_self
    have hs : Stream.Flows s := fun x hx => h x (List.mem_cons_of_mem c hx)
    rw [recvExact, if_neg (by simpa using hc), List.flatten_cons]
    rw [List.flatten_cons, List.length_append] at hn
    by_cases hlt : n + 1 < c.length
    · rw [if_pos hlt]
      refine ⟨c.drop (n + 1) :: s, ?_, ?_, ?_⟩
      · rw [List.take_append_of_le_length hlt.le]
      · rw [List.flatten_cons, List.drop_append_of_le_length hlt.le]
      · intro x hx
        rcases List.mem_cons.mp hx with rfl | hx
        · simpa using hlt
        · exact hs x hx
    · rw [if_neg hlt]
      obtain ⟨s', he, hf, hfl⟩ :=
        recvExact_ok hs (show n + 1 - c.length ≤ s.flatten.length by omega)
      rw [he]
      refine ⟨s', ?_, ?_, hfl⟩
      · rw [List.take_append, List.take_of_length_le (not_lt.mp hlt)]
      · rw [hf, List.drop_append, List.drop_of_length_le (not_lt.mp hlt), List.nil_append]

/-- A read of the first part of the stream. -/
theorem recvExact_append {s : Stream} (h : s.Flows) {b rest : Bytes} (hs : s.flatten = b ++ rest) :
    ∃ s', recvExact b.length s = some (b, s') ∧ s'.flatten = rest ∧ s'.Flows := by
  have hn : b.length ≤ s.flatten.length := by
    rw [hs, List.length_append]
    omega
  obtain ⟨s', he, hf, hfl⟩ := recvExact_ok h hn
  rw [hs, List.take_left] at he
  rw [hs, List.drop_left] at hf
  exact ⟨s', he, hf, hfl⟩

theorem recvExact_end {s : Stream} (h : s.Flows) (hs : s.flatten = []) (n : ℕ) :
    recvExact (n + 1) s = none := by
  cases s with
  | nil => rfl
  | cons c s =>
    rw [List.flatten_cons, List.append_eq_nil_iff] at hs
    exact absurd hs.1 (h c List.mem_cons_self)

/-! ### One frame -/

theorem u32Bytes_length (v : UInt32) : (u32Bytes v).length = 4 := leBytes_length 4 v.toNat

theorem getU32_append (v : UInt32) (rest : Bytes) :
    getU32.run (u32Bytes v ++ rest) = .ok (v, rest) := by
  obtain ⟨bs, hw, hr⟩ := delivers_u32 v
  cases hw
  exact hr rest

/-- A frame, word by word. -/
def frameBytes (magic ver type len : UInt32) (payload : Bytes) (crc : UInt32) : Bytes :=
  u32Bytes magic ++ u32Bytes ver ++ u32Bytes type ++ u32Bytes len ++ payload ++ u32Bytes crc

theorem readHeader_words (magic ver type len : UInt32) :
    decodeWith readHeader (u32Bytes magic ++ u32Bytes ver ++ u32Bytes type ++ u32Bytes len) =
      .ok (magic, ver, type, len) := by
  have hrun : readHeader.run (u32Bytes magic ++ u32Bytes ver ++ u32Bytes type ++ u32Bytes len) =
      .ok ((magic, ver, type, len), []) := by
    have hlen := getU32_append len []
    rw [List.append_nil] at hlen
    simp only [List.append_assoc]
    rw [readHeader, run_bind_ok (getU32_append magic _), run_bind_ok (getU32_append ver _),
      run_bind_ok (getU32_append type _), run_bind_ok hlen]
    rfl
  rw [decodeWith, hrun]
  rfl

theorem getU32_word (v : UInt32) : decodeWith getU32 (u32Bytes v) = .ok v := by
  have h := getU32_append v []
  rw [List.append_nil] at h
  rw [decodeWith, h]
  rfl

section
variable (magic ver type len crc : UInt32) {payload : Bytes}

/-- What both parsers accept. -/
def FrameOk (payload : Bytes) : Prop :=
  magic = kWireMagic ∧ ver = kWireVersion ∧ crc = frameCrc (crcHdr type len) payload

/-- `decode_frame` on a frame of any words. -/
theorem decodeFrame_words (hlen : payload.length = len.toNat) :
    (FrameOk magic ver type len crc payload →
      decodeFrame (frameBytes magic ver type len payload crc) = .ok ⟨Coded.ofCode type, payload⟩) ∧
    (¬ FrameOk magic ver type len crc payload →
      ∃ e, decodeFrame (frameBytes magic ver type len payload crc) = .error e) := by
  have hcrc := getU32_append crc []
  rw [List.append_nil] at hcrc
  have hpay : (getBytes truncated len.toNat).run (payload ++ u32Bytes crc) =
      .ok (payload, u32Bytes crc) := hlen ▸ getBytes_append truncated payload (u32Bytes crc)
  have hfit : decide (len.toNat ≤ (payload ++ u32Bytes crc).length) = true := by
    rw [decide_eq_true_eq, List.length_append]
    omega
  have hbytes : frameBytes magic ver type len payload crc = u32Bytes magic ++ (u32Bytes ver ++
      (u32Bytes type ++ (u32Bytes len ++ (payload ++ u32Bytes crc)))) := by
    simp [frameBytes]
  -- the reader after the two checks of the header
  have hbody : ∀ e₁ e₂ e₃ : Error, (do
      let type ← getU32
      let len ← getU32
      let rest ← get
      require (decide (len.toNat ≤ rest.length)) e₁
      let payload ← getBytes truncated len.toNat
      let crc ← getU32
      let rest ← get
      require rest.isEmpty e₂
      require (decide (crc = frameCrc (crcHdr type len) payload)) e₃
      pure ⟨Coded.ofCode type, payload⟩ : Source DecodedFrame).run
        (u32Bytes type ++ (u32Bytes len ++ (payload ++ u32Bytes crc))) =
      (require (decide (crc = frameCrc (crcHdr type len) payload)) e₃ >>= fun _ =>
        (pure ⟨Coded.ofCode type, payload⟩ : Source DecodedFrame)).run [] := by
    intro e₁ e₂ e₃
    rw [run_bind_ok (getU32_append type _), run_bind_ok (getU32_append len _), run_get_bind,
      run_bind_ok (run_require_true hfit e₁ _), run_bind_ok hpay, run_bind_ok hcrc, run_get_bind,
      run_bind_ok (run_require_true List.isEmpty_nil e₂ _)]
  unfold decodeFrame decodeWith readFrame
  rw [hbytes, run_bind_ok (getU32_append magic _)]
  refine ⟨fun ⟨hm, hv, hc⟩ => ?_, fun hno => ?_⟩
  · rw [run_bind_ok (run_require_true (decide_eq_true hm) _ _), run_bind_ok (getU32_append ver _),
      run_bind_ok (run_require_true (decide_eq_true hv) _ _), hbody,
      run_bind_ok (run_require_true (decide_eq_true hc) _ _)]
    rfl
  · by_cases hm : magic = kWireMagic
    · rw [run_bind_ok (run_require_true (decide_eq_true hm) _ _), run_bind_ok (getU32_append ver _)]
      by_cases hv : ver = kWireVersion
      · have hc : ¬ decide (crc = frameCrc (crcHdr type len) payload) = true := fun hc =>
          hno ⟨hm, hv, of_decide_eq_true hc⟩
        rw [run_bind_ok (run_require_true (decide_eq_true hv) _ _), hbody,
          run_bind_error (run_require_false hc _ _)]
        exact ⟨_, rfl⟩
      · rw [run_bind_error (run_require_false (by simpa using hv) _ _)]
        exact ⟨_, rfl⟩
    · rw [run_bind_error (run_require_false (by simpa using hm) _ _)]
      exact ⟨_, rfl⟩

/-- `recv_frame` on a stream that starts with a frame of any words. -/
theorem recvFrame_words (hlen : payload.length = len.toNat) (hmax : len.toNat ≤ 2 ^ 28)
    {s : Stream} (hs : s.Flows) {rest : Bytes}
    (hflat : s.flatten = frameBytes magic ver type len payload crc ++ rest) :
    (FrameOk magic ver type len crc payload → ∃ s', s'.Flows ∧ s'.flatten = rest ∧
      recvFrame s = .ok (some (⟨Coded.ofCode type, payload⟩, s'))) ∧
    (¬ FrameOk magic ver type len crc payload → ∃ e, recvFrame s = .error e) := by
  have hsmall : ¬ len > (1 : UInt32) <<< 28 := by
    have h28 : ((1 : UInt32) <<< 28).toNat = 2 ^ 28 := by decide
    rw [gt_iff_lt, UInt32.lt_iff_toNat_lt, h28]
    omega
  have hwords : s.flatten = (u32Bytes magic ++ u32Bytes ver ++ u32Bytes type ++ u32Bytes len) ++
      (payload ++ (u32Bytes crc ++ rest)) := by
    rw [hflat]
    simp [frameBytes]
  obtain ⟨s₁, h₁, hf₁, hs₁⟩ := recvExact_append hs hwords
  obtain ⟨s₂, h₂, hf₂, hs₂⟩ := recvExact_append hs₁ hf₁
  obtain ⟨s₃, h₃, hf₃, hs₃⟩ := recvExact_append hs₂ hf₂
  have h16 : (u32Bytes magic ++ u32Bytes ver ++ u32Bytes type ++ u32Bytes len).length = 16 := by
    simp [u32Bytes_length]
  rw [h16] at h₁
  rw [hlen] at h₂
  rw [u32Bytes_length] at h₃
  unfold recvFrame
  simp only [h₁, readHeader_words, bind, Except.bind]
  refine ⟨fun ⟨hm, hv, hc⟩ => ⟨s₃, hs₃, hf₃, ?_⟩, fun hno => ?_⟩
  · rw [if_neg (not_not_intro hm), if_neg (not_not_intro hv), if_neg hsmall]
    simp only [h₂, h₃, getU32_word]
    rw [if_neg (not_not_intro hc)]
    rfl
  · split
    · exact ⟨_, rfl⟩
    · rename_i hm
      split
      · exact ⟨_, rfl⟩
      · rename_i hv
        simp only [h₂, h₃, getU32_word]
        rw [if_pos fun hc => hno ⟨not_not.mp hm, not_not.mp hv, hc⟩]
        exact ⟨_, rfl⟩

end

/-! ### Whole streams -/

theorem u32_ofNat_toNat {n : ℕ} (h : n < 2 ^ 32) : (UInt32.ofNat n).toNat = n := by
  rw [UInt32.toNat_ofNat', Nat.mod_eq_of_lt h]

theorem enumerated_wireType : Enumerated WireType 18 := ⟨fun e => by cases e <;> decide, rfl⟩

/-- `recv_frame` takes one encoded frame off the stream. -/
theorem recvFrame_encodeFrame {s : Stream} (hs : s.Flows) (m : DecodedFrame)
    (hm : m.payload.length ≤ 2 ^ 28) {rest : Bytes}
    (hflat : s.flatten = encodeFrame m.type m.payload ++ rest) :
    ∃ s', s'.Flows ∧ s'.flatten = rest ∧ recvFrame s = .ok (some (m, s')) := by
  have hlen : (UInt32.ofNat m.payload.length).toNat = m.payload.length := u32_ofNat_toNat (by omega)
  obtain ⟨s', hs', hf', hr⟩ := (recvFrame_words kWireMagic kWireVersion m.type.code
    (UInt32.ofNat m.payload.length) _ hlen.symm (by omega) hs hflat).1 ⟨rfl, rfl, rfl⟩
  rw [Coded.ofCode_code enumerated_wireType] at hr
  exact ⟨s', hs', hf', hr⟩

theorem recvFrame_end {s : Stream} (hs : s.Flows) (hflat : s.flatten = []) :
    recvFrame s = .ok none := by
  rw [recvFrame, recvExact_end hs hflat]

/-- A stream of encoded frames is received frame by frame, and then ends. -/
theorem recvFrames_encoded : ∀ (ms : List DecodedFrame), (∀ m ∈ ms, m.payload.length ≤ 2 ^ 28) →
    ∀ {s : Stream}, s.Flows → s.flatten = (ms.map fun m => encodeFrame m.type m.payload).flatten →
    ∀ {n : ℕ}, ms.length < n → ∃ s', recvFrames n s = .ok (ms, s') ∧ s'.flatten = []
  | [], _, s, hs, hflat, n + 1, _ => by
    refine ⟨s, ?_, hflat⟩
    rw [recvFrames, recvFrame_end hs hflat]
    rfl
  | m :: ms, hm, s, hs, hflat, n + 1, hn => by
    rw [List.forall_mem_cons] at hm
    rw [List.map_cons, List.flatten_cons] at hflat
    obtain ⟨s₁, hs₁, hf₁, hr₁⟩ := recvFrame_encodeFrame hs m hm.1 hflat
    obtain ⟨s₂, hr₂, hf₂⟩ := recvFrames_encoded ms hm.2 hs₁ hf₁ (Nat.lt_of_succ_lt_succ hn)
    refine ⟨s₂, ?_, hf₂⟩
    rw [recvFrames, hr₁]
    simp only [bind, Except.bind, hr₂]
    rfl

/-! ### Two parsers, one verdict -/

/-- Both parsers fail, or both yield the same frame. -/
def SameVerdict (stream : Except Error (Option (DecodedFrame × Stream)))
    (buffer : Except Error DecodedFrame) : Prop :=
  ((∀ x, stream ≠ .ok (some x)) ∧ ∀ m, buffer ≠ .ok m) ∨
    ∃ m s, stream = .ok (some (m, s)) ∧ buffer = .ok m

/-- Four bytes are a word. -/
theorem exists_word {b : Bytes} (h : b.length = 4) : ∃ v : UInt32, b = u32Bytes v := by
  refine ⟨UInt32.ofNat (leNat b), ?_⟩
  have hlt : leNat b < 2 ^ 32 := by
    have := leNat_lt b
    rw [h] at this
    omega
  rw [u32Bytes, u32_ofNat_toNat hlt, ← h, leBytes_leNat]

/-- The length a header declares. -/
def declaredLen (hdr : Bytes) : ℕ := leNat (hdr.drop 12)

theorem exists_words {hdr : Bytes} (h : hdr.length = 16) : ∃ magic ver type len : UInt32,
    hdr = u32Bytes magic ++ u32Bytes ver ++ u32Bytes type ++ u32Bytes len ∧
      declaredLen hdr = len.toNat := by
  obtain ⟨magic, hmagic⟩ := exists_word (b := hdr.take 4) (by simp [h])
  obtain ⟨ver, hver⟩ := exists_word (b := (hdr.drop 4).take 4) (by simp [h])
  obtain ⟨type, htype⟩ := exists_word (b := (hdr.drop 8).take 4) (by simp [h])
  obtain ⟨len, hlen⟩ := exists_word (b := hdr.drop 12) (by simp [h])
  refine ⟨magic, ver, type, len, ?_, ?_⟩
  · have h₁ : hdr = hdr.take 4 ++ hdr.drop 4 := (List.take_append_drop 4 hdr).symm
    have h₂ : hdr.drop 4 = (hdr.drop 4).take 4 ++ hdr.drop 8 := by
      rw [← List.drop_drop (i := 4) (j := 4), List.take_append_drop]
    have h₃ : hdr.drop 8 = (hdr.drop 8).take 4 ++ hdr.drop 12 := by
      rw [← List.drop_drop (i := 4) (j := 8), List.take_append_drop]
    rw [hmagic, h₂, hver, h₃, htype, hlen] at h₁
    rw [h₁]
    simp
  · have hlt : len.toNat < 256 ^ 4 := len.toNat_lt
    rw [declaredLen, hlen, u32Bytes, leNat_leBytes hlt]

/-- Repeated `recv_frame` returns exactly the frames that were sent, however the bytes arrive; and
    on the bytes of one frame, well formed or not, `recv_frame` and `decode_frame` agree. -/
theorem stream_framing_exact :
    (∀ ms : List DecodedFrame, (∀ m ∈ ms, m.payload.length ≤ 2 ^ 28) → ∀ s : Stream, s.Flows →
      s.flatten = (ms.map fun m => encodeFrame m.type m.payload).flatten → ∀ n, ms.length < n →
      ∃ s', recvFrames n s = .ok (ms, s') ∧ s'.flatten = []) ∧
    (∀ hdr payload check : Bytes, hdr.length = 16 → declaredLen hdr ≤ 2 ^ 28 →
      payload.length = declaredLen hdr → check.length = 4 → ∀ s : Stream, s.Flows →
      s.flatten = hdr ++ payload ++ check →
      SameVerdict (recvFrame s) (decodeFrame (hdr ++ payload ++ check))) := by
  refine ⟨fun ms hms s hs hflat n hn => recvFrames_encoded ms hms hs hflat hn,
    fun hdr payload check hhdr hmax hlen hcheck s hs hflat => ?_⟩
  obtain ⟨magic, ver, type, len, rfl, hdecl⟩ := exists_words hhdr
  obtain ⟨crc, rfl⟩ := exists_word hcheck
  rw [hdecl] at hmax hlen
  obtain ⟨hbuf, hbuf'⟩ := decodeFrame_words magic ver type len crc hlen
  have hframe : s.flatten = frameBytes magic ver type len payload crc ++ [] := by
    rw [hflat, List.append_nil]
    rfl
  obtain ⟨hstr, hstr'⟩ := recvFrame_words magic ver type len crc hlen hmax hs hframe
  by_cases hok : FrameOk magic ver type len crc payload
  · obtain ⟨s', -, -, hr⟩ := hstr hok
    exact Or.inr ⟨_, s', hr, hbuf hok⟩
  · obtain ⟨e, he⟩ := hbuf' hok
    obtain ⟨e', he'⟩ := hstr' hok
    refine Or.inl ⟨fun x hx => ?_, fun m hm => ?_⟩
    · rw [he'] at hx
      cases hx
    · change decodeFrame (frameBytes magic ver type len payload crc) = _ at hm
      rw [he] at hm
      cases hm

/-- The theorem for an ack and a shutdown that arrive in chunks of three bytes, and for a header
    with a wrong version. -/
theorem stream_framing_exact_chunks :
    (∃ s',
      recvFrames 3 ((encodeFrame WireType.ack [1] ++ encodeFrame WireType.shutdown []).toChunks 3)
      = .ok ([⟨WireType.ack, [1]⟩, ⟨WireType.shutdown, []⟩], s') ∧ s'.flatten = []) ∧
    SameVerdict (recvFrame [u32Bytes kWireMagic ++ u32Bytes 2 ++ u32Bytes 9 ++ u32Bytes 0 ++ [] ++
        u32Bytes 0])
      (decodeFrame (u32Bytes kWireMagic ++ u32Bytes 2 ++ u32Bytes 9 ++ u32Bytes 0 ++ [] ++
        u32Bytes 0)) := by
  obtain ⟨hstream, hverdict⟩ := stream_framing_exact
  refine ⟨hstream _ (by simp) _ ?_ ?_ 3 (by decide),
    hverdict _ [] _ rfl (by decide) (by decide) rfl _ ?_ (by simp)⟩
  · intro c hc
    revert c
    decide +kernel
  · decide +kernel
  · intro c hc
    rw [List.mem_singleton.mp hc]
    simp [u32Bytes, leBytes]

end BG
