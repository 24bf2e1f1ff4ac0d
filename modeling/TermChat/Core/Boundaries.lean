import TermChat.Core.Chunks

/-! Frame boundaries between `SendEnvelope` and the decoder. The client has no size limit;
of a frame above the limit of the server only the header is skipped. -/
namespace TermChat.TcpConnection
open Proto Framing ProtobufHandler

variable {η σ : Type} (http : HttpHandler η) (c : Codec) (svc : Services σ) (w : σ)

/-- The next byte to be decoded starts a frame: what is unread and what is still to come
are the frames of a rest of the list. -/
def AtBoundary (es : List Envelope) (rest : Bytes) (conn : TcpConnection η σ) : Prop :=
  ∃ todo, todo <:+ es ∧ conn.readBuff.readable ++ rest = c.stream todo

variable {c}

private theorem length_stream_le {es fs : List Envelope} (h : es <:+ fs) :
    (c.stream es).length ≤ (c.stream fs).length := by
  obtain ⟨pre, rfl⟩ := h
  simp [Codec.stream]

/-- A payload without its header is not the start of a frame of the list. -/
theorem headless_ne_stream {pre post todo : List Envelope} {e : Envelope}
    (htodo : todo <:+ pre ++ e :: post) (he : c.serializeAsString e ≠ []) :
    c.serializeAsString e ++ c.stream post ≠ c.stream todo := by
  intro heq
  have hlen := congrArg List.length heq
  have hpos := List.length_pos_of_ne_nil he
  have hcons : (c.stream (e :: post)).length =
      4 + (c.serializeAsString e).length + (c.stream post).length := by
    simp [Codec.stream]
  rw [List.length_append] at hlen
  rcases List.suffix_or_suffix_of_suffix htodo (List.suffix_append pre (e :: post)) with h | h
  · rcases List.suffix_cons_iff.mp h with rfl | h
    · omega
    · have := length_stream_le (c := c) h
      omega
  · have := length_stream_le (c := c) h
    omega

/-- The header of the first frame above the limit, delivered after the frames before it, is
skipped alone. -/
theorem oversize_header_skipped {pre : List Envelope} (hpre : ∀ e ∈ pre, Admissible c e) {n : ℕ}
    (hn : kMaxMessageSize < n) (hl : n < 2 ^ 32) :
    ((init (η := η) w).deliverAll http c svc
      [(c.stream pre ++ be32 n).take 1, (c.stream pre ++ be32 n).drop 1]).readBuff.readable = [] := by
  have hlen : 4 ≤ (c.stream pre ++ be32 n).length := by simp
  generalize hS : c.stream pre ++ be32 n = S at hlen ⊢
  have hone : (S.take 1).length = 1 := by
    rw [List.length_take]
    omega
  have hne : S.take 1 ≠ [] := List.ne_nil_of_length_pos (by omega)
  -- the first byte alone can be no HTTP method
  have htakes : (init (η := η) w).TakesProtobuf (S.take 1) := by
    refine .inr ⟨rfl, ?_, ?_⟩
    · simpa [init] using hne
    · exact isHttpRequest_of_short (by simp [init, hone])
  obtain ⟨hproto, hread, -⟩ := deliver_spec http c svc htakes
  have hfirst : decodeAll c.parse kMaxMessageSize (S.take 1) = ([], S.take 1) := by
    have hd : decode c.parse kMaxMessageSize (S.take 1) = (S.take 1, none) :=
      decode_short (by omega)
    rw [decodeAll_of_none (by rw [hd]), hd]
  obtain ⟨-, hread', -⟩ := deliver_spec http c svc (.inl hproto : TakesProtobuf _ (S.drop 1))
  have hlast : decodeAll c.parse kMaxMessageSize (be32 n) = ([], []) := by
    have hd : decode c.parse kMaxMessageSize (be32 n ++ []) = ([], none) :=
      decode_oversize hn hl []
    rw [List.append_nil] at hd
    rw [decodeAll_of_none (by rw [hd]), hd]
  have hall := decodeAll_frames (fun e he => ⟨(hpre e he).length_le, (hpre e he).parse⟩)
    kMaxMessageSize_lt (be32 n)
  simp only [init, Buffer.readable_init, List.nil_append, hfirst] at hread
  change (TcpConnection.deliver http c svc (TcpConnection.deliver http c svc _ _) _).readBuff.readable = _
  rw [hread', init, hread, List.take_append_drop, ← hS, Codec.stream, hall, hlast]

theorem exists_first_oversize {es : List Envelope}
    (hes : ∀ e ∈ es, ∃ s, c.serialize e = some s ∧ s.length < 2 ^ 32)
    (h : ¬ ∀ e ∈ es, (c.serializeAsString e).length ≤ kMaxMessageSize) :
    ∃ pre e post, es = pre ++ e :: post ∧ (∀ a ∈ pre, Admissible c a) ∧
      kMaxMessageSize < (c.serializeAsString e).length ∧
      (c.serializeAsString e).length < 2 ^ 32 := by
  obtain ⟨e, hfind⟩ : ∃ e, es.find? (fun e => kMaxMessageSize < (c.serializeAsString e).length) =
      some e := by
    rw [← Option.isSome_iff_exists, List.find?_isSome]
    simpa using h
  obtain ⟨hbig, pre, post, rfl, hpre⟩ := List.find?_eq_some_iff_append.mp hfind
  refine ⟨pre, e, post, rfl, fun a ha => ?_, by simpa using hbig, ?_⟩
  · obtain ⟨s, hs, -⟩ := hes a (by simp [ha])
    have hle := hpre a ha
    rw [Codec.serializeAsString_eq hs] at hle
    exact ⟨s, hs, by simpa using hle⟩
  · obtain ⟨s, hs, hlt⟩ := hes e (by simp)
    rwa [Codec.serializeAsString_eq hs]

/-- Admissible frames, delivered in chunks and cut off anywhere, keep their boundaries. -/
theorem boundaries_of_admissible {es : List Envelope} (hadm : ∀ e ∈ es, Admissible c e)
    {chunks : List Bytes} {rest : Bytes} (hchunks : ∀ chunk ∈ chunks, chunk ≠ [])
    (hflat : chunks.flatten ++ rest = c.stream es) :
    ((init (η := η) w).deliverAll http c svc chunks).dispatched.Sublist es ∧
      AtBoundary c es rest ((init (η := η) w).deliverAll http c svc chunks) := by
  obtain ⟨todo, htodo, hdel, -⟩ := (init_served c svc w es).deliverAll http hadm hchunks
    ⟨rest, by simpa using hflat⟩
  refine ⟨?_, todo, ⟨_, htodo.symm⟩, ?_⟩
  · conv_rhs => rw [htodo]
    exact List.sublist_append_left _ _
  · rw [List.nil_append] at hdel
    rw [hdel] at hflat
    conv at hflat => rhs; rw [htodo, Codec.stream, List.map_append, frames_append]
    rw [List.append_assoc] at hflat
    exact List.append_cancel_left hflat

/-- Every chunking of the stream, cut off anywhere, dispatches a subsequence of what was sent
and leaves the decoder at a frame boundary, exactly when no envelope is above the limit. -/
theorem frame_boundaries_kept_iff (es : List Envelope)
    (hes : ∀ e ∈ es, ∃ s, c.serialize e = some s ∧ s.length < 2 ^ 32) :
    (∀ chunks rest, (∀ chunk ∈ chunks, chunk ≠ []) → chunks.flatten ++ rest = c.stream es →
        ((init (η := η) w).deliverAll http c svc chunks).dispatched.Sublist es ∧
        AtBoundary c es rest ((init (η := η) w).deliverAll http c svc chunks)) ↔
      ∀ e ∈ es, (c.serializeAsString e).length ≤ kMaxMessageSize := by
  constructor
  · intro h
    by_contra hcon
    obtain ⟨pre, e, post, rfl, hadm, hbig, hlt⟩ := exists_first_oversize hes hcon
    have hskip := oversize_header_skipped http svc w hadm hbig hlt
    -- everything up to the header of `e` arrives, its first byte alone
    generalize hS : c.stream pre ++ be32 (c.serializeAsString e).length = S at hskip
    have hlen : 4 ≤ S.length := by simp [← hS]
    have hchunks : ∀ chunk ∈ [S.take 1, S.drop 1], chunk ≠ [] := by
      simp only [List.mem_cons, List.not_mem_nil, or_false]
      rintro chunk (rfl | rfl)
      · exact List.ne_nil_of_length_pos (by rw [List.length_take]; omega)
      · exact List.ne_nil_of_length_pos (by rw [List.length_drop]; omega)
    have hflat : [S.take 1, S.drop 1].flatten ++ (c.serializeAsString e ++ c.stream post) =
        c.stream (pre ++ e :: post) := by
      rw [List.flatten_cons, List.flatten_cons, List.flatten_nil, List.append_nil,
        List.take_append_drop, ← hS]
      simp [Codec.stream, frame]
    obtain ⟨-, todo, htodo, hrest⟩ := h _ _ hchunks hflat
    rw [hskip, List.nil_append] at hrest
    exact headless_ne_stream htodo (List.ne_nil_of_length_pos (by omega)) hrest
  · intro h chunks rest hchunks hflat
    refine boundaries_of_admissible http svc w (fun e he => ?_) hchunks hflat
    obtain ⟨s, hs, -⟩ := hes e he
    exact ⟨s, hs, Codec.serializeAsString_eq hs ▸ h e he⟩

@[irreducible] def zeros (n : ℕ) : Bytes := List.replicate n 0

def bigMessage : Envelope :=
  { seq := 1, cmd := .p2pMsgReq, payload := some (.p2pMsgReq { content := zeros (2 ^ 20) }) }

/-- The wire bytes of `bigMessage`: fields 1 and 2, then field 300 with the content in field 5. -/
def bigBytes : Bytes :=
  [0x08, 1, 0x10, 50, 0xE2, 0x12, 0x84, 0x80, 0x40, 0x2A, 0x80, 0x80, 0x40] ++ zeros (2 ^ 20)

def bigCodec : Codec := .ofTable [({}, []), (bigMessage, bigBytes)] (by simp [bigBytes])

theorem length_bigBytes : bigBytes.length = 1048589 := by
  rw [bigBytes, List.length_append, zeros, List.length_replicate]
  rfl

theorem bigMessage_ne : ({} : Envelope) ≠ bigMessage := by
  intro h
  exact absurd (congrArg Envelope.cmd h) (by simp [bigMessage])

theorem serialize_bigMessage : bigCodec.serialize bigMessage = some bigBytes := by
  simp [bigCodec, Codec.ofTable, bigMessage_ne]

theorem serialize_default : bigCodec.serialize {} = some [] := by
  simp [bigCodec, Codec.ofTable]

/-- The default envelope, which has no bytes at all, in two chunks and with its end missing. -/
theorem frame_boundaries_kept_default :
    ((init (η := Unit) ()).deliverAll noHttp bigCodec (clockServices 1700000000)
      [[0], [0, 0]]).dispatched.Sublist [{}] ∧
    AtBoundary bigCodec [{}] [0] ((init (η := Unit) ()).deliverAll noHttp bigCodec
      (clockServices 1700000000) [[0], [0, 0]]) := by
  have hser : ∀ e ∈ [({} : Envelope)], ∃ s, bigCodec.serialize e = some s ∧ s.length < 2 ^ 32 := by
    intro e he
    rw [List.mem_singleton.mp he]
    exact ⟨[], serialize_default, by simp⟩
  have hsize : ∀ e ∈ [({} : Envelope)], (bigCodec.serializeAsString e).length ≤ kMaxMessageSize := by
    intro e he
    rw [List.mem_singleton.mp he, Codec.serializeAsString_eq serialize_default]
    exact Nat.zero_le kMaxMessageSize
  have hstream : bigCodec.stream [{}] = [0, 0, 0, 0] := by
    rw [Codec.stream, List.map_singleton, Codec.serializeAsString_eq serialize_default]
    decide
  exact (frame_boundaries_kept_iff noHttp (clockServices 1700000000) () [{}] hser).mpr hsize
    [[0], [0, 0]] [0] (by decide) (by rw [hstream]; rfl)

theorem deliver_oversize {conn : TcpConnection η σ} {chunk : Bytes}
    (ht : conn.TakesProtobuf chunk) (hr : conn.readBuff.readable = []) (hl : chunk.length = 4)
    (hn : kMaxMessageSize < beNat chunk) :
    (conn.deliver http c svc chunk).protocol = .protobuf ∧
      (conn.deliver http c svc chunk).readBuff.readable = [] := by
  obtain ⟨hp, hread, -⟩ := deliver_spec http c svc ht
  have hd : decode c.parse kMaxMessageSize chunk = ([], none) := by
    have htake : chunk.take 4 = chunk := List.take_of_length_le hl.le
    have hdrop : chunk.drop 4 = [] := List.drop_of_length_le hl.le
    rw [decode, htake, hdrop, if_neg (by omega), if_pos hn]
  rw [hr, List.nil_append, decodeAll_of_none (by rw [hd]), hd] at hread
  exact ⟨hp, hread⟩

theorem deliverAll_oversize {conn : TcpConnection η σ} {words : List Bytes}
    (hp : conn.protocol = .protobuf) (hr : conn.readBuff.readable = [])
    (hw : ∀ word ∈ words, word.length = 4 ∧ kMaxMessageSize < beNat word) :
    (conn.deliverAll http c svc words).protocol = .protobuf ∧
      (conn.deliverAll http c svc words).readBuff.readable = [] := by
  induction words generalizing conn with
  | nil => exact ⟨hp, hr⟩
  | cons word words ih =>
    obtain ⟨hl, hn⟩ := hw word List.mem_cons_self
    obtain ⟨hp', hr'⟩ := deliver_oversize http svc (.inl hp) hr hl hn
    exact ih hp' hr' fun word hword => hw word (List.mem_cons_of_mem _ hword)

/-- The frame of `bigMessage` up to its third content byte, in words of four bytes. -/
def bigWords : List Bytes :=
  [[0x08, 1, 0x10, 50], [0xE2, 0x12, 0x84, 0x80], [0x40, 0x2A, 0x80, 0x80], [0x40, 0, 0, 0]]

/-- The header, the words of the frame, a word of zeros and the rest of the content. -/
def bigChunks : List Bytes := [0, 0x10, 0, 0x0D] :: (bigWords ++ [[0, 0, 0, 0], zeros 1048569])

private theorem flatten_bigChunks : bigChunks.flatten = bigCodec.stream [bigMessage] := by
  have hz : zeros (2 ^ 20) = [0, 0, 0, 0, 0, 0, 0] ++ zeros 1048569 := by
    rw [show (2 : ℕ) ^ 20 = 7 + 1048569 from rfl, zeros, zeros, List.replicate_add]
    rfl
  have hlen : be32 1048589 = [0, 0x10, 0, 0x0D] := by decide
  rw [Codec.stream, List.map_singleton, Codec.serializeAsString_eq serialize_bigMessage, frames_cons,
    frames_nil, List.append_nil, frame, length_bigBytes, hlen, bigBytes, hz]
  simp only [bigChunks, bigWords, List.flatten_cons, List.flatten_nil, List.append_nil,
    List.cons_append, List.nil_append]

private theorem bigChunks_ne_nil : ∀ chunk ∈ bigChunks, chunk ≠ [] := by
  have hz : zeros 1048569 ≠ [] := List.ne_nil_of_length_pos (by rw [zeros, List.length_replicate]; decide)
  simp only [bigChunks, bigWords, List.cons_append, List.nil_append, List.mem_cons,
    List.not_mem_nil, or_false, forall_eq_or_imp, forall_eq]
  exact ⟨by decide, by decide, by decide, by decide, by decide, by decide, hz⟩

private theorem decodeAll_zero_word :
    decodeAll bigCodec.parse kMaxMessageSize [0, 0, 0, 0] = ([{}], []) := by
  have hd : decode bigCodec.parse kMaxMessageSize [0, 0, 0, 0] = ([], some {}) := by
    have hparse := bigCodec.parse_serialize {} [] serialize_default
    have hframe : decode bigCodec.parse kMaxMessageSize (frame [] ++ []) = ([], bigCodec.parse []) :=
      decode_frame (Nat.zero_le _) kMaxMessageSize_lt []
    rwa [hparse] at hframe
  have hnil : decode bigCodec.parse kMaxMessageSize [] = ([], none) := decode_short (by simp)
  rw [decodeAll_of_some (by rw [hd]), hd, decodeAll_of_none (by rw [hnil]), hnil]

/-- The header and the words before the content read as lengths above the limit, and four
zero bytes of the content as an empty frame, whatever the rest of the content is. -/
theorem default_dispatched (rest : Bytes) :
    {} ∈ ((init (η := Unit) ()).deliverAll noHttp bigCodec (clockServices 1700000000)
      ([0, 0x10, 0, 0x0D] :: (bigWords ++ [[0, 0, 0, 0], rest]))).dispatched := by
  let svc := clockServices 1700000000
  let conn₁ := (init (η := Unit) ()).deliver noHttp bigCodec svc [0, 0x10, 0, 0x0D]
  obtain ⟨p1, r1⟩ : conn₁.protocol = .protobuf ∧ conn₁.readBuff.readable = [] :=
    deliver_oversize noHttp svc (.inr ⟨rfl, by simp, by decide⟩) (by simp [init]) rfl (by decide)
  let conn₂ := conn₁.deliverAll noHttp bigCodec svc bigWords
  obtain ⟨p2, r2⟩ : conn₂.protocol = .protobuf ∧ conn₂.readBuff.readable = [] :=
    deliverAll_oversize noHttp svc p1 r1 (by decide)
  let conn₃ := conn₂.deliver noHttp bigCodec svc [0, 0, 0, 0]
  obtain ⟨p3, -, d3, -⟩ := deliver_spec noHttp bigCodec svc (.inl p2 : conn₂.TakesProtobuf [0, 0, 0, 0])
  rw [r2, List.nil_append, decodeAll_zero_word] at d3
  have hmem : {} ∈ conn₃.dispatched := by
    rw [d3]
    exact List.mem_append_right _ List.mem_cons_self
  obtain ⟨-, -, d4, -⟩ := deliver_spec noHttp bigCodec svc (.inl p3 : conn₃.TakesProtobuf rest)
  have hlast : (init (η := Unit) ()).deliverAll noHttp bigCodec svc
      ([0, 0x10, 0, 0x0D] :: (bigWords ++ [[0, 0, 0, 0], rest])) =
        conn₃.deliver noHttp bigCodec svc rest := by
    simp only [TcpConnection.deliverAll, List.foldl_cons, List.foldl_append, List.foldl_nil,
      conn₃, conn₂, conn₁]
  rw [hlast, d4]
  exact List.mem_append_left _ hmem

/-- The server dispatches the default envelope, which nobody sent: it finds it in the content
of a message above the limit. -/
theorem oversize_message_injects_envelope :
    (∀ chunk ∈ bigChunks, chunk ≠ []) ∧ bigChunks.flatten = bigCodec.stream [bigMessage] ∧
      (∃ s, bigCodec.serialize bigMessage = some s ∧ s.length < 2 ^ 32) ∧
      ¬ ((init (η := Unit) ()).deliverAll noHttp bigCodec (clockServices 1700000000)
        bigChunks).dispatched.Sublist [bigMessage] := by
  refine ⟨bigChunks_ne_nil, flatten_bigChunks,
    ⟨_, serialize_bigMessage, by rw [length_bigBytes]; decide⟩, fun hsub => ?_⟩
  have hmem := hsub.subset (default_dispatched (zeros 1048569))
  exact bigMessage_ne (List.mem_singleton.mp hmem)

end TermChat.TcpConnection
