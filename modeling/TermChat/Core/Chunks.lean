import TermChat.Core.Connection
import Mathlib.Data.List.Infix

/-! The bytes of a list of `SendEnvelope` calls, delivered to a connection in any chunking
with `process` after each chunk. -/
namespace TermChat.TcpConnection
open Proto Framing ProtobufHandler

variable {η σ : Type} (http : HttpHandler η) (c : Codec) (svc : Services σ) (w : σ)

/-- Protobuf serialises the envelope to at most `kMaxMessageSize` bytes. -/
def Admissible (e : Envelope) : Prop :=
  ∃ s, c.serialize e = some s ∧ s.length ≤ kMaxMessageSize

variable {c} in
theorem Admissible.length_le {e : Envelope} (h : Admissible c e) :
    (c.serializeAsString e).length ≤ kMaxMessageSize := by
  obtain ⟨s, hs, hl⟩ := h
  rwa [Codec.serializeAsString_eq hs]

variable {c} in
theorem Admissible.parse {e : Envelope} (h : Admissible c e) :
    c.parse (c.serializeAsString e) = some e := by
  obtain ⟨s, hs, -⟩ := h
  exact Codec.parse_serializeAsString (by rw [hs]; rfl)

theorem kMaxMessageSize_lt : kMaxMessageSize < 2 ^ 32 := by decide

/-- After the bytes `delivered` of the stream of `es`: the whole frames among them have been
served, in order and from the world `w`, and the buffer holds a proper piece of the next. -/
def Served (es : List Envelope) (delivered : Bytes) (conn : TcpConnection η σ) : Prop :=
  ∃ todo, es = conn.dispatched ++ todo ∧
    delivered = c.stream conn.dispatched ++ conn.readBuff.readable ∧
    (∀ e ∈ todo.head?, conn.readBuff.readable.length < (c.packet e).length) ∧
    conn.world = (responses svc conn.dispatched w).2 ∧
    conn.writeBuff.readable = (responses svc conn.dispatched w).1.flatMap (encoded c) ∧
    (conn.protocol = .protobuf ∨ delivered = [] ∧ conn.protocol = .undetermined)

theorem init_served (es : List Envelope) : Served c svc w es [] (init (η := η) w) := by
  refine ⟨es, rfl, by simp [init, Codec.stream], ?_, rfl, by simp [init, responses], .inr ⟨rfl, rfl⟩⟩
  intro e _
  simp only [init, Codec.packet, Buffer.readable_init, List.length_nil, length_frame]
  omega

variable {c svc w}

theorem not_http_of_isPrefix {es : List Envelope} (hes : ∀ e ∈ es, Admissible c e) {buf : Bytes}
    (hb : buf <+: c.stream es) : isHttpRequest buf = false := by
  cases buf with
  | nil => exact isHttpRequest_of_short (by simp)
  | cons b buf =>
    cases es with
    | nil => exact absurd (List.prefix_nil.mp hb) (by simp)
    | cons e es =>
      have hle := (hes e List.mem_cons_self).length_le
      obtain ⟨rest, hr⟩ := hb
      have hhead : b = UInt8.ofNat ((c.serializeAsString e).length / 2 ^ 24) := by
        simpa [Codec.stream, frame, be32] using congrArg List.head? hr
      have hzero : (c.serializeAsString e).length / 2 ^ 24 = 0 := by
        rw [kMaxMessageSize] at hle
        omega
      rw [hhead, hzero]
      exact isHttpRequest_zero buf

theorem decodeAll_stream {todo : List Envelope} (htodo : ∀ e ∈ todo, Admissible c e) {buf : Bytes}
    (hb : buf <+: c.stream todo) :
    ∃ left, todo = (decodeAll c.parse kMaxMessageSize buf).1 ++ left ∧
      buf = c.stream (decodeAll c.parse kMaxMessageSize buf).1 ++
        (decodeAll c.parse kMaxMessageSize buf).2 ∧
      ∀ e ∈ left.head?,
        (decodeAll c.parse kMaxMessageSize buf).2.length < (c.packet e).length :=
  decodeAll_of_isPrefix (fun e he => ⟨(htodo e he).length_le, (htodo e he).parse⟩)
    kMaxMessageSize_lt hb

variable (svc) in
theorem process_protobuf_of_isPrefix {todo : List Envelope} (htodo : ∀ e ∈ todo, Admissible c e)
    {conn : TcpConnection η σ} (hproto : conn.protocol = .protobuf)
    (hb : conn.readBuff.readable <+: c.stream todo) :
    ∃ done left, todo = done ++ left ∧
      (process http c svc conn).2.dispatched = conn.dispatched ++ done ∧
      conn.readBuff.readable = c.stream done ++ (process http c svc conn).2.readBuff.readable ∧
      (∀ e ∈ left.head?,
        (process http c svc conn).2.readBuff.readable.length < (c.packet e).length) ∧
      (process http c svc conn).2.protocol = .protobuf := by
  obtain ⟨-, h1, h2, h3, -⟩ := process_protobuf http c svc hproto
  obtain ⟨left, hleft, hsplit, hshort⟩ := decodeAll_stream htodo hb
  rw [h1, h2, h3]
  exact ⟨_, left, hleft, rfl, hsplit, hshort, rfl⟩

variable (svc) in
/-- `process` on a piece of a stream of admissible frames: the whole frames in it are
dispatched, and a proper piece of the next one stays. -/
theorem process_of_isPrefix {todo : List Envelope} (htodo : ∀ e ∈ todo, Admissible c e)
    {conn : TcpConnection η σ} (hproto : conn.protocol = .protobuf ∨ conn.protocol = .undetermined)
    (hb : conn.readBuff.readable <+: c.stream todo) :
    ∃ done left, todo = done ++ left ∧
      (process http c svc conn).2.dispatched = conn.dispatched ++ done ∧
      conn.readBuff.readable = c.stream done ++ (process http c svc conn).2.readBuff.readable ∧
      (∀ e ∈ left.head?,
        (process http c svc conn).2.readBuff.readable.length < (c.packet e).length) ∧
      ((process http c svc conn).2.protocol = .protobuf ∨
        (process http c svc conn).2.protocol = .undetermined) := by
  cases hproto with
  | inl hpb =>
    obtain ⟨done, left, htodo, hdisp, hread, hshort, hpb⟩ :=
      process_protobuf_of_isPrefix http svc htodo hpb hb
    exact ⟨done, left, htodo, hdisp, hread, hshort, .inl hpb⟩
  | inr hun =>
    by_cases hne : conn.readBuff.readable = []
    · have hsame : process http c svc conn = (false, conn) := by
        have hzero : conn.readBuff.readableBytes = 0 := by
          rw [← Buffer.length_readable, hne, List.length_nil]
        simp [process, hun, hzero]
      rw [hsame, hne]
      refine ⟨[], todo, rfl, by simp, by simp [Codec.stream], ?_, .inr hun⟩
      intro e _
      simp only [Codec.packet, List.length_nil, length_frame]
      omega
    · rw [process_undetermined http c svc hun hne (not_http_of_isPrefix htodo hb)]
      -- the connection is classified first, and then handled as a protobuf one
      have hclassified : ({ conn with protocol := .protobuf } : TcpConnection η σ).protocol =
        .protobuf := rfl
      obtain ⟨done, left, htodo, hdisp, hread, hshort, hpb⟩ :=
        process_protobuf_of_isPrefix http svc htodo hclassified hb
      exact ⟨done, left, htodo, hdisp, hread, hshort, .inl hpb⟩

/-- A chunk that continues the stream keeps the connection in step with it. -/
theorem Served.deliver {es : List Envelope} (hes : ∀ e ∈ es, Admissible c e) {delivered : Bytes}
    {conn : TcpConnection η σ} (h : Served c svc w es delivered conn) {chunk : Bytes}
    (hne : chunk ≠ []) (hp : delivered ++ chunk <+: c.stream es) :
    Served c svc w es (delivered ++ chunk) (conn.deliver http c svc chunk) := by
  obtain ⟨todo, htodo, hdel, -, hw, hwb, hproto⟩ := h
  have hbuf : conn.readBuff.readable ++ chunk <+: c.stream todo := by
    rw [htodo, hdel, List.append_assoc, Codec.stream, Codec.stream, List.map_append,
      frames_append, List.prefix_append_right_inj] at hp
    exact hp
  have hadm : ∀ e ∈ todo, Admissible c e := fun e he =>
    hes e (htodo ▸ List.mem_append_right _ he)
  have htakes : conn.TakesProtobuf chunk := by
    rcases hproto with hpb | ⟨-, hun⟩
    · exact .inl hpb
    · exact .inr ⟨hun, by simp [hne], not_http_of_isPrefix hadm hbuf⟩
  obtain ⟨h1, h2, h3, h4, h5⟩ := deliver_spec http c svc htakes
  obtain ⟨left, hleft, hsplit, hshort⟩ := decodeAll_stream hadm hbuf
  generalize decodeAll c.parse kMaxMessageSize (conn.readBuff.readable ++ chunk) = out at *
  refine ⟨left, ?_, ?_, ?_, ?_, ?_, .inl h1⟩
  · rw [h3, htodo, List.append_assoc, ← hleft]
  · rw [h3, h2, hdel, List.append_assoc, hsplit]
    simp [Codec.stream]
  · rw [h2]
    exact hshort
  · rw [h4, h3, responses_append, hw]
  · rw [h5, h3, responses_append, hw, hwb, List.flatMap_append]

theorem Served.deliverAll {es : List Envelope} (hes : ∀ e ∈ es, Admissible c e)
    {chunks : List Bytes} (hne : ∀ chunk ∈ chunks, chunk ≠ []) {delivered : Bytes}
    {conn : TcpConnection η σ} (h : Served c svc w es delivered conn)
    (hp : delivered ++ chunks.flatten <+: c.stream es) :
    Served c svc w es (delivered ++ chunks.flatten) (conn.deliverAll http c svc chunks) := by
  induction chunks generalizing delivered conn with
  | nil => simpa [TcpConnection.deliverAll] using h
  | cons chunk chunks ih =>
    rw [List.flatten_cons, ← List.append_assoc] at hp ⊢
    have hstep := h.deliver http hes (hne chunk List.mem_cons_self)
      ((List.prefix_append _ _).trans hp)
    exact ih (fun ch hch => hne ch (List.mem_cons_of_mem _ hch)) hstep hp

theorem Served.complete {es : List Envelope} {conn : TcpConnection η σ}
    (h : Served c svc w es (c.stream es) conn) :
    conn.dispatched = es ∧ conn.readBuff.readable = [] := by
  obtain ⟨todo, htodo, hdel, hshort, -⟩ := h
  have hrest : conn.readBuff.readable = c.stream todo := by
    rw [htodo, Codec.stream, List.map_append, frames_append] at hdel
    exact (List.append_cancel_left hdel).symm
  cases todo with
  | nil => exact ⟨by simpa using htodo.symm, by simpa [Codec.stream] using hrest⟩
  | cons e todo =>
    have hlt := hshort e rfl
    rw [hrest] at hlt
    simp only [Codec.stream, Codec.packet, List.map_cons, frames_cons, List.length_append] at hlt
    omega

variable (c svc w)

private theorem flatMap_encoded {rs : List Envelope} (h : ∀ r ∈ rs, (c.serialize r).isSome) :
    rs.flatMap (encoded c) = c.stream rs := by
  induction rs with
  | nil => rfl
  | cons r rs ih =>
    obtain ⟨s, hs⟩ := Option.isSome_iff_exists.mp (h r List.mem_cons_self)
    rw [List.flatMap_cons, ih fun r hr => h r (List.mem_cons_of_mem _ hr)]
    simp [Codec.stream, encoded, hs, Codec.serializeAsString_eq hs]

/-- Pipelined requests on a fresh connection, in any chunking: the connection becomes a
protobuf one, each request is dispatched once and in order, the read buffer ends empty, and
the write buffer holds one frame for each request, with the request's sequence number. -/
theorem pipelined_round_trip (es : List Envelope) (hne : es ≠ []) (chunks : List Bytes)
    (hes : ∀ e ∈ es, ∃ s, c.serialize e = some s ∧ s.length ≤ kMaxMessageSize)
    (hchunks : ∀ chunk ∈ chunks, chunk ≠ []) (hflat : chunks.flatten = c.stream es)
    (hresp : ∀ r ∈ (responses svc es w).1, (c.serialize r).isSome) :
    let conn := (init (η := η) w).deliverAll http c svc chunks
    conn.protocol.connType = .protobuf ∧ conn.dispatched = es ∧ conn.readBuff.readable = [] ∧
      ∃ rs, rs.map Envelope.seq = es.map Envelope.seq ∧ conn.writeBuff.readable = c.stream rs ∧
        ∀ r ∈ rs, c.parse (c.serializeAsString r) = some r := by
  intro conn
  have hserved : Served c svc w es (c.stream es) conn := by
    have := (init_served c svc w es).deliverAll http hes hchunks (by simp [hflat])
    rwa [hflat] at this
  obtain ⟨hdisp, hread⟩ := hserved.complete
  obtain ⟨-, -, -, -, -, hwb, hproto⟩ := hserved
  have hstream : c.stream es ≠ [] := by
    cases es with
    | nil => exact absurd rfl hne
    | cons e es => simp [Codec.stream, frame, be32]
  have hpb : conn.protocol = .protobuf := hproto.resolve_right fun h => hstream h.1
  refine ⟨by rw [hpb]; rfl, hdisp, hread, (responses svc es w).1, responses_seq svc es w, ?_, ?_⟩
  · rw [hwb, hdisp, flatMap_encoded c hresp]
  · intro r hr
    exact Codec.parse_serializeAsString (hresp r hr)

def clockServices (now : Int64) : Services Unit where
  time _ := (now, ())
  currentUserId _ := 0
  userRegister _ _ := ({}, ())
  userLogin _ _ := ({}, ())
  addPendingRequestsTask _ _ := ()
  addFriend _ _ _ := ({}, ())
  handleFriend _ _ _ := ({}, ())
  getFriendList _ _ := ({}, ())
  sendP2pMessage _ _ _ := ({}, ())
  acknowledgeMessage _ _ _ := ({}, ())
  acknowledgeMessageBatch _ _ _ := ([], ())
  syncMessages _ _ _ := ({}, ())

def noHttp : HttpHandler Unit := ⟨(), fun h rb wb => (false, h, rb, wb)⟩

def heartbeat (seq : UInt64) : Envelope := { seq := seq, cmd := .heartbeat }

/-- The wire bytes of two heartbeats and of the responses to them at one second. -/
def heartbeatCodec : Codec :=
  .ofTable
    [(heartbeat 7, [0x08, 7, 0x10, 99]), (heartbeat 8, [0x08, 8, 0x10, 99]),
      ({ seq := 7, timestamp := 1700000000 }, [0x08, 7, 0x18, 0x80, 0xE2, 0xCF, 0xAA, 0x06]),
      ({ seq := 8, timestamp := 1700000000 }, [0x08, 8, 0x18, 0x80, 0xE2, 0xCF, 0xAA, 0x06])]
    (by decide)

/-- Two heartbeats delivered byte by byte. -/
theorem pipelined_round_trip_heartbeats :
    let conn := (init (η := Unit) ()).deliverAll noHttp heartbeatCodec (clockServices 1700000000)
      ((heartbeatCodec.stream [heartbeat 7, heartbeat 8]).map fun b => [b])
    conn.protocol.connType = .protobuf ∧ conn.dispatched = [heartbeat 7, heartbeat 8] ∧
      conn.readBuff.readable = [] ∧
      ∃ rs, rs.map Envelope.seq = [7, 8] ∧ conn.writeBuff.readable = heartbeatCodec.stream rs ∧
        ∀ r ∈ rs, heartbeatCodec.parse (heartbeatCodec.serializeAsString r) = some r :=
  pipelined_round_trip noHttp heartbeatCodec (clockServices 1700000000) ()
    [heartbeat 7, heartbeat 8] (by simp)
    ((heartbeatCodec.stream [heartbeat 7, heartbeat 8]).map fun b => [b])
    (by
      intro e he
      rcases List.mem_pair.mp he with rfl | rfl
      · exact ⟨[0x08, 7, 0x10, 99], rfl, by decide⟩
      · exact ⟨[0x08, 8, 0x10, 99], rfl, by decide⟩)
    (by simp) (by decide) (by decide)

/-- With no request at all there are no bytes, and the connection stays unclassified. -/
theorem empty_pipeline_not_classified :
    ¬ ∀ (es : List Envelope) (chunks : List Bytes),
        (∀ e ∈ es, ∃ s, heartbeatCodec.serialize e = some s ∧ s.length ≤ kMaxMessageSize) →
        (∀ chunk ∈ chunks, chunk ≠ []) → chunks.flatten = heartbeatCodec.stream es →
        ((init (η := Unit) ()).deliverAll noHttp heartbeatCodec (clockServices 1700000000)
          chunks).protocol.connType = .protobuf := by
  intro h
  have hempty := h [] [] (by simp) (by simp) rfl
  exact absurd hempty (by decide)

end TermChat.TcpConnection
