import TermChat.Core.Chunks

/-! Protocol detection against TCP segmentation. `process` decides on the bytes of the first
chunk, and never again. -/
namespace TermChat
open Proto Framing ProtobufHandler

namespace TcpConnection

variable {η σ : Type} (http : HttpHandler η) (c : Codec) (svc : Services σ)

theorem protocol_runHandler (conn : TcpConnection η σ) :
    (runHandler http c svc conn).2.protocol =
      match conn.protocol with
      | .undetermined => .undetermined
      | .http handler => .http (http.process handler conn.readBuff conn.writeBuff).2.1
      | .protobuf => .protobuf := by
  cases hp : conn.protocol <;> simp [runHandler, hp]

theorem connType_runHandler (conn : TcpConnection η σ) :
    (runHandler http c svc conn).2.protocol.connType = conn.protocol.connType := by
  rw [protocol_runHandler]
  cases conn.protocol <;> rfl

theorem runHandler_determined {conn : TcpConnection η σ} (h : conn.protocol ≠ .undetermined) :
    (runHandler http c svc conn).2.protocol ≠ .undetermined := by
  rw [protocol_runHandler]
  cases hp : conn.protocol with
  | undetermined => exact absurd hp h
  | http handler => simp
  | protobuf => simp

theorem process_of_determined {conn : TcpConnection η σ} (h : conn.protocol ≠ .undetermined) :
    process http c svc conn = runHandler http c svc conn := by
  unfold process
  cases hp : conn.protocol with
  | undetermined => exact absurd hp h
  | http handler => rfl
  | protobuf => rfl

theorem process_of_undetermined {conn : TcpConnection η σ} (hp : conn.protocol = .undetermined)
    (hne : conn.readBuff.readable ≠ []) :
    process http c svc conn = runHandler http c svc (determine http conn) := by
  have hpos : conn.readBuff.readableBytes ≠ 0 := by
    rw [← Buffer.length_readable]
    exact fun h0 => hne (List.length_eq_zero_iff.mp h0)
  simp only [process, hp, if_neg hpos]

theorem connType_deliverAll {conn : TcpConnection η σ} (h : conn.protocol ≠ .undetermined)
    (chunks : List Bytes) :
    (deliverAll http c svc conn chunks).protocol.connType = conn.protocol.connType := by
  induction chunks generalizing conn with
  | nil => rfl
  | cons chunk chunks ih =>
    have hstep : conn.deliver http c svc chunk = (runHandler http c svc
        { conn with readBuff := readAll conn.readBuff chunk }).2 := by
      unfold deliver
      rw [process_of_determined http c svc (by exact h)]
    have hdet : (conn.deliver http c svc chunk).protocol ≠ .undetermined := by
      rw [hstep]
      exact runHandler_determined http c svc (by exact h)
    show (deliverAll http c svc (conn.deliver http c svc chunk) chunks).protocol.connType = _
    rw [ih hdet, hstep]
    exact connType_runHandler http c svc _

/-- The first chunk decides. -/
theorem connType_deliverAll_init (w : σ) {chunk : Bytes} (hchunk : chunk ≠ [])
    (chunks : List Bytes) :
    (deliverAll http c svc (init w) (chunk :: chunks)).protocol.connType =
      if isHttpRequest chunk then .http else .protobuf := by
  set conn : TcpConnection η σ := { init w with readBuff := readAll (init (η := η) w).readBuff chunk }
    with hconn
  have hread : conn.readBuff.readable = chunk := by
    rw [hconn, readable_readAll]
    exact List.nil_append chunk
  have hdet : (determine http conn).protocol ≠ .undetermined := by
    unfold determine
    split_ifs <;> simp
  have hstep : deliver http c svc (init w) chunk = (runHandler http c svc (determine http conn)).2 := by
    unfold deliver
    rw [process_of_undetermined http c svc rfl (by rw [hread]; exact hchunk)]
  show (deliverAll http c svc (deliver http c svc (init w) chunk) chunks).protocol.connType = _
  rw [connType_deliverAll http c svc (by rw [hstep]; exact runHandler_determined http c svc hdet),
    hstep, connType_runHandler, determine, hread]
  split_ifs <;> rfl

theorem isHttpRequest_iff_of_isPrefix {chunk stream : Bytes} (h : chunk <+: stream) :
    isHttpRequest chunk = true ↔ 4 ≤ chunk.length ∧ stream.take 4 ∈ methods := by
  obtain ⟨rest, rfl⟩ := h
  unfold isHttpRequest
  rw [Bool.and_eq_true, decide_eq_true_eq, List.contains_iff_mem]
  apply and_congr_right
  intro hlen
  rw [List.take_append_of_le_length hlen]

/-- Two ways of cutting a stream give the same protocol exactly if the stream does not begin with
a method, or the first chunks of both, or of neither, have four bytes. -/
theorem connType_eq_iff (w : σ) (a b : Bytes) (as bs : List Bytes)
    (ha : ∀ chunk ∈ a :: as, chunk ≠ []) (hb : ∀ chunk ∈ b :: bs, chunk ≠ [])
    (hsame : (a :: as).flatten = (b :: bs).flatten) :
    (deliverAll http c svc (init w) (a :: as)).protocol.connType =
        (deliverAll http c svc (init w) (b :: bs)).protocol.connType ↔
      (a :: as).flatten.take 4 ∉ methods ∨ (4 ≤ a.length ↔ 4 ≤ b.length) := by
  have hpa : a <+: (a :: as).flatten := List.prefix_append a _
  have hpb : b <+: (a :: as).flatten := by
    rw [hsame]
    exact List.prefix_append b _
  rw [connType_deliverAll_init http c svc w (ha a List.mem_cons_self),
    connType_deliverAll_init http c svc w (hb b List.mem_cons_self)]
  by_cases hm : (a :: as).flatten.take 4 ∈ methods
  · have hia : isHttpRequest a = true ↔ 4 ≤ a.length := by
      rw [isHttpRequest_iff_of_isPrefix hpa]
      exact and_iff_left hm
    have hib : isHttpRequest b = true ↔ 4 ≤ b.length := by
      rw [isHttpRequest_iff_of_isPrefix hpb]
      exact and_iff_left hm
    rw [or_iff_right (not_not_intro hm), ← hia, ← hib]
    cases isHttpRequest a <;> cases isHttpRequest b <;> simp
  · have hno : ∀ chunk, chunk <+: (a :: as).flatten → isHttpRequest chunk = false := by
      intro chunk hpiece
      rw [← Bool.not_eq_true, isHttpRequest_iff_of_isPrefix hpiece]
      exact fun h => hm h.2
    rw [hno a hpa, hno b hpb]
    exact iff_of_true rfl (.inl hm)

/-- `GET ` in one piece, and after a first piece of one byte. -/
theorem connType_eq_iff_get :
    ¬ ((deliverAll noHttp heartbeatCodec (clockServices 0) (init ())
          [[71, 69, 84, 32]]).protocol.connType =
        (deliverAll noHttp heartbeatCodec (clockServices 0) (init ())
          [[71], [69, 84, 32]]).protocol.connType) := by
  rw [connType_eq_iff noHttp heartbeatCodec (clockServices 0) () [71, 69, 84, 32] [71] []
    [[69, 84, 32]] (by decide) (by decide) (by decide)]
  decide

/-- The same four bytes in two ways: the first makes the connection an HTTP connection, the
second a protobuf one. -/
theorem connType_depends_on_chunks :
    ∃ a b : List Bytes, (∀ chunk ∈ a ++ b, chunk ≠ []) ∧ a.flatten = b.flatten ∧
      4 ≤ a.flatten.length ∧
      (deliverAll noHttp heartbeatCodec (clockServices 0) (init ()) a).protocol.connType = .http ∧
      (deliverAll noHttp heartbeatCodec (clockServices 0) (init ()) b).protocol.connType =
        .protobuf := by
  refine ⟨[[71, 69, 84, 32]], [[71], [69, 84, 32]], by decide, rfl, by decide, ?_, ?_⟩
  · rw [connType_deliverAll_init noHttp heartbeatCodec (clockServices 0) () (by decide)]
    rfl
  · rw [connType_deliverAll_init noHttp heartbeatCodec (clockServices 0) () (by decide)]
    rfl

end TcpConnection
end TermChat
