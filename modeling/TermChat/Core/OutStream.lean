import TermChat.Base.Steps
import TermChat.Base.Threads
import TermChat.Core.Chunks
import TermChat.Client.Listener

/-! The bytes that leave a protobuf connection. `process` appends responses to the write buffer,
`enqueue_messages` puts pushes into the outgoing queue, and `write` moves the queue into the
buffer and the buffer into the socket, as much of it as the socket takes. -/
namespace TermChat
open Proto Framing ProtobufHandler

/-- The loop of `write` on the buffer, and the bytes that the socket took. The list has what the
`write_fd` calls return: a count, or `none` for an error, which `EAGAIN` is one of. -/
def writeLoop (isEt : Bool) : Buffer → List (Option ℕ) → Buffer × Bytes
  | b, [] => (b, [])
  | b, answer :: answers =>
    if b.readableBytes = 0 then (b, [])
    else
      match answer with
      | none | some 0 => (b, [])
      | some n =>
        let b' := b.writeFd (min n b.readableBytes) (by simp)
        if isEt = false ∧ b'.readableBytes < 10240 then (b', b.readable.take n)
        else
          let r := writeLoop isEt b' answers
          (r.1, b.readable.take n ++ r.2)

/-- A connection with its outgoing queue and the `enqueue_messages` calls in progress, each with
the messages it still has to queue. `wire`, `produced` and `pushed` record what was put on the
wire and the payloads of responses and pushes, in the order in which they came. -/
structure OutStream (η σ : Type) where
  conn : TcpConnection η σ
  outgoingQueue : List Bytes
  calls : List (List Bytes)
  wire : Bytes
  produced : List Bytes
  pushed : List Bytes

namespace OutStream

variable {η σ : Type} (isEt : Bool) (http : HttpHandler η) (c : Codec) (svc : Services σ)

def init (conn : TcpConnection η σ) : OutStream η σ := ⟨conn, [], [], [], [], []⟩

/-- `enqueue i` lets call `i` queue its next message; `process` finds `data` in the socket. -/
inductive Action where
  | enqueueMessages (messages : List Bytes)
  | enqueue (i : ℕ)
  | process (data : Bytes)
  | write (answers : List (Option ℕ))

def enqueue (s : OutStream η σ) (i : ℕ) : Option (OutStream η σ) :=
  (s.calls[i]?).map fun messages =>
    match messages with
    | [] => { s with calls := Threads.advance s.calls i none }
    | data :: messages =>
      let s := { s with calls := Threads.advance s.calls i (some messages) }
      if data = [] then s
      else
        { s with
          outgoingQueue := s.outgoingQueue ++ [frame data]
          pushed := s.pushed ++ [data] }

def process (s : OutStream η σ) (data : Bytes) : OutStream η σ :=
  let conn := s.conn.deliver http c svc data
  -- the requests that this call has dispatched
  let requests := conn.dispatched.drop s.conn.dispatched.length
  { s with
    conn := conn
    produced := s.produced ++ (responses svc requests s.conn.world).1.filterMap c.serialize }

def write (s : OutStream η σ) (answers : List (Option ℕ)) : OutStream η σ :=
  -- `flush_pending_to_buffer`
  let flushed := s.outgoingQueue.foldl Buffer.append s.conn.writeBuff
  let r := writeLoop isEt flushed answers
  { s with
    conn.writeBuff := r.1
    outgoingQueue := []
    wire := s.wire ++ r.2 }

def step (s : OutStream η σ) : Action → Option (OutStream η σ)
  | .enqueueMessages messages => some { s with calls := s.calls ++ [messages] }
  | .enqueue i => s.enqueue i
  | .process data => some (s.process http c svc data)
  | .write answers => some (s.write isEt answers)

/-- The payload of a frame on the wire: a response on the left, a push on the right. -/
def payload (f : Bytes ⊕ Bytes) : Bytes := f.elim id id

/-- The wire and the write buffer are the frames of `order`, which are the responses and the
first of the pushes; the others, `queued`, are in the outgoing queue. -/
structure Intact (s : OutStream η σ) (order : List (Bytes ⊕ Bytes)) (queued : List Bytes) : Prop where
  produced : order.filterMap Sum.getLeft? = s.produced
  pushed : order.filterMap Sum.getRight? ++ queued = s.pushed
  bytes : s.wire ++ s.conn.writeBuff.readable = frames (order.map payload)
  queue : s.outgoingQueue = queued.map frame
  protobuf : s.conn.protocol = .protobuf

theorem writeLoop_spec (b : Buffer) (answers : List (Option ℕ)) :
    (writeLoop isEt b answers).2 ++ (writeLoop isEt b answers).1.readable = b.readable := by
  induction answers generalizing b with
  | nil => rfl
  | cons answer answers ih =>
    have hsplit : ∀ n, b.readable.take n ++
        (b.writeFd (min n b.readableBytes) (by simp)).readable = b.readable := by
      intro n
      have hmin : b.readable.take n = b.readable.take (min n b.readableBytes) := by
        rw [← Buffer.length_readable, ← List.take_eq_take_min]
      rw [hmin, Buffer.readable_writeFd, List.take_append_drop]
    unfold writeLoop
    split_ifs with hempty
    · rfl
    · split
      · rfl
      · rfl
      · dsimp only
        split_ifs
        · exact hsplit _
        · rw [List.append_assoc, ih, hsplit]

private theorem readable_foldl_append (b : Buffer) (datas : List Bytes) :
    (datas.foldl Buffer.append b).readable = b.readable ++ datas.flatten := by
  induction datas generalizing b with
  | nil => exact (List.append_nil _).symm
  | cons data datas ih => rw [List.foldl_cons, ih, Buffer.readable_append, List.flatten_cons, List.append_assoc]

private theorem flatMap_encoded_eq (es : List Envelope) :
    es.flatMap (encoded c) = frames (es.filterMap c.serialize) := by
  induction es with
  | nil => rfl
  | cons e es ih =>
    rw [List.flatMap_cons, ih, List.filterMap_cons]
    unfold encoded
    cases c.serialize e with
    | none => rfl
    | some s => rfl

variable {isEt http c svc} {s t : OutStream η σ} {order : List (Bytes ⊕ Bytes)} {queued : List Bytes}

theorem Intact.enqueue (h : s.Intact order queued) {i : ℕ} (ht : s.enqueue i = some t) :
    ∃ queued, t.Intact order queued := by
  obtain ⟨messages, -, rfl⟩ := Option.map_eq_some_iff.mp ht
  cases messages with
  | nil => exact ⟨queued, h.produced, h.pushed, h.bytes, h.queue, h.protobuf⟩
  | cons data messages =>
    dsimp only
    split_ifs with hdata
    · exact ⟨queued, h.produced, h.pushed, h.bytes, h.queue, h.protobuf⟩
    · refine ⟨queued ++ [data], h.produced, ?_, h.bytes, ?_, h.protobuf⟩
      · rw [← List.append_assoc, h.pushed]
      · rw [List.map_append, ← h.queue]
        rfl

/-- Responses go behind what is in the buffer. -/
theorem Intact.process (h : s.Intact order queued) (data : Bytes) :
    ∃ order, (s.process http c svc data).Intact order queued := by
  obtain ⟨hproto, -, hdisp, -, hwrite⟩ :=
    TcpConnection.deliver_spec http c svc (.inl h.protobuf : s.conn.TakesProtobuf data)
  set out := decodeAll c.parse kMaxMessageSize (s.conn.readBuff.readable ++ data)
  set payloads := (responses svc out.1 s.conn.world).1.filterMap c.serialize with hpay
  have hproduced : (s.process http c svc data).produced = s.produced ++ payloads := by
    simp only [OutStream.process, hdisp, List.drop_left, hpay]
  refine ⟨order ++ payloads.map .inl, ?_, ?_, ?_, h.queue, hproto⟩
  · rw [hproduced, List.filterMap_append, h.produced]
    simp [List.filterMap_map, Function.comp_def]
  · rw [List.filterMap_append]
    simp only [List.filterMap_map, Function.comp_def, Sum.getRight?_inl, List.filterMap_none,
      List.append_nil]
    exact h.pushed
  · refine (congrArg (s.wire ++ ·) hwrite).trans ?_
    rw [← List.append_assoc, h.bytes, flatMap_encoded_eq, List.map_append, frames_append]
    simp [payload, Function.comp_def, hpay]

/-- The queue goes behind what is in the buffer, and the socket takes from its front. -/
theorem Intact.write (h : s.Intact order queued) (answers : List (Option ℕ)) :
    (s.write isEt answers).Intact (order ++ queued.map .inr) [] := by
  refine ⟨?_, ?_, ?_, rfl, h.protobuf⟩
  · rw [List.filterMap_append]
    simp only [List.filterMap_map, Function.comp_def, Sum.getLeft?_inr, List.filterMap_none,
      List.append_nil]
    exact h.produced
  · show _ = s.pushed
    rw [List.filterMap_append, List.append_nil]
    simpa [List.filterMap_map, Function.comp_def] using h.pushed
  · set r := writeLoop isEt (s.outgoingQueue.foldl Buffer.append s.conn.writeBuff) answers
    have hloop : r.2 ++ r.1.readable = s.conn.writeBuff.readable ++ frames queued := by
      rw [writeLoop_spec, readable_foldl_append, h.queue]
      rfl
    have hwire : s.wire ++ r.2 ++ r.1.readable = frames (order.map payload) ++ frames queued := by
      rw [List.append_assoc, hloop, ← List.append_assoc, h.bytes]
    refine hwire.trans ?_
    rw [List.map_append, frames_append]
    simp [payload, Function.comp_def]

theorem step_intact (h : ∃ order queued, s.Intact order queued) {a : Action}
    (ht : step isEt http c svc s a = some t) : ∃ order queued, t.Intact order queued := by
  obtain ⟨order, queued, h⟩ := h
  cases a with
  | enqueueMessages messages =>
    obtain rfl := Option.some.inj ht
    exact ⟨order, queued, h.produced, h.pushed, h.bytes, h.queue, h.protobuf⟩
  | enqueue i => exact ⟨order, h.enqueue ht⟩
  | process data =>
    obtain rfl := Option.some.inj ht
    obtain ⟨order, h⟩ := h.process data
    exact ⟨order, queued, h⟩
  | write answers =>
    obtain rfl := Option.some.inj ht
    exact ⟨_, _, h.write answers⟩

variable (isEt http c svc) in
/-- Whatever calls of `process`, `enqueue_messages` and `write` a protobuf connection has seen,
the bytes on the wire are the start of a sequence of whole frames: the responses in their order
and the pushes in theirs. A client that reads them, however `recv` splits them, has the payloads
of the frames that are on the wire, if none is above its limit. -/
theorem outbound_stream_intact (conn : TcpConnection η σ) (hproto : conn.protocol = .protobuf)
    (hempty : conn.writeBuff.readable = []) (as : List Action) (s : OutStream η σ)
    (hrun : Steps.run (step isEt http c svc) (init conn) as = some s) :
    ∃ order : List (Bytes ⊕ Bytes),
      order.filterMap Sum.getLeft? = s.produced ∧ order.filterMap Sum.getRight? = s.pushed ∧
      s.wire <+: frames (order.map payload) ∧
      ((∀ p ∈ order.map payload, p.length ≤ ListenerLoop.maxPacket) → ∀ ns,
        let client := (ListenerLoop.init.listen ns s.wire).1
        let unread := (ListenerLoop.init.listen ns s.wire).2
        client.running = true ∧ (s.wire.length ≤ ns.length → unread = []) ∧
        ∃ todo tail, order.map payload = client.bodies ++ todo ∧
          s.wire = frames client.bodies ++ tail ++ unread ∧
          ∀ p ∈ todo.head?, tail.length < (frame p).length) := by
  have hinit : ∃ order queued, (init conn).Intact order queued :=
    ⟨[], [], rfl, rfl, by simp [init, hempty], rfl, hproto⟩
  obtain ⟨order, queued, h⟩ := Steps.invariant_of_run
    (I := fun s => ∃ order queued, OutStream.Intact s order queued)
    (fun _ _ _ hI ht => step_intact hI ht) hinit hrun
  -- once everything that is queued is written, the wire has the frames of this order
  have hall : (s.write isEt []).Intact (order ++ queued.map .inr) [] := h.write []
  have hpre : s.wire <+: frames ((order ++ queued.map Sum.inr).map payload) := by
    rw [List.map_append, frames_append, ← h.bytes, List.append_assoc]
    exact List.prefix_append _ _
  refine ⟨order ++ queued.map .inr, hall.produced, ?_, hpre, fun hsize ns => ?_⟩
  · have hpushed := hall.pushed
    rw [List.append_nil] at hpushed
    exact hpushed
  · exact ListenerLoop.listen_isPrefix hsize hpre ns

section Pieces
open TcpConnection

def idleConn : TcpConnection Unit Unit := { TcpConnection.init (η := Unit) () with protocol := .protobuf }

/-- A push of two bytes and an empty one, and a socket that takes three bytes and then two. -/
def pushInPieces : List Action :=
  [.enqueueMessages [[0x10, 51], []], .enqueue 0, .enqueue 0, .write [some 3, none], .write [some 2]]

theorem outbound_stream_intact_pieces :
    ∃ s, Steps.run (step false noHttp heartbeatCodec (clockServices 0)) (OutStream.init idleConn)
        pushInPieces = some s ∧ s.wire = [0, 0, 0, 2, 0x10] ∧
      ∃ order : List (Bytes ⊕ Bytes), order.filterMap Sum.getRight? = [[0x10, 51]] ∧
        s.wire <+: frames (order.map payload) := by
  obtain ⟨order, -, hpushed, hwire, -⟩ := outbound_stream_intact false noHttp heartbeatCodec
    (clockServices 0) idleConn rfl (by decide) pushInPieces _ rfl
  exact ⟨_, rfl, by decide +kernel, order, hpushed, hwire⟩

end Pieces

end OutStream
end TermChat
