import TermChat.Handler.Protobuf

/-! `TcpConnection`: protocol detection, the drain loop of `read` and `process`. The HTTP
handler is a parameter. -/
namespace TermChat
open Proto Framing ProtobufHandler

inductive ConnType where
  | http
  | protobuf
  deriving DecidableEq, Repr

/-- A fresh `HttpHandler` and its `Process`, on the read and the write buffer. -/
structure HttpHandler (η : Type) where
  init : η
  process : η → Buffer → Buffer → Bool × η × Buffer × Buffer

/-- `protocol_determined_`, `handler_` and `conn_type_`, which are only ever set together. -/
inductive Protocol (η : Type) where
  | undetermined
  | http (handler : η)
  | protobuf

def Protocol.connType {η : Type} : Protocol η → ConnType
  | .undetermined => .http
  | .http _ => .http
  | .protobuf => .protobuf

structure TcpConnection (η σ : Type) extends HandlerState σ where
  protocol : Protocol η

namespace TcpConnection

variable {η σ : Type}

def init (w : σ) : TcpConnection η σ :=
  { readBuff := .init Buffer.initBufferSize
    writeBuff := .init Buffer.initBufferSize
    world := w
    dispatched := []
    protocol := .undetermined }

def methods : List Bytes :=
  [['G', 'E', 'T', ' '], ['P', 'O', 'S', 'T'], ['H', 'E', 'A', 'D'], ['P', 'U', 'T', ' '],
    ['D', 'E', 'L', 'E']].map (List.map Char.toUInt8)

def isHttpRequest (data : Bytes) : Bool := 4 ≤ data.length && methods.contains (data.take 4)

variable (http : HttpHandler η) (c : Codec) (svc : Services σ)

def runHandler (conn : TcpConnection η σ) : Bool × TcpConnection η σ :=
  match conn.protocol with
  | .undetermined => (false, conn)
  | .http handler =>
    let (ok, handler, rb, wb) := http.process handler conn.readBuff conn.writeBuff
    (ok, { conn with readBuff := rb, writeBuff := wb, protocol := .http handler })
  | .protobuf =>
    let (produced, st) := processLoop c svc conn.toHandlerState
    (produced, { conn with toHandlerState := st })

def determine (conn : TcpConnection η σ) : TcpConnection η σ :=
  { conn with
    protocol := if isHttpRequest conn.readBuff.readable then .http http.init else .protobuf }

def process (conn : TcpConnection η σ) : Bool × TcpConnection η σ :=
  match conn.protocol with
  | .undetermined =>
    if conn.readBuff.readableBytes = 0 then (false, conn)
    else runHandler http c svc (determine http conn)
  | _ => runHandler http c svc conn

/-- The loop of `read` while `data` waits in the socket: each `read_fd` takes what its two
segments hold. A level-triggered read is the case in which all of it fits at once. -/
def readAll (b : Buffer) (data : Bytes) : Buffer :=
  if data = [] then b
  else
    readAll (b.readFd (data.take (b.writableBytes + Buffer.extraBytes)) (by simp))
      (data.drop (b.writableBytes + Buffer.extraBytes))
termination_by data.length
decreasing_by
  have := List.length_pos_of_ne_nil ‹¬ data = []›
  simp only [List.length_drop, Buffer.extraBytes]
  omega

def deliver (conn : TcpConnection η σ) (chunk : Bytes) : TcpConnection η σ :=
  (process http c svc { conn with readBuff := readAll conn.readBuff chunk }).2

def deliverAll (conn : TcpConnection η σ) (chunks : List Bytes) : TcpConnection η σ :=
  chunks.foldl (deliver http c svc) conn

@[simp] theorem readable_readAll (b : Buffer) (data : Bytes) :
    (readAll b data).readable = b.readable ++ data := by
  induction hn : data.length using Nat.strong_induction_on generalizing b data with
  | _ n ih =>
    rw [readAll]
    split_ifs with h
    · simp [h]
    · have hpos := List.length_pos_of_ne_nil h
      rw [ih _ (by simp only [List.length_drop, Buffer.extraBytes]; omega) _ _ rfl,
        Buffer.readable_readFd, List.append_assoc, List.take_append_drop]

theorem process_protobuf {conn : TcpConnection η σ} (hp : conn.protocol = .protobuf) :
    let out := decodeAll c.parse kMaxMessageSize conn.readBuff.readable
    let conn' := (process http c svc conn).2
    ((process http c svc conn).1 = true ↔ out.1 ≠ []) ∧
      conn'.protocol = .protobuf ∧
      conn'.readBuff.readable = out.2 ∧
      conn'.dispatched = conn.dispatched ++ out.1 ∧
      conn'.world = (responses svc out.1 conn.world).2 ∧
      conn'.writeBuff.readable =
        conn.writeBuff.readable ++ (responses svc out.1 conn.world).1.flatMap (encoded c) := by
  have h : process http c svc conn =
      ((processLoop c svc conn.toHandlerState).1,
        { conn with toHandlerState := (processLoop c svc conn.toHandlerState).2 }) := by
    simp [process, runHandler, hp]
  obtain ⟨h0, h1, h2, h3, h4⟩ := processLoop_spec c svc conn.toHandlerState
  rw [h]
  exact ⟨h0, hp, h1, h2, h3, h4⟩

/-- Bytes that do not start an HTTP request make the connection a protobuf one. -/
theorem process_undetermined {conn : TcpConnection η σ} (hp : conn.protocol = .undetermined)
    (hb : conn.readBuff.readable ≠ []) (hh : isHttpRequest conn.readBuff.readable = false) :
    process http c svc conn = process http c svc { conn with protocol := .protobuf } := by
  have hne : conn.readBuff.readableBytes ≠ 0 := by
    rw [← Buffer.length_readable]
    exact fun h0 => hb (List.length_eq_zero_iff.mp h0)
  simp [process, hp, hne, runHandler, determine, hh]

theorem isHttpRequest_of_short {data : Bytes} (h : data.length < 4) : isHttpRequest data = false := by
  simp [isHttpRequest, not_le.mpr h]

private theorem head_methods : ∀ m ∈ methods, m.head? ≠ some 0 := by decide

/-- No method starts with a zero byte, the first byte of every admissible frame length. -/
theorem isHttpRequest_zero (data : Bytes) : isHttpRequest (0 :: data) = false := by
  rw [isHttpRequest, Bool.and_eq_false_iff]
  refine .inr (Bool.eq_false_iff.mpr fun h => ?_)
  exact head_methods _ (List.contains_iff_mem.mp h) rfl

/-- The next bytes go to the protobuf handler. -/
def TakesProtobuf (conn : TcpConnection η σ) (chunk : Bytes) : Prop :=
  conn.protocol = .protobuf ∨ conn.protocol = .undetermined ∧
    conn.readBuff.readable ++ chunk ≠ [] ∧ isHttpRequest (conn.readBuff.readable ++ chunk) = false

theorem deliver_spec {conn : TcpConnection η σ} {chunk : Bytes} (h : conn.TakesProtobuf chunk) :
    let out := decodeAll c.parse kMaxMessageSize (conn.readBuff.readable ++ chunk)
    let conn' := conn.deliver http c svc chunk
    conn'.protocol = .protobuf ∧
      conn'.readBuff.readable = out.2 ∧
      conn'.dispatched = conn.dispatched ++ out.1 ∧
      conn'.world = (responses svc out.1 conn.world).2 ∧
      conn'.writeBuff.readable =
        conn.writeBuff.readable ++ (responses svc out.1 conn.world).1.flatMap (encoded c) := by
  -- the connection as `process` finds it, with the protocol that it determines
  let conn₁ : TcpConnection η σ :=
    { conn with readBuff := readAll conn.readBuff chunk, protocol := .protobuf }
  have hproc : conn.deliver http c svc chunk = (process http c svc conn₁).2 := by
    unfold deliver
    rcases h with hpb | ⟨hun, hne, hh⟩
    · simp only [conn₁, ← hpb]
    · rw [process_undetermined http c svc (by exact hun) (by simpa using hne) (by simpa using hh)]
  have hspec := (process_protobuf http c svc (rfl : conn₁.protocol = .protobuf)).2
  rw [← hproc] at hspec
  simpa only [conn₁, readable_readAll] using hspec

end TcpConnection
end TermChat
