import TermChat.Handler.Dispatch
import TermChat.Proto.Codec
import TermChat.Core.Buffer

/-! `ProtobufHandler::Process`: the decoder, the encoder and the loop around them. -/
namespace TermChat
open Proto Framing

/-- What `Process` works on. `dispatched` logs the requests given to `Dispatch`. -/
structure HandlerState (σ : Type) where
  readBuff : Buffer
  writeBuff : Buffer
  world : σ
  dispatched : List Envelope

namespace ProtobufHandler

def kHeaderSize : ℕ := 4

def kMaxMessageSize : ℕ := 2 ^ 20

/-- `none` is the result `false`. A frame leaves the buffer whether or not it parses; of a
frame above the limit only the header does. -/
def tryDecodeMessage (c : Codec) (b : Buffer) : Buffer × Option Envelope :=
  if h : b.readableBytes < kHeaderSize then (b, none)
  else
    let msgLen := beNat (b.readable.take kHeaderSize)
    if kMaxMessageSize < msgLen then (b.retrieve kHeaderSize (not_lt.mp h), none)
    else if hn : b.readableBytes < kHeaderSize + msgLen then (b, none)
    else
      (b.retrieve (kHeaderSize + msgLen) (not_lt.mp hn),
        c.parse ((b.readable.drop kHeaderSize).take msgLen))

def encodeMessage (c : Codec) (e : Envelope) (b : Buffer) : Buffer :=
  match c.serialize e with
  | none => b
  | some s => (b.append (be32 s.length)).append s

def encoded (c : Codec) (e : Envelope) : Bytes :=
  match c.serialize e with
  | none => []
  | some s => frame s

variable {σ : Type} (c : Codec) (svc : Services σ)

def process (st : HandlerState σ) : Bool × HandlerState σ :=
  match tryDecodeMessage c st.readBuff with
  | (rb, none) => (false, { st with readBuff := rb })
  | (rb, some request) =>
    let (response, w) := respond svc request st.world
    (true,
      { readBuff := rb
        writeBuff := encodeMessage c response st.writeBuff
        world := w
        dispatched := st.dispatched ++ [request] })

@[simp] theorem readable_encodeMessage (e : Envelope) (b : Buffer) :
    (encodeMessage c e b).readable = b.readable ++ encoded c e := by
  unfold encodeMessage encoded
  cases c.serialize e with
  | none => simp
  | some s => simp [frame]

/-- The decoder of the library, at the bytes of the buffer. -/
theorem tryDecodeMessage_eq_decode (b : Buffer) :
    ((tryDecodeMessage c b).1.readable, (tryDecodeMessage c b).2) =
      decode c.parse kMaxMessageSize b.readable := by
  unfold tryDecodeMessage decode
  rw [Buffer.length_readable, show (4 : ℕ) = kHeaderSize from rfl]
  dsimp only
  split_ifs <;> simp

theorem tryDecodeMessage_lt {b : Buffer} {e : Envelope} (h : (tryDecodeMessage c b).2 = some e) :
    (tryDecodeMessage c b).1.readableBytes < b.readableBytes := by
  unfold tryDecodeMessage at h ⊢
  dsimp only at h ⊢
  split_ifs at h ⊢
  simp only [← Buffer.length_readable, Buffer.readable_retrieve, List.length_drop] at *
  simp only [kHeaderSize] at *
  omega

theorem process_lt {st : HandlerState σ} (h : (process c svc st).1 = true) :
    (process c svc st).2.readBuff.readableBytes < st.readBuff.readableBytes := by
  unfold process at h ⊢
  rcases hd : tryDecodeMessage c st.readBuff with ⟨rb, _ | e⟩
  · simp [hd] at h
  · have := tryDecodeMessage_lt c (b := st.readBuff) (e := e) (by rw [hd])
    simpa [hd] using this

/-- `while (handler_->Process(..)) produced_response = true;` -/
def processLoop (st : HandlerState σ) : Bool × HandlerState σ :=
  if (process c svc st).1 = true then (true, (processLoop (process c svc st).2).2)
  else (false, (process c svc st).2)
termination_by st.readBuff.readableBytes
decreasing_by exact process_lt c svc ‹_›

private theorem processLoop_of_false {st : HandlerState σ} (h : (process c svc st).1 = false) :
    processLoop c svc st = (false, (process c svc st).2) := by
  rw [processLoop, if_neg (by simp [h])]

private theorem processLoop_of_true {st : HandlerState σ} (h : (process c svc st).1 = true) :
    processLoop c svc st = (true, (processLoop c svc (process c svc st).2).2) := by
  rw [processLoop, if_pos h]

/-- The responses to requests served one after the other, and the world after them. -/
def responses : List Envelope → σ → List Envelope × σ
  | [], w => ([], w)
  | e :: es, w =>
    let (r, w) := respond svc e w
    let (rs, w) := responses es w
    (r :: rs, w)

theorem responses_seq (es : List Envelope) (w : σ) :
    (responses svc es w).1.map (·.seq) = es.map (·.seq) := by
  induction es generalizing w with
  | nil => rfl
  | cons e es ih => simp [responses, ih]

theorem responses_append (es fs : List Envelope) (w : σ) :
    responses svc (es ++ fs) w =
      ((responses svc es w).1 ++ (responses svc fs (responses svc es w).2).1,
        (responses svc fs (responses svc es w).2).2) := by
  induction es generalizing w with
  | nil => rfl
  | cons e es ih => simp [responses, ih]

/-- The loop dispatches what the decoder finds in the buffer, in order, and appends the
encoded responses. -/
theorem processLoop_spec (st : HandlerState σ) :
    let out := decodeAll c.parse kMaxMessageSize st.readBuff.readable
    let st' := (processLoop c svc st).2
    ((processLoop c svc st).1 = true ↔ out.1 ≠ []) ∧
      st'.readBuff.readable = out.2 ∧
      st'.dispatched = st.dispatched ++ out.1 ∧
      st'.world = (responses svc out.1 st.world).2 ∧
      st'.writeBuff.readable =
        st.writeBuff.readable ++ (responses svc out.1 st.world).1.flatMap (encoded c) := by
  induction hn : st.readBuff.readableBytes using Nat.strong_induction_on generalizing st with
  | _ n ih =>
    have hdec := tryDecodeMessage_eq_decode c st.readBuff
    rcases hd : tryDecodeMessage c st.readBuff with ⟨rb, _ | e⟩
    · rw [hd] at hdec
      have hp : process c svc st = (false, { st with readBuff := rb }) := by simp [process, hd]
      rw [processLoop_of_false c svc (by rw [hp]), hp, decodeAll_of_none (by rw [← hdec]), ← hdec]
      simp [responses]
    · rw [hd] at hdec
      obtain ⟨r, w, hr⟩ : ∃ r w, respond svc e st.world = (r, w) := ⟨_, _, rfl⟩
      have hp : process c svc st =
          (true, ⟨rb, encodeMessage c r st.writeBuff, w, st.dispatched ++ [e]⟩) := by
        simp [process, hd, hr]
      have hlt : (process c svc st).2.readBuff.readableBytes < st.readBuff.readableBytes :=
        process_lt c svc (by rw [hp])
      rw [hp, hn] at hlt
      have hrec := ih _ hlt ⟨rb, encodeMessage c r st.writeBuff, w, st.dispatched ++ [e]⟩ rfl
      rw [processLoop_of_true c svc (by rw [hp]), hp, decodeAll_of_some (by rw [← hdec]), ← hdec]
      obtain ⟨-, h1, h2, h3, h4⟩ := hrec
      refine ⟨by simp, h1, ?_, ?_, ?_⟩
      · simpa using h2
      · simpa [responses, hr] using h3
      · simpa [responses, hr] using h4

end ProtobufHandler
end TermChat
