import TermChat.Base.Steps
import TermChat.Base.Threads
import TermChat.Client.Frames
import TermChat.Core.Chunks
import Mathlib.Logic.Function.Basic

/-! Requests and responses of one client. The threads of the client number their requests by
`NextSeq` and write them to the socket. The server decodes what arrives, in any chunks, and puts the
number of a request into its response. `ListenerLoop` files responses under their numbers, where
`WaitForResponse` finds them. -/
namespace TermChat
open Proto

namespace Correlation

/-- A request by its number. `ticket` counts the calls of `NextSeq` before its own. -/
structure Request where
  seq : UInt64
  ticket : ℕ

/-- An envelope that the client has sent. Heartbeats and batches of receipts are no requests. -/
structure Transmission where
  request : Option ℕ
  envelope : Envelope

/-- An envelope that the server has sent: the response to one of those that it has dispatched, or a
push. -/
structure Production where
  answers : Option ℕ
  envelope : Envelope

/-- Where a thread stands in `SendRequestAndWait` or in `SendP2PMessage`. After a wait that fails,
`more` transmissions can follow. -/
inductive Thread where
  | nextSeq (env : Envelope) (expectedCmd : CommandType)
  | nextSeqP2P (env : Envelope) (req : P2PMessage)
  | clientMsgId (request : ℕ) (env : Envelope) (req : P2PMessage)
  | send (request : ℕ) (env : Envelope) (expectedCmd : CommandType) (more : ℕ)
  | wait (request : ℕ) (env : Envelope) (expectedCmd : CommandType) (more : ℕ)

end Correlation

open Correlation

/-- `responseBySeq` holds productions by their numbers, and the first `arrived` productions have come
to the client. `inFlight` was written to the socket and not read by the server, `broken` is an error of
the socket. At the server `unread` is in `read_buff_`, `processing` holds while `process` runs, and
`dispatched` were given to `Dispatch`. `yields` lists the waits that returned true: the request and the
production. -/
structure Correlation where
  nextSeq : UInt64
  seqCalls : ℕ
  responseBySeq : UInt64 → Option ℕ
  threads : List Thread
  requests : List Request
  transmissions : List Transmission
  inFlight : Bytes
  broken : Bool
  unread : Bytes
  protocol : Option ConnType
  processing : Bool
  dispatched : List Envelope
  produced : List Production
  arrived : ℕ
  yields : List (ℕ × ℕ)

namespace Correlation

def kMaxAttempts : ℕ := 3

def kMaxPacketSize : ℕ := 10 * 1024 * 1024

def init : Correlation :=
  { nextSeq := 1, seqCalls := 0, responseBySeq := fun _ => none, threads := [], requests := []
    transmissions := [], inFlight := [], broken := false, unread := [], protocol := none
    processing := false, dispatched := [], produced := [], arrived := 0, yields := [] }

/-- Where a step calls `SendEnvelope`, `failed` is how much of the packet was written before an error
of the socket, if there was one. -/
inductive Action (σ : Type) where
  | request (cmd : CommandType) (timestamp : Int64) (payload : Payload) (expectedCmd : CommandType)
  | sendP2P (timestamp : Int64) (req : P2PMessage)
  | thread (i : ℕ) (nowMs : UInt64) (failed : Option ℕ)
  | timeout (i : ℕ)
  | heartbeat (timestamp : Int64) (failed : Option ℕ)
  | ackBatch (timestamp : Int64) (acks : List MessageAck) (failed : Option ℕ)
  | read (n : ℕ)
  | process (w : σ)
  | push (env : Envelope)
  | listen

/-- `GenerateClientMsgId`, with what it gets from the clock and from `NextSeq`. -/
def generateClientMsgId (nowMs seq : UInt64) : UInt64 := nowMs <<< 20 ||| (seq &&& 0xFFFFF)

/-- A call of `NextSeq` returns `next_seq_` and leaves this behind. -/
def drawn (s : Correlation) : Correlation :=
  { s with nextSeq := s.nextSeq + 1, seqCalls := s.seqCalls + 1 }

/-- A thread goes on, or its call returns. -/
def goto (s : Correlation) (i : ℕ) (next : Option Thread) : Correlation :=
  { s with threads := Threads.advance s.threads i next }

def numbered (s : Correlation) : Correlation :=
  { s.drawn with requests := s.requests ++ [⟨s.nextSeq, s.seqCalls⟩] }

/-- After a wait without a result: the next transmission, if there is one. -/
def again (request : ℕ) (env : Envelope) (expectedCmd : CommandType) : ℕ → Option Thread
  | 0 => none
  | more + 1 => some (.send request env expectedCmd more)

/-- `WaitForResponse` finds production `n` under the number: it is taken out, and yielded if its
command is the expected one. -/
def take (s : Correlation) (i request : ℕ) (env : Envelope) (expectedCmd : CommandType)
    (more n : ℕ) : Option Correlation :=
  match s.produced[n]? with
  | none => none
  | some p =>
    some (({ s with
      responseBySeq := Function.update s.responseBySeq env.seq none
      yields := s.yields ++ if p.envelope.cmd = expectedCmd then [(request, n)] else [] } :
        Correlation).goto i
        (if p.envelope.cmd = expectedCmd then none else again request env expectedCmd more))

variable {σ : Type} (c : Codec) (svc : Services σ)

/-- `SendEnvelope`. After an error of the socket nothing more is written. -/
def sendEnvelope (s : Correlation) (tr : Transmission) (failed : Option ℕ) : Correlation × Bool :=
  if s.broken then (s, false)
  else
    match failed with
    | none =>
      ({ s with
        transmissions := s.transmissions ++ [tr]
        inFlight := s.inFlight ++ c.packet tr.envelope }, true)
    | some n =>
      ({ s with
        transmissions := s.transmissions ++ [tr]
        inFlight := s.inFlight ++ (c.packet tr.envelope).take n
        broken := true }, false)

/-- The next step of thread `i`. A wait is over when there is a response. -/
def thread (s : Correlation) (i : ℕ) (nowMs : UInt64) (failed : Option ℕ) : Option Correlation :=
  match s.threads[i]? with
  | none => none
  | some (.nextSeq env expectedCmd) =>
    some (s.numbered.goto i
      (some (.send s.requests.length { env with seq := s.nextSeq } expectedCmd 0)))
  | some (.nextSeqP2P env req) =>
    some (s.numbered.goto i (some (.clientMsgId s.requests.length { env with seq := s.nextSeq } req)))
  | some (.clientMsgId r env req) =>
    let payload := .p2pMsgReq { req with clientMsgId := generateClientMsgId nowMs s.nextSeq }
    some (s.drawn.goto i
      (some (.send r { env with payload := some payload } .msgAck (kMaxAttempts - 1))))
  | some (.send r env expectedCmd more) =>
    let (s, sent) := s.sendEnvelope c ⟨some r, env⟩ failed
    some (s.goto i (if sent then some (.wait r env expectedCmd more) else none))
  | some (.wait r env expectedCmd more) =>
    match s.responseBySeq env.seq with
    | none => none
    | some n => s.take i r env expectedCmd more n

/-- The timeout of a wait; the map is looked at once more before. -/
def timeout (s : Correlation) (i : ℕ) : Option Correlation :=
  match s.threads[i]? with
  | some (.wait r env expectedCmd more) =>
    if s.responseBySeq env.seq = none then some (s.goto i (again r env expectedCmd more)) else none
  | _ => none

/-- `ListenerLoop` reads the next production, unless it is too large: then the loop is over. -/
def listen (s : Correlation) : Option Correlation :=
  match s.produced[s.arrived]? with
  | none => none
  | some p =>
    if kMaxPacketSize < (c.serializeAsString p.envelope).length then none
    else
      some { s with
        arrived := s.arrived + 1
        responseBySeq :=
          if classify p.envelope = .response then
            Function.update s.responseBySeq p.envelope.seq (some s.arrived)
          else s.responseBySeq }

/-- The server reads at most `n` bytes and enters `process`, which looks at the first bytes of the
connection for an HTTP request. -/
def read (s : Correlation) (n : ℕ) : Option Correlation :=
  if s.processing ∨ s.inFlight.take n = [] then none
  else
    let unread := s.unread ++ s.inFlight.take n
    let detected := if TcpConnection.isHttpRequest unread then ConnType.http else .protobuf
    some { s with
      inFlight := s.inFlight.drop n
      unread := unread
      protocol := some (s.protocol.getD detected)
      processing := true }

/-- The response to the next request, as far as it can be serialised. -/
def answer (s : Correlation) (request : Envelope) (w : σ) : List Production :=
  let response := (ProtobufHandler.respond svc request w).1
  if (c.serialize response).isSome then [⟨some s.dispatched.length, response⟩] else []

/-- A call of `Process`, with the rest of the server in any state `w`. On the bytes of the buffer
`decode` is `TryDecodeMessage`. A call that returns false ends `process`; an HTTP handler sends no
envelopes. -/
def process (s : Correlation) (w : σ) : Option Correlation :=
  if s.processing = false then none
  else if s.protocol = some .protobuf then
    match Framing.decode c.parse ProtobufHandler.kMaxMessageSize s.unread with
    | (unread, none) => some { s with unread := unread, processing := false }
    | (unread, some request) =>
      some { s with
        unread := unread
        dispatched := s.dispatched ++ [request]
        produced := s.produced ++ s.answer c svc request w }
  else some { s with processing := false }

def step (s : Correlation) : Action σ → Option Correlation
  | .request cmd timestamp payload expectedCmd =>
    some { s with threads := s.threads ++
      [.nextSeq { cmd := cmd, timestamp := timestamp, payload := some payload } expectedCmd] }
  | .sendP2P timestamp req =>
    some { s with threads := s.threads ++
      [.nextSeqP2P { cmd := .p2pMsgReq, timestamp := timestamp } req] }
  | .thread i nowMs failed => s.thread c i nowMs failed
  | .timeout i => s.timeout i
  | .heartbeat timestamp failed =>
    some (s.sendEnvelope c ⟨none, { cmd := .heartbeat, timestamp := timestamp }⟩ failed).1
  | .ackBatch timestamp acks failed =>
    let env : Envelope :=
      { cmd := .msgAckBatch, timestamp := timestamp, payload := some (.msgAckBatch acks) }
    some (s.sendEnvelope c ⟨none, env⟩ failed).1
  | .read n => s.read n
  | .process w => s.process c svc w
  -- every push of the server has the number 0
  | .push env =>
    if env.seq = 0 then some { s with produced := s.produced ++ [⟨none, env⟩] } else none
  | .listen => s.listen c

/-- The request that a thread works on, and the number in its envelope. -/
def Thread.owner : Thread → Option (ℕ × UInt64)
  | .clientMsgId r env _ | .send r env _ _ | .wait r env _ _ => some (r, env.seq)
  | .nextSeq _ _ | .nextSeqP2P _ _ => none

def Numbered (s : Correlation) (r : ℕ) (seq : UInt64) : Prop :=
  ∃ rq, s.requests[r]? = some rq ∧ rq.seq = seq

/-- A transmission has the number of its request, or 0. -/
def Sent (s : Correlation) (tr : Transmission) : Prop :=
  match tr.request with
  | none => tr.envelope.seq = 0
  | some r => s.Numbered r tr.envelope.seq

/-- What the server sends is the response to an envelope that it has dispatched, or has the
number 0. -/
def Answered (s : Correlation) (p : Production) : Prop :=
  match p.answers with
  | none => p.envelope.seq = 0
  | some k => ∃ e w, s.dispatched[k]? = some e ∧ p.envelope = (ProtobufHandler.respond svc e w).1

def Carries (s : Correlation) (n : ℕ) (seq : UInt64) : Prop :=
  ∃ p, s.produced[n]? = some p ∧ p.envelope.seq = seq

/-- A wait that returned true: its production has left the map for good. -/
structure Yielded (s : Correlation) (y : ℕ × ℕ) : Prop where
  arrived : y.2 < s.arrived
  gone : ∀ seq, s.responseBySeq seq ≠ some y.2
  seq : ∃ seq, s.Numbered y.1 seq ∧ s.Carries y.2 seq

structure Inv (s : Correlation) : Prop where
  nextSeq : s.nextSeq = UInt64.ofNat (s.seqCalls + 1)
  numbers : ∀ rq ∈ s.requests, rq.seq = UInt64.ofNat (rq.ticket + 1) ∧ rq.ticket < s.seqCalls
  tickets : s.requests.Pairwise (·.ticket < ·.ticket)
  threads : ∀ th ∈ s.threads, ∀ r seq, th.owner = some (r, seq) → s.Numbered r seq
  transmissions : ∀ tr ∈ s.transmissions, s.Sent tr
  produced : ∀ p ∈ s.produced, s.Answered svc p
  filed : ∀ seq n, s.responseBySeq seq = some n → n < s.arrived ∧ s.Carries n seq
  yields : ∀ y ∈ s.yields, s.Yielded y
  once : (s.yields.map Prod.snd).Nodup

theorem init_inv : init.Inv svc where
  nextSeq := rfl
  numbers rq h := by cases h
  tickets := .nil
  threads th h := by cases h
  transmissions tr h := by cases h
  produced p h := by cases h
  filed seq n h := by cases h
  yields y h := by cases h
  once := .nil

variable {c svc} {s t : Correlation}

private theorem sendEnvelope_frame (s : Correlation) (tr : Transmission) (failed : Option ℕ) :
    (s.sendEnvelope c tr failed).1.threads = s.threads ∧
      (s.sendEnvelope c tr failed).1.requests = s.requests := by
  unfold sendEnvelope
  split_ifs
  · exact ⟨rfl, rfl⟩
  · cases failed <;> exact ⟨rfl, rfl⟩

namespace Inv

variable (h : s.Inv svc)
include h

theorem goto {i : ℕ} {th : Thread} {next : Option Thread} (hi : s.threads[i]? = some th)
    (hnext : ∀ th', next = some th' → ∀ r seq, th'.owner = some (r, seq) → s.Numbered r seq) :
    (s.goto i next).Inv svc :=
  { h with
    threads := Threads.forall_mem_advance hi h.threads hnext
    yields := fun y hy => { h.yields y hy with } }

theorem goto_owner {i r : ℕ} {th next : Thread} {seq : UInt64} (hi : s.threads[i]? = some th)
    (howner : next.owner = some (r, seq)) (hr : s.Numbered r seq) :
    (s.goto i (some next)).Inv svc := by
  apply h.goto hi
  intro th' hth' r' seq' howner'
  cases hth'
  rw [howner] at howner'
  cases howner'
  exact hr

theorem goto_end {i : ℕ} {th : Thread} (hi : s.threads[i]? = some th) : (s.goto i none).Inv svc := by
  apply h.goto hi
  intro th' hth'
  cases hth'

theorem spawn {th : Thread} (hth : th.owner = none) :
    { s with threads := s.threads ++ [th] }.Inv svc := by
  refine { h with threads := ?_, yields := fun y hy => { h.yields y hy with } }
  intro th' hmem r seq howner
  rcases List.mem_append.mp hmem with hmem | hmem
  · exact h.threads th' hmem r seq howner
  · rw [List.mem_singleton.mp hmem, hth] at howner
    cases howner

theorem drawn : s.drawn.Inv svc := by
  refine { h with nextSeq := ?_, numbers := ?_, yields := fun y hy => { h.yields y hy with } }
  · show s.nextSeq + 1 = UInt64.ofNat (s.seqCalls + 1 + 1)
    rw [h.nextSeq, UInt64.ofNat_add (s.seqCalls + 1) 1]
    rfl
  · intro rq hrq
    obtain ⟨hseq, hlt⟩ := h.numbers rq hrq
    exact ⟨hseq, Nat.lt_succ_of_lt hlt⟩

theorem numbered : s.numbered.Inv svc ∧ s.numbered.Numbered s.requests.length s.nextSeq := by
  have hd := h.drawn
  -- the numbers of the requests so far stay
  have hkeep : ∀ {r seq}, s.Numbered r seq → s.numbered.Numbered r seq := by
    rintro r seq ⟨rq, hrq, hseq⟩
    exact ⟨rq, Threads.getElem?_append_of_some hrq _, hseq⟩
  refine ⟨?_, ⟨⟨s.nextSeq, s.seqCalls⟩, List.getElem?_concat_length, rfl⟩⟩
  refine { hd with numbers := ?_, tickets := ?_, threads := ?_, transmissions := ?_, yields := ?_ }
  · intro rq hrq
    rcases List.mem_append.mp hrq with hrq | hrq
    · exact hd.numbers rq hrq
    · rw [List.mem_singleton.mp hrq]
      exact ⟨h.nextSeq, Nat.lt_succ_self _⟩
  · show (s.requests ++ [_]).Pairwise _
    rw [List.pairwise_append]
    refine ⟨h.tickets, List.pairwise_singleton _ _, ?_⟩
    intro rq hrq rq' hrq'
    rw [List.mem_singleton.mp hrq']
    exact (h.numbers rq hrq).2
  · exact fun th hth r seq howner => hkeep (h.threads th hth r seq howner)
  · intro tr htr
    have hsent := h.transmissions tr htr
    unfold Sent at hsent ⊢
    cases hreq : tr.request with
    | none =>
      rw [hreq] at hsent
      exact hsent
    | some r =>
      rw [hreq] at hsent
      exact hkeep hsent
  · intro y hy
    obtain ⟨harrived, hgone, seq, hnum, hcarries⟩ := h.yields y hy
    exact ⟨harrived, hgone, seq, hkeep hnum, hcarries⟩

theorem transmit {tr : Transmission} (htr : s.Sent tr) (inFlight : Bytes) (broken : Bool) :
    { s with
      transmissions := s.transmissions ++ [tr], inFlight := inFlight, broken := broken }.Inv svc := by
  refine { h with transmissions := ?_, yields := fun y hy => { h.yields y hy with } }
  intro tr' hmem
  rcases List.mem_append.mp hmem with hmem | hmem
  · exact h.transmissions tr' hmem
  · rw [List.mem_singleton.mp hmem]
    exact htr

theorem sendEnvelope {tr : Transmission} (htr : s.Sent tr) (failed : Option ℕ) :
    (s.sendEnvelope c tr failed).1.Inv svc := by
  unfold Correlation.sendEnvelope
  split_ifs
  · exact h
  · cases failed <;> exact h.transmit htr _ _

theorem setUnread (unread inFlight : Bytes) (protocol : Option ConnType) (processing : Bool) :
    { s with
      unread := unread, inFlight := inFlight, protocol := protocol
      processing := processing }.Inv svc :=
  { h with yields := fun y hy => { h.yields y hy with } }

theorem produce (ps : List Production) (dispatched : List Envelope) (unread : Bytes)
    (hps : ∀ p ∈ ps,
      { s with dispatched := s.dispatched ++ dispatched : Correlation }.Answered svc p) :
    { s with
      unread := unread, dispatched := s.dispatched ++ dispatched
      produced := s.produced ++ ps }.Inv svc := by
  have hkeep : ∀ {n seq}, s.Carries n seq → { s with
      unread := unread, dispatched := s.dispatched ++ dispatched
      produced := s.produced ++ ps : Correlation }.Carries n seq := by
    rintro n seq ⟨p', hp', hseq⟩
    exact ⟨p', Threads.getElem?_append_of_some hp' _, hseq⟩
  refine { h with produced := ?_, filed := ?_, yields := ?_ }
  · intro p hmem
    rcases List.mem_append.mp hmem with hmem | hmem
    · have hanswered := h.produced p hmem
      unfold Answered at hanswered ⊢
      cases hans : p.answers with
      | none =>
        rw [hans] at hanswered
        exact hanswered
      | some k =>
        rw [hans] at hanswered
        obtain ⟨e, w, he, hw⟩ := hanswered
        exact ⟨e, w, Threads.getElem?_append_of_some he _, hw⟩
    · exact hps p hmem
  · intro seq n hn
    obtain ⟨hlt, hcarries⟩ := h.filed seq n hn
    exact ⟨hlt, hkeep hcarries⟩
  · intro y hy
    obtain ⟨harrived, hgone, seq, hnum, hcarries⟩ := h.yields y hy
    exact ⟨harrived, hgone, seq, hnum, hkeep hcarries⟩

/-- A response is filed under its number, in the place of an older one. -/
theorem listen (ht : s.listen c = some t) : t.Inv svc := by
  unfold Correlation.listen at ht
  cases hp : s.produced[s.arrived]? with
  | none =>
    rw [hp] at ht
    cases ht
  | some p =>
    rw [hp] at ht
    dsimp only at ht
    by_cases hsize : kMaxPacketSize < (c.serializeAsString p.envelope).length
    · rw [if_pos hsize] at ht
      cases ht
    rw [if_neg hsize] at ht
    cases ht
    have hfiled : ∀ seq n, (if classify p.envelope = .response then
        Function.update s.responseBySeq p.envelope.seq (some s.arrived)
        else s.responseBySeq) seq = some n →
        s.responseBySeq seq = some n ∨ seq = p.envelope.seq ∧ n = s.arrived := by
      intro seq n hn
      split_ifs at hn
      · by_cases hseq : seq = p.envelope.seq
        · rw [hseq, Function.update_self] at hn
          exact .inr ⟨hseq, (Option.some.inj hn).symm⟩
        · rw [Function.update_of_ne hseq] at hn
          exact .inl hn
      · exact .inl hn
    refine { h with filed := ?_, yields := ?_ }
    · intro seq n hn
      rcases hfiled seq n hn with hn | ⟨rfl, rfl⟩
      · obtain ⟨hlt, hcarries⟩ := h.filed seq n hn
        exact ⟨Nat.lt_succ_of_lt hlt, hcarries⟩
      · exact ⟨Nat.lt_succ_self _, p, hp, rfl⟩
    · intro y hy
      obtain ⟨harrived, hgone, hseq⟩ := h.yields y hy
      refine ⟨Nat.lt_succ_of_lt harrived, ?_, hseq⟩
      intro seq hn
      rcases hfiled seq y.2 hn with hn | ⟨-, heq⟩
      · exact hgone seq hn
      · exact Nat.ne_of_lt harrived heq

theorem take {r n : ℕ} {seq : UInt64} (yielded : Bool) (hr : s.Numbered r seq)
    (hn : s.responseBySeq seq = some n) :
    { s with
      responseBySeq := Function.update s.responseBySeq seq none
      yields := s.yields ++ if yielded then [(r, n)] else [] }.Inv svc := by
  obtain ⟨hlt, hcarries⟩ := h.filed seq n hn
  -- what is still in the map was there before, under another number
  have hleft : ∀ seq' n', Function.update s.responseBySeq seq none seq' = some n' →
      s.responseBySeq seq' = some n' ∧ n' ≠ n := by
    intro seq' n' hn'
    have hne : seq' ≠ seq := by
      rintro rfl
      rw [Function.update_self] at hn'
      cases hn'
    rw [Function.update_of_ne hne] at hn'
    refine ⟨hn', ?_⟩
    rintro rfl
    obtain ⟨-, p, hp, hseq⟩ := h.filed seq' n' hn'
    obtain ⟨p', hp', hseq'⟩ := hcarries
    rw [hp, Option.some.injEq] at hp'
    subst hp'
    exact hne (hseq.symm.trans hseq')
  refine { h with filed := ?_, yields := ?_, once := ?_ }
  · intro seq' n' hn'
    exact h.filed seq' n' (hleft seq' n' hn').1
  · intro y hy
    rcases List.mem_append.mp hy with hy | hy
    · obtain ⟨harrived, hgone, hseq⟩ := h.yields y hy
      exact ⟨harrived, fun seq' hn' => hgone seq' (hleft seq' y.2 hn').1, hseq⟩
    · cases yielded with
      | false => cases hy
      | true =>
        rw [if_pos rfl, List.mem_singleton] at hy
        subst hy
        exact ⟨hlt, fun seq' hn' => (hleft seq' n hn').2 rfl, seq, hr, hcarries⟩
  · show ((s.yields ++ _).map Prod.snd).Nodup
    cases yielded with
    | false => simpa using h.once
    | true =>
      have hnew : n ∉ s.yields.map Prod.snd := by
        intro hmem
        obtain ⟨y, hy, rfl⟩ := List.mem_map.mp hmem
        exact (h.yields y hy).gone seq hn
      rw [if_pos rfl, List.map_append, List.nodup_append]
      refine ⟨h.once, List.nodup_singleton n, ?_⟩
      intro a ha b hb
      rw [List.mem_singleton.mp hb]
      exact ne_of_mem_of_not_mem ha hnew

theorem owned {i r : ℕ} {th : Thread} {seq : UInt64} (hi : s.threads[i]? = some th)
    (howner : th.owner = some (r, seq)) : s.Numbered r seq :=
  h.threads th (List.mem_of_getElem? hi) r seq howner

theorem goto_again {i r more : ℕ} {th : Thread} {env : Envelope} {expectedCmd : CommandType}
    (hi : s.threads[i]? = some th) (hr : s.Numbered r env.seq) :
    (s.goto i (again r env expectedCmd more)).Inv svc := by
  cases more with
  | zero => exact h.goto_end hi
  | succ more => exact h.goto_owner hi rfl hr

/-- The response that is found is yielded, or the wait has no result. -/
theorem waited {i r more n : ℕ} {th : Thread} {env : Envelope} {expectedCmd : CommandType}
    (hi : s.threads[i]? = some th) (hr : s.Numbered r env.seq)
    (hn : s.responseBySeq env.seq = some n)
    (ht : Correlation.take s i r env expectedCmd more n = some t) : t.Inv svc := by
  unfold Correlation.take at ht
  cases hp : s.produced[n]? with
  | none =>
    rw [hp] at ht
    cases ht
  | some p =>
    rw [hp] at ht
    cases ht
    have htake := h.take (decide (p.envelope.cmd = expectedCmd)) hr hn
    simp only [decide_eq_true_eq] at htake
    by_cases hcmd : p.envelope.cmd = expectedCmd
    · simp only [if_pos hcmd] at htake ⊢
      exact htake.goto_end hi
    · simp only [if_neg hcmd] at htake ⊢
      exact htake.goto_again hi hr

theorem thread {i : ℕ} {nowMs : UInt64} {failed : Option ℕ}
    (ht : s.thread c i nowMs failed = some t) : t.Inv svc := by
  unfold Correlation.thread at ht
  cases hi : s.threads[i]? with
  | none =>
    rw [hi] at ht
    cases ht
  | some th =>
    rw [hi] at ht
    cases th with
    | nextSeq env expectedCmd =>
      cases ht
      exact h.numbered.1.goto_owner hi rfl h.numbered.2
    | nextSeqP2P env req =>
      cases ht
      exact h.numbered.1.goto_owner hi rfl h.numbered.2
    | clientMsgId r env req =>
      cases ht
      have hr : s.Numbered r env.seq := h.owned hi rfl
      exact h.drawn.goto_owner hi rfl hr
    | send r env expectedCmd more =>
      have hr : s.Numbered r env.seq := h.owned hi rfl
      have hsent : s.Sent ⟨some r, env⟩ := hr
      have hinv := h.sendEnvelope hsent failed (c := c)
      obtain ⟨hthreads, hrequests⟩ := sendEnvelope_frame (c := c) s ⟨some r, env⟩ failed
      cases ht
      rw [← hthreads] at hi
      split_ifs
      · exact hinv.goto_owner hi rfl (by rwa [Numbered, hrequests])
      · exact hinv.goto_end hi
    | wait r env expectedCmd more =>
      dsimp only at ht
      cases hn : s.responseBySeq env.seq with
      | none =>
        rw [hn] at ht
        cases ht
      | some n =>
        rw [hn] at ht
        exact h.waited hi (h.owned hi rfl) hn ht

theorem process {w : σ} (ht : s.process c svc w = some t) : t.Inv svc := by
  unfold Correlation.process at ht
  split_ifs at ht
  · split at ht
    · cases ht
      exact h.setUnread ..
    · rename_i unread request hdecode
      cases ht
      apply h.produce _ _ unread
      intro p hp
      dsimp only [answer] at hp
      split_ifs at hp
      · rw [List.mem_singleton.mp hp]
        exact ⟨request, w, List.getElem?_concat_length, rfl⟩
      · cases hp
  · cases ht
    exact h.setUnread ..

theorem step {a : Action σ} (ht : s.step c svc a = some t) : t.Inv svc := by
  cases a with
  | request cmd timestamp payload expectedCmd =>
    cases ht
    exact h.spawn rfl
  | sendP2P timestamp req =>
    cases ht
    exact h.spawn rfl
  | thread i nowMs failed => exact h.thread ht
  | timeout i =>
    simp only [Correlation.step, Correlation.timeout] at ht
    split at ht
    · rename_i r env expectedCmd more hi
      split_ifs at ht
      cases ht
      exact h.goto_again hi (h.owned hi rfl)
    · cases ht
  | heartbeat timestamp failed =>
    cases ht
    apply h.sendEnvelope
    exact rfl
  | ackBatch timestamp acks failed =>
    cases ht
    apply h.sendEnvelope
    exact rfl
  | read n =>
    dsimp only [Correlation.step, Correlation.read] at ht
    split at ht
    · cases ht
    · cases ht
      exact h.setUnread ..
  | process w => exact h.process ht
  | push env =>
    simp only [Correlation.step] at ht
    split_ifs at ht with hseq
    cases ht
    have hpush := h.produce [⟨none, env⟩] [] s.unread fun p hp => by
      rw [List.mem_singleton.mp hp]
      exact hseq
    rwa [List.append_nil] at hpush
  | listen => exact h.listen ht

/-- A number belongs to one request, as long as `next_seq_` has not come back to 0. -/
theorem eq_of_numbered (hcalls : s.seqCalls < 2 ^ 64 - 1) {r r' : ℕ} {seq : UInt64}
    (hr : s.Numbered r seq) (hr' : s.Numbered r' seq) : seq ≠ 0 ∧ r = r' := by
  obtain ⟨rq, hrq, hseq⟩ := hr
  obtain ⟨rq', hrq', hseq'⟩ := hr'
  obtain ⟨hnum, hlt⟩ := h.numbers rq (List.mem_of_getElem? hrq)
  obtain ⟨hnum', hlt'⟩ := h.numbers rq' (List.mem_of_getElem? hrq')
  have htoNat : seq.toNat = rq.ticket + 1 := by
    rw [← hseq, hnum, UInt64.toNat_ofNat_of_lt']
    show rq.ticket + 1 < 2 ^ 64
    omega
  have htoNat' : seq.toNat = rq'.ticket + 1 := by
    rw [← hseq', hnum', UInt64.toNat_ofNat_of_lt']
    show rq'.ticket + 1 < 2 ^ 64
    omega
  constructor
  · rintro rfl
    rw [UInt64.toNat_zero] at htoNat
    omega
  · obtain ⟨hi, rfl⟩ := List.getElem?_eq_some_iff.mp hrq
    obtain ⟨hi', rfl⟩ := List.getElem?_eq_some_iff.mp hrq'
    have hmono := List.pairwise_iff_getElem.mp h.tickets
    rcases Nat.lt_trichotomy r r' with hlt | heq | hlt
    · have := hmono r r' hi hi' hlt
      omega
    · exact heq
    · have := hmono r' r hi' hi hlt
      omega

/-- A production that carries the number of a request answers an envelope with that number. -/
theorem dispatched_of_carries (hcalls : s.seqCalls < 2 ^ 64 - 1) {r n : ℕ} {seq : UInt64}
    (hr : s.Numbered r seq) (hn : s.Carries n seq) :
    ∃ p k e w, s.produced[n]? = some p ∧ p.answers = some k ∧ s.dispatched[k]? = some e ∧
      e.seq = seq ∧ p.envelope = (ProtobufHandler.respond svc e w).1 := by
  have hne : seq ≠ 0 := (h.eq_of_numbered hcalls hr hr).1
  obtain ⟨p, hp, hseq⟩ := hn
  have hanswered := h.produced p (List.mem_of_getElem? hp)
  unfold Answered at hanswered
  cases hans : p.answers with
  | none =>
    rw [hans] at hanswered
    exact absurd (hseq.symm.trans hanswered) hne
  | some k =>
    rw [hans] at hanswered
    obtain ⟨e, w, he, hw⟩ := hanswered
    refine ⟨p, k, e, w, hp, hans, he, ?_, hw⟩
    rw [← hseq, hw, ProtobufHandler.respond_seq]

/-- A transmission with the number of a request is one of that request. -/
theorem request_of_seq (hcalls : s.seqCalls < 2 ^ 64 - 1) {r : ℕ} {tr : Transmission}
    (htr : tr ∈ s.transmissions) (hr : s.Numbered r tr.envelope.seq) : tr.request = some r := by
  have hsent := h.transmissions tr htr
  unfold Sent at hsent
  cases hreq : tr.request with
  | none =>
    rw [hreq] at hsent
    exact absurd hsent (h.eq_of_numbered hcalls hr hr).1
  | some r' =>
    rw [hreq] at hsent
    rw [(h.eq_of_numbered hcalls hsent hr).2]

end Inv
end Correlation
end TermChat
