import TermChat.Client.Correlation
import TermChat.Core.Boundaries

/-! Which request a wait gets the answer to. While every envelope fits into a message of the server,
the server dispatches the transmissions in their order, and a response belongs to the request whose
number it carries. -/
namespace TermChat
open Proto ProtobufHandler

namespace Correlation

variable {σ : Type} {c : Codec} {svc : Services σ} {s t : Correlation}

/-- The server has dispatched the first transmissions, and reads the frames of the others. What is
missing at the end was not written, because of an error of the socket. -/
structure InStep (c : Codec) (s : Correlation) : Prop where
  stream : ∃ todo unwritten, s.transmissions.map Transmission.envelope = s.dispatched ++ todo ∧
    s.unread ++ (s.inFlight ++ unwritten) = c.stream todo ∧ (s.broken = false → unwritten = [])
  protocol : s.protocol ≠ some .http

theorem init_inStep : init.InStep c where
  stream := ⟨[], [], rfl, rfl, fun _ => rfl⟩
  protocol := nofun

/-- The part of the state on the way from a transmission to its dispatch. -/
def wire (s : Correlation) :=
  (s.transmissions, s.inFlight, s.broken, s.unread, s.protocol, s.dispatched)

private theorem wire_inj :
    t.wire = s.wire ↔ t.transmissions = s.transmissions ∧ t.inFlight = s.inFlight ∧
    t.broken = s.broken ∧ t.unread = s.unread ∧ t.protocol = s.protocol ∧
    t.dispatched = s.dispatched := by
  simp only [wire, Prod.mk.injEq]

def Fits (c : Codec) (s : Correlation) : Prop :=
  ∀ tr ∈ s.transmissions, ∃ bytes, c.serialize tr.envelope = some bytes ∧
    bytes.length ≤ kMaxMessageSize

structure Keeps (c : Codec) (s t : Correlation) : Prop where
  transmissions : s.transmissions <+: t.transmissions
  inStep : t.Fits c → s.InStep c → t.InStep c

theorem Keeps.of_wire (h : t.wire = s.wire) : Keeps c s t := by
  obtain ⟨htransmissions, hinFlight, hbroken, hunread, hprotocol, hdispatched⟩ := wire_inj.mp h
  refine ⟨by rw [htransmissions], fun _ hin => ?_⟩
  obtain ⟨hstream, hhttp⟩ := hin
  rw [← htransmissions, ← hinFlight, ← hbroken, ← hunread, ← hdispatched] at hstream
  rw [← hprotocol] at hhttp
  exact ⟨hstream, hhttp⟩

/-- A transmission of which `written` gets to the socket, all of it unless that breaks. -/
theorem Keeps.transmit (tr : Transmission) {written unwritten : Bytes} {broken : Bool}
    (hbroken : s.broken = false) (hpacket : written ++ unwritten = c.packet tr.envelope)
    (hwhole : broken = false → unwritten = []) :
    Keeps c s { s with
      transmissions := s.transmissions ++ [tr], inFlight := s.inFlight ++ written
      broken := broken } := by
  refine ⟨List.prefix_append _ _, fun _ hin => ⟨?_, hin.protocol⟩⟩
  obtain ⟨todo, missing, htodo, hbytes, hall⟩ := hin.stream
  obtain rfl := hall hbroken
  have hstream : c.stream (todo ++ [tr.envelope]) = c.stream todo ++ c.packet tr.envelope := by
    simp [Codec.stream, Codec.packet]
  refine ⟨todo ++ [tr.envelope], unwritten, ?_, ?_, hwhole⟩
  · rw [List.map_append, htodo, List.append_assoc]
    rfl
  · rw [hstream, ← hbytes, ← hpacket]
    simp

theorem Keeps.sendEnvelope (s : Correlation) (tr : Transmission) (failed : Option ℕ) :
    Keeps c s (s.sendEnvelope c tr failed).1 := by
  unfold Correlation.sendEnvelope
  split_ifs with hbroken
  · exact .of_wire rfl
  have hunbroken : s.broken = false := by simpa using hbroken
  cases failed with
  | none =>
    exact .transmit tr hunbroken (List.append_nil _) fun _ => rfl
  | some n =>
    exact .transmit tr hunbroken (List.take_append_drop n _) fun hwhole => Bool.noConfusion hwhole

theorem Fits.todo (h : s.Fits c) {dispatched todo : List Envelope}
    (htodo : s.transmissions.map Transmission.envelope = dispatched ++ todo) :
    ∀ e ∈ todo, TcpConnection.Admissible c e := by
  intro e he
  have hmem : e ∈ s.transmissions.map Transmission.envelope := by
    rw [htodo]
    exact List.mem_append_right _ he
  obtain ⟨tr, htr, rfl⟩ := List.mem_map.mp hmem
  exact h tr htr

theorem Keeps.read {n : ℕ} (ht : s.read n = some t) : Keeps c s t := by
  dsimp only [Correlation.read] at ht
  split at ht
  · cases ht
  cases ht
  refine ⟨List.prefix_rfl, fun hfits hin => ?_⟩
  obtain ⟨todo, unwritten, htodo, hbytes, hall⟩ := hin.stream
  have hsplit : s.unread ++ s.inFlight.take n ++ (s.inFlight.drop n ++ unwritten) =
      c.stream todo := by
    rw [← hbytes, List.append_assoc, ← List.append_assoc (s.inFlight.take n),
      List.take_append_drop]
  have hhttp : TcpConnection.isHttpRequest (s.unread ++ s.inFlight.take n) = false :=
    TcpConnection.not_http_of_isPrefix (hfits.todo htodo) ⟨_, hsplit⟩
  refine ⟨⟨todo, unwritten, htodo, hsplit, hall⟩, ?_⟩
  have hprotocol := hin.protocol
  cases hp : s.protocol with
  | none => simp [hhttp]
  | some type =>
    rw [hp] at hprotocol
    exact hprotocol

/-- What the decoder makes of the start of a stream: nothing, as long as the first frame is not there
as a whole, or the first envelope. -/
theorem decode_stream {todo : List Envelope} (htodo : ∀ e ∈ todo, TcpConnection.Admissible c e)
    {bytes : Bytes} (hbytes : bytes <+: c.stream todo) :
    Framing.decode c.parse kMaxMessageSize bytes = (bytes, none) ∨
      ∃ e rest unread, todo = e :: rest ∧ bytes = c.packet e ++ unread ∧
        Framing.decode c.parse kMaxMessageSize bytes = (unread, some e) := by
  cases todo with
  | nil =>
    obtain rfl : bytes = [] := List.prefix_nil.mp hbytes
    exact .inl (Framing.decode_short (by simp))
  | cons e rest =>
    have he := htodo e List.mem_cons_self
    have hstream : c.stream (e :: rest) = c.packet e ++ c.stream rest := rfl
    rw [hstream] at hbytes
    by_cases hlt : bytes.length < (c.packet e).length
    · have hpiece : bytes <+: c.packet e :=
        List.prefix_of_prefix_length_le hbytes (List.prefix_append _ _) hlt.le
      exact .inl (Framing.decode_piece hpiece hlt he.length_le TcpConnection.kMaxMessageSize_lt)
    · obtain ⟨unread, rfl⟩ : c.packet e <+: bytes :=
        List.prefix_of_prefix_length_le (List.prefix_append _ _) hbytes (not_lt.mp hlt)
      refine .inr ⟨e, rest, unread, rfl, rfl, ?_⟩
      rw [Codec.packet, Framing.decode_frame he.length_le TcpConnection.kMaxMessageSize_lt, he.parse]

theorem Keeps.process {w : σ} (ht : s.process c svc w = some t) : Keeps c s t := by
  unfold Correlation.process at ht
  split_ifs at ht
  · refine ⟨?_, fun hfits hin => ?_⟩
    · split at ht <;> cases ht <;> exact List.prefix_rfl
    have hsame : t.transmissions = s.transmissions := by
      split at ht <;> cases ht <;> rfl
    have hfits' : s.Fits c := by
      unfold Fits at hfits ⊢
      rwa [← hsame]
    obtain ⟨todo, unwritten, htodo, hbytes, hall⟩ := hin.stream
    rcases decode_stream (hfits'.todo htodo) ⟨_, hbytes⟩ with hdecode | ⟨e, rest, unread, rfl, hunread, hdecode⟩
    · rw [hdecode] at ht
      cases ht
      exact ⟨hin.stream, hin.protocol⟩
    · rw [hdecode] at ht
      cases ht
      refine ⟨⟨rest, unwritten, ?_, ?_, hall⟩, hin.protocol⟩
      · simpa using htodo
      · have hstream : c.stream (e :: rest) = c.packet e ++ c.stream rest := rfl
        rw [hunread, hstream, List.append_assoc] at hbytes
        exact List.append_cancel_left hbytes
  · cases ht
    exact .of_wire rfl

theorem Keeps.thread {i : ℕ} {nowMs : UInt64} {failed : Option ℕ}
    (ht : s.thread c i nowMs failed = some t) : Keeps c s t := by
  unfold Correlation.thread at ht
  split at ht
  · cases ht
  · cases ht
    exact .of_wire rfl
  · cases ht
    exact .of_wire rfl
  · cases ht
    exact .of_wire rfl
  · rename_i r env expectedCmd more hi
    cases ht
    have hkeeps : Keeps c s (s.sendEnvelope c ⟨some r, env⟩ failed).1 := .sendEnvelope s _ failed
    exact ⟨hkeeps.transmissions, fun hfits hin => { hkeeps.inStep hfits hin with }⟩
  · split at ht
    · cases ht
    · unfold take at ht
      split at ht <;> cases ht
      exact .of_wire rfl

theorem Keeps.step {a : Action σ} (ht : s.step c svc a = some t) : Keeps c s t := by
  cases a with
  | request cmd timestamp payload expectedCmd =>
    cases ht
    exact .of_wire rfl
  | sendP2P timestamp req =>
    cases ht
    exact .of_wire rfl
  | thread i nowMs failed => exact .thread ht
  | timeout i =>
    simp only [Correlation.step, timeout] at ht
    split at ht
    · split_ifs at ht
      cases ht
      exact .of_wire rfl
    · cases ht
  | heartbeat timestamp failed =>
    cases ht
    exact .sendEnvelope s _ failed
  | ackBatch timestamp acks failed =>
    cases ht
    exact .sendEnvelope s _ failed
  | read n => exact .read ht
  | process w => exact .process ht
  | push env =>
    simp only [Correlation.step] at ht
    split_ifs at ht
    cases ht
    exact .of_wire rfl
  | listen =>
    simp only [Correlation.step, listen] at ht
    split at ht
    · cases ht
    · split at ht <;> cases ht
      exact .of_wire rfl

/-- While everything fits, the server follows the client. -/
theorem inStep_run {as : List (Action σ)} (hr : Steps.run (step c svc) init as = some t)
    (hfits : t.Fits c) : t.InStep c := by
  refine Steps.invariant_of_run (I := fun u => u.Fits c → u.InStep c) ?_ (fun _ => init_inStep) hr hfits
  intro u a v hu hv hfits
  have hkeeps : Keeps c u v := .step hv
  exact hkeeps.inStep hfits (hu fun tr htr => hfits tr (hkeeps.transmissions.subset htr))

/-- Whatever the threads, the server, the socket and the timeouts do: if every transmitted envelope
fits into a message of the server, a wait that returns true yields what the server answered to a
transmission of that very request, so never a push, and nothing is yielded twice. -/
theorem yields_answers (as : List (Action σ)) (hr : Steps.run (step c svc) init as = some t)
    (hcalls : t.seqCalls < 2 ^ 64 - 1) (hfits : t.Fits c) :
    (∀ y ∈ t.yields, ∃ p k tr w, t.produced[y.2]? = some p ∧ p.answers = some k ∧
      t.dispatched[k]? = some tr.envelope ∧ t.transmissions[k]? = some tr ∧
      tr.request = some y.1 ∧ p.envelope = (respond svc tr.envelope w).1) ∧
    (t.yields.map Prod.snd).Nodup := by
  have h : t.Inv svc :=
    Steps.invariant_of_run (I := Inv svc) (fun _ _ _ h ht => h.step ht) (init_inv svc) hr
  refine ⟨?_, h.once⟩
  intro y hy
  obtain ⟨-, -, seq, hnum, hcarries⟩ := h.yields y hy
  obtain ⟨p, k, e, w, hp, hans, he, rfl, hw⟩ := h.dispatched_of_carries hcalls hnum hcarries
  obtain ⟨todo, -, htodo, -⟩ := (inStep_run hr hfits).stream
  have hk : (t.transmissions.map Transmission.envelope)[k]? = some e := by
    rw [htodo]
    exact Threads.getElem?_append_of_some he todo
  rw [List.getElem?_map] at hk
  obtain ⟨tr, htr, rfl⟩ := Option.map_eq_some_iff.mp hk
  exact ⟨p, k, tr, w, hp, hans, he, htr, h.request_of_seq hcalls (List.mem_of_getElem? htr) hnum, hw⟩

/-- Services for a connection with a user, at the time 0. -/
def signedIn : Services Unit := { TcpConnection.clockServices 0 with currentUserId := fun _ => 1 }

def message (content : Bytes) : Envelope :=
  { seq := 1
    cmd := .p2pMsgReq
    payload := some (.p2pMsgReq { content := content, clientMsgId := generateClientMsgId 0 2 }) }

/-- The wire bytes of a message without content and of the response to it. -/
def messageCodec : Codec :=
  .ofTable
    [(message [], [0x08, 1, 0x10, 50, 0xE2, 0x12, 2, 0x38, 2]),
      ({ seq := 1, cmd := .msgAck, payload := some (.msgAck { refSeq := 1 }) },
        [0x08, 1, 0x10, 52, 0xF2, 0x12, 2, 0x10, 1])]
    (by decide)

/-- A message is sent twice before the first answer is read; the answer to the second
transmission is read when nobody waits for it any more. -/
def resent : List (Action Unit) :=
  [.sendP2P 0 {}, .thread 0 0 none, .thread 0 0 none, .thread 0 0 none, .read 6, .process (),
    .read 9, .process (), .process (), .timeout 0, .thread 0 0 none, .push {}, .listen,
    .thread 0 0 none, .read 13, .process (), .listen, .listen]

theorem yields_answers_resent : ∃ (as : List (Action Unit)) (t : Correlation),
    Steps.run (step messageCodec signedIn) init as = some t ∧ t.yields = [(0, 0)] ∧
      t.responseBySeq 1 = some 2 ∧ (t.yields.map Prod.snd).Nodup := by
  have hends : (Steps.run (step messageCodec signedIn) init resent).map (fun t => (t.yields,
      t.responseBySeq 1, t.seqCalls, t.transmissions.map Transmission.envelope)) =
      some ([(0, 0)], some 2, 2, [message [], message []]) := rfl
  obtain ⟨t, hr, hobs⟩ := Option.map_eq_some_iff.mp hends
  simp only [Prod.mk.injEq] at hobs
  obtain ⟨hyields, hstale, hcalls, hsent⟩ := hobs
  have hlt : t.seqCalls < 2 ^ 64 - 1 := by
    rw [hcalls]
    omega
  have hfits : t.Fits messageCodec := by
    intro tr htr
    have hmem := List.mem_map_of_mem (f := Transmission.envelope) htr
    rw [hsent] at hmem
    obtain henv : tr.envelope = message [] := by simpa using hmem
    rw [henv]
    exact ⟨_, rfl, by decide⟩
  exact ⟨resent, t, hr, hyields, hstale, (yields_answers resent hr hlt hfits).2⟩

/-! A message above the limit, with the frame of a request in its content. -/

def embedded : Envelope := { seq := 3, cmd := .getFriendListReq, payload := some .getFriendListReq }

def embeddedBytes : Bytes := [0x08, 3, 0x10, 11, 0xF2, 0x0C, 0]

def nextRequest : Envelope := { embedded with timestamp := 1 }

section Content

variable (rest : Bytes)

/-- Three bytes up to the end of a word, the frame, and the rest of a mebibyte. -/
def content : Bytes := [0, 0, 0, 0, 0, 0, 7] ++ (embeddedBytes ++ rest)

/-- The wire bytes of the message: fields 1 and 2, then field 300 with the content in field 5 and the
client's id in field 7. -/
def contentBytes : Bytes :=
  [0x08, 1, 0x10, 50, 0xE2, 0x12, 0x86, 0x80, 0x40, 0x2A, 0x80, 0x80, 0x40] ++
    (content rest ++ [0x38, 2])

def embeddedCodec : Codec :=
  .ofTable
    [(embedded, embeddedBytes),
      ({ seq := 3, cmd := .getFriendListRes, payload := some (.getFriendListRes {}) },
        [0x08, 3, 0x10, 12, 0xFA, 0x0C, 0]),
      (nextRequest, [0x08, 3, 0x10, 11, 0x18, 1, 0xF2, 0x0C, 0]),
      (message (content rest), contentBytes rest)]
    (by simp [embeddedBytes, contentBytes, content])

private theorem packet_message (hrest : rest.length = 1048562) :
    (embeddedCodec rest).packet (message (content rest)) =
      [0, 0x10, 0, 0x0F] ++ contentBytes rest := by
  have hserialize : (embeddedCodec rest).serialize (message (content rest)) =
      some (contentBytes rest) := by
    simp [embeddedCodec, Codec.ofTable, message, embedded, nextRequest]
  have hlength : (contentBytes rest).length = 1048591 := by
    simp [contentBytes, content, embeddedBytes, hrest]
  rw [Codec.packet, Codec.serializeAsString_eq hserialize, Framing.frame, hlength]
  rfl

def sentMessage (inFlight : Bytes) : Correlation :=
  { init with
    nextSeq := 3
    seqCalls := 2
    threads := [.wait 0 (message (content rest)) .msgAck 2]
    requests := [⟨1, 0⟩]
    transmissions := [⟨some 0, message (content rest)⟩]
    inFlight := inFlight }

def sendsMessage : List (Action Unit) :=
  [.sendP2P 0 { content := content rest }, .thread 0 0 none, .thread 0 0 none, .thread 0 0 none]

private theorem run_sentMessage (c : Codec) : Steps.run (step c signedIn) init (sendsMessage rest) =
    some (sentMessage rest (c.packet (message (content rest)))) :=
  rfl

/-- The server reads the header and four words of the message, and the embedded request; then another
thread sends the request that gets the same number. -/
def asksForFriends : List (Action Unit) :=
  List.flatten [(List.replicate 5 [.read 4, .process ()]).flatten,
    [.read 11, .process (), .process (), .listen],
    [.request .getFriendListReq 1 .getFriendListReq .getFriendListRes],
    .replicate 3 (.thread 1 0 none)]

/-- The header and the next words of the packet read as lengths above the limit. The server finds the
embedded request behind them and answers it; the thread that draws the number 3 gets this answer. -/
theorem exists_run_embedded : ∃ (as : List (Action Unit)) (t : Correlation),
    Steps.run (step (embeddedCodec rest) signedIn)
      (sentMessage rest ([0, 0x10, 0, 0x0F] ++ contentBytes rest)) as = some t ∧
      t.seqCalls = 3 ∧ t.yields = [(1, 0)] ∧
      t.produced[0]?.map Production.answers = some (some 0) ∧ t.dispatched[0]? = some embedded ∧
      t.transmissions.map Transmission.envelope = [message (content rest), nextRequest] := by
  have hends : (Steps.run (step (embeddedCodec rest) signedIn)
      (sentMessage rest ([0, 0x10, 0, 0x0F] ++ contentBytes rest)) asksForFriends).map
      (fun t => (t.seqCalls, t.yields, t.produced[0]?.map Production.answers, t.dispatched[0]?,
        t.transmissions.map Transmission.envelope)) =
      some (3, [(1, 0)], some (some 0), some embedded, [message (content rest), nextRequest]) := rfl
  obtain ⟨t, hr, hobs⟩ := Option.map_eq_some_iff.mp hends
  simp only [Prod.mk.injEq] at hobs
  exact ⟨asksForFriends, t, hr, hobs⟩

end Content

/-- The server answers a request that it finds in the content of a message above the limit, and a wait
for the answer to another request yields it. -/
theorem oversize_message_yields_other : ∃ (c : Codec) (as : List (Action Unit)) (t : Correlation),
    Steps.run (step c signedIn) init as = some t ∧ t.seqCalls < 2 ^ 64 - 1 ∧
      ∃ y ∈ t.yields, ∃ p k e, t.produced[y.2]? = some p ∧ p.answers = some k ∧
        t.dispatched[k]? = some e ∧ ∀ tr ∈ t.transmissions, tr.envelope ≠ e := by
  have hrest : (TcpConnection.zeros 1048562).length = 1048562 := by
    rw [TcpConnection.zeros, List.length_replicate]
  generalize TcpConnection.zeros 1048562 = rest at hrest
  obtain ⟨as, t, hr, hcalls, hyields, hproduced, hdispatched, hsent⟩ := exists_run_embedded rest
  obtain ⟨p, hp, hanswers⟩ := Option.map_eq_some_iff.mp hproduced
  have hrun := run_sentMessage rest (embeddedCodec rest)
  rw [packet_message rest hrest] at hrun
  refine ⟨embeddedCodec rest, sendsMessage rest ++ as, t, ?_, ?_, (1, 0), ?_, p, 0, embedded, hp,
    hanswers, hdispatched, ?_⟩
  · rw [Steps.run_append, hrun]
    exact hr
  · rw [hcalls]
    omega
  · rw [hyields]
    exact List.mem_singleton_self _
  · intro tr htr heq
    have hmem := List.mem_map_of_mem (f := Transmission.envelope) htr
    rw [hsent, heq] at hmem
    rcases List.mem_pair.mp hmem with hmessage | hnext
    · exact absurd (congrArg Envelope.cmd hmessage) (by simp [message, embedded])
    · exact absurd (congrArg Envelope.timestamp hnext) (by decide)

end Correlation
end TermChat
