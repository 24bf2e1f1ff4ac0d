import TermChat.Client.FullSync
import TermChat.Client.Listener
import TermChat.Core.World
import TermChat.Handler.Protobuf
import TermChat.Proto.Encode

/-! The size of a sync response. The server cuts a page by the number of messages, and the client
ends the connection by the number of bytes. -/
namespace TermChat
open Proto Wire MsgScyllaDao Framing

def syncMsgsRes (seq : UInt64) (timestamp : Int64) (resp : SyncMessagesResp) : Envelope :=
  { seq := seq, cmd := .syncMsgsRes, timestamp := timestamp, payload := some (.syncMsgsRes resp) }

namespace World

variable {c : Codec} {createToken : UInt64 → String → String} {w : World} {conn : ConnId}
  {request : Envelope} {env : RequestEnv}

theorem respond_syncMsgsReq {req : SyncMessagesReq} (hauth : w.userIdOf conn ≠ 0)
    (hcmd : request.cmd = .syncMsgsReq) (hpayload : request.payload = some (.syncMsgsReq req)) :
    ProtobufHandler.respond (services c createToken conn env) request w =
      (syncMsgsRes request.seq env.now (w.messages.syncMessages (w.userIdOf conn) req env.query),
        w) := by
  have huser : ¬ (services c createToken conn env).currentUserId w = 0 := hauth
  simp only [ProtobufHandler.respond, ProtobufHandler.dispatch, services, hcmd] at huser ⊢
  simp only [ProtobufHandler.handleSyncMessages, ProtobufHandler.requireAuth, if_neg huser,
    ProtobufHandler.serveWith, hpayload, syncMsgsRes]

end World

/-- The rows that a sync request of the client reads; `ok` is the outcome of the query. -/
def syncWindow (rows : List P2PMessage) (cursor : UInt64) (ok : Bool) : List P2PMessage :=
  if ok then (pending rows cursor).take 100 else []

/-- The rows of the page leave room for the other fields of the response. -/
def WindowFits (rows : List P2PMessage) (cursor : UInt64) (ok : Bool) (seq : UInt64) (now : Int64) :
    Prop :=
  let window := syncWindow rows cursor ok
  let lastId := (window.getLast?.map P2PMessage.msgId).getD cursor
  messagesLength window + (uintField 4 lastId.toNat).length +
    (if ok = true ∧ 100 < (pending rows cursor).length then 2 else 0) +
    (uintField 1 seq.toNat).length + (int64Field 3 now).length + 10 ≤ ListenerLoop.maxPacket

theorem syncMessages_window {s : MsgService} {user cursor : UInt64} (huser : user ≠ 0)
    (client : NetworkManager) (ok : Bool) :
    let window := syncWindow (inbox user s.stored) cursor ok
    s.syncMessages user (client.syncReq cursor) ok =
      { success := true, messages := window
        nextAckMsgId := (window.getLast?.map P2PMessage.msgId).getD cursor
        hasMore := decide (ok = true ∧ 100 < (pending (inbox user s.stored) cursor).length) } := by
  cases ok with
  | true =>
    rw [NetworkManager.syncMessages_eq huser]
    simp [syncWindow]
  | false =>
    rw [MsgService.syncMessages, if_neg huser]
    simp [syncWindow, getMessagesForUserAfter, NetworkManager.syncReq]

/-- A length that needs fewer than four bytes is far below the limit. -/
theorem length_le_maxPacket_iff {inner overhead : ℕ} (hinner : inner < 2 ^ 28)
    (hoverhead : overhead ≤ 50) :
    overhead + (varint inner).length + inner ≤ ListenerLoop.maxPacket ↔
      overhead + 4 + inner ≤ ListenerLoop.maxPacket := by
  have hmax : ListenerLoop.maxPacket = 10485760 := rfl
  by_cases hsmall : inner < 2 ^ 21
  · have hle := length_varint_le inner
    rw [hmax]
    omega
  · rw [length_varint_four (not_lt.mp hsmall) hinner]

private theorem length_syncWindow_le (rows : List P2PMessage) (cursor : UInt64) (ok : Bool) :
    (syncWindow rows cursor ok).length ≤ 100 := by
  unfold syncWindow
  split_ifs
  · exact List.length_take_le _ _
  · exact Nat.zero_le _

private theorem mem_of_mem_syncWindow {rows : List P2PMessage} {cursor : UInt64} {ok : Bool} {r : P2PMessage}
    (h : r ∈ syncWindow rows cursor ok) : r ∈ rows := by
  unfold syncWindow at h
  split_ifs at h
  · exact (List.mem_filter.mp (List.mem_of_mem_take h)).1
  · cases h

private theorem messagesLength_syncWindow_le {stored : List P2PMessage}
    (hstored : ∀ m ∈ stored, m.content.length ≤ ProtobufHandler.kMaxMessageSize) (user cursor : UInt64)
    (ok : Bool) : messagesLength (syncWindow (inbox user stored) cursor ok) ≤ 100 * (2 ^ 20 + 160) := by
  have hrows : ∀ m ∈ syncWindow (inbox user stored) cursor ok,
      m.content.length ≤ ProtobufHandler.kMaxMessageSize := by
    intro m hm
    rcases mem_insertBatch (mem_of_mem_syncWindow hm) with hm | ⟨m', hm', -, rfl⟩
    · cases hm
    · exact hstored m' hm'
  have hcount := length_syncWindow_le (inbox user stored) cursor ok
  exact (messagesLength_le hrows).trans (Nat.mul_le_mul_right _ hcount)

theorem length_syncMsgsRes_le_iff {s : MsgService} {user cursor : UInt64} (huser : user ≠ 0)
    (client : NetworkManager) (ok : Bool) (seq : UInt64) (now : Int64)
    (hstored : ∀ m ∈ s.stored, m.content.length ≤ ProtobufHandler.kMaxMessageSize) :
    let packet := encodeSyncMsgsRes seq now (s.syncMessages user (client.syncReq cursor) ok)
    packet.length < 2 ^ 32 ∧ (packet.length ≤ ListenerLoop.maxPacket ↔
      WindowFits (inbox user s.stored) cursor ok seq now) := by
  set window := syncWindow (inbox user s.stored) cursor ok with hwindow
  let resp : SyncMessagesResp :=
    { success := true, messages := window
      nextAckMsgId := (window.getLast?.map P2PMessage.msgId).getD cursor
      hasMore := decide (ok = true ∧ 100 < (pending (inbox user s.stored) cursor).length) }
  have hresp : s.syncMessages user (client.syncReq cursor) ok = resp :=
    syncMessages_window huser client ok
  have hpage : messagesLength window ≤ 100 * (2 ^ 20 + 160) :=
    messagesLength_syncWindow_le hstored user cursor ok
  have hnext := length_uintField_le 4 ((window.getLast?.map P2PMessage.msgId).getD cursor).toNat
  have hseq := length_uintField_le 1 seq.toNat
  have hnow : (int64Field 3 now).length ≤ 20 := length_uintField_le 3 now.toUInt64.toNat
  have hmore : (if resp.hasMore = true then 2 else 0) =
      if ok = true ∧ 100 < (pending (inbox user s.stored) cursor).length then 2 else 0 := by
    simp only [resp, decide_eq_true_eq]
  have hinner : resp.encode.length = messagesLength window +
      (uintField 4 ((window.getLast?.map P2PMessage.msgId).getD cursor).toNat).length +
      (if ok = true ∧ 100 < (pending (inbox user s.stored) cursor).length then 2 else 0) + 2 := by
    rw [← hmore]
    exact length_encode_resp rfl rfl
  have hsmall : resp.encode.length < 2 ^ 28 := by
    split_ifs at hinner <;> omega
  have hvarint := length_varint_le resp.encode.length
  have hlength := length_encodeSyncMsgsRes seq now resp
  have hiff := length_le_maxPacket_iff hsmall
    (show (uintField 1 seq.toNat).length + (int64Field 3 now).length + 4 ≤ 50 by omega)
  rw [hresp]
  constructor
  · omega
  · simp only [WindowFits, ← hwindow]
    omega

namespace Codec

/-- The sync responses that the codec serialises have the encoding that protobuf documents for
the fields of the schema. -/
def EncodesSyncMsgsRes (c : Codec) : Prop :=
  ∀ seq timestamp resp s, c.serialize (syncMsgsRes seq timestamp resp) = some s →
    s = encodeSyncMsgsRes seq timestamp resp

/-- The codec that knows the wire bytes of one sync response. -/
def ofSyncMsgsRes (seq : UInt64) (timestamp : Int64) (resp : SyncMessagesResp) : Codec :=
  .ofTable [(syncMsgsRes seq timestamp resp, encodeSyncMsgsRes seq timestamp resp)]
    (List.nodup_singleton _)

theorem serialize_ofSyncMsgsRes (seq : UInt64) (timestamp : Int64) (resp : SyncMessagesResp) :
    (ofSyncMsgsRes seq timestamp resp).serialize (syncMsgsRes seq timestamp resp) =
      some (encodeSyncMsgsRes seq timestamp resp) := by
  simp [ofSyncMsgsRes, ofTable]

theorem encodesSyncMsgsRes_ofSyncMsgsRes (seq : UInt64) (timestamp : Int64)
    (resp : SyncMessagesResp) : (ofSyncMsgsRes seq timestamp resp).EncodesSyncMsgsRes := by
  intro seq' timestamp' resp' s hs
  by_cases heq : syncMsgsRes seq timestamp resp = syncMsgsRes seq' timestamp' resp'
  · rw [← heq, serialize_ofSyncMsgsRes] at hs
    simp only [syncMsgsRes, Envelope.mk.injEq, Option.some.injEq, Payload.syncMsgsRes.injEq] at heq
    obtain ⟨rfl, -, rfl, rfl⟩ := heq
    exact (Option.some.inj hs).symm
  · simp [ofSyncMsgsRes, ofTable, heq] at hs

end Codec

namespace World

variable (c : Codec) (createToken : UInt64 → String → String)

/-- A sync request of a client that is logged in, on tables with messages from requests of at
most 1 MiB: the client receives the response exactly when the rows of the page fit its limit. -/
theorem sync_response_received_iff (hcodec : c.EncodesSyncMsgsRes) (w : World) (conn : ConnId)
    (request : Envelope) (env : RequestEnv) (client : NetworkManager) (cursor : UInt64)
    (hauth : w.userIdOf conn ≠ 0) (hcmd : request.cmd = .syncMsgsReq)
    (hpayload : request.payload = some (.syncMsgsReq (client.syncReq cursor)))
    (hstored : ∀ m ∈ w.messages.stored, m.content.length ≤ ProtobufHandler.kMaxMessageSize) :
    ∃ resp, (ProtobufHandler.respond (services c createToken conn env) request w).1 =
        syncMsgsRes request.seq env.now resp ∧
      let packet := encodeSyncMsgsRes request.seq env.now resp
      (∀ s, c.serialize (syncMsgsRes request.seq env.now resp) = some s → s = packet) ∧
      let fits := WindowFits (inbox (w.userIdOf conn) w.messages.stored) cursor env.query request.seq
        env.now
      (packet.length ≤ ListenerLoop.maxPacket ↔ fits) ∧
      ∀ ns, (frame packet).length ≤ ns.length →
        ((ListenerLoop.init.listen ns (frame packet)).1.running = true ↔ fits) := by
  obtain ⟨hlt, hiff⟩ := length_syncMsgsRes_le_iff hauth client env.query request.seq env.now hstored
  refine ⟨_, congrArg Prod.fst (respond_syncMsgsReq hauth hcmd hpayload), hcodec _ _ _, hiff,
    fun ns hns => ?_⟩
  exact (ListenerLoop.running_listen_frame_iff hlt hns).trans hiff

/-- The first sync request of the client of user 1 or 2. -/
def firstSync (user : UInt64) : Envelope :=
  { cmd := .syncMsgsReq, payload := some (.syncMsgsReq ((NetworkManager.init user).syncReq 0)) }

/-- Ann is logged in, and two messages are in her inbox. -/
def annWithTwoMessages : World :=
  { annAndBob with
    sessions := annAndBob.sessions.accept.setUserId 0 1, messages := NetworkManager.twoMessages }

def twoMessagesResp : SyncMessagesResp :=
  annWithTwoMessages.messages.syncMessages 1 ((NetworkManager.init 1).syncReq 0) true

theorem sync_response_received_two :
    let c := Codec.ofSyncMsgsRes 0 0 twoMessagesResp
    ∃ packet, c.serialize (ProtobufHandler.respond (services c (fun _ _ => "") 0 {}) (firstSync 1)
        annWithTwoMessages).1 = some packet ∧
      packet.length ≤ ListenerLoop.maxPacket ∧
      ∀ ns, (frame packet).length ≤ ns.length →
        (ListenerLoop.init.listen ns (frame packet)).1.running = true := by
  have hserialize := Codec.serialize_ofSyncMsgsRes 0 0 twoMessagesResp
  obtain ⟨resp, hresp, hpacket, hsize, hrun⟩ :=
    sync_response_received_iff (Codec.ofSyncMsgsRes 0 0 twoMessagesResp) (fun _ _ => "")
      (Codec.encodesSyncMsgsRes_ofSyncMsgsRes 0 0 _) annWithTwoMessages 0 (firstSync 1) {} (.init 1)
      0 (by decide) rfl rfl (by decide)
  have hanswer : (ProtobufHandler.respond (services (Codec.ofSyncMsgsRes 0 0 twoMessagesResp)
      (fun _ _ => "") 0 {}) (firstSync 1) annWithTwoMessages).1 = syncMsgsRes 0 0 twoMessagesResp :=
    congrArg Prod.fst (respond_syncMsgsReq (by decide) rfl rfl)
  have heq : syncMsgsRes 0 0 twoMessagesResp = syncMsgsRes 0 0 resp := hanswer.symm.trans hresp
  obtain rfl : twoMessagesResp = resp := by simpa [syncMsgsRes] using heq
  have hfits : WindowFits (inbox (annWithTwoMessages.userIdOf 0) annWithTwoMessages.messages.stored)
      0 true 0 0 := by
    unfold WindowFits
    decide
  refine ⟨_, (congrArg _ hanswer).trans hserialize, ?_⟩
  exact ⟨hsize.mpr hfits, fun ns hns => (hrun ns hns).mpr hfits⟩

def bigRequest (content : Bytes) : P2PMessage := { receiverId := 2, content := content, timestamp := 1 }

def sendBig (content : Bytes) : Action :=
  .envelope 0 { cmd := .p2pMsgReq, payload := some (.p2pMsgReq (bigRequest content)) }
    { send := fun _ => { nowMs := 1704067200001 } }

/-- Ann has logged in on connection 0, and connection 1 is open. -/
def annOnline (messages : MsgService) (replies : List Reply) : World :=
  { annAndBob with
    sessions := annAndBob.sessions.accept.accept.setUserId 0 1
    tasks := [1]
    messages := messages
    replies := replies }

section BigMessages

variable {c : Codec}

/-- Bob is not online while ann sends, so it does not matter that the push is not serialised. -/
theorem step_sendBig (hc : ∀ now msg, c.serialize (PushService.p2pMsgPush now msg) = none)
    (m : MsgService) (rs : List Reply) (content : Bytes) :
    ∃ env rs', env .generate = { nowMs := 1704067200001 } ∧
      step c (fun _ _ => "") false (annOnline m rs) (sendBig content) =
        some (annOnline (m.call 1 (bigRequest content) env) rs') := by
  have hpush : ∀ (p : PushService) (msgs : List P2PMessage),
      msgs.foldl (fun p msg => (p.pushP2pMessage c 0 msg).2) p = p := by
    intro p msgs
    induction msgs with
    | nil => rfl
    | cons msg msgs ih =>
      have hpush : (p.pushP2pMessage c 0 msg).2 = p := by
        rw [PushService.pushP2pMessage, PushService.sendEnvelope, hc]
      rw [List.foldl_cons, hpush, ih]
  let env := pushEnv c (annOnline m rs).pushService 0 1 (bigRequest content)
    fun _ => { nowMs := 1704067200001 }
  refine ⟨env, rs ++ m.replies 1 (bigRequest content) env, rfl, ?_⟩
  show some ((annOnline m rs).logPushes
    (sendP2pMessage c { send := fun _ => { nowMs := 1704067200001 } } 1 (bigRequest content)
      (annOnline m rs)).2) = _
  unfold sendP2pMessage
  dsimp only
  rw [hpush]
  rfl

/-- What becomes of the `i`-th request after the sequence number `first`. -/
def bigMsg (content : Bytes) (first : UInt32) (i : ℕ) : P2PMessage :=
  { bigRequest content with
    msgId := IdGenerator.generateMsgId 1704067200001 (first + UInt32.ofNat i), senderId := 1 }

theorem run_sendBig (hc : ∀ now msg, c.serialize (PushService.p2pMsgPush now msg) = none)
    (content : Bytes) (k : ℕ) (m : MsgService) (rs : List Reply) :
    ∃ m' rs', Steps.run (step c (fun _ _ => "") false) (annOnline m rs)
        (List.replicate k (sendBig content)) = some (annOnline m' rs') ∧
      m'.stored = m.stored ∧ m'.writer.running = m.writer.running ∧
      m'.writer.worker = m.writer.worker ∧
      m'.writer.queue = m.writer.queue ++ (List.range k).map (bigMsg content m.sequence) := by
  induction k generalizing m rs with
  | zero => exact ⟨m, rs, rfl, rfl, rfl, rfl, (List.append_nil _).symm⟩
  | succ k ih =>
    obtain ⟨env, rs₁, henv, hstep⟩ := step_sendBig hc m rs content
    have hto : (bigRequest content).receiverId ≠ 0 := show (2 : UInt64) ≠ 0 by decide
    have htime : (bigRequest content).timestamp ≠ 0 := show (1 : Int64) ≠ 0 by decide
    obtain ⟨ack, hcall⟩ : ∃ ack, m.call 1 (bigRequest content) env = _ :=
      MsgService.call_of_clientMsgId_eq_zero (by decide) hto htime rfl
    obtain ⟨m', rs', hrun, hstored, hrunning, hworker, hqueue⟩ :=
      ih (m.call 1 (bigRequest content) env) rs₁
    rw [hcall] at hstored hrunning hworker hqueue
    refine ⟨m', rs', ?_, hstored, hrunning, hworker, hqueue.trans ?_⟩
    · rw [List.replicate_succ, Steps.run_cons, hstep]
      exact hrun
    · have hmsg : m.newMsg 1 (bigRequest content) env = bigMsg content m.sequence 0 := by
        simp only [MsgService.newMsg, MsgService.newId, henv, bigMsg]
        simp
      have hseq : bigMsg content (m.sequence + 1) = bigMsg content m.sequence ∘ Nat.succ := by
        funext i
        have hnext : m.sequence + 1 + UInt32.ofNat i = m.sequence + UInt32.ofNat i.succ := by
          rw [UInt32.add_assoc, UInt32.add_comm 1, Nat.succ_eq_add_one, UInt32.ofNat_add]
          rfl
        rw [bigMsg, hnext, Function.comp_apply, bigMsg]
      show m.writer.queue ++ [m.newMsg 1 (bigRequest content) env] ++
        (List.range k).map (bigMsg content (m.sequence + 1)) = _
      rw [hmsg, hseq, List.range_succ_eq_map, List.map_cons, List.map_map, List.append_assoc]
      rfl

private theorem inbox_bigMsg (content : Bytes) :
    inbox 2 ((List.range 11).map (bigMsg content 0)) =
      ((List.range 11).map (bigMsg content 0)).map inboxRow := by
  apply insertBatch_of_sorted
  · intro m hm
    obtain ⟨i, -, rfl⟩ := List.mem_map.mp hm
    exact .inl rfl
  · rw [List.nil_append, List.map_map, Partition.Sorted, List.pairwise_map]
    show (List.range 11).Pairwise fun i j =>
      bigint (IdGenerator.generateMsgId 1704067200001 (0 + UInt32.ofNat i)) <
        bigint (IdGenerator.generateMsgId 1704067200001 (0 + UInt32.ofNat j))
    decide

/-- Ann logs in and sends the message eleven times, the writer persists it, and bob logs in. -/
def elevenMessages (content : Bytes) : List Action :=
  [.accept, .accept, logIn 0 "ann" "a"] ++ List.replicate 11 (sendBig content) ++
    [.work .ok 0 0, .work .ok 0 0, .work .ok 0 0, logIn 1 "bob" "b"]

private theorem run_elevenMessages (hc : ∀ now msg, c.serialize (PushService.p2pMsgPush now msg) = none)
    (content : Bytes) :
    ∃ w, Steps.run (step c (fun _ _ => "") false) annAndBob (elevenMessages content) = some w ∧
      w.userIdOf 1 = 2 ∧ w.messages.stored = (List.range 11).map (bigMsg content 0) := by
  obtain ⟨m, rs, hrun, hstored, hrunning, hworker, hqueue⟩ :=
    run_sendBig hc content 11 annAndBob.messages []
  have hstart : Steps.run (step c (fun _ _ => "") false) annAndBob
      [.accept, .accept, logIn 0 "ann" "a"] = some (annOnline annAndBob.messages []) := rfl
  obtain ⟨mode, sequence, dedup, cache, ⟨queue, running, worker⟩, stored, enqueued, answers⟩ := m
  obtain rfl : queue = (List.range 11).map (bigMsg content 0) := hqueue
  obtain rfl : running = true := hrunning
  obtain rfl : worker = .test := hworker
  obtain rfl : stored = [] := hstored
  rw [elevenMessages, Steps.run_append, Steps.run_append, hstart, Option.bind_some, hrun,
    Option.bind_some]
  exact ⟨_, rfl, rfl, rfl⟩

def bigContent : Bytes := List.replicate (2 ^ 20 - 256) 97

theorem length_bigContent : bigContent.length = 2 ^ 20 - 256 := List.length_replicate

private theorem length_encodeP2pMsgReq_bigRequest :
    (encodeP2pMsgReq 0 0 (bigRequest bigContent)).length ≤ ProtobufHandler.kMaxMessageSize := by
  have hmsg := length_encode_le (bigRequest bigContent)
  have hcontent : (bigRequest bigContent).content.length = 2 ^ 20 - 256 := length_bigContent
  have hfield := length_messageField_le 300 (bigRequest bigContent).encode
  have hhead : (uintField 1 (0 : UInt64).toNat ++ enumField 2 CommandType.p2pMsgReq.number ++
      int64Field 3 0).length ≤ 4 := by
    decide
  have hmax : ProtobufHandler.kMaxMessageSize = 2 ^ 20 := rfl
  rw [encodeP2pMsgReq, encodeEnvelope, List.length_append, hmax]
  omega

/-- The page has all eleven, which are above the limit together. -/
theorem not_windowFits_bigMsg :
    ¬ WindowFits (inbox 2 ((List.range 11).map (bigMsg bigContent 0))) 0 true 0 0 := by
  have hids : ∀ i ∈ List.range 11, bigint 0 < messageId (inboxRow (bigMsg [] 0 i)) := by
    decide
  have hpending : pending (((List.range 11).map (bigMsg bigContent 0)).map inboxRow) 0 =
      ((List.range 11).map (bigMsg bigContent 0)).map inboxRow := by
    rw [pending, List.filter_eq_self, List.map_map]
    intro r hr
    obtain ⟨i, hi, rfl⟩ := List.mem_map.mp hr
    exact decide_eq_true (hids i hi)
  have hwindow : syncWindow (inbox 2 ((List.range 11).map (bigMsg bigContent 0))) 0 true =
      ((List.range 11).map (bigMsg bigContent 0)).map inboxRow := by
    rw [syncWindow, if_pos rfl, inbox_bigMsg, hpending]
    rfl
  have hcontent : ∀ m ∈ ((List.range 11).map (bigMsg bigContent 0)).map inboxRow,
      2 ^ 20 - 256 ≤ m.content.length := by
    rw [List.map_map]
    intro r hr
    obtain ⟨i, -, rfl⟩ := List.mem_map.mp hr
    exact length_bigContent.ge
  have hlength := le_messagesLength hcontent
  rw [List.length_map, List.length_map, List.length_range] at hlength
  have hmax : ListenerLoop.maxPacket = 10485760 := rfl
  simp only [WindowFits, hwindow, hmax]
  omega

def bigResp : SyncMessagesResp :=
  let rows := inbox 2 ((List.range 11).map (bigMsg bigContent 0))
  let window := syncWindow rows 0 true
  { success := true, messages := window
    nextAckMsgId := (window.getLast?.map P2PMessage.msgId).getD 0
    hasMore := decide (true = true ∧ 100 < (pending rows 0).length) }

/-- Eleven requests of less than 1 MiB each, and then the first sync of the receiver: the response
has more than 10 MiB, and the listener of the client stops. -/
theorem sync_response_too_large :
    let c := Codec.ofSyncMsgsRes 0 0 bigResp
    ∃ w, Steps.run (step c (fun _ _ => "") false) annAndBob (elevenMessages bigContent) = some w ∧
      (encodeP2pMsgReq 0 0 (bigRequest bigContent)).length ≤ ProtobufHandler.kMaxMessageSize ∧
      let answer := (ProtobufHandler.respond (services c (fun _ _ => "") 1 {}) (firstSync 2) w).1
      let packet := encodeSyncMsgsRes 0 0 bigResp
      answer = syncMsgsRes 0 0 bigResp ∧ c.serialize answer = some packet ∧
        ListenerLoop.maxPacket < packet.length ∧
        ∀ ns, (frame packet).length ≤ ns.length →
          (ListenerLoop.init.listen ns (frame packet)).1.running = false := by
  have hpush : ∀ now msg,
      (Codec.ofSyncMsgsRes 0 0 bigResp).serialize (PushService.p2pMsgPush now msg) = none := by
    intro now msg
    simp [Codec.ofSyncMsgsRes, Codec.ofTable, syncMsgsRes, PushService.p2pMsgPush]
  obtain ⟨w, hrun, huser, hstored⟩ := run_elevenMessages hpush bigContent
  have hauth : w.userIdOf 1 ≠ 0 := by
    rw [huser]
    decide
  have hcontent : ∀ m ∈ w.messages.stored, m.content.length ≤ ProtobufHandler.kMaxMessageSize := by
    rw [hstored]
    intro m hm
    obtain ⟨i, -, rfl⟩ := List.mem_map.mp hm
    exact length_bigContent.trans_le (show 2 ^ 20 - 256 ≤ 2 ^ 20 by decide)
  have hresp : w.messages.syncMessages (w.userIdOf 1) ((NetworkManager.init 2).syncReq 0) true =
      bigResp := by
    rw [syncMessages_window hauth, huser, hstored]
    rfl
  obtain ⟨hlt, hiff⟩ : (encodeSyncMsgsRes 0 0 bigResp).length < 2 ^ 32 ∧
      ((encodeSyncMsgsRes 0 0 bigResp).length ≤ ListenerLoop.maxPacket ↔
        WindowFits (inbox 2 ((List.range 11).map (bigMsg bigContent 0))) 0 true 0 0) := by
    rw [← hresp, ← hstored, ← huser]
    exact length_syncMsgsRes_le_iff hauth (.init 2) true 0 0 hcontent
  have hbig : ¬ (encodeSyncMsgsRes 0 0 bigResp).length ≤ ListenerLoop.maxPacket :=
    fun hle => not_windowFits_bigMsg (hiff.mp hle)
  have hanswer : (ProtobufHandler.respond (services (Codec.ofSyncMsgsRes 0 0 bigResp)
      (fun _ _ => "") 1 {}) (firstSync 2) w).1 = syncMsgsRes 0 0 bigResp := by
    rw [respond_syncMsgsReq hauth rfl rfl, ← hresp]
    rfl
  refine ⟨w, hrun, length_encodeP2pMsgReq_bigRequest, hanswer, ?_, not_le.mp hbig, ?_⟩
  · rw [hanswer]
    exact Codec.serialize_ofSyncMsgsRes 0 0 bigResp
  · intro ns hns
    rw [Bool.eq_false_iff]
    exact fun hrunning => hbig ((ListenerLoop.running_listen_frame_iff hlt hns).mp hrunning)

end BigMessages

end World
end TermChat
