import TermChat.Core.Sessions
import TermChat.Handler.Dispatch
import TermChat.Service.Ack
import TermChat.Service.Call
import TermChat.Service.Friend

/-! The server as one state: the tables, the sessions with the push service, the message
service and the queued tasks, on which any number of connections send envelopes. An envelope
is served as a whole; the writer thread, the flush thread and the pool work in between. -/
namespace TermChat
open Proto

/-- What serving an envelope reads from its surroundings: clocks, the outcomes of the database
queries, and an id for a new user. -/
structure RequestEnv where
  now : Int64 := 0
  register : RegisterQueries := ⟨true, true, 1⟩
  login : LoginQueries := ⟨true, true, true⟩
  findById : Bool := true
  friend : FriendEnv := {}
  query : Bool := true
  send : Send.Pc → Env := fun _ => {}
  clock : ℕ → Int64 := fun _ => 0

/-- `tasks` are the users whose pending friend requests are to be pushed. `pushed` and
`replies` record what has been put into the push queue and how messages were answered. -/
structure World where
  users : Users
  friends : FriendTable
  messages : MsgService
  sessions : Sessions
  tasks : List UInt64
  pushed : List PushItem
  replies : List Reply

namespace World

def pushService (w : World) : PushService := w.sessions.push

def setPush (w : World) (p : PushService) : World :=
  { w with sessions := { w.sessions with push := p } }

def init (hash : UInt64 → ℕ) (mode : DedupMode) (users : Users) (friends : FriendTable)
    (dedup : DedupTable) (stored : List P2PMessage) : World :=
  ⟨users, friends, .init mode dedup stored, .init hash, [], [], []⟩

def userIdOf (w : World) (conn : ConnId) : UInt64 :=
  ((w.sessions.conns[conn]?).map Session.userId).getD 0

def usernameOf (w : World) (userId : UInt64) : Option String :=
  (w.users.rows.find? (·.userId = userId)).map UserRow.username

variable (c : Codec)

/-- The surroundings of a `send_p2p_message` call whose push goes to the given service. -/
def pushEnv (p : PushService) (now : Int64) (senderId : UInt64) (req : P2PMessage)
    (env : Send.Pc → Env) : Send.Pc → Env
  | .push id =>
    let msg := { req with msgId := id, senderId := senderId }
    { env (.push id) with delivered := (p.pushP2pMessage c now msg).1 }
  | pc => env pc

/-- The message of the call is pushed once it is enqueued. -/
def sendP2pMessage (env : RequestEnv) (senderId : UInt64) (req : P2PMessage) (w : World) :
    MessageAck × World :=
  let env' := pushEnv c w.pushService (env.clock 0) senderId req env.send
  let messages := w.messages.call senderId req env'
  let replies := w.messages.replies senderId req env'
  let sent := messages.enqueued.drop w.messages.enqueued.length
  let p := sent.foldl (fun p msg => (p.pushP2pMessage c (env.clock 0) msg).2) w.pushService
  ((replies.head?.map Reply.ack).getD {},
    { w.setPush p with messages := messages, replies := w.replies ++ replies })

variable (createToken : UInt64 → String → String)

def services (conn : ConnId) (env : RequestEnv) : Services World where
  time w := (env.now, w)
  currentUserId w := w.userIdOf conn
  userRegister req w :=
    let r := TermChat.userRegister w.users env.register req
    (r.1, { w with users := r.2 })
  userLogin req w :=
    let r := TermChat.userLogin createToken w.users.find env.login req
    (r.1, { w with sessions := r.2.elim w.sessions (w.sessions.setUserId conn) })
  addPendingRequestsTask u w := { w with tasks := w.tasks ++ [u] }
  addFriend user req w :=
    let r := FriendService.addFriend c (UserDao.findById w.users env.findById) env.friend user req
      w.friends w.pushService
    (r.1, { w.setPush r.2.2 with friends := r.2.1 })
  handleFriend user req w :=
    let r := FriendService.handleFriend c (UserDao.findById w.users env.findById) env.friend user
      req w.friends w.pushService
    (r.1, { w.setPush r.2.2 with friends := r.2.1 })
  getFriendList user w := (FriendService.getFriendList w.friends w.usernameOf env.query user, w)
  sendP2pMessage := sendP2pMessage c env
  acknowledgeMessage user req w :=
    let r := MsgService.acknowledgeMessage c (env.clock 0) user req w.pushService
    (r.1, w.setPush r.2)
  acknowledgeMessageBatch user acks w :=
    let r := MsgService.acknowledgeMessageBatch c env.clock user acks w.pushService
    (r.1, w.setPush r.2)
  syncMessages user req w := (w.messages.syncMessages user req env.query, w)

/-- The task that a login leaves to the pool: pending friend requests are pushed to the user. -/
def pushPending (ok : Bool) (clock : ℕ → Int64) (userId : UInt64) (w : World) : World :=
  let reqs := if ok then FriendDao.getPendingRequests w.friends w.usernameOf userId else []
  w.setPush (reqs.zipIdx.foldl (fun p req =>
    (p.sendEnvelope c userId
      { cmd := .friendReqPush, timestamp := clock req.2
        payload := some (.friendReqPush req.1) }).2) w.pushService)

/-- `OnMessagePersisted` tells the sender of a persisted message, where that is enabled. -/
def pushPersisted (enabled : Bool) (now : Int64) (w : World) : World :=
  match w.messages.writer.callback with
  | some (msg, true) =>
    if enabled then
      w.setPush (w.pushService.pushMessageAck c now msg.senderId
        { msgId := msg.msgId, success := true, status := .persisted
          senderId := msg.senderId, receiverId := msg.receiverId }).2
    else w
  | _ => w

inductive Action where
  | accept
  | envelope (conn : ConnId) (request : Envelope) (env : RequestEnv)
  | close (conn : ConnId)
  | task (i : ℕ) (ok : Bool) (clock : ℕ → Int64)
  | work (out : InsertOutcome) (now : ℕ) (clock : Int64)
  | flush (maxCount : ℕ)

/-- What has been put into the push queue since `w`. -/
def logPushes (w t : World) : World :=
  { t with pushed := t.pushed ++ t.pushService.pushQueue.drop w.pushService.pushQueue.length }

/-- `persistedAck` is `push_persisted_ack_`. -/
def step (persistedAck : Bool) (w : World) : Action → Option World
  | .accept => some { w with sessions := w.sessions.accept }
  | .envelope conn request env =>
    (w.sessions.conns[conn]?).map fun _ =>
      w.logPushes (ProtobufHandler.respond (services c createToken conn env) request w).2
  | .close conn =>
    (w.sessions.conns[conn]?).map fun s => { w with sessions := w.sessions.closeConn conn s }
  | .task i ok clock =>
    (w.tasks[i]?).map fun userId =>
      w.logPushes { pushPending c ok clock userId w with tasks := w.tasks.eraseIdx i }
  | .work out now clock =>
    some (w.logPushes
      { pushPersisted c persistedAck clock w with messages := w.messages.work out now })
  | .flush maxCount => some (w.setPush (w.pushService.flushPending maxCount).2)

/-- The receipts in a request, as envelopes for the users they name. -/
def receiptsOf (w : World) (conn : ConnId) (request : Envelope) (env : RequestEnv) :
    List (UInt64 × Envelope) :=
  if w.userIdOf conn = 0 then []
  else match request.cmd, request.payload with
    | .msgAck, some (.msgAck ack) => MsgService.receipts env.clock (w.userIdOf conn) [ack]
    | .msgAckBatch, some (.msgAckBatch acks) => MsgService.receipts env.clock (w.userIdOf conn) acks
    | _, _ => []

/-- The messages that have been enqueued since `w`. -/
def newMsgs (w u : World) : List P2PMessage := u.messages.enqueued.drop w.messages.enqueued.length

/-- What the envelopes are that serving a request sends to users. -/
inductive Origin (w : World) (conn : ConnId) (request : Envelope) (env : RequestEnv) (u : World) :
    UInt64 × Envelope → Prop
  | friendReq (x : UInt64 × Envelope) (m : FriendReqPush) (hcmd : x.2.cmd = .friendReqPush)
      (hpayload : x.2.payload = some (.friendReqPush m)) : Origin w conn request env u x
  | friendStatus (x : UInt64 × Envelope) (m : FriendStatusPush) (hcmd : x.2.cmd = .friendStatusPush)
      (hpayload : x.2.payload = some (.friendStatusPush m)) : Origin w conn request env u x
  | message (m : P2PMessage) (hm : m ∈ w.newMsgs u) :
      Origin w conn request env u (m.receiverId, PushService.p2pMsgPush (env.clock 0) m)
  | receipt (x : UInt64 × Envelope) (hx : x ∈ w.receiptsOf conn request env) :
      Origin w conn request env u x

/-- The push queue of `u` is that of `w` with the envelopes of a list. -/
def Sends (w u : World) (xs : List (UInt64 × Envelope)) : Prop :=
  u.pushed = w.pushed ∧ u.pushService.pushQueue =
    w.pushService.pushQueue ++ xs.filterMap (w.pushService.pushItem c)

variable {c createToken} {w u t : World} {conn : ConnId} {request : Envelope} {env : RequestEnv}

private theorem sends_nothing (hp : u.pushed = w.pushed)
    (hq : u.pushService.pushQueue = w.pushService.pushQueue) :
    ∃ xs, Sends c w u xs ∧ ∀ x ∈ xs, Origin w conn request env u x :=
  ⟨[], ⟨hp, by simp [hq]⟩, fun _ hx => absurd hx List.not_mem_nil⟩

/-- The log of the pushes gets what the list adds to the queue. -/
theorem Sends.logPushes {xs : List (UInt64 × Envelope)} (h : Sends c w u xs) :
    (w.logPushes u).pushed = w.pushed ++ xs.filterMap (w.pushService.pushItem c) := by
  unfold World.logPushes
  rw [h.1, h.2, List.drop_left]

private theorem receiptsOf_ack {ack : MessageAck} (hauth : w.userIdOf conn ≠ 0)
    (hcmd : request.cmd = .msgAck) (hpayload : request.payload = some (.msgAck ack)) :
    w.receiptsOf conn request env = MsgService.receipts env.clock (w.userIdOf conn) [ack] := by
  rw [receiptsOf, if_neg hauth, hcmd, hpayload]

private theorem receiptsOf_batch {acks : List MessageAck} (hauth : w.userIdOf conn ≠ 0)
    (hcmd : request.cmd = .msgAckBatch) (hpayload : request.payload = some (.msgAckBatch acks)) :
    w.receiptsOf conn request env = MsgService.receipts env.clock (w.userIdOf conn) acks := by
  rw [receiptsOf, if_neg hauth, hcmd, hpayload]

theorem of_mem_receiptsOf {x : UInt64 × Envelope} (h : x ∈ w.receiptsOf conn request env) :
    ∃ req, MsgService.Passes (w.userIdOf conn) req ∧ x.1 = req.senderId ∧ x.2.cmd = .msgAck ∧
      x.2.payload = some (.msgAck (MsgService.receipt req)) := by
  have hmem : ∃ acks, x ∈ MsgService.receipts env.clock (w.userIdOf conn) acks := by
    unfold receiptsOf at h
    split_ifs at h
    · cases h
    · split at h
      · exact ⟨_, h⟩
      · exact ⟨_, h⟩
      · cases h
  obtain ⟨acks, hmem⟩ := hmem
  obtain ⟨req, -, hreq⟩ := MsgService.mem_receipts hmem
  exact ⟨req, hreq⟩

theorem sendP2pMessage_sends (senderId : UInt64) (req : P2PMessage) :
    let u := (sendP2pMessage c env senderId req w).2
    Sends c w u ((w.newMsgs u).map fun m => (m.receiverId, PushService.p2pMsgPush (env.clock 0) m)) := by
  intro u
  refine ⟨rfl, ?_⟩
  have hfold := w.pushService.foldl_sendEnvelope c
    (fun m : P2PMessage => (m.receiverId, PushService.p2pMsgPush (env.clock 0) m)) (w.newMsgs u)
  exact congrArg PushService.pushQueue hfold

variable (w conn) in
theorem pushQueue_login (id : Option UInt64) :
    (id.elim w.sessions (w.sessions.setUserId conn)).push.pushQueue = w.pushService.pushQueue := by
  cases id <;> rfl

/-- Everything that serving a request puts into the push queue has one of the origins. -/
theorem effect_sends (h : ProtobufHandler.Effect (services c createToken conn env) request w u) :
    ∃ xs, Sends c w u xs ∧ ∀ x ∈ xs, Origin w conn request env u x := by
  cases h with
  | unchanged => exact sends_nothing rfl rfl
  | register req => exact sends_nothing rfl rfl
  | login req =>
    split_ifs
    · exact sends_nothing rfl (w.pushQueue_login conn _)
    · exact sends_nothing rfl (w.pushQueue_login conn _)
  | addFriend hauth req =>
    obtain ⟨xs, hxs, hkind⟩ := FriendService.addFriend_push c (UserDao.findById w.users env.findById)
      env.friend w.friends w.pushService (w.userIdOf conn) req
    refine ⟨xs, ⟨rfl, congrArg PushService.pushQueue hxs⟩, fun x hx => ?_⟩
    obtain ⟨m, hcmd, hpayload⟩ := hkind x hx
    exact .friendReq x m hcmd hpayload
  | handleFriend hauth req =>
    obtain ⟨xs, hxs, hkind⟩ := FriendService.handleFriend_push c
      (UserDao.findById w.users env.findById) env.friend w.friends w.pushService (w.userIdOf conn) req
    refine ⟨xs, ⟨rfl, congrArg PushService.pushQueue hxs⟩, fun x hx => ?_⟩
    obtain ⟨m, hcmd, hpayload⟩ := hkind x hx
    exact .friendStatus x m hcmd hpayload
  | getFriendList hauth => exact sends_nothing rfl rfl
  | sendP2pMessage hauth req =>
    refine ⟨_, sendP2pMessage_sends (w.userIdOf conn) req, fun x hx => ?_⟩
    obtain ⟨m, hm, rfl⟩ := List.mem_map.mp hx
    exact .message m hm
  | acknowledge hauth req hcmd hpayload =>
    refine ⟨w.receiptsOf conn request env, ⟨rfl, ?_⟩, fun x hx => .receipt x hx⟩
    rw [receiptsOf_ack hauth hcmd hpayload]
    exact congrArg PushService.pushQueue
      (MsgService.acknowledgeMessageBatch_snd c env.clock (w.userIdOf conn) [req] w.pushService)
  | acknowledgeBatch hauth acks hcmd hpayload =>
    refine ⟨w.receiptsOf conn request env, ⟨rfl, ?_⟩, fun x hx => .receipt x hx⟩
    rw [receiptsOf_batch hauth hcmd hpayload]
    exact congrArg PushService.pushQueue
      (MsgService.acknowledgeMessageBatch_snd c env.clock (w.userIdOf conn) acks w.pushService)
  | sync hauth req => exact sends_nothing rfl rfl

variable (w c) in
theorem pushPending_sends (ok : Bool) (clock : ℕ → Int64) (userId : UInt64) (tasks : List UInt64) :
    ∃ xs, Sends c w { pushPending c ok clock userId w with tasks := tasks } xs ∧
      ∀ x ∈ xs, ∃ m, x.2.cmd = .friendReqPush ∧ x.2.payload = some (.friendReqPush m) := by
  let f (req : FriendReqPush × ℕ) : UInt64 × Envelope :=
    (userId, { cmd := .friendReqPush, timestamp := clock req.2,
               payload := some (.friendReqPush req.1) })
  refine ⟨_, ⟨rfl, congrArg PushService.pushQueue (w.pushService.foldl_sendEnvelope c f _)⟩, ?_⟩
  intro x hx
  obtain ⟨req, -, rfl⟩ := List.mem_map.mp hx
  exact ⟨req.1, rfl, rfl⟩

variable (w c) in
theorem pushPersisted_sends (enabled : Bool) (now : Int64) (messages : MsgService) :
    ∃ xs, Sends c w { pushPersisted c enabled now w with messages := messages } xs ∧
      ∀ x ∈ xs, ∃ ack, x.2.cmd = .msgAck ∧ x.2.payload = some (.msgAck ack) ∧
        ack.status = .persisted := by
  have hnone : ∃ xs, Sends c w { w with messages := messages } xs ∧
      ∀ x ∈ xs, ∃ ack, x.2.cmd = .msgAck ∧ x.2.payload = some (.msgAck ack) ∧
        ack.status = .persisted :=
    ⟨[], ⟨rfl, by simp [pushService]⟩, fun _ hx => absurd hx List.not_mem_nil⟩
  unfold pushPersisted
  split
  · rename_i msg _
    split_ifs
    · refine ⟨_, ⟨rfl, congrArg PushService.pushQueue (w.pushService.sendEnvelope_snd c _ _)⟩, ?_⟩
      intro x hx
      rw [List.mem_singleton.mp hx]
      exact ⟨_, rfl, rfl, rfl⟩
    · exact hnone
  · exact hnone

variable (w c) in
theorem pushPersisted_same (enabled : Bool) (now : Int64) :
    (pushPersisted c enabled now w).users = w.users ∧
      (pushPersisted c enabled now w).sessions.logins = w.sessions.logins ∧
      (pushPersisted c enabled now w).sessions.conns = w.sessions.conns ∧
      (pushPersisted c enabled now w).replies = w.replies := by
  unfold pushPersisted
  split
  · split_ifs <;> exact ⟨rfl, rfl, rfl, rfl⟩
  · exact ⟨rfl, rfl, rfl, rfl⟩

/-- Serving a request leaves the message service alone, or it is one call for the user of the
connection. -/
theorem effect_messages (h : ProtobufHandler.Effect (services c createToken conn env) request w u) :
    (u.messages = w.messages ∧ u.replies = w.replies) ∨
      w.userIdOf conn ≠ 0 ∧ ∃ req, request.payload = some (.p2pMsgReq req) ∧
        u = (sendP2pMessage c env (w.userIdOf conn) req w).2 := by
  cases h with
  | sendP2pMessage hauth req hpayload => exact .inr ⟨hauth, req, hpayload, rfl⟩
  | login req =>
    left
    split_ifs <;> exact ⟨rfl, rfl⟩
  | _ => exact .inl ⟨rfl, rfl⟩

theorem step_envelope {b : Bool} (h : step c createToken b w (.envelope conn request env) = some t) :
    ∃ u, ProtobufHandler.Effect (services c createToken conn env) request w u ∧
      u = (ProtobufHandler.respond (services c createToken conn env) request w).2 ∧
      t = w.logPushes u ∧ conn < w.sessions.conns.length := by
  obtain ⟨s, hs, rfl⟩ := Option.map_eq_some_iff.mp h
  exact ⟨_, ProtobufHandler.dispatch_effect _ _ _ _, rfl, rfl, (List.getElem?_eq_some_iff.mp hs).1⟩

def annAndBob : World :=
  init (fun _ => 0) .sync ⟨[⟨1, "ann", "a"⟩, ⟨2, "bob", "b"⟩], by decide⟩ .empty (fun _ => none) []

def logIn (conn : ConnId) (username password : String) : Action :=
  .envelope conn { cmd := .loginReq, payload := some (.loginReq ⟨username, password⟩) } {}

end World
end TermChat
