import TermChat.Proto.Messages

/-! `ProtobufHandler::Dispatch` and its handlers. The services, the clock, the thread pool
and the session of the connection are operations on a world `σ`. -/
namespace TermChat
open Proto

/-- What the handlers call. `currentUserId` is `conn_->get_user_id()`. -/
structure Services (σ : Type) where
  time : σ → Int64 × σ
  currentUserId : σ → UInt64
  userRegister : RegisterReq → σ → RegisterResp × σ
  userLogin : LoginReq → σ → LoginResp × σ
  addPendingRequestsTask : UInt64 → σ → σ
  addFriend : UInt64 → AddFriendReq → σ → AddFriendResp × σ
  handleFriend : UInt64 → HandleFriendReq → σ → HandleFriendResp × σ
  getFriendList : UInt64 → σ → GetFriendListResp × σ
  sendP2pMessage : UInt64 → P2PMessage → σ → MessageAck × σ
  acknowledgeMessage : UInt64 → MessageAck → σ → MessageAck × σ
  acknowledgeMessageBatch : UInt64 → List MessageAck → σ → List MessageAck × σ
  syncMessages : UInt64 → SyncMessagesReq → σ → SyncMessagesResp × σ

namespace ProtobufHandler

variable {σ : Type} (svc : Services σ)

/-- The response of `RequireAuth` when nobody is logged in on the connection. -/
def unauthorized (response : Envelope) (respCmd : CommandType) : Envelope :=
  if respCmd = .msgAck then
    { response with
      cmd := respCmd
      payload := some (.msgAck { errorMsg := "Unauthorized: user not logged in" }) }
  else { response with cmd := respCmd }

/-- `RequireAuth`, then the rest of a handler. -/
def requireAuth (respCmd : CommandType) (response : Envelope) (w : σ)
    (handle : UInt64 → Envelope × σ) : Envelope × σ :=
  if svc.currentUserId w = 0 then (unauthorized response respCmd, w)
  else handle (svc.currentUserId w)

/-- The body that the handlers share: the expected payload goes to the service, and its
absence is answered with an error of the response type. -/
def serveWith {α : Type} (respCmd : CommandType) (response : Envelope) (req : Option α)
    (missing : Payload) (serve : α → σ → Payload × σ) (w : σ) : Envelope × σ :=
  match req with
  | some req =>
    let (payload, w) := serve req w
    ({ response with cmd := respCmd, payload := some payload }, w)
  | none => ({ response with cmd := respCmd, payload := some missing }, w)

def handleRegister (request response : Envelope) : σ → Envelope × σ :=
  serveWith .registerRes response
    (match request.payload with | some (.registerReq req) => some req | _ => none)
    (.registerRes { errorMsg := "Invalid request: missing register payload" })
    fun req w =>
      let (resp, w) := svc.userRegister req w
      (.registerRes resp, w)

def handleLogin (request response : Envelope) : σ → Envelope × σ :=
  serveWith .loginRes response
    (match request.payload with | some (.loginReq req) => some req | _ => none)
    (.loginRes { errorMsg := "Invalid request: missing login payload" })
    fun req w =>
      let (resp, w) := svc.userLogin req w
      (.loginRes resp, if resp.success then svc.addPendingRequestsTask resp.userInfo.userId w else w)

def handleAddFriend (request response : Envelope) (w : σ) : Envelope × σ :=
  requireAuth svc .addFriendRes response w fun user =>
    serveWith .addFriendRes response
      (match request.payload with | some (.addFriendReq req) => some req | _ => none)
      (.addFriendRes { errorMsg := "Invalid request: missing add friend payload" })
      (fun req w =>
        let (resp, w) := svc.addFriend user req w
        (.addFriendRes resp, w)) w

def handleHandleFriend (request response : Envelope) (w : σ) : Envelope × σ :=
  requireAuth svc .handleFriendRes response w fun user =>
    serveWith .handleFriendRes response
      (match request.payload with | some (.handleFriendReq req) => some req | _ => none)
      (.handleFriendRes { errorMsg := "Invalid request: missing handle friend payload" })
      (fun req w =>
        let (resp, w) := svc.handleFriend user req w
        (.handleFriendRes resp, w)) w

def handleGetFriendList (request response : Envelope) (w : σ) : Envelope × σ :=
  requireAuth svc .getFriendListRes response w fun user =>
    serveWith .getFriendListRes response
      (match request.payload with | some .getFriendListReq => some () | _ => none)
      (.getFriendListRes { errorMsg := "Invalid request: missing get friend list payload" })
      (fun _ w =>
        let (resp, w) := svc.getFriendList user w
        (.getFriendListRes resp, w)) w

def handleP2PMsg (request response : Envelope) (w : σ) : Envelope × σ :=
  requireAuth svc .msgAck response w fun user =>
    serveWith .msgAck response
      (match request.payload with | some (.p2pMsgReq req) => some req | _ => none)
      (.msgAck { errorMsg := "Invalid request: missing p2p message payload" })
      (fun req w =>
        let (ack, w) := svc.sendP2pMessage user req w
        (.msgAck { ack with refSeq := request.seq }, w)) w

def handleMessageAck (request response : Envelope) (w : σ) : Envelope × σ :=
  requireAuth svc .msgAck response w fun user =>
    serveWith .msgAck response
      (match request.payload with | some (.msgAck req) => some req | _ => none)
      (.msgAck { errorMsg := "Invalid request: missing message ack payload" })
      (fun req w =>
        let (ack, w) := svc.acknowledgeMessage user req w
        (.msgAck { ack with refSeq := request.seq }, w)) w

def handleMessageAckBatch (request response : Envelope) (w : σ) : Envelope × σ :=
  requireAuth svc .msgAckBatch response w fun user =>
    serveWith .msgAckBatch response
      (match request.payload with | some (.msgAckBatch acks) => some acks | _ => none)
      (.msgAckBatch [{ errorMsg := "Invalid request: missing message ack batch payload" }])
      (fun acks w =>
        let (resps, w) := svc.acknowledgeMessageBatch user acks w
        (.msgAckBatch (resps.map fun ack => { ack with refSeq := request.seq }), w)) w

def handleSyncMessages (request response : Envelope) (w : σ) : Envelope × σ :=
  requireAuth svc .syncMsgsRes response w fun user =>
    serveWith .syncMsgsRes response
      (match request.payload with | some (.syncMsgsReq req) => some req | _ => none)
      (.syncMsgsRes { errorMsg := "Invalid request: missing sync messages payload" })
      (fun req w =>
        let (resp, w) := svc.syncMessages user req w
        (.syncMsgsRes resp, w)) w

def handleUnknown (response : Envelope) : Envelope := { response with cmd := .unknown }

def dispatch (request response : Envelope) (w : σ) : Envelope × σ :=
  match request.cmd with
  | .registerReq => handleRegister svc request response w
  | .loginReq => handleLogin svc request response w
  | .addFriendReq => handleAddFriend svc request response w
  | .handleFriendReq => handleHandleFriend svc request response w
  | .getFriendListReq => handleGetFriendList svc request response w
  | .p2pMsgReq => handleP2PMsg svc request response w
  | .msgAck => handleMessageAck svc request response w
  | .msgAckBatch => handleMessageAckBatch svc request response w
  | .syncMsgsReq => handleSyncMessages svc request response w
  | .heartbeat => (response, w)
  | _ => (handleUnknown response, w)

/-- The response that `Process` prepares for a request before and while it dispatches it. -/
def respond (request : Envelope) (w : σ) : Envelope × σ :=
  let (now, w) := svc.time w
  dispatch svc request { seq := request.seq, timestamp := now } w

private theorem serveWith_seq {α : Type} (respCmd : CommandType) (response : Envelope) (req : Option α)
    (missing : Payload) (serve : α → σ → Payload × σ) (w : σ) :
    (serveWith respCmd response req missing serve w).1.seq = response.seq := by
  cases req <;> rfl

private theorem requireAuth_seq (respCmd : CommandType) (response : Envelope) (w : σ)
    (handle : UInt64 → Envelope × σ) (h : ∀ u, (handle u).1.seq = response.seq) :
    (requireAuth svc respCmd response w handle).1.seq = response.seq := by
  unfold requireAuth unauthorized
  split_ifs
  · rfl
  · rfl
  · exact h _

/-- No handler touches the sequence number of the response. -/
theorem dispatch_seq (request response : Envelope) (w : σ) :
    (dispatch svc request response w).1.seq = response.seq := by
  unfold dispatch
  split
  case h_1 | h_2 => exact serveWith_seq _ _ _ _ _ _
  case h_10 | h_11 => rfl
  all_goals exact requireAuth_seq svc _ _ _ _ fun u => serveWith_seq _ _ _ _ _ _

@[simp] theorem respond_seq (request : Envelope) (w : σ) :
    (respond svc request w).1.seq = request.seq :=
  dispatch_seq svc request _ _

/-- What a request can do to the world: nothing, or one call of the service that its command
and its payload select, for the user of the connection where that is required. -/
inductive Effect (request : Envelope) (w : σ) : σ → Prop
  | unchanged : Effect request w w
  | register (req : RegisterReq) (hcmd : request.cmd = .registerReq) :
      Effect request w (svc.userRegister req w).2
  | login (req : LoginReq) (hpayload : request.payload = some (.loginReq req)) :
      Effect request w
        (if (svc.userLogin req w).1.success then
          svc.addPendingRequestsTask (svc.userLogin req w).1.userInfo.userId (svc.userLogin req w).2
        else (svc.userLogin req w).2)
  | addFriend (hauth : svc.currentUserId w ≠ 0) (req : AddFriendReq) :
      Effect request w (svc.addFriend (svc.currentUserId w) req w).2
  | handleFriend (hauth : svc.currentUserId w ≠ 0) (req : HandleFriendReq) :
      Effect request w (svc.handleFriend (svc.currentUserId w) req w).2
  | getFriendList (hauth : svc.currentUserId w ≠ 0) :
      Effect request w (svc.getFriendList (svc.currentUserId w) w).2
  | sendP2pMessage (hauth : svc.currentUserId w ≠ 0) (req : P2PMessage)
      (hpayload : request.payload = some (.p2pMsgReq req)) :
      Effect request w (svc.sendP2pMessage (svc.currentUserId w) req w).2
  | acknowledge (hauth : svc.currentUserId w ≠ 0) (req : MessageAck)
      (hcmd : request.cmd = .msgAck) (hpayload : request.payload = some (.msgAck req)) :
      Effect request w (svc.acknowledgeMessage (svc.currentUserId w) req w).2
  | acknowledgeBatch (hauth : svc.currentUserId w ≠ 0) (acks : List MessageAck)
      (hcmd : request.cmd = .msgAckBatch) (hpayload : request.payload = some (.msgAckBatch acks)) :
      Effect request w (svc.acknowledgeMessageBatch (svc.currentUserId w) acks w).2
  | sync (hauth : svc.currentUserId w ≠ 0) (req : SyncMessagesReq) :
      Effect request w (svc.syncMessages (svc.currentUserId w) req w).2

private theorem requireAuth_world {P : σ → Prop} {respCmd : CommandType} {response : Envelope} {w : σ}
    {handle : UInt64 → Envelope × σ} (hw : P w)
    (h : svc.currentUserId w ≠ 0 → P (handle (svc.currentUserId w)).2) :
    P (requireAuth svc respCmd response w handle).2 := by
  unfold requireAuth
  split_ifs with h0
  · exact hw
  · exact h h0

theorem serveWith_world {P : σ → Prop} {α : Type} {respCmd : CommandType} {response : Envelope}
    {req : Option α} {missing : Payload} {serve : α → σ → Payload × σ} {w : σ} (hw : P w)
    (h : ∀ r, req = some r → P (serve r w).2) :
    P (serveWith respCmd response req missing serve w).2 := by
  cases req with
  | none => exact hw
  | some r => exact h r rfl

theorem serveAuth_world {P : σ → Prop} {α : Type} {respCmd : CommandType} {response : Envelope}
    {req : Option α} {missing : Payload} {serve : UInt64 → α → σ → Payload × σ} {w : σ} (hw : P w)
    (h : svc.currentUserId w ≠ 0 → ∀ r, req = some r → P (serve (svc.currentUserId w) r w).2) :
    P (requireAuth svc respCmd response w fun user =>
      serveWith respCmd response req missing (serve user) w).2 :=
  requireAuth_world svc hw fun hauth => serveWith_world hw (h hauth)

theorem dispatch_effect (request response : Envelope) (w : σ) :
    Effect svc request w (dispatch svc request response w).2 := by
  have hw : Effect svc request w w := .unchanged
  unfold dispatch
  split
  case h_1 hcmd => exact serveWith_world hw fun req _ => .register req hcmd
  case h_2 hcmd =>
    refine serveWith_world hw fun req hreq => ?_
    split at hreq
    · rename_i r hp
      cases hreq
      exact .login req hp
    · cases hreq
  case h_3 hcmd => exact serveAuth_world svc hw fun hauth req _ => .addFriend hauth req
  case h_4 hcmd => exact serveAuth_world svc hw fun hauth req _ => .handleFriend hauth req
  case h_5 hcmd => exact serveAuth_world svc hw fun hauth _ _ => .getFriendList hauth
  case h_6 hcmd =>
    refine serveAuth_world svc hw fun hauth req hreq => ?_
    split at hreq
    · rename_i r hp
      cases hreq
      exact .sendP2pMessage hauth req hp
    · cases hreq
  case h_7 hcmd =>
    refine serveAuth_world svc hw fun hauth req hreq => ?_
    split at hreq
    · rename_i r hp
      cases hreq
      exact .acknowledge hauth req hcmd hp
    · cases hreq
  case h_8 hcmd =>
    refine serveAuth_world svc hw fun hauth req hreq => ?_
    split at hreq
    · rename_i r hp
      cases hreq
      exact .acknowledgeBatch hauth req hcmd hp
    · cases hreq
  case h_9 hcmd => exact serveAuth_world svc hw fun hauth req _ => .sync hauth req
  case h_10 => exact hw
  case h_11 => exact hw

theorem dispatch_msgAck {request response : Envelope} {w : σ} {ack : MessageAck}
    (hauth : svc.currentUserId w ≠ 0) (hcmd : request.cmd = .msgAck)
    (hpayload : request.payload = some (.msgAck ack)) :
    (dispatch svc request response w).2 = (svc.acknowledgeMessage (svc.currentUserId w) ack w).2 := by
  simp only [dispatch, hcmd, handleMessageAck, requireAuth, if_neg hauth, serveWith, hpayload]

theorem dispatch_msgAckBatch {request response : Envelope} {w : σ} {acks : List MessageAck}
    (hauth : svc.currentUserId w ≠ 0) (hcmd : request.cmd = .msgAckBatch)
    (hpayload : request.payload = some (.msgAckBatch acks)) :
    (dispatch svc request response w).2 =
      (svc.acknowledgeMessageBatch (svc.currentUserId w) acks w).2 := by
  simp only [dispatch, hcmd, handleMessageAckBatch, requireAuth, if_neg hauth, serveWith, hpayload]

/-- Two messages that are the same to the service are the same to the dispatcher. -/
theorem dispatch_p2pMsg_congr {request response : Envelope} {w : σ} {m m' : P2PMessage}
    (hm : ∀ u, svc.sendP2pMessage u m' w = svc.sendP2pMessage u m w)
    (hp : request.payload = some (.p2pMsgReq m)) :
    dispatch svc { request with payload := some (.p2pMsgReq m') } response w =
      dispatch svc request response w := by
  obtain ⟨seq, cmd, timestamp, payload⟩ := request
  obtain rfl : payload = some (.p2pMsgReq m) := hp
  cases cmd with
  | p2pMsgReq => simp only [dispatch, handleP2PMsg, serveWith, hm]
  | _ => rfl

end ProtobufHandler
end TermChat
