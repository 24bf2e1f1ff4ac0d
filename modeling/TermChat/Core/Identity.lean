import TermChat.Core.World

/-! Whose messages the server stores and pushes. The handlers take the sender from the
connection, and `send_p2p_message` writes it and a new id over what the request carries. -/
namespace TermChat
open Proto

namespace Sessions

/-- The user id that was last set on a connection. -/
def lastLogin (logins : List (ConnId × UInt64)) (conn : ConnId) : Option UInt64 :=
  (logins.reverse.find? (·.1 = conn)).map Prod.snd

private theorem lastLogin_append (logins : List (ConnId × UInt64)) (c d : ConnId) (u : UInt64) :
    lastLogin (logins ++ [(c, u)]) d = if c = d then some u else lastLogin logins d := by
  simp only [lastLogin, List.reverse_append, List.reverse_singleton, List.singleton_append,
    List.find?_cons]
  by_cases h : c = d
  · simp [h]
  · simp [h]

private theorem lastLogin_eq_none {logins : List (ConnId × UInt64)} {c : ConnId}
    (h : ∀ x ∈ logins, x.1 ≠ c) : lastLogin logins c = none := by
  simpa [lastLogin] using h

/-- The `user_id_` of every connection is the one that its last login set. -/
structure Current (h : Sessions) : Prop where
  accepted : ∀ x ∈ h.logins, x.1 < h.conns.length
  userId : ∀ c s, h.conns[c]? = some s → s.userId = (lastLogin h.logins c).getD 0

namespace Current

variable {h : Sessions}

theorem of_eq {h' : Sessions} (hh : h.Current) (hc : h'.conns = h.conns)
    (hl : h'.logins = h.logins) : h'.Current := by
  constructor
  · rw [hc, hl]
    exact hh.accepted
  · rw [hc, hl]
    exact hh.userId

theorem accept (hh : h.Current) : h.accept.Current := by
  constructor
  · intro x hx
    simp only [Sessions.accept, List.length_append, List.length_singleton]
    exact Nat.lt_succ_of_lt (hh.accepted x hx)
  · intro c s hs
    simp only [Sessions.accept, List.getElem?_append] at hs
    split_ifs at hs with hlt
    · exact hh.userId c s hs
    · -- the new connection, on which nobody has logged in
      have hnone : lastLogin h.logins c = none := by
        apply lastLogin_eq_none
        intro x hx heq
        exact hlt (heq ▸ hh.accepted x hx)
      obtain ⟨hi, rfl⟩ := List.getElem?_eq_some_iff.mp hs
      simp only [Sessions.accept, hnone, Option.getD_none, List.getElem_singleton]

theorem setUserId (hh : h.Current) {c : ConnId} (hc : c < h.conns.length) (u : UInt64) :
    (h.setUserId c u).Current := by
  constructor
  · intro x hx
    simp only [Sessions.setUserId, List.length_modify]
    rcases List.mem_append.mp hx with hx | hx
    · exact hh.accepted x hx
    · rw [List.mem_singleton.mp hx]
      exact hc
  · intro d s hs
    simp only [Sessions.setUserId, List.getElem?_modify, lastLogin_append] at hs ⊢
    split_ifs at hs ⊢ with hcd
    · obtain ⟨s', -, rfl⟩ := Option.map_eq_some_iff.mp hs
      rfl
    · obtain ⟨s', hs', rfl⟩ := Option.map_eq_some_iff.mp hs
      exact hh.userId d s' hs'

theorem closeConn (hh : h.Current) (c : ConnId) (s : Session) : (h.closeConn c s).Current := by
  unfold Sessions.closeConn
  split_ifs
  · exact hh
  all_goals
    constructor
    · simpa only [List.length_modify] using hh.accepted
    · intro d s hs
      simp only [List.getElem?_modify] at hs
      obtain ⟨s', hs', rfl⟩ := Option.map_eq_some_iff.mp hs
      have := hh.userId d s' hs'
      split_ifs <;> exact this

end Current
end Sessions

namespace World
open Sessions

/-- A message that an action carries into the server: it comes in an envelope, with the sender
that the connection was last logged in as and an id of the server. -/
def Carries (w : World) (a : Action) (m : P2PMessage) : Prop :=
  ∃ conn request env, a = .envelope conn request env ∧ m.senderId ≠ 0 ∧
    lastLogin w.sessions.logins conn = some m.senderId ∧ m.msgId = w.messages.newId env.send

variable (c : Codec)

/-- A step of the server, seen from the messages and the users behind them. -/
structure Authentic (w : World) (a : Action) (t : World) : Prop where
  enqueued : ∃ msgs, t.messages.enqueued = w.messages.enqueued ++ msgs ∧ ∀ m ∈ msgs, w.Carries a m
  pushed : ∃ items, t.pushed = w.pushed ++ items ∧
    ∀ item ∈ items, ∀ e, c.parse item.data = some e → e.cmd = .p2pMsgPush →
      ∃ m, e.payload = some (.p2pMsgPush m) ∧ w.Carries a m
  /-- A user id is set on a connection after the password of the user was checked. -/
  logins : t.sessions.logins = w.sessions.logins ∨
    ∃ conn request env req row id, a = .envelope conn request env ∧
      request.payload = some (.loginReq req) ∧ row ∈ w.users.rows ∧ row.username = req.username ∧
      row.password = req.password ∧ (id = row.userId ∨ id = 0) ∧
      t.sessions.logins = w.sessions.logins ++ [(conn, id)]
  users : t.users = w.users ∨ ∃ conn request env, a = .envelope conn request env ∧
    request.cmd = .registerReq
  /-- What a connection does before it is logged in. -/
  silent : ∀ conn request env, a = .envelope conn request env →
    (lastLogin w.sessions.logins conn).getD 0 = 0 →
      t.messages = w.messages ∧ t.friends = w.friends ∧
        t.pushService.pushQueue = w.pushService.pushQueue

variable {c} {createToken : UInt64 → String → String} {persistedAck : Bool} {w u t : World}
  {conn : ConnId} {request : Envelope} {env : RequestEnv} {a : Action}

theorem userIdOf_eq (hw : w.sessions.Current) (hconn : conn < w.sessions.conns.length) :
    w.userIdOf conn = (lastLogin w.sessions.logins conn).getD 0 := by
  rw [userIdOf, List.getElem?_eq_getElem hconn]
  exact hw.userId conn _ (List.getElem?_eq_getElem hconn)

theorem lastLogin_of_auth (hw : w.sessions.Current) (hconn : conn < w.sessions.conns.length)
    (hauth : w.userIdOf conn ≠ 0) : lastLogin w.sessions.logins conn = some (w.userIdOf conn) := by
  rw [userIdOf_eq hw hconn] at hauth ⊢
  cases hlast : lastLogin w.sessions.logins conn with
  | none => simp [hlast] at hauth
  | some u => rfl

theorem effect_sessions (h : ProtobufHandler.Effect (services c createToken conn env) request w u) :
    (u.sessions.conns = w.sessions.conns ∧ u.sessions.logins = w.sessions.logins) ∨
      ∃ req id, request.payload = some (.loginReq req) ∧
        (userLogin createToken w.users.find env.login req).2 = some id ∧
        u.sessions = w.sessions.setUserId conn id := by
  cases h with
  | login req hpayload =>
    have hset : ∀ r : Option UInt64,
        (userLogin createToken w.users.find env.login req).2 = r →
          let sessions := r.elim w.sessions (w.sessions.setUserId conn)
          (sessions.conns = w.sessions.conns ∧ sessions.logins = w.sessions.logins) ∨
            ∃ req id, request.payload = some (.loginReq req) ∧
              (userLogin createToken w.users.find env.login req).2 = some id ∧
              sessions = w.sessions.setUserId conn id := by
      intro r hr
      cases r with
      | none => exact .inl ⟨rfl, rfl⟩
      | some id => exact .inr ⟨req, id, hpayload, hr, rfl⟩
    split_ifs
    · exact hset _ rfl
    · exact hset _ rfl
  | _ => exact .inl ⟨rfl, rfl⟩

/-- What a request enqueues has the user of the connection as its sender, and a new id. -/
theorem effect_enqueued (h : ProtobufHandler.Effect (services c createToken conn env) request w u) :
    u.messages.enqueued = w.messages.enqueued ++ w.newMsgs u ∧
      ∀ m ∈ w.newMsgs u, m.senderId ≠ 0 ∧ m.senderId = w.userIdOf conn ∧
        m.msgId = w.messages.newId env.send := by
  have hnone : u.messages.enqueued = w.messages.enqueued →
      u.messages.enqueued = w.messages.enqueued ++ w.newMsgs u ∧
        ∀ m ∈ w.newMsgs u, m.senderId ≠ 0 ∧ m.senderId = w.userIdOf conn ∧
          m.msgId = w.messages.newId env.send := by
    intro heq
    have hnew : w.newMsgs u = [] := by rw [newMsgs, heq, List.drop_length]
    rw [hnew, List.append_nil]
    exact ⟨heq, fun m hm => absurd hm List.not_mem_nil⟩
  rcases effect_messages h with ⟨heq, -⟩ | ⟨hauth, req, -, rfl⟩
  · exact hnone (by rw [heq])
  · let env' := pushEnv c w.pushService (env.clock 0) (w.userIdOf conn) req env.send
    obtain ⟨ack, hout⟩ := w.messages.call_outcome (w.userIdOf conn) req env'
    rcases hout.enqueued_eq with heq | ⟨hsender, heq⟩
    · exact hnone heq
    · have hnew : w.newMsgs (sendP2pMessage c env (w.userIdOf conn) req w).2 =
          [w.messages.newMsg (w.userIdOf conn) req env'] := by
        refine (congrArg (List.drop _) heq).trans ?_
        rw [List.drop_left]
      rw [hnew]
      refine ⟨heq, fun m hm => ?_⟩
      rw [List.mem_singleton.mp hm]
      exact ⟨hsender, rfl, rfl⟩

/-- Of the things that a request sends to users only its own message is a message. -/
theorem Origin.newMsg {x : UInt64 × Envelope} (h : Origin w conn request env u x)
    (hcmd : x.2.cmd = .p2pMsgPush) :
    ∃ m ∈ w.newMsgs u, x.2.payload = some (.p2pMsgPush m) := by
  cases h with
  | friendReq _ _ hc => exact absurd (hc.symm.trans hcmd) nofun
  | friendStatus _ _ hc => exact absurd (hc.symm.trans hcmd) nofun
  | message m hm => exact ⟨m, hm, rfl⟩
  | receipt _ hx =>
    obtain ⟨req, -, -, hc, -⟩ := of_mem_receiptsOf hx
    exact absurd (hc.symm.trans hcmd) nofun

/-- Without a user a request can register and log in. -/
theorem effect_silent (h : ProtobufHandler.Effect (services c createToken conn env) request w u)
    (hauth : w.userIdOf conn = 0) :
    u.messages = w.messages ∧ u.friends = w.friends ∧
      u.pushService.pushQueue = w.pushService.pushQueue := by
  cases h with
  | unchanged => exact ⟨rfl, rfl, rfl⟩
  | register req => exact ⟨rfl, rfl, rfl⟩
  | login req =>
    split_ifs
    · exact ⟨rfl, rfl, w.pushQueue_login conn _⟩
    · exact ⟨rfl, rfl, w.pushQueue_login conn _⟩
  | _ h0 => exact absurd hauth h0

theorem effect_users (h : ProtobufHandler.Effect (services c createToken conn env) request w u) :
    u.users = w.users ∨ request.cmd = .registerReq := by
  cases h with
  | register req hcmd => exact .inr hcmd
  | login req =>
    left
    split_ifs <;> rfl
  | _ => exact .inl rfl

theorem envelope_authentic (hw : w.sessions.Current)
    (h : step c createToken persistedAck w (.envelope conn request env) = some t) :
    Authentic c w (.envelope conn request env) t := by
  obtain ⟨u, heff, -, rfl, hconn⟩ := step_envelope h
  obtain ⟨henq, hnew⟩ := effect_enqueued heff
  have hcarries : ∀ m ∈ w.newMsgs u, w.Carries (.envelope conn request env) m := by
    intro m hm
    obtain ⟨hne, hsender, hid⟩ := hnew m hm
    have hlast := lastLogin_of_auth hw hconn (hsender ▸ hne)
    rw [← hsender] at hlast
    exact ⟨conn, request, env, rfl, hne, hlast, hid⟩
  constructor
  case enqueued => exact ⟨w.newMsgs u, henq, hcarries⟩
  case pushed =>
    obtain ⟨xs, hsends, horigin⟩ := effect_sends heff
    refine ⟨_, hsends.logPushes, fun item hitem e hparse hcmd => ?_⟩
    obtain ⟨x, hx, hpush⟩ := List.mem_filterMap.mp hitem
    obtain rfl : x.2 = e := Option.some.inj ((PushService.of_pushItem hpush).2.symm.trans hparse)
    obtain ⟨m, hm, hpayload⟩ := (horigin x hx).newMsg hcmd
    exact ⟨m, hpayload, hcarries m hm⟩
  case logins =>
    rcases effect_sessions heff with ⟨-, hlogins⟩ | ⟨req, id, hpayload, hlogin, hset⟩
    · exact .inl hlogins
    · obtain ⟨row, hrow, hpw, hid⟩ := userLogin_verified hlogin
      obtain ⟨hmem, hname⟩ := w.users.find_eq_some_iff.mp hrow
      exact .inr ⟨conn, request, env, req, row, id, rfl, hpayload, hmem, hname, hpw, hid,
        congrArg Sessions.logins hset⟩
  case users =>
    rcases effect_users heff with husers | hcmd
    · exact .inl husers
    · exact .inr ⟨conn, request, env, rfl, hcmd⟩
  case silent =>
    rintro conn' request' env' heq hlast
    cases heq
    have hsilent := effect_silent heff ((userIdOf_eq hw hconn).trans hlast)
    exact hsilent

theorem authentic_of_internal (ha : ∀ conn request env, a ≠ .envelope conn request env)
    (henq : t.messages.enqueued = w.messages.enqueued) {xs : List (UInt64 × Envelope)}
    (hpushed : t.pushed = w.pushed ++ xs.filterMap (w.pushService.pushItem c))
    (hxs : ∀ x ∈ xs, x.2.cmd ≠ .p2pMsgPush) (hlogins : t.sessions.logins = w.sessions.logins)
    (husers : t.users = w.users) : Authentic c w a t := by
  constructor
  case enqueued =>
    rw [henq]
    exact ⟨[], (List.append_nil _).symm, fun m hm => absurd hm List.not_mem_nil⟩
  case pushed =>
    refine ⟨_, hpushed, fun item hitem e hparse hcmd => ?_⟩
    obtain ⟨x, hx, hpush⟩ := List.mem_filterMap.mp hitem
    obtain rfl : x.2 = e := Option.some.inj ((PushService.of_pushItem hpush).2.symm.trans hparse)
    exact absurd hcmd (hxs x hx)
  case logins => exact .inl hlogins
  case users => exact .inl husers
  case silent => exact fun conn request env heq => absurd heq (ha conn request env)

theorem step_authentic (hw : w.sessions.Current)
    (h : step c createToken persistedAck w a = some t) : Authentic c w a t := by
  have hnil : w.pushed = w.pushed ++ [].filterMap (w.pushService.pushItem c) :=
    (List.append_nil _).symm
  have hno : ∀ x ∈ ([] : List (UInt64 × Envelope)), x.2.cmd ≠ .p2pMsgPush :=
    fun x hx => absurd hx List.not_mem_nil
  cases a with
  | envelope conn request env => exact envelope_authentic hw h
  | accept =>
    obtain rfl := Option.some.inj h
    exact authentic_of_internal (fun _ _ _ => nofun) rfl hnil hno rfl rfl
  | close conn =>
    obtain ⟨s, -, rfl⟩ := Option.map_eq_some_iff.mp h
    have hlogins : (w.sessions.closeConn conn s).logins = w.sessions.logins := by
      unfold Sessions.closeConn
      split_ifs <;> rfl
    exact authentic_of_internal (fun _ _ _ => nofun) rfl hnil hno hlogins rfl
  | flush maxCount =>
    obtain rfl := Option.some.inj h
    exact authentic_of_internal (fun _ _ _ => nofun) rfl hnil hno rfl rfl
  | task i ok clock =>
    obtain ⟨userId, -, rfl⟩ := Option.map_eq_some_iff.mp h
    obtain ⟨xs, hsends, hkind⟩ := w.pushPending_sends c ok clock userId (w.tasks.eraseIdx i)
    refine authentic_of_internal (fun _ _ _ => nofun) rfl hsends.logPushes (fun x hx hcmd => ?_) rfl rfl
    obtain ⟨m, hc, -⟩ := hkind x hx
    exact absurd (hc.symm.trans hcmd) nofun
  | work out now clock =>
    obtain rfl := Option.some.inj h
    obtain ⟨xs, hsends, hkind⟩ := w.pushPersisted_sends c persistedAck clock
      (w.messages.work out now)
    have hsame := w.pushPersisted_same c persistedAck clock
    refine authentic_of_internal (fun _ _ _ => nofun) (w.messages.enqueued_work out now) hsends.logPushes
      (fun x hx hcmd => ?_) hsame.2.1 hsame.1
    obtain ⟨ack, hc, -⟩ := hkind x hx
    exact absurd (hc.symm.trans hcmd) nofun

theorem step_current (hw : w.sessions.Current)
    (h : step c createToken persistedAck w a = some t) : t.sessions.Current := by
  cases a with
  | envelope conn request env =>
    obtain ⟨u, heff, -, rfl, hconn⟩ := step_envelope h
    rcases effect_sessions heff with ⟨hconns, hlogins⟩ | ⟨req, id, -, -, hset⟩
    · exact hw.of_eq hconns hlogins
    · have hcur := hw.setUserId hconn id
      rw [← hset] at hcur
      exact hcur
  | accept =>
    obtain rfl := Option.some.inj h
    exact hw.accept
  | close conn =>
    obtain ⟨s, -, rfl⟩ := Option.map_eq_some_iff.mp h
    exact hw.closeConn conn s
  | flush maxCount =>
    obtain rfl := Option.some.inj h
    exact hw.of_eq rfl rfl
  | task i ok clock =>
    obtain ⟨userId, -, rfl⟩ := Option.map_eq_some_iff.mp h
    exact hw.of_eq rfl rfl
  | work out now clock =>
    obtain rfl := Option.some.inj h
    have hsame := w.pushPersisted_same c persistedAck clock
    exact hw.of_eq hsame.2.2.1 hsame.2.1

def stripRequest (request : Envelope) : Envelope :=
  match request.payload with
  | some (.p2pMsgReq req) => { request with payload := some (.p2pMsgReq (MsgService.strip req)) }
  | _ => request

/-- An action without the sender and the id that a message claims to have. -/
def Action.strip : Action → Action
  | .envelope conn request env => .envelope conn (stripRequest request) env
  | a => a

variable (c env) in
theorem sendP2pMessage_strip (senderId : UInt64) (req : P2PMessage) (w : World) :
    sendP2pMessage c env senderId (MsgService.strip req) w = sendP2pMessage c env senderId req w := by
  have henv : pushEnv c w.pushService (env.clock 0) senderId (MsgService.strip req) env.send =
      pushEnv c w.pushService (env.clock 0) senderId req env.send := by
    funext pc
    cases pc <;> rfl
  simp only [sendP2pMessage, MsgService.replies, henv, MsgService.call_strip]
  rfl

variable (c createToken persistedAck) in
theorem step_strip (w : World) (a : Action) :
    step c createToken persistedAck w a.strip = step c createToken persistedAck w a := by
  cases a with
  | envelope conn request env =>
    have hrespond : ProtobufHandler.respond (services c createToken conn env) (stripRequest request) w =
        ProtobufHandler.respond (services c createToken conn env) request w := by
      unfold stripRequest
      split
      · rename_i req hpayload
        exact ProtobufHandler.dispatch_p2pMsg_congr _
          (fun senderId => sendP2pMessage_strip c env senderId req w) hpayload
      · rfl
    simp only [step, Action.strip, hrespond]
  | _ => rfl

variable (c createToken persistedAck) in
/-- Runs that differ only in the senders and ids that messages claim to have are the same run;
and in every run every message that is enqueued or pushed is from the user whose password was
last given on its connection, and has an id of the server. A connection without a user changes
neither messages, nor friends, nor the push queue. -/
theorem sender_identity (hash : UInt64 → ℕ) (mode : DedupMode) (users : Users)
    (friends : FriendTable) (dedup : DedupTable) (stored : List P2PMessage) (as : List Action) :
    (∀ bs : List Action, bs.map Action.strip = as.map Action.strip →
      Steps.run (step c createToken persistedAck) (init hash mode users friends dedup stored) bs =
        Steps.run (step c createToken persistedAck) (init hash mode users friends dedup stored) as) ∧
    ∀ w, Steps.run (step c createToken persistedAck) (init hash mode users friends dedup stored) as =
        some w → ∀ a t, step c createToken persistedAck w a = some t → Authentic c w a t := by
  constructor
  · intro bs hbs
    have hstrip := Steps.run_map (step_strip c createToken persistedAck)
      (init hash mode users friends dedup stored)
    rw [← hstrip bs, hbs, hstrip as]
  · intro w hrun a t ht
    have hinit : (init hash mode users friends dedup stored).sessions.Current :=
      ⟨fun x hx => absurd hx List.not_mem_nil, fun conn s hs => by cases hs⟩
    have hw : w.sessions.Current := Steps.invariant_of_run
      (I := fun w => w.sessions.Current) (fun _ _ _ hI h => step_current hI h) hinit hrun
    exact step_authentic hw ht

/-- A message to bob that claims to be number 5 of user 8. -/
def forged : Action :=
  .envelope 0
    { cmd := .p2pMsgReq
      payload := some (.p2pMsgReq
        { msgId := 5, senderId := 8, receiverId := 2, timestamp := 1, clientMsgId := 9 }) }
    { send := fun _ => { nowMs := 1704067200001 } }

def stamped : P2PMessage :=
  { msgId := 4194304, senderId := 1, receiverId := 2, timestamp := 1, clientMsgId := 9 }

/-- The wire bytes of its push: fields 2 and 301 of the envelope. -/
def stampedCodec : Codec :=
  .ofTable
    [(PushService.p2pMsgPush 0 stamped,
      [0x10, 51, 0xEA, 0x12, 13, 0x08, 0x80, 0x80, 0x80, 0x02, 0x10, 1, 0x18, 2, 0x30, 1, 0x38, 9])]
    (by decide)

/-- Ann sends it, and bob is logged in. -/
theorem sender_identity_forged :
    ∃ w t, Steps.run (step stampedCodec (fun _ _ => "") false) annAndBob
        [.accept, .accept, logIn 0 "ann" "a", logIn 1 "bob" "b"] = some w ∧
      step stampedCodec (fun _ _ => "") false w forged = some t ∧
      Authentic stampedCodec w forged t ∧
      t.messages.enqueued = [stamped] ∧
      t.pushed.map (fun item => stampedCodec.parse item.data) =
        [some (PushService.p2pMsgPush 0 stamped)] := by
  have h := (sender_identity stampedCodec (fun _ _ => "") false (fun _ => 0) .sync annAndBob.users
    .empty (fun _ => none) [] [.accept, .accept, logIn 0 "ann" "a", logIn 1 "bob" "b"]).2
  exact ⟨_, _, rfl, rfl, h _ rfl _ _ rfl, by decide, by decide⟩

end World
end TermChat
