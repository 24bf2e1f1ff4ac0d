import TermChat.Base.Steps
import TermChat.Base.Threads
import TermChat.Dao.Writer
import TermChat.Service.DedupCache
import TermChat.Utils.IdGenerator

/-! `MsgService::send_p2p_message` and `OnMessagePersisted`, as steps of concurrent calls and of
the writer thread on the state they share. A call takes one step for each access to shared
state, in the order of the source; a query or an insert on the dedup table may fail, and an insert
may be applied although it is reported as failed. -/
namespace TermChat
open Proto MsgScyllaDao

/-- The flags `sync_client_dedup_` and `fast_client_dedup_`, of which at most one is set. -/
inductive DedupMode where
  | sync | fast | disabled
  deriving DecidableEq, Repr

/-- Where a `send_p2p_message` call stands. `msgId` is the id of `msg_to_store`. -/
inductive Send.Pc where
  | getDedup
  | generate
  | reserve (msgId : UInt64)
  | upsertReceived (msgId : UInt64)
  | enqueue (msgId : UInt64)
  | push (msgId : UInt64)
  | updateStatus (msgId : UInt64) (delivered : Bool)
  | upsertEnqueued (msgId : UInt64) (delivered : Bool)
  deriving DecidableEq, Repr

structure Send where
  senderId : UInt64
  req : P2PMessage
  pc : Send.Pc
  deriving DecidableEq, Repr

namespace Send

def key (c : Send) : DedupKey := (c.senderId, c.req.clientMsgId)

/-- The timestamp is not zero here, so the source's default for it is never taken. -/
def msgToStore (c : Send) (msgId : UInt64) : P2PMessage :=
  { c.req with msgId := msgId, senderId := c.senderId }

def goto (c : Send) (pc : Pc) : Send := { c with pc := pc }

@[simp] theorem key_goto (c : Send) (pc : Pc) : (c.goto pc).key = c.key := rfl

@[simp] theorem pc_goto (c : Send) (pc : Pc) : (c.goto pc).pc = pc := rfl

end Send

def msgKey (msg : P2PMessage) : DedupKey := (msg.senderId, msg.clientMsgId)

@[simp] theorem msgKey_msgToStore (c : Send) (msgId : UInt64) : msgKey (c.msgToStore msgId) = c.key :=
  rfl

/-- An answer that was given. `fromDedup` tells whether it was read from a dedup entry. -/
structure Answer where
  key : DedupKey
  ack : MessageAck
  fromDedup : Bool
  deriving DecidableEq, Repr

/-- The state behind the calls. `stored` lists the inserted messages, `enqueued` and `answers`
record what has happened. -/
structure MsgService where
  mode : DedupMode
  sequence : UInt32
  dedup : DedupTable
  cache : ClientDedupCache
  writer : AsyncMsgWriter P2PMessage
  stored : List P2PMessage
  enqueued : List P2PMessage
  answers : List Answer

/-- What a step finds around it: the two clocks, whether the push found the receiver online, and
how a query and an insert on the dedup table come out. -/
structure Env where
  nowMs : UInt64 := IdGenerator.epoch
  now : ℕ := 0
  delivered : Bool := false
  query : Bool := true
  upsert : InsertOutcome := .ok

namespace MsgService

def init (mode : DedupMode) (dedup : DedupTable) (stored : List P2PMessage) : MsgService :=
  ⟨mode, 0, dedup, ClientDedupCache.init, AsyncMsgWriter.init, stored, [], []⟩

def answer (s : MsgService) (key : DedupKey) (ack : MessageAck) (fromDedup : Bool) : MsgService :=
  { s with answers := s.answers ++ [⟨key, ack, fromDedup⟩] }

def refusal (errorMsg : String) : MessageAck := { errorMsg := errorMsg }

/-- An upsert whose result is ignored. -/
def upsert (s : MsgService) (msg : P2PMessage) (status : MessageAckStatus) (out : InsertOutcome) :
    MsgService :=
  { s with
    dedup := (upsertClientMsgDedup s.dedup msg.senderId msg.clientMsgId msg.msgId msg.receiverId
      status out).1 }

def sendP2pMessage (s : MsgService) (senderId : UInt64) (req : P2PMessage) :
    MsgService × Option Send :=
  let key := (senderId, req.clientMsgId)
  if senderId = 0 then (s.answer key (refusal "Sender ID is empty") false, none)
  else if req.receiverId = 0 then (s.answer key (refusal "Receiver ID is empty") false, none)
  else if req.timestamp = 0 then (s.answer key (refusal "Timestamp is empty") false, none)
  else (s, some ⟨senderId, req, .getDedup⟩)

def ackStatus (delivered : Bool) : MessageAckStatus := if delivered then .enqueued else .received

def acceptedAck (c : Send) (msgId : UInt64) (delivered : Bool) : MessageAck :=
  { msgId := msgId, success := true, refSeq := 0, status := ackStatus delivered
    senderId := c.senderId, receiverId := c.req.receiverId }

def fillDedupAck (senderId : UInt64) (entry : ClientDedupCache.Entry) : MessageAck :=
  { msgId := entry.serverMsgId, success := true, status := entry.status
    senderId := senderId, receiverId := entry.receiverId }

/-- The next step of a call; the call is over when no next one is returned. -/
def advance (s : MsgService) (c : Send) (env : Env) : MsgService × Option Send :=
  match c.pc with
  | .getDedup =>
    if s.mode = .sync ∧ c.req.clientMsgId ≠ 0 then
      match getClientMsgDedup s.dedup c.senderId c.req.clientMsgId env.query with
      | some row =>
        let ack : MessageAck := { msgId := row.serverMsgId, success := true, status := row.status }
        (s.answer c.key ack true, none)
      | none => (s, some (c.goto .generate))
    else (s, some (c.goto .generate))
  | .generate =>
    let msgId := IdGenerator.generateMsgId env.nowMs s.sequence
    ({ s with sequence := s.sequence + 1 }, some (c.goto (.reserve msgId)))
  | .reserve msgId =>
    if s.mode = .fast ∧ c.req.clientMsgId ≠ 0 then
      let (res, cache) :=
        s.cache.reserve c.senderId c.req.clientMsgId msgId c.req.receiverId .received env.now
      let s := { s with cache := cache }
      match res.state with
      | .duplicate => (s.answer c.key (fillDedupAck c.senderId res.entry) true, none)
      | .conflict => (s.answer c.key (refusal "Conflicting duplicate client_msg_id") false, none)
      | .reserved => (s, some (c.goto (.upsertReceived msgId)))
    else (s, some (c.goto (.upsertReceived msgId)))
  | .upsertReceived msgId =>
    if s.mode = .sync ∧ c.req.clientMsgId ≠ 0 then
      let (dedup, ok) := upsertClientMsgDedup s.dedup c.senderId c.req.clientMsgId msgId
        c.req.receiverId .received env.upsert
      let s := { s with dedup := dedup }
      if ok then (s, some (c.goto (.enqueue msgId)))
      else (s.answer c.key (refusal "Failed to persist message dedup state") false, none)
    else (s, some (c.goto (.enqueue msgId)))
  | .enqueue msgId =>
    let msg := c.msgToStore msgId
    ({ s with writer := s.writer.enqueue msg, enqueued := s.enqueued ++ [msg] },
      some (c.goto (.push msgId)))
  | .push msgId => (s, some (c.goto (.updateStatus msgId env.delivered)))
  | .updateStatus msgId delivered =>
    let next := c.goto (.upsertEnqueued msgId delivered)
    if s.mode = .fast ∧ c.req.clientMsgId ≠ 0 then
      let cache := s.cache.updateStatus c.senderId c.req.clientMsgId msgId (ackStatus delivered) env.now
      ({ s with cache := cache }, some next)
    else (s, some next)
  | .upsertEnqueued msgId delivered =>
    let ack := acceptedAck c msgId delivered
    if s.mode = .sync ∧ c.req.clientMsgId ≠ 0 ∧ delivered = true then
      ((s.upsert (c.msgToStore msgId) .enqueued env.upsert).answer c.key ack false, none)
    else (s.answer c.key ack false, none)

/-- The writer's callback, with the ids that its closure captured from the message. -/
def onMessagePersisted (s : MsgService) (msg : P2PMessage) (success : Bool) (out : InsertOutcome)
    (now : ℕ) : MsgService :=
  if success = false ∨ msg.clientMsgId = 0 then s
  else
    let cache :=
      if s.mode = .fast then
        s.cache.updateStatus msg.senderId msg.clientMsgId msg.msgId .persisted now
      else s.cache
    { s with cache := cache }.upsert msg .persisted out

/-- `sync_messages`; `ok` is the outcome of the query. -/
def syncMessages (s : MsgService) (userId : UInt64) (req : SyncMessagesReq) (ok : Bool) :
    SyncMessagesResp :=
  if userId = 0 then { success := false, errorMsg := "User ID is empty" }
  else
    let page := getMessagesForUserAfter (inbox userId s.stored) req.lastAckMsgId req.limit ok
    { success := true, messages := page.messages, nextAckMsgId := page.nextAckMsgId
      hasMore := page.hasMore }

/-- What the next step of the worker does through its callback, if it runs one. -/
def notify (s : MsgService) (out : InsertOutcome) (now : ℕ) : MsgService :=
  match s.writer.callback with
  | some (msg, success) => s.onMessagePersisted msg success out now
  | none => s

/-- The next step of the worker; `out` is the outcome of its `InsertBatch` or of the upsert of its
callback. -/
def work (s : MsgService) (out : InsertOutcome) (now : ℕ) : MsgService :=
  { s.notify out now with
    writer := s.writer.work out.success
    stored := s.stored ++ if out.applied then s.writer.persisting else [] }

variable {s : MsgService}

theorem upsertClientMsgDedup_cases (table : DedupTable) (a b id r : UInt64)
    (status : MessageAckStatus) (out : InsertOutcome) :
    (upsertClientMsgDedup table a b id r status out).1 = table ∨
      out.applied = true ∧ (upsertClientMsgDedup table a b id r status out).1 =
        Function.update table (a, b) (some ⟨id, r, status⟩) := by
  unfold upsertClientMsgDedup
  split_ifs with hzero happlied
  · exact .inl rfl
  · exact .inr ⟨happlied, rfl⟩
  · exact .inl rfl

theorem upsertClientMsgDedup_eq {table : DedupTable} {a b id r : UInt64}
    {status : MessageAckStatus} {out : InsertOutcome}
    (h : (upsertClientMsgDedup table a b id r status out).2 = true) :
    (upsertClientMsgDedup table a b id r status out).1 =
      Function.update table (a, b) (some ⟨id, r, status⟩) := by
  unfold upsertClientMsgDedup at h ⊢
  split_ifs at h ⊢ with hzero happlied
  · rfl
  · exact absurd (InsertOutcome.applied_of_success h) happlied

/-- An upsert that is reported as failed has changed nothing, or it was applied all the same. -/
theorem upsertClientMsgDedup_failed {table : DedupTable} {a b id r : UInt64}
    {status : MessageAckStatus} {out : InsertOutcome}
    (h : (upsertClientMsgDedup table a b id r status out).2 = false) :
    (upsertClientMsgDedup table a b id r status out).1 = table ∨ out = .error true := by
  rcases upsertClientMsgDedup_cases table a b id r status out with heq | ⟨happlied, heq⟩
  · exact .inl heq
  · unfold upsertClientMsgDedup at h ⊢
    split_ifs at h ⊢
    · exact .inl rfl
    · cases out with
      | ok => cases h
      | error applied => exact .inr (congrArg InsertOutcome.error happlied)

theorem dedup_upsert_of_ne {m : P2PMessage} {k : DedupKey} (h : msgKey m ≠ k)
    (status : MessageAckStatus) (out : InsertOutcome) :
    (s.upsert m status out).dedup k = s.dedup k := by
  rcases upsertClientMsgDedup_cases s.dedup m.senderId m.clientMsgId m.msgId m.receiverId status
    out with heq | ⟨-, heq⟩
  · exact congrFun heq k
  · exact (congrFun heq k).trans (Function.update_of_ne (Ne.symm h) _ _)

theorem upsert_row {k : DedupKey} {r : DedupRow} {m : P2PMessage} {status : MessageAckStatus}
    {out : InsertOutcome} (h : (s.upsert m status out).dedup k = some r) :
    s.dedup k = some r ∨
      msgKey m = k ∧ m.msgId = r.serverMsgId ∧ m.receiverId = r.receiverId := by
  by_cases hk : msgKey m = k
  · rcases upsertClientMsgDedup_cases s.dedup m.senderId m.clientMsgId m.msgId m.receiverId status
      out with heq | ⟨-, heq⟩
    · exact .inl ((congrFun heq k).symm.trans h)
    · have hrow := (congrFun heq k).symm.trans h
      rw [← hk] at hrow
      have hself := hrow.symm.trans (Function.update_self _ _ _)
      cases hself
      exact .inr ⟨hk, rfl, rfl⟩
  · rw [dedup_upsert_of_ne hk] at h
    exact .inl h

variable (s)

abbrev reservation (c : Send) (env : Env) (id : UInt64) :=
  s.cache.reserve c.senderId c.req.clientMsgId id c.req.receiverId .received env.now

/-- What the first upsert of a call leaves in the table, and what it returns. -/
abbrev firstUpsert (c : Send) (env : Env) (id : UInt64) :=
  upsertClientMsgDedup s.dedup c.senderId c.req.clientMsgId id c.req.receiverId .received env.upsert

/-- The steps of a call by name: what it reads, what it leaves behind and where it goes on. -/
inductive Advances (c : Send) (env : Env) : MsgService × Option Send → Prop where
  | found (row : DedupRow) (hpc : c.pc = .getDedup) (hsync : s.mode = .sync ∧ c.req.clientMsgId ≠ 0)
      (hrow : getClientMsgDedup s.dedup c.senderId c.req.clientMsgId env.query = some row) :
      Advances c env (s.answer c.key
        { msgId := row.serverMsgId, success := true, status := row.status } true, none)
  | missed (hpc : c.pc = .getDedup) (hmiss : s.mode = .sync ∧ c.req.clientMsgId ≠ 0 →
        getClientMsgDedup s.dedup c.senderId c.req.clientMsgId env.query = none) :
      Advances c env (s, some (c.goto .generate))
  | generate (hpc : c.pc = .generate) :
      Advances c env ({ s with sequence := s.sequence + 1 },
        some (c.goto (.reserve (IdGenerator.generateMsgId env.nowMs s.sequence))))
  | duplicate (id : UInt64) (hpc : c.pc = .reserve id)
      (hfast : s.mode = .fast ∧ c.req.clientMsgId ≠ 0)
      (hstate : (s.reservation c env id).1.state = .duplicate) :
      Advances c env ({ s with cache := (s.reservation c env id).2 }.answer c.key
        (fillDedupAck c.senderId (s.reservation c env id).1.entry) true, none)
  | conflict (id : UInt64) (hpc : c.pc = .reserve id)
      (hfast : s.mode = .fast ∧ c.req.clientMsgId ≠ 0)
      (hstate : (s.reservation c env id).1.state = .conflict) :
      Advances c env ({ s with cache := (s.reservation c env id).2 }.answer c.key
        (refusal "Conflicting duplicate client_msg_id") false, none)
  | reserved (id : UInt64) (hpc : c.pc = .reserve id)
      (hfast : s.mode = .fast ∧ c.req.clientMsgId ≠ 0)
      (hstate : (s.reservation c env id).1.state = .reserved) :
      Advances c env
        ({ s with cache := (s.reservation c env id).2 }, some (c.goto (.upsertReceived id)))
  | unreserved (id : UInt64) (hpc : c.pc = .reserve id)
      (hslow : ¬ (s.mode = .fast ∧ c.req.clientMsgId ≠ 0)) :
      Advances c env (s, some (c.goto (.upsertReceived id)))
  | unsaved (id : UInt64) (hpc : c.pc = .upsertReceived id)
      (hsync : s.mode = .sync ∧ c.req.clientMsgId ≠ 0)
      (hfailed : (s.firstUpsert c env id).2 = false) :
      Advances c env ({ s with dedup := (s.firstUpsert c env id).1 }.answer c.key
        (refusal "Failed to persist message dedup state") false, none)
  | saved (id : UInt64) (hpc : c.pc = .upsertReceived id)
      (hsync : s.mode = .sync ∧ c.req.clientMsgId ≠ 0)
      (hok : (s.firstUpsert c env id).2 = true) :
      Advances c env
        ({ s with dedup := (s.firstUpsert c env id).1 }, some (c.goto (.enqueue id)))
  | passed (id : UInt64) (hpc : c.pc = .upsertReceived id)
      (hpass : ¬ (s.mode = .sync ∧ c.req.clientMsgId ≠ 0)) :
      Advances c env (s, some (c.goto (.enqueue id)))
  | enqueue (id : UInt64) (hpc : c.pc = .enqueue id) :
      Advances c env ({ s with
        writer := s.writer.enqueue (c.msgToStore id)
        enqueued := s.enqueued ++ [c.msgToStore id] }, some (c.goto (.push id)))
  | push (id : UInt64) (hpc : c.pc = .push id) :
      Advances c env (s, some (c.goto (.updateStatus id env.delivered)))
  | updated (id : UInt64) (delivered : Bool) (hpc : c.pc = .updateStatus id delivered)
      (hfast : s.mode = .fast ∧ c.req.clientMsgId ≠ 0) :
      Advances c env
        ({ s with
          cache := s.cache.updateStatus c.senderId c.req.clientMsgId id (ackStatus delivered) env.now },
          some (c.goto (.upsertEnqueued id delivered)))
  | notUpdated (id : UInt64) (delivered : Bool) (hpc : c.pc = .updateStatus id delivered)
      (hslow : ¬ (s.mode = .fast ∧ c.req.clientMsgId ≠ 0)) :
      Advances c env (s, some (c.goto (.upsertEnqueued id delivered)))
  | acceptedSaved (id : UInt64) (delivered : Bool) (hpc : c.pc = .upsertEnqueued id delivered)
      (hsave : s.mode = .sync ∧ c.req.clientMsgId ≠ 0 ∧ delivered = true) :
      Advances c env ((s.upsert (c.msgToStore id) .enqueued env.upsert).answer c.key
        (acceptedAck c id delivered) false, none)
  | accepted (id : UInt64) (delivered : Bool) (hpc : c.pc = .upsertEnqueued id delivered)
      (hsave : ¬ (s.mode = .sync ∧ c.req.clientMsgId ≠ 0 ∧ delivered = true)) :
      Advances c env (s.answer c.key (acceptedAck c id delivered) false, none)

theorem advances (c : Send) (env : Env) : s.Advances c env (s.advance c env) := by
  unfold advance
  cases hpc : c.pc with
  | getDedup =>
    dsimp only
    split_ifs with hsync
    · split
      · exact .found _ hpc hsync (by assumption)
      · exact .missed hpc fun _ => by assumption
    · exact .missed hpc fun h => absurd h hsync
  | generate => exact .generate hpc
  | reserve id =>
    dsimp only
    split_ifs with hfast
    · split
      · exact .duplicate id hpc hfast (by assumption)
      · exact .conflict id hpc hfast (by assumption)
      · exact .reserved id hpc hfast (by assumption)
    · exact .unreserved id hpc hfast
  | upsertReceived id =>
    dsimp only
    split_ifs with hsync hok
    · exact .saved id hpc hsync hok
    · exact .unsaved id hpc hsync (Bool.eq_false_of_not_eq_true hok)
    · exact .passed id hpc hsync
  | enqueue id => exact .enqueue id hpc
  | push id => exact .push id hpc
  | updateStatus id delivered =>
    dsimp only
    split_ifs with hfast
    · exact .updated id delivered hpc hfast
    · exact .notUpdated id delivered hpc hfast
  | upsertEnqueued id delivered =>
    dsimp only
    split_ifs with hsave
    · exact .acceptedSaved id delivered hpc hsave
    · exact .accepted id delivered hpc hsave

@[simp] theorem mode_advance (c : Send) (env : Env) : (s.advance c env).1.mode = s.mode := by
  have hadv := s.advances c env
  generalize s.advance c env = r at hadv
  cases hadv <;> rfl

@[simp] theorem stored_advance (c : Send) (env : Env) : (s.advance c env).1.stored = s.stored := by
  have hadv := s.advances c env
  generalize s.advance c env = r at hadv
  cases hadv <;> rfl

/-- A call touches the writer in one of its steps only. -/
theorem writer_advance (c : Send) (env : Env) :
    ((s.advance c env).1.writer = s.writer ∧ (s.advance c env).1.enqueued = s.enqueued) ∨
      ∃ id, c.pc = .enqueue id ∧ (s.advance c env).1.writer = s.writer.enqueue (c.msgToStore id) ∧
        (s.advance c env).1.enqueued = s.enqueued ++ [c.msgToStore id] := by
  have hadv := s.advances c env
  generalize s.advance c env = r at hadv
  cases hadv with
  | enqueue id hpc => exact .inr ⟨id, hpc, rfl, rfl⟩
  | _ => exact .inl ⟨rfl, rfl⟩

/-- A call never changes its key. -/
theorem goto_of_advance {c next : Send} {env : Env} (h : (s.advance c env).2 = some next) :
    ∃ pc, next = c.goto pc := by
  have hadv := s.advances c env
  generalize s.advance c env = r at hadv h
  cases hadv <;> cases h <;> exact ⟨_, rfl⟩

theorem notify_eq (out : InsertOutcome) (now : ℕ) :
    ∃ dedup cache, s.notify out now = { s with dedup := dedup, cache := cache } := by
  unfold notify
  split
  · unfold onMessagePersisted
    split_ifs
    · exact ⟨s.dedup, s.cache, rfl⟩
    · exact ⟨_, _, rfl⟩
    · exact ⟨_, _, rfl⟩
  · exact ⟨s.dedup, s.cache, rfl⟩

@[simp] theorem mode_work (out : InsertOutcome) (now : ℕ) : (s.work out now).mode = s.mode := by
  obtain ⟨_, _, h⟩ := s.notify_eq out now
  simp only [work, h]

@[simp] theorem enqueued_work (out : InsertOutcome) (now : ℕ) :
    (s.work out now).enqueued = s.enqueued := by
  obtain ⟨_, _, h⟩ := s.notify_eq out now
  simp only [work, h]

@[simp] theorem answers_work (out : InsertOutcome) (now : ℕ) :
    (s.work out now).answers = s.answers := by
  obtain ⟨_, _, h⟩ := s.notify_eq out now
  simp only [work, h]

variable {s}

/-- Which rows a callback writes: those of a batch that is stored. -/
theorem dedup_work {k : DedupKey} {r : DedupRow} {out : InsertOutcome} {now : ℕ}
    (h : (s.work out now).dedup k = some r) :
    s.dedup k = some r ∨ ∃ m ∈ s.writer.reported,
      msgKey m = k ∧ m.msgId = r.serverMsgId ∧ m.receiverId = r.receiverId := by
  change (s.notify out now).dedup k = some r at h
  unfold notify at h
  split at h
  · rename_i m success hcall
    have hm := s.writer.mem_reported_of_callback hcall
    unfold onMessagePersisted at h
    split_ifs at h
    · exact .inl h
    · exact (upsert_row h).imp_right fun hk => ⟨m, hm, hk⟩
    · exact (upsert_row h).imp_right fun hk => ⟨m, hm, hk⟩
  · exact .inl h

theorem cache_work {P : DedupKey → ClientDedupCache.Entry → Prop} (h : s.cache.All P)
    (hstatus : ∀ k e st, P k e → P k { e with status := st }) (out : InsertOutcome) (now : ℕ) :
    (s.work out now).cache.All P := by
  change (s.notify out now).cache.All P
  unfold notify
  split
  · unfold onMessagePersisted
    split_ifs
    · exact h
    · exact h.updateStatus hstatus _ _ _ _ _
    · exact h
  · exact h

end MsgService

/-- The service together with the calls in progress on the worker threads. -/
structure MsgServer where
  service : MsgService
  calls : List Send

namespace MsgServer

inductive Action where
  | send (senderId : UInt64) (req : P2PMessage)
  | call (i : ℕ) (env : Env)
  | work (out : InsertOutcome) (now : ℕ)
  | stop

def init (mode : DedupMode) (dedup : DedupTable) (stored : List P2PMessage) : MsgServer :=
  ⟨.init mode dedup stored, []⟩

def step (s : MsgServer) : Action → Option MsgServer
  | .send senderId req =>
    let r := s.service.sendP2pMessage senderId req
    some ⟨r.1, s.calls ++ r.2.toList⟩
  | .call i env =>
    match s.calls[i]? with
    | none => none
    | some c =>
      let r := s.service.advance c env
      some ⟨r.1, Threads.advance s.calls i r.2⟩
  | .work out now => some { s with service := s.service.work out now }
  | .stop => some { s with service := { s.service with writer := s.service.writer.stop } }

variable {s t : MsgServer}

/-- A new call is refused, or stands at its lookup. -/
theorem step_send {senderId : UInt64} {req : P2PMessage}
    (h : step s (.send senderId req) = some t) :
    (∃ errorMsg,
      t = ⟨s.service.answer (senderId, req.clientMsgId) (MsgService.refusal errorMsg) false,
        s.calls⟩) ∨
    (senderId ≠ 0 ∧ t = ⟨s.service, s.calls ++ [⟨senderId, req, .getDedup⟩]⟩) := by
  simp only [step, MsgService.sendP2pMessage] at h
  split_ifs at h with h0
  · rw [Option.toList_none, List.append_nil] at h
    exact .inl ⟨_, (Option.some.inj h).symm⟩
  · rw [Option.toList_none, List.append_nil] at h
    exact .inl ⟨_, (Option.some.inj h).symm⟩
  · rw [Option.toList_none, List.append_nil] at h
    exact .inl ⟨_, (Option.some.inj h).symm⟩
  · exact .inr ⟨h0, (Option.some.inj h).symm⟩

theorem step_call {i : ℕ} {env : Env} (h : step s (.call i env) = some t) :
    ∃ c, s.calls[i]? = some c ∧
      t = ⟨(s.service.advance c env).1, Threads.advance s.calls i (s.service.advance c env).2⟩ := by
  simp only [step] at h
  split at h
  · cases h
  · rename_i c hc
    exact ⟨c, hc, (Option.some.inj h).symm⟩

def hello : P2PMessage :=
  { receiverId := 2, content := [104, 105], timestamp := 1704067200, clientMsgId := 9 }

/-- A clock reading one millisecond after the epoch of the ids. -/
def tick : Env := { nowMs := 1704067200001 }

end MsgServer
end TermChat
