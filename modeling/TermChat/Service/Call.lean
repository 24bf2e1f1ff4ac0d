import TermChat.Service.Msg

/-! A `send_p2p_message` call from its start to its end, with no other call in between. -/
namespace TermChat
open Proto MsgScyllaDao

/-- The sender and the receiver of a call, and what it was answered. -/
structure Reply where
  senderId : UInt64
  receiverId : UInt64
  ack : MessageAck
  deriving DecidableEq, Repr

/-- How many steps a call has before it at most. -/
def Send.Pc.rank : Send.Pc → ℕ
  | .getDedup => 7
  | .generate => 6
  | .reserve _ => 5
  | .upsertReceived _ => 4
  | .enqueue _ => 3
  | .push _ => 2
  | .updateStatus _ _ => 1
  | .upsertEnqueued _ _ => 0

namespace MsgService

/-- The whole call. Each of its steps has its own readings of the clocks, and the answer is
the last one in `answers`. -/
def call (s : MsgService) (senderId : UInt64) (req : P2PMessage) (env : Send.Pc → Env) :
    MsgService :=
  let r := s.sendP2pMessage senderId req
  match r.2 with
  | none => r.1
  | some c => (Threads.finish (fun s c => s.advance c (env c.pc)) 8 r.1 c).1

def replies (s : MsgService) (senderId : UInt64) (req : P2PMessage) (env : Send.Pc → Env) :
    List Reply :=
  ((s.call senderId req env).answers.drop s.answers.length).map fun a =>
    ⟨senderId, req.receiverId, a.ack⟩

/-- The id and the receiver of every entry of the cache, with its key, satisfy `Q`. -/
def Caches (s : MsgService) (Q : DedupKey → UInt64 → UInt64 → Prop) : Prop :=
  s.cache.All fun k e => Q k e.serverMsgId e.receiverId

def newId (s : MsgService) (env : Send.Pc → Env) : UInt64 :=
  IdGenerator.generateMsgId (env .generate).nowMs s.sequence

variable (s : MsgService) (senderId : UInt64) (req : P2PMessage) (env : Send.Pc → Env)

/-- The message that a call enqueues and pushes, if it is accepted. -/
def newMsg : P2PMessage := { req with msgId := s.newId env, senderId := senderId }

/-- A cache with no entries beside those of `s`. -/
def NoEntry (cache : ClientDedupCache) : Prop :=
  ∀ Q, s.Caches Q → { s with cache := cache }.Caches Q

/-- A cache with no entries beside those of `s` and one for the new message. -/
def NewEntry (cache : ClientDedupCache) : Prop :=
  ∀ Q, s.Caches Q → Q (senderId, req.clientMsgId) (s.newId env) req.receiverId →
    { s with cache := cache }.Caches Q

/-- A dedup table with no rows beside those of `s` and one for the new message. -/
def NewRow (dedup : DedupTable) : Prop :=
  dedup = s.dedup ∨ ∃ status, dedup =
    Function.update s.dedup (senderId, req.clientMsgId) (some ⟨s.newId env, req.receiverId, status⟩)

def accept (dedup : DedupTable) (cache : ClientDedupCache) : MsgService :=
  { s with
    sequence := s.sequence + 1
    dedup := dedup
    cache := cache
    writer := s.writer.enqueue (s.newMsg senderId req env)
    enqueued := s.enqueued ++ [s.newMsg senderId req env] }

/-- What a call can come to: a refusal, an answer from a row of the dedup table or from an entry
of the cache, or a message that is enqueued under a new id. A refusal leaves a row behind if the
upsert was applied and reported as failed. -/
inductive Outcome : MsgService → MessageAck → Prop
  | refused (sequence : UInt32) (dedup : DedupTable) (cache : ClientDedupCache) (errorMsg : String)
      (hdedup : dedup = s.dedup ∨ (env (.upsertReceived (s.newId env))).upsert = .error true)
      (hcache : s.NoEntry cache) :
      Outcome
        ({ s with sequence := sequence, dedup := dedup, cache := cache }.answer
          (senderId, req.clientMsgId) (refusal errorMsg) false)
        (refusal errorMsg)
  | row (row : DedupRow) (hmode : s.mode = .sync)
      (hrow : s.dedup (senderId, req.clientMsgId) = some row) :
      Outcome
        (s.answer (senderId, req.clientMsgId)
          { msgId := row.serverMsgId, success := true, status := row.status } true)
        { msgId := row.serverMsgId, success := true, status := row.status }
  | entry (sequence : UInt32) (cache : ClientDedupCache) (e : ClientDedupCache.Entry)
      (hcache : s.NoEntry cache)
      (hentry : ∀ Q, s.Caches Q → Q (senderId, req.clientMsgId) e.serverMsgId e.receiverId)
      (hreceiver : e.receiverId = req.receiverId) :
      Outcome
        ({ s with sequence := sequence, cache := cache }.answer (senderId, req.clientMsgId)
          (fillDedupAck senderId e) true)
        (fillDedupAck senderId e)
  | accepted (dedup : DedupTable) (cache : ClientDedupCache) (hsender : senderId ≠ 0)
      (hdedup : s.NewRow senderId req env dedup) (hcache : s.NewEntry senderId req env cache) :
      Outcome
        ((s.accept senderId req env dedup cache).answer (senderId, req.clientMsgId)
          (acceptedAck ⟨senderId, req, .push (s.newId env)⟩ (s.newId env)
            (env (.push (s.newId env))).delivered) false)
        (acceptedAck ⟨senderId, req, .push (s.newId env)⟩ (s.newId env)
          (env (.push (s.newId env))).delivered)

/-- Where a call that stands at a program point has brought the state `s` in which it began. -/
def Midway (t : MsgService) (pc : Send.Pc) : Prop :=
  match pc with
  | .getDedup | .generate => t = s
  | .reserve i => i = s.newId env ∧ t = { s with sequence := s.sequence + 1 }
  | .upsertReceived i =>
    i = s.newId env ∧ ∃ cache, s.NewEntry senderId req env cache ∧
      (s.mode = .sync → s.NoEntry cache) ∧
      t = { s with sequence := s.sequence + 1, cache := cache }
  | .enqueue i =>
    i = s.newId env ∧ ∃ dedup cache, s.NewRow senderId req env dedup ∧
      s.NewEntry senderId req env cache ∧
      t = { s with sequence := s.sequence + 1, dedup := dedup, cache := cache }
  | .push i =>
    i = s.newId env ∧ ∃ dedup cache, s.NewRow senderId req env dedup ∧
      s.NewEntry senderId req env cache ∧ t = s.accept senderId req env dedup cache
  | .updateStatus i d | .upsertEnqueued i d =>
    i = s.newId env ∧ d = (env (.push i)).delivered ∧
      ∃ dedup cache, s.NewRow senderId req env dedup ∧
        s.NewEntry senderId req env cache ∧ t = s.accept senderId req env dedup cache

variable {s senderId req env}

theorem NoEntry.newEntry {cache : ClientDedupCache} (h : s.NoEntry cache) :
    s.NewEntry senderId req env cache :=
  fun Q hQ _ => h Q hQ

theorem noEntry_self : s.NoEntry s.cache := fun _ hQ => hQ

theorem NewEntry.updateStatus {cache : ClientDedupCache} (h : s.NewEntry senderId req env cache)
    (a b id : UInt64) (status : MessageAckStatus) (now : ℕ) :
    s.NewEntry senderId req env (cache.updateStatus a b id status now) := by
  intro Q hQ hnew
  exact ClientDedupCache.All.updateStatus (h Q hQ hnew) (fun _ _ _ hk => hk) a b id status now

theorem NewRow.upsert {dedup : DedupTable} (h : s.NewRow senderId req env dedup)
    (status : MessageAckStatus) (out : InsertOutcome) :
    s.NewRow senderId req env (upsertClientMsgDedup dedup senderId req.clientMsgId (s.newId env)
      req.receiverId status out).1 := by
  rcases upsertClientMsgDedup_cases dedup senderId req.clientMsgId (s.newId env) req.receiverId
    status out with hsame | ⟨-, hnew⟩
  · rw [hsame]
    exact h
  · rw [hnew]
    right
    rcases h with rfl | ⟨st, rfl⟩
    · exact ⟨status, rfl⟩
    · exact ⟨status, Function.update_idem _ _ _⟩

theorem rank_advance {c next : Send} {e : Env} (h : (s.advance c e).2 = some next) :
    next.pc.rank < c.pc.rank := by
  have hadv := s.advances c e
  generalize s.advance c e = r at hadv h
  cases hadv <;> cases h <;> simp_all [Send.goto, Send.Pc.rank]

variable (s senderId req env) in
/-- A reservation that does not succeed adds no entry, and one that does adds that of the call. -/
theorem reserve_entry (now : ℕ) :
    let r := s.cache.reserve senderId req.clientMsgId (s.newId env) req.receiverId .received now
    s.NewEntry senderId req env r.2 ∧ (r.1.state ≠ .reserved → s.NoEntry r.2) := by
  intro r
  constructor
  · intro Q hQ hnew
    exact ClientDedupCache.All.reserve hQ _ _ _ _ _ _ fun _ => hnew
  · intro hres Q hQ
    exact ClientDedupCache.All.reserve hQ _ _ _ _ _ _ fun h => absurd h hres

theorem receiver_of_duplicate {cache : ClientDedupCache} {a b id r : UInt64}
    {status : MessageAckStatus} {now : ℕ}
    (h : (cache.reserve a b id r status now).1.state = .duplicate) :
    (cache.reserve a b id r status now).1.entry.receiverId = r := by
  unfold ClientDedupCache.reserve at h ⊢
  split_ifs at h ⊢
  dsimp only at h ⊢
  split
  · rename_i v hv
    split at h
    · rename_i w hw
      obtain rfl := Option.some.inj (hv.symm.trans hw)
      dsimp only at h
      split_ifs at h with hne
      exact not_not.mp hne
    · rename_i hnone
      exact absurd (hv.symm.trans hnone) (Option.some_ne_none v)
  · rename_i hnone
    split at h
    · rename_i w hw
      exact absurd (hw.symm.trans hnone) (Option.some_ne_none w)
    · cases h

variable (s senderId req env) in
/-- Where a step of a call leads: to its next point, or to an outcome. -/
def Reaches : MsgService × Option Send → Prop
  | (t, some c) => c = ⟨senderId, req, c.pc⟩ ∧ s.Midway senderId req env t c.pc
  | (t, none) => ∃ ack, s.Outcome senderId req env t ack

theorem Reaches.next {r : MsgService × Option Send} (h : s.Reaches senderId req env r) {c : Send}
    (hc : r.2 = some c) : c = ⟨senderId, req, c.pc⟩ ∧ s.Midway senderId req env r.1 c.pc := by
  obtain ⟨t, d⟩ := r
  obtain rfl : d = some c := hc
  exact h

theorem Reaches.last {r : MsgService × Option Send} (h : s.Reaches senderId req env r)
    (hc : r.2 = none) : ∃ ack, s.Outcome senderId req env r.1 ack := by
  obtain ⟨t, d⟩ := r
  obtain rfl : d = none := hc
  exact h

theorem Midway.advance {t : MsgService} {pc : Send.Pc} (hsender : senderId ≠ 0)
    (h : s.Midway senderId req env t pc) :
    s.Reaches senderId req env (t.advance ⟨senderId, req, pc⟩ (env pc)) := by
  cases pc with
  | getDedup =>
    obtain rfl : t = s := h
    unfold MsgService.advance
    dsimp only
    split_ifs with hsync
    · unfold getClientMsgDedup
      split_ifs
      · exact ⟨rfl, rfl⟩
      · cases hrow : t.dedup (senderId, req.clientMsgId) with
        | none => exact ⟨rfl, rfl⟩
        | some row => exact ⟨_, .row row hsync.1 hrow⟩
      · exact ⟨rfl, rfl⟩
    · exact ⟨rfl, rfl⟩
  | generate =>
    obtain rfl : t = s := h
    exact ⟨rfl, rfl, rfl⟩
  | reserve i =>
    obtain ⟨rfl, rfl⟩ := h
    unfold MsgService.advance
    dsimp only
    split_ifs with hfast
    · generalize (env (.reserve (s.newId env))).now = now
      obtain ⟨hnew, hno⟩ := s.reserve_entry senderId req env now
      cases hres : (s.cache.reserve senderId req.clientMsgId (s.newId env) req.receiverId .received
          now).1.state with
      | duplicate =>
        refine ⟨_, .entry _ _ _ (hno (by rw [hres]; nofun)) (fun Q hQ => ?_) (receiver_of_duplicate hres)⟩
        exact ClientDedupCache.All.duplicate hQ hres
      | conflict => exact ⟨_, .refused _ _ _ _ (.inl rfl) (hno (by rw [hres]; nofun))⟩
      | reserved =>
        exact ⟨rfl, rfl, _, hnew, fun hsync => absurd (hfast.1.symm.trans hsync) nofun, rfl⟩
    · exact ⟨rfl, rfl, _, noEntry_self.newEntry, fun _ => noEntry_self, rfl⟩
  | upsertReceived i =>
    obtain ⟨rfl, cache, hc, hno, rfl⟩ := h
    unfold MsgService.advance
    dsimp only
    split_ifs with hsync hok
    · exact ⟨rfl, rfl, _, cache, NewRow.upsert (.inl rfl) _ _, hc, rfl⟩
    · have hlost := upsertClientMsgDedup_failed (Bool.eq_false_of_not_eq_true hok)
      exact ⟨_, .refused _ _ _ _ hlost (hno hsync.1)⟩
    · exact ⟨rfl, rfl, s.dedup, cache, .inl rfl, hc, rfl⟩
  | enqueue i =>
    obtain ⟨rfl, dedup, cache, hd, hc, rfl⟩ := h
    exact ⟨rfl, rfl, dedup, cache, hd, hc, rfl⟩
  | push i =>
    obtain ⟨rfl, dedup, cache, hd, hc, rfl⟩ := h
    exact ⟨rfl, rfl, rfl, dedup, cache, hd, hc, rfl⟩
  | updateStatus i d =>
    obtain ⟨rfl, rfl, dedup, cache, hd, hc, rfl⟩ := h
    unfold MsgService.advance
    dsimp only
    split_ifs
    · exact ⟨rfl, rfl, rfl, dedup, _, hd, hc.updateStatus _ _ _ _ _, rfl⟩
    · exact ⟨rfl, rfl, rfl, dedup, cache, hd, hc, rfl⟩
  | upsertEnqueued i d =>
    obtain ⟨rfl, rfl, dedup, cache, hd, hc, rfl⟩ := h
    unfold MsgService.advance
    dsimp only
    split_ifs
    · exact ⟨_, .accepted _ cache hsender (hd.upsert .enqueued _) hc⟩
    · exact ⟨_, .accepted dedup cache hsender hd hc⟩

variable (s senderId req env)

/-- Every call comes to its end, with one of the outcomes. -/
theorem call_outcome : ∃ ack, s.Outcome senderId req env (s.call senderId req env) ack := by
  have hrefused : ∀ errorMsg, ∃ ack, s.Outcome senderId req env
      (s.answer (senderId, req.clientMsgId) (refusal errorMsg) false) ack :=
    fun errorMsg => ⟨_, .refused s.sequence s.dedup s.cache errorMsg (.inl rfl) noEntry_self⟩
  unfold call sendP2pMessage
  dsimp only
  split_ifs with hsender
  · exact hrefused _
  · exact hrefused _
  · exact hrefused _
  · have hrank : Send.Pc.getDedup.rank < 8 := by decide
    have hstart : (⟨senderId, req, .getDedup⟩ : Send) = ⟨senderId, req, .getDedup⟩ ∧
        s.Midway senderId req env s .getDedup := ⟨rfl, rfl⟩
    -- `Midway` carries the steps of the call to its end
    refine (Threads.finish_spec (fun t c => t.advance c (env c.pc)) (fun c => c.pc.rank)
      (I := fun t c => c = ⟨senderId, req, c.pc⟩ ∧ s.Midway senderId req env t c.pc)
      (J := fun t => ∃ ack, s.Outcome senderId req env t ack) ?_ ?_ hrank hstart).2
    · intro t c d hI hd
      have hreach := hI.2.advance hsender
      rw [← hI.1] at hreach
      exact ⟨rank_advance hd, hreach.next hd⟩
    · intro t c hI hd
      have hreach := hI.2.advance hsender
      rw [← hI.1] at hreach
      exact hreach.last hd

variable {s senderId req env}

theorem Outcome.replies_eq {ack : MessageAck}
    (h : s.Outcome senderId req env (s.call senderId req env) ack) :
    s.replies senderId req env = [⟨senderId, req.receiverId, ack⟩] := by
  have hans : ∃ fromDedup, (s.call senderId req env).answers =
      s.answers ++ [⟨(senderId, req.clientMsgId), ack, fromDedup⟩] := by
    generalize s.call senderId req env = t at h
    cases h <;> exact ⟨_, rfl⟩
  obtain ⟨fromDedup, hans⟩ := hans
  rw [replies, hans, List.drop_left]
  rfl

theorem Outcome.enqueued_eq {t : MsgService} {ack : MessageAck}
    (h : s.Outcome senderId req env t ack) :
    t.enqueued = s.enqueued ∨
      senderId ≠ 0 ∧ t.enqueued = s.enqueued ++ [s.newMsg senderId req env] := by
  cases h with
  | accepted dedup cache hsender => exact .inr ⟨hsender, rfl⟩
  | _ => exact .inl rfl

/-- A valid message without a client message id is accepted, whatever was sent before. -/
theorem call_of_clientMsgId_eq_zero (hsender : senderId ≠ 0) (hreceiver : req.receiverId ≠ 0)
    (htime : req.timestamp ≠ 0) (hclient : req.clientMsgId = 0) :
    ∃ ack, s.call senderId req env =
      (s.accept senderId req env s.dedup s.cache).answer (senderId, req.clientMsgId) ack false := by
  refine ⟨acceptedAck ⟨senderId, req, .push (s.newId env)⟩ (s.newId env)
    (env (.push (s.newId env))).delivered, ?_⟩
  -- none of the four steps for duplicates does anything
  have hno : (req.clientMsgId ≠ 0) = False := eq_false (not_not.mpr hclient)
  simp only [call, sendP2pMessage, if_neg hsender, if_neg hreceiver, if_neg htime, Threads.finish,
    advance, hno, and_false, if_false, false_and, Send.goto]
  rfl

/-- A request without the ids that the server sets itself. -/
def strip (req : P2PMessage) : P2PMessage := { req with msgId := 0, senderId := 0 }

def stripCall (c : Send) : Send := { c with req := strip c.req }

/-- No step of a call reads the ids in its request. -/
theorem advance_stripCall (s : MsgService) (c : Send) (e : Env) :
    s.advance (stripCall c) e = ((s.advance c e).1, (s.advance c e).2.map stripCall) := by
  obtain ⟨senderId, req, pc⟩ := c
  unfold stripCall
  cases pc with
  | getDedup | reserve =>
    unfold advance strip
    dsimp only
    split_ifs
    · split <;> rfl
    · rfl
  | generate | enqueue | push => rfl
  | upsertReceived | updateStatus | upsertEnqueued =>
    unfold advance strip
    dsimp only
    split_ifs <;> rfl

theorem sendP2pMessage_strip (s : MsgService) (senderId : UInt64) (req : P2PMessage) :
    s.sendP2pMessage senderId (strip req) =
      ((s.sendP2pMessage senderId req).1, (s.sendP2pMessage senderId req).2.map stripCall) := by
  unfold sendP2pMessage strip
  dsimp only
  split_ifs <;> rfl

theorem call_strip (s : MsgService) (senderId : UInt64) (req : P2PMessage) (env : Send.Pc → Env) :
    s.call senderId (strip req) env = s.call senderId req env := by
  unfold call
  rw [sendP2pMessage_strip]
  dsimp only
  cases (s.sendP2pMessage senderId req).2 with
  | none => rfl
  | some c =>
    exact Threads.finish_map (fun t c => t.advance c (env c.pc))
      (fun t c => advance_stripCall t c (env c.pc)) 8 _ c

end MsgService
end TermChat
