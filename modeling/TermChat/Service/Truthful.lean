import TermChat.Service.Call

/-! Calls of `send_p2p_message` one after the other, with the writer thread at work between
them. In the synchronous mode the lookup of a client message id ignores the receiver of the
row it finds; the cache of the fast mode compares it. -/
namespace TermChat
open Proto MsgScyllaDao

namespace MsgService

/-- A message of the sender, with the id and the receiver, has been given to the writer. -/
def Sent (s : MsgService) (senderId id receiverId : UInt64) : Prop :=
  ∃ m ∈ s.enqueued, m.senderId = senderId ∧ m.msgId = id ∧ m.receiverId = receiverId

/-- The rows and the entries name messages that have been sent, and the writer has no others. -/
structure Recorded (s : MsgService) : Prop where
  rows : ∀ k row, s.dedup k = some row → s.Sent k.1 row.serverMsgId row.receiverId
  entries : s.Caches fun k => s.Sent k.1
  items : ∀ m ∈ s.writer.items, m ∈ s.enqueued

variable {s t : MsgService} {senderId : UInt64} {req : P2PMessage} {env : Send.Pc → Env}
  {ack : MessageAck}

theorem Sent.mono {id receiverId : UInt64} (h : s.Sent senderId id receiverId)
    (hsub : s.enqueued ⊆ t.enqueued) : t.Sent senderId id receiverId := by
  obtain ⟨m, hm, heq⟩ := h
  exact ⟨m, hsub hm, heq⟩

theorem Outcome.enqueued_subset (h : s.Outcome senderId req env t ack) :
    s.enqueued ⊆ t.enqueued := by
  cases h with
  | accepted => exact List.subset_append_left _ _
  | _ => exact fun _ hm => hm

theorem sent_accept (dedup : DedupTable) (cache : ClientDedupCache) :
    (s.accept senderId req env dedup cache).Sent senderId (s.newId env) req.receiverId :=
  ⟨s.newMsg senderId req env, List.mem_append_right _ List.mem_cons_self, rfl, rfl, rfl⟩

theorem Recorded.outcome (hs : s.Recorded) (h : s.Outcome senderId req env t ack)
    (hkept : (env (.upsertReceived (s.newId env))).upsert ≠ .error true) : t.Recorded := by
  have hold : ∀ {a id r}, s.Sent a id r → t.Sent a id r := fun hsent => hsent.mono h.enqueued_subset
  cases h with
  | refused sequence dedup cache errorMsg hdedup hcache =>
    obtain rfl := hdedup.resolve_right hkept
    exact ⟨hs.rows, hcache _ hs.entries, hs.items⟩
  | row row hmode hrow => exact ⟨hs.rows, hs.entries, hs.items⟩
  | entry sequence cache e hcache => exact ⟨hs.rows, hcache _ hs.entries, hs.items⟩
  | accepted dedup cache hsender hdedup hcache =>
    have hnew : (s.accept senderId req env dedup cache).Sent senderId (s.newId env) req.receiverId :=
      sent_accept dedup cache
    refine ⟨?_, hcache _ (hs.entries.mono fun _ _ => hold) hnew, ?_⟩
    · intro k row hrow
      rcases hdedup with rfl | ⟨status, rfl⟩
      · exact hold (hs.rows k row hrow)
      · by_cases hk : k = (senderId, req.clientMsgId)
        · subst hk
          have hself := hrow.symm.trans (Function.update_self _ _ _)
          cases hself
          exact hnew
        · exact hold (hs.rows k row ((Function.update_of_ne hk _ _).symm.trans hrow))
    · intro m hm
      change m ∈ (s.writer.enqueue (s.newMsg senderId req env)).items at hm
      rw [AsyncMsgWriter.items_enqueue, List.mem_append] at hm
      exact List.mem_append.mpr (hm.imp_left (hs.items m))

/-- A success names a message to the receiver of the request, if a row that answers it does. -/
theorem Recorded.sent (hs : s.Recorded) (h : s.Outcome senderId req env t ack)
    (hrow : s.mode = .sync →
      ∀ row ∈ s.dedup (senderId, req.clientMsgId), row.receiverId = req.receiverId)
    (hsucc : ack.success = true) : t.Sent senderId ack.msgId req.receiverId := by
  cases h with
  | refused => cases hsucc
  | row row hmode hr =>
    have hsent := hs.rows _ row hr
    rwa [hrow hmode row hr] at hsent
  | entry sequence cache e hcache hentry hreceiver =>
    have hsent := hentry _ hs.entries
    rwa [hreceiver] at hsent
  | accepted dedup cache => exact sent_accept dedup cache

theorem Recorded.work (hs : s.Recorded) (out : InsertOutcome) (now : ℕ) :
    (s.work out now).Recorded := by
  have henq := s.enqueued_work out now
  have hold : ∀ {a id r}, s.Sent a id r → (s.work out now).Sent a id r := by
    intro a id r hsent
    rwa [Sent, henq]
  refine ⟨?_, cache_work (hs.entries.mono fun _ _ => hold) (fun _ _ _ hk => hk) out now, ?_⟩
  · intro k row hrow
    rcases dedup_work hrow with hrow | ⟨m, hm, hk, hid, hr⟩
    · exact hold (hs.rows k row hrow)
    · -- the callback of a message of the writer
      have hmem := hs.items m (s.writer.reported_subset hm)
      exact hold ⟨m, hmem, congrArg Prod.fst hk, hid, hr⟩
  · intro m hm
    rw [henq]
    exact hs.items m ((s.writer.items_work_suffix out.success).subset hm)

end MsgService

structure SendRun where
  service : MsgService
  replies : List Reply

namespace SendRun

inductive Action where
  | send (senderId : UInt64) (req : P2PMessage) (env : Send.Pc → Env)
  | work (out : InsertOutcome) (now : ℕ)

def init (mode : DedupMode) : SendRun := ⟨.init mode (fun _ => none) [], []⟩

def step (s : SendRun) : Action → Option SendRun
  | .send senderId req env =>
    some ⟨s.service.call senderId req env, s.replies ++ s.service.replies senderId req env⟩
  | .work out now => some { s with service := s.service.work out now }

/-- Each success names a message that went to the receiver of its request. -/
def Truthful (s : SendRun) : Prop :=
  ∀ r ∈ s.replies, r.ack.success = true →
    s.service.Sent r.senderId r.ack.msgId r.receiverId

/-- A client message id that has a row is used for the receiver of that row. -/
def SameReceiver (s : SendRun) : Action → Prop
  | .send senderId req _ => s.service.mode = .sync →
      ∀ row ∈ s.service.dedup (senderId, req.clientMsgId), row.receiverId = req.receiverId
  | .work _ _ => True

instance (s : SendRun) (a : Action) : Decidable (SameReceiver s a) := by
  unfold SameReceiver
  cases a <;> infer_instance

/-- The first upsert of a call is not applied when it is reported as failed. -/
def KeepsReceipt (s : SendRun) : Action → Prop
  | .send _ _ env => (env (.upsertReceived (s.service.newId env))).upsert ≠ .error true
  | .work _ _ => True

instance (s : SendRun) (a : Action) : Decidable (KeepsReceipt s a) := by
  unfold KeepsReceipt
  cases a <;> infer_instance

variable {s t : SendRun}

theorem step_send {senderId : UInt64} {req : P2PMessage} {env : Send.Pc → Env}
    (h : step s (.send senderId req env) = some t) :
    ∃ ack, s.service.Outcome senderId req env t.service ack ∧
      t.replies = s.replies ++ [⟨senderId, req.receiverId, ack⟩] := by
  obtain rfl := Option.some.inj h
  obtain ⟨ack, hout⟩ := s.service.call_outcome senderId req env
  exact ⟨ack, hout, by rw [hout.replies_eq]⟩

/-- Calls one after the other, in which no client message id is used again for another
receiver: every success names a message that was sent to the receiver of the request. -/
theorem truthful_along (mode : DedupMode) (actions : List Action)
    (h : Steps.Meets step (fun s a => KeepsReceipt s a ∧ SameReceiver s a) (init mode) actions) :
    Steps.Along step Truthful (init mode) actions := by
  apply Steps.along_of_meets (I := fun s => s.service.Recorded ∧ Truthful s) ?_ (fun s hs => hs.2) ?_ h
  · intro s a t hs hC ht
    cases a with
    | send senderId req env =>
      obtain ⟨ack, hout, hrep⟩ := step_send ht
      refine ⟨hs.1.outcome hout hC.1, ?_⟩
      intro r hr hsucc
      rw [hrep, List.mem_append, List.mem_singleton] at hr
      rcases hr with hr | rfl
      · exact (hs.2 r hr hsucc).mono hout.enqueued_subset
      · exact hs.1.sent hout hC.2 hsucc
    | work out now =>
      obtain rfl := Option.some.inj ht
      refine ⟨hs.1.work out now, ?_⟩
      intro r hr hsucc
      have henq : s.service.enqueued ⊆ (s.service.work out now).enqueued := by
        rw [MsgService.enqueued_work]
        exact fun _ hm => hm
      exact (hs.2 r hr hsucc).mono henq
  · exact ⟨⟨nofun, ClientDedupCache.all_init, nofun⟩, nofun⟩

/-- User 1 sends under the client message id 9, first to user 2 and then to the given user. -/
def reuse (receiverId : UInt64) : List Action :=
  [.send 1 MsgServer.hello fun _ => MsgServer.tick,
    .send 1 { MsgServer.hello with receiverId := receiverId } fun _ => MsgServer.tick]

/-- In the fast mode the second use is refused, whoever it is for. -/
theorem truthful_along_fast_reuse :
    Steps.Meets step (fun s a => KeepsReceipt s a ∧ SameReceiver s a) (init .fast) (reuse 3) ∧
      Steps.Along step Truthful (init .fast) (reuse 3) :=
  ⟨by decide, truthful_along .fast (reuse 3) (by decide)⟩

/-- In the synchronous mode user 1 is told that the message to user 3 was accepted, under the
id of the message to user 2. -/
theorem reused_id_answered_for_other_receiver :
    ∃ s, Steps.run step (init .sync) (reuse 3) = some s ∧
      (∃ r ∈ s.replies, r.receiverId = 3 ∧ r.ack.success = true) ∧
      ∀ m ∈ s.service.enqueued, m.receiverId = 2 :=
  ⟨_, rfl, by decide, by decide⟩

end SendRun
end TermChat
