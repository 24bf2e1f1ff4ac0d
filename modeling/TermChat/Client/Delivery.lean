import TermChat.Client.FullSync
import TermChat.Service.Vouching

/-! From the answer to a send to the histories of both parties: what was acknowledged is stored
when the writer has nothing left to do, and a synchronisation brings it to the chat once. -/
namespace TermChat
open Proto MsgScyllaDao

namespace MsgService

variable {s : MsgService} {c : Send} {env : Env}

theorem holds_of_advance {m : P2PMessage} (h : (s.advance c env).1.Holds m) :
    s.Holds m ∨ m ∈ (s.advance c env).1.enqueued := by
  unfold Holds at h ⊢
  rw [stored_advance] at h
  rcases s.writer_advance c env with ⟨hwriter, -⟩ | ⟨id, -, hwriter, henqueued⟩
  · rw [hwriter] at h
    exact .inl h
  · rw [hwriter, AsyncMsgWriter.items_enqueue] at h
    rw [henqueued]
    rcases h with h | h
    · exact .inl (.inl h)
    · rcases List.mem_append.mp h with h | h
      · exact .inl (.inr h)
      · exact .inr (List.mem_append_right _ h)

theorem holds_of_work {m : P2PMessage} {out : InsertOutcome} {now : ℕ}
    (h : (s.work out now).Holds m) : s.Holds m := by
  rcases h with h | h
  · rcases List.mem_append.mp h with h | h
    · exact .inl h
    · split_ifs at h
      · exact .inr (s.writer.persisting_isPrefix.subset h)
      · cases h
  · exact .inr ((s.writer.items_work_suffix out.success).subset h)

private theorem enqueued_subset_advance (c : Send) (env : Env) {m : P2PMessage} (h : m ∈ s.enqueued) :
    m ∈ (s.advance c env).1.enqueued := by
  rcases s.writer_advance c env with ⟨-, hsame⟩ | ⟨id, -, -, hmore⟩
  · rwa [hsame]
  · rw [hmore]
    exact List.mem_append_left _ h

/-- A success that is not read from a dedup entry is that of a call which has enqueued its
message. -/
theorem fresh_answer_advance {a : Answer} (h : a ∈ (s.advance c env).1.answers)
    (hfresh : a.fromDedup = false) (hok : a.ack.success = true) :
    a ∈ s.answers ∨ a.key = c.key ∧ c.pc.enqueued = some a.ack.msgId := by
  have hlast : ∀ {s : MsgService} {ack : MessageAck} {b : Bool}, a ∈ (s.answer c.key ack b).answers →
      a ∈ s.answers ∨ a = ⟨c.key, ack, b⟩ := by
    intro s ack b h
    exact (List.mem_append.mp h).imp_right List.mem_singleton.mp
  have hadv := s.advances c env
  generalize s.advance c env = next at hadv h
  cases hadv with
  | found row hpc hsync hrow =>
    refine (hlast h).imp_right ?_
    rintro rfl
    cases hfresh
  | duplicate id hpc hfast hstate =>
    refine (hlast h).imp_right ?_
    rintro rfl
    cases hfresh
  | conflict | unsaved =>
    refine (hlast h).imp_right ?_
    rintro rfl
    cases hok
  | acceptedSaved id delivered hpc hsave =>
    refine (hlast h).imp_right ?_
    rintro rfl
    rw [hpc]
    exact ⟨rfl, rfl⟩
  | accepted id delivered hpc hsave =>
    refine (hlast h).imp_right ?_
    rintro rfl
    rw [hpc]
    exact ⟨rfl, rfl⟩
  | _ => exact .inl h

end MsgService

namespace MsgServer

variable {s t : MsgServer} {Sent : UInt64 → P2PMessage → Prop}

/-- What is held was enqueued, what was enqueued is a request that was sent, and what was
acknowledged is held. -/
structure Delivering (Sent : UInt64 → P2PMessage → Prop) (s : MsgServer) : Prop where
  vouching : Vouching s
  requests : ∀ c ∈ s.calls, Sent c.senderId c.req
  sources : ∀ m ∈ s.service.enqueued, ∃ req, Sent m.senderId req ∧
    m = { req with msgId := m.msgId, senderId := m.senderId }
  origins : ∀ m, s.service.Holds m → m ∈ s.service.enqueued
  fresh : ∀ a ∈ s.service.answers, a.fromDedup = false → a.ack.success = true →
    ∃ m, msgKey m = a.key ∧ m.msgId = a.ack.msgId ∧ s.service.Holds m

namespace Delivering

theorem init (mode : DedupMode) : Delivering Sent (init mode (fun _ => none) []) where
  vouching := init_vouching mode nofun
  requests := nofun
  sources := nofun
  origins := nofun
  fresh := nofun

theorem send (h : Delivering Sent s) {senderId : UInt64} {req : P2PMessage}
    (hsent : Sent senderId req) (ht : step s (.send senderId req) = some t) : Delivering Sent t := by
  have hvouching := send_vouching h.vouching ht
  rcases step_send ht with ⟨errorMsg, rfl⟩ | ⟨-, rfl⟩
  · refine ⟨hvouching, h.requests, h.sources, h.origins, ?_⟩
    intro a ha hfresh hok
    rcases List.mem_append.mp ha with ha | ha
    · exact h.fresh a ha hfresh hok
    · rw [List.mem_singleton.mp ha] at hok
      cases hok
  · refine ⟨hvouching, ?_, h.sources, h.origins, h.fresh⟩
    intro c hc
    rcases List.mem_append.mp hc with hc | hc
    · exact h.requests c hc
    · rw [List.mem_singleton.mp hc]
      exact hsent

theorem call (h : Delivering Sent s) {i : ℕ} {env : Env}
    (hkeeps : KeepsReceipts s (.call i env)) (ht : step s (.call i env) = some t) :
    Delivering Sent t := by
  have hvouching := call_vouching h.vouching hkeeps ht
  obtain ⟨c, hc, rfl⟩ := step_call ht
  have hmem := List.mem_of_getElem? hc
  refine ⟨hvouching, ?_, ?_, ?_, ?_⟩
  · apply Threads.forall_mem_advance (P := fun d => Sent d.senderId d.req) hc
    · exact h.requests
    · intro d hnext
      obtain ⟨pc, rfl⟩ := s.service.goto_of_advance hnext
      exact h.requests c hmem
  · intro m hm
    rcases s.service.writer_advance c env with ⟨-, hsame⟩ | ⟨id, -, -, hmore⟩
    · exact h.sources m (hsame ▸ hm)
    · rcases List.mem_append.mp (hmore ▸ hm) with hm | hm
      · exact h.sources m hm
      · rw [List.mem_singleton.mp hm]
        exact ⟨c.req, h.requests c hmem, rfl⟩
  · intro m hm
    rcases MsgService.holds_of_advance hm with hm | hm
    · exact MsgService.enqueued_subset_advance c env (h.origins m hm)
    · exact hm
  · intro a ha hfresh hok
    rcases MsgService.fresh_answer_advance ha hfresh hok with ha | ⟨hkey, hid⟩
    · obtain ⟨m, hk, hid, hm⟩ := h.fresh a ha hfresh hok
      exact ⟨m, hk, hid, hm.advance c env⟩
    · exact ⟨c.msgToStore _, hkey.symm, rfl, (h.vouching.sent c hmem _ hid).advance c env⟩

theorem work (h : Delivering Sent s) {out : InsertOutcome} {now : ℕ}
    (hlast : InsertsLast s (.work out now)) (ht : step s (.work out now) = some t) :
    Delivering Sent t := by
  have hvouching := work_vouching h.vouching hlast ht
  obtain rfl := Option.some.inj ht
  refine ⟨hvouching, h.requests, ?_, ?_, ?_⟩
  · intro m hm
    rw [MsgService.enqueued_work] at hm
    exact h.sources m hm
  · intro m hm
    rw [MsgService.enqueued_work]
    exact h.origins m (MsgService.holds_of_work hm)
  · intro a ha hfresh hok
    rw [MsgService.answers_work] at ha
    obtain ⟨m, hk, hid, hm⟩ := h.fresh a ha hfresh hok
    exact ⟨m, hk, hid, hm.work h.vouching.reported out now⟩

theorem of_run {mode : DedupMode} {as : List Action}
    (hrun : Steps.run step (MsgServer.init mode (fun _ => none) []) as = some s)
    (hlast : Steps.Meets step (fun s a => InsertsLast s a ∧ KeepsReceipts s a)
      (MsgServer.init mode (fun _ => none) []) as) :
    Delivering (fun senderId req => Action.send senderId req ∈ as) s := by
  have hmeets := hlast.and (D := fun a => a ∈ as) fun _ ha => ha
  refine Steps.invariant_of_meets (fun s a t hs ha ht => ?_) (init mode) hmeets hrun
  cases a with
  | send senderId req => exact hs.send ha.2 ht
  | call i env => exact hs.call ha.1.2 ht
  | work out now => exact hs.work ha.1.1 ht
  | stop =>
    obtain rfl := Option.some.inj ht
    have hv := hs.vouching
    exact ⟨⟨hv.row, hv.entry, hv.answer, hv.sent, hv.reported⟩, hs.requests, hs.sources,
      hs.origins, hs.fresh⟩

/-- When no call is under way and the writer has nothing left, what was acknowledged is stored. -/
theorem stored (h : Delivering Sent s) (hidle : s.calls = []) (hdrained : s.service.writer.items = [])
    {a : Answer} (ha : a ∈ s.service.answers) (hok : a.ack.success = true) :
    ∃ m ∈ s.service.stored, msgKey m = a.key ∧ m.msgId = a.ack.msgId := by
  have hheld : ∃ m, msgKey m = a.key ∧ m.msgId = a.ack.msgId ∧ s.service.Holds m := by
    cases hdedup : a.fromDedup with
    | false => exact h.fresh a ha hdedup hok
    | true =>
      rcases h.vouching.answer a ha hdedup with hm | ⟨c, hc, -⟩
      · exact hm
      · rw [hidle] at hc
        cases hc
  obtain ⟨m, hkey, hid, hm | hm⟩ := hheld
  · exact ⟨m, hm, hkey, hid⟩
  · rw [hdrained] at hm
    cases hm

end Delivering
end MsgServer

/-- Messages that agree when their ids do all have their rows, also those that were inserted more
than once. -/
theorem MsgScyllaDao.mem_inbox_of_agree {user : UInt64} {stored : List P2PMessage} {m : P2PMessage}
    (hagree : ∀ a ∈ stored, ∀ b ∈ stored, a.msgId = b.msgId → a = b) (hm : m ∈ stored)
    (hc : Concerns user m) : inboxRow m ∈ inbox user stored := by
  induction stored using List.reverseRecOn with
  | nil => cases hm
  | append_singleton before last ih =>
    rw [inbox, insertBatch_append]
    by_cases hid : last.msgId = m.msgId
    · obtain rfl := hagree last (List.mem_append_right _ List.mem_cons_self) m hm hid
      exact mem_insertBatch_self hc _
    · have hbefore : m ∈ before := by
        rcases List.mem_append.mp hm with hm | hm
        · exact hm
        · exact absurd (congrArg P2PMessage.msgId (List.mem_singleton.mp hm)).symm hid
      have hearlier := ih
        (fun a ha b hb => hagree a (List.mem_append_left _ ha) b (List.mem_append_left _ hb)) hbefore
      refine mem_insertBatch_of_ne hearlier fun x hx _ hsame => hid ?_
      rw [List.mem_singleton.mp hx] at hsame
      exact hsame.symm

namespace NetworkManager

/-- After a synchronisation the message is in the chat with the other party once, and as it was
stored unless the client had it already. -/
structure Brings (s : MsgService) (c : NetworkManager) (m : P2PMessage) (c' : NetworkManager) :
    Prop where
  ends : ∀ n, (inbox c.userId s.stored).length < n →
    c.syncMessages (askService s c.userId) n = some (none, c')
  once : (c'.p2pChatHistory (c.chatPartnerId m)).countP (·.msgId = m.msgId) = 1
  asStored : m.msgId ∉ c.p2pMsgIds (c.chatPartnerId m) →
    inboxRow m ∈ c'.p2pChatHistory (c.chatPartnerId m)

theorem sync_brings {s : MsgService} {c : NetworkManager} {m : P2PMessage} (huser : c.userId ≠ 0)
    (hids : ∀ m ∈ s.stored, m.msgId.toNat < 2 ^ 63)
    (hagree : ∀ a ∈ s.stored, ∀ b ∈ s.stored, a.msgId = b.msgId → a = b) (hc : c.Consistent)
    (hm : m ∈ s.stored) (hcm : Concerns c.userId m) (hlt : c.lastSyncedMsgId < m.msgId) :
    ∃ c', c.Brings s m c' := by
  have hrows : ∀ r ∈ inbox c.userId s.stored, 0 ≤ messageId r := by
    intro r hr
    rcases mem_insertBatch hr with hr | ⟨m, hm, -, rfl⟩
    · cases hr
    · exact bigint_nonneg (hids m hm)
  have hcursor : 0 ≤ bigint c.lastSyncedMsgId := by
    have hbound := hids m hm
    have hless := UInt64.lt_iff_toNat_lt.mp hlt
    exact bigint_nonneg (by omega)
  have hpending : inboxRow m ∈ pending (inbox c.userId s.stored) c.lastSyncedMsgId :=
    (mem_pending_iff hrows hcursor).mpr ⟨mem_inbox_of_agree hagree hm hcm, hlt⟩
  have hnodup : ((pending (inbox c.userId s.stored) c.lastSyncedMsgId).map P2PMessage.msgId).Nodup := by
    apply List.Nodup.of_map bigint
    rw [List.map_map]
    exact (sorted_pending (sorted_inbox c.userId s.stored) c.lastSyncedMsgId).nodup
  refine ⟨c.applyPage (wholePage (inbox c.userId s.stored) c.lastSyncedMsgId), ?_, ?_, ?_⟩
  · intro n hn
    have hlen : (pending (inbox c.userId s.stored) c.lastSyncedMsgId).length ≤
        (inbox c.userId s.stored).length := List.length_filter_le _ _
    exact syncLoop_eq huser hrows hcursor rfl (lt_of_le_of_lt hlen hn)
  · have hcount := hc.recordAll (pending (inbox c.userId s.stored) c.lastSyncedMsgId)
      (c.chatPartnerId m) m.msgId
    exact hcount.trans (if_pos (mem_ids_recordAll hpending))
  · intro hunknown
    have hhistory := history_recordAll (c := c) hnodup (c.chatPartnerId m)
    have hadded : inboxRow m ∈ (c.recordAll
        (pending (inbox c.userId s.stored) c.lastSyncedMsgId)).p2pChatHistory (c.chatPartnerId m) := by
      rw [hhistory]
      exact List.mem_append_right _ (List.mem_filter.mpr ⟨hpending, decide_eq_true ⟨rfl, hunknown⟩⟩)
    exact hadded

end NetworkManager

namespace MsgServer

/-- A server that starts on empty tables, applies the last attempt to insert every batch and writes no
dedup row for a message that it then refuses. When no call is under way and the writer has nothing left
to do, every success that was answered, from a dedup entry or not, stands for one request of its
sender: it is stored, and a synchronisation brings it once to the history of each of the two
parties. -/
theorem acknowledged_delivered (mode : DedupMode) (as : List Action) (s : MsgServer)
    (hrun : Steps.run step (init mode (fun _ => none) []) as = some s)
    (hlast : Steps.Meets step (fun s a => InsertsLast s a ∧ KeepsReceipts s a)
      (init mode (fun _ => none) []) as)
    (hidle : s.calls = []) (hdrained : s.service.writer.items = [])
    (hids : ∀ m ∈ s.service.enqueued, m.msgId.toNat < 2 ^ 63)
    (hdistinct : (s.service.enqueued.map P2PMessage.msgId).Nodup)
    (a : Answer) (ha : a ∈ s.service.answers) (hok : a.ack.success = true) :
    ∃ req, Action.send a.key.1 req ∈ as ∧ req.clientMsgId = a.key.2 ∧
      { req with msgId := a.ack.msgId, senderId := a.key.1 } ∈ s.service.stored ∧
      ∀ c : NetworkManager, c.userId = a.key.1 ∨ c.userId = req.receiverId → c.userId ≠ 0 →
        c.Consistent → c.lastSyncedMsgId < a.ack.msgId →
        ∃ c', c.Brings s.service { req with msgId := a.ack.msgId, senderId := a.key.1 } c' := by
  have hinv := Delivering.of_run hrun hlast
  obtain ⟨m, hm, hkey, hid⟩ := hinv.stored hidle hdrained ha hok
  have henqueued : ∀ m ∈ s.service.stored, m ∈ s.service.enqueued :=
    fun m hm => hinv.origins m (.inl hm)
  obtain ⟨req, hsent, heq⟩ := hinv.sources m (henqueued m hm)
  have hsender : m.senderId = a.key.1 := congrArg Prod.fst hkey
  have hclient : m.clientMsgId = a.key.2 := congrArg Prod.snd hkey
  rw [hid, hsender] at heq
  rw [hsender] at hsent
  rw [heq] at hm hclient
  refine ⟨req, hsent, hclient, hm, fun c hparty huser hc hlt => ?_⟩
  refine NetworkManager.sync_brings huser (fun m hm => hids m (henqueued m hm)) ?_ hc hm ?_ hlt
  · intro x hx y hy hsame
    exact List.inj_on_of_nodup_map hdistinct (henqueued x hx) (henqueued y hy) hsame
  · exact hparty.symm.imp Eq.symm Eq.symm

/-- The first insert is applied and reported as failed, so that the message is inserted twice. -/
def insertedTwice : List InsertOutcome := [.ok, .ok, .error true, .ok, .ok, .ok, .ok]

theorem acknowledged_delivered_inserted_twice :
    ∃ s, Steps.run step (init .sync (fun _ => none) []) (sentAgain insertedTwice 1) = some s ∧
      s.service.stored.length = 2 ∧
      ∃ c', (NetworkManager.init 2).Brings s.service { hello with msgId := 4194304, senderId := 1 } c' := by
  have hrun : (Steps.run step (init .sync (fun _ => none) []) (sentAgain insertedTwice 1)).map
      (fun s => (s.service.answers.getLast?, s.service.stored.length, s.service.writer.items, s.calls,
        s.service.enqueued.map P2PMessage.msgId)) =
      some (some ⟨(1, 9), { msgId := 4194304, success := true, status := .persisted }, true⟩, 2, [],
        [], [4194304]) := rfl
  obtain ⟨s, hs, hobs⟩ := Option.map_eq_some_iff.mp hrun
  simp only [Prod.mk.injEq] at hobs
  obtain ⟨hanswer, hstored, hdrained, hidle, hids⟩ := hobs
  have hbound : ∀ m ∈ s.service.enqueued, m.msgId.toNat < 2 ^ 63 := by
    intro m hm
    have hid := List.mem_map_of_mem (f := P2PMessage.msgId) hm
    rw [hids] at hid
    rw [List.mem_singleton.mp hid]
    decide
  obtain ⟨req, hsent, -, -, hbrings⟩ := acknowledged_delivered .sync _ s hs (by decide) hidle hdrained
    hbound (by rw [hids]; decide) _ (List.mem_of_getLast? hanswer) rfl
  have hreq : req = hello := by
    simpa [sentAgain, insertedTwice] using hsent
  rw [hreq] at hbrings
  exact ⟨s, hs, hstored, hbrings (NetworkManager.init 2) (.inr rfl) (by decide)
    (NetworkManager.init_consistent 2) (by decide)⟩

end MsgServer
end TermChat
