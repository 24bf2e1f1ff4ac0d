import TermChat.Client.FullSync

/-! The chats of the client, fed by pushes, by messages of its own and by sync pages. The three
ways find the partner of a message differently and agree on it. -/
namespace TermChat
open Proto MsgScyllaDao

namespace NetworkManager

def p2pMsgReq (c : NetworkManager) (receiverId : UInt64) (content : Bytes) (timestamp : Int64)
    (clientMsgId : UInt64) : P2PMessage :=
  { senderId := c.userId, receiverId := receiverId, content := content, timestamp := timestamp
    clientMsgId := clientMsgId }

/-- What brings messages into the chats. -/
inductive Delivery where
  | push (msg : P2PMessage)
  | sent (receiverId : UInt64) (content : Bytes) (timestamp : Int64) (clientMsgId : UInt64)
      (ack : MessageAck)
  | page (resp : SyncMessagesResp)

/-- A push is for the user, and an answer counts if it is one of success. -/
def deliver (c : NetworkManager) : Delivery → Option NetworkManager
  | .push msg => if msg.receiverId = c.userId then some (c.onPush msg) else none
  | .sent receiverId content timestamp clientMsgId ack =>
    if ack.success then
      some (c.onSent receiverId (c.p2pMsgReq receiverId content timestamp clientMsgId) ack)
    else none
  | .page resp => if resp.success then some (c.applyPage resp) else none

def Delivery.messages (user : UInt64) : Delivery → List P2PMessage
  | .push msg => [msg]
  | .sent receiverId content timestamp clientMsgId ack =>
    [{ msgId := ack.msgId, senderId := user, receiverId := receiverId, content := content
       timestamp := timestamp, clientMsgId := clientMsgId }]
  | .page resp => resp.messages

variable {c c' : NetworkManager} {user : UInt64}

structure SameChats (c c' : NetworkManager) : Prop where
  userId : c.userId = c'.userId
  p2pChatHistory : c.p2pChatHistory = c'.p2pChatHistory
  p2pMsgIds : c.p2pMsgIds = c'.p2pMsgIds

theorem SameChats.trans {c'' : NetworkManager} (h : SameChats c c') (h' : SameChats c' c'') :
    SameChats c c'' where
  userId := h.userId.trans h'.userId
  p2pChatHistory := h.p2pChatHistory.trans h'.p2pChatHistory
  p2pMsgIds := h.p2pMsgIds.trans h'.p2pMsgIds

theorem SameChats.recordAll (h : SameChats c c') (msgs : List P2PMessage) :
    SameChats (c.recordAll msgs) (c'.recordAll msgs) := by
  obtain ⟨user, cursor, history, ids, returned⟩ := c
  obtain ⟨user', cursor', history', ids', returned'⟩ := c'
  obtain ⟨huser, hhistory, hids⟩ := h
  cases huser
  cases hhistory
  cases hids
  have heq := recordAll_with (c := ⟨user, cursor, history, ids, returned⟩) msgs cursor' returned'
  constructor
  · exact (congrArg NetworkManager.userId heq).symm
  · exact (congrArg NetworkManager.p2pChatHistory heq).symm
  · exact (congrArg NetworkManager.p2pMsgIds heq).symm

theorem userId_recordAll (c : NetworkManager) (msgs : List P2PMessage) :
    (c.recordAll msgs).userId = c.userId := c.userId_applyPage { messages := msgs }

/-- Whatever the way, a message goes to the chat with its other party. -/
theorem deliver_eq {d : Delivery} (h : c.deliver d = some c') :
    SameChats (c.recordAll (d.messages c.userId)) c' := by
  cases d with
  | push msg =>
    simp only [deliver] at h
    split_ifs at h with hto
    cases h
    have hpartner : c.chatPartnerId msg = msg.senderId := by
      unfold chatPartnerId
      split_ifs with hself
      · rw [hto, hself]
      · rfl
    show SameChats (c.record (c.chatPartnerId msg) msg) (c.onPush msg)
    rw [hpartner]
    exact ⟨rfl, rfl, rfl⟩
  | sent receiverId content timestamp clientMsgId ack =>
    simp only [deliver] at h
    split_ifs at h
    cases h
    show SameChats (c.record (if c.userId = c.userId then receiverId else c.userId) _) _
    rw [if_pos rfl]
    exact ⟨rfl, rfl, rfl⟩
  | page resp =>
    simp only [deliver] at h
    split_ifs at h
    cases h
    exact ⟨rfl, rfl, rfl⟩

/-- The chats after a run are those of its messages, one after the other. -/
theorem run_deliver {ds : List Delivery} (hr : Steps.run deliver c ds = some c') :
    SameChats (c.recordAll (ds.flatMap (Delivery.messages c.userId))) c' := by
  induction ds generalizing c with
  | nil =>
    cases hr
    exact ⟨rfl, rfl, rfl⟩
  | cons d ds ih =>
    obtain ⟨c₁, hd, hr⟩ := Steps.run_cons_eq_some.mp hr
    have hone := deliver_eq hd
    have huser : c₁.userId = c.userId := hone.userId.symm.trans (userId_recordAll c _)
    have hrest := ih hr
    rw [huser] at hrest
    have happ : c.recordAll ((d :: ds).flatMap (Delivery.messages c.userId)) =
        (c.recordAll (d.messages c.userId)).recordAll
          (ds.flatMap (Delivery.messages c.userId)) := by
      rw [List.flatMap_cons]
      exact List.foldl_append
    rw [happ]
    exact (hone.recordAll _).trans hrest

/-- The messages of the chats are messages that came, each in the chat of its other party. -/
theorem mem_history_recordAll {msgs : List P2PMessage} {p : UInt64} {m : P2PMessage}
    (hm : m ∈ (c.recordAll msgs).p2pChatHistory p) :
    m ∈ c.p2pChatHistory p ∨ m ∈ msgs ∧ c.chatPartnerId m = p := by
  induction msgs generalizing c with
  | nil => exact .inl hm
  | cons msg msgs ih =>
    rcases ih hm with hm | ⟨hm, hp⟩
    · rw [history_record] at hm
      rcases List.mem_append.mp hm with hm | hm
      · exact .inl hm
      · split_ifs at hm with hadd
        · obtain rfl := List.mem_singleton.mp hm
          exact .inr ⟨List.mem_cons_self, hadd.1⟩
        · cases hm
    · rw [chatPartnerId_record] at hp
      exact .inr ⟨List.mem_cons_of_mem msg hm, hp⟩

theorem Consistent.nodup (h : c.Consistent) (p : UInt64) :
    ((c.p2pChatHistory p).map P2PMessage.msgId).Nodup := by
  rw [List.nodup_iff_count_le_one]
  intro id
  have hcount : ((c.p2pChatHistory p).map P2PMessage.msgId).count id =
      (c.p2pChatHistory p).countP (·.msgId = id) := by
    rw [List.count_eq_countP, List.countP_map]
    apply List.countP_congr
    intro m _
    simp
  rw [hcount, h p id]
  split_ifs <;> omega

theorem Consistent.mem_ids (h : c.Consistent) (p id : UInt64) :
    id ∈ c.p2pMsgIds p ↔ id ∈ (c.p2pChatHistory p).map P2PMessage.msgId := by
  have hcount := h p id
  have hmem : id ∈ (c.p2pChatHistory p).map P2PMessage.msgId ↔
      0 < (c.p2pChatHistory p).countP (·.msgId = id) := by
    simp [List.countP_pos_iff]
  rw [hmem, hcount]
  split_ifs with hid <;> simp [hid]

/-- After any mixture of pushes, own messages and sync pages, in which an id stands for one pair
of parties, an id occurs at most once in all chats, each message is in the chat with its other
party, `p2p_msg_ids_` holds the ids of the chats, and nothing that came is missing. -/
theorem history_consistent (user : UInt64) (ds : List Delivery)
    (hr : Steps.run deliver (init user) ds = some c)
    (hsame : ∀ m ∈ ds.flatMap (Delivery.messages user), ∀ m' ∈ ds.flatMap (Delivery.messages user),
      m.msgId = m'.msgId → m.senderId = m'.senderId ∧ m.receiverId = m'.receiverId) :
    (∀ p, ((c.p2pChatHistory p).map P2PMessage.msgId).Nodup) ∧
      (∀ p p', ∀ m ∈ c.p2pChatHistory p, ∀ m' ∈ c.p2pChatHistory p', m.msgId = m'.msgId → p = p') ∧
      (∀ p, ∀ m ∈ c.p2pChatHistory p, p = c.chatPartnerId m ∧ (Concerns user m →
        m.senderId = user ∧ m.receiverId = p ∨ m.senderId = p ∧ m.receiverId = user)) ∧
      (∀ p id, id ∈ c.p2pMsgIds p ↔ id ∈ (c.p2pChatHistory p).map P2PMessage.msgId) ∧
      ∀ m ∈ ds.flatMap (Delivery.messages user),
        m.msgId ∈ (c.p2pChatHistory (c.chatPartnerId m)).map P2PMessage.msgId := by
  have hchats : SameChats ((init user).recordAll (ds.flatMap (Delivery.messages user))) c :=
    run_deliver hr
  have hcons : c.Consistent := by
    intro p id
    rw [← hchats.p2pChatHistory, ← hchats.p2pMsgIds]
    exact (init_consistent user).recordAll _ p id
  have huser : c.userId = user := by
    rw [← hchats.userId]
    exact userId_recordAll _ _
  have hpartner : ∀ m, c.chatPartnerId m = (init user).chatPartnerId m := by
    intro m
    unfold chatPartnerId
    rw [huser]
    rfl
  have hfiled : ∀ p, ∀ m ∈ c.p2pChatHistory p,
      m ∈ ds.flatMap (Delivery.messages user) ∧ c.chatPartnerId m = p := by
    intro p m hm
    rw [← hchats.p2pChatHistory] at hm
    rcases mem_history_recordAll hm with hm | ⟨hm, hp⟩
    · cases hm
    · exact ⟨hm, (hpartner m).trans hp⟩
  refine ⟨hcons.nodup, ?_, ?_, hcons.mem_ids, ?_⟩
  · intro p p' m hm m' hm' hid
    obtain ⟨hmem, hp⟩ := hfiled p m hm
    obtain ⟨hmem', hp'⟩ := hfiled p' m' hm'
    obtain ⟨hsender, hreceiver⟩ := hsame m hmem m' hmem' hid
    rw [← hp, ← hp']
    simp only [chatPartnerId, hsender, hreceiver]
  · intro p m hm
    obtain ⟨-, rfl⟩ := hfiled p m hm
    refine ⟨rfl, fun hconcerns => ?_⟩
    unfold chatPartnerId
    rw [huser]
    split_ifs with hself
    · exact .inl ⟨hself, rfl⟩
    · exact .inr ⟨rfl, hconcerns.resolve_right hself⟩
  · intro m hm
    rw [← hcons.mem_ids, hpartner, ← hchats.p2pMsgIds]
    exact mem_ids_recordAll hm

/-- A message of user 1 to themselves comes as an answer, as a push and on a page. -/
theorem history_consistent_self : ∃ c : NetworkManager,
    Steps.run deliver (init 1)
      [.sent 1 [] 0 7 { msgId := 5, success := true },
        .push { msgId := 5, senderId := 1, receiverId := 1 },
        .page { success := true, messages := [{ msgId := 5, senderId := 1, receiverId := 1 }] }] =
      some c ∧
    ((c.p2pChatHistory 1).map P2PMessage.msgId).Nodup ∧
    (c.p2pChatHistory 1).map P2PMessage.msgId = [5] := by
  refine ⟨_, rfl, ?_, rfl⟩
  refine (history_consistent 1 [.sent 1 [] 0 7 { msgId := 5, success := true },
    .push { msgId := 5, senderId := 1, receiverId := 1 },
    .page { success := true, messages := [{ msgId := 5, senderId := 1, receiverId := 1 }] }]
    rfl ?_).1 1
  decide

end NetworkManager
end TermChat
