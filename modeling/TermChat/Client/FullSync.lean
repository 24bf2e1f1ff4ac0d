import TermChat.Client.Sync

/-! `SyncMessages` from its first page to its last, on an inbox that stays as it is. The pages
together are one page with all rows above the cursor. -/
namespace TermChat
open Proto MsgScyllaDao

namespace NetworkManager

/-- The loop of `SyncMessages`, with the error message if it fails. `ask` is the exchange with
the server, and `none` of the loop stands for one that is still running. -/
def syncLoop (ask : SyncMessagesReq → Option SyncMessagesResp) :
    ℕ → UInt64 → NetworkManager → Option (Option String × NetworkManager)
  | 0, _, _ => none
  | n + 1, cursor, c =>
    match ask (c.syncReq cursor) with
    | none => some (some "Request timeout or network error", c)
    | some resp =>
      if resp.success then
        let c := c.applyPage resp
        if resp.hasMore then syncLoop ask n c.lastSyncedMsgId c else some (none, c)
      else some (some resp.errorMsg, c)

def syncMessages (ask : SyncMessagesReq → Option SyncMessagesResp) (n : ℕ) (c : NetworkManager) :
    Option (Option String × NetworkManager) :=
  syncLoop ask n c.lastSyncedMsgId c

/-- The messages of a page go into the chats one after the other. -/
def recordAll (c : NetworkManager) (msgs : List P2PMessage) : NetworkManager :=
  msgs.foldl (fun c msg => c.record (c.chatPartnerId msg) msg) c

/-- Each id of `p2p_msg_ids_` has one message in the history, and no other has any. -/
def Consistent (c : NetworkManager) : Prop :=
  ∀ partner id, (c.p2pChatHistory partner).countP (·.msgId = id) =
    if id ∈ c.p2pMsgIds partner then 1 else 0

variable {c : NetworkManager}

theorem init_consistent (userId : UInt64) : (init userId).Consistent := fun _ _ => rfl

theorem Consistent.record (h : c.Consistent) (partner : UInt64) (msg : P2PMessage) :
    (c.record partner msg).Consistent := by
  unfold NetworkManager.record
  split_ifs with hmem
  · exact h
  · intro p id
    by_cases hp : p = partner
    · subst hp
      have hcount := h p id
      by_cases hid : id = msg.msgId
      · subst hid
        simp [hcount, hmem]
      · simp [hcount, hid, Ne.symm hid]
    · simpa [hp] using h p id

theorem chatPartnerId_record (partner : UInt64) (msg m : P2PMessage) :
    (c.record partner msg).chatPartnerId m = c.chatPartnerId m := by
  obtain ⟨history, ids, heq⟩ := c.record_eq partner msg
  rw [heq]
  rfl

theorem Consistent.recordAll (h : c.Consistent) (msgs : List P2PMessage) :
    (c.recordAll msgs).Consistent := by
  induction msgs generalizing c with
  | nil => exact h
  | cons msg msgs ih => exact ih (h.record _ msg)

theorem mem_ids_record {partner p id : UInt64} {msg : P2PMessage} :
    id ∈ (c.record partner msg).p2pMsgIds p ↔
      id ∈ c.p2pMsgIds p ∨ p = partner ∧ id = msg.msgId := by
  unfold NetworkManager.record
  split_ifs with hmem
  · constructor
    · exact .inl
    · rintro (h | ⟨rfl, rfl⟩)
      · exact h
      · exact hmem
  · by_cases hp : p = partner
    · subst hp
      simp [or_comm]
    · simp [hp]

theorem history_record {partner p : UInt64} {msg : P2PMessage} :
    (c.record partner msg).p2pChatHistory p = c.p2pChatHistory p ++
      if partner = p ∧ msg.msgId ∉ c.p2pMsgIds p then [msg] else [] := by
  by_cases hmem : msg.msgId ∈ c.p2pMsgIds partner
  · have hno : ¬ (partner = p ∧ msg.msgId ∉ c.p2pMsgIds p) := fun h => h.2 (h.1 ▸ hmem)
    rw [NetworkManager.record, if_pos hmem, if_neg hno, List.append_nil]
  · rw [NetworkManager.record, if_neg hmem]
    by_cases hp : partner = p
    · subst hp
      simp [hmem]
    · simp [hp, Function.update_of_ne (Ne.symm hp)]

theorem mem_ids_recordAll {msgs : List P2PMessage} {m : P2PMessage} (hm : m ∈ msgs) :
    m.msgId ∈ (c.recordAll msgs).p2pMsgIds (c.chatPartnerId m) := by
  have hkeep : ∀ (msgs : List P2PMessage) (c : NetworkManager) (p id : UInt64),
      id ∈ c.p2pMsgIds p → id ∈ (c.recordAll msgs).p2pMsgIds p := by
    intro msgs
    induction msgs with
    | nil => exact fun _ _ _ h => h
    | cons msg msgs ih => exact fun c p id h => ih _ p id (mem_ids_record.mpr (.inl h))
  induction msgs generalizing c with
  | nil => cases hm
  | cons msg msgs ih =>
    rcases List.mem_cons.mp hm with rfl | hm
    · exact hkeep msgs _ _ _ (mem_ids_record.mpr (.inr ⟨rfl, rfl⟩))
    · have hrest := ih (c := c.record (c.chatPartnerId msg) msg) hm
      rw [chatPartnerId_record] at hrest
      exact hrest

/-- What is added to a chat: the messages with its partner whose ids it does not know. -/
theorem history_recordAll {msgs : List P2PMessage} (h : (msgs.map P2PMessage.msgId).Nodup)
    (p : UInt64) :
    (c.recordAll msgs).p2pChatHistory p = c.p2pChatHistory p ++
      msgs.filter fun m => c.chatPartnerId m = p ∧ m.msgId ∉ c.p2pMsgIds p := by
  induction msgs generalizing c with
  | nil => exact (List.append_nil _).symm
  | cons msg msgs ih =>
    rw [List.map_cons, List.nodup_cons] at h
    have hrest := ih (c := c.record (c.chatPartnerId msg) msg) h.2
    -- the ids of the other messages are not the one that was just recorded
    have hfilter : (msgs.filter fun m =>
        (c.record (c.chatPartnerId msg) msg).chatPartnerId m = p ∧
          m.msgId ∉ (c.record (c.chatPartnerId msg) msg).p2pMsgIds p) =
        msgs.filter fun m => c.chatPartnerId m = p ∧ m.msgId ∉ c.p2pMsgIds p := by
      apply List.filter_congr
      intro m hm
      have hne : m.msgId ≠ msg.msgId := fun heq => h.1 (heq ▸ List.mem_map_of_mem hm)
      simp only [chatPartnerId_record, mem_ids_record, hne, and_false, or_false]
    refine hrest.trans ?_
    rw [hfilter, history_record, List.append_assoc, List.filter_cons]
    by_cases hadd : c.chatPartnerId msg = p ∧ msg.msgId ∉ c.p2pMsgIds p
    · rw [if_pos hadd, if_pos (decide_eq_true hadd), List.singleton_append]
    · rw [if_neg hadd, if_neg (by simpa using hadd), List.nil_append]

theorem recordAll_with (msgs : List P2PMessage) (cursor : UInt64) (returned : List P2PMessage) :
    { c with lastSyncedMsgId := cursor, returned := returned }.recordAll msgs =
      { c.recordAll msgs with lastSyncedMsgId := cursor, returned := returned } := by
  induction msgs generalizing c with
  | nil => rfl
  | cons msg msgs ih =>
    have hone : ∀ p, { c with lastSyncedMsgId := cursor, returned := returned }.record p msg =
        { c.record p msg with lastSyncedMsgId := cursor, returned := returned } := by
      intro p
      unfold NetworkManager.record
      split_ifs <;> rfl
    exact (congrArg (recordAll · msgs) (hone _)).trans ih

theorem applyPage_eq (resp : SyncMessagesResp) :
    c.applyPage resp =
      { c.recordAll resp.messages with
        lastSyncedMsgId := if c.lastSyncedMsgId < resp.nextAckMsgId then resp.nextAckMsgId
          else c.lastSyncedMsgId
        returned := c.returned ++ resp.messages } := rfl

/-- Two pages in a row are one page with the messages of both. -/
theorem applyPage_applyPage {r₁ r₂ r : SyncMessagesResp}
    (hmsgs : r.messages = r₁.messages ++ r₂.messages) (hnext : r.nextAckMsgId = r₂.nextAckMsgId)
    (hle : r₁.nextAckMsgId ≤ r₂.nextAckMsgId) :
    (c.applyPage r₁).applyPage r₂ = c.applyPage r := by
  have hchats : c.recordAll r.messages = (c.recordAll r₁.messages).recordAll r₂.messages := by
    rw [hmsgs]
    exact List.foldl_append
  have hlast : (if (if c.lastSyncedMsgId < r₁.nextAckMsgId then r₁.nextAckMsgId
        else c.lastSyncedMsgId) < r₂.nextAckMsgId then r₂.nextAckMsgId
      else if c.lastSyncedMsgId < r₁.nextAckMsgId then r₁.nextAckMsgId else c.lastSyncedMsgId) =
      if c.lastSyncedMsgId < r₂.nextAckMsgId then r₂.nextAckMsgId else c.lastSyncedMsgId := by
    simp only [UInt64.lt_iff_toNat_lt, UInt64.le_iff_toNat_le] at hle ⊢
    rw [← UInt64.toNat_inj]
    split_ifs <;> omega
  rw [applyPage_eq r₂, applyPage_eq r₁, recordAll_with, applyPage_eq r, hchats, hnext, hmsgs, ← hlast,
    List.append_assoc]

def wholePage (rows : List P2PMessage) (cursor : UInt64) : SyncMessagesResp :=
  { success := true, messages := pending rows cursor
    nextAckMsgId := ((pending rows cursor).getLast?.map P2PMessage.msgId).getD cursor }

/-- What the service answers to a round: the first hundred of them. -/
theorem syncMessages_eq {s : MsgService} {user cursor : UInt64} (huser : user ≠ 0) :
    s.syncMessages user (c.syncReq cursor) true =
      let page := (pending (inbox user s.stored) cursor).take 100
      { success := true, messages := page
        nextAckMsgId := (page.getLast?.map P2PMessage.msgId).getD cursor
        hasMore := 100 < (pending (inbox user s.stored) cursor).length } := by
  rw [MsgService.syncMessages, if_neg huser, getMessagesForUserAfter_eq]
  rfl

def askService (s : MsgService) (user : UInt64) (req : SyncMessagesReq) : Option SyncMessagesResp :=
  some (s.syncMessages user req true)

theorem mem_pending_iff {rows : List P2PMessage} {cursor : UInt64} {r : P2PMessage}
    (hrows : ∀ r ∈ rows, 0 ≤ messageId r) (hcursor : 0 ≤ bigint cursor) :
    r ∈ pending rows cursor ↔ r ∈ rows ∧ cursor < r.msgId := by
  rw [pending, List.mem_filter, decide_eq_true_eq]
  apply and_congr_right
  intro hr
  rw [← UInt64.not_le, le_iff_bigint_le (hrows r hr) hcursor, not_le]
  rfl

private theorem exists_getLast {rows : List P2PMessage} (h : 0 < rows.length) :
    ∃ y, rows.getLast? = some y :=
  ⟨_, List.getLast?_eq_some_getLast (List.length_pos_iff.mp h)⟩

/-- The loop ends, and has done what one page with all the rows would do. -/
theorem syncLoop_eq {s : MsgService} {user : UInt64} (huser : user ≠ 0)
    (hrows : ∀ r ∈ inbox user s.stored, 0 ≤ messageId r) {n : ℕ} {cursor : UInt64}
    (hcursor : 0 ≤ bigint cursor) (hlast : c.lastSyncedMsgId = cursor)
    (hn : (pending (inbox user s.stored) cursor).length < n) :
    syncLoop (askService s user) n cursor c =
      some (none, c.applyPage (wholePage (inbox user s.stored) cursor)) := by
  induction n generalizing cursor c with
  | zero => exact absurd hn (Nat.not_lt_zero _)
  | succ n ih =>
    simp only [syncLoop, askService, syncMessages_eq huser, if_true, decide_eq_true_eq]
    set rows := inbox user s.stored with hdef
    split_ifs with hmore
    · obtain ⟨y, hy⟩ : ∃ y, ((pending rows cursor).take 100).getLast? = some y := by
        apply exists_getLast
        rw [List.length_take]
        omega
      have hmem : y ∈ pending rows cursor := List.mem_of_mem_take (List.mem_of_getLast? hy)
      have hlt : cursor < y.msgId := ((mem_pending_iff hrows hcursor).mp hmem).2
      -- the last row of the page is the next cursor, and the rows above it are those left over
      have hrest : pending rows y.msgId = (pending rows cursor).drop 100 :=
        (sorted_inbox user s.stored).filter_last hy
      obtain ⟨z, hz⟩ : ∃ z, (pending rows y.msgId).getLast? = some z := by
        apply exists_getLast
        rw [hrest, List.length_drop]
        omega
      have hpos : 0 ≤ bigint y.msgId := hrows y (List.mem_filter.mp hmem).1
      simp only [hy, Option.map_some, Option.getD_some]
      have hcur : (c.applyPage
          { success := true, messages := (pending rows cursor).take 100, nextAckMsgId := y.msgId
            hasMore := decide (100 < (pending rows cursor).length) }).lastSyncedMsgId = y.msgId := by
        simp only [applyPage_eq, hlast, if_pos hlt]
      rw [hcur, ih hpos hcur (by rw [hrest, List.length_drop]; omega), Option.some.injEq,
        Prod.mk.injEq]
      refine ⟨rfl, applyPage_applyPage ?_ ?_ ?_⟩
      · show pending rows cursor = _ ++ pending rows y.msgId
        rw [hrest, List.take_append_drop]
      · have happ : (pending rows cursor).getLast? = some z := by
          rw [← List.take_append_drop 100 (pending rows cursor), ← hrest, List.getLast?_append, hz]
          rfl
        simp only [wholePage, happ, hz]
        rfl
      · have hyz := ((mem_pending_iff hrows hpos).mp (List.mem_of_getLast? hz)).2
        simp only [wholePage, hz, Option.map_some, Option.getD_some]
        exact UInt64.le_of_lt hyz
    · rw [List.take_of_length_le (Nat.le_of_not_lt hmore)]
      simp only [wholePage, decide_eq_false hmore]

def IsLargest (id : UInt64) (ids : List UInt64) : Prop := id ∈ ids ∧ ∀ i ∈ ids, i ≤ id

theorem isLargest_wholePage {rows : List P2PMessage} (hsorted : Partition.Sorted messageId rows)
    (hrows : ∀ r ∈ rows, 0 ≤ messageId r) (hcursor : 0 ≤ bigint c.lastSyncedMsgId) :
    IsLargest (c.applyPage (wholePage rows c.lastSyncedMsgId)).lastSyncedMsgId
      (c.lastSyncedMsgId :: rows.map P2PMessage.msgId) := by
  -- a row above the cursor is among the pending ones
  have hbelow : ∀ r ∈ rows, r ∉ pending rows c.lastSyncedMsgId → r.msgId ≤ c.lastSyncedMsgId := by
    intro r hr hnot
    rw [← UInt64.not_lt]
    exact fun hlt => hnot ((mem_pending_iff hrows hcursor).mpr ⟨hr, hlt⟩)
  simp only [applyPage_eq, wholePage]
  cases hlast : (pending rows c.lastSyncedMsgId).getLast? with
  | none =>
    have hnil : pending rows c.lastSyncedMsgId = [] := List.getLast?_eq_none_iff.mp hlast
    simp only [Option.map_none, Option.getD_none, ite_self]
    refine ⟨List.mem_cons_self, fun i hi => ?_⟩
    rcases List.mem_cons.mp hi with rfl | hi
    · exact UInt64.le_refl _
    · obtain ⟨r, hr, rfl⟩ := List.mem_map.mp hi
      exact hbelow r hr (by rw [hnil]; exact List.not_mem_nil)
  | some z =>
    obtain ⟨hz, hlt⟩ := (mem_pending_iff hrows hcursor).mp (List.mem_of_getLast? hlast)
    simp only [Option.map_some, Option.getD_some, if_pos hlt]
    refine ⟨List.mem_cons_of_mem _ (List.mem_map_of_mem hz), fun i hi => ?_⟩
    rcases List.mem_cons.mp hi with rfl | hi
    · exact UInt64.le_of_lt hlt
    · obtain ⟨r, hr, rfl⟩ := List.mem_map.mp hi
      by_cases hmem : r ∈ pending rows c.lastSyncedMsgId
      · rw [le_iff_bigint_le (hrows r hr) (hrows z hz)]
        exact (sorted_pending hsorted c.lastSyncedMsgId).le_last hlast hmem
      · exact UInt64.le_trans (hbelow r hr hmem) (UInt64.le_of_lt hlt)

/-- A synchronisation with a service whose inbox for the user stays as it is ends, whatever its
size. Then every message of the inbox above the old cursor is in the chat with the other party
once, nothing else was added, and the cursor is the largest id. -/
theorem full_sync (s : MsgService) (c : NetworkManager) (huser : c.userId ≠ 0)
    (hids : ∀ m ∈ s.stored, Concerns c.userId m → 0 < m.msgId.toNat ∧ m.msgId.toNat < 2 ^ 63)
    (hdistinct : s.stored.Pairwise fun a b =>
      Concerns c.userId a → Concerns c.userId b → a.msgId ≠ b.msgId)
    (hcursor : c.lastSyncedMsgId.toNat < 2 ^ 63) (hc : c.Consistent) :
    ∃ c' : NetworkManager,
      (∀ n, (inbox c.userId s.stored).length < n →
        c.syncMessages (askService s c.userId) n = some (none, c')) ∧
      (∀ m ∈ s.stored, Concerns c.userId m → c.lastSyncedMsgId < m.msgId →
        (c'.p2pChatHistory (c.chatPartnerId m)).countP (·.msgId = m.msgId) = 1) ∧
      (∀ p, c'.p2pChatHistory p = c.p2pChatHistory p ++ (inbox c.userId s.stored).filter fun r =>
        c.lastSyncedMsgId < r.msgId ∧ c.chatPartnerId r = p ∧ r.msgId ∉ c.p2pMsgIds p) ∧
      IsLargest c'.lastSyncedMsgId
        (c.lastSyncedMsgId :: (inbox c.userId s.stored).map P2PMessage.msgId) := by
  set rows := inbox c.userId s.stored with hdef
  have hsorted : Partition.Sorted messageId rows := sorted_inbox c.userId s.stored
  have hrows : ∀ r ∈ rows, 0 ≤ messageId r := by
    intro r hr
    rcases mem_insertBatch hr with hr | ⟨m, hm, hcm, rfl⟩
    · cases hr
    · exact bigint_nonneg (hids m hm hcm).2
  have hpos : 0 ≤ bigint c.lastSyncedMsgId := bigint_nonneg hcursor
  refine ⟨c.applyPage (wholePage rows c.lastSyncedMsgId), ?_, ?_, ?_, ?_⟩
  · intro n hn
    have hlen : (pending rows c.lastSyncedMsgId).length ≤ rows.length := List.length_filter_le _ _
    exact syncLoop_eq huser hrows hpos rfl (lt_of_le_of_lt hlen hn)
  · intro m hm hcm hlt
    have hmem : inboxRow m ∈ pending rows c.lastSyncedMsgId :=
      (mem_pending_iff hrows hpos).mpr ⟨mem_inbox hdistinct hm hcm, hlt⟩
    have hcount := hc.recordAll (pending rows c.lastSyncedMsgId) (c.chatPartnerId m) m.msgId
    exact hcount.trans (if_pos (mem_ids_recordAll hmem))
  · intro p
    have hnodup : ((pending rows c.lastSyncedMsgId).map P2PMessage.msgId).Nodup := by
      apply List.Nodup.of_map bigint
      rw [List.map_map]
      exact (sorted_pending hsorted c.lastSyncedMsgId).nodup
    have hfilter : pending rows c.lastSyncedMsgId =
        rows.filter fun r => c.lastSyncedMsgId < r.msgId := by
      apply List.filter_congr
      intro r hr
      have hiff := mem_pending_iff (r := r) hrows hpos
      simp only [pending, List.mem_filter, hr, true_and, decide_eq_true_eq] at hiff
      simp only [hiff]
    refine (history_recordAll hnodup p).trans ?_
    rw [hfilter, List.filter_filter]
    congr 2
    funext r
    simp only [Bool.decide_and, Bool.and_comm]
  · exact isLargest_wholePage hsorted hrows hpos

/-- User 1 has one message from user 2, and has sent one. -/
def twoMessages : MsgService :=
  .init .sync (fun _ => none)
    [{ msgId := 5, senderId := 1, receiverId := 2 }, { msgId := 3, senderId := 2, receiverId := 1 },
      { msgId := 4, senderId := 2, receiverId := 3 }]

def afterPush : NetworkManager := (init 1).onPush { msgId := 3, senderId := 2, receiverId := 1 }

theorem full_sync_after_push :
    ∃ c' : NetworkManager,
      (∀ n, 2 < n → afterPush.syncMessages (askService twoMessages 1) n = some (none, c')) ∧
      c'.p2pChatHistory 2 = [{ msgId := 3, senderId := 2, receiverId := 1 },
        { msgId := 5, senderId := 1, receiverId := 2 }] ∧
      IsLargest c'.lastSyncedMsgId [0, 3, 5] := by
  obtain ⟨c', hrun, -, hadd, hlast⟩ := full_sync twoMessages afterPush (by decide) (by decide)
    (by decide) (by decide) ((init_consistent 1).record 2 _)
  exact ⟨c', hrun, (hadd 2).trans (by decide), hlast⟩

end NetworkManager
end TermChat
