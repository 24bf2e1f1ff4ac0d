import TermChat.Base.Cql
import TermChat.Dao.Scylla
import TermChat.Proto.Encode
import TermChat.Service.Push
import TermChat.Utils.IdGenerator

/-! `im.messages` and `im.user_messages_by_id` column by column, as `MsgScyllaDao` binds them and
reads them back. -/
namespace TermChat
open Proto MsgScyllaDao

inductive Column where
  | conversationId
  | userId
  | messageId
  | timestamp
  | senderId
  | receiverId
  | contentType
  | content
  deriving DecidableEq, Repr

/-- What is bound to a parameter: `bind_string`, `bind_int64`, `bind_int32`, `bind_bytes`. -/
inductive CassValue where
  | string (s : String)
  | int64 (v : Int64)
  | int32 (v : Int32)
  | bytes (b : Bytes)
  deriving DecidableEq, Repr

abbrev Row := Cql.Row Column CassValue

/-- `static_cast<im::ContentType>`. -/
def Proto.ContentType.ofNumber (value : Int32) : ContentType :=
  if h : value ∈ ([0, 1, 2, 3, 4] : List Int32) then
    if value = 0 then .text
    else if value = 1 then .image
    else if value = 2 then .file
    else if value = 3 then .audio
    else .video
  else .unrecognized value h

theorem Proto.ContentType.ofNumber_number (type : ContentType) : ofNumber type.number = type := by
  cases type with
  | unrecognized value h => exact dif_neg h
  | _ => rfl

/-- `message_id` is the clustering column of both tables. -/
def clusteringId (row : Row) : ℤ :=
  match row .messageId with
  | some (.int64 v) => v.toInt
  | _ => 0

def messagesSchema : Cql.Schema Column CassValue ℤ := ⟨.conversationId, clusteringId⟩

def inboxSchema : Cql.Schema Column CassValue ℤ := ⟨.userId, clusteringId⟩

/-- The columns of `k_insert_history`, in both functions. -/
def kInsertHistory : List Column :=
  [.conversationId, .messageId, .timestamp, .senderId, .receiverId, .contentType, .content]

def kInsertInboxById : List Column :=
  [.userId, .messageId, .senderId, .receiverId, .contentType, .content, .timestamp]

def kSelectAfter : List Column :=
  [.messageId, .senderId, .receiverId, .contentType, .content, .timestamp]

def historyStatement (msg : P2PMessage) : Cql.Insert Column CassValue where
  columns := kInsertHistory
  values :=
    [.string (IdGenerator.generateP2PConvId msg.senderId msg.receiverId),
      .int64 msg.msgId.toInt64, .int64 msg.timestamp, .int64 msg.senderId.toInt64,
      .int64 msg.receiverId.toInt64, .int32 msg.contentType.number, .bytes msg.content]

def inboxStatement (userId : UInt64) (msg : P2PMessage) : Cql.Insert Column CassValue where
  columns := kInsertInboxById
  values :=
    [.int64 userId.toInt64, .int64 msg.msgId.toInt64, .int64 msg.senderId.toInt64,
      .int64 msg.receiverId.toInt64, .int32 msg.contentType.number, .bytes msg.content,
      .int64 msg.timestamp]

structure Keyspace where
  messages : Cql.Table Column CassValue := fun _ => []
  userMessagesById : Cql.Table Column CassValue := fun _ => []

/-- A statement of a batch, by its table. -/
inductive Statement where
  | messages (insert : Cql.Insert Column CassValue)
  | userMessagesById (insert : Cql.Insert Column CassValue)

/-- What either function adds to its batch for a message. -/
def statements (msg : P2PMessage) : List Statement :=
  [.messages (historyStatement msg), .userMessagesById (inboxStatement msg.receiverId msg),
    .userMessagesById (inboxStatement msg.senderId msg)]

namespace Keyspace

def execute (k : Keyspace) : Statement → Keyspace
  | .messages i => { k with messages := Cql.insert messagesSchema k.messages i }
  | .userMessagesById i => { k with userMessagesById := Cql.insert inboxSchema k.userMessagesById i }

def executeBatch (k : Keyspace) (batch : List Statement) : Keyspace := batch.foldl execute k

/-- `InsertMessage` and `InsertBatch` when their batch succeeds. -/
def insertMessage (k : Keyspace) (msg : P2PMessage) : Keyspace := k.executeBatch (statements msg)

def insertBatch (k : Keyspace) (msgs : List P2PMessage) : Keyspace :=
  if msgs.isEmpty then k else k.executeBatch (msgs.flatMap statements)

/-- A row of the result, by position. `none` is a column of another type, which leaves the
variable that it is read into uninitialized. -/
def readRow : List (Option CassValue) → Option P2PMessage
  | [some (.int64 msgId), some (.int64 senderId), some (.int64 receiverId), some (.int32 cType),
      some (.bytes content), some (.int64 ts)] =>
    some
      { msgId := msgId.toUInt64, senderId := senderId.toUInt64, receiverId := receiverId.toUInt64
        contentType := .ofNumber cType, content := content, timestamp := ts }
  | _ => none

/-- `GetMessagesForUserAfter` when its query succeeds. -/
def getMessagesForUserAfter (k : Keyspace) (userId lastAckMsgId : UInt64) (limit : UInt32) :
    Option MessagePage := do
  let result := Cql.select inboxSchema k.userMessagesById kSelectAfter (.int64 userId.toInt64)
    lastAckMsgId.toInt64.toInt (pageSize limit + 1)
  let found ← result.mapM readRow
  let messages := found.take (pageSize limit)
  return {
    messages := messages
    nextAckMsgId := (messages.getLast?.map P2PMessage.msgId).getD lastAckMsgId
    hasMore := pageSize limit < found.length }

inductive Call where
  | insertMessage (msg : P2PMessage)
  | insertBatch (msgs : List P2PMessage)

def Call.messages : Call → List P2PMessage
  | .insertMessage msg => [msg]
  | .insertBatch msgs => msgs

def persist (k : Keyspace) : Call → Keyspace
  | .insertMessage msg => k.insertMessage msg
  | .insertBatch msgs => k.insertBatch msgs

/-- The tables after the calls, from empty ones. -/
def persisted (calls : List Call) : Keyspace := calls.foldl persist {}

/-- Pages from `cursor` on, until one says that there is no more; `n` bounds their number. -/
def readAll (page : ℕ → UInt64 → Option MessagePage) : ℕ → ℕ → UInt64 → Option (List P2PMessage)
  | 0, _, _ => none
  | n + 1, round, cursor => do
    let p ← page round cursor
    if p.hasMore then return p.messages ++ (← readAll page n (round + 1) p.nextAckMsgId)
    else return p.messages

/-- The message that a row stands for, by the names of its columns. -/
def message (row : Row) : Option P2PMessage :=
  match row .messageId, row .senderId, row .receiverId, row .contentType, row .content,
    row .timestamp with
  | some (.int64 msgId), some (.int64 senderId), some (.int64 receiverId), some (.int32 type),
    some (.bytes content), some (.int64 timestamp) =>
    some
      { msgId := msgId.toUInt64, senderId := senderId.toUInt64, receiverId := receiverId.toUInt64
        contentType := .ofNumber type, content := content, timestamp := timestamp }
  | _, _, _, _, _, _ => none

section Rows

variable (user : UInt64) (msg : P2PMessage)

private theorem message_historyStatement :
    message (historyStatement msg).row = some (inboxRow msg) := by
  have htype := msg.contentType.ofNumber_number
  change some { inboxRow msg with contentType := .ofNumber msg.contentType.number } = _
  rw [htype]
  rfl

theorem message_inboxStatement : message (inboxStatement user msg).row = some (inboxRow msg) := by
  have htype := msg.contentType.ofNumber_number
  change some { inboxRow msg with contentType := .ofNumber msg.contentType.number } = _
  rw [htype]
  rfl

private theorem readRow_inboxStatement :
    readRow (kSelectAfter.map (inboxStatement user msg).row) = some (inboxRow msg) :=
  message_inboxStatement user msg

private theorem clusteringId_historyStatement :
    clusteringId (historyStatement msg).row = messageId msg :=
  rfl

private theorem clusteringId_inboxStatement :
    clusteringId (inboxStatement user msg).row = messageId msg :=
  rfl

theorem conversation_historyStatement :
    (historyStatement msg).row .conversationId =
      some (.string (IdGenerator.generateP2PConvId msg.senderId msg.receiverId)) := rfl

theorem user_inboxStatement :
    (inboxStatement user msg).row .userId = some (.int64 user.toInt64) := rfl

end Rows

theorem executeBatch_append (k : Keyspace) (batch batch' : List Statement) :
    k.executeBatch (batch ++ batch') = (k.executeBatch batch).executeBatch batch' :=
  List.foldl_append

theorem persist_eq (k : Keyspace) (call : Call) :
    k.persist call = k.executeBatch (call.messages.flatMap statements) := by
  cases call with
  | insertMessage msg => rfl
  | insertBatch msgs =>
    cases msgs with
    | nil => rfl
    | cons msg msgs => rfl

theorem persisted_eq (calls : List Call) :
    persisted calls = executeBatch {} ((calls.flatMap Call.messages).flatMap statements) := by
  have hfold : ∀ k : Keyspace, calls.foldl persist k =
      k.executeBatch ((calls.flatMap Call.messages).flatMap statements) := by
    induction calls with
    | nil => exact fun _ => rfl
    | cons call calls ih =>
      intro k
      rw [List.foldl_cons, ih, persist_eq, List.flatMap_cons, List.flatMap_append,
        executeBatch_append]
  exact hfold {}

def inboxInserts (msgs : List P2PMessage) : List (Cql.Insert Column CassValue) :=
  msgs.flatMap fun msg => [inboxStatement msg.receiverId msg, inboxStatement msg.senderId msg]

/-- A batch acts on each table by the inserts into it. -/
theorem executeBatch_statements (k : Keyspace) (msgs : List P2PMessage) :
    k.executeBatch (msgs.flatMap statements) =
      { messages := Cql.insertAll messagesSchema k.messages (msgs.map historyStatement)
        userMessagesById := Cql.insertAll inboxSchema k.userMessagesById (inboxInserts msgs) } := by
  induction msgs generalizing k with
  | nil => rfl
  | cons msg msgs ih =>
    rw [List.flatMap_cons, executeBatch_append, ih]
    rfl

variable {msgs : List P2PMessage} {user : UInt64}

theorem eq_of_messageId_eq (hids : (msgs.map P2PMessage.msgId).Nodup) {a b : P2PMessage}
    (ha : a ∈ msgs) (hb : b ∈ msgs) (h : messageId a = messageId b) : a = b :=
  List.inj_on_of_nodup_map hids ha hb (bigint_inj h)

theorem mem_inboxInserts {i : Cql.Insert Column CassValue} :
    i ∈ inboxInserts msgs ↔ ∃ user, ∃ msg ∈ msgs, Concerns user msg ∧ i = inboxStatement user msg := by
  simp only [inboxInserts, List.mem_flatMap, List.mem_cons, List.not_mem_nil, or_false, Concerns]
  constructor
  · rintro ⟨msg, hmsg, rfl | rfl⟩
    · exact ⟨_, msg, hmsg, .inl rfl, rfl⟩
    · exact ⟨_, msg, hmsg, .inr rfl, rfl⟩
  · rintro ⟨user, msg, hmsg, rfl | rfl, rfl⟩
    · exact ⟨msg, hmsg, .inl rfl⟩
    · exact ⟨msg, hmsg, .inr rfl⟩

private theorem agree_history (hids : (msgs.map P2PMessage.msgId).Nodup) :
    Cql.Agree messagesSchema (msgs.map historyStatement) := by
  intro i hi j hj _ hkey
  obtain ⟨a, ha, rfl⟩ := List.mem_map.mp hi
  obtain ⟨b, hb, rfl⟩ := List.mem_map.mp hj
  rw [eq_of_messageId_eq hids ha hb hkey]

private theorem agree_inbox (hids : (msgs.map P2PMessage.msgId).Nodup) :
    Cql.Agree inboxSchema (inboxInserts msgs) := by
  intro i hi j hj hpart hkey
  obtain ⟨u, a, ha, -, rfl⟩ := mem_inboxInserts.mp hi
  obtain ⟨v, b, hb, -, rfl⟩ := mem_inboxInserts.mp hj
  have huser : u = v := by
    rw [inboxSchema, user_inboxStatement, user_inboxStatement] at hpart
    cases hpart
    rfl
  rw [eq_of_messageId_eq hids ha hb hkey, huser]

/-- The message is one of the chat of `a` and `b`. -/
def Between (a b : UInt64) (msg : P2PMessage) : Prop :=
  msg.senderId = a ∧ msg.receiverId = b ∨ msg.senderId = b ∧ msg.receiverId = a

instance (a b : UInt64) (msg : P2PMessage) : Decidable (Between a b msg) :=
  inferInstanceAs (Decidable (_ ∨ _))

private theorem between_iff (a b : UInt64) (msg : P2PMessage) :
    Between a b msg ↔ IdGenerator.generateP2PConvId msg.senderId msg.receiverId =
      IdGenerator.generateP2PConvId a b := by
  constructor
  · rintro (⟨rfl, rfl⟩ | ⟨rfl, rfl⟩)
    · rfl
    · exact IdGenerator.generateP2PConvId_comm _ _
  · exact IdGenerator.pair_of_generateP2PConvId_eq

theorem mem_user_partition (hids : (msgs.map P2PMessage.msgId).Nodup) {r : Row} :
    r ∈ (executeBatch {} (msgs.flatMap statements)).userMessagesById (.int64 user.toInt64) ↔
      ∃ msg ∈ msgs, Concerns user msg ∧ (inboxStatement user msg).row = r := by
  rw [executeBatch_statements]
  refine (Cql.mem_insertAll (agree_inbox hids)).trans ?_
  constructor
  · rintro ⟨i, hi, hpart, rfl⟩
    obtain ⟨u, msg, hmsg, hc, rfl⟩ := mem_inboxInserts.mp hi
    rw [inboxSchema, user_inboxStatement] at hpart
    cases hpart
    exact ⟨msg, hmsg, hc, rfl⟩
  · rintro ⟨msg, hmsg, hc, rfl⟩
    exact ⟨_, mem_inboxInserts.mpr ⟨user, msg, hmsg, hc, rfl⟩, rfl, rfl⟩

theorem mem_conversation (hids : (msgs.map P2PMessage.msgId).Nodup) {a b : UInt64} {r : Row} :
    r ∈ (executeBatch {} (msgs.flatMap statements)).messages
        (.string (IdGenerator.generateP2PConvId a b)) ↔
      ∃ msg ∈ msgs, Between a b msg ∧ (historyStatement msg).row = r := by
  rw [executeBatch_statements]
  refine (Cql.mem_insertAll (agree_history hids)).trans ?_
  simp only [List.mem_map, exists_exists_and_eq_and, messagesSchema, conversation_historyStatement,
    Option.some.injEq, CassValue.string.injEq, between_iff]

theorem mem_inbox_iff (hids : (msgs.map P2PMessage.msgId).Nodup) {row : P2PMessage} :
    row ∈ inbox user msgs ↔ ∃ msg ∈ msgs, Concerns user msg ∧ inboxRow msg = row := by
  constructor
  · intro h
    obtain h | ⟨msg, hmsg, hc, rfl⟩ := mem_insertBatch h
    · exact absurd h List.not_mem_nil
    · exact ⟨msg, hmsg, hc, rfl⟩
  · rintro ⟨msg, hmsg, hc, rfl⟩
    have hdistinct := List.pairwise_map.mp hids
    exact mem_inbox (hdistinct.imp fun h _ _ => h) hmsg hc

theorem sorted_user_partition (msgs : List P2PMessage) (user : UInt64) :
    Partition.Sorted clusteringId
      ((executeBatch {} (msgs.flatMap statements)).userMessagesById (.int64 user.toInt64)) := by
  rw [executeBatch_statements]
  exact Cql.sorted_insertAll (S := inboxSchema) _ _

theorem sorted_conversation (msgs : List P2PMessage) (conversation : String) :
    Partition.Sorted clusteringId
      ((executeBatch {} (msgs.flatMap statements)).messages (.string conversation)) := by
  rw [executeBatch_statements]
  exact Cql.sorted_insertAll (S := messagesSchema) _ _

/-- The partition of a user has the rows of their inbox, in the same order. -/
theorem user_partition_eq (hids : (msgs.map P2PMessage.msgId).Nodup) (user : UInt64) :
    (executeBatch {} (msgs.flatMap statements)).userMessagesById (.int64 user.toInt64) =
      (inbox user msgs).map fun msg => (inboxStatement user msg).row := by
  have hinbox : Partition.Sorted clusteringId
      ((inbox user msgs).map fun msg => (inboxStatement user msg).row) :=
    List.pairwise_map.mpr (sorted_inbox user msgs)
  refine (sorted_user_partition msgs user).ext hinbox fun r => ?_
  rw [mem_user_partition hids, List.mem_map]
  constructor
  · rintro ⟨msg, hmsg, hc, rfl⟩
    exact ⟨inboxRow msg, (mem_inbox_iff hids).mpr ⟨msg, hmsg, hc, rfl⟩, rfl⟩
  · rintro ⟨row, hrow, rfl⟩
    obtain ⟨msg, hmsg, hc, rfl⟩ := (mem_inbox_iff hids).mp hrow
    exact ⟨msg, hmsg, hc, rfl⟩

/-- A row of an inbox has no client message id to lose. -/
theorem inboxRow_of_mem_inbox {row : P2PMessage} (h : row ∈ inbox user msgs) : inboxRow row = row := by
  obtain h | ⟨msg, -, -, rfl⟩ := mem_insertBatch h
  · exact absurd h List.not_mem_nil
  · rfl

/-- A page read column by column is the page of the inbox. -/
theorem getMessagesForUserAfter_eq_page (hids : (msgs.map P2PMessage.msgId).Nodup)
    (user cursor : UInt64) (limit : UInt32) :
    (executeBatch {} (msgs.flatMap statements)).getMessagesForUserAfter user cursor limit =
      some (MsgScyllaDao.getMessagesForUserAfter (inbox user msgs) cursor limit true) := by
  have hselect : Cql.select inboxSchema (executeBatch {} (msgs.flatMap statements)).userMessagesById
      kSelectAfter (.int64 user.toInt64) cursor.toInt64.toInt (pageSize limit + 1) =
      (Partition.after messageId (bigint cursor) (pageSize limit + 1) (inbox user msgs)).map
        fun msg => kSelectAfter.map (inboxStatement user msg).row := by
    rw [Cql.select, user_partition_eq hids, Partition.after, List.filter_map, ← List.map_take,
      List.map_map]
    rfl
  have hread : ∀ rows : List P2PMessage, (∀ r ∈ rows, inboxRow r = r) →
      (rows.map fun msg => kSelectAfter.map (inboxStatement user msg).row).mapM readRow =
        some rows := by
    intro rows hrows
    induction rows with
    | nil => rfl
    | cons r rows ih =>
      rw [List.map_cons, List.mapM_cons, readRow_inboxStatement, hrows r List.mem_cons_self,
        ih fun q hq => hrows q (List.mem_cons_of_mem r hq)]
      rfl
  have hrows : ∀ r ∈ Partition.after messageId (bigint cursor) (pageSize limit + 1)
      (inbox user msgs), inboxRow r = r := by
    intro r hr
    exact inboxRow_of_mem_inbox (Partition.mem_after hr).1
  have hfound := hread _ hrows
  simp only [getMessagesForUserAfter, hselect, hfound]
  rfl

/-- Reading page after page ends with all rows above the cursor. -/
theorem readAll_eq {rows : List P2PMessage} (hsorted : Partition.Sorted messageId rows)
    {page : ℕ → UInt64 → Option MessagePage} {limit : ℕ → UInt32}
    (hpage : ∀ round cursor, page round cursor =
      some (MsgScyllaDao.getMessagesForUserAfter rows cursor (limit round) true))
    {n : ℕ} (round : ℕ) {cursor : UInt64} (hn : (pending rows cursor).length < n) :
    readAll page n round cursor = some (pending rows cursor) := by
  induction n generalizing round cursor with
  | zero => exact absurd hn (Nat.not_lt_zero _)
  | succ n ih =>
    have hsize : 1 ≤ pageSize (limit round) := by
      unfold pageSize
      omega
    simp only [readAll, hpage, getMessagesForUserAfter_eq, Option.bind_eq_bind, Option.bind_some,
      decide_eq_true_eq]
    split_ifs with hmore
    · have hne : (pending rows cursor).take (pageSize (limit round)) ≠ [] := by
        rw [← List.length_pos_iff, List.length_take]
        omega
      have hlast := List.getLast?_eq_some_getLast hne
      -- the next page starts where this one ended
      have hrest := hsorted.filter_last hlast
      have hshort : (pending rows (((pending rows cursor).take
          (pageSize (limit round))).getLast hne).msgId).length < n := by
        refine lt_of_eq_of_lt (congrArg List.length hrest) ?_
        rw [List.length_drop]
        change (pending rows cursor).length - pageSize (limit round) < n
        omega
      simp only [hlast, Option.map_some, Option.getD_some, ih (round + 1) hshort, Option.bind_some]
      have htail : pending rows (((pending rows cursor).take
          (pageSize (limit round))).getLast hne).msgId =
          (pending rows cursor).drop (pageSize (limit round)) := hrest
      rw [htail, List.take_append_drop]
      rfl
    · rw [List.take_of_length_le (Nat.le_of_not_lt hmore)]
      rfl

theorem perm_of_rows {α : Type} {key : α → ℤ} {rows : List α} {P : P2PMessage → Prop}
    [DecidablePred P] {row : P2PMessage → α} (hsorted : Partition.Sorted key rows)
    (hids : (msgs.map P2PMessage.msgId).Nodup) (hkey : ∀ msg, key (row msg) = messageId msg)
    (hmem : ∀ r, r ∈ rows ↔ ∃ msg ∈ msgs, P msg ∧ row msg = r) :
    rows.Perm ((msgs.filter P).map row) := by
  have hsub : ((msgs.filter P).map P2PMessage.msgId).Nodup :=
    hids.sublist (List.filter_sublist.map _)
  have hnodup : ((msgs.filter P).map row).Nodup := by
    rw [List.nodup_map_iff_inj_on hsub.of_map]
    intro a ha b hb heq
    have hkeys : messageId a = messageId b := by rw [← hkey, ← hkey, heq]
    exact eq_of_messageId_eq hsub ha hb hkeys
  refine (List.perm_ext_iff_of_nodup hsorted.nodup.of_map hnodup).mpr fun r => ?_
  rw [hmem]
  simp only [List.mem_map, List.mem_filter, decide_eq_true_eq, and_assoc]

theorem perm_inbox (hids : (msgs.map P2PMessage.msgId).Nodup) (user : UInt64) :
    (inbox user msgs).Perm ((msgs.filter (Concerns user)).map inboxRow) := by
  have hkey : ∀ msg, messageId (inboxRow msg) = messageId msg := fun _ => rfl
  exact perm_of_rows (sorted_inbox user msgs) hids hkey fun _ => mem_inbox_iff hids

/-- The message in an envelope that `push_p2p_message` sends. -/
def pushCopy (envelope : Envelope) : Option P2PMessage :=
  match envelope.payload with
  | some (.p2pMsgPush msg) => some msg
  | _ => none

theorem pending_zero {rows : List P2PMessage}
    (h : ∀ r ∈ rows, 1 ≤ r.msgId.toNat ∧ r.msgId.toNat ≤ 2 ^ 63 - 1) : pending rows 0 = rows := by
  have hzero : bigint 0 = 0 := rfl
  apply List.filter_eq_self.mpr
  intro r hr
  obtain ⟨hlow, hhigh⟩ := h r hr
  rw [decide_eq_true_eq, hzero, messageId, bigint_eq]
  split_ifs <;> omega

/-- Messages persisted by any calls are read back, page after page, as they were pushed, but for
their client message ids; and the inboxes and the conversations hold them and no others. -/
theorem persisted_copies_agree (calls : List Call) (now : P2PMessage → Int64)
    (hids : ((calls.flatMap Call.messages).map P2PMessage.msgId).Nodup)
    (hrange : ∀ msg ∈ calls.flatMap Call.messages,
      1 ≤ msg.msgId.toNat ∧ msg.msgId.toNat ≤ 2 ^ 63 - 1) :
    (∀ (user : UInt64) (limit : ℕ → UInt32) (n : ℕ), (calls.flatMap Call.messages).length < n →
      ∃ got, readAll (fun round cursor =>
          (persisted calls).getMessagesForUserAfter user cursor (limit round)) n 0 0 = some got ∧
        (got.map some).Perm (((calls.flatMap Call.messages).filter (Concerns user)).map fun msg =>
          (pushCopy (PushService.p2pMsgPush (now msg) msg)).map inboxRow)) ∧
    (∀ user : UInt64, (((persisted calls).userMessagesById (.int64 user.toInt64)).map message).Perm
      (((calls.flatMap Call.messages).filter (Concerns user)).map fun msg => some (inboxRow msg))) ∧
    ∀ a b : UInt64, (((persisted calls).messages
        (.string (IdGenerator.generateP2PConvId a b))).map message).Perm
      (((calls.flatMap Call.messages).filter (Between a b)).map fun msg => some (inboxRow msg)) := by
  rw [persisted_eq]
  set msgs := calls.flatMap Call.messages
  refine ⟨fun user limit n hn => ⟨inbox user msgs, ?_, ?_⟩, fun user => ?_, fun a b => ?_⟩
  · have hpos : ∀ r ∈ inbox user msgs, 1 ≤ r.msgId.toNat ∧ r.msgId.toNat ≤ 2 ^ 63 - 1 := by
      intro r hr
      obtain ⟨msg, hmsg, -, rfl⟩ := (mem_inbox_iff hids).mp hr
      exact hrange msg hmsg
    have hlen : (pending (inbox user msgs) 0).length < n := by
      rw [pending_zero hpos, (perm_inbox hids user).length_eq, List.length_map]
      exact lt_of_le_of_lt (List.length_filter_le _ _) hn
    have hread := readAll_eq (sorted_inbox user msgs)
      (fun round cursor => getMessagesForUserAfter_eq_page hids user cursor (limit round)) 0 hlen
    rw [hread, pending_zero hpos]
  · have hmap := (perm_inbox hids user).map some
    rw [List.map_map] at hmap
    exact hmap
  · have hperm := perm_of_rows (sorted_user_partition msgs user) hids
      (clusteringId_inboxStatement user) fun r => mem_user_partition hids
    have hmap := hperm.map message
    rw [List.map_map, Function.comp_def] at hmap
    simpa only [message_inboxStatement] using hmap
  · have hperm := perm_of_rows (sorted_conversation msgs (IdGenerator.generateP2PConvId a b)) hids
      clusteringId_historyStatement fun r => mem_conversation hids (a := a) (b := b)
    have hmap := hperm.map message
    rw [List.map_map, Function.comp_def] at hmap
    simpa only [message_historyStatement] using hmap

/-- A message in each direction and one of a user to themselves, in a batch and by itself. -/
def sampleCalls : List Call :=
  [.insertBatch [{ msgId := 7, senderId := 1, receiverId := 2, content := [104], timestamp := 5 },
      { msgId := 3, senderId := 2, receiverId := 1, contentType := .image, timestamp := -1 }],
    .insertMessage { msgId := 8, senderId := 18446744073709551615
                     receiverId := 18446744073709551615, clientMsgId := 9 }]

theorem persisted_copies_agree_sample :
    ∃ got, readAll (fun _ cursor =>
        (persisted sampleCalls).getMessagesForUserAfter 1 cursor 1) 4 0 0 = some got ∧
      (got.map some).Perm (((sampleCalls.flatMap Call.messages).filter (Concerns 1)).map fun msg =>
        (pushCopy (PushService.p2pMsgPush 0 msg)).map inboxRow) :=
  (persisted_copies_agree sampleCalls (fun _ => 0) (by decide)
    (by simp [sampleCalls, Call.messages])).1 1 (fun _ => 1) 4 (by decide)

end Keyspace
end TermChat
