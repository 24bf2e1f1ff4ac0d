import TermChat.Proto.Messages
import TermChat.Base.Partition

/-! `MsgScyllaDao` on its tables: the dedup rows and the inbox partitions. The statements
bind 64-bit ids as `bigint`, so rows are ordered by the signed value of `message_id`. -/
namespace TermChat
open Proto

abbrev DedupKey := UInt64 × UInt64

/-- A row of `im.client_msg_dedup`, keyed by sender and client message id. -/
structure DedupRow where
  serverMsgId : UInt64
  receiverId : UInt64
  status : MessageAckStatus
  deriving DecidableEq, Repr

abbrev DedupTable := DedupKey → Option DedupRow

/-- How an insert ended. One that is reported as failed may have been applied. -/
inductive InsertOutcome where
  | ok
  | error (applied : Bool)
  deriving DecidableEq, Repr

namespace InsertOutcome

def success : InsertOutcome → Bool
  | .ok => true
  | .error _ => false

def applied : InsertOutcome → Bool
  | .ok => true
  | .error applied => applied

theorem applied_of_success {out : InsertOutcome} (h : out.success = true) : out.applied = true := by
  cases out with
  | ok => rfl
  | error applied => cases h

end InsertOutcome

namespace MsgScyllaDao

/-- `GetClientMsgDedup`, where `ok` is the outcome of the query and `none` is `found == false`. -/
def getClientMsgDedup (table : DedupTable) (senderId clientMsgId : UInt64) (ok : Bool) :
    Option DedupRow :=
  if senderId = 0 ∨ clientMsgId = 0 then none
  else if ok then table (senderId, clientMsgId)
  else none

/-- `UpsertClientMsgDedup`: the table that it leaves and what it returns. -/
def upsertClientMsgDedup (table : DedupTable)
    (senderId clientMsgId serverMsgId receiverId : UInt64) (status : MessageAckStatus)
    (out : InsertOutcome) : DedupTable × Bool :=
  if senderId = 0 ∨ clientMsgId = 0 ∨ serverMsgId = 0 then (table, false)
  else
    (if out.applied then
        Function.update table (senderId, clientMsgId) (some ⟨serverMsgId, receiverId, status⟩)
      else table, out.success)

def inboxRow (msg : P2PMessage) : P2PMessage := { msg with clientMsgId := 0 }

/-- The value of an id that is bound as a `bigint`. -/
def bigint (id : UInt64) : ℤ := id.toInt64.toInt

def messageId (msg : P2PMessage) : ℤ := bigint msg.msgId

/-- The message has a row in the inbox of `user`: as its receiver, or as its sender. -/
def Concerns (user : UInt64) (msg : P2PMessage) : Prop :=
  msg.receiverId = user ∨ msg.senderId = user

instance (user : UInt64) (msg : P2PMessage) : Decidable (Concerns user msg) :=
  inferInstanceAs (Decidable (_ ∨ _))

/-- The inserts of `InsertBatch` into the partition of `user` in `im.user_messages_by_id`. -/
def insertBatch (user : UInt64) (rows : List P2PMessage) (msgs : List P2PMessage) :
    List P2PMessage :=
  msgs.foldl
    (fun rows msg =>
      if Concerns user msg then Partition.upsert messageId (inboxRow msg) rows else rows)
    rows

/-- The partition of `user` after the inserts of `stored`. -/
def inbox (user : UInt64) (stored : List P2PMessage) : List P2PMessage := insertBatch user [] stored

structure MessagePage where
  messages : List P2PMessage := []
  nextAckMsgId : UInt64 := 0
  hasMore : Bool := false

def pageSize (limit : UInt32) : ℕ := min (max (if limit = 0 then 100 else limit.toNat) 1) 500

/-- `GetMessagesForUserAfter` on an open session; `ok` is the outcome of the query. -/
def getMessagesForUserAfter (rows : List P2PMessage) (lastAckMsgId : UInt64) (limit : UInt32)
    (ok : Bool) : MessagePage :=
  let found :=
    if ok then Partition.after messageId (bigint lastAckMsgId) (pageSize limit + 1) rows
    else []
  let messages := found.take (pageSize limit)
  { messages := messages
    nextAckMsgId := (messages.getLast?.map P2PMessage.msgId).getD lastAckMsgId
    hasMore := pageSize limit < found.length }

/-- The rows of a partition above a cursor. -/
def pending (rows : List P2PMessage) (cursor : UInt64) : List P2PMessage :=
  rows.filter fun r => bigint cursor < messageId r

theorem sorted_pending {rows : List P2PMessage} (h : Partition.Sorted messageId rows)
    (cursor : UInt64) : Partition.Sorted messageId (pending rows cursor) :=
  List.Pairwise.filter _ h

/-- A page has the first of them, and there is more if it does not have all. -/
theorem getMessagesForUserAfter_eq (rows : List P2PMessage) (cursor : UInt64) (limit : UInt32) :
    getMessagesForUserAfter rows cursor limit true =
      let page := (pending rows cursor).take (pageSize limit)
      { messages := page
        nextAckMsgId := (page.getLast?.map P2PMessage.msgId).getD cursor
        hasMore := pageSize limit < (pending rows cursor).length } := by
  have hfound : Partition.after messageId (bigint cursor) (pageSize limit + 1) rows =
      (pending rows cursor).take (pageSize limit + 1) := rfl
  have hmore : (pageSize limit < ((pending rows cursor).take (pageSize limit + 1)).length) =
      (pageSize limit < (pending rows cursor).length) := by
    rw [List.length_take, eq_iff_iff]
    omega
  simp only [getMessagesForUserAfter, if_true, hfound, hmore, List.take_take,
    Nat.min_eq_left (Nat.le_succ _)]

theorem bigint_eq (id : UInt64) :
    bigint id = if 2 * id.toNat < 2 ^ 64 then (id.toNat : ℤ) else id.toNat - 2 ^ 64 := by
  have h := BitVec.toInt_eq_toNat_cond id.toBitVec
  exact_mod_cast h

theorem bigint_nonneg {id : UInt64} (h : id.toNat < 2 ^ 63) : 0 ≤ bigint id := by
  rw [bigint_eq]
  split_ifs <;> omega

/-- Ids that are not negative as `bigint` are ordered as they are as `uint64_t`. -/
theorem le_iff_bigint_le {a b : UInt64} (ha : 0 ≤ bigint a) (hb : 0 ≤ bigint b) :
    a ≤ b ↔ bigint a ≤ bigint b := by
  have := a.toNat_lt
  have := b.toNat_lt
  rw [bigint_eq] at ha hb ⊢
  rw [bigint_eq, UInt64.le_iff_toNat_le]
  split_ifs at * <;> omega

variable {user : UInt64} {rows msgs rest : List P2PMessage} {msg : P2PMessage}

theorem insertBatch_append (user : UInt64) (rows msgs msgs' : List P2PMessage) :
    insertBatch user rows (msgs ++ msgs') = insertBatch user (insertBatch user rows msgs) msgs' :=
  List.foldl_append

theorem insertBatch_cons (user : UInt64) (rows : List P2PMessage) (msg : P2PMessage)
    (msgs : List P2PMessage) :
    insertBatch user rows (msg :: msgs) = insertBatch user (insertBatch user rows [msg]) msgs := rfl

theorem sorted_insertBatch (user : UInt64) (h : Partition.Sorted messageId rows)
    (msgs : List P2PMessage) : Partition.Sorted messageId (insertBatch user rows msgs) := by
  induction msgs generalizing rows with
  | nil => exact h
  | cons msg msgs ih =>
    rw [insertBatch_cons]
    apply ih
    simp only [insertBatch, List.foldl_cons, List.foldl_nil]
    split_ifs
    · exact h.upsert _
    · exact h

theorem sorted_inbox (user : UInt64) (stored : List P2PMessage) :
    Partition.Sorted messageId (inbox user stored) :=
  sorted_insertBatch user (Partition.sorted_nil messageId) stored

theorem mem_insertBatch {row : P2PMessage} (h : row ∈ insertBatch user rows msgs) :
    row ∈ rows ∨ ∃ msg ∈ msgs, Concerns user msg ∧ row = inboxRow msg := by
  induction msgs generalizing rows with
  | nil => exact .inl h
  | cons msg msgs ih =>
    rw [insertBatch_cons] at h
    cases ih h with
    | inr h =>
      obtain ⟨m, hm, hrow⟩ := h
      exact .inr ⟨m, List.mem_cons_of_mem msg hm, hrow⟩
    | inl h =>
      simp only [insertBatch, List.foldl_cons, List.foldl_nil] at h
      split_ifs at h with hc
      · cases Partition.mem_of_mem_upsert h with
        | inl h => exact .inr ⟨msg, List.mem_cons_self, hc, h⟩
        | inr h => exact .inl h
      · exact .inl h

/-- Messages that come in the order of their ids are appended. -/
theorem insertBatch_of_sorted (hc : ∀ m ∈ msgs, Concerns user m)
    (h : Partition.Sorted messageId (rows ++ msgs.map inboxRow)) :
    insertBatch user rows msgs = rows ++ msgs.map inboxRow := by
  induction msgs generalizing rows with
  | nil => exact (List.append_nil rows).symm
  | cons msg msgs ih =>
    have habove : ∀ r ∈ rows, messageId r < messageId (inboxRow msg) := by
      intro r hr
      exact (List.pairwise_append.mp h).2.2 r hr _ List.mem_cons_self
    have hone : insertBatch user rows [msg] = rows ++ [inboxRow msg] := by
      simp only [insertBatch, List.foldl_cons, List.foldl_nil, if_pos (hc msg List.mem_cons_self)]
      exact Partition.upsert_of_lt habove
    have hassoc : rows ++ (msg :: msgs).map inboxRow = rows ++ [inboxRow msg] ++ msgs.map inboxRow := by
      rw [List.map_cons, List.append_assoc]
      rfl
    rw [hassoc] at h ⊢
    rw [insertBatch_cons, hone, ih (fun m hm => hc m (List.mem_cons_of_mem msg hm)) h]

theorem bigint_inj {a b : UInt64} (h : bigint a = bigint b) : a = b := by
  have := a.toNat_lt
  have := b.toNat_lt
  rw [bigint_eq, bigint_eq] at h
  rw [← UInt64.toNat_inj]
  split_ifs at h <;> omega

theorem mem_insertBatch_of_ne {row : P2PMessage} (h : row ∈ rows)
    (hne : ∀ m ∈ msgs, Concerns user m → row.msgId ≠ m.msgId) : row ∈ insertBatch user rows msgs := by
  induction msgs generalizing rows with
  | nil => exact h
  | cons msg msgs ih =>
    rw [insertBatch_cons]
    apply ih
    · simp only [insertBatch, List.foldl_cons, List.foldl_nil]
      split_ifs with hc
      · apply Partition.mem_upsert_of_ne h
        intro hkey
        exact hne msg List.mem_cons_self hc (bigint_inj hkey)
      · exact h
    · exact fun m hm => hne m (List.mem_cons_of_mem msg hm)

theorem mem_insertBatch_self (hc : Concerns user msg) (rows : List P2PMessage) :
    inboxRow msg ∈ insertBatch user rows [msg] := by
  simp only [insertBatch, List.foldl_cons, List.foldl_nil, if_pos hc]
  exact Partition.mem_upsert_self messageId (inboxRow msg) rows

theorem mem_inbox {stored : List P2PMessage}
    (h : stored.Pairwise fun a b => Concerns user a → Concerns user b → a.msgId ≠ b.msgId)
    (hm : msg ∈ stored) (hc : Concerns user msg) : inboxRow msg ∈ inbox user stored := by
  obtain ⟨before, later, rfl⟩ := List.append_of_mem hm
  have hlater := (List.pairwise_cons.mp (List.pairwise_append.mp h).2.1).1
  rw [inbox, insertBatch_append, insertBatch_cons]
  apply mem_insertBatch_of_ne
  · exact mem_insertBatch_self hc _
  · exact fun m hm hcm => hlater m hm hc hcm

/-- The row of the message is there, or will come above all rows that are. -/
def Fresh (rows : List P2PMessage) (msg : P2PMessage) : Prop :=
  inboxRow msg ∈ rows ∨ ∀ r ∈ rows, messageId r < messageId msg

/-- The messages of `user` come in the order of their ids. -/
def InIdOrder (user : UInt64) (msgs : List P2PMessage) : Prop :=
  msgs.Pairwise fun a b => Concerns user a → Concerns user b → messageId a < messageId b

theorem insertBatch_one (hs : Partition.Sorted messageId rows)
    (hmsg : Concerns user msg → Fresh rows msg)
    (horder : ∀ m ∈ rest, Concerns user msg → Concerns user m → messageId msg < messageId m)
    (hrest : ∀ m ∈ rest, Concerns user m → Fresh rows m) :
    Partition.Extends messageId rows (insertBatch user rows [msg]) ∧
      ∀ m ∈ rest, Concerns user m → Fresh (insertBatch user rows [msg]) m := by
  simp only [insertBatch, List.foldl_cons, List.foldl_nil]
  split_ifs with hc
  · have hext := hs.extends_upsert (x := inboxRow msg) (hmsg hc)
    refine ⟨hext, fun m hm hcm => ?_⟩
    refine (hrest m hm hcm).imp (hext.1 _) fun habove r hr => ?_
    cases Partition.mem_of_mem_upsert hr with
    | inl hr => exact hr ▸ horder m hm hc hcm
    | inr hr => exact habove r hr
  · exact ⟨Partition.Extends.refl messageId rows, hrest⟩

/-- Inserting the first messages of a list in id order only adds rows above those that are
there, and the list stays fresh. -/
theorem insertBatch_extends (hs : Partition.Sorted messageId rows)
    (horder : InIdOrder user (msgs ++ rest))
    (hfresh : ∀ m ∈ msgs ++ rest, Concerns user m → Fresh rows m) :
    Partition.Extends messageId rows (insertBatch user rows msgs) ∧
      ∀ m ∈ msgs ++ rest, Concerns user m → Fresh (insertBatch user rows msgs) m := by
  induction msgs generalizing rows with
  | nil => exact ⟨Partition.Extends.refl messageId rows, hfresh⟩
  | cons msg msgs ih =>
    obtain ⟨hfirst, hrest⟩ := List.pairwise_cons.mp horder
    obtain ⟨hext, hfresh₁⟩ := insertBatch_one hs (hfresh msg List.mem_cons_self) hfirst
      fun m hm => hfresh m (List.mem_cons_of_mem msg hm)
    obtain ⟨hext₂, hfresh₂⟩ := ih (sorted_insertBatch user hs [msg]) hrest hfresh₁
    rw [insertBatch_cons]
    refine ⟨hext.trans hext₂, fun m hm hc => ?_⟩
    cases List.mem_cons.mp hm with
    | inr hm => exact hfresh₂ m hm hc
    | inl hm =>
      subst hm
      exact .inl (hext₂.1 _ (mem_insertBatch_self hc rows))

end MsgScyllaDao
end TermChat
