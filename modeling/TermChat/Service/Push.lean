import TermChat.Proto.Codec
import Mathlib.Logic.Function.Basic

/-! `PushService`: the sharded registry of online connections, the push queue and the
batching of `FlushPending`. The registry is read through `findConnection` only, which
behaves as one plain map whatever the hash. -/
namespace TermChat
open Proto

/-- Identity of a `TcpConnection` object: the pointer that the registry stores. -/
abbrev ConnId := ℕ

structure PushItem where
  userId : UInt64
  data : Bytes
  deriving DecidableEq, Repr

/-- `hash` is `std::hash<uint64_t>`, which the standard leaves open. -/
structure PushService where
  hash : UInt64 → ℕ
  shards : ℕ → UInt64 → Option ConnId
  pushQueue : List PushItem

namespace PushService

def kShardCount : ℕ := 128

def kMaxBatchSize : ℕ := 1024

def init (hash : UInt64 → ℕ) : PushService := ⟨hash, fun _ _ => none, []⟩

def shardFor (p : PushService) (u : UInt64) : ℕ := p.hash u % kShardCount

def findConnection (p : PushService) (u : UInt64) : Option ConnId := p.shards (p.shardFor u) u

def addClient (p : PushService) (u : UInt64) (conn : ConnId) : PushService :=
  let i := p.shardFor u
  { p with shards := Function.update p.shards i (Function.update (p.shards i) u (some conn)) }

def removeClient (p : PushService) (u : UInt64) : PushService :=
  let i := p.shardFor u
  if (p.shards i u).isSome then
    { p with shards := Function.update p.shards i (Function.update (p.shards i) u none) }
  else p

/-- `enqueue_serialized`: only an online user's push is queued. -/
def enqueueSerialized (p : PushService) (u : UInt64) (data : Bytes) : Bool × PushService :=
  if u = 0 ∨ data = [] ∨ p.findConnection u = none then (false, p)
  else (true, { p with pushQueue := p.pushQueue ++ [⟨u, data⟩] })

section Envelopes

variable (c : Codec) (p : PushService)

def sendEnvelope (target : UInt64) (envelope : Envelope) : Bool × PushService :=
  match c.serialize envelope with
  | none => (false, p)
  | some serialized => p.enqueueSerialized target serialized

/-- The clock is read for the envelope and once more for the request in it. -/
def pushFriendReq (now now' : Int64) (reqId senderId : UInt64) (senderName : String)
    (receiverId : UInt64) (verifyMsg : String) : PushService :=
  (p.sendEnvelope c receiverId
    { cmd := .friendReqPush, timestamp := now
      payload := some (.friendReqPush
        { reqId := reqId, senderId := senderId, senderName := senderName
          verifyMsg := verifyMsg, timestamp := now' }) }).2

def pushFriendStatus (now : Int64) (senderId receiverId : UInt64) (receiverName : String)
    (action : FriendAction) : PushService :=
  (p.sendEnvelope c senderId
    { cmd := .friendStatusPush, timestamp := now
      payload := some (.friendStatusPush
        { receiverId := receiverId, receiverName := receiverName, action := action }) }).2

def p2pMsgPush (now : Int64) (msg : P2PMessage) : Envelope :=
  { cmd := .p2pMsgPush, timestamp := now, payload := some (.p2pMsgPush msg) }

def pushP2pMessage (now : Int64) (msg : P2PMessage) : Bool × PushService :=
  p.sendEnvelope c msg.receiverId (p2pMsgPush now msg)

def msgAckPush (now : Int64) (ack : MessageAck) : Envelope :=
  { cmd := .msgAck, timestamp := now, payload := some (.msgAck ack) }

def pushMessageAck (now : Int64) (userId : UInt64) (ack : MessageAck) : Bool × PushService :=
  p.sendEnvelope c userId (msgAckPush now ack)

end Envelopes

def pushBack (batches : List (ConnId × List Bytes)) (conn : ConnId) (data : Bytes) :
    List (ConnId × List Bytes) :=
  match batches with
  | [] => [(conn, [data])]
  | (c, ds) :: rest =>
    if c = conn then (c, ds ++ [data]) :: rest else (c, ds) :: pushBack rest conn data

theorem mem_pushBack {batches : List (ConnId × List Bytes)} {data : Bytes} {c d : ConnId}
    (h : d ∈ (pushBack batches c data).map Prod.fst) : d = c ∨ d ∈ batches.map Prod.fst := by
  induction batches with
  | nil =>
    rw [pushBack, List.map_singleton, List.mem_singleton] at h
    exact .inl h
  | cons batch batches ih =>
    unfold pushBack at h
    split_ifs at h with hc
    · exact .inr h
    · rw [List.map_cons, List.mem_cons] at h ⊢
      rcases h with h | h
      · exact .inr (.inl h)
      · exact (ih h).imp_right .inr

/-- The item and the connection it is handed to, for each item whose user is online. -/
def targets (p : PushService) (items : List PushItem) : List (PushItem × ConnId) :=
  items.filterMap fun item => (p.findConnection item.userId).map fun conn => (item, conn)

/-- `FlushPending`: the `enqueue_messages` calls it makes, and the service after it. -/
def flushPending (p : PushService) (maxCount : ℕ) : List (ConnId × List Bytes) × PushService :=
  let items := p.pushQueue.take maxCount
  ((p.targets items).foldl (fun b t => pushBack b t.2 t.1.data) [],
    { p with pushQueue := p.pushQueue.drop maxCount })

@[simp] theorem findConnection_init (hash : UInt64 → ℕ) (u : UInt64) :
    (init hash).findConnection u = none := rfl

theorem findConnection_write (p : PushService) (u v : UInt64) (conn : Option ConnId) :
    Function.update p.shards (p.shardFor u) (Function.update (p.shards (p.shardFor u)) u conn)
      (p.shardFor v) v = if v = u then conn else p.findConnection v := by
  simp only [findConnection]
  by_cases hv : v = u
  · subst hv
    simp
  · rw [if_neg hv]
    by_cases hs : p.shardFor v = p.shardFor u
    · simp [hs, hv]
    · simp [hs]

@[simp] theorem findConnection_addClient (p : PushService) (u v : UInt64) (c : ConnId) :
    (p.addClient u c).findConnection v = if v = u then some c else p.findConnection v := by
  exact p.findConnection_write u v (some c)

@[simp] theorem findConnection_removeClient (p : PushService) (u v : UInt64) :
    (p.removeClient u).findConnection v = if v = u then none else p.findConnection v := by
  simp only [removeClient]
  by_cases hu : (p.shards (p.shardFor u) u).isSome
  · rw [if_pos hu]
    exact p.findConnection_write u v none
  · rw [if_neg hu]
    split_ifs with hv
    · subst hv; simpa [findConnection] using hu
    · rfl

section Sending

variable (c : Codec) (p : PushService)

/-- What an envelope for a user becomes in the queue, if it is taken. -/
def pushItem (x : UInt64 × Envelope) : Option PushItem :=
  match c.serialize x.2 with
  | none => none
  | some data =>
    if x.1 = 0 ∨ data = [] ∨ p.findConnection x.1 = none then none else some ⟨x.1, data⟩

/-- The service after `send_envelope` for each of the list. -/
def sendAll (xs : List (UInt64 × Envelope)) : PushService :=
  { p with pushQueue := p.pushQueue ++ xs.filterMap (p.pushItem c) }

theorem sendEnvelope_snd (u : UInt64) (e : Envelope) :
    (p.sendEnvelope c u e).2 = p.sendAll c [(u, e)] := by
  have hnone : { p with pushQueue := p.pushQueue ++ [] } = p := by rw [List.append_nil]
  simp only [sendEnvelope, sendAll, List.filterMap_cons, List.filterMap_nil, pushItem]
  cases c.serialize e with
  | none => exact hnone.symm
  | some data =>
    simp only [enqueueSerialized]
    split_ifs
    · exact hnone.symm
    · rfl

@[simp] theorem sendAll_nil : p.sendAll c [] = p := by
  simp [sendAll]

/-- The registry stays as it is, so one list after the other is one list. -/
@[simp] theorem sendAll_sendAll (xs ys : List (UInt64 × Envelope)) :
    (p.sendAll c xs).sendAll c ys = p.sendAll c (xs ++ ys) := by
  have hitem : (p.sendAll c xs).pushItem c = p.pushItem c := rfl
  simp only [sendAll, List.filterMap_append, List.append_assoc] at hitem ⊢
  rw [hitem]

theorem foldl_sendEnvelope {α : Type} (f : α → UInt64 × Envelope) (l : List α) :
    l.foldl (fun q x => (q.sendEnvelope c (f x).1 (f x).2).2) p = p.sendAll c (l.map f) := by
  induction l generalizing p with
  | nil => rw [List.map_nil, sendAll_nil]; rfl
  | cons x l ih =>
    rw [List.foldl_cons, ih, sendEnvelope_snd, sendAll_sendAll, List.map_cons]
    rfl

variable {c p}

theorem of_pushItem {x : UInt64 × Envelope} {item : PushItem} (h : p.pushItem c x = some item) :
    item.userId = x.1 ∧ c.parse item.data = some x.2 := by
  unfold pushItem at h
  split at h
  · cases h
  · rename_i data hdata
    split_ifs at h
    cases h
    exact ⟨rfl, c.parse_serialize x.2 data hdata⟩

end Sending

theorem mem_targets {p : PushService} {items : List PushItem} {item : PushItem} {c : ConnId} :
    (item, c) ∈ p.targets items ↔ item ∈ items ∧ p.findConnection item.userId = some c := by
  simp only [targets, List.mem_filterMap, Option.map_eq_some_iff, Prod.mk.injEq]
  constructor
  · rintro ⟨i, hi, d, hd, rfl, rfl⟩; exact ⟨hi, hd⟩
  · rintro ⟨hi, hc⟩; exact ⟨item, hi, c, hc, rfl, rfl⟩

end PushService
end TermChat
