import TermChat.Base.Framing
import TermChat.Service.Push
import Mathlib.Data.List.Perm.Basic

/-! The push queue emptied by `FlushPending`, batch by batch. The items of a batch are grouped by
connection, and the groups are handed over in the order of an unordered map. -/
namespace TermChat
open Framing

/-- What `batches` holds: the messages for each connection. -/
abbrev Batches := List (ConnId × List Bytes)

/-- The service and the `outgoing_queue_` of each connection. -/
structure Flushing where
  service : PushService
  outgoingQueue : ConnId → List Bytes

namespace TcpConnection

/-- What `enqueue_messages` adds to `outgoing_queue_`. -/
def enqueueMessages (queue messages : List Bytes) : List Bytes :=
  messages.foldl (fun queue data => if data = [] then queue else queue ++ [frame data]) queue

theorem enqueueMessages_eq (queue : List Bytes) {messages : List Bytes}
    (h : ∀ data ∈ messages, data ≠ []) :
    enqueueMessages queue messages = queue ++ messages.map frame := by
  induction messages generalizing queue with
  | nil => exact (List.append_nil queue).symm
  | cons data messages ih =>
    obtain ⟨hdata, hrest⟩ := List.forall_mem_cons.mp h
    have hstep : enqueueMessages queue (data :: messages) =
        enqueueMessages (queue ++ [frame data]) messages := by
      unfold enqueueMessages
      rw [List.foldl_cons, if_neg hdata]
    rw [hstep, ih _ hrest, List.map_cons, List.append_assoc, List.singleton_append]

end TcpConnection

namespace Flushing

/-- One `FlushPending`. `visit` is the order in which the loop over the map comes to its
entries. -/
def flushPending (s : Flushing) (maxCount : ℕ) (visit : Batches → Batches) : Flushing :=
  { service := (s.service.flushPending maxCount).2
    outgoingQueue := (visit (s.service.flushPending maxCount).1).foldl
      (fun queues batch =>
        Function.update queues batch.1 (TcpConnection.enqueueMessages (queues batch.1) batch.2))
      s.outgoingQueue }

/-- A call of `FlushPending`: its argument and the order it comes to. -/
structure Call where
  maxCount : ℕ
  visit : Batches → Batches
  perm : ∀ batches, (visit batches).Perm batches

def flushAll (s : Flushing) (calls : List Call) : Flushing :=
  calls.foldl (fun s call => s.flushPending call.maxCount call.visit) s

def messagesFor (batches : Batches) (c : ConnId) : List Bytes :=
  (batches.filter fun batch => batch.1 = c).flatMap Prod.snd

def itemsFor (p : PushService) (c : ConnId) (items : List PushItem) : List PushItem :=
  items.filter fun item => p.findConnection item.userId = some c

variable {batches : Batches} {c : ConnId}

private theorem nodup_pushBack (h : (batches.map Prod.fst).Nodup) (conn : ConnId) (data : Bytes) :
    ((PushService.pushBack batches conn data).map Prod.fst).Nodup := by
  induction batches with
  | nil => exact List.nodup_singleton conn
  | cons batch batches ih =>
    rw [List.map_cons, List.nodup_cons] at h
    unfold PushService.pushBack
    split_ifs with hc
    · exact List.nodup_cons.mpr h
    · rw [List.map_cons, List.nodup_cons]
      refine ⟨fun hmem => ?_, ih h.2⟩
      rcases PushService.mem_pushBack hmem with heq | hmem
      · exact hc heq
      · exact h.1 hmem

theorem messagesFor_of_notMem (h : c ∉ batches.map Prod.fst) : messagesFor batches c = [] := by
  have hnone : (batches.filter fun batch => batch.1 = c) = [] := by
    apply List.filter_eq_nil_iff.mpr
    intro batch hb heq
    exact h (of_decide_eq_true heq ▸ List.mem_map_of_mem hb)
  unfold messagesFor
  rw [hnone]
  rfl

theorem messagesFor_cons (batch : ConnId × List Bytes) :
    messagesFor (batch :: batches) c =
      (if batch.1 = c then batch.2 else []) ++ messagesFor batches c := by
  unfold messagesFor
  by_cases hc : batch.1 = c <;> simp [hc]

/-- An entry grows at its end, so the messages of a connection stay in order. -/
theorem messagesFor_pushBack (h : (batches.map Prod.fst).Nodup) (conn : ConnId) (data : Bytes) :
    messagesFor (PushService.pushBack batches conn data) c =
      messagesFor batches c ++ if conn = c then [data] else [] := by
  induction batches with
  | nil =>
    rw [PushService.pushBack, messagesFor_cons]
    exact List.append_nil _
  | cons batch batches ih =>
    rw [List.map_cons, List.nodup_cons] at h
    unfold PushService.pushBack
    split_ifs with hbatch hc hc
    · -- the entry of the connection itself; there is no other
      subst hc
      have hnone : messagesFor batches conn = [] := messagesFor_of_notMem (hbatch ▸ h.1)
      simp [messagesFor_cons, hbatch, hnone]
    · have hne : batch.1 ≠ c := fun heq => hc (hbatch ▸ heq)
      simp [messagesFor_cons, hne]
    · rw [messagesFor_cons, messagesFor_cons, ih h.2, if_pos hc, List.append_assoc]
    · rw [messagesFor_cons, messagesFor_cons, ih h.2, if_neg hc, List.append_assoc]

private theorem foldl_pushBack (targets : List (PushItem × ConnId)) (h : (batches.map Prod.fst).Nodup) :
    let grouped := targets.foldl (fun b t => PushService.pushBack b t.2 t.1.data) batches
    (grouped.map Prod.fst).Nodup ∧
      messagesFor grouped c = messagesFor batches c ++
        (targets.filter fun t => t.2 = c).map fun t => t.1.data := by
  induction targets generalizing batches with
  | nil => exact ⟨h, (List.append_nil _).symm⟩
  | cons t targets ih =>
    obtain ⟨hnodup, hmessages⟩ := ih (nodup_pushBack h t.2 t.1.data)
    refine ⟨hnodup, hmessages.trans ?_⟩
    rw [messagesFor_pushBack h]
    by_cases hc : t.2 = c <;> simp [hc]

/-- The groups of a batch: the messages of a connection are those of its items, in order. -/
theorem messagesFor_flushPending (p : PushService) (maxCount : ℕ) (c : ConnId) :
    (((p.flushPending maxCount).1).map Prod.fst).Nodup ∧
      messagesFor (p.flushPending maxCount).1 c =
        (itemsFor p c (p.pushQueue.take maxCount)).map PushItem.data := by
  have hnil : (([] : Batches).map Prod.fst).Nodup := List.nodup_nil
  obtain ⟨hnodup, hmessages⟩ :=
    foldl_pushBack (c := c) (p.targets (p.pushQueue.take maxCount)) hnil
  refine ⟨hnodup, hmessages.trans ?_⟩
  generalize p.pushQueue.take maxCount = items
  induction items with
  | nil => rfl
  | cons item items ih =>
    simp only [PushService.targets, itemsFor] at ih ⊢
    cases hfind : p.findConnection item.userId with
    | none => simpa [hfind] using ih
    | some conn =>
      by_cases hc : conn = c
      · simpa [hfind, hc, messagesFor] using ih
      · simpa [hfind, hc, messagesFor] using ih

/-- The order of the map does not matter, because it has one entry for a connection. -/
theorem messagesFor_perm {visited : Batches} (h : (batches.map Prod.fst).Nodup)
    (hperm : visited.Perm batches) : messagesFor visited c = messagesFor batches c := by
  have hfilter : (visited.filter fun batch => batch.1 = c).Perm
      (batches.filter fun batch => batch.1 = c) := hperm.filter _
  have heq : (visited.filter fun batch => batch.1 = c) =
      batches.filter fun batch => batch.1 = c := by
    have hkeys : ((batches.filter fun batch => batch.1 = c).map Prod.fst).Nodup :=
      h.sublist (List.filter_sublist.map _)
    have hall : ∀ batch ∈ batches.filter fun batch => batch.1 = c, batch.1 = c :=
      fun batch hb => of_decide_eq_true (List.mem_filter.mp hb).2
    cases hgroup : batches.filter fun batch => batch.1 = c with
    | nil => exact (hgroup ▸ hfilter).eq_nil
    | cons batch rest =>
      cases rest with
      | nil => exact (hgroup ▸ hfilter).eq_singleton
      | cons batch' rest =>
        rw [hgroup] at hkeys hall
        have hsame : batch.1 = batch'.1 :=
          (hall batch List.mem_cons_self).trans (hall batch' (by simp)).symm
        simp [hsame] at hkeys
  unfold messagesFor
  rw [heq]

theorem foldl_enqueueMessages (queues : ConnId → List Bytes)
    (h : ∀ batch ∈ batches, ∀ data ∈ batch.2, data ≠ []) (c : ConnId) :
    (batches.foldl (fun queues batch =>
      Function.update queues batch.1 (TcpConnection.enqueueMessages (queues batch.1) batch.2))
      queues) c = queues c ++ (messagesFor batches c).map frame := by
  induction batches generalizing queues with
  | nil => exact (List.append_nil _).symm
  | cons batch batches ih =>
    obtain ⟨hbatch, hrest⟩ := List.forall_mem_cons.mp h
    rw [List.foldl_cons, ih _ hrest, messagesFor_cons, TcpConnection.enqueueMessages_eq _ hbatch]
    by_cases hc : c = batch.1
    · subst hc
      simp
    · simp [hc, Ne.symm hc]

theorem mem_messagesFor {batch : ConnId × List Bytes} {data : Bytes} (hb : batch ∈ batches)
    (hd : data ∈ batch.2) : data ∈ messagesFor batches batch.1 := by
  unfold messagesFor
  rw [List.mem_flatMap]
  exact ⟨batch, List.mem_filter.mpr ⟨hb, decide_eq_true rfl⟩, hd⟩

/-- One call: each connection gets the frames of its items among the first `maxCount`. -/
theorem flushPending_outgoingQueue (s : Flushing) (call : Call)
    (h : ∀ item ∈ s.service.pushQueue, item.data ≠ []) (c : ConnId) :
    (s.flushPending call.maxCount call.visit).outgoingQueue c = s.outgoingQueue c ++
      (itemsFor s.service c (s.service.pushQueue.take call.maxCount)).map
        fun item => frame item.data := by
  have hdata : ∀ batch ∈ call.visit (s.service.flushPending call.maxCount).1,
      ∀ data ∈ batch.2, data ≠ [] := by
    intro batch hb data hd
    have hmem := mem_messagesFor ((call.perm _).mem_iff.mp hb) hd
    rw [(messagesFor_flushPending s.service call.maxCount batch.1).2] at hmem
    obtain ⟨item, hitem, rfl⟩ := List.mem_map.mp hmem
    exact h item (List.mem_of_mem_take (List.mem_of_mem_filter hitem))
  obtain ⟨hnodup, hmessages⟩ := messagesFor_flushPending s.service call.maxCount c
  refine (foldl_enqueueMessages s.outgoingQueue hdata c).trans ?_
  rw [messagesFor_perm hnodup (call.perm _), hmessages, List.map_map]
  rfl

/-- Whatever the batch sizes and the orders of the map: the calls together take the first items
off the queue, one for each unit of size, and each connection gets the frames of its items among
them, in queue order. -/
theorem flushAll_outgoingQueue (s : Flushing) (calls : List Call)
    (h : ∀ item ∈ s.service.pushQueue, item.data ≠ []) :
    (s.flushAll calls).service =
        { s.service with pushQueue := s.service.pushQueue.drop (calls.map Call.maxCount).sum } ∧
      ∀ c, (s.flushAll calls).outgoingQueue c = s.outgoingQueue c ++
        (itemsFor s.service c (s.service.pushQueue.take (calls.map Call.maxCount).sum)).map
          fun item => frame item.data := by
  induction calls generalizing s with
  | nil => exact ⟨rfl, fun c => (List.append_nil _).symm⟩
  | cons call calls ih =>
    have hrest : ∀ item ∈ (s.flushPending call.maxCount call.visit).service.pushQueue,
        item.data ≠ [] := fun item hitem => h item (List.mem_of_mem_drop hitem)
    obtain ⟨hservice, hqueue⟩ := ih (s.flushPending call.maxCount call.visit) hrest
    rw [List.map_cons, List.sum_cons]
    constructor
    · rw [← List.drop_drop]
      exact hservice
    · intro c
      refine (hqueue c).trans ?_
      have hitems : itemsFor (s.flushPending call.maxCount call.visit).service c
          ((s.flushPending call.maxCount call.visit).service.pushQueue.take
            (calls.map Call.maxCount).sum) =
          itemsFor s.service c
            ((s.service.pushQueue.drop call.maxCount).take (calls.map Call.maxCount).sum) := rfl
      rw [flushPending_outgoingQueue s call h c, hitems, List.append_assoc, ← List.map_append, itemsFor,
        itemsFor, ← List.filter_append, List.take_add]
      rfl

/-- When the calls have emptied the queue, each connection has got the frames of all its items,
each once and in queue order, and nothing else; a frame tells the length of its data. Nothing of
this depends on the sizes of the batches. -/
theorem flushed_frames (s : Flushing) (calls : List Call)
    (h : ∀ item ∈ s.service.pushQueue, item.data ≠ [] ∧ item.data.length < 2 ^ 32)
    (hempty : (s.flushAll calls).service.pushQueue = []) :
    (∀ c, (s.flushAll calls).outgoingQueue c = s.outgoingQueue c ++
      (s.service.pushQueue.filter fun item => s.service.findConnection item.userId = some c).map
        fun item => be32 item.data.length ++ item.data) ∧
      ∀ item ∈ s.service.pushQueue, beNat (be32 item.data.length) = item.data.length := by
  obtain ⟨hservice, hqueue⟩ := flushAll_outgoingQueue s calls fun item hitem => (h item hitem).1
  have hlen : s.service.pushQueue.length ≤ (calls.map Call.maxCount).sum := by
    rw [hservice] at hempty
    exact List.drop_eq_nil_iff.mp hempty
  constructor
  · intro c
    rw [hqueue c, List.take_of_length_le hlen]
    rfl
  · exact fun item hitem => beNat_be32_of_lt (h item hitem).2

/-- Two users on connection 4 and one who is offline, in batches of two, one visited backwards. -/
theorem flushed_frames_three :
    (Flushing.flushAll
      ⟨{ ((PushService.init fun _ => 0).addClient 1 4).addClient 2 4 with
          pushQueue := [⟨1, [7]⟩, ⟨3, [8]⟩, ⟨2, [9]⟩] }, fun _ => []⟩
      [⟨2, List.reverse, List.reverse_perm⟩, ⟨2, id, List.Perm.refl⟩]).outgoingQueue 4 =
      [[0, 0, 0, 1, 7], [0, 0, 0, 1, 9]] := by
  have hflushed := (flushed_frames
    ⟨{ ((PushService.init fun _ => 0).addClient 1 4).addClient 2 4 with
        pushQueue := [⟨1, [7]⟩, ⟨3, [8]⟩, ⟨2, [9]⟩] }, fun _ => []⟩
    [⟨2, List.reverse, List.reverse_perm⟩, ⟨2, id, List.Perm.refl⟩] (by decide) rfl).1 4
  rw [hflushed]
  decide

end Flushing
end TermChat
