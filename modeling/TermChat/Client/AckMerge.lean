import TermChat.Base.Absorb
import TermChat.Client.Frames
import Mathlib.Logic.Function.Basic
import Mathlib.Order.BooleanAlgebra.Basic

/-! The delivery state of the client's messages. Acks reach `MergeMessageAckLocked` on three
ways, and in any order. -/
namespace TermChat
open Proto

structure MessageDeliveryState where
  serverReceived : Bool := false
  persisted : Bool := false
  pushEnqueued : Bool := false
  delivered : Bool := false
  deriving DecidableEq, Repr

abbrev MsgStatus := UInt64 → Option MessageDeliveryState

namespace MessageDeliveryState

def merge (state : MessageDeliveryState) : MessageAckStatus → MessageDeliveryState
  | .received => { state with serverReceived := true }
  | .persisted => { state with serverReceived := true, persisted := true }
  | .enqueued => { state with serverReceived := true, pushEnqueued := true }
  | .delivered => { state with serverReceived := true, pushEnqueued := true, delivered := true }
  | _ => state

structure Le (x y : MessageDeliveryState) : Prop where
  serverReceived : x.serverReceived = true → y.serverReceived = true
  persisted : x.persisted = true → y.persisted = true
  pushEnqueued : x.pushEnqueued = true → y.pushEnqueued = true
  delivered : x.delivered = true → y.delivered = true

/-- The stages come one after the other. -/
structure Ordered (x : MessageDeliveryState) : Prop where
  delivered : x.delivered = true → x.pushEnqueued = true
  pushEnqueued : x.pushEnqueued = true → x.serverReceived = true
  persisted : x.persisted = true → x.serverReceived = true

theorem Le.refl (x : MessageDeliveryState) : Le x x := ⟨id, id, id, id⟩

theorem Le.trans {x y z : MessageDeliveryState} (hxy : Le x y) (hyz : Le y z) : Le x z where
  serverReceived := hyz.serverReceived ∘ hxy.serverReceived
  persisted := hyz.persisted ∘ hxy.persisted
  pushEnqueued := hyz.pushEnqueued ∘ hxy.pushEnqueued
  delivered := hyz.delivered ∘ hxy.delivered

/-- A status only sets flags, so two of them can be taken in any order. -/
theorem merge_absorbing : Absorb.Absorbing merge where
  comm x s s' := by cases s <;> cases s' <;> rfl
  idem x s := by cases s <;> rfl

theorem le_merge (x : MessageDeliveryState) (status : MessageAckStatus) :
    Le x (x.merge status) := by
  cases status <;> constructor <;> simp [merge]

theorem Ordered.merge {x : MessageDeliveryState} (h : x.Ordered) (status : MessageAckStatus) :
    (x.merge status).Ordered := by
  obtain ⟨hdelivered, hpush, hpersisted⟩ := h
  cases status <;> constructor <;> simp_all [MessageDeliveryState.merge]

end MessageDeliveryState

/-- How acks come to the client: in an envelope that `ListenerLoop` reads, or as the answer that
`SendP2PMessage` waits for. -/
inductive AckArrival where
  | frame (env : Envelope)
  | reply (ack : MessageAck)

namespace AckArrival

def acks : AckArrival → List MessageAck
  | .frame env =>
    match classify env with
    | .ack ack => [ack]
    | .ackBatch acks => acks
    | _ => []
  | .reply ack => [ack]

end AckArrival

namespace MsgStatus

def init : MsgStatus := fun _ => none

def mergeMessageAckLocked (m : MsgStatus) (msgId : UInt64) (status : MessageAckStatus) : MsgStatus :=
  if msgId = 0 then m
  else Function.update m msgId (some (((m msgId).getD {}).merge status))

/-- Each of the three ways tests `success` first. -/
def mergeAck (m : MsgStatus) (ack : MessageAck) : MsgStatus :=
  if ack.success then m.mergeMessageAckLocked ack.msgId ack.status else m

def arrive (m : MsgStatus) : AckArrival → MsgStatus
  | .frame env =>
    match classify env with
    | .ack ack => m.mergeAck ack
    | .ackBatch acks => acks.foldl mergeAck m
    | _ => m
  | .reply ack => m.mergeAck ack

def arriveAll (arrivals : List AckArrival) : MsgStatus := arrivals.foldl arrive init

/-- No entry is dropped, and no flag. -/
def Le (m m' : MsgStatus) : Prop := ∀ id x, m id = some x → ∃ y, m' id = some y ∧ x.Le y

def Ordered (m : MsgStatus) : Prop := ∀ id x, m id = some x → x.Ordered

theorem Le.refl (m : MsgStatus) : Le m m := fun _ x hx => ⟨x, hx, .refl x⟩

theorem Le.trans {m m' m'' : MsgStatus} (h : Le m m') (h' : Le m' m'') : Le m m'' := by
  intro id x hx
  obtain ⟨y, hy, hxy⟩ := h id x hx
  obtain ⟨z, hz, hyz⟩ := h' id y hy
  exact ⟨z, hz, hxy.trans hyz⟩

/-- The entry of a message after an ack: its own acks touch it, no others do. -/
theorem mergeAck_apply (m : MsgStatus) (ack : MessageAck) (id : UInt64) :
    m.mergeAck ack id =
      if ack.success = true ∧ ack.msgId ≠ 0 ∧ id = ack.msgId then
        some (((m id).getD {}).merge ack.status)
      else m id := by
  unfold mergeAck mergeMessageAckLocked
  by_cases hsuccess : ack.success = true
  · by_cases hzero : ack.msgId = 0
    · simp [hsuccess, hzero]
    · by_cases hid : id = ack.msgId
      · subst hid
        simp [hsuccess, hzero]
      · simp [hsuccess, hzero, hid]
  · simp [hsuccess]

theorem mergeAck_absorbing : Absorb.Absorbing mergeAck where
  comm m a b := by
    funext id
    simp only [mergeAck_apply]
    split_ifs
    · exact congrArg some (MessageDeliveryState.merge_absorbing.comm _ _ _)
    all_goals rfl
  idem m a := by
    funext id
    simp only [mergeAck_apply]
    split_ifs
    · exact congrArg some (MessageDeliveryState.merge_absorbing.idem _ _)
    · rfl

theorem le_mergeAck (m : MsgStatus) (ack : MessageAck) : Le m (m.mergeAck ack) := by
  intro id x hx
  rw [mergeAck_apply]
  split_ifs
  · exact ⟨_, rfl, by rw [hx]; exact x.le_merge ack.status⟩
  · exact ⟨x, hx, .refl x⟩

theorem Ordered.mergeAck {m : MsgStatus} (h : m.Ordered) (ack : MessageAck) :
    (m.mergeAck ack).Ordered := by
  intro id x hx
  rw [mergeAck_apply] at hx
  split_ifs at hx
  · cases hx
    apply MessageDeliveryState.Ordered.merge
    cases hm : m id with
    | none => constructor <;> simp
    | some y => exact h id y hm
  · exact h id x hx

theorem arrive_eq (m : MsgStatus) (a : AckArrival) : m.arrive a = a.acks.foldl mergeAck m := by
  cases a with
  | frame env =>
    simp only [arrive, AckArrival.acks]
    cases classify env <;> rfl
  | reply ack => rfl

theorem foldl_arrive (m : MsgStatus) (arrivals : List AckArrival) :
    arrivals.foldl arrive m = (arrivals.flatMap AckArrival.acks).foldl mergeAck m := by
  induction arrivals generalizing m with
  | nil => rfl
  | cons a arrivals ih =>
    rw [List.foldl_cons, ih, arrive_eq, List.flatMap_cons, List.foldl_append]

theorem foldl_mergeAck_filter (m : MsgStatus) (acks : List MessageAck) :
    (acks.filter (·.success)).foldl mergeAck m = acks.foldl mergeAck m := by
  induction acks generalizing m with
  | nil => rfl
  | cons ack acks ih =>
    by_cases hsuccess : ack.success = true
    · rw [List.filter_cons_of_pos hsuccess, List.foldl_cons, List.foldl_cons, ih]
    · rw [List.filter_cons_of_neg hsuccess, List.foldl_cons, ih, MsgStatus.mergeAck,
        if_neg hsuccess]

theorem le_foldl_mergeAck (m : MsgStatus) (acks : List MessageAck) :
    Le m (acks.foldl mergeAck m) := by
  induction acks generalizing m with
  | nil => exact .refl m
  | cons ack acks ih => exact (le_mergeAck m ack).trans (ih _)

theorem Ordered.foldl_mergeAck {m : MsgStatus} (h : m.Ordered) (acks : List MessageAck) :
    (acks.foldl MsgStatus.mergeAck m).Ordered := by
  induction acks generalizing m with
  | nil => exact h
  | cons ack acks ih => exact ih (h.mergeAck ack)

/-- The successful acks that have arrived decide the delivery states, whatever their order, their
number and the ways they came on; no flag is lost; and the stages of a message are in order. -/
theorem arriveAll_acks (arrivals : List AckArrival) :
    (∀ arrivals' : List AckArrival,
      (∀ ack : MessageAck, ack.success = true →
        (ack ∈ arrivals.flatMap AckArrival.acks ↔ ack ∈ arrivals'.flatMap AckArrival.acks)) →
      arriveAll arrivals' = arriveAll arrivals) ∧
    (∀ pre, pre <+: arrivals → Le (arriveAll pre) (arriveAll arrivals)) ∧
    (arriveAll arrivals).Ordered := by
  refine ⟨?_, ?_, ?_⟩
  · intro arrivals' hsame
    unfold arriveAll
    rw [foldl_arrive, foldl_arrive, ← foldl_mergeAck_filter,
      ← foldl_mergeAck_filter _ (arrivals.flatMap AckArrival.acks)]
    apply mergeAck_absorbing.foldl_congr
    intro ack
    rw [List.mem_filter, List.mem_filter]
    exact and_congr_left fun hsuccess => (hsame ack hsuccess).symm
  · rintro pre ⟨rest, rfl⟩
    unfold arriveAll
    rw [List.foldl_append, foldl_arrive _ rest]
    exact le_foldl_mergeAck _ _
  · unfold arriveAll
    rw [foldl_arrive]
    apply Ordered.foldl_mergeAck
    intro id x hx
    cases hx

/-- A delivery receipt that overtakes the answer of the server, and an answer that comes twice. -/
theorem arriveAll_acks_delivered :
    arriveAll [.reply ⟨5, 1, true, "", .persisted, 0, 0⟩, .reply ⟨5, 1, true, "", .persisted, 0, 0⟩,
        .frame { cmd := .msgAck, payload := some (.msgAck ⟨5, 0, true, "", .delivered, 0, 0⟩) }] =
      arriveAll [
        .frame { cmd := .msgAckBatch
                 payload := some (.msgAckBatch [⟨5, 0, true, "", .delivered, 0, 0⟩]) },
        .reply ⟨5, 1, true, "", .persisted, 0, 0⟩] := by
  apply (arriveAll_acks _).1
  intro ack hsuccess
  simp only [AckArrival.acks, classify, List.flatMap_cons, List.flatMap_nil, List.mem_append,
    List.mem_singleton, List.not_mem_nil, if_true]
  tauto

end MsgStatus
end TermChat
