import TermChat.Service.Push

/-! `MsgService::acknowledge_message`: a receipt goes to the user it names as the sender, after
checks on the receipt alone. -/
namespace TermChat
open Proto

namespace MsgService

variable (c : Codec)

/-- The answer to a receipt that passes the checks, which is also what is pushed. -/
def receipt (req : MessageAck) : MessageAck :=
  { msgId := req.msgId, success := true, status := req.status
    senderId := req.senderId, receiverId := req.receiverId }

def acknowledgeMessage (now : Int64) (currentUserId : UInt64) (req : MessageAck) (p : PushService) :
    MessageAck × PushService :=
  if req.msgId = 0 ∨ req.senderId = 0 ∨ req.receiverId = 0 then
    ({ errorMsg := "Invalid message ack payload" }, p)
  else if currentUserId ≠ req.receiverId then
    ({ errorMsg := "Message ack receiver does not match current user" }, p)
  else if req.status ≠ .delivered ∧ req.status ≠ .read then
    ({ errorMsg := "Unsupported message ack status" }, p)
  else (receipt req, (p.pushMessageAck c now req.senderId (receipt req)).2)

/-- The receipts of a batch in order; the clock is read for each of them. -/
def acknowledgeMessageBatch (clock : ℕ → Int64) (currentUserId : UInt64) :
    List MessageAck → PushService → List MessageAck × PushService
  | [], p => ([], p)
  | req :: reqs, p =>
    let r := acknowledgeMessage c (clock 0) currentUserId req p
    let rs := acknowledgeMessageBatch (fun i => clock (i + 1)) currentUserId reqs r.2
    (r.1 :: rs.1, rs.2)

def Passes (currentUserId : UInt64) (req : MessageAck) : Prop :=
  req.msgId ≠ 0 ∧ req.senderId ≠ 0 ∧ req.receiverId ≠ 0 ∧ currentUserId = req.receiverId ∧
    (req.status = .delivered ∨ req.status = .read)

instance (currentUserId : UInt64) (req : MessageAck) : Decidable (Passes currentUserId req) :=
  inferInstanceAs (Decidable (_ ∧ _))

/-- The envelopes of a batch for the users its receipts name. -/
def receipts (clock : ℕ → Int64) (currentUserId : UInt64) : List MessageAck → List (UInt64 × Envelope)
  | [] => []
  | req :: reqs =>
    (if Passes currentUserId req then
      [(req.senderId, PushService.msgAckPush (clock 0) (receipt req))] else []) ++
    receipts (fun i => clock (i + 1)) currentUserId reqs

theorem acknowledgeMessage_snd (now : Int64) (currentUserId : UInt64) (req : MessageAck)
    (p : PushService) :
    (acknowledgeMessage c now currentUserId req p).2 =
      p.sendAll c (if Passes currentUserId req then
        [(req.senderId, PushService.msgAckPush now (receipt req))] else []) := by
  by_cases hpass : Passes currentUserId req
  · obtain ⟨hm, hs, hr, hu, hst⟩ := id hpass
    have hzero : ¬ (req.msgId = 0 ∨ req.senderId = 0 ∨ req.receiverId = 0) := by simp [hm, hs, hr]
    have hstatus : ¬ (req.status ≠ .delivered ∧ req.status ≠ .read) := by tauto
    rw [acknowledgeMessage, if_neg hzero, if_neg (not_not.mpr hu), if_neg hstatus, if_pos hpass]
    exact p.sendEnvelope_snd c _ _
  · rw [if_neg hpass, PushService.sendAll_nil]
    unfold acknowledgeMessage
    split_ifs with hzero huser hstatus
    · rfl
    · rfl
    · rfl
    · refine absurd ?_ hpass
      simp only [not_or] at hzero
      exact ⟨hzero.1, hzero.2.1, hzero.2.2, not_not.mp huser, by tauto⟩

theorem acknowledgeMessageBatch_snd (clock : ℕ → Int64) (currentUserId : UInt64)
    (reqs : List MessageAck) (p : PushService) :
    (acknowledgeMessageBatch c clock currentUserId reqs p).2 =
      p.sendAll c (receipts clock currentUserId reqs) := by
  induction reqs generalizing clock p with
  | nil => rw [receipts, PushService.sendAll_nil]; rfl
  | cons req reqs ih =>
    rw [acknowledgeMessageBatch, ih, acknowledgeMessage_snd, PushService.sendAll_sendAll, receipts]

theorem mem_receipts {clock : ℕ → Int64} {currentUserId : UInt64} {reqs : List MessageAck}
    {x : UInt64 × Envelope} (h : x ∈ receipts clock currentUserId reqs) :
    ∃ req ∈ reqs, Passes currentUserId req ∧ x.1 = req.senderId ∧ x.2.cmd = .msgAck ∧
      x.2.payload = some (.msgAck (receipt req)) := by
  induction reqs generalizing clock with
  | nil => cases h
  | cons req reqs ih =>
    rw [receipts, List.mem_append] at h
    rcases h with h | h
    · split_ifs at h with hpass
      · rw [List.mem_singleton.mp h]
        exact ⟨req, List.mem_cons_self, hpass, rfl, rfl, rfl⟩
      · cases h
    · obtain ⟨r, hr, hx⟩ := ih h
      exact ⟨r, List.mem_cons_of_mem _ hr, hx⟩

end MsgService
end TermChat
