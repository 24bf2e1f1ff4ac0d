import TermChat.Core.World

/-! Delivery receipts over whole runs of the server. A receipt is checked against the user who
sends it, not against the messages that were accepted. -/
namespace TermChat
open Proto

namespace World

/-- A message of the sender to the receiver was accepted under the id. -/
def Accepted (w : World) (senderId receiverId msgId : UInt64) : Prop :=
  ∃ r ∈ w.replies, r.senderId = senderId ∧ r.receiverId = receiverId ∧ r.ack.success = true ∧
    r.ack.msgId = msgId

def IsReceipt (e : Envelope) (ack : MessageAck) : Prop :=
  e.cmd = .msgAck ∧ e.payload = some (.msgAck ack) ∧
    (ack.status = .delivered ∨ ack.status = .read)

variable (c : Codec)

/-- Every receipt that was pushed to a user is for a message of theirs. -/
def Genuine (w : World) : Prop :=
  ∀ item ∈ w.pushed, ∀ e ack, c.parse item.data = some e → IsReceipt e ack →
    w.Accepted item.userId ack.receiverId ack.msgId

/-- Each receipt of a request that gets into the queue names a message that was accepted. -/
def NamesAccepted (w : World) : Action → Prop
  | .envelope conn request env =>
    ∀ x ∈ w.receiptsOf conn request env, (w.pushService.pushItem c x).isSome →
      ∀ ack, x.2.payload = some (.msgAck ack) → w.Accepted x.1 ack.receiverId ack.msgId
  | _ => True

variable {c} {createToken : UInt64 → String → String} {persistedAck : Bool} {w u t : World}
  {conn : ConnId} {request : Envelope} {env : RequestEnv}

theorem Accepted.mono {senderId receiverId msgId : UInt64} (h : w.Accepted senderId receiverId msgId)
    (hsub : w.replies ⊆ t.replies) : t.Accepted senderId receiverId msgId := by
  obtain ⟨r, hr, heq⟩ := h
  exact ⟨r, hsub hr, heq⟩

theorem Genuine.append_iff (hw : Genuine c w) (hsub : w.replies ⊆ t.replies)
    {xs : List (UInt64 × Envelope)}
    (ht : t.pushed = w.pushed ++ xs.filterMap (w.pushService.pushItem c)) :
    Genuine c t ↔ ∀ x ∈ xs, (w.pushService.pushItem c x).isSome → ∀ ack, IsReceipt x.2 ack →
      t.Accepted x.1 ack.receiverId ack.msgId := by
  constructor
  · intro h x hx hsome ack hack
    obtain ⟨item, hitem⟩ := Option.isSome_iff_exists.mp hsome
    obtain ⟨huser, hparse⟩ := PushService.of_pushItem hitem
    have hmem : item ∈ t.pushed := by
      rw [ht]
      exact List.mem_append_right _ (List.mem_filterMap.mpr ⟨x, hx, hitem⟩)
    rw [← huser]
    exact h item hmem x.2 ack hparse hack
  · intro h item hitem e ack hparse hack
    rw [ht, List.mem_append] at hitem
    rcases hitem with hitem | hitem
    · exact (hw item hitem e ack hparse hack).mono hsub
    · obtain ⟨x, hx, hpush⟩ := List.mem_filterMap.mp hitem
      obtain ⟨huser, hparse'⟩ := PushService.of_pushItem hpush
      obtain rfl : x.2 = e := Option.some.inj (hparse'.symm.trans hparse)
      rw [huser]
      exact h x hx (by rw [hpush]; rfl) ack hack

theorem Genuine.append (hw : Genuine c w) (hsub : w.replies ⊆ t.replies)
    {xs : List (UInt64 × Envelope)}
    (ht : t.pushed = w.pushed ++ xs.filterMap (w.pushService.pushItem c))
    (hxs : ∀ x ∈ xs, ∀ ack, ¬ IsReceipt x.2 ack) : Genuine c t :=
  (hw.append_iff hsub ht).mpr fun x hx _ ack hack => absurd hack (hxs x hx ack)

variable (w c createToken conn request env) in
theorem respond_receipts :
    w.receiptsOf conn request env = [] ∨
      (ProtobufHandler.respond (services c createToken conn env) request w).2 =
        w.setPush (w.pushService.sendAll c (w.receiptsOf conn request env)) := by
  by_cases hauth : w.userIdOf conn = 0
  · left
    rw [receiptsOf, if_pos hauth]
  · unfold receiptsOf
    rw [if_neg hauth]
    split
    · rename_i ack hcmd hpayload
      right
      refine (ProtobufHandler.dispatch_msgAck _ hauth hcmd hpayload).trans ?_
      exact congrArg w.setPush
        (MsgService.acknowledgeMessageBatch_snd c env.clock (w.userIdOf conn) [ack] w.pushService)
    · rename_i acks hcmd hpayload
      right
      refine (ProtobufHandler.dispatch_msgAckBatch _ hauth hcmd hpayload).trans ?_
      exact congrArg w.setPush
        (MsgService.acknowledgeMessageBatch_snd c env.clock (w.userIdOf conn) acks w.pushService)
    · exact .inl rfl

theorem replies_subset (h : ProtobufHandler.Effect (services c createToken conn env) request w u) :
    w.replies ⊆ u.replies := by
  rcases effect_messages h with ⟨-, heq⟩ | ⟨-, req, -, rfl⟩
  · rw [heq]
    exact fun _ hr => hr
  · exact List.subset_append_left _ _

theorem msgAck_inj {payload : Option Payload} {a b : MessageAck} (ha : payload = some (.msgAck a))
    (hb : payload = some (.msgAck b)) : a = b := by
  cases ha.symm.trans hb
  rfl

theorem isReceipt_of_mem {x : UInt64 × Envelope} (h : x ∈ w.receiptsOf conn request env)
    {ack : MessageAck} (hack : x.2.payload = some (.msgAck ack)) : IsReceipt x.2 ack := by
  obtain ⟨req, hpass, -, hcmd, hpayload⟩ := of_mem_receiptsOf h
  obtain rfl : ack = MsgService.receipt req := msgAck_inj hack hpayload
  exact ⟨hcmd, hack, hpass.2.2.2.2⟩

/-- Nothing but its receipts makes a request push a receipt. -/
theorem Origin.not_isReceipt {x : UInt64 × Envelope} (h : Origin w conn request env u x)
    (hnone : w.receiptsOf conn request env = []) (ack : MessageAck) : ¬ IsReceipt x.2 ack := by
  rintro ⟨hc, hp, -⟩
  cases h with
  | friendReq _ m hcmd => exact absurd (hcmd.symm.trans hc) nofun
  | friendStatus _ m hcmd => exact absurd (hcmd.symm.trans hc) nofun
  | message m => cases hc
  | receipt _ hx =>
    rw [hnone] at hx
    cases hx

theorem envelope_genuine_iff (hw : Genuine c w)
    (h : step c createToken persistedAck w (.envelope conn request env) = some t) :
    Genuine c t ↔ NamesAccepted c w (.envelope conn request env) := by
  obtain ⟨u, heff, hu, rfl, -⟩ := step_envelope h
  have hrep : w.replies ⊆ (w.logPushes u).replies := fun _ hr => replies_subset heff hr
  rcases w.respond_receipts c createToken conn request env with hnone | hall
  · have hC : NamesAccepted c w (.envelope conn request env) := by
      intro x hx
      rw [hnone] at hx
      cases hx
    obtain ⟨xs, hsends, horigin⟩ := effect_sends heff
    have ht : Genuine c (w.logPushes u) := hw.append hrep hsends.logPushes
      fun x hx => (horigin x hx).not_isReceipt hnone
    exact iff_of_true ht hC
  · rw [← hu] at hall
    have hsends : Sends c w u (w.receiptsOf conn request env) := by
      rw [hall]
      exact ⟨rfl, rfl⟩
    rw [hw.append_iff hrep hsends.logPushes]
    have hsame : ∀ a b m, (w.logPushes u).Accepted a b m ↔ w.Accepted a b m := by
      intro a b m
      rw [hall]
      rfl
    simp only [hsame, NamesAccepted]
    constructor
    · intro h x hx hsome ack hack
      exact h x hx hsome ack (isReceipt_of_mem hx hack)
    · intro h x hx hsome ack hack
      exact h x hx hsome ack hack.2.1

theorem task_genuine {i : ℕ} {ok : Bool} {clock : ℕ → Int64} (hw : Genuine c w)
    (h : step c createToken persistedAck w (.task i ok clock) = some t) : Genuine c t := by
  obtain ⟨userId, -, rfl⟩ := Option.map_eq_some_iff.mp h
  obtain ⟨xs, hsends, hkind⟩ := w.pushPending_sends c ok clock userId (w.tasks.eraseIdx i)
  refine hw.append (fun _ hr => hr) hsends.logPushes ?_
  intro x hx ack hack
  obtain ⟨m, hcmd, -⟩ := hkind x hx
  cases hcmd.symm.trans hack.1

/-- The acks of the writer say that a message is persisted, which no receipt says. -/
theorem work_genuine {out : InsertOutcome} {now : ℕ} {clock : Int64} (hw : Genuine c w)
    (h : step c createToken persistedAck w (.work out now clock) = some t) : Genuine c t := by
  obtain rfl := Option.some.inj h
  obtain ⟨xs, hsends, hkind⟩ := w.pushPersisted_sends c persistedAck clock (w.messages.work out now)
  have hrep : w.replies ⊆ (w.logPushes { pushPersisted c persistedAck clock w with
      messages := w.messages.work out now }).replies :=
    fun _ hr => (w.pushPersisted_same c persistedAck clock).2.2.2.symm ▸ hr
  refine hw.append hrep hsends.logPushes ?_
  intro x hx ack hack
  obtain ⟨ack', -, hpayload, hst⟩ := hkind x hx
  obtain rfl : ack = ack' := msgAck_inj hack.2.1 hpayload
  rcases hack.2.2 with hst' | hst'
  · cases hst.symm.trans hst'
  · cases hst.symm.trans hst'

/-- Without the connection nobody is logged in on it. -/
theorem namesAccepted_of_disabled {a : Action} (h : step c createToken persistedAck w a = none) :
    NamesAccepted c w a := by
  cases a with
  | envelope conn request env =>
    have hconn : w.sessions.conns[conn]? = none := Option.map_eq_none_iff.mp h
    have huser : w.userIdOf conn = 0 := by
      rw [userIdOf, hconn]
      rfl
    intro x hx
    rw [receiptsOf, if_pos huser] at hx
    cases hx
  | _ => trivial

variable (c createToken persistedAck) in
/-- In a run of the server every receipt that is pushed is for a message of the user it is
pushed to, exactly when every receipt that is sent in names such a message. -/
theorem receipts_genuine_iff (hash : UInt64 → ℕ) (mode : DedupMode) (users : Users)
    (friends : FriendTable) (dedup : DedupTable) (stored : List P2PMessage) (as : List Action) :
    Steps.Along (step c createToken persistedAck) (Genuine c)
        (init hash mode users friends dedup stored) as ↔
      Steps.Meets (step c createToken persistedAck) (NamesAccepted c)
        (init hash mode users friends dedup stored) as := by
  apply Steps.along_iff_meets (I := fun _ => True)
  · intro w a t _ _
    trivial
  · intro w a t _ hw h
    cases a with
    | envelope conn request env => exact envelope_genuine_iff hw h
    | accept =>
      obtain rfl := Option.some.inj h
      exact iff_of_true hw trivial
    | close conn =>
      obtain ⟨s, -, rfl⟩ := Option.map_eq_some_iff.mp h
      exact iff_of_true hw trivial
    | flush maxCount =>
      obtain rfl := Option.some.inj h
      exact iff_of_true hw trivial
    | task i ok clock => exact iff_of_true (task_genuine hw h) trivial
    | work out now clock => exact iff_of_true (work_genuine hw h) trivial
  · exact fun w a h => namesAccepted_of_disabled h
  · trivial
  · exact nofun

/-- A receipt that bob, user 2, makes up for a message 77 of ann, user 1. -/
def madeUp : MessageAck := { msgId := 77, senderId := 1, receiverId := 2, status := .read }

/-- The wire bytes of the push for `madeUp`: fields 2 and 302 of the envelope. -/
def madeUpCodec : Codec :=
  .ofTable
    [(PushService.msgAckPush 0 (MsgService.receipt madeUp),
      [0x10, 52, 0xF2, 0x12, 10, 0x08, 77, 0x18, 1, 0x28, 5, 0x30, 1, 0x38, 2])]
    (by decide)

/-- Ann is told that bob has read a message, and no message was ever sent. -/
theorem made_up_receipt_pushed :
    ∃ s, Steps.run (step madeUpCodec (fun _ _ => "") false) annAndBob
        [.accept, .accept, logIn 0 "ann" "a", logIn 1 "bob" "b",
          .envelope 1 { cmd := .msgAck, payload := some (.msgAck madeUp) } {}] = some s ∧
      (∃ item ∈ s.pushed, item.userId = 1 ∧ ∃ e ∈ madeUpCodec.parse item.data,
        e.payload = some (.msgAck { madeUp with success := true })) ∧
      s.replies = [] :=
  ⟨_, rfl, by decide, rfl⟩

end World
end TermChat
