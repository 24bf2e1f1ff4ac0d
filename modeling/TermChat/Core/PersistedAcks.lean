import TermChat.Core.World
import TermChat.Service.Persisted

/-! Acks with the status `ACK_STATUS_PERSISTED` over whole runs of the server: the answers to sends,
and what is pushed to users. -/
namespace TermChat
open Proto

namespace MsgService

variable {s : MsgService} {senderId : UInt64} {req : P2PMessage} {env : Send.Pc → Env}

theorem Honest.call (h : s.Honest) (senderId : UInt64) (req : P2PMessage) (env : Send.Pc → Env) :
    (s.call senderId req env).Honest := by
  have hstart := h.send senderId req
  unfold MsgService.call
  dsimp only
  cases (s.sendP2pMessage senderId req).2 with
  | none => exact hstart
  | some c => exact Threads.finish_keeps _ (fun s c hs => hs.advance c (env c.pc)) 8 c hstart

theorem Outcome.answers_eq {t : MsgService} {ack : MessageAck}
    (h : s.Outcome senderId req env t ack) : ∃ fromDedup,
      t.answers = s.answers ++ [⟨(senderId, req.clientMsgId), ack, fromDedup⟩] := by
  cases h <;> exact ⟨_, rfl⟩

theorem stored_call (s : MsgService) (senderId : UInt64) (req : P2PMessage)
    (env : Send.Pc → Env) : (s.call senderId req env).stored = s.stored := by
  obtain ⟨ack, hout⟩ := s.call_outcome senderId req env
  generalize s.call senderId req env = t at hout
  cases hout <;> rfl

theorem Honest.reply (h : s.Honest) {r : Reply} (hr : r ∈ s.replies senderId req env)
    (hstatus : r.ack.status = .persisted) :
    ∃ m ∈ s.stored, m.senderId = r.senderId ∧ m.msgId = r.ack.msgId := by
  obtain ⟨ack, hout⟩ := s.call_outcome senderId req env
  rw [hout.replies_eq] at hr
  obtain rfl := List.mem_singleton.mp hr
  obtain ⟨fromDedup, hanswers⟩ := hout.answers_eq
  have hmem : ⟨(senderId, req.clientMsgId), ack, fromDedup⟩ ∈ (s.call senderId req env).answers := by
    rw [hanswers]
    exact List.mem_append_right _ List.mem_cons_self
  obtain ⟨m, hm, hkey, hid⟩ := (h.call senderId req env).answer _ hmem hstatus
  rw [stored_call] at hm
  exact ⟨m, hm, congrArg Prod.fst hkey, hid⟩

end MsgService

namespace World

def HasStored (w : World) (senderId msgId : UInt64) : Prop :=
  ∃ m ∈ w.messages.stored, m.senderId = senderId ∧ m.msgId = msgId

def SaysPersisted (e : Envelope) (ack : MessageAck) : Prop :=
  e.payload = some (.msgAck ack) ∧ ack.status = .persisted

/-- Whatever tells a user that a message is persisted is right. -/
structure Truthful (c : Codec) (w : World) : Prop where
  messages : w.messages.Honest
  replies : ∀ r ∈ w.replies, r.ack.status = .persisted → w.HasStored r.senderId r.ack.msgId
  pushed : ∀ item ∈ w.pushed, ∀ e ack, c.parse item.data = some e → SaysPersisted e ack →
    w.HasStored item.userId ack.msgId

variable {c : Codec} {createToken : UInt64 → String → String} {persistedAck : Bool} {w u t : World}
  {conn : ConnId} {request : Envelope} {env : RequestEnv}

theorem HasStored.mono {senderId msgId : UInt64} (h : w.HasStored senderId msgId)
    (hsub : w.messages.stored ⊆ t.messages.stored) : t.HasStored senderId msgId := by
  obtain ⟨m, hm, heq⟩ := h
  exact ⟨m, hsub hm, heq⟩

theorem Truthful.pushed_append (h : Truthful c w) (hsub : w.messages.stored ⊆ t.messages.stored)
    {xs : List (UInt64 × Envelope)}
    (ht : t.pushed = w.pushed ++ xs.filterMap (w.pushService.pushItem c))
    (hxs : ∀ x ∈ xs, ∀ ack, SaysPersisted x.2 ack → t.HasStored x.1 ack.msgId) :
    ∀ item ∈ t.pushed, ∀ e ack, c.parse item.data = some e → SaysPersisted e ack →
      t.HasStored item.userId ack.msgId := by
  intro item hitem e ack hparse hsays
  rw [ht] at hitem
  rcases List.mem_append.mp hitem with hitem | hitem
  · exact (h.pushed item hitem e ack hparse hsays).mono hsub
  · obtain ⟨x, hx, hpush⟩ := List.mem_filterMap.mp hitem
    obtain ⟨huser, hparse'⟩ := PushService.of_pushItem hpush
    obtain rfl : x.2 = e := Option.some.inj (hparse'.symm.trans hparse)
    rw [huser]
    exact hxs x hx ack hsays

/-- No request makes the server push that a message is persisted: a receipt with that status is
refused. -/
theorem Origin.not_saysPersisted {x : UInt64 × Envelope} (h : Origin w conn request env u x)
    (ack : MessageAck) : ¬ SaysPersisted x.2 ack := by
  rintro ⟨hpayload, hstatus⟩
  cases h with
  | friendReq _ m _ hp => cases hp.symm.trans hpayload
  | friendStatus _ m _ hp => cases hp.symm.trans hpayload
  | message m => cases hpayload
  | receipt _ hx =>
    obtain ⟨req, hpass, -, -, hp⟩ := of_mem_receiptsOf hx
    cases hp.symm.trans hpayload
    rcases hpass.2.2.2.2 with hreq | hreq
    · exact absurd (hreq.symm.trans hstatus) nofun
    · exact absurd (hreq.symm.trans hstatus) nofun

variable (w c) in
/-- What the writer pushes is about the message whose callback it runs. -/
theorem pushPersisted_callback (enabled : Bool) (now : Int64) (messages : MsgService) :
    ∃ xs, Sends c w { pushPersisted c enabled now w with messages := messages } xs ∧
      ∀ x ∈ xs, ∃ m, w.messages.writer.callback = some (m, true) ∧ x.1 = m.senderId ∧
        ∀ ack, x.2.payload = some (.msgAck ack) → ack.msgId = m.msgId := by
  have hnone : Sends c w { w with messages := messages } [] := ⟨rfl, by simp [pushService]⟩
  unfold pushPersisted
  split
  · rename_i m hcallback
    split_ifs
    · refine ⟨_, ⟨rfl, congrArg PushService.pushQueue (w.pushService.sendEnvelope_snd c _ _)⟩, ?_⟩
      intro x hx
      rw [List.mem_singleton.mp hx]
      refine ⟨m, hcallback, rfl, fun ack hack => ?_⟩
      cases hack
      rfl
    · exact ⟨[], hnone, fun _ hx => absurd hx List.not_mem_nil⟩
  · exact ⟨[], hnone, fun _ hx => absurd hx List.not_mem_nil⟩

namespace Truthful

theorem envelope (h : Truthful c w)
    (hstep : step c createToken persistedAck w (.envelope conn request env) = some t) :
    Truthful c t := by
  obtain ⟨u, heffect, -, rfl, -⟩ := step_envelope hstep
  obtain ⟨xs, hsends, horigin⟩ := effect_sends heffect
  have hpushed : ∀ x ∈ xs, ∀ ack, SaysPersisted x.2 ack → (w.logPushes u).HasStored x.1 ack.msgId :=
    fun x hx ack hsays => absurd hsays ((horigin x hx).not_saysPersisted ack)
  rcases effect_messages heffect with ⟨hmessages, hreplies⟩ | ⟨-, req, -, hu⟩
  · have hsub : w.messages.stored ⊆ (w.logPushes u).messages.stored := by
      change w.messages.stored ⊆ u.messages.stored
      rw [hmessages]
      exact List.Subset.refl _
    refine ⟨?_, fun r hr hstatus => ?_, h.pushed_append hsub hsends.logPushes hpushed⟩
    · change u.messages.Honest
      rw [hmessages]
      exact h.messages
    · change r ∈ u.replies at hr
      rw [hreplies] at hr
      exact (h.replies r hr hstatus).mono hsub
  · have hsub : w.messages.stored ⊆ (w.logPushes u).messages.stored := by
      rw [hu]
      change _ ⊆ (w.messages.call _ _ _).stored
      rw [MsgService.stored_call]
      exact List.Subset.refl _
    refine ⟨?_, fun r hr hstatus => ?_, h.pushed_append hsub hsends.logPushes hpushed⟩
    · rw [hu]
      exact h.messages.call _ _ _
    · rw [hu] at hr
      rcases List.mem_append.mp hr with hr | hr
      · exact (h.replies r hr hstatus).mono hsub
      · obtain ⟨m, hm, heq⟩ := h.messages.reply hr hstatus
        exact ⟨m, hsub hm, heq⟩

theorem task (h : Truthful c w) {i : ℕ} {ok : Bool} {clock : ℕ → Int64}
    (hstep : step c createToken persistedAck w (.task i ok clock) = some t) : Truthful c t := by
  obtain ⟨userId, -, rfl⟩ := Option.map_eq_some_iff.mp hstep
  obtain ⟨xs, hsends, hkind⟩ := w.pushPending_sends c ok clock userId (w.tasks.eraseIdx i)
  refine ⟨h.messages, h.replies, h.pushed_append (List.Subset.refl _) hsends.logPushes ?_⟩
  rintro x hx ack ⟨hpayload, -⟩
  obtain ⟨m, -, hp⟩ := hkind x hx
  cases hp.symm.trans hpayload

theorem work (h : Truthful c w) {out : InsertOutcome} {now : ℕ} {clock : Int64}
    (hstep : step c createToken persistedAck w (.work out now clock) = some t) : Truthful c t := by
  obtain rfl := Option.some.inj hstep
  obtain ⟨xs, hsends, hkind⟩ :=
    w.pushPersisted_callback c persistedAck clock (w.messages.work out now)
  have hsub : w.messages.stored ⊆ (w.messages.work out now).stored := List.subset_append_left _ _
  refine ⟨h.messages.work out now, fun r hr hstatus => ?_,
    h.pushed_append hsub hsends.logPushes fun x hx ack hsays => ?_⟩
  · change r ∈ (pushPersisted c persistedAck clock w).replies at hr
    rw [(w.pushPersisted_same c persistedAck clock).2.2.2] at hr
    exact (h.replies r hr hstatus).mono hsub
  · obtain ⟨m, hcallback, hsender, hid⟩ := hkind x hx
    have hm := h.messages.written m (AsyncMsgWriter.mem_succeeded_of_callback hcallback)
    exact ⟨m, hsub hm, hsender.symm, (hid ack hsays.1).symm⟩

theorem step (h : Truthful c w) {a : Action}
    (hstep : World.step c createToken persistedAck w a = some t) : Truthful c t := by
  cases a with
  | accept =>
    obtain rfl := Option.some.inj hstep
    exact ⟨h.messages, h.replies, h.pushed⟩
  | envelope conn request env => exact h.envelope hstep
  | close conn =>
    obtain ⟨s, -, rfl⟩ := Option.map_eq_some_iff.mp hstep
    exact ⟨h.messages, h.replies, h.pushed⟩
  | task i ok clock => exact h.task hstep
  | work out now clock => exact h.work hstep
  | flush maxCount =>
    obtain rfl := Option.some.inj hstep
    exact ⟨h.messages, h.replies, h.pushed⟩

end Truthful

end World
end TermChat
