import TermChat.Service.Msg

/-! What the status `ACK_STATUS_PERSISTED` stands for, whatever becomes of the inserts: it is
recorded and reported for messages that are stored. -/
namespace TermChat
open Proto MsgScyllaDao

namespace AsyncMsgWriter

variable {ι : Type} {w : AsyncMsgWriter ι} {x : ι}

/-- The batch whose callbacks are run with `success`. -/
def succeeded (w : AsyncMsgWriter ι) : List ι :=
  match w.worker with
  | .notify notified todo true | .drainNotify notified todo true => notified ++ todo
  | _ => []

theorem mem_succeeded_of_callback (h : w.callback = some (x, true)) : x ∈ w.succeeded := by
  unfold callback at h
  unfold succeeded
  split at h
  · cases h
    rename_i notified todo hworker
    simp [hworker]
  · cases h
    rename_i notified todo hworker
    simp [hworker]
  · cases h

theorem succeeded_work (inserted : Bool) (h : x ∈ (w.work inserted).succeeded) :
    x ∈ w.succeeded ∨ inserted = true ∧ x ∈ w.persisting := by
  obtain ⟨queue, running, worker⟩ := w
  cases worker with
  | persist batch retryCount =>
    cases inserted with
    | true => exact .inr ⟨rfl, h⟩
    | false =>
      simp only [work, succeeded, Bool.false_eq_true, if_false] at h
      split_ifs at h <;> cases h
  | drainPersist batch =>
    cases inserted with
    | true => exact .inr ⟨rfl, h⟩
    | false => cases h
  | notify notified todo success | drainNotify notified todo success =>
    left
    cases todo with
    | nil => cases h
    | cons item todo =>
      cases success with
      | true =>
        simp only [work, succeeded, List.append_assoc] at h
        exact h
      | false => cases h
  | test | dequeue | drainTest | drainDequeue =>
    simp only [work, succeeded] at h
    split_ifs at h <;> cases h
  | stopped => exact .inl h

end AsyncMsgWriter

/-- An update keeps `P` if it does so for the entries of its key and its id. -/
theorem ClientDedupCache.All.updateStatus_of {c : ClientDedupCache}
    {P : DedupKey → ClientDedupCache.Entry → Prop} (h : c.All P)
    {senderId clientMsgId serverMsgId : UInt64} {status : MessageAckStatus}
    (hP : ∀ e, P (senderId, clientMsgId) e → e.serverMsgId = serverMsgId →
      P (senderId, clientMsgId) { e with status := status }) (now : ℕ) :
    (c.updateStatus senderId clientMsgId serverMsgId status now).All P := by
  unfold ClientDedupCache.updateStatus
  split_ifs
  · exact h
  · apply h.setShard
    intro kv hkv
    obtain ⟨old, hold, rfl⟩ := List.mem_map.mp hkv
    have hPold := h.evict _ _ _ old hold
    by_cases hkey : old.1 = (senderId, clientMsgId)
    · rw [if_pos hkey]
      by_cases hid : old.2.entry.serverMsgId = serverMsgId
      · simp only [if_neg (not_not.mpr hid), hkey]
        exact hP _ (hkey ▸ hPold) hid
      · simp only [if_pos hid]
        exact hPold
    · rw [if_neg hkey]
      exact hPold

namespace MsgService

variable {s t : MsgService} {c : Send} {env : Env} {k : DedupKey} {id : UInt64}

def HasStored (s : MsgService) (k : DedupKey) (id : UInt64) : Prop :=
  ∃ m ∈ s.stored, msgKey m = k ∧ m.msgId = id

theorem HasStored.mono (h : s.HasStored k id) (hsub : s.stored ⊆ t.stored) : t.HasStored k id := by
  obtain ⟨m, hm, heq⟩ := h
  exact ⟨m, hsub hm, heq⟩

/-- Whatever says that a message is persisted is right. -/
structure Honest (s : MsgService) : Prop where
  written : ∀ m ∈ s.writer.succeeded, m ∈ s.stored
  row : ∀ k r, s.dedup k = some r → r.status = .persisted → s.HasStored k r.serverMsgId
  entry : s.cache.All fun k e => e.status = .persisted → s.HasStored k e.serverMsgId
  answer : ∀ a ∈ s.answers, a.ack.status = .persisted → s.HasStored a.key a.ack.msgId

private theorem ackStatus_ne_persisted (delivered : Bool) : ackStatus delivered ≠ .persisted := by
  cases delivered <;> nofun

namespace Honest

theorem init (mode : DedupMode) {dedup : DedupTable} {stored : List P2PMessage}
    (h : ∀ k r, dedup k = some r → r.status = .persisted →
      ∃ m ∈ stored, msgKey m = k ∧ m.msgId = r.serverMsgId) : (init mode dedup stored).Honest where
  written := nofun
  row := h
  entry := ClientDedupCache.all_init
  answer := nofun

theorem answered (h : s.Honest) {ack : MessageAck} (b : Bool)
    (hack : ack.status = .persisted → s.HasStored k ack.msgId) : (s.answer k ack b).Honest := by
  refine ⟨h.written, h.row, h.entry, fun a ha hstatus => ?_⟩
  rcases List.mem_append.mp ha with ha | ha
  · exact h.answer a ha hstatus
  · obtain rfl := List.mem_singleton.mp ha
    exact hack hstatus

theorem withCache (h : s.Honest) {cache : ClientDedupCache}
    (hcache : cache.All fun k e => e.status = .persisted → s.HasStored k e.serverMsgId) :
    Honest { s with cache := cache } := ⟨h.written, h.row, hcache, h.answer⟩

theorem withDedup (h : s.Honest) {dedup : DedupTable} {r : DedupRow}
    (hdedup : dedup = Function.update s.dedup k (some r))
    (hr : r.status = .persisted → s.HasStored k r.serverMsgId) :
    Honest { s with dedup := dedup } := by
  refine ⟨h.written, fun k' r' hr' hstatus => ?_, h.entry, h.answer⟩
  simp only [hdedup] at hr'
  by_cases hk : k' = k
  · rw [hk, Function.update_self] at hr'
    obtain rfl := Option.some.inj hr'
    rw [hk]
    exact hr hstatus
  · rw [Function.update_of_ne hk] at hr'
    exact h.row k' r' hr' hstatus

theorem withUpsert (h : s.Honest) (a b id r : UInt64) (status : MessageAckStatus)
    (out : InsertOutcome) (hr : status = .persisted → s.HasStored (a, b) id) :
    Honest { s with dedup := (upsertClientMsgDedup s.dedup a b id r status out).1 } := by
  rcases upsertClientMsgDedup_cases s.dedup a b id r status out with hsame | ⟨-, hnew⟩
  · rw [hsame]
    exact h
  · exact h.withDedup hnew hr

theorem upsert (h : s.Honest) {m : P2PMessage} {status : MessageAckStatus} {out : InsertOutcome}
    (hm : status = .persisted → m ∈ s.stored) : (s.upsert m status out).Honest :=
  h.withUpsert _ _ _ _ _ _ fun hstatus => ⟨m, hm hstatus, rfl, rfl⟩

/-- A call writes no row and no entry that says so, and passes on what a row or an entry says. -/
theorem advance (h : s.Honest) (c : Send) (env : Env) : (s.advance c env).1.Honest := by
  have hreserve : ∀ id, (s.reservation c env id).2.All
      fun k e => e.status = .persisted → s.HasStored k e.serverMsgId :=
    fun id => h.entry.reserve _ _ _ _ _ _ fun _ => nofun
  have hadv := s.advances c env
  generalize s.advance c env = r at hadv
  cases hadv with
  | found row hpc hsync hrow =>
    refine h.answered true fun hstatus => h.row _ row ?_ hstatus
    unfold getClientMsgDedup at hrow
    split_ifs at hrow
    exact hrow
  | missed => exact h
  | generate => exact ⟨h.written, h.row, h.entry, h.answer⟩
  | duplicate id hpc hfast hstate =>
    refine (h.withCache (hreserve id)).answered true fun hstatus => ?_
    exact h.entry.duplicate hstate hstatus
  | conflict id => exact (h.withCache (hreserve id)).answered false nofun
  | reserved id => exact h.withCache (hreserve id)
  | unreserved => exact h
  | unsaved id =>
    have hrow : Honest { s with dedup := (s.firstUpsert c env id).1 } :=
      h.withUpsert _ _ _ _ _ _ nofun
    exact hrow.answered false nofun
  | saved => exact h.withUpsert _ _ _ _ _ _ nofun
  | passed => exact h
  | enqueue id => exact ⟨h.written, h.row, h.entry, h.answer⟩
  | push => exact h
  | updated id delivered =>
    refine h.withCache (h.entry.updateStatus_of (fun e _ _ hstatus => ?_) env.now)
    exact absurd hstatus (ackStatus_ne_persisted delivered)
  | notUpdated => exact h
  | acceptedSaved id delivered =>
    have hsaved : (s.upsert (c.msgToStore id) .enqueued env.upsert).Honest := h.upsert nofun
    exact hsaved.answered false fun hstatus => absurd hstatus (ackStatus_ne_persisted delivered)
  | accepted id delivered =>
    exact h.answered false fun hstatus => absurd hstatus (ackStatus_ne_persisted delivered)

theorem notify (h : s.Honest) (out : InsertOutcome) (now : ℕ) : (s.notify out now).Honest := by
  unfold MsgService.notify
  split
  · rename_i m success hcallback
    unfold onMessagePersisted
    by_cases hskip : success = false ∨ m.clientMsgId = 0
    · rw [if_pos hskip]
      exact h
    · have hsuccess : success = true := by
        cases success with
        | false => exact absurd (.inl rfl) hskip
        | true => rfl
      have hm := h.written m (AsyncMsgWriter.mem_succeeded_of_callback (hsuccess ▸ hcallback))
      rw [if_neg hskip]
      split_ifs
      · refine (h.withCache (h.entry.updateStatus_of (fun e _ hid _ => ?_) now)).upsert fun _ => hm
        exact ⟨m, hm, rfl, hid.symm⟩
      · exact h.upsert fun _ => hm
  · exact h

theorem work (h : s.Honest) (out : InsertOutcome) (now : ℕ) : (s.work out now).Honest := by
  have hnotify := h.notify out now
  have hstored : (s.notify out now).stored = s.stored := by
    obtain ⟨dedup, cache, heq⟩ := s.notify_eq out now
    rw [heq]
  have hsub : (s.notify out now).stored ⊆ (s.work out now).stored := by
    rw [hstored]
    exact List.subset_append_left _ _
  refine ⟨fun m hm => ?_, fun k r hr hstatus => (hnotify.row k r hr hstatus).mono hsub,
    hnotify.entry.mono fun k e he hstatus => (he hstatus).mono hsub,
    fun a ha hstatus => (hnotify.answer a ha hstatus).mono hsub⟩
  rcases AsyncMsgWriter.succeeded_work out.success hm with hm | ⟨hsuccess, hm⟩
  · exact List.mem_append_left _ (h.written m hm)
  · apply List.mem_append_right
    rw [if_pos (InsertOutcome.applied_of_success hsuccess)]
    exact hm

theorem send (h : s.Honest) (senderId : UInt64) (req : P2PMessage) :
    (s.sendP2pMessage senderId req).1.Honest := by
  unfold sendP2pMessage
  dsimp only
  split_ifs
  · exact h.answered false nofun
  · exact h.answered false nofun
  · exact h.answered false nofun
  · exact h

end Honest
end MsgService

namespace MsgServer

/-- In every interleaving of calls with the writer, and whatever its inserts come to, an answer, a
row of the dedup table or an entry of the cache with the status `ACK_STATUS_PERSISTED` is about a
message that is stored, and so is a callback that reports success. -/
theorem persisted_means_stored (mode : DedupMode) (dedup : DedupTable) (stored : List P2PMessage)
    (hdedup : ∀ k r, dedup k = some r → r.status = .persisted →
      ∃ m ∈ stored, msgKey m = k ∧ m.msgId = r.serverMsgId)
    (as : List Action) (s : MsgServer)
    (hrun : Steps.run step (init mode dedup stored) as = some s) :
    (∀ a ∈ s.service.answers, a.ack.status = .persisted →
        s.service.HasStored a.key a.ack.msgId) ∧
      (∀ k r, s.service.dedup k = some r → r.status = .persisted →
        s.service.HasStored k r.serverMsgId) ∧
      (s.service.cache.All fun k e => e.status = .persisted →
        s.service.HasStored k e.serverMsgId) ∧
      ∀ m, s.service.writer.callback = some (m, true) → m ∈ s.service.stored := by
  have hinv : s.service.Honest := by
    refine Steps.invariant_of_run (I := fun s => s.service.Honest) (fun s a t hs hstep => ?_)
      (MsgService.Honest.init mode hdedup) hrun
    cases a with
    | send senderId req =>
      obtain rfl := Option.some.inj hstep
      exact hs.send senderId req
    | call i env =>
      obtain ⟨c, -, rfl⟩ := step_call hstep
      exact hs.advance c env
    | work out now =>
      obtain rfl := Option.some.inj hstep
      exact hs.work out now
    | stop =>
      obtain rfl := Option.some.inj hstep
      exact ⟨hs.written, hs.row, hs.entry, hs.answer⟩
  exact ⟨hinv.answer, hinv.row, hinv.entry,
    fun m hm => hinv.written m (AsyncMsgWriter.mem_succeeded_of_callback hm)⟩

/-- A first insert fails and a second one succeeds; then the message is sent again. -/
def persistedThenRetried : List Action :=
  .send 1 hello :: List.replicate 8 (.call 0 tick) ++
    [.work .ok 0, .work .ok 0, .work (.error false) 0, .work .ok 0, .work .ok 0,
      .send 1 hello, .call 0 tick]

theorem persisted_means_stored_retried :
    ∃ s, Steps.run step (init .sync (fun _ => none) []) persistedThenRetried = some s ∧
      s.service.answers.getLast? = some ⟨(1, 9),
        { msgId := 4194304, success := true, status := .persisted }, true⟩ ∧
      s.service.HasStored (1, 9) 4194304 := by
  have hrun : (Steps.run step (init .sync (fun _ => none) []) persistedThenRetried).map
      (fun s => s.service.answers.getLast?) = some (some ⟨(1, 9),
        { msgId := 4194304, success := true, status := .persisted }, true⟩) := rfl
  obtain ⟨s, hs, hlast⟩ := Option.map_eq_some_iff.mp hrun
  have hstored := persisted_means_stored .sync (fun _ => none) [] nofun persistedThenRetried s hs
  exact ⟨s, hs, hlast, hstored.1 _ (List.mem_of_getLast? hlast) rfl⟩

end MsgServer
end TermChat
