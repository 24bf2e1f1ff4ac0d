import TermChat.Service.CacheMemory
import TermChat.Service.Msg

/-! The status that the fast mode records for a message. The sender's thread writes it after the
push, the writer's callback after the insert, and neither looks at what is there. -/
namespace TermChat
open Proto

namespace MsgServer

/-- The call on the dedup cache that a step makes, if it makes one. -/
def cacheCall (s : MsgServer) : Action → Option CacheCall
  | .call i env =>
    match s.calls[i]? with
    | none => none
    | some c =>
      if s.service.mode = .fast ∧ c.req.clientMsgId ≠ 0 then
        match c.pc with
        | .reserve id =>
          some (.reserve c.senderId c.req.clientMsgId id c.req.receiverId .received env.now)
        | .updateStatus id delivered =>
          some (.updateStatus c.senderId c.req.clientMsgId id (MsgService.ackStatus delivered) env.now)
        | _ => none
      else none
  | .work _ now =>
    match s.service.writer.callback with
    | some (msg, success) =>
      if s.service.mode = .fast ∧ success = true ∧ msg.clientMsgId ≠ 0 then
        some (.updateStatus msg.senderId msg.clientMsgId msg.msgId .persisted now)
      else none
    | none => none
  | _ => none

variable {s t : MsgServer} {a : Action}

theorem cache_call {i : ℕ} {env : Env} (h : step s (.call i env) = some t) :
    s.cacheCall (.call i env) = none ∧ t.service.cache = s.service.cache ∨
      ∃ call, s.cacheCall (.call i env) = some call ∧
        s.service.cache.step call = some t.service.cache := by
  obtain ⟨c, hc, rfl⟩ := step_call h
  have hadv := s.service.advances c env
  generalize s.service.advance c env = r at hadv
  simp only [cacheCall, hc]
  cases hadv with
  | duplicate id hpc hfast =>
    rw [if_pos hfast, hpc]
    exact .inr ⟨_, rfl, rfl⟩
  | conflict id hpc hfast =>
    rw [if_pos hfast, hpc]
    exact .inr ⟨_, rfl, rfl⟩
  | reserved id hpc hfast =>
    rw [if_pos hfast, hpc]
    exact .inr ⟨_, rfl, rfl⟩
  | updated id delivered hpc hfast =>
    rw [if_pos hfast, hpc]
    exact .inr ⟨_, rfl, rfl⟩
  | unreserved id hpc hslow => exact .inl ⟨if_neg hslow, rfl⟩
  | notUpdated id delivered hpc hslow => exact .inl ⟨if_neg hslow, rfl⟩
  | found row hpc | missed hpc | generate hpc | unsaved id hpc | saved id hpc | passed id hpc
  | enqueue id hpc | push id hpc | acceptedSaved id delivered hpc | accepted id delivered hpc =>
    refine .inl ⟨?_, rfl⟩
    simp only [hpc, ite_self]

theorem cache_work {out : InsertOutcome} {now : ℕ} (h : step s (.work out now) = some t) :
    s.cacheCall (.work out now) = none ∧ t.service.cache = s.service.cache ∨
      ∃ call, s.cacheCall (.work out now) = some call ∧
        s.service.cache.step call = some t.service.cache := by
  obtain rfl := Option.some.inj h
  change _ ∧ (s.service.notify out now).cache = _ ∨
    ∃ call, _ ∧ _ = some (s.service.notify out now).cache
  simp only [cacheCall, MsgService.notify]
  cases s.service.writer.callback with
  | none => exact .inl ⟨rfl, rfl⟩
  | some item =>
    obtain ⟨msg, success⟩ := item
    simp only [MsgService.onMessagePersisted]
    by_cases hskip : success = false ∨ msg.clientMsgId = 0
    · rw [if_pos hskip]
      refine .inl ⟨if_neg ?_, rfl⟩
      rintro ⟨-, hsuccess, hclient⟩
      rcases hskip with hskip | hskip
      · rw [hsuccess] at hskip
        cases hskip
      · exact hclient hskip
    · obtain ⟨hsuccess, hclient⟩ := not_or.mp hskip
      rw [if_neg hskip]
      by_cases hfast : s.service.mode = .fast
      · rw [if_pos hfast, if_pos ⟨hfast, by simpa using hsuccess, hclient⟩]
        exact .inr ⟨_, rfl, rfl⟩
      · rw [if_neg hfast, if_neg fun hall => hfast hall.1]
        exact .inl ⟨rfl, rfl⟩

/-- Every step changes the cache by the call that it makes, or not at all. -/
theorem cache_step (h : step s a = some t) :
    s.cacheCall a = none ∧ t.service.cache = s.service.cache ∨
      ∃ call, s.cacheCall a = some call ∧ s.service.cache.step call = some t.service.cache := by
  cases a with
  | send senderId req =>
    rcases step_send h with ⟨errorMsg, rfl⟩ | ⟨-, rfl⟩
    · exact .inl ⟨rfl, rfl⟩
    · exact .inl ⟨rfl, rfl⟩
  | call i env => exact cache_call h
  | work out now => exact cache_work h
  | stop =>
    obtain rfl := Option.some.inj h
    exact .inl ⟨rfl, rfl⟩

/-- The scan of a step, if it makes one, leaves the entry of `key`. -/
def KeepsEntry (key : DedupKey) (s : MsgServer) (a : Action) : Prop :=
  ∀ call, s.cacheCall a = some call → ∀ now, s.service.cache.reading key call = some now →
    (s.service.cache.evicted key now).find key ≠ none

/-- The step is the last `UpdateStatus` of a call whose push found nobody, on the entry of `key`
that the call has reserved. -/
def LateReceived (key : DedupKey) (s : MsgServer) : Action → Prop
  | .call i _ => ∃ c v, s.calls[i]? = some c ∧ c.key = key ∧ s.service.cache.find key = some v ∧
      c.pc = .updateStatus v.entry.serverMsgId false
  | _ => False

instance (key : DedupKey) (s : MsgServer) (a : Action) : Decidable (KeepsEntry key s a) :=
  match hcall : s.cacheCall a with
  | none => isTrue (by simp [KeepsEntry, hcall])
  | some call =>
    match hreading : s.service.cache.reading key call with
    | none => isTrue (by simp [KeepsEntry, hcall, hreading])
    | some now =>
      decidable_of_iff ((s.service.cache.evicted key now).find key ≠ none)
        (by simp [KeepsEntry, hcall, hreading])

instance (key : DedupKey) (s : MsgServer) : ∀ a, Decidable (LateReceived key s a)
  | .call i _ =>
    match hc : s.calls[i]?, hv : s.service.cache.find key with
    | some c, some v =>
      decidable_of_iff (c.key = key ∧ c.pc = .updateStatus v.entry.serverMsgId false)
        (by simp [LateReceived, hc, hv])
    | none, _ => isFalse (by simp [LateReceived, hc])
    | some _, none => isFalse (by simp [LateReceived, hv])
  | .send _ _ => isFalse id
  | .work _ _ => isFalse id
  | .stop => isFalse id

def NotReceived (key : DedupKey) (s : MsgServer) : Prop :=
  ∀ v, s.service.cache.find key = some v → v.entry.status ≠ .received

/-- No retransmission of `key`, whenever it comes, is answered as a duplicate with
`ACK_STATUS_RECEIVED`. -/
def NoReceivedAnswer (key : DedupKey) (s : MsgServer) : Prop :=
  ∀ msgId receiverId status now,
    (s.service.cache.reserve key.1 key.2 msgId receiverId status now).1.state = .duplicate →
      (MsgService.fillDedupAck key.1
        (s.service.cache.reserve key.1 key.2 msgId receiverId status now).1.entry).status ≠ .received

/-- The fast mode has an entry for `key`, reserved with this id. -/
structure Recorded (key : DedupKey) (serverMsgId : UInt64) (s : MsgServer) : Prop where
  fast : s.service.mode = .fast
  ids : key.1 ≠ 0 ∧ key.2 ≠ 0 ∧ serverMsgId ≠ 0
  entry : ∃ v, s.service.cache.find key = some v ∧ v.entry.serverMsgId = serverMsgId

variable {key : DedupKey} {serverMsgId : UInt64}

theorem NotReceived.answer (h : s.NotReceived key) : s.NoReceivedAnswer key := by
  intro msgId receiverId status now hdup
  obtain ⟨v, hv, hentry⟩ := ClientDedupCache.find_of_duplicate hdup
  simp only [MsgService.fillDedupAck, hentry]
  exact h v hv

/-- Where a status update comes from: only the last one of a call whose push found nobody writes
`ACK_STATUS_RECEIVED`. -/
theorem origin_of_received {now : ℕ}
    (h : s.cacheCall a = some (.updateStatus key.1 key.2 serverMsgId .received now)) :
    ∃ i env c, a = .call i env ∧ s.calls[i]? = some c ∧ c.key = key ∧
      c.pc = .updateStatus serverMsgId false := by
  cases a with
  | send senderId req => cases h
  | stop => cases h
  | work out now =>
    simp only [cacheCall] at h
    split at h
    · split_ifs at h
      have hstatus := (CacheCall.updateStatus.inj (Option.some.inj h)).2.2.2.1
      cases hstatus
    · cases h
  | call i env =>
    simp only [cacheCall] at h
    split at h
    · cases h
    · rename_i c hc
      split_ifs at h
      split at h
      · cases h
      · rename_i id delivered hpc
        obtain ⟨hsender, hclient, hid, hstatus, -⟩ := CacheCall.updateStatus.inj (Option.some.inj h)
        refine ⟨i, env, c, rfl, hc, ?_, ?_⟩
        · rw [Send.key, hsender, hclient]
        · cases delivered with
          | true => cases hstatus
          | false => rw [hpc, hid]
      · cases h

theorem mode_step (h : step s a = some t) : t.service.mode = s.service.mode := by
  cases a with
  | send senderId req =>
    rcases step_send h with ⟨errorMsg, rfl⟩ | ⟨-, rfl⟩
    · rfl
    · rfl
  | call i env =>
    obtain ⟨c, -, rfl⟩ := step_call h
    exact s.service.mode_advance c env
  | work out now =>
    obtain rfl := Option.some.inj h
    exact s.service.mode_work out now
  | stop =>
    obtain rfl := Option.some.inj h
    rfl

theorem find_of_keepsEntry {v : ClientDedupCache.CacheValue} (hv : s.service.cache.find key = some v)
    (hkept : KeepsEntry key s a) {call : CacheCall} (hcall : s.cacheCall a = some call) {now : ℕ}
    (hreading : s.service.cache.reading key call = some now) :
    (s.service.cache.evicted key now).find key = some v := by
  cases hfind : (s.service.cache.evicted key now).find key with
  | none => exact absurd hfind (hkept call hcall now hreading)
  | some w => exact (ClientDedupCache.Shard.find_of_find_evict hfind).symm.trans hv

/-- What a step does to the entry of `key` when its scan leaves it. -/
theorem entry_step {v : ClientDedupCache.CacheValue} (hv : s.service.cache.find key = some v)
    (hkept : KeepsEntry key s a) (h : step s a = some t) :
    t.service.cache.find key = some v ∨ ∃ now status,
      s.cacheCall a = some (.updateStatus key.1 key.2 v.entry.serverMsgId status now) ∧
      t.service.cache.find key =
        some ⟨{ v.entry with status := status }, now + s.service.cache.ttl⟩ := by
  rcases cache_step h with ⟨-, hcache⟩ | ⟨call, hcall, hstep⟩
  · rw [hcache]
    exact .inl hv
  · have hscan : ∀ now, s.service.cache.reading key call = some now →
        (s.service.cache.evicted key now).find key = some v :=
      fun now hreading => find_of_keepsEntry hv hkept hcall hreading
    rcases ClientDedupCache.find_touches hv (ClientDedupCache.touches_of_step hstep) hscan with
      hsame | ⟨now, status, -, rfl, hset⟩
    · exact .inl hsame
    · exact .inr ⟨now, status, hcall, hset⟩

theorem Recorded.step (h : s.Recorded key serverMsgId) (hkept : KeepsEntry key s a)
    (hstep : MsgServer.step s a = some t) : t.Recorded key serverMsgId := by
  obtain ⟨v, hv, hid⟩ := h.entry
  refine ⟨(mode_step hstep).trans h.fast, h.ids, ?_⟩
  rcases entry_step hv hkept hstep with hsame | ⟨now, status, -, hset⟩
  · exact ⟨v, hsame, hid⟩
  · exact ⟨_, hset, hid⟩

/-- A late update writes `ACK_STATUS_RECEIVED` over whatever is recorded. -/
theorem received_of_lateReceived (h : s.Recorded key serverMsgId) (hkept : KeepsEntry key s a)
    (hlate : LateReceived key s a) (hstep : step s a = some t) : ¬ t.NotReceived key := by
  cases a with
  | call i env =>
    obtain ⟨c, v, hc, rfl, hv, hpc⟩ := hlate
    obtain ⟨w, hw, hid⟩ := h.entry
    obtain rfl := Option.some.inj (hv.symm.trans hw)
    have hcall : s.cacheCall (.call i env) = some (.updateStatus c.senderId c.req.clientMsgId
        v.entry.serverMsgId .received env.now) := by
      simp only [cacheCall, hc, hpc]
      exact if_pos ⟨h.fast, h.ids.2.1⟩
    have hzero : ¬ (c.senderId = 0 ∨ c.req.clientMsgId = 0 ∨ v.entry.serverMsgId = 0) := by
      rw [hid]
      simpa only [Send.key, not_or, ne_eq] using h.ids
    have hreading : s.service.cache.reading c.key (.updateStatus c.senderId c.req.clientMsgId
        v.entry.serverMsgId .received env.now) = some env.now := by
      simp only [ClientDedupCache.reading, CacheCall.lookup, if_neg hzero]
      exact if_pos rfl
    have hscan := find_of_keepsEntry hv hkept hcall hreading
    rcases cache_step hstep with ⟨hnone, -⟩ | ⟨call, hsome, hcache⟩
    · rw [hcall] at hnone
      cases hnone
    · obtain rfl := Option.some.inj (hcall.symm.trans hsome)
      have hafter : s.service.cache.updateStatus c.key.1 c.key.2 serverMsgId .received env.now =
          t.service.cache := by
        rw [← hid]
        exact Option.some.inj hcache
      have hset := ClientDedupCache.find_updateStatus h.ids hscan .received
      rw [hafter, if_neg (not_not.mpr hid)] at hset
      intro hnot
      exact hnot _ hset rfl
  | send senderId req => cases hlate
  | work out now => cases hlate
  | stop => cases hlate

/-- A step keeps the recorded status away from `ACK_STATUS_RECEIVED` exactly if it is not a late
update. -/
theorem notReceived_step (h : s.Recorded key serverMsgId) (hkept : KeepsEntry key s a)
    (hnot : s.NotReceived key) (hstep : step s a = some t) :
    t.NotReceived key ↔ ¬ LateReceived key s a := by
  constructor
  · intro ht hlate
    exact received_of_lateReceived h hkept hlate hstep ht
  · intro hearly w hw
    obtain ⟨v, hv, -⟩ := h.entry
    rcases entry_step hv hkept hstep with hsame | ⟨now, status, hcall, hset⟩
    · obtain rfl := Option.some.inj (hsame.symm.trans hw)
      exact hnot v hv
    · obtain rfl := Option.some.inj (hset.symm.trans hw)
      rintro rfl
      obtain ⟨i, env, c, rfl, hc, hkey, hpc⟩ := origin_of_received hcall
      exact hearly ⟨c, v, hc, hkey, hv, hpc⟩

theorem not_lateReceived_of_disabled (h : step s a = none) : ¬ LateReceived key s a := by
  cases a with
  | call i env =>
    rintro ⟨c, v, hc, -⟩
    simp only [step, hc] at h
    cases h
  | send senderId req => exact id
  | work out now => exact id
  | stop => exact id

/-- Once a message is recorded as persisted, and as long as its entry is not evicted, the recorded
status stays away from `ACK_STATUS_RECEIVED` exactly in the runs without a late update; in these
runs no duplicate of the message is ever answered with it. -/
theorem persisted_not_regressed_iff (s : MsgServer) (key : DedupKey)
    (v : ClientDedupCache.CacheValue) (as : List Action) (hfast : s.service.mode = .fast)
    (hids : key.1 ≠ 0 ∧ key.2 ≠ 0 ∧ v.entry.serverMsgId ≠ 0)
    (hv : s.service.cache.find key = some v) (hpersisted : v.entry.status = .persisted)
    (hkept : Steps.Meets step (KeepsEntry key) s as) :
    (Steps.Along step (NotReceived key) s as ↔
      Steps.Meets step (fun s a => ¬ LateReceived key s a) s as) ∧
    (Steps.Meets step (fun s a => ¬ LateReceived key s a) s as →
      Steps.Along step (NoReceivedAnswer key) s as) := by
  have hrecorded : s.Recorded key v.entry.serverMsgId := ⟨hfast, hids, v, hv, rfl⟩
  have hnot : s.NotReceived key := by
    intro w hw
    obtain rfl := Option.some.inj (hv.symm.trans hw)
    rw [hpersisted]
    decide
  have hiff := Steps.along_iff_meets_of_meets (I := Recorded key v.entry.serverMsgId)
    (fun _ _ _ hI hK hstep => hI.step hK hstep)
    (fun _ _ _ hI hK hP hstep => notReceived_step hI hK hP hstep)
    (fun _ _ hnone => not_lateReceived_of_disabled hnone) as hrecorded hnot hkept
  refine ⟨hiff, fun hmeets => ?_⟩
  exact (hiff.mpr hmeets).mono fun _ hP => hP.answer

/-- A message goes through the writer after `steps` steps of its call; its callback is the last
step. -/
def persistedAfter (steps : ℕ) : List Action :=
  .send 1 hello :: List.replicate steps (.call 0 tick) ++ List.replicate 4 (.work .ok 0)

/-- The call takes `steps` more steps, then the message is sent again. -/
def retriedAfter (steps : ℕ) : List Action :=
  List.replicate steps (.call 0 tick) ++ .send 1 hello :: List.replicate 3 (.call 1 tick)

theorem persisted_not_regressed_early_update :
    ∃ s, Steps.run step (init .fast (fun _ => none) []) (persistedAfter 7) = some s ∧
      Steps.Along step (NoReceivedAnswer (1, 9)) s (retriedAfter 0) ∧
      (Steps.run step s (retriedAfter 0)).map (fun t => t.service.answers.map (·.ack.status)) =
        some [.persisted] := by
  refine ⟨_, rfl, ?_, by decide +kernel⟩
  apply (persisted_not_regressed_iff _ (1, 9) ⟨⟨4194304, 2, .persisted⟩, 1800000000000⟩ _ rfl
    (by decide) (by decide +kernel) rfl (by decide +kernel)).2
  decide +kernel

/-- The callback comes before the last update of the call, and the duplicate is told that its
message has only been received. -/
theorem persisted_then_received :
    ∃ s, Steps.run step (init .fast (fun _ => none) []) (persistedAfter 5) = some s ∧
      (s.service.cache.find (1, 9)).map (·.entry) = some ⟨4194304, 2, .persisted⟩ ∧
      Steps.Meets step (KeepsEntry (1, 9)) s (retriedAfter 2) ∧
      (Steps.run step s (retriedAfter 2)).map (fun t => t.service.answers) =
        some [⟨(1, 9), MsgService.fillDedupAck 1 ⟨4194304, 2, .received⟩, true⟩] := by
  refine ⟨_, rfl, ?_, ?_, ?_⟩ <;> decide +kernel

end MsgServer
end TermChat
