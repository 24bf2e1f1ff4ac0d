import TermChat.Service.CacheMemory
import TermChat.Service.Push
import TermChat.Service.Msg

/-! What a refused `send_p2p_message` leaves behind. The steps are those of `MsgService.advance`,
with the push queue as part of the state. -/
namespace TermChat
open Proto MsgScyllaDao

/-- What a step of a call finds around it, with the time of a push envelope. -/
structure Surroundings extends Env where
  timestamp : Int64 := 0

/-- The service with its `push_service_`, which may be null. -/
structure Sending where
  service : MsgService
  push : Option PushService

namespace ClientDedupCache

/-- `c'` is `c`, or `c` after a scan of one of its shards. -/
def EvictsOnly (c c' : ClientDedupCache) : Prop :=
  c' = c ∨ ∃ i now,
    c' = c.setShard i ((c.shards i).evictExpiredLocked c.maxEntriesPerShard now)

variable {c c' : ClientDedupCache}

/-- A scan adds no entry, and it gives none another value or another lifetime. -/
theorem EvictsOnly.find (h : c.EvictsOnly c') {key : DedupKey} {v : CacheValue}
    (hfind : c'.find key = some v) : c.find key = some v := by
  rcases h with rfl | ⟨i, now, rfl⟩
  · exact hfind
  · rw [find_setShard] at hfind
    split_ifs at hfind with hi
    · subst hi
      exact Shard.find_of_find_evict hfind
    · exact hfind

/-- A reservation that meets a conflict has at most scanned the shard. -/
theorem evictsOnly_of_conflict {senderId clientMsgId serverMsgId receiverId : UInt64}
    {status : MessageAckStatus} {now : ℕ}
    (h : (c.reserve senderId clientMsgId serverMsgId receiverId status now).1.state = .conflict) :
    c.EvictsOnly (c.reserve senderId clientMsgId serverMsgId receiverId status now).2 := by
  unfold reserve at h ⊢
  split_ifs at h ⊢
  · exact .inl rfl
  · dsimp only at h ⊢
    split
    · exact .inr ⟨_, now, rfl⟩
    · rename_i hnone
      -- a key that is not there is reserved
      split at h
      · rename_i hsome
        rw [hnone] at hsome
        cases hsome
      · cases h

end ClientDedupCache

namespace Sending

def sendP2pMessage (s : Sending) (senderId : UInt64) (req : P2PMessage) : Sending × Option Send :=
  let r := s.service.sendP2pMessage senderId req
  ({ s with service := r.1 }, r.2)

section Steps

variable (codec : Codec)

def pushP2pMessage (push : Option PushService) (now : Int64) (msg : P2PMessage) :
    Bool × Option PushService :=
  match push with
  | none => (false, none)
  | some p => ((p.pushP2pMessage codec now msg).1, some (p.pushP2pMessage codec now msg).2)

def envOf (s : Sending) (c : Send) (x : Surroundings) : Env :=
  match c.pc with
  | .push msgId =>
    { x.toEnv with
      delivered := (pushP2pMessage codec s.push x.timestamp (c.msgToStore msgId)).1 }
  | _ => x.toEnv

def pushOf (s : Sending) (c : Send) (x : Surroundings) : Option PushService :=
  match c.pc with
  | .push msgId => (pushP2pMessage codec s.push x.timestamp (c.msgToStore msgId)).2
  | _ => s.push

def advance (s : Sending) (c : Send) (x : Surroundings) : Sending × Option Send :=
  let r := s.service.advance c (s.envOf codec c x)
  (⟨r.1, s.pushOf codec c x⟩, r.2)

/-- The steps of one call so far, each with the state it found and the state it left, and where
the call goes on. Between two of them the other threads may have changed everything but the
mode. An upsert that reports failure has written nothing. -/
inductive Calls (mode : DedupMode) (senderId : UInt64) (req : P2PMessage) :
    List (Sending × Sending) → Option Send → Prop where
  | start (s : Sending) (hmode : s.service.mode = mode) :
      Calls mode senderId req [(s, (s.sendP2pMessage senderId req).1)]
        (s.sendP2pMessage senderId req).2
  | step {past : List (Sending × Sending)} {c : Send} (h : Calls mode senderId req past (some c))
      (s : Sending) (hmode : s.service.mode = mode) (x : Surroundings)
      (hupsert : x.upsert ≠ .error true) :
      Calls mode senderId req (past ++ [(s, (s.advance codec c x).1)]) (s.advance codec c x).2

end Steps

def lastAck (s : Sending) : Option MessageAck := s.service.answers.getLast?.map Answer.ack

/-- What a call was answered that is over. -/
def reply (past : List (Sending × Sending)) : Option MessageAck :=
  past.getLast?.bind fun t => t.2.lastAck

/-- Nothing is enqueued, pushed, stored or written to the dedup table, and the cache has at most
lost entries to a scan. -/
structure Untouched (s t : Sending) : Prop where
  writer : t.service.writer = s.service.writer
  enqueued : t.service.enqueued = s.service.enqueued
  stored : t.service.stored = s.service.stored
  push : t.push = s.push
  dedup : t.service.dedup = s.service.dedup
  cache : s.service.cache.EvictsOnly t.service.cache

theorem Untouched.refl (s : Sending) : s.Untouched s := ⟨rfl, rfl, rfl, rfl, rfl, .inl rfl⟩

theorem Untouched.answer {s : Sending} {service : MsgService}
    (h : s.Untouched { s with service := service }) (key : DedupKey) (ack : MessageAck)
    (fromDedup : Bool) :
    s.Untouched { s with service := service.answer key ack fromDedup } :=
  ⟨h.writer, h.enqueued, h.stored, h.push, h.dedup, h.cache⟩

@[simp] theorem lastAck_answer (push : Option PushService) (service : MsgService) (key : DedupKey)
    (ack : MessageAck) (fromDedup : Bool) :
    lastAck ⟨service.answer key ack fromDedup, push⟩ = some ack := by
  simp [lastAck, MsgService.answer]

/-- Where a call stands that can still be refused. In the fast mode it no longer can once it has
reserved its key. -/
def MayBeRefused (mode : DedupMode) (c : Send) : Prop :=
  match c.pc with
  | .getDedup | .generate | .reserve _ => True
  | .upsertReceived _ => mode = .sync
  | _ => False

/-- What a step can do for a call that is refused in the end. -/
def Harmless (s : Sending) (c : Send) (r : Sending × Option Send) : Prop :=
  match r.2 with
  | some c' => MayBeRefused s.service.mode c' → MayBeRefused s.service.mode c ∧ s.Untouched r.1
  | none => ∀ ack, r.1.lastAck = some ack → ack.success = false →
      MayBeRefused s.service.mode c ∧ s.Untouched r.1

section Harmless

variable {s : Sending} {c : Send}

theorem harmless_success {service : MsgService} {push : Option PushService} {key : DedupKey}
    {ack : MessageAck} {fromDedup : Bool} (h : ack.success = true) :
    s.Harmless c (⟨service.answer key ack fromDedup, push⟩, none) := by
  intro ack' hack hrefused
  rw [lastAck_answer, Option.some.injEq] at hack
  rw [← hack, h] at hrefused
  cases hrefused

theorem harmless_accepted {s' : Sending} {c' : Send}
    (h : ¬ MayBeRefused s.service.mode c') : s.Harmless c (s', some c') :=
  fun hmay => absurd hmay h

theorem harmless_untouched {s' : Sending} {next : Option Send}
    (hmay : MayBeRefused s.service.mode c) (h : s.Untouched s') : s.Harmless c (s', next) := by
  cases next with
  | none => exact fun _ _ _ => ⟨hmay, h⟩
  | some c' => exact fun _ => ⟨hmay, h⟩

/-- Every step but the push leaves the push queue as it is. -/
theorem pushOf_eq (codec : Codec) {x : Surroundings} (h : ∀ id, c.pc ≠ .push id) :
    s.pushOf codec c x = s.push := by
  unfold pushOf
  split
  · rename_i id hpc
    exact absurd hpc (h id)
  · rfl

theorem harmless_advance (codec : Codec) (s : Sending) (c : Send) {x : Surroundings}
    (hupsert : x.upsert ≠ .error true) : s.Harmless c (s.advance codec c x) := by
  have henv : (s.envOf codec c x).upsert = x.upsert := by
    unfold envOf
    split <;> rfl
  have hpush : ∀ {pc}, c.pc = pc → (∀ id, pc ≠ .push id) → s.pushOf codec c x = s.push :=
    fun hpc hne => pushOf_eq codec fun id hid => hne id (hpc ▸ hid)
  unfold advance
  dsimp only
  have hadv := s.service.advances c (s.envOf codec c x)
  generalize s.service.advance c (s.envOf codec c x) = r at hadv
  cases hadv with
  | found row hpc => exact harmless_success rfl
  | missed hpc =>
    rw [hpush hpc nofun]
    exact harmless_untouched (by simp [MayBeRefused, hpc]) (.refl s)
  | generate hpc =>
    rw [hpush hpc nofun]
    exact harmless_untouched (by simp [MayBeRefused, hpc]) ⟨rfl, rfl, rfl, rfl, rfl, .inl rfl⟩
  | duplicate id hpc => exact harmless_success rfl
  | conflict id hpc hfast hstate =>
    have hcache := ClientDedupCache.evictsOnly_of_conflict hstate
    rw [hpush hpc nofun]
    exact harmless_untouched (by simp [MayBeRefused, hpc]) ⟨rfl, rfl, rfl, rfl, rfl, hcache⟩
  | reserved id hpc hfast =>
    exact harmless_accepted (by simp [MayBeRefused, Send.goto, hfast.1])
  | unreserved id hpc =>
    rw [hpush hpc nofun]
    exact harmless_untouched (by simp [MayBeRefused, hpc]) (.refl s)
  | unsaved id hpc hsync hfailed =>
    -- the one refusal that has tried to write
    have hkept := (MsgService.upsertClientMsgDedup_failed hfailed).resolve_right (henv ▸ hupsert)
    rw [hpush hpc nofun]
    exact harmless_untouched (by simp [MayBeRefused, hpc, hsync.1])
      ⟨rfl, rfl, rfl, rfl, hkept, .inl rfl⟩
  | saved id hpc => exact harmless_accepted (by simp [MayBeRefused, Send.goto])
  | passed id hpc => exact harmless_accepted (by simp [MayBeRefused, Send.goto])
  | enqueue id hpc => exact harmless_accepted (by simp [MayBeRefused, Send.goto])
  | push id hpc => exact harmless_accepted (by simp [MayBeRefused, Send.goto])
  | updated id delivered hpc => exact harmless_accepted (by simp [MayBeRefused, Send.goto])
  | notUpdated id delivered hpc => exact harmless_accepted (by simp [MayBeRefused, Send.goto])
  | acceptedSaved id delivered hpc => exact harmless_success rfl
  | accepted id delivered hpc => exact harmless_success rfl

end Harmless

theorem untouched_start (s : Sending) (senderId : UInt64) (req : P2PMessage) :
    s.Untouched (s.sendP2pMessage senderId req).1 := by
  unfold sendP2pMessage MsgService.sendP2pMessage
  dsimp only
  split_ifs
  · exact (Untouched.refl s).answer ..
  · exact (Untouched.refl s).answer ..
  · exact (Untouched.refl s).answer ..
  · exact .refl s

theorem reply_append (past : List (Sending × Sending)) (t : Sending × Sending) :
    reply (past ++ [t]) = t.2.lastAck := by
  simp [reply]

variable {codec : Codec} {mode : DedupMode} {senderId : UInt64} {req : P2PMessage}
  {past : List (Sending × Sending)} {next : Option Send}

/-- A call can still be refused, or it was. -/
def Refusable (mode : DedupMode) (past : List (Sending × Sending)) : Option Send → Prop
  | some c => MayBeRefused mode c
  | none => ∃ ack, reply past = some ack ∧ ack.success = false

/-- The steps of such a call have left everything as it was. -/
theorem Calls.untouched (h : Calls codec mode senderId req past next)
    (hnext : Refusable mode past next) : ∀ t ∈ past, t.1.Untouched t.2 := by
  induction h with
  | start s hmode =>
    intro t ht
    rw [List.mem_singleton.mp ht]
    exact untouched_start s senderId req
  | step h s hmode x hupsert ih =>
    rename_i past c
    have hstep := harmless_advance codec s c hupsert
    have hthis : MayBeRefused mode c ∧ s.Untouched (s.advance codec c x).1 := by
      unfold Harmless at hstep
      rw [hmode] at hstep
      cases hr : (s.advance codec c x).2 with
      | some c' =>
        rw [hr] at hstep hnext
        exact hstep hnext
      | none =>
        rw [hr] at hstep hnext
        obtain ⟨ack, hack, hrefused⟩ := hnext
        rw [reply_append] at hack
        exact hstep ack hack hrefused
    intro t ht
    cases List.mem_append.mp ht with
    | inl hpast => exact ih hthis.1 t hpast
    | inr hlast =>
      rw [List.mem_singleton.mp hlast]
      exact hthis.2

/-- A refused send has no effect, whatever the other threads do meanwhile. -/
theorem refused_send_has_no_effect {ack : MessageAck}
    (hcall : Calls codec mode senderId req past none) (hack : reply past = some ack)
    (hrefused : ack.success = false) :
    ∀ t ∈ past, t.1.Untouched t.2 ∧
      ∀ key v, t.2.service.cache.find key = some v → t.1.service.cache.find key = some v := by
  intro t ht
  have huntouched := hcall.untouched ⟨ack, hack, hrefused⟩ t ht
  exact ⟨huntouched, fun _ _ hfind => huntouched.cache.find hfind⟩

/-- A fast mode whose cache has key `(7, 5)` for a message to user 8. -/
def keyTaken : Sending :=
  ⟨{ MsgService.init .fast (fun _ => none) [] with
      cache := ((ClientDedupCache.make 1 1800000000000 8192).reserve 7 5 1 8 .received 0).2 },
    some (.init UInt64.toNat)⟩

/-- The same client message id, for user 9. -/
def otherReceiver : P2PMessage := { receiverId := 9, clientMsgId := 5, timestamp := 1 }

def later : Surroundings := { nowMs := IdGenerator.epoch + 1, now := 1 }

def reserving : Send :=
  ⟨7, otherReceiver, .reserve (IdGenerator.generateMsgId later.nowMs 0)⟩

theorem refused_send_has_no_effect_conflict :
    ∃ past ack, Calls (.ofTable [] List.nodup_nil) .fast 7 otherReceiver past none ∧
      reply past = some ack ∧ ack = MsgService.refusal "Conflicting duplicate client_msg_id" ∧
      ∀ t ∈ past, t.1.Untouched t.2 ∧
        ∀ key v, t.2.service.cache.find key = some v → t.1.service.cache.find key = some v := by
  let codec : Codec := .ofTable [] List.nodup_nil
  have hstart : Calls codec .fast 7 otherReceiver _ (some ⟨7, otherReceiver, .getDedup⟩) :=
    Calls.start keyTaken rfl
  have hget : Calls codec .fast 7 otherReceiver _ (some ⟨7, otherReceiver, .generate⟩) :=
    hstart.step keyTaken rfl later nofun
  have hgenerate : Calls codec .fast 7 otherReceiver _ (some reserving) :=
    hget.step keyTaken rfl later nofun
  have hreserve := hgenerate.step keyTaken rfl later nofun
  have hend : (keyTaken.advance codec reserving later).2 = none :=
    Option.isNone_iff_eq_none.mp (by decide +kernel)
  have hack : (keyTaken.advance codec reserving later).1.lastAck =
      some (MsgService.refusal "Conflicting duplicate client_msg_id") := by decide +kernel
  rw [hend] at hreserve
  have hreply (past : List (Sending × Sending)) :=
    (reply_append past (keyTaken, (keyTaken.advance codec reserving later).1)).trans hack
  exact ⟨_, _, hreserve, hreply _, rfl, refused_send_has_no_effect hreserve (hreply _) rfl⟩

end Sending

end TermChat
