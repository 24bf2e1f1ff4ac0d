import TermChat.Service.Msg

/-! At-most-once acceptance of a client message id in the synchronous mode. The lookup and the
upsert of the row are separate steps, so it rests on no two calls of a key being between them. -/
namespace TermChat
open Proto MsgScyllaDao

namespace Send.Pc

/-- After a lookup that found no row, before the row is written. -/
def missed : Pc → Bool
  | .generate | .reserve _ | .upsertReceived _ => true
  | _ => false

/-- A message will be enqueued. -/
def unfinished : Pc → Bool
  | .enqueue _ => true
  | pc => pc.missed

/-- The id under which the call has accepted its message. -/
def accepted : Pc → Option UInt64
  | .enqueue id | .push id | .updateStatus id _ | .upsertEnqueued id _ => some id
  | _ => none

end Send.Pc

/-- One key: its row, the messages enqueued for it, its calls in progress and its successful
answers. At most one message has been or will be enqueued, and the row has its id. -/
structure Once (row : Option DedupRow) (enqueued : List P2PMessage) (calls : List Send)
    (answers : List Answer) : Prop where
  load : enqueued.length + calls.countP (fun c => c.pc.unfinished) ≤ 1
  missed : row.isSome → ∀ c ∈ calls, c.pc.missed = false
  of_enqueued : ∀ m ∈ enqueued, row.map DedupRow.serverMsgId = some m.msgId
  of_accepted : ∀ c ∈ calls, ∀ id, c.pc.accepted = some id → row.map DedupRow.serverMsgId = some id
  of_answer : ∀ a ∈ answers, row.map DedupRow.serverMsgId = some a.ack.msgId

namespace Once

variable {row : Option DedupRow} {enqueued : List P2PMessage} {c c' : Send} {calls calls' : List Send}
  {answers : List Answer}

theorem nil (row : Option DedupRow) : Once row [] [] [] :=
  ⟨by simp, by simp, by simp, by simp, by simp⟩

theorem perm (h : Once row enqueued calls answers) (hp : calls'.Perm calls) :
    Once row enqueued calls' answers where
  load := by rw [hp.countP_eq]; exact h.load
  missed hr c hc := h.missed hr c (hp.mem_iff.mp hc)
  of_enqueued := h.of_enqueued
  of_accepted c hc := h.of_accepted c (hp.mem_iff.mp hc)
  of_answer := h.of_answer

theorem start (h : Once row enqueued calls answers) (hc : c.pc = .getDedup) :
    Once row enqueued (calls ++ [c]) answers where
  load := by
    have := h.load
    simpa [List.countP_append, hc, Send.Pc.unfinished, Send.Pc.missed] using this
  missed hr d hd := by
    cases List.mem_append.mp hd with
    | inl hd => exact h.missed hr d hd
    | inr hd => rw [List.mem_singleton.mp hd, hc]; rfl
  of_enqueued := h.of_enqueued
  of_accepted d hd id hid := by
    cases List.mem_append.mp hd with
    | inl hd => exact h.of_accepted d hd id hid
    | inr hd => rw [List.mem_singleton.mp hd, hc] at hid; cases hid
  of_answer := h.of_answer

theorem move (h : Once row enqueued (c :: calls) answers) {pc pc' : Send.Pc} (hc : c.pc = pc)
    (hu : pc'.unfinished = pc.unfinished) (hm : pc'.missed = pc.missed)
    (ha : pc'.accepted = pc.accepted) : Once row enqueued (c.goto pc' :: calls) answers where
  load := by
    have := h.load
    rwa [List.countP_cons, hc, ← hu, ← Send.pc_goto c pc', ← List.countP_cons] at this
  missed hr := by
    have := h.missed hr
    simpa only [List.forall_mem_cons, Send.pc_goto, hc, hm] using this
  of_enqueued := h.of_enqueued
  of_accepted := by
    have := h.of_accepted
    simpa only [List.forall_mem_cons, Send.pc_goto, hc, ha] using this
  of_answer := h.of_answer

theorem drop (h : Once row enqueued (c :: calls) answers) : Once row enqueued calls answers where
  load := by
    have := h.load
    rw [List.countP_cons] at this
    omega
  missed hr d hd := h.missed hr d (List.mem_cons_of_mem c hd)
  of_enqueued := h.of_enqueued
  of_accepted d hd := h.of_accepted d (List.mem_cons_of_mem c hd)
  of_answer := h.of_answer

theorem answer (h : Once row enqueued calls answers) {a : Answer}
    (ha : row.map DedupRow.serverMsgId = some a.ack.msgId) :
    Once row enqueued calls (answers ++ [a]) where
  load := h.load
  missed := h.missed
  of_enqueued := h.of_enqueued
  of_accepted := h.of_accepted
  of_answer b hb := by
    cases List.mem_append.mp hb with
    | inl hb => exact h.of_answer b hb
    | inr hb => rw [List.mem_singleton.mp hb]; exact ha

theorem rewrite {r r' : DedupRow} (h : Once (some r) enqueued calls answers)
    (hr : r'.serverMsgId = r.serverMsgId) : Once (some r') enqueued calls answers where
  load := h.load
  missed _ := h.missed rfl
  of_enqueued := by simpa [hr] using h.of_enqueued
  of_accepted := by simpa [hr] using h.of_accepted
  of_answer := by simpa [hr] using h.of_answer

theorem nil_of_none (h : Once none enqueued calls answers) :
    enqueued = [] ∧ answers = [] ∧ ∀ c ∈ calls, c.pc.accepted = none := by
  refine ⟨List.eq_nil_iff_forall_not_mem.mpr fun m hm => ?_,
    List.eq_nil_iff_forall_not_mem.mpr fun a ha => ?_, fun c hc => ?_⟩
  · exact absurd (h.of_enqueued m hm) nofun
  · exact absurd (h.of_answer a ha) nofun
  · cases hid : c.pc.accepted with
    | none => rfl
    | some id => exact absurd (h.of_accepted c hc id hid) nofun

private theorem unfinished_eq (pc : Send.Pc) (hm : pc.missed = false) (ha : pc.accepted = none) :
    pc.unfinished = false := by
  cases pc with
  | enqueue id => cases ha
  | generate | reserve id | upsertReceived id => exact hm
  | _ => rfl

private theorem missed_eq (pc : Send.Pc) (hu : pc.unfinished = false) : pc.missed = false := by
  cases pc with
  | enqueue id => cases hu
  | _ => exact hu

/-- A lookup finds no row, and no other call is past such a lookup. -/
theorem miss (h : Once none enqueued (c :: calls) answers)
    (halone : ∀ d ∈ calls, d.pc.missed = false) :
    Once none enqueued (c.goto .generate :: calls) answers := by
  obtain ⟨henq, hans, hacc⟩ := h.nil_of_none
  have hidle : calls.countP (fun d => d.pc.unfinished) = 0 := by
    apply List.countP_eq_zero.mpr
    intro d hd
    rw [unfinished_eq d.pc (halone d hd) (hacc d (List.mem_cons_of_mem c hd))]
    exact Bool.false_ne_true
  refine ⟨?_, nofun, h.of_enqueued, ?_, h.of_answer⟩
  · rw [List.countP_cons, hidle, henq]
    exact Nat.le_refl 1
  · intro d hd id hid
    cases List.mem_cons.mp hd with
    | inl hd => rw [hd] at hid; cases hid
    | inr hd => exact h.of_accepted d (List.mem_cons_of_mem c hd) id hid

/-- The row is written by the only call that may write it. -/
theorem record (h : Once row enqueued (c :: calls) answers) {id : UInt64} {r : DedupRow}
    (hc : c.pc = .upsertReceived id) (hr : r.serverMsgId = id) :
    Once (some r) enqueued (c.goto (.enqueue id) :: calls) answers := by
  have hnone : row = none := by
    cases row with
    | none => rfl
    | some r =>
      have := h.missed rfl c List.mem_cons_self
      rw [hc] at this
      cases this
  subst hnone
  obtain ⟨henq, hans, hacc⟩ := h.nil_of_none
  have hu : c.pc.unfinished = true := by rw [hc]; rfl
  have hload := h.load
  simp only [List.countP_cons, hu, if_true] at hload
  have hidle : calls.countP (fun d => d.pc.unfinished) = 0 := by omega
  refine ⟨?_, fun _ d hd => ?_, ?_, ?_, ?_⟩
  · have hgoto : (c.goto (.enqueue id)).pc.unfinished = true := rfl
    simp only [List.countP_cons, hgoto, if_true]
    exact hload
  · cases List.mem_cons.mp hd with
    | inl hd => rw [hd]; rfl
    | inr hd =>
      have hd := List.countP_eq_zero.mp hidle d hd
      exact missed_eq d.pc (Bool.eq_false_iff.mpr hd)
  · simp [henq]
  · intro d hd id' hid
    cases List.mem_cons.mp hd with
    | inl hd => rw [hd] at hid; cases hid; exact congrArg some hr
    | inr hd => rw [hacc d (List.mem_cons_of_mem c hd)] at hid; cases hid
  · simp [hans]

theorem enqueue (h : Once row enqueued (c :: calls) answers) {id : UInt64} {m : P2PMessage}
    (hc : c.pc = .enqueue id) (hm : m.msgId = id) :
    Once row (enqueued ++ [m]) (c.goto (.push id) :: calls) answers := by
  have hid := h.of_accepted c List.mem_cons_self id (by rw [hc]; rfl)
  have hu : c.pc.unfinished = true := by rw [hc]; rfl
  have hload := h.load
  simp only [List.countP_cons, hu, if_true] at hload
  refine ⟨?_, fun hr d hd => ?_, fun m' hm' => ?_, fun d hd id' hid' => ?_, h.of_answer⟩
  · have hpush : (c.goto (.push id)).pc.unfinished = false := rfl
    rw [List.countP_cons, hpush, List.length_append, List.length_singleton]
    simp only [Bool.false_eq_true, if_false]
    omega
  · cases List.mem_cons.mp hd with
    | inl hd => rw [hd]; rfl
    | inr hd => exact h.missed hr d (List.mem_cons_of_mem c hd)
  · cases List.mem_append.mp hm' with
    | inl hm' => exact h.of_enqueued m' hm'
    | inr hm' => rw [List.mem_singleton.mp hm', hm]; exact hid
  · cases List.mem_cons.mp hd with
    | inl hd => rw [hd] at hid'; cases hid'; exact hid
    | inr hd => exact h.of_accepted d (List.mem_cons_of_mem c hd) id' hid'

end Once

namespace MsgService

variable (s : MsgService) (k : DedupKey)

def enqueuedFor : List P2PMessage := s.enqueued.filter fun m => msgKey m = k

/-- The answers of success to the calls of a key. -/
def answersFor : List Answer := s.answers.filter fun a => a.key = k ∧ a.ack.success = true

def OnceFor (calls : List Send) : Prop := Once (s.dedup k) (s.enqueuedFor k) calls (s.answersFor k)

variable {s k}

private theorem answersFor_answer (key : DedupKey) (ack : MessageAck) (fromDedup : Bool) :
    (s.answer key ack fromDedup).answersFor k =
      s.answersFor k ++ if key = k ∧ ack.success = true then [⟨key, ack, fromDedup⟩] else [] := by
  rw [answersFor, answer, List.filter_append, answersFor]
  by_cases h : key = k ∧ ack.success = true
  · simp [h]
  · rw [if_neg h]
    simpa using h

/-- A second write of a row keeps the id that it has. -/
theorem OnceFor.upsert {calls : List Send} (h : s.OnceFor k calls) {m : P2PMessage}
    (hm : msgKey m = k) (hid : (s.dedup k).map DedupRow.serverMsgId = some m.msgId)
    (status : MessageAckStatus) (out : InsertOutcome) : (s.upsert m status out).OnceFor k calls := by
  have hcases := upsertClientMsgDedup_cases s.dedup m.senderId m.clientMsgId m.msgId m.receiverId
    status out
  unfold MsgService.upsert OnceFor
  dsimp only
  rcases hcases with hsame | ⟨-, hnew⟩
  · rw [hsame]
    exact h
  · obtain ⟨r, hr, hrid⟩ := Option.map_eq_some_iff.mp hid
    have hrow : Once (some r) (s.enqueuedFor k) calls (s.answersFor k) := hr ▸ h
    have hself : Function.update s.dedup (m.senderId, m.clientMsgId)
        (some ⟨m.msgId, m.receiverId, status⟩) k = some ⟨m.msgId, m.receiverId, status⟩ := by
      rw [← hm]
      exact Function.update_self _ _ _
    rw [hnew, hself]
    exact hrow.rewrite hrid.symm

theorem OnceFor.answer {calls : List Send} (h : s.OnceFor k calls) {key : DedupKey}
    {ack : MessageAck} {fromDedup : Bool}
    (ha : key = k → ack.success = true → (s.dedup k).map DedupRow.serverMsgId = some ack.msgId) :
    (s.answer key ack fromDedup).OnceFor k calls := by
  unfold OnceFor
  rw [answersFor_answer]
  split_ifs with hk
  · exact Once.answer h (ha hk.1 hk.2)
  · rw [List.append_nil]
    exact h

/-- The first upsert of a call of another key leaves the row of the key alone. -/
theorem firstUpsert_of_ne {c : Send} (hne : c.key ≠ k) (env : Env) (id : UInt64) :
    (s.firstUpsert c env id).1 k = s.dedup k := by
  rcases upsertClientMsgDedup_cases s.dedup c.senderId c.req.clientMsgId id c.req.receiverId
    .received env.upsert with hsame | ⟨-, hnew⟩
  · exact congrFun hsame k
  · exact (congrFun hnew k).trans (Function.update_of_ne (Ne.symm hne) _ _)

/-- A step of a call of another key leaves the key alone. -/
theorem OnceFor.advance_of_ne {calls : List Send} (h : s.OnceFor k calls) {c : Send}
    (hne : c.key ≠ k) (env : Env) : (s.advance c env).1.OnceFor k calls := by
  have hother : ∀ ack b, (s.answer c.key ack b).OnceFor k calls :=
    fun ack b => h.answer fun hk => absurd hk hne
  have hreceipt : ∀ id, { s with dedup := (s.firstUpsert c env id).1 }.OnceFor k calls := by
    intro id
    unfold OnceFor
    dsimp only
    rw [firstUpsert_of_ne hne]
    exact h
  have hadv := s.advances c env
  generalize s.advance c env = next at hadv ⊢
  cases hadv with
  | unsaved id => exact (hreceipt id).answer fun hk => absurd hk hne
  | saved id => exact hreceipt id
  | enqueue id hpc =>
    have henq : (s.enqueued ++ [c.msgToStore id]).filter (fun m => msgKey m = k) =
        s.enqueuedFor k := by
      simp [List.filter_append, hne, enqueuedFor]
    unfold OnceFor enqueuedFor
    dsimp only
    rw [henq]
    exact h
  | acceptedSaved id delivered hpc hsave =>
    have hrow : (s.upsert (c.msgToStore id) .enqueued env.upsert).OnceFor k calls := by
      unfold OnceFor
      rw [dedup_upsert_of_ne (by simpa using hne)]
      exact h
    exact hrow.answer fun hk => absurd hk hne
  | found | duplicate | conflict | accepted => exact hother _ _
  | _ => exact h

/-- A step of a call of the key. A lookup has to go through, and one that finds nothing has to be
the only one. -/
theorem OnceFor.advance {c : Send} {calls : List Send} (h : s.OnceFor k (c :: calls))
    (hmode : s.mode = .sync) (hkey : c.key = k) (hid : k.2 ≠ 0) (hsender : c.senderId ≠ 0)
    {env : Env} (hquery : env.query = true)
    (halone : c.pc = .getDedup → s.dedup k = none → ∀ d ∈ calls, d.pc.missed = false) :
    (s.advance c env).1.OnceFor k ((s.advance c env).2.toList ++ calls) := by
  have hclient : c.req.clientMsgId ≠ 0 := by rw [← hkey] at hid; exact hid
  have hslow : ¬ (s.mode = .fast ∧ c.req.clientMsgId ≠ 0) := by rw [hmode]; exact fun h => nomatch h.1
  have hget : getClientMsgDedup s.dedup c.senderId c.req.clientMsgId env.query = s.dedup k := by
    rw [getClientMsgDedup, if_neg (by simp [hsender, hclient]), if_pos hquery, ← hkey]
    rfl
  -- the row of the key, when the first upsert of the call has been applied
  have hrecord : ∀ {id}, c.pc = .upsertReceived id →
      (s.firstUpsert c env id).1 = Function.update s.dedup (c.senderId, c.req.clientMsgId)
        (some ⟨id, c.req.receiverId, .received⟩) →
      { s with dedup := (s.firstUpsert c env id).1 }.OnceFor k (c.goto (.enqueue id) :: calls) := by
    intro id hpc heq
    have hrow : (s.firstUpsert c env id).1 k = some ⟨id, c.req.receiverId, .received⟩ := by
      rw [heq, ← hkey]
      exact Function.update_self _ _ _
    unfold OnceFor
    dsimp only
    rw [hrow]
    exact Once.record h hpc rfl
  -- a call that is about to be accepted has its row
  have haccepted : ∀ {id delivered}, c.pc = .upsertEnqueued id delivered →
      (s.dedup k).map DedupRow.serverMsgId = some id ∧
        (s.answer c.key (acceptedAck c id delivered) false).OnceFor k calls := by
    intro id delivered hpc
    have hrow : (s.dedup k).map DedupRow.serverMsgId = some id :=
      h.of_accepted c List.mem_cons_self id (by rw [hpc]; rfl)
    exact ⟨hrow, OnceFor.answer (Once.drop h) fun _ _ => hrow⟩
  have hadv := s.advances c env
  generalize s.advance c env = next at hadv ⊢
  cases hadv with
  | found row hpc hsync hrow =>
    apply OnceFor.answer (Once.drop h)
    intro _ _
    rw [← hget, hrow]
    rfl
  | missed hpc hmiss =>
    have hrow : s.dedup k = none := hget.symm.trans (hmiss ⟨hmode, hclient⟩)
    have h' : Once none (s.enqueuedFor k) (c :: calls) (s.answersFor k) := hrow ▸ h
    show Once (s.dedup k) _ _ _
    rw [hrow]
    exact h'.miss (halone hpc hrow)
  | duplicate id hpc hfast | conflict id hpc hfast | reserved id hpc hfast =>
    exact absurd hfast hslow
  | updated id delivered hpc hfast => exact absurd hfast hslow
  | unsaved id hpc =>
    have hdropped : { s with dedup := (s.firstUpsert c env id).1 }.OnceFor k calls := by
      rcases upsertClientMsgDedup_cases s.dedup c.senderId c.req.clientMsgId id c.req.receiverId
        .received env.upsert with hsame | ⟨-, hnew⟩
      · unfold OnceFor
        dsimp only
        rw [hsame]
        exact Once.drop h
      · exact Once.drop (hrecord hpc hnew)
    exact hdropped.answer fun _ hs => nomatch hs
  | saved id hpc hsync hok => exact hrecord hpc (upsertClientMsgDedup_eq hok)
  | passed id hpc hpass => exact absurd ⟨hmode, hclient⟩ hpass
  | enqueue id hpc =>
    have henq : (s.enqueued ++ [c.msgToStore id]).filter (fun m => msgKey m = k) =
        s.enqueuedFor k ++ [c.msgToStore id] := by
      simp [List.filter_append, hkey, enqueuedFor]
    unfold OnceFor enqueuedFor
    dsimp only
    rw [henq]
    exact Once.enqueue h hpc rfl
  | generate hpc | unreserved id hpc | push id hpc | notUpdated id delivered hpc =>
    exact Once.move h hpc rfl rfl rfl
  | acceptedSaved id delivered hpc =>
    exact (haccepted hpc).2.upsert (m := c.msgToStore id) hkey (haccepted hpc).1 .enqueued env.upsert
  | accepted id delivered hpc => exact (haccepted hpc).2

/-- A step of the worker writes a row only for a message that was enqueued. -/
theorem OnceFor.work {calls : List Send} (h : s.OnceFor k calls)
    (hitems : ∀ m ∈ s.writer.items, m ∈ s.enqueued) (out : InsertOutcome) (now : ℕ) :
    (s.work out now).OnceFor k calls := by
  have hnotify : (s.notify out now).OnceFor k calls := by
    unfold notify
    split
    · rename_i m success hcall
      have hup : ∀ cache, ({ s with cache := cache }.upsert m .persisted out).OnceFor k calls := by
        intro cache
        by_cases hm : msgKey m = k
        · have hitem := hitems m (s.writer.reported_subset (s.writer.mem_reported_of_callback hcall))
          have hmem : m ∈ s.enqueuedFor k := List.mem_filter.mpr ⟨hitem, decide_eq_true hm⟩
          exact OnceFor.upsert (s := { s with cache := cache }) h hm (h.of_enqueued m hmem) .persisted
            out
        · unfold OnceFor
          rw [dedup_upsert_of_ne hm]
          exact h
      unfold onMessagePersisted
      split_ifs
      · exact h
      · exact hup _
      · exact hup _
    · exact h
  exact hnotify

end MsgService

namespace MsgServer

variable {s t : MsgServer} {k : DedupKey}

def callsFor (s : MsgServer) (k : DedupKey) : List Send := s.calls.filter fun c => c.key = k

/-- At most one message has been enqueued for the key, and all its successful answers agree. -/
def AtMostOnce (k : DedupKey) (s : MsgServer) : Prop :=
  (s.service.enqueuedFor k).length ≤ 1 ∧
    ∀ a ∈ s.service.answersFor k, ∀ b ∈ s.service.answersFor k, a.ack.msgId = b.ack.msgId

/-- A lookup of the key that finds no row is taken while no other call of the key stands between
its own such lookup and its upsert. -/
def LooksUpAlone (k : DedupKey) (s : MsgServer) : Action → Prop
  | .call i _ =>
    match s.calls[i]? with
    | some c => c.key = k ∧ c.pc = .getDedup ∧ s.service.dedup k = none →
        ∀ d ∈ Threads.others s.calls i, d.key = k → d.pc.missed = false
    | none => True
  | _ => True

instance (k : DedupKey) (s : MsgServer) (a : Action) : Decidable (LooksUpAlone k s a) := by
  unfold LooksUpAlone
  repeat' split
  all_goals infer_instance

def Queries : Action → Prop
  | .call _ env => env.query = true
  | _ => True

instance (a : Action) : Decidable (Queries a) := by
  unfold Queries
  split
  all_goals infer_instance

/-- The invariant of the runs whose lookups are alone. -/
structure Consistent (k : DedupKey) (s : MsgServer) : Prop where
  mode : s.service.mode = .sync
  once : s.service.OnceFor k (s.callsFor k)
  items : ∀ m ∈ s.service.writer.items, m ∈ s.service.enqueued
  sender : ∀ c ∈ s.calls, c.senderId ≠ 0

theorem Consistent.atMostOnce (h : Consistent k s) : AtMostOnce k s := by
  constructor
  · have := h.once.load
    omega
  · intro a ha b hb
    have := (h.once.of_answer a ha).symm.trans (h.once.of_answer b hb)
    exact Option.some.inj this

theorem filter_singleton (c : Send) (k : DedupKey) :
    [c].filter (fun d => d.key = k) = if c.key = k then [c] else [] := by
  by_cases hk : c.key = k <;> simp [hk]

theorem init_consistent (k : DedupKey) (dedup : DedupTable) (stored : List P2PMessage) :
    Consistent k (init .sync dedup stored) :=
  ⟨rfl, Once.nil (dedup k), nofun, nofun⟩

theorem send_consistent (h : Consistent k s) {senderId : UInt64} {req : P2PMessage}
    (ht : step s (.send senderId req) = some t) : Consistent k t := by
  cases step_send ht with
  | inl hrefused =>
    obtain ⟨errorMsg, rfl⟩ := hrefused
    exact ⟨h.mode, h.once.answer (fun _ hs => nomatch hs), h.items, h.sender⟩
  | inr hstart =>
    obtain ⟨hsender, rfl⟩ := hstart
    refine ⟨h.mode, ?_, h.items, ?_⟩
    · unfold callsFor
      rw [List.filter_append, filter_singleton]
      split_ifs
      · exact Once.start h.once rfl
      · rw [List.append_nil]
        exact h.once
    · intro c hc
      cases List.mem_append.mp hc with
      | inl hc => exact h.sender c hc
      | inr hc => rw [List.mem_singleton.mp hc]; exact hsender

theorem filter_advance {c : Send} {env : Env} (k : DedupKey) :
    (s.service.advance c env).2.toList.filter (fun d => d.key = k) =
      if c.key = k then (s.service.advance c env).2.toList else [] := by
  cases hnext : (s.service.advance c env).2 with
  | none => simp
  | some next =>
    obtain ⟨pc, rfl⟩ := s.service.goto_of_advance hnext
    by_cases hk : c.key = k <;> simp [hk]

theorem once_call (hid : k.2 ≠ 0) (h : Consistent k s) {i : ℕ} {env : Env} {c : Send}
    (hquery : env.query = true) (halone : LooksUpAlone k s (.call i env))
    (hc : s.calls[i]? = some c) :
    (s.service.advance c env).1.OnceFor k
      ((Threads.advance s.calls i (s.service.advance c env).2).filter fun d => d.key = k) := by
  -- the calls of the key, with the acting call in front if it is one of them
  have hbefore := Threads.filter_perm hc fun d => d.key = k
  rw [filter_singleton] at hbefore
  refine Once.perm ?_ (Threads.filter_advance_perm hc _ _)
  rw [filter_advance]
  by_cases hk : c.key = k
  · rw [if_pos hk]
    rw [if_pos hk] at hbefore
    have hsender := h.sender c (List.mem_of_getElem? hc)
    apply MsgService.OnceFor.advance (Once.perm h.once hbefore.symm) h.mode hk hid hsender hquery
    · intro hpc hrow d hd
      obtain ⟨hd, hdk⟩ := List.mem_filter.mp hd
      simp only [LooksUpAlone, hc] at halone
      exact halone ⟨hk, hpc, hrow⟩ d hd (of_decide_eq_true hdk)
  · rw [if_neg hk]
    rw [if_neg hk] at hbefore
    exact MsgService.OnceFor.advance_of_ne (Once.perm h.once hbefore.symm) hk env

theorem call_consistent (hid : k.2 ≠ 0) (h : Consistent k s) {i : ℕ} {env : Env}
    (hquery : env.query = true) (halone : LooksUpAlone k s (.call i env))
    (ht : step s (.call i env) = some t) : Consistent k t := by
  obtain ⟨c, hc, rfl⟩ := step_call ht
  refine ⟨(s.service.mode_advance c env).trans h.mode, once_call hid h hquery halone hc, ?_, ?_⟩
  · intro m hm
    cases s.service.writer_advance c env with
    | inl heq =>
      rw [heq.2]
      rw [heq.1] at hm
      exact h.items m hm
    | inr henq =>
      obtain ⟨id, -, hw, he⟩ := henq
      rw [he]
      rw [hw, AsyncMsgWriter.items_enqueue] at hm
      exact List.mem_append.mpr ((List.mem_append.mp hm).imp_left (h.items m))
  · refine Threads.forall_mem_advance (P := fun d => d.senderId ≠ 0) hc h.sender fun d hd => ?_
    obtain ⟨pc, rfl⟩ := s.service.goto_of_advance hd
    exact h.sender c (List.mem_of_getElem? hc)

theorem work_consistent (h : Consistent k s) {out : InsertOutcome} {now : ℕ}
    (ht : step s (.work out now) = some t) : Consistent k t := by
  obtain rfl := Option.some.inj ht
  refine ⟨(s.service.mode_work out now).trans h.mode, h.once.work h.items out now, ?_, h.sender⟩
  intro m hm
  rw [s.service.enqueued_work out now]
  exact h.items m ((s.service.writer.items_work_suffix out.success).subset hm)

/-- Over every run whose lookups go through and, for the key, are alone, at most one message is
enqueued for the key and all answers of success name it. -/
theorem at_most_once_along (dedup : DedupTable) (stored : List P2PMessage) (k : DedupKey)
    (hid : k.2 ≠ 0) (as : List Action)
    (h : Steps.Meets step (fun s a => Queries a ∧ LooksUpAlone k s a) (init .sync dedup stored)
      as) :
    Steps.Along step (AtMostOnce k) (init .sync dedup stored) as := by
  refine Steps.along_of_meets (I := Consistent k) ?_ (fun _ => Consistent.atMostOnce)
    (init_consistent k dedup stored) h
  intro s a t hs ha ht
  cases a with
  | send senderId req => exact send_consistent hs ht
  | call i env => exact call_consistent hid hs ha.1 ha.2 ht
  | work out now => exact work_consistent hs ht
  | stop =>
    obtain rfl := Option.some.inj ht
    exact ⟨hs.mode, hs.once, hs.items, hs.sender⟩

/-- A retransmission arrives while the first call is about to enqueue its message. -/
def lateRetry : List Action :=
  [.send 1 hello, .call 0 tick, .call 0 tick, .call 0 tick, .call 0 tick, .send 1 hello,
    .call 1 tick, .call 0 tick, .call 0 tick, .call 0 tick, .call 0 tick]

/-- Both copies of the message are looked up before either row is written. -/
def racingRetry : List Action :=
  [.send 1 hello, .send 1 hello, .call 0 tick, .call 1 tick, .call 0 tick, .call 1 tick,
    .call 0 tick, .call 1 tick, .call 0 tick, .call 1 tick, .call 0 tick, .call 1 tick]

theorem at_most_once_late_retry :
    Steps.Along step (AtMostOnce (1, 9)) (init .sync (fun _ => none) []) lateRetry ∧
      (Steps.run step (init .sync (fun _ => none) []) lateRetry).map
        (fun t => t.service.answers.map fun a => a.ack.msgId) = some [4194304, 4194304] :=
  ⟨at_most_once_along _ _ (1, 9) (by decide) lateRetry (by decide), by decide⟩

theorem racing_retry_enqueued_twice :
    ∃ t, Steps.run step (init .sync (fun _ => none) []) racingRetry = some t ∧
      t.service.enqueuedFor (1, 9) =
        [{ hello with senderId := 1, msgId := 4194304 },
          { hello with senderId := 1, msgId := 4194305 }] ∧
      ¬ AtMostOnce (1, 9) t := by
  obtain ⟨t, ht, henq⟩ : ∃ t, Steps.run step (init .sync (fun _ => none) []) racingRetry = some t ∧
      t.service.enqueuedFor (1, 9) =
        [{ hello with senderId := 1, msgId := 4194304 },
          { hello with senderId := 1, msgId := 4194305 }] := ⟨_, rfl, rfl⟩
  refine ⟨t, ht, henq, fun h => ?_⟩
  have hlen := h.1
  rw [henq] at hlen
  exact absurd hlen (by decide)

end MsgServer
end TermChat
