import TermChat.Service.Msg

/-! What a dedup entry stands for: a message that is stored, that the writer still has, or that
a call is about to enqueue. It rests on the last attempt to insert a batch being applied, since
a failed batch is let go of and its entries stay, and on no dedup row being written by an upsert
that is reported as failed, since its call gives up. -/
namespace TermChat
open Proto MsgScyllaDao

namespace Send

def WillEnqueue (mode : DedupMode) (id : UInt64) (c : Send) : Prop :=
  c.pc = .enqueue id ∨ c.pc = .upsertReceived id ∧ mode = .fast

def Pc.enqueued : Pc → Option UInt64
  | .push id | .updateStatus id _ | .upsertEnqueued id _ => some id
  | _ => none

end Send

namespace MsgService

variable {s : MsgService} {c : Send} {env : Env} {k : DedupKey} {r : DedupRow}

/-- The message is persisted, or in the queue or the batch of the writer. -/
def Holds (s : MsgService) (m : P2PMessage) : Prop := m ∈ s.stored ∨ m ∈ s.writer.items

/-- The first upsert of the call is applied and reported as failed. -/
def LosesReceipt (s : MsgService) (c : Send) (env : Env) : Prop :=
  match c.pc with
  | .upsertReceived _ => s.mode = .sync ∧ env.upsert = .error true
  | _ => False

instance (s : MsgService) (c : Send) (env : Env) : Decidable (s.LosesReceipt c env) :=
  match c with
  | ⟨_, _, .upsertReceived _⟩ =>
    inferInstanceAs (Decidable (s.mode = .sync ∧ env.upsert = .error true))
  | ⟨_, _, .getDedup⟩ | ⟨_, _, .generate⟩ | ⟨_, _, .reserve _⟩ | ⟨_, _, .enqueue _⟩
  | ⟨_, _, .push _⟩ | ⟨_, _, .updateStatus ..⟩ | ⟨_, _, .upsertEnqueued ..⟩ => .isFalse id

/-- Which rows a call writes: its own, before and after it enqueues. -/
theorem dedup_advance (hreceipt : ¬ s.LosesReceipt c env)
    (h : (s.advance c env).1.dedup k = some r) :
    s.dedup k = some r ∨ c.key = k ∧
      (c.pc.enqueued = some r.serverMsgId ∨
        (s.advance c env).2 = some (c.goto (.enqueue r.serverMsgId))) := by
  have hadv := s.advances c env
  generalize s.advance c env = next at hadv h ⊢
  cases hadv with
  | unsaved id hpc hsync hfailed =>
    rcases upsertClientMsgDedup_failed hfailed with heq | hlost
    · exact .inl ((congrFun heq k).symm.trans h)
    · rw [LosesReceipt, hpc] at hreceipt
      exact absurd ⟨hsync.1, hlost⟩ hreceipt
  | saved id hpc hsync hok =>
    have h := (congrFun (upsertClientMsgDedup_eq hok) k).symm.trans h
    by_cases hk : c.key = k
    · subst hk
      have hrow := h.symm.trans (Function.update_self _ _ _)
      cases hrow
      exact .inr ⟨rfl, .inr rfl⟩
    · exact .inl ((Function.update_of_ne (Ne.symm hk) _ _).symm.trans h)
  | acceptedSaved id delivered hpc hsave =>
    rcases upsert_row h with h | ⟨hk, hid, -⟩
    · exact .inl h
    · rw [hpc]
      exact .inr ⟨hk, .inl (congrArg some hid)⟩
  | _ => exact .inl h

theorem cache_advance {P : DedupKey → ClientDedupCache.Entry → Prop} (h : s.cache.All P)
    (hstatus : ∀ k e st, P k e → P k { e with status := st })
    (hnew : ∀ id, s.mode = .fast → (s.advance c env).2 = some (c.goto (.upsertReceived id)) →
      P c.key ⟨id, c.req.receiverId, .received⟩) :
    (s.advance c env).1.cache.All P := by
  have hadv := s.advances c env
  generalize s.advance c env = next at hadv hnew ⊢
  -- a reservation adds an entry only when it succeeds
  have hreserve : ∀ id, ((s.reservation c env id).1.state = .reserved →
      P c.key ⟨id, c.req.receiverId, .received⟩) → (s.reservation c env id).2.All P :=
    fun id hnew => h.reserve c.senderId c.req.clientMsgId id c.req.receiverId .received env.now hnew
  cases hadv with
  | duplicate id hpc hfast hstate => exact hreserve id fun hres => absurd (hstate.symm.trans hres) nofun
  | conflict id hpc hfast hstate => exact hreserve id fun hres => absurd (hstate.symm.trans hres) nofun
  | reserved id hpc hfast hstate => exact hreserve id fun _ => hnew id hfast.1 rfl
  | updated id delivered hpc hfast => exact h.updateStatus hstatus _ _ _ _ _
  | _ => exact h

theorem answers_advance {a : Answer} (h : a ∈ (s.advance c env).1.answers)
    (hd : a.fromDedup = true) :
    a ∈ s.answers ∨ a.key = c.key ∧
      ((∃ r, s.dedup c.key = some r ∧ a.ack.msgId = r.serverMsgId) ∨
        ∃ e, (∀ P, s.cache.All P → P c.key e) ∧ a.ack.msgId = e.serverMsgId) := by
  have hlast : ∀ {s : MsgService} {ack : MessageAck} {b : Bool}, a ∈ (s.answer c.key ack b).answers →
      a ∈ s.answers ∨ a = ⟨c.key, ack, b⟩ := by
    intro s ack b h
    exact (List.mem_append.mp h).imp_right List.mem_singleton.mp
  -- an answer that is not from a dedup entry is none of those in question
  have hfresh : ∀ {s : MsgService} {ack : MessageAck}, a ∈ (s.answer c.key ack false).answers →
      a ∈ s.answers := by
    intro s ack h
    rcases hlast h with h | rfl
    · exact h
    · cases hd
  have hadv := s.advances c env
  generalize s.advance c env = next at hadv h
  cases hadv with
  | found row hpc hsync hrow =>
    refine (hlast h).imp_right ?_
    rintro rfl
    unfold getClientMsgDedup at hrow
    split_ifs at hrow
    exact ⟨rfl, .inl ⟨row, hrow, rfl⟩⟩
  | duplicate id hpc hfast hstate =>
    refine (hlast h).imp_right ?_
    rintro rfl
    exact ⟨rfl, .inr ⟨_, fun P hP => hP.duplicate hstate, rfl⟩⟩
  | conflict | unsaved | acceptedSaved | accepted => exact .inl (hfresh h)
  | _ => exact .inl h

theorem Holds.advance {m : P2PMessage} (h : s.Holds m) (c : Send) (env : Env) :
    (s.advance c env).1.Holds m := by
  refine h.imp (fun hm => (s.stored_advance c env).symm ▸ hm) fun hm => ?_
  cases s.writer_advance c env with
  | inl heq => exact heq.1.symm ▸ hm
  | inr henq =>
    obtain ⟨id, -, hw, -⟩ := henq
    rw [hw, AsyncMsgWriter.items_enqueue]
    exact List.mem_append_left _ hm

theorem holds_enqueue {id : UInt64} (hpc : c.pc = .enqueue id) (env : Env) :
    (s.advance c env).1.Holds (c.msgToStore id) := by
  right
  simp [advance, hpc]

theorem enqueued_next {next : Send} {id : UInt64} (h : (s.advance c env).2 = some next)
    (hid : next.pc.enqueued = some id) : c.pc = .enqueue id ∨ c.pc.enqueued = some id := by
  have hadv := s.advances c env
  generalize s.advance c env = r at hadv h
  cases hadv with
  | enqueue id' hpc =>
    cases h
    cases hid
    exact .inl hpc
  | push id' hpc | updated id' delivered hpc hfast | notUpdated id' delivered hpc hslow =>
    cases h
    cases hid
    right
    rw [hpc]
    rfl
  | _ => cases h <;> cases hid

theorem Holds.work {m : P2PMessage} (h : s.Holds m) (hrep : ∀ m ∈ s.writer.reported, m ∈ s.stored)
    (out : InsertOutcome) (now : ℕ) : (s.work out now).Holds m := by
  have hstored : ∀ m ∈ s.stored, m ∈ (s.work out now).stored :=
    fun m hm => List.mem_append_left _ hm
  cases h with
  | inl hm => exact .inl (hstored m hm)
  | inr hm =>
    cases s.writer.items_work out.success with
    | inl heq => exact .inr (show m ∈ (s.writer.work out.success).items from heq.symm ▸ hm)
    | inr heq =>
      rw [heq] at hm
      exact (List.mem_append.mp hm).imp (fun hm => hstored m (hrep m hm)) id

end MsgService

namespace MsgServer

variable {s t : MsgServer} {k : DedupKey} {id : UInt64}

/-- The message `id` of the key is held, or a call in progress is about to enqueue it. -/
def Vouched (s : MsgServer) (k : DedupKey) (id : UInt64) : Prop :=
  (∃ m, msgKey m = k ∧ m.msgId = id ∧ s.service.Holds m) ∨
    ∃ c ∈ s.calls, c.key = k ∧ c.WillEnqueue s.service.mode id

/-- Every success that was answered from a dedup entry stands for a message that is not lost. -/
def DedupVouches (s : MsgServer) : Prop :=
  ∀ a ∈ s.service.answers, a.fromDedup = true → a.ack.success = true → s.Vouched a.key a.ack.msgId

/-- The last attempt to insert a batch is applied, unless an earlier one was. -/
def InsertsLast (s : MsgServer) : Action → Prop
  | .work out _ => s.service.writer.lastAttempt = true →
      out.applied = true ∨ ∀ m ∈ s.service.writer.persisting, m ∈ s.service.stored
  | _ => True

instance (s : MsgServer) (a : Action) : Decidable (InsertsLast s a) := by
  unfold InsertsLast
  split
  all_goals infer_instance

/-- No upsert of a received message is applied and reported as failed. -/
def KeepsReceipts (s : MsgServer) : Action → Prop
  | .call i env => ∀ c ∈ s.calls[i]?, ¬ s.service.LosesReceipt c env
  | _ => True

instance (s : MsgServer) (a : Action) : Decidable (KeepsReceipts s a) :=
  match a with
  | .call i env => inferInstanceAs (Decidable (∀ c ∈ s.calls[i]?, ¬ s.service.LosesReceipt c env))
  | .send .. | .work .. | .stop => .isTrue trivial

/-- The invariant of the runs whose last attempts are applied. -/
structure Vouching (s : MsgServer) : Prop where
  row : ∀ k r, s.service.dedup k = some r → s.Vouched k r.serverMsgId
  entry : s.service.cache.All fun k e => s.Vouched k e.serverMsgId
  answer : ∀ a ∈ s.service.answers, a.fromDedup = true → s.Vouched a.key a.ack.msgId
  sent : ∀ c ∈ s.calls, ∀ id, c.pc.enqueued = some id → s.service.Holds (c.msgToStore id)
  reported : ∀ m ∈ s.service.writer.reported, m ∈ s.service.stored

/-- A step of a call lets go of no message. -/
theorem Vouched.call {i : ℕ} {c : Send} (h : s.Vouched k id) (hc : s.calls[i]? = some c) (env : Env) :
    Vouched ⟨(s.service.advance c env).1, Threads.advance s.calls i (s.service.advance c env).2⟩
      k id := by
  cases h with
  | inl h =>
    obtain ⟨m, hk, hid, hm⟩ := h
    exact .inl ⟨m, hk, hid, hm.advance c env⟩
  | inr h =>
    obtain ⟨d, hd, hk, hwill⟩ := h
    cases (Threads.mem_iff hc).mp hd with
    | inr hd =>
      refine .inr ⟨d, (Threads.mem_advance hc).mpr (.inr hd), hk, ?_⟩
      rw [MsgService.mode_advance]
      exact hwill
    | inl hd =>
      subst hd
      cases hwill with
      | inl hpc => exact .inl ⟨d.msgToStore id, hk, rfl, MsgService.holds_enqueue hpc env⟩
      | inr hpc =>
        have hnext : (s.service.advance d env).2 = some (d.goto (.enqueue id)) := by
          simp [MsgService.advance, hpc.1, hpc.2]
        exact .inr ⟨_, (Threads.mem_advance hc).mpr (.inl hnext), hk, .inl rfl⟩

/-- A step of the worker lets go of stored messages only. -/
theorem Vouched.work (h : s.Vouched k id) (hs : Vouching s) (out : InsertOutcome) (now : ℕ) :
    Vouched { s with service := s.service.work out now } k id := by
  cases h with
  | inl h =>
    obtain ⟨m, hk, hid, hm⟩ := h
    exact .inl ⟨m, hk, hid, hm.work hs.reported out now⟩
  | inr h =>
    obtain ⟨c, hc, hk, hwill⟩ := h
    refine .inr ⟨c, hc, hk, ?_⟩
    rw [MsgService.mode_work]
    exact hwill

theorem init_vouching (mode : DedupMode) {dedup : DedupTable} {stored : List P2PMessage}
    (h : ∀ k r, dedup k = some r → ∃ m ∈ stored, msgKey m = k ∧ m.msgId = r.serverMsgId) :
    Vouching (init mode dedup stored) where
  row k r hr := by
    obtain ⟨m, hm, hk, hid⟩ := h k r hr
    exact .inl ⟨m, hk, hid, .inl hm⟩
  entry := ClientDedupCache.all_init
  answer := nofun
  sent := nofun
  reported := nofun

theorem send_vouching (h : Vouching s) {senderId : UInt64} {req : P2PMessage}
    (ht : step s (.send senderId req) = some t) : Vouching t := by
  cases step_send ht with
  | inl hrefused =>
    obtain ⟨errorMsg, rfl⟩ := hrefused
    refine ⟨h.row, h.entry, ?_, h.sent, h.reported⟩
    intro a ha hd
    cases List.mem_append.mp ha with
    | inl ha => exact h.answer a ha hd
    | inr ha => rw [List.mem_singleton.mp ha] at hd; cases hd
  | inr hstart =>
    obtain ⟨-, rfl⟩ := hstart
    have hmono : ∀ k id, s.Vouched k id →
        Vouched ⟨s.service, s.calls ++ [⟨senderId, req, .getDedup⟩]⟩ k id := by
      intro k id hv
      refine hv.imp_right ?_
      rintro ⟨c, hc, hwill⟩
      exact ⟨c, List.mem_append_left _ hc, hwill⟩
    refine ⟨fun k r hr => hmono _ _ (h.row k r hr), h.entry.mono fun _ _ => hmono _ _,
      fun a ha hd => hmono _ _ (h.answer a ha hd), ?_, h.reported⟩
    intro c hc id hid
    cases List.mem_append.mp hc with
    | inl hc => exact h.sent c hc id hid
    | inr hc => rw [List.mem_singleton.mp hc] at hid; cases hid

theorem call_vouching (h : Vouching s) {i : ℕ} {env : Env}
    (hkeeps : KeepsReceipts s (.call i env)) (ht : step s (.call i env) = some t) :
    Vouching t := by
  obtain ⟨c, hc, rfl⟩ := step_call ht
  have hmem := List.mem_of_getElem? hc
  have hmono : ∀ k id, s.Vouched k id → Vouched ⟨(s.service.advance c env).1,
      Threads.advance s.calls i (s.service.advance c env).2⟩ k id := fun _ _ hv => hv.call hc env
  constructor
  · intro k r hr
    cases MsgService.dedup_advance (hkeeps c hc) hr with
    | inl hr => exact hmono _ _ (h.row k r hr)
    | inr hown =>
      obtain ⟨hk, hsent | hnext⟩ := hown
      · exact .inl ⟨c.msgToStore _, hk, rfl, (h.sent c hmem _ hsent).advance c env⟩
      · exact .inr ⟨_, (Threads.mem_advance hc).mpr (.inl hnext), hk, .inl rfl⟩
  · apply MsgService.cache_advance (h.entry.mono fun _ _ => hmono _ _) (fun _ _ _ hv => hv)
    intro id hmode hnext
    refine .inr ⟨_, (Threads.mem_advance hc).mpr (.inl hnext), rfl, .inr ⟨rfl, ?_⟩⟩
    exact (s.service.mode_advance c env).trans hmode
  · intro a ha hd
    cases MsgService.answers_advance ha hd with
    | inl ha => exact hmono _ _ (h.answer a ha hd)
    | inr hown =>
      obtain ⟨hk, ⟨r, hr, hid⟩ | ⟨e, he, hid⟩⟩ := hown
      · rw [hk, hid]
        exact hmono _ _ (h.row _ r hr)
      · rw [hk, hid]
        exact hmono _ _ (he _ h.entry)
  · apply Threads.forall_mem_advance (P := fun d => ∀ id, d.pc.enqueued = some id →
      (s.service.advance c env).1.Holds (d.msgToStore id)) hc
    · exact fun d hd id hid => (h.sent d hd id hid).advance c env
    · intro d hnext id hid
      obtain ⟨pc, rfl⟩ := s.service.goto_of_advance hnext
      cases MsgService.enqueued_next hnext hid with
      | inl hpc => exact MsgService.holds_enqueue hpc env
      | inr hpc => exact (h.sent c hmem id hpc).advance c env
  · intro m hm
    rw [s.service.stored_advance c env]
    cases s.service.writer_advance c env with
    | inl heq =>
      rw [heq.1] at hm
      exact h.reported m hm
    | inr henq =>
      obtain ⟨id, -, hw, -⟩ := henq
      rw [hw] at hm
      exact h.reported m hm

theorem work_vouching (h : Vouching s) {out : InsertOutcome} {now : ℕ}
    (hlast : InsertsLast s (.work out now)) (ht : step s (.work out now) = some t) :
    Vouching t := by
  obtain rfl := Option.some.inj ht
  refine ⟨?_, ?_, ?_, fun c hc id hid => (h.sent c hc id hid).work h.reported out now, ?_⟩
  · intro k r hr
    cases MsgService.dedup_work hr with
    | inl hr => exact (h.row k r hr).work h out now
    | inr hown =>
      obtain ⟨m, hm, hk, hid, -⟩ := hown
      exact .inl ⟨m, hk, hid, .inl (List.mem_append_left _ (h.reported m hm))⟩
  · exact MsgService.cache_work (h.entry.mono fun _ _ hv => hv.work h out now) (fun _ _ _ hv => hv) _ _
  · intro a ha hd
    have ha : a ∈ s.service.answers := (s.service.answers_work out now) ▸ ha
    exact (h.answer a ha hd).work h out now
  · intro m hm
    cases s.service.writer.reported_work out.success hm with
    | inl hm => exact List.mem_append_left _ (h.reported m hm)
    | inr hm =>
      obtain ⟨hm, hout⟩ := hm
      have happlied : out.applied = true ∨ ∀ m ∈ s.service.writer.persisting, m ∈ s.service.stored :=
        hout.elim (fun hs => .inl (InsertOutcome.applied_of_success hs)) hlast
      cases happlied with
      | inl happlied =>
        apply List.mem_append_right
        rw [if_pos happlied]
        exact hm
      | inr hstored => exact List.mem_append_left _ (hstored m hm)

/-- Over every run that applies the last attempt of each batch and keeps its receipts, every answer
from a dedup entry stands for a message that is stored, held by the writer or about to be enqueued,
from the moment it is given. -/
theorem dedup_vouches_along (mode : DedupMode) (dedup : DedupTable) (stored : List P2PMessage)
    (hdedup : ∀ k r, dedup k = some r → ∃ m ∈ stored, msgKey m = k ∧ m.msgId = r.serverMsgId)
    (as : List Action)
    (h : Steps.Meets step (fun s a => InsertsLast s a ∧ KeepsReceipts s a) (init mode dedup stored)
      as) :
    Steps.Along step DedupVouches (init mode dedup stored) as := by
  refine Steps.along_of_meets (I := Vouching) ?_ (fun s hs a ha hd _ => hs.answer a ha hd)
    (init_vouching mode hdedup) h
  intro s a t hs ha ht
  cases a with
  | send senderId req => exact send_vouching hs ht
  | call i env => exact call_vouching hs ha.2 ht
  | work out now => exact work_vouching hs ha.1 ht
  | stop =>
    obtain rfl := Option.some.inj ht
    exact ⟨hs.row, hs.entry, hs.answer, hs.sent, hs.reported⟩

/-- A message is accepted, the inserts of its batch end with `outs`, and it is sent again. -/
def sentAgain (outs : List InsertOutcome) (lookups : ℕ) : List Action :=
  .send 1 hello :: List.replicate 8 (.call 0 tick) ++ outs.map (.work · 0) ++
    .send 1 hello :: List.replicate lookups (.call 0 tick)

/-- Three failed attempts and a fourth one that succeeds, with the steps before and after. -/
def lateInsert : List InsertOutcome :=
  [.ok, .ok, .error false, .error false, .error false, .ok, .ok, .ok]

/-- Four failed attempts, with the steps before and after. -/
def noInsert : List InsertOutcome := List.replicate 8 (.error false)

/-- The row of a message is written, but its upsert is reported as failed; the message is sent
again. -/
def lostReceipt : List Action :=
  [.send 1 hello, .call 0 tick, .call 0 tick, .call 0 tick,
    .call 0 { tick with upsert := .error true }, .send 1 hello, .call 0 tick]

theorem dedup_vouches_late_insert :
    Steps.Along step DedupVouches (init .sync (fun _ => none) []) (sentAgain lateInsert 1) ∧
      (Steps.run step (init .sync (fun _ => none) []) (sentAgain lateInsert 1)).map
        (fun t => t.service.answers.map fun a => (a.ack.msgId, a.fromDedup)) =
        some [(4194304, false), (4194304, true)] :=
  ⟨dedup_vouches_along .sync (fun _ => none) [] nofun (sentAgain lateInsert 1) (by decide), by decide⟩

/-- An answer from a dedup entry when nothing is stored, held or about to be enqueued. -/
theorem not_dedupVouches_of_run (mode : DedupMode) (as : List Action) (a : Answer)
    (hr : (Steps.run step (init mode (fun _ => none) []) as).map (fun t =>
      (t.service.answers.getLast?, t.service.stored, t.service.writer.items, t.calls)) =
        some (some a, [], [], []))
    (hdedup : a.fromDedup = true) (hok : a.ack.success = true) :
    ∃ t, Steps.run step (init mode (fun _ => none) []) as = some t ∧
      t.service.answers.getLast? = some a ∧ ¬ DedupVouches t := by
  obtain ⟨t, ht, hobs⟩ := Option.map_eq_some_iff.mp hr
  simp only [Prod.mk.injEq] at hobs
  obtain ⟨hlast, hstored, hitems, hcalls⟩ := hobs
  refine ⟨t, ht, hlast, fun h => ?_⟩
  have hv := h a (List.mem_of_getLast? hlast) hdedup hok
  simp [Vouched, MsgService.Holds, hstored, hitems, hcalls] at hv

theorem dedup_entry_outlives_message :
    (∃ t a, Steps.run step (init .sync (fun _ => none) []) (sentAgain noInsert 1) = some t ∧
      t.service.answers.getLast? = some a ∧ a.fromDedup = true ∧ a.ack.success = true ∧
      ¬ DedupVouches t) ∧
    (∃ t a, Steps.run step (init .fast (fun _ => none) []) (sentAgain noInsert 3) = some t ∧
      t.service.answers.getLast? = some a ∧ a.fromDedup = true ∧ a.ack.success = true ∧
      ¬ DedupVouches t) ∧
    ∃ t a, Steps.run step (init .sync (fun _ => none) []) lostReceipt = some t ∧
      t.service.answers.getLast? = some a ∧ a.fromDedup = true ∧ a.ack.success = true ∧
      ¬ DedupVouches t := by
  refine ⟨?_, ?_, ?_⟩
  · obtain ⟨t, ht, ha, hnot⟩ := not_dedupVouches_of_run .sync (sentAgain noInsert 1)
      ⟨(1, 9), { msgId := 4194304, success := true, status := .received }, true⟩ rfl rfl rfl
    exact ⟨t, _, ht, ha, rfl, rfl, hnot⟩
  · obtain ⟨t, ht, ha, hnot⟩ := not_dedupVouches_of_run .fast (sentAgain noInsert 3)
      ⟨(1, 9), MsgService.fillDedupAck 1 ⟨4194304, 2, .received⟩, true⟩ rfl rfl rfl
    exact ⟨t, _, ht, ha, rfl, rfl, hnot⟩
  · obtain ⟨t, ht, ha, hnot⟩ := not_dedupVouches_of_run .sync lostReceipt
      ⟨(1, 9), { msgId := 4194304, success := true, status := .received }, true⟩ rfl rfl rfl
    exact ⟨t, _, ht, ha, rfl, rfl, hnot⟩

end MsgServer
end TermChat
