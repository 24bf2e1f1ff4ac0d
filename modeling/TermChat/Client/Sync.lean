import TermChat.Service.Msg

/-! `NetworkManager::SyncMessages` against the message service. The client keeps a cursor into
its inbox; the rows below it are never asked for again. Ids are given when a message is accepted
and rows appear when its batch is inserted, so this rests on the order of the two. -/
namespace TermChat
open Proto MsgScyllaDao

/-- What `NetworkManager` keeps of the chats. `returned` records the messages of the pages. -/
structure NetworkManager where
  userId : UInt64
  lastSyncedMsgId : UInt64
  p2pChatHistory : UInt64 → List P2PMessage
  p2pMsgIds : UInt64 → List UInt64
  returned : List P2PMessage

namespace NetworkManager

def init (userId : UInt64) : NetworkManager := ⟨userId, 0, fun _ => [], fun _ => [], []⟩

/-- Add a message to the chat with `partner`, unless its id is known there. -/
def record (c : NetworkManager) (partner : UInt64) (msg : P2PMessage) : NetworkManager :=
  if msg.msgId ∈ c.p2pMsgIds partner then c
  else
    { c with
      p2pMsgIds := Function.update c.p2pMsgIds partner (msg.msgId :: c.p2pMsgIds partner)
      p2pChatHistory :=
        Function.update c.p2pChatHistory partner (c.p2pChatHistory partner ++ [msg]) }

def chatPartnerId (c : NetworkManager) (msg : P2PMessage) : UInt64 :=
  if msg.senderId = c.userId then msg.receiverId else msg.senderId

def onPush (c : NetworkManager) (msg : P2PMessage) : NetworkManager := c.record msg.senderId msg

def onSent (c : NetworkManager) (receiverId : UInt64) (req : P2PMessage) (ack : MessageAck) :
    NetworkManager :=
  c.record receiverId { req with msgId := ack.msgId }

def syncReq (c : NetworkManager) (cursor : UInt64) : SyncMessagesReq :=
  { userId := c.userId, lastAckMsgId := cursor, limit := 100 }

/-- What a round does with its page, under the lock. -/
def applyPage (c : NetworkManager) (resp : SyncMessagesResp) : NetworkManager :=
  let c' := resp.messages.foldl (fun c msg => c.record (c.chatPartnerId msg) msg) c
  { c' with
    lastSyncedMsgId := if c.lastSyncedMsgId < resp.nextAckMsgId then resp.nextAckMsgId
      else c.lastSyncedMsgId
    returned := c.returned ++ resp.messages }

theorem record_eq (c : NetworkManager) (partner : UInt64) (msg : P2PMessage) :
    ∃ history ids, c.record partner msg = { c with p2pChatHistory := history, p2pMsgIds := ids } := by
  unfold record
  split_ifs
  · exact ⟨c.p2pChatHistory, c.p2pMsgIds, rfl⟩
  · exact ⟨_, _, rfl⟩

theorem userId_applyPage (c : NetworkManager) (resp : SyncMessagesResp) :
    (c.applyPage resp).userId = c.userId := by
  show (resp.messages.foldl (fun c msg => c.record (c.chatPartnerId msg) msg) c).userId = c.userId
  generalize resp.messages = msgs
  induction msgs generalizing c with
  | nil => rfl
  | cons msg msgs ih =>
    obtain ⟨history, ids, heq⟩ := c.record_eq (c.chatPartnerId msg) msg
    rw [List.foldl_cons, ih, heq]

end NetworkManager

/-- Where a `SyncMessages` call stands: its request is under way, or its answer. -/
inductive SyncCall where
  | requested (cursor : UInt64)
  | responded (resp : SyncMessagesResp)

/-- The service and one client, which is logged in. -/
structure SyncSystem where
  server : MsgServer
  client : NetworkManager
  syncs : List SyncCall

namespace SyncSystem

inductive Action where
  | server (a : MsgServer.Action)
  | push (msg : P2PMessage)
  | sent (receiverId : UInt64) (req : P2PMessage) (ack : MessageAck)
  | startSync
  | serve (i : ℕ) (ok : Bool)
  | applyPage (i : ℕ)
  | giveUp (i : ℕ)

def init (mode : DedupMode) (dedup : DedupTable) (userId : UInt64) : SyncSystem :=
  ⟨.init mode dedup [], .init userId, []⟩

/-- The service answers the request of call `i`. -/
def serve (s : SyncSystem) (i : ℕ) (ok : Bool) : Option SyncSystem :=
  match s.syncs[i]? with
  | some (.requested cursor) =>
    let resp := s.server.service.syncMessages s.client.userId (s.client.syncReq cursor) ok
    some { s with syncs := Threads.advance s.syncs i (some (.responded resp)) }
  | _ => none

/-- Call `i` takes its answer, and asks for the next page if there is one. -/
def applyPage (s : SyncSystem) (i : ℕ) : Option SyncSystem :=
  match s.syncs[i]? with
  | some (.responded resp) =>
    if resp.success then
      let client := s.client.applyPage resp
      let next := if resp.hasMore then some (.requested client.lastSyncedMsgId) else none
      some { s with client := client, syncs := Threads.advance s.syncs i next }
    else some { s with syncs := Threads.advance s.syncs i none }
  | _ => none

def step (s : SyncSystem) : Action → Option SyncSystem
  | .server a => (s.server.step a).map fun server => { s with server := server }
  | .push msg => some { s with client := s.client.onPush msg }
  | .sent receiverId req ack => some { s with client := s.client.onSent receiverId req ack }
  | .startSync => some { s with syncs := s.syncs ++ [.requested s.client.lastSyncedMsgId] }
  | .serve i ok => s.serve i ok
  | .applyPage i => s.applyPage i
  -- a timeout or a network error
  | .giveUp i =>
    if i < s.syncs.length then some { s with syncs := Threads.advance s.syncs i none } else none

def rows (s : SyncSystem) : List P2PMessage := inbox s.client.userId s.server.service.stored

/-- Every row up to the cursor is in the history or was on a page. -/
def NoneSkipped (s : SyncSystem) : Prop :=
  ∀ row ∈ s.rows, row.msgId ≤ s.client.lastSyncedMsgId →
    (∃ m ∈ s.client.p2pChatHistory (s.client.chatPartnerId row), m.msgId = row.msgId) ∨
      row ∈ s.client.returned

/-- A message of the client's inbox is enqueued with an id that is positive as a `bigint` and
above those of all messages of that inbox that were enqueued before. -/
def EnqueuesInOrder (s : SyncSystem) : Action → Prop
  | .server (.call i _) =>
    match s.server.calls[i]? with
    | some c =>
      match c.pc with
      | .enqueue id => Concerns s.client.userId (c.msgToStore id) →
          0 < bigint id ∧
            ∀ m ∈ s.server.service.enqueued, Concerns s.client.userId m → messageId m < bigint id
      | _ => True
    | none => True
  | _ => True

instance (s : SyncSystem) (a : Action) : Decidable (EnqueuesInOrder s a) := by
  unfold EnqueuesInOrder
  repeat' split
  all_goals infer_instance

end SyncSystem

namespace MsgService

variable {s : MsgService} {user : UInt64}

/-- The messages of `user` pass through the writer into the inbox in the order of their ids. -/
structure InOrder (user : UInt64) (s : MsgService) : Prop where
  items : ∀ m ∈ s.writer.items, m ∈ s.enqueued
  rows : ∀ r ∈ inbox user s.stored, ∃ m ∈ s.enqueued, Concerns user m ∧ r = inboxRow m
  positive : ∀ m ∈ s.enqueued, Concerns user m → 0 < messageId m
  order : InIdOrder user s.writer.items
  fresh : ∀ m ∈ s.writer.items, Concerns user m → Fresh (inbox user s.stored) m

theorem InOrder.positive_row (h : s.InOrder user) : ∀ r ∈ inbox user s.stored, 0 < messageId r := by
  intro r hr
  obtain ⟨m, hm, hc, rfl⟩ := h.rows r hr
  exact h.positive m hm hc

theorem InOrder.enqueue (h : s.InOrder user) {msg : P2PMessage}
    (hmsg : Concerns user msg → 0 < messageId msg ∧
      ∀ m ∈ s.enqueued, Concerns user m → messageId m < messageId msg) :
    InOrder user { s with writer := s.writer.enqueue msg, enqueued := s.enqueued ++ [msg] } := by
  constructor
  · intro m hm
    rw [AsyncMsgWriter.items_enqueue] at hm
    exact List.mem_append.mpr ((List.mem_append.mp hm).imp_left (h.items m))
  · intro r hr
    obtain ⟨m, hm, hrow⟩ := h.rows r hr
    exact ⟨m, List.mem_append_left _ hm, hrow⟩
  · intro m hm hc
    cases List.mem_append.mp hm with
    | inl hm => exact h.positive m hm hc
    | inr hm =>
      obtain rfl := List.mem_singleton.mp hm
      exact (hmsg hc).1
  · show InIdOrder user (s.writer.enqueue msg).items
    rw [AsyncMsgWriter.items_enqueue]
    refine List.pairwise_append.mpr ⟨h.order, List.pairwise_singleton _ msg, fun a ha b hb hca hcb => ?_⟩
    obtain rfl := List.mem_singleton.mp hb
    exact (hmsg hcb).2 a (h.items a ha) hca
  · intro m hm hc
    rw [AsyncMsgWriter.items_enqueue] at hm
    cases List.mem_append.mp hm with
    | inl hm => exact h.fresh m hm hc
    | inr hm =>
      obtain rfl := List.mem_singleton.mp hm
      right
      intro r hr
      obtain ⟨m', hm', hc', rfl⟩ := h.rows r hr
      exact (hmsg hc).2 m' hm' hc'

theorem InOrder.congr (h : s.InOrder user) {t : MsgService} (hw : t.writer.items = s.writer.items)
    (hs : t.stored = s.stored) (he : t.enqueued = s.enqueued) : t.InOrder user := by
  obtain ⟨h₁, h₂, h₃, h₄, h₅⟩ := h
  constructor <;> simpa only [hw, hs, he]

theorem inbox_work (out : InsertOutcome) (now : ℕ) :
    inbox user (s.work out now).stored =
      insertBatch user (inbox user s.stored) (if out.applied then s.writer.persisting else []) :=
  insertBatch_append user [] s.stored _

/-- A step of the worker adds rows above those that are there. -/
theorem InOrder.work (h : s.InOrder user) (out : InsertOutcome) (now : ℕ) :
    (s.work out now).InOrder user ∧
      Partition.Extends messageId (inbox user s.stored) (inbox user (s.work out now).stored) := by
  have hprefix : (if out.applied then s.writer.persisting else []) <+: s.writer.items := by
    split_ifs
    · exact s.writer.persisting_isPrefix
    · exact List.nil_prefix
  obtain ⟨rest, hrest⟩ := hprefix
  have hsuffix := s.writer.items_work_suffix out.success
  have horder := h.order
  have hfresh := h.fresh
  rw [← hrest] at horder hfresh
  have hext := insertBatch_extends (sorted_inbox user s.stored) horder hfresh
  rw [hrest, ← inbox_work out now] at hext
  refine ⟨⟨?_, ?_, ?_, ?_, ?_⟩, hext.1⟩
  · intro m hm
    rw [enqueued_work]
    exact h.items m (hsuffix.subset hm)
  · intro r hr
    rw [enqueued_work]
    rw [inbox_work] at hr
    cases mem_insertBatch hr with
    | inl hr => exact h.rows r hr
    | inr hr =>
      obtain ⟨m, hm, hc, hrow⟩ := hr
      have hitem : m ∈ s.writer.items := hrest ▸ List.mem_append_left rest hm
      exact ⟨m, h.items m hitem, hc, hrow⟩
  · rw [enqueued_work]
    exact h.positive
  · exact h.order.sublist hsuffix.sublist
  · intro m hm
    exact hext.2 m (hsuffix.subset hm)

end MsgService

/-- A cursor that the inbox has reached, and below which the client has got every row. -/
structure SoundCursor (rows got : List P2PMessage) (cursor : UInt64) : Prop where
  reached : cursor = 0 ∨ ∃ r ∈ rows, r.msgId = cursor
  covered : ∀ r ∈ rows, r.msgId ≤ cursor → r ∈ got

namespace SoundCursor

variable {rows rows' got got' : List P2PMessage} {cursor : UInt64}

theorem zero (hpos : ∀ r ∈ rows, 0 < messageId r) : SoundCursor rows got 0 where
  reached := .inl rfl
  covered r hr hle := by
    have hzero : r.msgId = 0 := UInt64.le_antisymm hle UInt64.zero_le
    have := hpos r hr
    rw [messageId, hzero] at this
    exact absurd this (by decide)

theorem mono (h : SoundCursor rows got cursor) (hgot : ∀ r ∈ got, r ∈ got') :
    SoundCursor rows got' cursor :=
  ⟨h.reached, fun r hr hle => hgot r (h.covered r hr hle)⟩

theorem extend (h : SoundCursor rows got cursor) (hext : Partition.Extends messageId rows rows')
    (hpos : ∀ r ∈ rows', 0 < messageId r) : SoundCursor rows' got cursor := by
  refine ⟨h.reached.imp_right fun ⟨q, hq, hid⟩ => ⟨q, hext.1 q hq, hid⟩, fun r hr hle => ?_⟩
  cases hext.2 r hr with
  | inl hr => exact h.covered r hr hle
  | inr habove =>
    cases h.reached with
    | inl hzero => exact (hzero ▸ zero hpos : SoundCursor rows' got cursor).covered r hr hle
    | inr hreached =>
      obtain ⟨q, hq, rfl⟩ := hreached
      have hlt := habove q hq
      have hle := (le_iff_bigint_le (hpos r hr).le (hpos q (hext.1 q hq)).le).mp hle
      exact absurd hle (not_le.mpr hlt)

theorem nonneg (h : SoundCursor rows got cursor) (hpos : ∀ r ∈ rows, 0 < messageId r) :
    0 ≤ bigint cursor := by
  cases h.reached with
  | inl hzero => rw [hzero]; decide
  | inr hreached =>
    obtain ⟨q, hq, rfl⟩ := hreached
    exact (hpos q hq).le

/-- The page that is read at a sound cursor brings the client to the page's own cursor. -/
theorem page (h : SoundCursor rows got cursor) (hsorted : Partition.Sorted messageId rows)
    (hpos : ∀ r ∈ rows, 0 < messageId r) (limit : UInt32) (ok : Bool) :
    SoundCursor rows (got ++ (getMessagesForUserAfter rows cursor limit ok).messages)
      (getMessagesForUserAfter rows cursor limit ok).nextAckMsgId := by
  cases hlast : (getMessagesForUserAfter rows cursor limit ok).messages.getLast? with
  | none =>
    have hnext : (getMessagesForUserAfter rows cursor limit ok).nextAckMsgId = cursor :=
      congrArg (fun o => (Option.map P2PMessage.msgId o).getD cursor) hlast
    rw [hnext]
    exact h.mono fun r hr => List.mem_append_left _ hr
  | some last =>
    have hnext : (getMessagesForUserAfter rows cursor limit ok).nextAckMsgId = last.msgId :=
      congrArg (fun o => (Option.map P2PMessage.msgId o).getD cursor) hlast
    have hmem := List.mem_of_getLast? hlast
    have hpage : (getMessagesForUserAfter rows cursor limit ok).messages =
        Partition.after messageId (bigint cursor) (pageSize limit) rows := by
      cases ok with
      | false => simp [getMessagesForUserAfter] at hmem
      | true => simp [getMessagesForUserAfter, Partition.after, List.take_take]
    rw [hpage] at hmem
    have hrow := (Partition.mem_after hmem).1
    rw [hnext]
    refine ⟨.inr ⟨last, hrow, rfl⟩, fun r hr hle => ?_⟩
    rw [List.mem_append, hpage]
    have hle := (le_iff_bigint_le (hpos r hr).le (hpos last hrow).le).mp hle
    -- the client has the rows up to the old cursor, and the page has the others
    by_cases hold : r.msgId ≤ cursor
    · exact .inl (h.covered r hr hold)
    · rw [le_iff_bigint_le (hpos r hr).le (h.nonneg hpos), not_le] at hold
      exact .inr (hsorted.mem_after hmem hr hold hle)

end SoundCursor

/-- The cursor of a call, or of the page that it is about to take, is sound. -/
def SyncCall.Sound (rows returned : List P2PMessage) : SyncCall → Prop
  | .requested cursor => SoundCursor rows returned cursor
  | .responded resp =>
    resp.success = true → SoundCursor rows (returned ++ resp.messages) resp.nextAckMsgId

theorem SyncCall.Sound.extend {rows rows' returned : List P2PMessage} {p : SyncCall}
    (h : p.Sound rows returned) (hext : Partition.Extends messageId rows rows')
    (hpos : ∀ r ∈ rows', 0 < messageId r) : p.Sound rows' returned := by
  cases p with
  | requested cursor => exact SoundCursor.extend h hext hpos
  | responded resp => exact fun hs => SoundCursor.extend (h hs) hext hpos

theorem SyncCall.Sound.mono {rows returned more : List P2PMessage} {p : SyncCall}
    (h : p.Sound rows returned) : p.Sound rows (returned ++ more) := by
  cases p with
  | requested cursor => exact SoundCursor.mono h fun r hr => List.mem_append_left more hr
  | responded resp =>
    intro hs
    apply (h hs).mono
    intro r hr
    rw [List.append_assoc, List.mem_append, List.mem_append]
    exact (List.mem_append.mp hr).imp_right .inr

namespace SyncSystem

variable {s t : SyncSystem}

/-- The invariant of the runs whose enqueues are in order. -/
structure Synced (s : SyncSystem) : Prop where
  server : s.server.service.InOrder s.client.userId
  cursor : SoundCursor s.rows s.client.returned s.client.lastSyncedMsgId
  calls : ∀ p ∈ s.syncs, p.Sound s.rows s.client.returned

theorem Synced.noneSkipped (h : Synced s) : NoneSkipped s :=
  fun row hrow hle => .inr (h.cursor.covered row hrow hle)

theorem init_synced (mode : DedupMode) (dedup : DedupTable) (userId : UInt64) :
    Synced (init mode dedup userId) where
  server := ⟨nofun, nofun, nofun, List.Pairwise.nil, nofun⟩
  cursor := .zero nofun
  calls := nofun

theorem Synced.of_server (h : Synced s) {server : MsgServer}
    (hserver : server.service.InOrder s.client.userId)
    (hext : Partition.Extends messageId s.rows (inbox s.client.userId server.service.stored)) :
    Synced { s with server := server } where
  server := hserver
  cursor := h.cursor.extend hext hserver.positive_row
  calls p hp := (h.calls p hp).extend hext hserver.positive_row

theorem server_synced (h : Synced s) {a : MsgServer.Action} {server : MsgServer}
    (horder : EnqueuesInOrder s (.server a)) (ht : s.server.step a = some server) :
    Synced { s with server := server } := by
  have hsame : ∀ service : MsgService, service.writer.items = s.server.service.writer.items →
      service.stored = s.server.service.stored →
      service.enqueued = s.server.service.enqueued → ∀ calls,
      Synced { s with server := ⟨service, calls⟩ } := by
    intro service hw hs he calls
    apply h.of_server (h.server.congr hw hs he)
    rw [hs]
    exact Partition.Extends.refl messageId s.rows
  cases a with
  | send senderId req =>
    cases MsgServer.step_send ht with
    | inl hrefused =>
      obtain ⟨errorMsg, rfl⟩ := hrefused
      apply hsame <;> rfl
    | inr hstart =>
      obtain ⟨-, rfl⟩ := hstart
      apply hsame <;> rfl
  | call i env =>
    obtain ⟨c, hc, rfl⟩ := MsgServer.step_call ht
    cases s.server.service.writer_advance c env with
    | inl heq => exact hsame _ (by rw [heq.1]) (s.server.service.stored_advance c env) heq.2 _
    | inr henq =>
      obtain ⟨id, hpc, hw, he⟩ := henq
      simp only [EnqueuesInOrder, hc, hpc] at horder
      have hstored := s.server.service.stored_advance c env
      apply h.of_server ((h.server.enqueue horder).congr (by rw [hw]) hstored he)
      rw [hstored]
      exact Partition.Extends.refl messageId s.rows
  | work out now =>
    obtain rfl := Option.some.inj ht
    obtain ⟨hserver, hext⟩ := h.server.work out now
    exact h.of_server hserver hext
  | stop =>
    obtain rfl := Option.some.inj ht
    apply hsame <;> rfl

theorem record_synced (h : Synced s) (partner : UInt64) (msg : P2PMessage) :
    Synced { s with client := s.client.record partner msg } := by
  obtain ⟨history, ids, heq⟩ := s.client.record_eq partner msg
  rw [heq]
  exact ⟨h.server, h.cursor, h.calls⟩

theorem serve_synced (h : Synced s) {i : ℕ} {ok : Bool} (ht : s.serve i ok = some t) :
    Synced t := by
  unfold serve at ht
  split at ht
  · rename_i cursor hcall
    obtain rfl := Option.some.inj ht
    have hcursor := h.calls _ (List.mem_of_getElem? hcall)
    have hresp : (SyncCall.responded (s.server.service.syncMessages s.client.userId
        (s.client.syncReq cursor) ok)).Sound s.rows s.client.returned := by
      intro hsuccess
      unfold MsgService.syncMessages at hsuccess ⊢
      split_ifs at hsuccess ⊢
      exact SoundCursor.page hcursor (sorted_inbox _ _) h.server.positive_row _ ok
    exact ⟨h.server, h.cursor, Threads.forall_mem_advance hcall h.calls fun p hp => Option.some.inj hp ▸ hresp⟩
  · cases ht

/-- A page is taken, and the next one is asked for from where it ends. -/
theorem Synced.take (h : Synced s) {i : ℕ} {resp : SyncMessagesResp}
    (hcall : s.syncs[i]? = some (.responded resp)) (hsuccess : resp.success = true)
    {next : Option SyncCall}
    (hnext : ∀ p, next = some p → p = .requested (s.client.applyPage resp).lastSyncedMsgId) :
    Synced { s with client := s.client.applyPage resp, syncs := Threads.advance s.syncs i next } := by
  have huser := s.client.userId_applyPage resp
  have hpage : SoundCursor s.rows (s.client.returned ++ resp.messages) resp.nextAckMsgId :=
    h.calls _ (List.mem_of_getElem? hcall) hsuccess
  have hlast : SoundCursor s.rows (s.client.returned ++ resp.messages)
      (s.client.applyPage resp).lastSyncedMsgId := by
    show SoundCursor _ _ (if _ then _ else _)
    split_ifs
    · exact hpage
    · exact h.cursor.mono fun r hr => List.mem_append_left _ hr
  have hrows : rows ⟨s.server, s.client.applyPage resp, Threads.advance s.syncs i next⟩ = s.rows := by
    unfold rows
    rw [huser]
  constructor
  · rw [huser]
    exact h.server
  · rw [hrows]
    exact hlast
  · rw [hrows]
    refine Threads.forall_mem_advance hcall (fun p hp => (h.calls p hp).mono) fun p hp => ?_
    rw [hnext p hp]
    exact hlast

theorem applyPage_synced (h : Synced s) {i : ℕ} (ht : s.applyPage i = some t) : Synced t := by
  unfold applyPage at ht
  split at ht
  · rename_i resp hcall
    by_cases hsuccess : resp.success = true
    · rw [if_pos hsuccess] at ht
      obtain rfl := Option.some.inj ht
      apply h.take hcall hsuccess
      intro p hp
      split_ifs at hp
      exact (Option.some.inj hp).symm
    · rw [if_neg hsuccess] at ht
      obtain rfl := Option.some.inj ht
      exact ⟨h.server, h.cursor, fun p hp => h.calls p (List.mem_of_mem_eraseIdx hp)⟩
  · cases ht

/-- Over every run that enqueues the messages of the client's inbox in the order of their ids,
no row at or below the cursor is missed. -/
theorem none_skipped_along (mode : DedupMode) (dedup : DedupTable) (userId : UInt64)
    (as : List Action) (h : Steps.Meets step EnqueuesInOrder (init mode dedup userId) as) :
    Steps.Along step NoneSkipped (init mode dedup userId) as := by
  refine Steps.along_of_meets (I := Synced) ?_ (fun _ => Synced.noneSkipped)
    (init_synced mode dedup userId) h
  intro s a t hs ha ht
  cases a with
  | server a =>
    obtain ⟨server, hserver, rfl⟩ := Option.map_eq_some_iff.mp ht
    exact server_synced hs ha hserver
  | push msg =>
    obtain rfl := Option.some.inj ht
    exact record_synced hs msg.senderId msg
  | sent receiverId req ack =>
    obtain rfl := Option.some.inj ht
    exact record_synced hs receiverId _
  | startSync =>
    obtain rfl := Option.some.inj ht
    refine ⟨hs.server, hs.cursor, fun p hp => ?_⟩
    cases List.mem_append.mp hp with
    | inl hp => exact hs.calls p hp
    | inr hp =>
      obtain rfl := List.mem_singleton.mp hp
      exact hs.cursor
  | serve i ok => exact serve_synced hs ht
  | applyPage i => exact applyPage_synced hs ht
  | giveUp i =>
    simp only [step] at ht
    split_ifs at ht
    obtain rfl := Option.some.inj ht
    exact ⟨hs.server, hs.cursor, fun p hp => hs.calls p (List.mem_of_mem_eraseIdx hp)⟩

/-- Two users send to user 2. Their calls get the ids 4194304 and 4194305. -/
def twoSends : List Action :=
  [.server (.send 1 MsgServer.hello), .server (.send 3 MsgServer.hello)] ++
    List.replicate 2 (.server (.call 0 MsgServer.tick)) ++
    List.replicate 2 (.server (.call 1 MsgServer.tick))

/-- The next three steps of a call: it enqueues its message. -/
def enqueueBy (i : ℕ) : List Action := List.replicate 3 (.server (.call i MsgServer.tick))

def writes (n : ℕ) : List Action := List.replicate n (.server (.work .ok 0))

def syncRound : List Action := [.startSync, .serve 0 true, .applyPage 0]

/-- The messages are enqueued in the order of their ids, with a sync between the two. -/
def syncBetween : List Action :=
  twoSends ++ enqueueBy 0 ++ writes 3 ++ syncRound ++ enqueueBy 1 ++ writes 5 ++ syncRound

theorem none_skipped_sync_between :
    Steps.Along step NoneSkipped (init .sync (fun _ => none) 2) syncBetween ∧
      (Steps.run step (init .sync (fun _ => none) 2) syncBetween).map
        (fun t => (t.client.lastSyncedMsgId, t.client.returned.map P2PMessage.msgId)) =
        some (4194305, [4194304, 4194305]) :=
  ⟨none_skipped_along .sync (fun _ => none) 2 syncBetween (by decide), by decide⟩

/-- The message with the larger id is enqueued, inserted and synced before the other one. -/
def overtaken : List Action :=
  twoSends ++ enqueueBy 1 ++ writes 3 ++ syncRound ++ enqueueBy 0 ++ writes 5

def skippedRow : P2PMessage := inboxRow { MsgServer.hello with senderId := 1, msgId := 4194304 }

theorem overtaken_message_skipped :
    ∃ t, Steps.run step (init .sync (fun _ => none) 2) overtaken = some t ∧
      skippedRow ∈ t.rows ∧ t.client.lastSyncedMsgId = 4194305 ∧ ¬ NoneSkipped t := by
  obtain ⟨t, ht, hrow, hcursor, hhistory, hreturned⟩ :
      ∃ t, Steps.run step (init .sync (fun _ => none) 2) overtaken = some t ∧
        skippedRow ∈ t.rows ∧ t.client.lastSyncedMsgId = 4194305 ∧
        t.client.p2pChatHistory (t.client.chatPartnerId skippedRow) = [] ∧
        skippedRow ∉ t.client.returned := ⟨_, rfl, by decide, rfl, rfl, by decide⟩
  refine ⟨t, ht, hrow, hcursor, fun h => ?_⟩
  cases h skippedRow hrow (by rw [hcursor]; decide) with
  | inl hmem =>
    obtain ⟨m, hm, -⟩ := hmem
    rw [hhistory] at hm
    cases hm
  | inr hmem => exact hreturned hmem

end SyncSystem
end TermChat
