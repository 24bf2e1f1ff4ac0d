import TermChat.Core.Chunks
import TermChat.Base.Steps

/-! The end of a peer's stream: bytes and the FIN reach the kernel in any grouping, the event
loop and the workers handle them, and the connection is closed. Edge-triggered mode, with
`EPOLLONESHOT` and `EPOLLRDHUP` in every registration; no pushes on the connection. -/
namespace TermChat
open Proto Framing ProtobufHandler

/-- What the descriptor is registered for next to `conn_event_`. -/
inductive Interest where
  | epollin
  | epollout
  deriving DecidableEq, Repr

/-- The worker's place in `OnRead_`, `OnProcess_` or `OnWrite_`. -/
inductive Task where
  | idle
  | reading
  | processing
  | writing
  deriving DecidableEq, Repr

/-- `unsent` is still on its way, `rcv` is the receive queue of the socket, and `armed` is
`none` between the delivery of an event and the next `modFd`. -/
structure Link (η σ : Type) where
  unsent : Bytes
  rcv : Bytes
  fin : Bool
  armed : Option Interest
  task : Task
  closed : Bool
  conn : TcpConnection η σ

namespace Link

variable {η σ : Type} (http : HttpHandler η) (c : Codec) (svc : Services σ) (w : σ)

/-- A fresh connection, on which the peer sends `es` and nothing more. -/
def init (es : List Envelope) : Link η σ :=
  { unsent := c.stream es
    rcv := []
    fin := false
    armed := some .epollin
    task := .idle
    closed := false
    conn := .init w }

inductive Action where
  | arrive (n : ℕ)
  | fin
  | event
  | read (n : ℕ)
  | readEnd
  | process
  | write (n : ℕ)
  | writeError (n : ℕ)

def close (s : Link η σ) : Link η σ := { s with armed := none, task := .idle, closed := true }

/-- One round of `Start` for the descriptor: the close events are tested first. -/
def onEvent (s : Link η σ) : Option (Link η σ) :=
  match s.task, s.armed with
  | .idle, some interest =>
    if s.fin then some s.close
    else
      match interest with
      | .epollin => if s.rcv = [] then none else some { s with armed := none, task := .reading }
      | .epollout => some { s with armed := none, task := .writing }
  | _, _ => none

/-- One successful `read_fd` of `n` bytes in the loop of `read`. -/
def onRead (s : Link η σ) (n : ℕ) : Option (Link η σ) :=
  if h : s.task = .reading ∧ 0 < n ∧ n ≤ s.rcv.length ∧
      n ≤ s.conn.readBuff.writableBytes + Buffer.extraBytes then
    some
      { s with
        rcv := s.rcv.drop n
        conn := { s.conn with
          readBuff := s.conn.readBuff.readFd (s.rcv.take n) (by simp; omega) } }
  else none

/-- The last `read_fd` of the loop: 0 at the end of the stream, which is no `EAGAIN` and
closes the connection; `EAGAIN` otherwise. -/
def onReadEnd (s : Link η σ) : Option (Link η σ) :=
  if s.task = .reading ∧ s.rcv = [] then
    if s.fin then some s.close else some { s with task := .processing }
  else none

def onProcess (s : Link η σ) : Option (Link η σ) :=
  if s.task = .processing then
    let (produced, conn) := TcpConnection.process http c svc s.conn
    some
      { s with
        conn := conn
        task := .idle
        armed := some (if produced then .epollout else .epollin) }
  else none

/-- `OnWrite_` when the socket takes `n` bytes and would then block, or takes all. -/
def onWrite (s : Link η σ) (n : ℕ) : Option (Link η σ) :=
  if h : s.task = .writing ∧ n ≤ s.conn.writeBuff.readableBytes then
    some
      { s with
        conn := { s.conn with writeBuff := s.conn.writeBuff.writeFd n h.2 }
        task := .idle
        armed := some (if n = s.conn.writeBuff.readableBytes then .epollin else .epollout) }
  else none

/-- `OnWrite_` when the peer is gone and the write after `n` bytes fails. -/
def onWriteError (s : Link η σ) (n : ℕ) : Option (Link η σ) :=
  if h : s.task = .writing ∧ s.fin ∧ n < s.conn.writeBuff.readableBytes then
    some { s.close with conn := { s.conn with writeBuff := s.conn.writeBuff.writeFd n h.2.2.le } }
  else none

def step (s : Link η σ) (a : Action) : Option (Link η σ) :=
  if s.closed then none
  else
    match a with
    | .arrive n =>
      if s.fin = false ∧ 0 < n ∧ n ≤ s.unsent.length then
        some { s with unsent := s.unsent.drop n, rcv := s.rcv ++ s.unsent.take n }
      else none
    | .fin => if s.fin = false ∧ s.unsent = [] then some { s with fin := true } else none
    | .event => s.onEvent
    | .read n => s.onRead n
    | .readEnd => s.onReadEnd
    | .process => s.onProcess http c svc
    | .write n => s.onWrite n
    | .writeError n => s.onWriteError n

/-- What a step can do, as far as the received bytes are concerned. -/
inductive Effect (s : Link η σ) : Action → Link η σ → Prop
  | arrive (n : ℕ) : s.fin = false →
      Effect s (.arrive n) { s with unsent := s.unsent.drop n, rcv := s.rcv ++ s.unsent.take n }
  | fin : s.fin = false → s.unsent = [] → Effect s .fin { s with fin := true }
  | close (a : Action) (wb : Buffer) : a ≠ .fin → s.fin = true → s.task ≠ .processing →
      Effect s a { s.close with conn.writeBuff := wb }
  | start (task : Task) : s.task = .idle → s.fin = false → task ≠ .processing →
      Effect s .event { s with armed := none, task := task }
  | read (n : ℕ) (b : Buffer) : s.task = .reading → 0 < n →
      b.readable = s.conn.readBuff.readable ++ s.rcv.take n →
      Effect s (.read n) { s with rcv := s.rcv.drop n, conn.readBuff := b }
  | wouldBlock : s.task = .reading → s.fin = false → Effect s .readEnd { s with task := .processing }
  | process (armed : Option Interest) : s.task = .processing →
      Effect s .process
        { s with
          conn := (TcpConnection.process http c svc s.conn).2
          task := .idle
          armed := armed }
  | write (n : ℕ) (wb : Buffer) (armed : Option Interest) : s.task = .writing →
      Effect s (.write n) { s with conn.writeBuff := wb, task := .idle, armed := armed }

theorem onEvent_effect {s t : Link η σ} (ht : s.onEvent = some t) : Effect http c svc s .event t := by
  unfold onEvent at ht
  split at ht
  case h_1 interest htask _ =>
    by_cases hfin : s.fin = true
    · rw [if_pos hfin] at ht
      cases ht
      exact .close .event s.conn.writeBuff (by simp) hfin (by simp [htask])
    · rw [if_neg hfin] at ht
      cases interest with
      | epollin =>
        dsimp only at ht
        split_ifs at ht
        cases ht
        exact .start .reading htask (by simpa using hfin) (by decide)
      | epollout =>
        cases ht
        exact .start .writing htask (by simpa using hfin) (by decide)
  case h_2 => cases ht

theorem step_effect {s t : Link η σ} {a : Action} (ht : step http c svc s a = some t) :
    s.closed = false ∧ Effect http c svc s a t := by
  unfold step at ht
  by_cases hcl : s.closed = true
  · rw [if_pos hcl] at ht
    cases ht
  rw [if_neg hcl] at ht
  refine ⟨by simpa using hcl, ?_⟩
  cases a with
  | arrive n =>
    dsimp only at ht
    split_ifs at ht with hn
    cases ht
    exact .arrive n hn.1
  | fin =>
    dsimp only at ht
    split_ifs at ht with hn
    cases ht
    exact .fin hn.1 hn.2
  | event => exact onEvent_effect http c svc ht
  | read n =>
    dsimp only [onRead] at ht
    split_ifs at ht with hn
    cases ht
    exact .read n _ hn.1 hn.2.1 (by simp)
  | readEnd =>
    dsimp only [onReadEnd] at ht
    split_ifs at ht with hn hfin
    · cases ht
      exact .close _ s.conn.writeBuff (by simp) hfin (by simp [hn.1])
    · cases ht
      exact .wouldBlock hn.1 (by simpa using hfin)
  | process =>
    unfold onProcess at ht
    by_cases hn : s.task = .processing
    · rw [if_pos hn] at ht
      cases ht
      exact .process _ hn
    · rw [if_neg hn] at ht
      cases ht
  | write n =>
    change s.onWrite n = some t at ht
    unfold onWrite at ht
    by_cases hn : s.task = .writing ∧ n ≤ s.conn.writeBuff.readableBytes
    · rw [dif_pos hn] at ht
      cases ht
      exact .write n _ _ hn.1
    · rw [dif_neg hn] at ht
      cases ht
  | writeError n =>
    dsimp only [onWriteError] at ht
    split_ifs at ht with hn
    cases ht
    exact .close _ _ (by simp) hn.2.1 (by simp [hn.1])

/-- Bytes read and not yet dispatched, those in the socket and those on their way are the
frames of the envelopes not yet dispatched. Between tasks, less than a frame is unread. -/
structure Accounted (es : List Envelope) (s : Link η σ) : Prop where
  account : ∃ todo, es = s.conn.dispatched ++ todo ∧
    s.conn.readBuff.readable ++ (s.rcv ++ s.unsent) = c.stream todo ∧
    (s.task = .idle ∨ s.task = .writing → s.closed = false →
      ∀ e ∈ todo.head?, s.conn.readBuff.readable.length < (c.packet e).length)
  protocol : s.conn.protocol = .protobuf ∨ s.conn.protocol = .undetermined
  unsent_of_fin : s.fin = true → s.unsent = []
  fin_of_closed : s.closed = true → s.fin = true ∧ s.task = .idle

/-- Everything that arrived before the FIN has been dispatched or is about to be. -/
def Drained (s : Link η σ) : Prop :=
  s.fin = true → s.rcv = [] ∧ (s.conn.readBuff.readable = [] ∨ s.task = .processing)

/-- Something that arrived before the FIN will not be dispatched any more. -/
def Abandoned (s : Link η σ) : Prop :=
  s.fin = true ∧ (s.rcv ≠ [] ∨
    (s.task = .reading ∨ s.closed = true) ∧ s.conn.readBuff.readable ≠ [])

/-- The FIN finds the receive queue empty, and no read loop that holds bytes it has read. -/
def FinAfterRead (s : Link η σ) : Action → Prop
  | .fin => s.rcv = [] ∧ ¬ (s.task = .reading ∧ s.conn.readBuff.readable ≠ [])
  | _ => True

theorem init_accounted (es : List Envelope) : Accounted c es (init (η := η) c w es) := by
  refine ⟨⟨es, rfl, by simp [init, TcpConnection.init], ?_⟩, .inr rfl, ?_, ?_⟩
  · intro _ _ e _
    simp only [init, TcpConnection.init, Buffer.readable_init, List.length_nil, Codec.packet,
      length_frame]
    omega
  · intro h
    cases h
  · intro h
    cases h

variable {c}

theorem step_accounted {es : List Envelope} (hes : ∀ e ∈ es, TcpConnection.Admissible c e)
    {s t : Link η σ} {a : Action} (h : Accounted c es s) (ht : step http c svc s a = some t) :
    Accounted c es t := by
  obtain ⟨hopen, he⟩ := step_effect http c svc ht
  obtain ⟨⟨todo, htodo, hbytes, hshort⟩, hproto, hunsent, hclosed⟩ := h
  have hstill : ∀ {p : Prop}, s.closed = true → p := fun hc => by simp [hopen] at hc
  cases he with
  | arrive n hfin =>
    refine ⟨⟨todo, htodo, ?_, hshort⟩, hproto, ?_, hclosed⟩
    · simpa using hbytes
    · intro h
      simp [hfin] at h
  | fin hfin hu => exact ⟨⟨todo, htodo, hbytes, hshort⟩, hproto, fun _ => hu, hstill⟩
  | close a wb _ hfin =>
    refine ⟨⟨todo, htodo, hbytes, ?_⟩, hproto, hunsent, fun _ => ⟨hfin, rfl⟩⟩
    intro _ hc
    cases hc
  | start task hidle =>
    have := hshort (.inl hidle) hopen
    exact ⟨⟨todo, htodo, hbytes, fun _ _ => this⟩, hproto, hunsent, hstill⟩
  | read n b hread _ hb =>
    refine ⟨⟨todo, htodo, ?_, ?_⟩, hproto, hunsent, hstill⟩
    · rw [hb, List.append_assoc, ← List.append_assoc (s.rcv.take n), List.take_append_drop]
      exact hbytes
    · intro h
      simp [hread] at h
  | wouldBlock =>
    refine ⟨⟨todo, htodo, hbytes, ?_⟩, hproto, hunsent, hstill⟩
    intro h
    simp at h
  | process armed =>
    have hadm : ∀ e ∈ todo, TcpConnection.Admissible c e := fun e he =>
      hes e (htodo ▸ List.mem_append_right _ he)
    obtain ⟨done, left, rfl, hdisp, hread, hshort', hproto'⟩ :=
      TcpConnection.process_of_isPrefix http svc hadm hproto ⟨_, hbytes⟩
    refine ⟨⟨left, ?_, ?_, fun _ _ => hshort'⟩, hproto', hunsent, hstill⟩
    · rw [hdisp, htodo, List.append_assoc]
    · rw [hread, List.append_assoc, Codec.stream, Codec.stream, List.map_append,
        frames_append] at hbytes
      exact List.append_cancel_left hbytes
  | write n wb armed hw =>
    exact ⟨⟨todo, htodo, hbytes, fun _ => hshort (.inr hw)⟩, hproto, hunsent, hstill⟩

private theorem stream_eq_nil {es : List Envelope} : c.stream es = [] ↔ es = [] := by
  cases es with
  | nil => simp [Codec.stream]
  | cons e es => simp [Codec.stream, frame, be32]

theorem readable_eq_nil {todo : List Envelope} {b : Bytes} (hb : b = c.stream todo)
    (hshort : ∀ e ∈ todo.head?, b.length < (c.packet e).length) : b = [] := by
  cases todo with
  | nil => simpa [Codec.stream] using hb
  | cons e todo =>
    have hlt := hshort e rfl
    rw [hb] at hlt
    simp only [Codec.stream, Codec.packet, List.map_cons, frames_cons, List.length_append] at hlt
    omega

theorem step_drained {es : List Envelope} (hes : ∀ e ∈ es, TcpConnection.Admissible c e)
    {s t : Link η σ} {a : Action} (h : Accounted c es s) (hd : s.Drained) (ha : s.FinAfterRead a)
    (ht : step http c svc s a = some t) : t.Drained := by
  have h' := step_accounted http svc hes h ht
  obtain ⟨hopen, he⟩ := step_effect http c svc ht
  intro hfin
  cases he with
  | arrive n hf => simp [hf] at hfin
  | fin hf hu =>
    obtain ⟨hrcv, hread⟩ := ha
    refine ⟨hrcv, ?_⟩
    obtain ⟨todo, -, hbytes, hshort⟩ := h.account
    rw [hrcv, hu, List.append_nil, List.append_nil] at hbytes
    -- only a read loop can hold whole frames, and the condition excludes it
    cases htask : s.task with
    | idle => exact .inl (readable_eq_nil hbytes (hshort (.inl htask) hopen))
    | writing => exact .inl (readable_eq_nil hbytes (hshort (.inr htask) hopen))
    | reading => exact .inl (by_contra fun hne => hread ⟨htask, hne⟩)
    | processing => exact .inr rfl
  | close a wb _ hf hnp =>
    obtain ⟨hrcv, hread⟩ := hd hf
    exact ⟨hrcv, .inl (hread.resolve_right hnp)⟩
  | start task _ hf => simp [hf] at hfin
  | read n b hr _ hb =>
    obtain ⟨hrcv, hread⟩ := hd hfin
    have hnil := hread.resolve_right (by simp [hr])
    refine ⟨by simp [hrcv], .inl ?_⟩
    rw [hb, hnil, hrcv, List.take_nil, List.append_nil]
  | wouldBlock _ hf => simp [hf] at hfin
  | process armed =>
    obtain ⟨hrcv, -⟩ := hd hfin
    obtain ⟨todo, -, hbytes, hshort⟩ := h'.account
    have hu := h.unsent_of_fin hfin
    simp only [hrcv, hu, List.append_nil] at hbytes
    exact ⟨hrcv, .inl (readable_eq_nil hbytes (hshort (.inl rfl) hopen))⟩
  | write n wb armed hw =>
    obtain ⟨hrcv, hread⟩ := hd hfin
    exact ⟨hrcv, .inl (hread.resolve_right (by simp [hw]))⟩

theorem step_abandoned {s t : Link η σ} {a : Action} (hb : s.Abandoned)
    (ht : step http c svc s a = some t) : t.Abandoned := by
  obtain ⟨hopen, he⟩ := step_effect http c svc ht
  obtain ⟨hfin, hrest⟩ := hb
  simp only [hopen, Bool.false_eq_true, or_false] at hrest
  cases he with
  | arrive n hf => simp [hf] at hfin
  | fin hf => simp [hf] at hfin
  | close a wb =>
    refine ⟨hfin, ?_⟩
    rcases hrest with hne | ⟨-, hne⟩
    · exact .inl hne
    · exact .inr ⟨.inr rfl, hne⟩
  | start task _ hf => simp [hf] at hfin
  | read n b hr hn hb =>
    refine ⟨hfin, .inr ⟨.inl hr, ?_⟩⟩
    rw [hb]
    rcases hrest with hne | ⟨-, hne⟩
    · have htake : s.rcv.take n ≠ [] := by simp [hne, hn.ne']
      simp [htake]
    · simp [hne]
  | wouldBlock _ hf => simp [hf] at hfin
  | process armed hp =>
    rw [hp] at hrest
    exact ⟨hfin, .inl (hrest.resolve_right (by simp))⟩
  | write n wb armed hw =>
    rw [hw] at hrest
    exact ⟨hfin, .inl (hrest.resolve_right (by simp))⟩

theorem fin_abandons {s t : Link η σ} {a : Action} (ha : ¬ s.FinAfterRead a)
    (ht : step http c svc s a = some t) : t.Abandoned := by
  cases a with
  | fin =>
    obtain ⟨-, he⟩ := step_effect http c svc ht
    simp only [FinAfterRead, not_and_or (a := s.rcv = []), not_not] at ha
    cases he with
    | fin => exact ⟨rfl, ha.imp_right fun h => ⟨.inl h.1, h.2⟩⟩
    | close _ wb hne => exact absurd rfl hne
  | _ => exact absurd trivial ha

variable (c)

/-- A run that ends with the connection closed has dispatched all frames exactly when the FIN
arrived with nothing left in the receive queue or in the hands of a read loop. -/
theorem frames_before_fin_handled_iff (es : List Envelope)
    (hes : ∀ e ∈ es, ∃ s, c.serialize e = some s ∧ s.length ≤ kMaxMessageSize)
    (as : List Action) (t : Link η σ)
    (hr : Steps.run (step http c svc) (init c w es) as = some t) (hc : t.closed = true) :
    t.conn.dispatched = es ↔ Steps.Meets (step http c svc) FinAfterRead (init c w es) as := by
  have hinit : Accounted c es (init (η := η) c w es) := init_accounted c w es
  have hacc : Accounted c es t :=
    Steps.invariant_of_run (I := Accounted c es) (fun _ _ _ h => step_accounted http svc hes h) hinit hr
  obtain ⟨todo, htodo, hbytes, -⟩ := hacc.account
  obtain ⟨hfin, hidle⟩ := hacc.fin_of_closed hc
  rw [hacc.unsent_of_fin hfin, List.append_nil] at hbytes
  constructor
  · intro hall
    by_contra hmeets
    obtain ⟨pre, a, post, u, v, -, hpre, hstep, ha, hpost⟩ := Steps.exists_of_not_meets hr hmeets
    have hab : t.Abandoned :=
      Steps.invariant_of_run (I := Abandoned) (fun _ _ _ h => step_abandoned http svc h)
        (fin_abandons http svc ha hstep) hpost
    have hnil : todo = [] := by simpa [hall] using htodo
    rw [hnil, stream_eq_nil.mpr rfl, List.append_eq_nil_iff] at hbytes
    rcases hab.2 with hne | ⟨-, hne⟩
    · exact hne hbytes.2
    · exact hne hbytes.1
  · intro hmeets
    have hdrained : Accounted c es t ∧ t.Drained :=
      Steps.invariant_of_meets (I := fun s => Accounted c es s ∧ s.Drained)
        (fun s a u h ha hu =>
          ⟨step_accounted http svc hes h.1 hu, step_drained http svc hes h.1 h.2 ha hu⟩)
        ⟨hinit, fun h => by cases h⟩ hmeets hr
    obtain ⟨hrcv, hread⟩ := hdrained.2 hfin
    rw [hrcv, hread.resolve_right (by simp [hidle])] at hbytes
    have hnil : todo = [] := stream_eq_nil.mp (by simpa using hbytes.symm)
    rw [htodo, hnil, List.append_nil]

open TcpConnection (noHttp heartbeatCodec clockServices heartbeat)

/-- The peer of the examples: it sends one heartbeat and shuts down. -/
def heartbeatPeer : Link Unit Unit := init heartbeatCodec () [heartbeat 7]

private theorem heartbeat_admissible :
    ∀ e ∈ [heartbeat 7], ∃ s, heartbeatCodec.serialize e = some s ∧ s.length ≤ kMaxMessageSize := by
  intro e he
  rw [List.mem_singleton.mp he]
  exact ⟨[0x08, 7, 0x10, 99], rfl, by decide⟩

private theorem onRead_eq {s : Link η σ} {n : ℕ} (htask : s.task = .reading) (hpos : 0 < n)
    (hn : n ≤ s.rcv.length) (hcap : n ≤ Buffer.extraBytes) :
    ∃ b : Buffer, b.readable = s.conn.readBuff.readable ++ s.rcv.take n ∧
      s.onRead n = some { s with rcv := s.rcv.drop n, conn.readBuff := b } :=
  ⟨_, Buffer.readable_readFd _ _ _, dif_pos ⟨htask, hpos, hn, hcap.trans (Nat.le_add_left _ _)⟩⟩

theorem heartbeat_processed :
    ∃ u, Steps.run (step noHttp heartbeatCodec (clockServices 1700000000)) heartbeatPeer
        [.arrive 8, .event, .read 8, .readEnd, .process] = some u ∧
      u.rcv = [] ∧ u.unsent = [] ∧ u.fin = false ∧ u.task = .idle ∧ u.closed = false ∧
      ∃ interest, u.armed = some interest := by
  let s₂ : Link Unit Unit :=
    { heartbeatPeer with
      unsent := [], rcv := heartbeatPeer.unsent, armed := none, task := .reading }
  obtain ⟨b, -, hb⟩ := onRead_eq (s := s₂) (n := 8) rfl (by decide) (by decide) (by decide)
  have hread : Steps.run (step noHttp heartbeatCodec (clockServices 1700000000)) heartbeatPeer
      [.arrive 8, .event, .read 8] = some { s₂ with rcv := [], conn.readBuff := b } := by
    refine Steps.run_cons_eq_some.mpr ⟨_, rfl, Steps.run_cons_eq_some.mpr ⟨s₂, rfl, ?_⟩⟩
    exact Steps.run_cons_eq_some.mpr ⟨_, hb, rfl⟩
  obtain ⟨u, hu, hfields⟩ : ∃ u,
      Steps.run (step noHttp heartbeatCodec (clockServices 1700000000))
        { s₂ with rcv := [], conn.readBuff := b } [.readEnd, .process] = some u ∧
      u.rcv = [] ∧ u.unsent = [] ∧ u.fin = false ∧ u.task = .idle ∧ u.closed = false ∧
      ∃ interest, u.armed = some interest := ⟨_, rfl, rfl, rfl, rfl, rfl, rfl, _, rfl⟩
  refine ⟨u, ?_, hfields⟩
  rw [show ([.arrive 8, .event, .read 8, .readEnd, .process] : List Action) =
    [.arrive 8, .event, .read 8] ++ [.readEnd, .process] from rfl, Steps.run_append, hread]
  exact hu

/-- The FIN arrives after that, and nothing is lost. -/
theorem frames_before_fin_handled_heartbeat :
    ∃ t, Steps.run (step noHttp heartbeatCodec (clockServices 1700000000)) heartbeatPeer
        ([.arrive 8, .event, .read 8, .readEnd, .process] ++ [.fin, .event]) = some t ∧
      t.closed = true ∧ t.conn.dispatched = [heartbeat 7] := by
  obtain ⟨u, hu, hrcv, hunsent, hfin, htask, hopen, interest, harmed⟩ := heartbeat_processed
  have hrest : Steps.run (step noHttp heartbeatCodec (clockServices 1700000000)) u [.fin, .event] =
      some { u with fin := true }.close := by
    refine Steps.run_cons_eq_some.mpr ⟨{ u with fin := true }, ?_, ?_⟩
    · simp [step, hopen, hfin, hunsent]
    · simp [Steps.run, step, onEvent, hopen, htask, harmed]
  have hrun : Steps.run (step noHttp heartbeatCodec (clockServices 1700000000)) heartbeatPeer
      ([.arrive 8, .event, .read 8, .readEnd, .process] ++ [.fin, .event]) =
        some { u with fin := true }.close := by
    rw [Steps.run_append, hu]
    exact hrest
  refine ⟨_, hrun, rfl, ?_⟩
  refine (frames_before_fin_handled_iff noHttp heartbeatCodec (clockServices 1700000000) ()
    [heartbeat 7] heartbeat_admissible _ _ hrun rfl).mpr (Steps.meets_append.mpr ⟨?_, ?_⟩)
  · simp [Steps.Meets, FinAfterRead]
  · intro v hv
    obtain rfl : u = v := Option.some.inj (hu.symm.trans hv)
    simp [Steps.Meets, FinAfterRead, hrcv, htask]

/-- The FIN arrives together with the frame: the close event is tested first, and the frame is
dropped. -/
theorem frame_with_fin_dropped :
    ∃ t, Steps.run (step noHttp heartbeatCodec (clockServices 1700000000)) heartbeatPeer
        [.arrive 8, .fin, .event] = some t ∧ t.closed = true ∧ t.conn.dispatched ≠ [heartbeat 7] :=
  ⟨_, rfl, rfl, by simp [close, heartbeatPeer, init, TcpConnection.init]⟩

end Link
end TermChat
