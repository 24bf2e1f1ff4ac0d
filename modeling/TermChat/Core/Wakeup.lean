import TermChat.Core.Chunks
import TermChat.Base.Steps
import TermChat.Base.Threads

/-! The write side of a logged-in protobuf connection: `enqueue_messages` calls, the event
loop and the workers share the outgoing queue, the write buffer, the cached event mask and
the one-shot registration of the descriptor. -/
namespace TermChat
open Proto Framing ProtobufHandler

def epollIn : UInt32 := 0x1

def epollOut : UInt32 := 0x4

def epollRdHup : UInt32 := 0x2000

def epollOneShot : UInt32 := 0x40000000

def epollEt : UInt32 := 0x80000000

def connEvent (isEt : Bool) : UInt32 :=
  if isEt then epollOneShot ||| epollRdHup ||| epollEt else epollOneShot ||| epollRdHup

def notifyEvents (isEt : Bool) : UInt32 :=
  if isEt then epollIn ||| epollOut ||| epollRdHup ||| epollOneShot ||| epollEt
  else epollIn ||| epollOut ||| epollRdHup ||| epollOneShot

def WantsOut (mask : UInt32) : Prop := mask &&& epollOut ≠ 0

instance (mask : UInt32) : Decidable (WantsOut mask) := by unfold WantsOut; infer_instance

/-- Where an `enqueue_messages` call stands. The last three are inside `notify_writable`. -/
inductive Call where
  | enqueueing (messages : List Bytes) (shouldNotify : Bool)
  | checkEvents
  | modFd
  | storeEvents
  deriving DecidableEq, Repr

/-- Where a worker stands in `OnRead_` with `OnProcess_`, or in `OnWrite_`. A delivered event
is the task that it starts. -/
inductive Work where
  | read
  | process
  | write
  | toWriteBytes
  | modFd (events : UInt32)
  | updateEvents (events : UInt32)
  deriving DecidableEq, Repr

/-- `armed` is the registered mask, `none` after a delivery until the next `modFd`. -/
structure Outbound (η σ : Type) where
  conn : TcpConnection η σ
  outgoingQueue : List Bytes
  events : UInt32
  armed : Option UInt32
  calls : List Call
  work : List Work

namespace Outbound

variable {η σ : Type} (isEt : Bool) (http : HttpHandler η) (c : Codec) (svc : Services σ)

/-- An idle connection: nothing to write, registered for reading. -/
def init (conn : TcpConnection η σ) : Outbound η σ :=
  { conn := conn
    outgoingQueue := []
    events := connEvent isEt ||| epollIn
    armed := some (connEvent isEt ||| epollIn)
    calls := []
    work := [] }

/-- `call i` and `work i` let that activity take its next step; `data` is what the socket
holds when it reads, `n` how many bytes the socket takes when it writes. -/
inductive Action where
  | enqueueMessages (messages : List Bytes)
  | call (i : ℕ)
  | event (readReady writeReady : Bool)
  | work (i : ℕ) (data : Bytes) (n : ℕ)

/-- The start of `enqueue_messages`, up to the emptiness test. -/
def enqueueMessages (s : Outbound η σ) (messages : List Bytes) : Outbound η σ :=
  if messages = [] then s
  else { s with calls := s.calls ++ [.enqueueing messages s.outgoingQueue.isEmpty] }

def onCall (s : Outbound η σ) (i : ℕ) : Option (Outbound η σ) :=
  (s.calls[i]?).map fun call =>
    let next := Threads.advance s.calls i
    match call with
    | .enqueueing (data :: messages) notify =>
      { s with
        outgoingQueue := if data = [] then s.outgoingQueue else s.outgoingQueue ++ [frame data]
        calls := next (some (.enqueueing messages notify)) }
    | .enqueueing [] notify => { s with calls := next (if notify then some .checkEvents else none) }
    | .checkEvents =>
      { s with calls := next (if s.events = notifyEvents isEt then none else some .modFd) }
    | .modFd => { s with armed := some (notifyEvents isEt), calls := next (some .storeEvents) }
    | .storeEvents => { s with events := notifyEvents isEt, calls := next none }

/-- One round of `Start`: `EPOLLIN` is tested before `EPOLLOUT`. -/
def onEvent (s : Outbound η σ) (readReady writeReady : Bool) : Option (Outbound η σ) :=
  s.armed.bind fun mask =>
    if mask &&& epollIn ≠ 0 ∧ readReady then
      some { s with armed := none, work := s.work ++ [.read] }
    else if WantsOut mask ∧ writeReady then
      some { s with armed := none, work := s.work ++ [.write] }
    else none

def flushPendingToBuffer (s : Outbound η σ) : Outbound η σ :=
  { s with
    conn.writeBuff := s.outgoingQueue.foldl Buffer.append s.conn.writeBuff
    outgoingQueue := [] }

/-- `write()` when the socket takes `n` of the flushed bytes, or all of them. -/
def write (s : Outbound η σ) (n : ℕ) : Outbound η σ :=
  let s := s.flushPendingToBuffer
  { s with conn.writeBuff := s.conn.writeBuff.writeFd (min n s.conn.writeBuff.readableBytes) (by simp) }

def onWork (s : Outbound η σ) (i : ℕ) (data : Bytes) (n : ℕ) : Option (Outbound η σ) :=
  (s.work[i]?).map fun work =>
    let next := Threads.advance s.work i
    match work with
    | .read =>
      { s with
        conn.readBuff := TcpConnection.readAll s.conn.readBuff data
        work := next (some .process) }
    | .process =>
      let (produced, conn) := TcpConnection.process http c svc s.conn
      { s with
        conn := conn
        work := next (some (.modFd (connEvent isEt ||| if produced then epollOut else epollIn))) }
    | .write => { s.write n with work := next (some .toWriteBytes) }
    | .toWriteBytes =>
      let events :=
        connEvent isEt ||| if s.conn.writeBuff.readableBytes = 0 then epollIn else epollOut
      { s with work := next (some (.modFd events)) }
    | .modFd events => { s with armed := some events, work := next (some (.updateEvents events)) }
    | .updateEvents events => { s with events := events, work := next none }

def step (s : Outbound η σ) : Action → Option (Outbound η σ)
  | .enqueueMessages messages => some (s.enqueueMessages messages)
  | .call i => s.onCall isEt i
  | .event readReady writeReady => s.onEvent readReady writeReady
  | .work i data n => s.onWork isEt http c svc i data n

def Pending (s : Outbound η σ) : Prop := s.outgoingQueue ≠ [] ∨ s.conn.writeBuff.readable ≠ []

def ArmedOut (s : Outbound η σ) : Prop := ∃ mask ∈ s.armed, WantsOut mask

/-- With no task, event or call outstanding, pending output is covered by the registration. -/
def WakesWriter (s : Outbound η σ) : Prop := s.work = [] → s.calls = [] → s.Pending → s.ArmedOut

/-- A worker re-arms the descriptor for reading only, or records such a mask, while nothing is
left to write and no `enqueue_messages` call is in progress. -/
def RearmsWhenIdle (s : Outbound η σ) : Action → Prop
  | .work i _ _ => ∀ events,
      s.work[i]? = some (.modFd events) ∨ s.work[i]? = some (.updateEvents events) →
      ¬ WantsOut events → ¬ s.Pending ∧ s.calls = []
  | _ => True

/-- A task that has not yet re-armed the descriptor, or still has to record a mask without
`EPOLLOUT`. -/
def Covers : Work → Prop
  | .updateEvents events => ¬ WantsOut events
  | _ => True

/-- A call that is going to look at the cached mask, or to arm the descriptor. -/
def Notifies : Call → Prop
  | .enqueueing _ notify => notify = true
  | .checkEvents | .modFd => True
  | .storeEvents => False

/-- The registration or a task will lead to a write. -/
def Attended (s : Outbound η σ) : Prop := s.ArmedOut ∨ ∃ work ∈ s.work, Covers work

/-- The invariant: pending output and running calls are attended to, or a call is going to
notify; the cached mask claims a full registration only when the output is attended to. -/
structure Guarded (s : Outbound η σ) : Prop where
  pending : s.Pending ∨ s.calls ≠ [] → s.Attended ∨ ∃ call ∈ s.calls, Notifies call
  full : s.events = notifyEvents isEt ∨ .storeEvents ∈ s.calls → s.Attended
  masks : ∀ events, .modFd events ∈ s.work ∨ .updateEvents events ∈ s.work →
    events ≠ notifyEvents isEt

private theorem wantsOut_notifyEvents : WantsOut (notifyEvents isEt) := by cases isEt <;> decide

theorem connEvent_ne_notifyEvents (b : Bool) :
    (connEvent isEt ||| if b then epollOut else epollIn) ≠ notifyEvents isEt := by
  cases isEt <;> cases b <;> decide

variable {isEt}

theorem Guarded.wakesWriter {s : Outbound η σ} (h : s.Guarded isEt) : s.WakesWriter := by
  intro hwork hcalls hpending
  rcases h.pending (.inl hpending) with (harmed | ⟨x, hx, -⟩) | ⟨x, hx, -⟩
  · exact harmed
  · rw [hwork] at hx
    cases hx
  · rw [hcalls] at hx
    cases hx

/-- Where the output is attended to, only the masks are left to show. -/
theorem guarded_of_attended {s : Outbound η σ} (h : s.Attended)
    (hm : ∀ events, .modFd events ∈ s.work ∨ .updateEvents events ∈ s.work →
      events ≠ notifyEvents isEt) : s.Guarded isEt :=
  ⟨fun _ => .inl h, fun _ => h, hm⟩

theorem init_guarded {conn : TcpConnection η σ} (h : conn.writeBuff.readable = []) :
    (init isEt conn).Guarded isEt := by
  refine ⟨?_, ?_, ?_⟩
  · intro hp
    simp [init, Pending, h] at hp
  · intro hf
    have hne := connEvent_ne_notifyEvents isEt false
    simp only [Bool.false_eq_true, if_false] at hne
    simp [init, hne] at hf
  · intro events he
    simp [init] at he

theorem enqueueMessages_guarded {s : Outbound η σ} (h : s.Guarded isEt) (messages : List Bytes) :
    (s.enqueueMessages messages).Guarded isEt := by
  unfold enqueueMessages
  split_ifs
  · exact h
  refine ⟨fun _ => ?_, fun hf => h.full (hf.imp_right fun hm => ?_), h.masks⟩
  · by_cases hq : s.outgoingQueue = []
    · exact .inr ⟨_, List.mem_append_right _ List.mem_cons_self, by simp [Notifies, hq]⟩
    · refine (h.pending (.inl (.inl hq))).imp_right ?_
      rintro ⟨call, hc, hn⟩
      exact ⟨call, List.mem_append_left _ hc, hn⟩
  · simpa using hm

theorem onEvent_guarded {s t : Outbound η σ} (h : s.Guarded isEt) {readReady writeReady : Bool}
    (ht : s.onEvent readReady writeReady = some t) : t.Guarded isEt := by
  obtain ⟨mask, -, ht⟩ := Option.bind_eq_some_iff.mp ht
  split_ifs at ht
  · cases ht
    refine guarded_of_attended (.inr ⟨.read, by simp, trivial⟩) fun events he => h.masks events ?_
    simpa using he
  · cases ht
    refine guarded_of_attended (.inr ⟨.write, by simp, trivial⟩) fun events he => h.masks events ?_
    simpa using he

/-- A call that goes on keeps the invariant, as long as it does not give up a notification. -/
theorem guarded_of_call {s t : Outbound η σ} (h : s.Guarded isEt) {i : ℕ} {call : Call}
    (hi : s.calls[i]? = some call) (next : Option Call)
    (hc : t.calls = Threads.advance s.calls i next) (harmed : t.armed = s.armed)
    (hwork : t.work = s.work) (hevents : t.events = s.events)
    (hn : Notifies call → ∃ x ∈ next, Notifies x) (hs : next ≠ some .storeEvents) :
    t.Guarded isEt := by
  have hatt : s.Attended → t.Attended := by
    unfold Attended ArmedOut
    rw [harmed, hwork]
    exact id
  have hcalls : s.calls ≠ [] := by
    intro hnil
    simp [hnil] at hi
  refine ⟨fun _ => ?_, fun hf => hatt (h.full ?_), ?_⟩
  · rw [hc, Threads.exists_mem_advance hi]
    exact (h.pending (.inr hcalls)).imp hatt
      fun hx => ((Threads.exists_mem_iff hi).mp hx).imp_left hn
  · rw [hevents, hc, Threads.mem_advance hi] at hf
    refine hf.imp_right fun hm => (Threads.mem_iff hi).mpr (.inr ?_)
    exact hm.resolve_left hs
  · rw [hwork]
    exact h.masks

theorem onCall_guarded {s t : Outbound η σ} (h : s.Guarded isEt) {i : ℕ}
    (ht : s.onCall isEt i = some t) : t.Guarded isEt := by
  obtain ⟨call, hi, rfl⟩ := Option.map_eq_some_iff.mp ht
  cases call with
  | enqueueing messages notify =>
    cases messages with
    | cons data messages =>
      exact guarded_of_call h hi (some (.enqueueing messages notify)) rfl rfl rfl rfl
        (fun hn => ⟨_, rfl, hn⟩) (by simp)
    | nil =>
      cases notify with
      | true =>
        exact guarded_of_call h hi (some .checkEvents) rfl rfl rfl rfl
          (fun _ => ⟨_, rfl, trivial⟩) (by simp)
      | false =>
        exact guarded_of_call h hi none rfl rfl rfl rfl (fun hn => by cases hn) (by simp)
  | checkEvents =>
    dsimp only
    split_ifs with hfull
    · exact guarded_of_attended (h.full (.inl hfull)) h.masks
    · exact guarded_of_call h hi (some .modFd) rfl rfl rfl rfl (fun _ => ⟨_, rfl, trivial⟩) (by simp)
  | modFd => exact guarded_of_attended (.inl ⟨_, rfl, wantsOut_notifyEvents isEt⟩) h.masks
  | storeEvents =>
    have hmem : .storeEvents ∈ s.calls := (Threads.mem_iff hi).mpr (.inl rfl)
    exact guarded_of_attended (h.full (.inr hmem)) h.masks

theorem masks_advance {s : Outbound η σ} (h : s.Guarded isEt) {i : ℕ} {work : Work}
    (hi : s.work[i]? = some work) (next : Option Work)
    (hm : ∀ events, next = some (.modFd events) ∨ next = some (.updateEvents events) →
      events ≠ notifyEvents isEt) {events : UInt32}
    (he : .modFd events ∈ Threads.advance s.work i next ∨
      .updateEvents events ∈ Threads.advance s.work i next) : events ≠ notifyEvents isEt := by
  have hold : ∀ {x}, x ∈ Threads.others s.work i → x ∈ s.work := fun hx =>
    (Threads.mem_iff hi).mpr (.inr hx)
  rw [Threads.mem_advance hi, Threads.mem_advance hi] at he
  rcases he with (he | he) | (he | he)
  · exact hm events (.inl he)
  · exact h.masks events (.inl (hold he))
  · exact hm events (.inr he)
  · exact h.masks events (.inr (hold he))

theorem guarded_of_next {s t : Outbound η σ} (h : s.Guarded isEt) {i : ℕ} {work next : Work}
    (hi : s.work[i]? = some work) (hw : t.work = Threads.advance s.work i (some next))
    (hc : Covers next) (hm : ∀ events, next = .modFd events ∨ next = .updateEvents events →
      events ≠ notifyEvents isEt) : t.Guarded isEt := by
  refine guarded_of_attended (.inr ⟨next, ?_, hc⟩) fun events he => ?_
  · rw [hw, Threads.mem_advance hi]
    exact .inl rfl
  · rw [hw] at he
    exact masks_advance h hi (some next) (by simpa using hm) he

theorem onWork_guarded {s t : Outbound η σ} (h : s.Guarded isEt) {i : ℕ} {data : Bytes} {n : ℕ}
    (ha : s.RearmsWhenIdle (.work i data n)) (ht : s.onWork isEt http c svc i data n = some t) :
    t.Guarded isEt := by
  obtain ⟨work, hi, rfl⟩ := Option.map_eq_some_iff.mp ht
  cases work with
  | read => exact guarded_of_next h hi rfl trivial (by simp)
  | process =>
    refine guarded_of_next h hi rfl trivial fun events he => ?_
    simp only [Work.modFd.injEq, reduceCtorEq, or_false] at he
    exact he ▸ connEvent_ne_notifyEvents isEt _
  | write => exact guarded_of_next h hi rfl trivial (by simp)
  | toWriteBytes =>
    refine guarded_of_next h hi rfl trivial fun events he => ?_
    simp only [Work.modFd.injEq, reduceCtorEq, or_false] at he
    have hne := connEvent_ne_notifyEvents isEt (!decide (s.conn.writeBuff.readableBytes = 0))
    simp only [Bool.not_eq_true', decide_eq_false_iff_not, ite_not] at hne
    exact he ▸ hne
  | modFd events =>
    have hmask : events ≠ notifyEvents isEt :=
      h.masks events (.inl ((Threads.mem_iff hi).mpr (.inl rfl)))
    by_cases hout : WantsOut events
    · refine guarded_of_attended (.inl ⟨events, rfl, hout⟩) fun events' he => ?_
      refine masks_advance h hi (some (.updateEvents events)) (fun e he => ?_) he
      simp only [Option.some.injEq, reduceCtorEq, Work.updateEvents.injEq, false_or] at he
      exact he ▸ hmask
    · refine guarded_of_next h hi rfl hout fun events' he => ?_
      simp only [reduceCtorEq, Work.updateEvents.injEq, false_or] at he
      exact he ▸ hmask
  | updateEvents events =>
    have hmask : events ≠ notifyEvents isEt :=
      h.masks events (.inr ((Threads.mem_iff hi).mpr (.inl rfl)))
    by_cases hout : WantsOut events
    · -- the task had already handed over to the registration
      have hatt : s.Attended → ArmedOut s ∨ ∃ x ∈ Threads.advance s.work i none, Covers x := by
        refine Or.imp_right fun hx => (Threads.exists_mem_advance hi).mpr (.inr ?_)
        exact ((Threads.exists_mem_iff hi).mp hx).resolve_left (not_not_intro hout)
      refine ⟨fun hp => (h.pending hp).imp_left hatt, fun hf => hatt (h.full (.inr ?_)), ?_⟩
      · exact hf.resolve_left hmask
      · intro events' he
        exact masks_advance h hi none (by simp) he
    · obtain ⟨hidle, hcalls⟩ := ha events (.inr hi) hout
      refine ⟨fun hp => absurd hp ?_, fun hf => absurd hf ?_, ?_⟩
      · exact not_or.mpr ⟨hidle, not_not_intro hcalls⟩
      · simp [hmask, hcalls]
      · intro events' he
        exact masks_advance h hi none (by simp) he

variable (isEt)

/-- In every run whose re-arms for reading happen while nothing is left to write and nobody is
enqueueing, no state has pending output that nothing will wake the writer for. -/
theorem wakes_writer_along (conn : TcpConnection η σ) (hempty : conn.writeBuff.readable = [])
    (as : List Action)
    (h : Steps.Meets (step isEt http c svc) RearmsWhenIdle (init isEt conn) as) :
    Steps.Along (step isEt http c svc) WakesWriter (init isEt conn) as := by
  refine Steps.along_of_meets (I := Guarded isEt) ?_ (fun s => Guarded.wakesWriter)
    (init_guarded hempty) h
  intro s a t hs ha ht
  cases a with
  | enqueueMessages messages =>
    cases ht
    exact enqueueMessages_guarded hs messages
  | call i => exact onCall_guarded hs ht
  | event readReady writeReady => exact onEvent_guarded hs ht
  | work i data n => exact onWork_guarded http c svc hs ha ht

open TcpConnection (noHttp heartbeatCodec clockServices)

def idleConn : TcpConnection Unit Unit :=
  { (TcpConnection.init () : TcpConnection Unit Unit) with protocol := .protobuf }

def readConn : TcpConnection Unit Unit :=
  { idleConn with readBuff := TcpConnection.readAll idleConn.readBuff [0] }

/-- One byte is no frame: `process` answers false and leaves the write buffer alone. -/
theorem process_readConn :
    ∃ conn, TcpConnection.process noHttp heartbeatCodec (clockServices 1700000000) readConn =
      (false, conn) ∧ conn.writeBuff.readable = [] := by
  obtain ⟨hres, -, -, -, -, hwb⟩ :=
    TcpConnection.process_protobuf noHttp heartbeatCodec (clockServices 1700000000)
      (rfl : readConn.protocol = .protobuf)
  have hbytes : readConn.readBuff.readable = [0] := by
    simp [readConn, idleConn, TcpConnection.init]
  have hd : decode heartbeatCodec.parse kMaxMessageSize [0] = ([0], none) := decode_short (by simp)
  rw [hbytes, decodeAll_of_none (by rw [hd])] at hres hwb
  refine ⟨_, Prod.ext (by simpa using hres) rfl, ?_⟩
  simpa [responses, readConn, idleConn, TcpConnection.init] using hwb

/-- A push, in the steps of one `enqueue_messages` call. -/
def pushSteps : List Action := [.enqueueMessages [[7]], .call 0, .call 0, .call 0, .call 0, .call 0]

def readSteps : List Action :=
  [.event true true, .work 0 [0] 0, .work 0 [] 0, .work 0 [] 0, .work 0 [] 0]

section

variable {conn : TcpConnection Unit Unit} (queue : List Bytes) (events mask : UInt32)

def afterRead : Outbound Unit Unit := ⟨readConn, queue, events, none, [], [.process]⟩

def beforeRearm (conn : TcpConnection Unit Unit) : Outbound Unit Unit :=
  ⟨conn, queue, events, none, [], [.modFd (connEvent true ||| epollIn)]⟩

variable (hproc : TcpConnection.process noHttp heartbeatCodec (clockServices 1700000000) readConn =
  (false, conn))
include hproc

theorem step_afterRead :
    step true noHttp heartbeatCodec (clockServices 1700000000) (afterRead queue events)
      (.work 0 [] 0) = some (beforeRearm queue events conn) := by
  simp [step, onWork, afterRead, beforeRearm, hproc, Threads.advance]

theorem run_readSteps (hmask : mask &&& epollIn ≠ 0) :
    Steps.run (step true noHttp heartbeatCodec (clockServices 1700000000))
        ⟨idleConn, queue, events, some mask, [], []⟩ readSteps =
      some ⟨conn, queue, connEvent true ||| epollIn, some (connEvent true ||| epollIn), [], []⟩ := by
  refine Steps.run_cons_eq_some.mpr ⟨⟨idleConn, queue, events, none, [], [.read]⟩, ?_, ?_⟩
  · simp [step, onEvent, hmask]
  refine Steps.run_cons_eq_some.mpr ⟨afterRead queue events, rfl, ?_⟩
  exact Steps.run_cons_eq_some.mpr ⟨_, step_afterRead queue events hproc, rfl⟩

end

/-- One byte is read and the descriptor re-armed with nothing to write, then a push arrives. -/
theorem wakes_writer_push_after_read :
    Steps.Along (step true noHttp heartbeatCodec (clockServices 1700000000)) WakesWriter
      (init true idleConn) (readSteps ++ pushSteps) := by
  obtain ⟨conn, hproc, hwb⟩ := process_readConn
  apply wakes_writer_along true noHttp heartbeatCodec (clockServices 1700000000) idleConn
  · simp [idleConn, TcpConnection.init]
  refine Steps.meets_append.mpr ⟨?_, fun t _ => by simp [pushSteps, Steps.Meets, RearmsWhenIdle]⟩
  have hidle : ¬ Pending (beforeRearm [] (connEvent true ||| epollIn) conn) := by
    simp [Pending, beforeRearm, hwb]
  refine (Steps.meets_cons rfl).mpr ⟨trivial, (Steps.meets_cons rfl).mpr ⟨?_, ?_⟩⟩
  · simp [RearmsWhenIdle, init]
  refine (Steps.meets_cons (step_afterRead [] _ hproc)).mpr ⟨by simp [RearmsWhenIdle, afterRead], ?_⟩
  refine (Steps.meets_cons rfl).mpr ⟨fun _ _ _ => ⟨hidle, rfl⟩, ?_⟩
  exact (Steps.meets_cons rfl).mpr ⟨fun _ _ _ => ⟨hidle, rfl⟩, trivial⟩

/-- A push arms the descriptor for both directions; a byte of a request arrives and is handled
first, and the descriptor is re-armed for reading only with the push still queued. -/
theorem push_stuck_after_read :
    ∃ t, Steps.run (step true noHttp heartbeatCodec (clockServices 1700000000)) (init true idleConn)
        (pushSteps ++ readSteps) = some t ∧
      t.work = [] ∧ t.calls = [] ∧ t.outgoingQueue = [frame [7]] ∧ ¬ t.WakesWriter := by
  obtain ⟨conn, hproc, -⟩ := process_readConn
  have hpush : Steps.run (step true noHttp heartbeatCodec (clockServices 1700000000))
      (init true idleConn) pushSteps =
        some ⟨idleConn, [frame [7]], notifyEvents true, some (notifyEvents true), [], []⟩ := rfl
  refine ⟨⟨conn, [frame [7]], connEvent true ||| epollIn, some (connEvent true ||| epollIn), [], []⟩,
    ?_, rfl, rfl, rfl, ?_⟩
  · rw [Steps.run_append, hpush]
    exact run_readSteps [frame [7]] (notifyEvents true) (notifyEvents true) hproc (by decide)
  · intro h
    obtain ⟨mask, hmask, hout⟩ := h rfl rfl (.inl (by simp))
    obtain rfl : connEvent true ||| epollIn = mask := by simpa using hmask
    exact hout (by decide)

end Outbound
end TermChat
