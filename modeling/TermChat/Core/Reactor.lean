import TermChat.Base.Steps
import TermChat.Core.Wakeup
import TermChat.Service.Push

/-! The server around its connection objects. `connections_` owns an object under a descriptor
number, which the kernel may give out again once it is closed; the event loop, the workers of the
pool and the flush thread hold plain pointers. What the buffers contain is left out: how a read, a
`process` or a write ends is an input of its step. -/
namespace TermChat
open Proto

abbrev Fd := ℕ

def epollErr : UInt32 := 0x8

def epollHup : UInt32 := 0x10

structure ServerConfig where
  isEt : Bool
  timeoutMs : ℤ
  threadNum : ℕ

/-- The fields of a `TcpConnection` that decide how long it is used. -/
structure ConnObject where
  fd : Fd
  isClose : Bool := false
  userId : UInt64 := 0
  events : UInt32 := 0
  outgoingQueue : List Bytes := []

/-- What the threads share. `conns` are all objects ever made; `destroyed` are those of them that
`AddClient_` has overwritten, which no code reads. The kernel has `isOpen` and `epoll`: the mask of
a registered descriptor, 0 after a one-shot delivery until the next `modFd`. -/
structure Shared where
  conns : List ConnObject
  connections : Fd → Option ConnId
  destroyed : List ConnId
  userCount : ℤ
  timers : Fd → Bool
  push : PushService
  isOpen : Fd → Bool
  epoll : Fd → Option UInt32

/-- Where a thread stands in `CloseConn_`. From `test` on it is inside `close_conn`, whose last line
logs the fields of the object. -/
inductive Closing where
  | delFd
  | removeTimer
  | test
  | mark
  | removeClient
  | close
  | quit
  deriving DecidableEq, Repr

/-- How a read, a `process` or a write ends: `ok` unless it failed for good, `more` if there is
something to write. -/
structure Ending where
  ok : Bool := true
  more : Bool := false

inductive Job where
  | work (work : Work)
  | closing (stage : Closing)
  deriving DecidableEq, Repr

namespace Shared

def update (s : Shared) (c : ConnId) (f : ConnObject → ConnObject) : Shared :=
  { s with conns := s.conns.modify c f }

def addFd (s : Shared) (fd : Fd) (events : UInt32) : Bool × Shared :=
  if s.isOpen fd ∧ s.epoll fd = none then
    (true, { s with epoll := Function.update s.epoll fd (some events) })
  else (false, s)

def modFd (s : Shared) (fd : Fd) (events : UInt32) : Bool × Shared :=
  if s.epoll fd = none then (false, s)
  else (true, { s with epoll := Function.update s.epoll fd (some events) })

def delFd (s : Shared) (fd : Fd) : Shared := { s with epoll := Function.update s.epoll fd none }

/-- `close`, by which a descriptor also leaves the epoll set. -/
def closeFd (s : Shared) (fd : Fd) : Shared :=
  { s with isOpen := Function.update s.isOpen fd false, epoll := Function.update s.epoll fd none }

def setUserId (s : Shared) (c : ConnId) (user : UInt64) : Shared :=
  { s.update c (fun o => { o with userId := user }) with push := s.push.addClient user c }

variable (cfg : ServerConfig)

/-- The next step in `CloseConn_`, and where the thread stands after it. -/
def closeStep (s : Shared) (c : ConnId) (stage : Closing) : Shared × Option Closing :=
  match s.conns[c]? with
  | none => (s, none)
  | some o =>
    match stage with
    | .delFd => (s.delFd o.fd, some .removeTimer)
    | .removeTimer =>
      ({ s with timers := if 0 < cfg.timeoutMs then Function.update s.timers o.fd false else s.timers },
        some .test)
    | .test => (s, if o.isClose then none else some .mark)
    | .mark =>
      ({ s.update c (fun o => { o with isClose := true }) with userCount := s.userCount - 1 },
        some .removeClient)
    | .removeClient =>
      (if o.userId ≠ 0 then { s with push := s.push.removeClient o.userId } else s, some .close)
    | .close => (s.closeFd o.fd, some .quit)
    | .quit => (s, none)

/-- The destructor runs `close_conn` once more. -/
def destroy (s : Shared) (c : ConnId) : Shared :=
  let s := (Threads.finish (fun s => s.closeStep cfg c) 5 s .test).1
  { s with destroyed := s.destroyed ++ [c] }

/-- `connections_[fd] = std::move(conn)`, which destroys the object that it had there. -/
def setConnection (s : Shared) (fd : Fd) (c : ConnId) : Shared :=
  let t := { s with connections := Function.update s.connections fd (some c) }
  match s.connections fd with
  | none => t
  | some old => t.destroy cfg old

/-- `AddClient_` on the descriptor that `accept` has returned. -/
def addClient (s : Shared) (fd : Fd) : Shared :=
  let c := s.conns.length
  let conn : ConnObject := { fd := fd }
  let s :=
    { s with
      isOpen := Function.update s.isOpen fd true
      conns := s.conns ++ [conn]
      userCount := s.userCount + 1 }
  let s := s.setConnection cfg fd c
  let s := { s with timers := if 0 < cfg.timeoutMs then Function.update s.timers fd true else s.timers }
  let events := epollIn ||| connEvent cfg.isEt
  let (added, s) := s.addFd fd events
  if added then s.update c fun o => { o with events := events } else s

/-- The next step of a worker on the object `c`. -/
def workStep (s : Shared) (c : ConnId) (ending : Ending) (job : Job) : Shared × Option Job :=
  match s.conns[c]? with
  | none => (s, none)
  | some o =>
    match job with
    | .work .read => (s, some (if ending.ok then .work .process else .closing .delFd))
    | .work .process =>
      let events := connEvent cfg.isEt ||| if ending.more then epollOut else epollIn
      (s, some (.work (.modFd events)))
    | .work .write =>
      (s.update c fun o => { o with outgoingQueue := [] }, some (.work .toWriteBytes))
    | .work .toWriteBytes =>
      if ending.more = false then (s, some (.work (.modFd (connEvent cfg.isEt ||| epollIn))))
      else if ending.ok then (s, some (.work (.modFd (connEvent cfg.isEt ||| epollOut))))
      else (s, some (.closing .delFd))
    | .work (.modFd events) => ((s.modFd o.fd events).2, some (.work (.updateEvents events)))
    | .work (.updateEvents events) => (s.update c fun o => { o with events := events }, none)
    | .closing stage => ((s.closeStep cfg c stage).1, (s.closeStep cfg c stage).2.map .closing)

def callStep (s : Shared) (c : ConnId) (call : Call) : Shared × Option Call :=
  match s.conns[c]? with
  | none => (s, none)
  | some o =>
    match call with
    | .enqueueing (data :: messages) notify =>
      (if data = [] then s
        else s.update c fun o => { o with outgoingQueue := o.outgoingQueue ++ [Framing.frame data] },
        some (.enqueueing messages notify))
    | .enqueueing [] notify => (s, if notify then some .checkEvents else none)
    | .checkEvents => (s, if o.events = notifyEvents cfg.isEt then none else some .modFd)
    | .modFd =>
      let (modified, s) := s.modFd o.fd (notifyEvents cfg.isEt)
      (s, if modified then some .storeEvents else none)
    | .storeEvents => (s.update c fun o => { o with events := notifyEvents cfg.isEt }, none)

def ready (s : Shared) (x : Fd × UInt32) : Bool :=
  match s.epoll x.1 with
  | none => false
  | some mask => mask ≠ 0 && x.2 ≠ 0 && x.2 &&& (mask ||| epollErr ||| epollHup) = x.2

end Shared

/-- Where the flush thread stands in `FlushPending`. -/
inductive Flush where
  | idle
  | lookup (items : List PushItem) (batches : List (ConnId × List Bytes))
  | deliver (batches : List (ConnId × List Bytes))
  | call (c : ConnId) (call : Call) (batches : List (ConnId × List Bytes))

def Flush.conns : Flush → List ConnId
  | .idle => []
  | .lookup _ batches | .deliver batches => batches.map Prod.fst
  | .call c _ batches => c :: batches.map Prod.fst

/-- `fetched` are the events of `epoll_wait` that `Start` has not handled, and `closing` is set while
the event loop is in `CloseConn_`. `tasks` is the queue of the pool. -/
structure Server extends Shared where
  fetched : List (Fd × UInt32)
  closing : Option (ConnId × Closing)
  tasks : List (ConnId × Work)
  running : List (ConnId × Job)
  flush : Flush

namespace Server

def init (hash : UInt64 → ℕ) : Server :=
  { conns := [], connections := fun _ => none, destroyed := [], userCount := 0
    timers := fun _ => false, push := .init hash, isOpen := fun _ => false, epoll := fun _ => none
    fetched := [], closing := none, tasks := [], running := [], flush := .idle }

/-- `accept` returns the descriptor `fd`, `epoll_wait` the events `ready`. A login is a
`set_user_id` inside the `process` of worker `i`, and any thread may queue a push. `flush i` is the
next step of the flush thread, which takes batch `i` next. -/
inductive Action where
  | accept (fd : Fd)
  | wait (ready : List (Fd × UInt32))
  | dispatch
  | expire (fd : Fd)
  | closeLoop
  | take
  | work (i : ℕ) (ending : Ending)
  | login (i : ℕ) (user : UInt64)
  | push (user : UInt64) (data : Bytes)
  | flush (i : ℕ)

variable (cfg : ServerConfig)

def maxFd : ℤ := 65536

/-- A round of `DealListen_`; a client too many gets an error and is closed. -/
def onAccept (s : Server) (fd : Fd) : Option Server :=
  if s.closing = none ∧ 0 < fd ∧ s.isOpen fd = false then
    some (if maxFd ≤ s.userCount then s else { s with toShared := s.toShared.addClient cfg fd })
  else none

/-- `epoll_wait`, once all events have been handled. -/
def onWait (s : Server) (ready : List (Fd × UInt32)) : Option Server :=
  if s.closing = none ∧ s.fetched = [] ∧ (ready.map Prod.fst).Nodup ∧ ready.all s.ready then
    some
      { s with
        fetched := ready
        epoll := fun fd => if fd ∈ ready.map Prod.fst then some 0 else s.epoll fd }
  else none

/-- A round of the loop of `Start` for a connection. -/
def onDispatch (s : Server) : Option Server :=
  match s.closing, s.fetched with
  | none, (fd, events) :: rest =>
    (s.connections fd).map fun c =>
      let s := { s with fetched := rest }
      if events &&& (epollRdHup ||| epollHup ||| epollErr) ≠ 0 then
        { s with closing := some (c, .delFd) }
      else if events &&& epollIn ≠ 0 then { s with tasks := s.tasks ++ [(c, .read)] }
      else if events &&& epollOut ≠ 0 then { s with tasks := s.tasks ++ [(c, .write)] }
      else s
  | _, _ => none

/-- A timer that `Tick` finds expired, before `epoll_wait`. `CloseConn_` removes it. -/
def onExpire (s : Server) (fd : Fd) : Option Server :=
  if s.closing = none ∧ s.fetched = [] ∧ s.timers fd then
    match s.connections fd with
    | none => some { s with timers := Function.update s.timers fd false }
    | some c => some { s with closing := some (c, .delFd) }
  else none

def onCloseLoop (s : Server) : Option Server :=
  s.closing.map fun (c, stage) =>
    let out := s.toShared.closeStep cfg c stage
    { s with toShared := out.1, closing := out.2.map fun stage => (c, stage) }

def onTake (s : Server) : Option Server :=
  match s.tasks with
  | [] => none
  | (c, work) :: rest =>
    if s.running.length < cfg.threadNum then
      some { s with tasks := rest, running := s.running ++ [(c, .work work)] }
    else none

def onWork (s : Server) (i : ℕ) (ending : Ending) : Option Server :=
  (s.running[i]?).map fun (c, job) =>
    let out := s.toShared.workStep cfg c ending job
    { s with
      toShared := out.1
      running := Threads.advance s.running i (out.2.map fun job => (c, job)) }

def onLogin (s : Server) (i : ℕ) (user : UInt64) : Option Server :=
  match s.running[i]? with
  | some (c, .work .process) => some { s with toShared := s.toShared.setUserId c user }
  | _ => none

def onFlush (s : Server) (i : ℕ) : Option Server :=
  match s.flush with
  | .idle =>
    let items := s.push.pushQueue.take PushService.kMaxBatchSize
    if items = [] then none
    else
      some
        { s with
          push.pushQueue := s.push.pushQueue.drop PushService.kMaxBatchSize
          flush := .lookup items [] }
  | .lookup [] batches => some { s with flush := .deliver batches }
  | .lookup (item :: items) batches =>
    match s.push.findConnection item.userId with
    | none => some { s with flush := .lookup items batches }
    | some c => some { s with flush := .lookup items (PushService.pushBack batches c item.data) }
  | .deliver [] => some { s with flush := .idle }
  | .deliver batches =>
    (batches[i]?).bind fun (c, messages) =>
      let rest := batches.eraseIdx i
      (s.conns[c]?).map fun o =>
        { s with
          flush := if messages = [] then .deliver rest
            else .call c (.enqueueing messages o.outgoingQueue.isEmpty) rest }
  | .call c call batches =>
    let out := s.toShared.callStep cfg c call
    some
      { s with
        toShared := out.1
        flush := match out.2 with
          | none => .deliver batches
          | some call => .call c call batches }

def step (s : Server) : Action → Option Server
  | .accept fd => s.onAccept cfg fd
  | .wait ready => s.onWait ready
  | .dispatch => s.onDispatch
  | .expire fd => s.onExpire fd
  | .closeLoop => s.onCloseLoop cfg
  | .take => s.onTake cfg
  | .work i ending => s.onWork cfg i ending
  | .login i user => s.onLogin i user
  | .push user data => some { s with push := (s.push.enqueueSerialized user data).2 }
  | .flush i => s.onFlush cfg i

end Server
end TermChat
