import TermChat.Base.Steps

/-! The life of a connection of the client: `Connect`, `Disconnect`, `Login` and `Logout` on the
thread of the user interface, and the three threads that `Connect` starts. -/
namespace TermChat
namespace Reconnect

/-- A `std::thread` member, by what has become of the thread that was started in it. -/
inductive Handle where
  | empty
  | running
  | returned
  deriving DecidableEq, Repr

def Handle.joinable : Handle → Bool
  | .empty => false
  | .running | .returned => true

/-- `if (t.joinable()) t.join();`, which blocks while the thread runs. -/
def Handle.join : Handle → Option Handle
  | .empty | .returned => some .empty
  | .running => none

/-- `t = std::thread(...)`. Over a joinable thread it calls `std::terminate`. -/
def Handle.assign (t : Handle) : Option Handle := if t.joinable then none else some .running

/-- Where `ListenerLoop` stands: it reads, or it is in an error exit, before one of its two
writes. -/
inductive Listener where
  | reading
  | clearRunning
  | clearConnected
  deriving DecidableEq, Repr

/-- Where the user interface stands. The places from `socket` to `startDeliveredAck` are in
`Connect`, those from `clearRunning` to `clearConnected` in `Disconnect`. -/
inductive Caller where
  | idle
  | socket
  | dial
  | setConnected
  | setRunning
  | startListener
  | startHeartbeat
  | startDeliveredAck
  | awaitLogin
  | clearRunning
  | joinDeliveredAck
  | close
  | joinListener
  | joinHeartbeat
  | clearConnected
  | terminated
  deriving DecidableEq, Repr

end Reconnect

open Reconnect

/-- `lost` records that `ListenerLoop` has detected the loss of a connection since `Disconnect`
last came to its end. -/
structure Reconnect where
  sock : Option ℕ
  connected : Bool
  running : Bool
  token : String
  listenerThread : Handle
  heartbeatThread : Handle
  deliveredAckThread : Handle
  listener : Listener
  caller : Caller
  lost : Bool
  deriving DecidableEq, Repr

namespace Reconnect

def init : Reconnect :=
  ⟨none, false, false, "", .empty, .empty, .empty, .reading, .idle, false⟩

/-- `connect`, `login`, `logout` and `disconnect` are calls; `socket`, `dial` and `answer` bring
what a call waits for, and `call` is its next step otherwise. -/
inductive Action where
  | connect
  | socket (fd : Option ℕ)
  | dial (ok : Bool)
  | login
  | answer (token : Option String)
  | logout
  | disconnect
  | call
  | loss
  | listen
  | heartbeat
  | deliveredAck
  deriving DecidableEq, Repr

def call (s : Reconnect) : Option Reconnect :=
  match s.caller with
  | .setConnected => some { s with connected := true, caller := .setRunning }
  | .setRunning => some { s with running := true, caller := .startListener }
  | .startListener =>
    match s.listenerThread.assign with
    | none => some { s with caller := .terminated }
    | some t => some { s with listenerThread := t, listener := .reading, caller := .startHeartbeat }
  | .startHeartbeat =>
    match s.heartbeatThread.assign with
    | none => some { s with caller := .terminated }
    | some t => some { s with heartbeatThread := t, caller := .startDeliveredAck }
  | .startDeliveredAck =>
    match s.deliveredAckThread.assign with
    | none => some { s with caller := .terminated }
    | some t => some { s with deliveredAckThread := t, caller := .idle }
  | .clearRunning => some { s with running := false, caller := .joinDeliveredAck }
  | .joinDeliveredAck =>
    s.deliveredAckThread.join.map fun t => { s with deliveredAckThread := t, caller := .close }
  | .close => some { s with sock := none, caller := .joinListener }
  | .joinListener =>
    s.listenerThread.join.map fun t => { s with listenerThread := t, caller := .joinHeartbeat }
  | .joinHeartbeat =>
    s.heartbeatThread.join.map fun t => { s with heartbeatThread := t, caller := .clearConnected }
  | .clearConnected => some { s with connected := false, lost := false, caller := .idle }
  | .idle | .socket | .dial | .awaitLogin | .terminated => none

/-- `recv` fails, or the length of a frame is above the limit. The loop gives up at once when it
is to stop anyway. -/
def lose (s : Reconnect) : Option Reconnect :=
  match s.listenerThread, s.listener with
  | .running, .reading =>
    if s.running then some { s with listener := .clearRunning, lost := true }
    else some { s with listenerThread := .returned }
  | _, _ => none

/-- The other steps of `ListenerLoop`: the tests of its loops and the writes of an error exit. -/
def listen (s : Reconnect) : Option Reconnect :=
  match s.listenerThread, s.listener with
  | .running, .reading =>
    some (if s.running then s else { s with listenerThread := .returned })
  | .running, .clearRunning => some { s with running := false, listener := .clearConnected }
  | .running, .clearConnected =>
    some { s with connected := false, listenerThread := .returned }
  | _, _ => none

def Handle.test (t : Handle) (running : Bool) : Option Handle :=
  match t with
  | .running => some (if running then .running else .returned)
  | .empty | .returned => none

def step (s : Reconnect) (a : Action) : Option Reconnect :=
  if s.caller = .terminated then none
  else
    match a, s.caller with
    | .connect, .idle => some (if s.connected then s else { s with caller := .socket })
    | .socket fd, .socket =>
      some { s with sock := fd, caller := if fd.isSome then .dial else .idle }
    | .dial ok, .dial => some { s with caller := if ok then .setConnected else .idle }
    | .login, .idle => some (if s.connected then { s with caller := .awaitLogin } else s)
    | .answer token, .awaitLogin => some { s with token := token.getD s.token, caller := .idle }
    | .logout, .idle =>
      some (if s.token = "" then s else { s with token := "", caller := .clearRunning })
    | .disconnect, .idle => some { s with caller := .clearRunning }
    | .call, _ => s.call
    | .loss, _ => s.lose
    | .listen, _ => s.listen
    | .heartbeat, _ =>
      (s.heartbeatThread.test s.running).map fun t => { s with heartbeatThread := t }
    | .deliveredAck, _ =>
      (s.deliveredAckThread.test s.running).map fun t => { s with deliveredAckThread := t }
    | _, _ => none

def Caller.Starts : Caller → Bool
  | .setConnected | .setRunning | .startListener => true
  | _ => false

/-- When `Connect` comes to start its threads, it can. -/
def CanStart (s : Reconnect) : Prop :=
  s.caller.Starts = true → s.listenerThread.joinable = false ∧
    s.heartbeatThread.joinable = false ∧ s.deliveredAckThread.joinable = false

/-- `Connect` gets no connection after a loss that no `Disconnect` has followed. -/
def CleanedUp (s : Reconnect) (a : Action) : Prop :=
  a = .dial true → s.caller = .dial → s.lost = false

instance (s : Reconnect) (a : Action) : Decidable (s.CleanedUp a) :=
  inferInstanceAs (Decidable (_ → _ → _))

/-- The steps by name. `stay` stands for calls and loops that find nothing to do. -/
inductive Moves (s : Reconnect) : Action → Reconnect → Prop where
  | stay (a : Action) (h : ∀ ok, a ≠ .dial ok) : Moves s a s
  | connect (h : s.caller = .idle) (hc : s.connected = false) :
      Moves s .connect { s with caller := .socket }
  | socket (h : s.caller = .socket) (fd : Option ℕ) :
      Moves s (.socket fd) { s with sock := fd, caller := if fd.isSome then .dial else .idle }
  | dial (h : s.caller = .dial) (ok : Bool) :
      Moves s (.dial ok) { s with caller := if ok then .setConnected else .idle }
  | login (h : s.caller = .idle) : Moves s .login { s with caller := .awaitLogin }
  | answer (h : s.caller = .awaitLogin) (token : Option String) :
      Moves s (.answer token) { s with token := token.getD s.token, caller := .idle }
  | logout (h : s.caller = .idle) :
      Moves s .logout { s with token := "", caller := .clearRunning }
  | disconnect (h : s.caller = .idle) : Moves s .disconnect { s with caller := .clearRunning }
  | setConnected (h : s.caller = .setConnected) :
      Moves s .call { s with connected := true, caller := .setRunning }
  | setRunning (h : s.caller = .setRunning) :
      Moves s .call { s with running := true, caller := .startListener }
  | startListener (h : s.caller = .startListener) (hj : s.listenerThread.joinable = false) :
      Moves s .call
        { s with listenerThread := .running, listener := .reading, caller := .startHeartbeat }
  | startHeartbeat (h : s.caller = .startHeartbeat) :
      Moves s .call { s with heartbeatThread := .running, caller := .startDeliveredAck }
  | startDeliveredAck (h : s.caller = .startDeliveredAck) :
      Moves s .call { s with deliveredAckThread := .running, caller := .idle }
  | terminate : Moves s .call { s with caller := .terminated }
  | clearRunning (h : s.caller = .clearRunning) :
      Moves s .call { s with running := false, caller := .joinDeliveredAck }
  | joinDeliveredAck (h : s.caller = .joinDeliveredAck) :
      Moves s .call { s with deliveredAckThread := .empty, caller := .close }
  | close (h : s.caller = .close) : Moves s .call { s with sock := none, caller := .joinListener }
  | joinListener (h : s.caller = .joinListener) :
      Moves s .call { s with listenerThread := .empty, caller := .joinHeartbeat }
  | joinHeartbeat (h : s.caller = .joinHeartbeat) :
      Moves s .call { s with heartbeatThread := .empty, caller := .clearConnected }
  | clearConnected (h : s.caller = .clearConnected) :
      Moves s .call { s with connected := false, lost := false, caller := .idle }
  | lose (h : s.listenerThread = .running) :
      Moves s .loss { s with listener := .clearRunning, lost := true }
  | stop (a : Action) (ha : ∀ ok, a ≠ .dial ok) (h : s.listenerThread = .running) :
      Moves s a { s with listenerThread := .returned }
  | exitRunning (h : s.listenerThread = .running) (hl : s.listener = .clearRunning) :
      Moves s .listen { s with running := false, listener := .clearConnected }
  | exitConnected (h : s.listenerThread = .running) (hl : s.listener = .clearConnected) :
      Moves s .listen { s with connected := false, listenerThread := .returned }
  | heartbeat (h : s.heartbeatThread = .running) :
      Moves s .heartbeat { s with heartbeatThread := .returned }
  | deliveredAck (h : s.deliveredAckThread = .running) :
      Moves s .deliveredAck { s with deliveredAckThread := .returned }

variable {s t : Reconnect} {a : Action}

theorem Handle.eq_of_assign {t u : Handle} (h : t.assign = some u) :
    t.joinable = false ∧ u = .running := by
  unfold assign at h
  split_ifs at h with hj
  exact ⟨eq_false_of_ne_true hj, (Option.some.inj h).symm⟩

theorem Handle.eq_of_join {t u : Handle} (h : t.join = some u) : u = .empty := by
  cases t <;> cases h <;> rfl

theorem Handle.eq_of_test {t u : Handle} {running : Bool} (h : t.test running = some u) :
    t = .running ∧ (u = .running ∨ u = .returned) := by
  cases t with
  | running =>
    cases running with
    | true => exact ⟨rfl, .inl (Option.some.inj h).symm⟩
    | false => exact ⟨rfl, .inr (Option.some.inj h).symm⟩
  | empty => cases h
  | returned => cases h

/-- A thread is started in an empty member, or the process terminates. -/
theorem moves_of_assign {handle : Handle} {next : Handle → Reconnect}
    (h : (match handle.assign with
      | none => some { s with caller := .terminated }
      | some u => some (next u)) = some t)
    (hstart : handle.joinable = false → s.Moves .call (next .running)) : s.Moves .call t := by
  cases hu : handle.assign with
  | none =>
    rw [hu] at h
    exact Option.some.inj h ▸ .terminate
  | some u =>
    obtain ⟨hj, rfl⟩ := Handle.eq_of_assign hu
    rw [hu] at h
    exact Option.some.inj h ▸ hstart hj

private theorem moves_of_join {handle : Handle} {next : Handle → Reconnect}
    (h : handle.join.map next = some t) (hjoin : s.Moves .call (next .empty)) : s.Moves .call t := by
  obtain ⟨u, hu, rfl⟩ := Option.map_eq_some_iff.mp h
  rw [Handle.eq_of_join hu]
  exact hjoin

private theorem moves_of_call (h : s.call = some t) : s.Moves .call t := by
  unfold call at h
  cases hc : s.caller with
  | setConnected =>
    rw [hc] at h
    exact Option.some.inj h ▸ .setConnected hc
  | setRunning =>
    rw [hc] at h
    exact Option.some.inj h ▸ .setRunning hc
  | startListener =>
    rw [hc] at h
    exact moves_of_assign h fun hj => .startListener hc hj
  | startHeartbeat =>
    rw [hc] at h
    exact moves_of_assign h fun _ => .startHeartbeat hc
  | startDeliveredAck =>
    rw [hc] at h
    exact moves_of_assign h fun _ => .startDeliveredAck hc
  | clearRunning =>
    rw [hc] at h
    exact Option.some.inj h ▸ .clearRunning hc
  | joinDeliveredAck =>
    rw [hc] at h
    exact moves_of_join h (.joinDeliveredAck hc)
  | close =>
    rw [hc] at h
    exact Option.some.inj h ▸ .close hc
  | joinListener =>
    rw [hc] at h
    exact moves_of_join h (.joinListener hc)
  | joinHeartbeat =>
    rw [hc] at h
    exact moves_of_join h (.joinHeartbeat hc)
  | clearConnected =>
    rw [hc] at h
    exact Option.some.inj h ▸ .clearConnected hc
  | idle | socket | dial | awaitLogin | terminated =>
    rw [hc] at h
    cases h

private theorem moves_of_lose (h : s.lose = some t) : s.Moves .loss t := by
  unfold lose at h
  split at h
  · rename_i ht hl
    split_ifs at h
    · exact Option.some.inj h ▸ .lose ht
    · exact Option.some.inj h ▸ .stop .loss (by simp) ht
  · cases h

private theorem moves_of_listen (h : s.listen = some t) : s.Moves .listen t := by
  unfold listen at h
  split at h
  · rename_i ht hl
    cases Option.some.inj h
    split_ifs
    · exact .stay .listen (by simp)
    · exact .stop .listen (by simp) ht
  · rename_i ht hl
    exact Option.some.inj h ▸ .exitRunning ht hl
  · rename_i ht hl
    exact Option.some.inj h ▸ .exitConnected ht hl
  · cases h

private theorem moves_of_test {handle : Handle} {next : Handle → Reconnect}
    (h : (handle.test s.running).map next = some t)
    (hloop : handle = .running → s.Moves a (next .running))
    (hreturn : handle = .running → s.Moves a (next .returned)) : s.Moves a t := by
  obtain ⟨u, hu, rfl⟩ := Option.map_eq_some_iff.mp h
  obtain ⟨ht, hu⟩ := Handle.eq_of_test hu
  rcases hu with rfl | rfl
  · exact hloop ht
  · exact hreturn ht

theorem moves_of_step (h : s.step a = some t) : s.Moves a t := by
  unfold step at h
  by_cases hterminated : s.caller = .terminated
  · rw [if_pos hterminated] at h
    cases h
  rw [if_neg hterminated] at h
  split at h
  · rename_i hc
    cases Option.some.inj h
    split_ifs with hconn
    · exact .stay .connect (by simp)
    · exact .connect hc (eq_false_of_ne_true hconn)
  · rename_i fd hc
    exact Option.some.inj h ▸ .socket hc fd
  · rename_i ok hc
    exact Option.some.inj h ▸ .dial hc ok
  · rename_i hc
    cases Option.some.inj h
    split_ifs
    · exact .login hc
    · exact .stay .login (by simp)
  · rename_i token hc
    exact Option.some.inj h ▸ .answer hc token
  · rename_i hc
    cases Option.some.inj h
    split_ifs
    · exact .stay .logout (by simp)
    · exact .logout hc
  · rename_i hc
    exact Option.some.inj h ▸ .disconnect hc
  · exact moves_of_call h
  · exact moves_of_lose h
  · exact moves_of_listen h
  · exact moves_of_test h (fun ht => ht ▸ .stay .heartbeat (by simp)) .heartbeat
  · exact moves_of_test h (fun ht => ht ▸ .stay .deliveredAck (by simp)) .deliveredAck
  · cases h

/-- All three threads are joinable, or none is and no loss is left over. -/
def Whole (s : Reconnect) : Prop :=
  (s.listenerThread.joinable = true ∧ s.heartbeatThread.joinable = true ∧
      s.deliveredAckThread.joinable = true) ∨
    (s.listenerThread.joinable = false ∧ s.heartbeatThread.joinable = false ∧
      s.deliveredAckThread.joinable = false ∧ s.lost = false)

/-- Which threads are joinable, by where the user interface stands. -/
def Shape (s : Reconnect) : Prop :=
  match s.caller with
  | .socket | .dial => s.Whole ∧ s.connected = false
  | .setRunning | .startListener =>
    s.Whole ∧ (s.listenerThread.joinable = false → s.connected = true)
  | .startHeartbeat =>
    s.listenerThread.joinable = true ∧ s.heartbeatThread.joinable = false ∧
      s.deliveredAckThread.joinable = false
  | .startDeliveredAck =>
    s.listenerThread.joinable = true ∧ s.heartbeatThread.joinable = true ∧
      s.deliveredAckThread.joinable = false
  | .close | .joinListener => s.deliveredAckThread.joinable = false
  | .joinHeartbeat =>
    s.listenerThread.joinable = false ∧ s.deliveredAckThread.joinable = false
  | .clearConnected =>
    s.listenerThread.joinable = false ∧ s.heartbeatThread.joinable = false ∧
      s.deliveredAckThread.joinable = false
  | .terminated => True
  | _ => s.Whole

/-- `t` differs from `s` by a step of one of the three threads: the same threads are joinable,
`connected_` is not set, and only `ListenerLoop` clears it or notes a loss. -/
structure ByThread (s t : Reconnect) : Prop where
  caller : t.caller = s.caller
  listener : t.listenerThread.joinable = s.listenerThread.joinable
  heartbeat : t.heartbeatThread.joinable = s.heartbeatThread.joinable
  deliveredAck : t.deliveredAckThread.joinable = s.deliveredAckThread.joinable
  connected : s.connected = false → t.connected = false
  unlistened : s.listenerThread.joinable = false → t.connected = s.connected ∧ t.lost = s.lost

theorem Whole.byThread (hw : s.Whole) (h : ByThread s t) : t.Whole := by
  rcases hw with ⟨hl, hh, hd⟩ | ⟨hl, hh, hd, hlost⟩
  · left
    exact ⟨h.listener.trans hl, h.heartbeat.trans hh, h.deliveredAck.trans hd⟩
  · right
    exact ⟨h.listener.trans hl, h.heartbeat.trans hh, h.deliveredAck.trans hd,
      (h.unlistened hl).2.trans hlost⟩

theorem Shape.byThread (hs : s.Shape) (h : ByThread s t) : t.Shape := by
  unfold Shape at hs ⊢
  rw [h.caller, h.listener, h.heartbeat, h.deliveredAck]
  cases hc : s.caller with
  | socket | dial =>
    rw [hc] at hs
    exact ⟨hs.1.byThread h, h.connected hs.2⟩
  | setRunning | startListener =>
    rw [hc] at hs
    exact ⟨hs.1.byThread h, fun hj => (h.unlistened hj).1.trans (hs.2 hj)⟩
  | startHeartbeat | startDeliveredAck | close | joinListener | joinHeartbeat | clearConnected
  | terminated =>
    rw [hc] at hs
    exact hs
  | idle | setConnected | awaitLogin | clearRunning | joinDeliveredAck =>
    rw [hc] at hs
    exact Whole.byThread hs h

theorem Handle.joinable_of_running {t : Handle} (h : t = .running) : t.joinable = true := by
  rw [h]
  rfl

namespace ByThread

theorem lose (h : s.listenerThread = .running) :
    ByThread s { s with listener := .clearRunning, lost := true } := by
  refine ⟨rfl, rfl, rfl, rfl, id, fun hj => ?_⟩
  rw [Handle.joinable_of_running h] at hj
  cases hj

theorem stop (h : s.listenerThread = .running) :
    ByThread s { s with listenerThread := .returned } :=
  ⟨rfl, (Handle.joinable_of_running h).symm, rfl, rfl, id, fun _ => ⟨rfl, rfl⟩⟩

theorem exitRunning (s : Reconnect) :
    ByThread s { s with running := false, listener := .clearConnected } :=
  ⟨rfl, rfl, rfl, rfl, id, fun _ => ⟨rfl, rfl⟩⟩

theorem exitConnected (h : s.listenerThread = .running) :
    ByThread s { s with connected := false, listenerThread := .returned } := by
  have hjoin := Handle.joinable_of_running h
  refine ⟨rfl, hjoin.symm, rfl, rfl, fun _ => rfl, fun hj => ?_⟩
  rw [hjoin] at hj
  cases hj

theorem stopHeartbeat (h : s.heartbeatThread = .running) :
    ByThread s { s with heartbeatThread := .returned } :=
  ⟨rfl, rfl, (Handle.joinable_of_running h).symm, rfl, id, fun _ => ⟨rfl, rfl⟩⟩

theorem stopDeliveredAck (h : s.deliveredAckThread = .running) :
    ByThread s { s with deliveredAckThread := .returned } :=
  ⟨rfl, rfl, rfl, (Handle.joinable_of_running h).symm, id, fun _ => ⟨rfl, rfl⟩⟩

end ByThread

/-- A connection that is down while its threads are still to be joined was lost. -/
structure Inv (s : Reconnect) : Prop where
  shape : s.Shape
  offline : s.connected = false → s.listenerThread.joinable = true → s.lost = true
  exiting : s.listenerThread = .running → s.listener ≠ .reading → s.lost = true

theorem inv_init : Inv init where
  shape := .inr ⟨rfl, rfl, rfl, rfl⟩
  offline _ h := by cases h
  exiting h := by cases h

theorem inv_step (hi : Inv s) (h : s.step a = some t) : Inv t := by
  obtain ⟨hshape, hoffline, hexiting⟩ := hi
  cases moves_of_step h with
  | stay => exact ⟨hshape, hoffline, hexiting⟩
  | connect hc hconn =>
    rw [Shape, hc] at hshape
    exact ⟨⟨hshape, hconn⟩, hoffline, hexiting⟩
  | socket hc fd =>
    rw [Shape, hc] at hshape
    cases fd with
    | none => exact ⟨hshape.1, hoffline, hexiting⟩
    | some fd => exact ⟨hshape, hoffline, hexiting⟩
  | dial hc ok =>
    rw [Shape, hc] at hshape
    cases ok with
    | false => exact ⟨hshape.1, hoffline, hexiting⟩
    | true => exact ⟨hshape.1, hoffline, hexiting⟩
  | login hc | answer hc | logout hc | disconnect hc | setRunning hc | clearRunning hc | close hc =>
    rw [Shape, hc] at hshape
    exact ⟨hshape, hoffline, hexiting⟩
  | setConnected hc =>
    rw [Shape, hc] at hshape
    exact ⟨⟨hshape, fun _ => rfl⟩, fun hconn => absurd hconn (by simp), hexiting⟩
  | startListener hc hj =>
    rw [Shape, hc] at hshape
    obtain ⟨hwhole, hconn⟩ := hshape
    rcases hwhole with ⟨hl, -⟩ | ⟨-, hh, hd, -⟩
    · rw [hj] at hl
      cases hl
    · refine ⟨⟨rfl, hh, hd⟩, fun hoff _ => ?_, fun _ hread => absurd rfl hread⟩
      rw [hconn hj] at hoff
      cases hoff
  | startHeartbeat hc =>
    rw [Shape, hc] at hshape
    exact ⟨⟨hshape.1, rfl, hshape.2.2⟩, hoffline, hexiting⟩
  | startDeliveredAck hc =>
    rw [Shape, hc] at hshape
    exact ⟨.inl ⟨hshape.1, hshape.2.1, rfl⟩, hoffline, hexiting⟩
  | terminate => exact ⟨trivial, hoffline, hexiting⟩
  | joinDeliveredAck hc => exact ⟨rfl, hoffline, hexiting⟩
  | joinListener hc =>
    rw [Shape, hc] at hshape
    exact ⟨⟨rfl, hshape⟩, fun _ hj => absurd hj (by simp [Handle.joinable]),
      fun hrun => absurd hrun (by simp)⟩
  | joinHeartbeat hc =>
    rw [Shape, hc] at hshape
    exact ⟨⟨hshape.1, rfl, hshape.2⟩, hoffline, hexiting⟩
  | clearConnected hc =>
    rw [Shape, hc] at hshape
    obtain ⟨hl, hh, hd⟩ := hshape
    refine ⟨.inr ⟨hl, hh, hd, rfl⟩, fun _ hj => ?_, fun hrun => ?_⟩
    · rw [hl] at hj
      cases hj
    · rw [hrun] at hl
      cases hl
  | lose ht => exact ⟨hshape.byThread (.lose ht), fun _ _ => rfl, fun _ _ => rfl⟩
  | stop _ _ ht =>
    have hoffline' := fun hoff => hoffline hoff (Handle.joinable_of_running ht)
    exact ⟨hshape.byThread (.stop ht), fun hoff _ => hoffline' hoff,
      fun hrun => absurd hrun (by simp)⟩
  | exitRunning ht hl =>
    have hlost : s.lost = true := hexiting ht (by simp [hl])
    exact ⟨hshape.byThread (.exitRunning s), hoffline, fun _ _ => hlost⟩
  | exitConnected ht hl =>
    have hlost : s.lost = true := hexiting ht (by simp [hl])
    exact ⟨hshape.byThread (.exitConnected ht), fun _ _ => hlost, fun _ _ => hlost⟩
  | heartbeat ht => exact ⟨hshape.byThread (.stopHeartbeat ht), hoffline, hexiting⟩
  | deliveredAck ht => exact ⟨hshape.byThread (.stopDeliveredAck ht), hoffline, hexiting⟩

theorem CanStart.byThread (hp : s.CanStart) (h : ByThread s t) : t.CanStart := by
  unfold CanStart
  rw [h.caller, h.listener, h.heartbeat, h.deliveredAck]
  exact hp

theorem unjoinable_iff_of_dial (hi : Inv s) (hc : s.caller = .dial) :
    s.listenerThread.joinable = false ∧ s.heartbeatThread.joinable = false ∧
      s.deliveredAckThread.joinable = false ↔ s.lost = false := by
  have hshape := hi.shape
  rw [Shape, hc] at hshape
  obtain ⟨hwhole, hconn⟩ := hshape
  rcases hwhole with ⟨hl, -⟩ | ⟨hl, hh, hd, hlost⟩
  · have hlost := hi.offline hconn hl
    simp [hl, hlost]
  · simp [hl, hh, hd, hlost]

/-- A step leaves `Connect` able to start its threads exactly if no loss is left over when it gets
its connection. -/
theorem canStart_iff_of_step (hi : Inv s) (hp : s.CanStart) (h : s.step a = some t) :
    t.CanStart ↔ s.CleanedUp a := by
  by_cases ha : a = .dial true
  · subst ha
    generalize hact : Action.dial true = b at h
    cases moves_of_step h with
    | dial hc ok =>
      cases hact
      have hiff := unjoinable_iff_of_dial hi hc
      simpa [CanStart, CleanedUp, Caller.Starts, hc] using hiff
    | stay _ hne => exact absurd hact.symm (hne true)
    | stop _ hne => exact absurd hact.symm (hne true)
    | _ => cases hact
  · have hclean : s.CleanedUp a := fun heq => absurd heq ha
    refine iff_of_true ?_ hclean
    cases moves_of_step h with
    | stay => exact hp
    | dial hc ok =>
      cases ok with
      | true => exact absurd rfl ha
      | false => exact fun hstarts => absurd hstarts (by simp [Caller.Starts])
    | socket hc fd => cases fd <;> exact fun hstarts => absurd hstarts (by simp [Caller.Starts])
    | setConnected hc => exact fun _ => hp (by rw [hc]; rfl)
    | setRunning hc => exact fun _ => hp (by rw [hc]; rfl)
    | lose ht => exact hp.byThread (.lose ht)
    | stop _ _ ht => exact hp.byThread (.stop ht)
    | exitRunning => exact hp.byThread (.exitRunning s)
    | exitConnected ht => exact hp.byThread (.exitConnected ht)
    | heartbeat ht => exact hp.byThread (.stopHeartbeat ht)
    | deliveredAck ht => exact hp.byThread (.stopDeliveredAck ht)
    | _ => exact fun hstarts => absurd hstarts (by simp [Caller.Starts])

theorem cleanedUp_of_step_eq_none (h : s.step a = none) : s.CleanedUp a := by
  rintro rfl hc
  simp [step, hc] at h

/-- The client can reconnect throughout a run exactly if no loss that `ListenerLoop` has detected is
followed by a connection of `Connect` before a `Disconnect`. -/
theorem reconnects_iff (as : List Action) :
    Steps.Along step CanStart init as ↔ Steps.Meets step CleanedUp init as := by
  have hstart : init.CanStart := fun hstarts => absurd hstarts (by simp [init, Caller.Starts])
  exact Steps.along_iff_meets (fun _ _ _ => inv_step) (fun _ _ _ => canStart_iff_of_step)
    (fun _ _ => cleanedUp_of_step_eq_none) as inv_init hstart

def connects (fd : ℕ) : List Action :=
  [.connect, .socket (some fd), .dial true, .call, .call, .call, .call, .call]

-- A loss while the user is logged in: `Logout` joins the threads before the next `Connect`.
example : Steps.Meets step CleanedUp init (connects 3 ++ [.login, .answer (some "token"), .loss,
    .listen, .listen, .heartbeat, .deliveredAck, .logout, .call, .call, .call, .call, .call, .call] ++
    connects 4) := by
  decide

/-- The server goes away before the login, and the user submits the login page again. -/
def lostBeforeLogin : List Action :=
  connects 3 ++ [.loss, .listen, .listen, .connect, .socket (some 4), .dial true, .call, .call]

theorem lost_before_login_terminates :
    ∃ s, Steps.run step init lostBeforeLogin = some s ∧ s.caller = .startListener ∧
      s.listenerThread.joinable = true ∧ s.heartbeatThread.joinable = true ∧
      s.deliveredAckThread.joinable = true ∧
      s.step .call = some { s with caller := .terminated } :=
  ⟨_, rfl, rfl, rfl, rfl, rfl, rfl⟩

end Reconnect
end TermChat
