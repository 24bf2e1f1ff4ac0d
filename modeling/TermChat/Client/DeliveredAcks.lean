import TermChat.Base.Steps
import TermChat.Base.Threads
import TermChat.Proto.Messages
import Mathlib.Data.List.Pairwise
import Mathlib.Data.List.Range

/-! The receipts of the client, from `ListenerLoop` over `DeliveredAckLoop` to the socket, on a
connection whose sends succeed, up to a `Logout` or a `Disconnect`. Pushes are numbered as they
are received. -/
namespace TermChat
open Proto

namespace DeliveredAcks

/-- Where `ListenerLoop` stands, at a frame with a push. -/
inductive Listener where
  | loop
  | recv
  | received (i : ℕ) (msg : P2PMessage)
  | handling (i : ℕ) (msg : P2PMessage)
  | stopped

/-- A receipt and the push that it is for. -/
structure Receipt where
  push : ℕ
  ack : MessageAck

/-- Where `DeliveredAckLoop` stands. -/
inductive AckThread where
  | test
  | wait
  | send (batch : List Receipt)
  | finalSwap
  | finalSend (batch : List Receipt)
  | finished

/-- Where the call of `Logout` or `Disconnect` stands. The socket is open up to `closed`. -/
inductive Caller where
  | idle
  | clearAuth
  | stop
  | join
  | close
  | closed
  | finished

end DeliveredAcks

open DeliveredAcks

/-- `pushes` lists the messages received, `batches` the envelopes sent, and `before` counts the
pushes that were received before the call. -/
structure DeliveredAcks where
  running : Bool
  connected : Bool
  pendingDeliveredAcks : List Receipt
  listener : Listener
  ackThread : AckThread
  caller : Caller
  pushes : List P2PMessage
  batches : List (List Receipt)
  before : ℕ

namespace DeliveredAcks

def init : DeliveredAcks :=
  { running := true, connected := true, pendingDeliveredAcks := [], listener := .loop
    ackThread := .test, caller := .idle, pushes := [], batches := [], before := 0 }

inductive Action where
  | receive (msg : P2PMessage)
  | listen
  | acks
  | logout
  | disconnect
  | call

def deliveredAck (msg : P2PMessage) : MessageAck :=
  { msgId := msg.msgId, success := true, status := .delivered
    senderId := msg.senderId, receiverId := msg.receiverId }

/-- The body of a frame with a push has been read. -/
def receive (s : DeliveredAcks) (msg : P2PMessage) : Option DeliveredAcks :=
  match s.listener, s.caller with
  | _, .closed | _, .finished => none
  | .recv, _ =>
    some { s with listener := .received s.pushes.length msg, pushes := s.pushes ++ [msg] }
  | _, _ => none

def listen (s : DeliveredAcks) : Option DeliveredAcks :=
  match s.listener with
  | .loop => some { s with listener := if s.running then .recv else .stopped }
  | .received i msg => some { s with listener := if s.running then .handling i msg else .stopped }
  | .handling i msg =>
    some { s with
      listener := .loop
      pendingDeliveredAcks := s.pendingDeliveredAcks ++ [⟨i, deliveredAck msg⟩] }
  | .recv | .stopped => none

/-- The wait of the loop can end at any time, by its timeout. -/
def acks (s : DeliveredAcks) : Option DeliveredAcks :=
  match s.ackThread with
  | .test => some { s with ackThread := if s.running then .wait else .finalSwap }
  | .wait =>
    some { s with
      ackThread :=
        if s.pendingDeliveredAcks.isEmpty then .test else .send s.pendingDeliveredAcks
      pendingDeliveredAcks := [] }
  | .send batch => some { s with ackThread := .test, batches := s.batches ++ [batch] }
  | .finalSwap =>
    some { s with ackThread := .finalSend s.pendingDeliveredAcks, pendingDeliveredAcks := [] }
  | .finalSend batch =>
    some { s with
      ackThread := .finished
      batches := s.batches ++ if batch.isEmpty || !s.connected then [] else [batch] }
  | .finished => none

def call (s : DeliveredAcks) : Option DeliveredAcks :=
  match s.caller with
  | .idle => none
  | .clearAuth => some { s with caller := .stop, pendingDeliveredAcks := [] }
  | .stop => some { s with caller := .join, running := false }
  | .join =>
    match s.ackThread with
    | .finished => some { s with caller := .close }
    | _ => none
  | .close => some { s with caller := .closed }
  | .closed => some { s with caller := .finished, connected := false }
  | .finished => none

def step (s : DeliveredAcks) : Action → Option DeliveredAcks
  | .receive msg => s.receive msg
  | .listen => s.listen
  | .acks => s.acks
  | .logout =>
    match s.caller with
    | .idle => some { s with caller := .clearAuth, before := s.pushes.length }
    | _ => none
  | .disconnect =>
    match s.caller with
    | .idle => some { s with caller := .stop, before := s.pushes.length }
    | _ => none
  | .call => s.call

def sent (s : DeliveredAcks) : List ℕ := s.batches.flatten.map Receipt.push

def AckThread.batch : AckThread → List Receipt
  | .send batch | .finalSend batch => batch
  | _ => []

/-- The thread will still look at the queue. -/
def AckThread.Swaps : AckThread → Bool
  | .finalSend _ | .finished => false
  | _ => true

def Listener.push : Listener → List ℕ
  | .received i _ | .handling i _ => [i]
  | _ => []

/-- The receipts that were sent or can still be sent, in this order. -/
def live (s : DeliveredAcks) : List ℕ :=
  s.sent ++ s.ackThread.batch.map Receipt.push ++
    if s.ackThread.Swaps then s.pendingDeliveredAcks.map Receipt.push ++ s.listener.push else []

/-- The pushes that a step drops: `ClearAuth` empties the queue, `ListenerLoop` stops at a push
that it has received, `DeliveredAckLoop` leaves while one is on its way to the queue. -/
def drops (s : DeliveredAcks) : Action → List ℕ
  | .call =>
    match s.caller with
    | .clearAuth => s.pendingDeliveredAcks.map Receipt.push
    | _ => []
  | .listen =>
    match s.listener with
    | .received i _ => if s.running then [] else [i]
    | _ => []
  | .acks =>
    match s.ackThread with
    | .finalSwap => s.listener.push
    | _ => []
  | _ => []

/-- The step drops no push that was received before the call. -/
def Spares (s : DeliveredAcks) (a : Action) : Prop := ∀ i ∈ s.drops a, s.before ≤ i

instance (s : DeliveredAcks) (a : Action) : Decidable (s.Spares a) :=
  List.decidableBAll (fun i => s.before ≤ i) (s.drops a)

/-- Every push received before the call is in exactly one batch. -/
def AllAcked (s : DeliveredAcks) : Prop := ∀ i < s.before, s.sent.count i = 1

inductive Moves (s : DeliveredAcks) : Action → DeliveredAcks → Prop where
  | receive (msg : P2PMessage) (h : s.listener = .recv) : Moves s (.receive msg)
      { s with listener := .received s.pushes.length msg, pushes := s.pushes ++ [msg] }
  | loop (h : s.listener = .loop) :
      Moves s .listen { s with listener := if s.running then .recv else .stopped }
  | accept (i : ℕ) (msg : P2PMessage) (h : s.listener = .received i msg) (hrun : s.running = true) :
      Moves s .listen { s with listener := .handling i msg }
  | drop (i : ℕ) (msg : P2PMessage) (h : s.listener = .received i msg) (hrun : s.running = false) :
      Moves s .listen { s with listener := .stopped }
  | queue (i : ℕ) (msg : P2PMessage) (h : s.listener = .handling i msg) :
      Moves s .listen { s with
        listener := .loop
        pendingDeliveredAcks := s.pendingDeliveredAcks ++ [⟨i, deliveredAck msg⟩] }
  | test (h : s.ackThread = .test) :
      Moves s .acks { s with ackThread := if s.running then .wait else .finalSwap }
  | idle (h : s.ackThread = .wait) (hempty : s.pendingDeliveredAcks = []) :
      Moves s .acks { s with ackThread := .test, pendingDeliveredAcks := [] }
  | swap (h : s.ackThread = .wait) (hne : s.pendingDeliveredAcks ≠ []) :
      Moves s .acks
        { s with ackThread := .send s.pendingDeliveredAcks, pendingDeliveredAcks := [] }
  | send (batch : List Receipt) (h : s.ackThread = .send batch) :
      Moves s .acks { s with ackThread := .test, batches := s.batches ++ [batch] }
  | finalSwap (h : s.ackThread = .finalSwap) : Moves s .acks
      { s with ackThread := .finalSend s.pendingDeliveredAcks, pendingDeliveredAcks := [] }
  | finalSend (batch : List Receipt) (h : s.ackThread = .finalSend batch) : Moves s .acks
      { s with
        ackThread := .finished
        batches := s.batches ++ if batch.isEmpty || !s.connected then [] else [batch] }
  | logout (h : s.caller = .idle) :
      Moves s .logout { s with caller := .clearAuth, before := s.pushes.length }
  | disconnect (h : s.caller = .idle) :
      Moves s .disconnect { s with caller := .stop, before := s.pushes.length }
  | clearAuth (h : s.caller = .clearAuth) :
      Moves s .call { s with caller := .stop, pendingDeliveredAcks := [] }
  | stop (h : s.caller = .stop) : Moves s .call { s with caller := .join, running := false }
  | join (h : s.caller = .join) (hack : s.ackThread = .finished) :
      Moves s .call { s with caller := .close }
  | close (h : s.caller = .close) : Moves s .call { s with caller := .closed }
  | finish (h : s.caller = .closed) :
      Moves s .call { s with caller := .finished, connected := false }

variable {s t : DeliveredAcks} {a : Action}

theorem moves_of_step (ht : s.step a = some t) : Moves s a t := by
  cases a with
  | receive msg =>
    simp only [step, DeliveredAcks.receive] at ht
    split at ht
    · cases ht
    · cases ht
    · cases ht
      exact .receive msg ‹s.listener = .recv›
    · cases ht
  | listen =>
    simp only [step, DeliveredAcks.listen] at ht
    split at ht
    · cases ht
      exact .loop ‹_›
    · rename_i i msg hl
      cases ht
      split_ifs with hrun
      · exact .accept i msg hl hrun
      · exact .drop i msg hl (Bool.eq_false_iff.mpr hrun)
    · cases ht
      exact .queue _ _ ‹_›
    · cases ht
    · cases ht
  | acks =>
    simp only [step, DeliveredAcks.acks] at ht
    split at ht
    · cases ht
      exact .test ‹_›
    · rename_i hw
      cases ht
      cases hp : s.pendingDeliveredAcks with
      | nil => exact .idle hw hp
      | cons x xs =>
        have hswap := Moves.swap hw (by rw [hp]; exact List.cons_ne_nil x xs)
        rw [hp] at hswap
        exact hswap
    · cases ht
      exact .send _ ‹_›
    · cases ht
      exact .finalSwap ‹_›
    · cases ht
      exact .finalSend _ ‹_›
    · cases ht
  | logout =>
    simp only [step] at ht
    split at ht
    · cases ht
      exact .logout ‹_›
    · cases ht
  | disconnect =>
    simp only [step] at ht
    split at ht
    · cases ht
      exact .disconnect ‹_›
    · cases ht
  | call =>
    simp only [step, DeliveredAcks.call] at ht
    split at ht
    · cases ht
    · cases ht
      exact .clearAuth ‹_›
    · cases ht
      exact .stop ‹_›
    · split at ht
      · cases ht
        exact .join ‹_› ‹_›
      · cases ht
    · cases ht
      exact .close ‹_›
    · cases ht
      exact .finish ‹_›
    · cases ht

/-- All pushes whose receipt is sent or on its way, oldest first. -/
def places (s : DeliveredAcks) : List ℕ :=
  s.sent ++ s.ackThread.batch.map Receipt.push ++
    (s.pendingDeliveredAcks.map Receipt.push ++ s.listener.push)

/-- The call has set `running_` to false. -/
def Caller.Stopped : Caller → Bool
  | .idle | .clearAuth | .stop => false
  | .join | .close | .closed | .finished => true

/-- The call has joined the thread of `DeliveredAckLoop`. -/
def Caller.Joined : Caller → Bool
  | .close | .closed | .finished => true
  | _ => false

def AckThread.Left : AckThread → Bool
  | .finalSwap | .finalSend _ | .finished => true
  | _ => false

/-- How far the threads are with respect to each other. -/
structure Control (s : DeliveredAcks) : Prop where
  running : s.running = !s.caller.Stopped
  left : s.ackThread.Left = true → s.running = false
  joined : s.caller.Joined = true → s.ackThread = .finished
  connected : s.connected = true ∨ s.caller = .finished

/-- The thread of `DeliveredAckLoop` goes on. A thread with a step to make has not been joined. -/
theorem Control.acks (hc : Control s) {next : AckThread} {pending : List Receipt}
    {batches : List (List Receipt)} (hne : s.ackThread ≠ .finished)
    (hleft : next.Left = true → s.running = false) :
    Control { s with ackThread := next, pendingDeliveredAcks := pending, batches := batches } where
  running := hc.running
  left := hleft
  joined hj := absurd (hc.joined hj) hne
  connected := hc.connected

theorem Control.moves (hc : Control s) (h : Moves s a t) : Control t := by
  cases h with
  | receive msg h => exact { hc with }
  | loop h => exact { hc with }
  | accept i msg h hrun => exact { hc with }
  | drop i msg h hrun => exact { hc with }
  | queue i msg h => exact { hc with }
  | test h =>
    apply hc.acks (by simp [h])
    cases hrun : s.running <;> simp [AckThread.Left]
  | idle h hempty => exact hc.acks (by simp [h]) (by simp [AckThread.Left])
  | swap h hne => exact hc.acks (by simp [h]) (by simp [AckThread.Left])
  | send batch h => exact hc.acks (by simp [h]) (by simp [AckThread.Left])
  | finalSwap h => exact hc.acks (by simp [h]) fun _ => hc.left (by rw [h]; rfl)
  | finalSend batch h => exact hc.acks (by simp [h]) fun _ => hc.left (by rw [h]; rfl)
  | _ =>
    obtain ⟨hrunning, hleft, hjoined, hconnected⟩ := hc
    constructor <;> simp_all [Caller.Stopped, Caller.Joined]

/-- A push that is received is the last one; every other step keeps the order of the others. -/
theorem places_moves (h : Moves s a t) :
    t.pushes = s.pushes ∧ t.places.Sublist s.places ∨
      ∃ msg, t.pushes = s.pushes ++ [msg] ∧ t.places = s.places ++ [s.pushes.length] := by
  cases h with
  | receive msg h =>
    right
    refine ⟨msg, rfl, ?_⟩
    simp [places, sent, h, Listener.push]
  | drop i msg h hrun =>
    left
    refine ⟨rfl, ?_⟩
    simp only [places, h, Listener.push, List.append_nil, ← List.append_assoc]
    exact List.sublist_append_left _ _
  | clearAuth h =>
    left
    refine ⟨rfl, ?_⟩
    simp only [places, List.map_nil, List.nil_append]
    exact (List.Sublist.refl _).append (List.sublist_append_right _ _)
  | finalSend batch h =>
    left
    refine ⟨rfl, ?_⟩
    simp only [places, sent, h, AckThread.batch, List.map_nil, List.append_nil]
    apply List.Sublist.append_right
    split_ifs
    · simp
    · simp
  | loop h =>
    left
    refine ⟨rfl, ?_⟩
    cases hrun : s.running <;> simp [places, sent, h, Listener.push]
  | test h =>
    left
    refine ⟨rfl, ?_⟩
    cases hrun : s.running <;> simp [places, sent, h, AckThread.batch]
  | _ =>
    left
    refine ⟨rfl, ?_⟩
    simp [places, sent, *, Listener.push, AckThread.batch]

structure InOrder (s : DeliveredAcks) : Prop where
  sorted : s.places.Pairwise (· < ·)
  bound : ∀ i ∈ s.places, i < s.pushes.length
  before : s.before ≤ s.pushes.length

theorem before_moves (h : Moves s a t) : t.before = s.before ∨
    s.caller = .idle ∧ t.caller ≠ .idle ∧ t.before = s.pushes.length ∧ t.pushes = s.pushes ∧
      t.live = s.live ∧ s.drops a = [] := by
  cases h with
  | logout h => exact .inr ⟨h, Caller.noConfusion, rfl, rfl, rfl, rfl⟩
  | disconnect h => exact .inr ⟨h, Caller.noConfusion, rfl, rfl, rfl, rfl⟩
  | _ => exact .inl rfl

theorem InOrder.moves (ho : InOrder s) (h : Moves s a t) : InOrder t := by
  have hbefore : t.before ≤ s.pushes.length := by
    rcases before_moves h with heq | ⟨-, -, heq, -⟩
    · rw [heq]
      exact ho.before
    · exact heq.le
  rcases places_moves h with ⟨hpushes, hsub⟩ | ⟨msg, hpushes, hplaces⟩
  · refine ⟨ho.sorted.sublist hsub, ?_, ?_⟩
    · rw [hpushes]
      exact fun i hi => ho.bound i (hsub.subset hi)
    · rw [hpushes]
      exact hbefore
  · have hlen : t.pushes.length = s.pushes.length + 1 := by
      rw [hpushes, List.length_append, List.length_singleton]
    refine ⟨?_, ?_, by omega⟩
    · rw [hplaces, List.pairwise_append]
      refine ⟨ho.sorted, List.pairwise_singleton _ _, ?_⟩
      intro i hi n hn
      rw [List.mem_singleton.mp hn]
      exact ho.bound i hi
    · rw [hplaces, hlen]
      intro i hi
      rcases List.mem_append.mp hi with hi | hi
      · exact Nat.lt_succ_of_lt (ho.bound i hi)
      · rw [List.mem_singleton.mp hi]
        exact Nat.lt_succ_self _

theorem InOrder.listener_fresh (ho : InOrder s) {i : ℕ} (hi : i ∈ s.listener.push) :
    i ∉ s.sent ++ s.ackThread.batch.map Receipt.push ++
      s.pendingDeliveredAcks.map Receipt.push := by
  intro hmem
  have hsorted := ho.sorted
  rw [places, ← List.append_assoc, List.pairwise_append] at hsorted
  exact Nat.lt_irrefl i (hsorted.2.2 i hmem i hi)

theorem InOrder.pending_fresh (ho : InOrder s) {i : ℕ}
    (hi : i ∈ s.pendingDeliveredAcks.map Receipt.push) :
    i ∉ s.sent ++ s.ackThread.batch.map Receipt.push ∧ i ∉ s.listener.push := by
  constructor
  · intro hmem
    have hsorted := (List.pairwise_append.mp ho.sorted).2.2
    exact Nat.lt_irrefl i (hsorted i hmem i (List.mem_append_left _ hi))
  · intro hmem
    have hsorted := (List.pairwise_append.mp (List.pairwise_append.mp ho.sorted).2.1).2.2
    exact Nat.lt_irrefl i (hsorted i hi i hmem)

/-- Of the pushes received before a step, it leaves alive those that it does not drop. -/
theorem mem_live_moves (hc : Control s) (ho : InOrder s) (h : Moves s a t) {i : ℕ}
    (hi : i < s.pushes.length) : i ∈ t.live ↔ i ∈ s.live ∧ i ∉ s.drops a := by
  cases h with
  | receive msg h =>
    have hne : i ≠ s.pushes.length := Nat.ne_of_lt hi
    simp only [live, sent, drops, Listener.push, h]
    cases s.ackThread.Swaps <;> simp [hne]
  | loop h =>
    simp only [live, sent, drops, h]
    cases s.running <;> simp [Listener.push]
  | accept j msg h hrun => simp [live, sent, drops, h, hrun, Listener.push]
  | drop j msg h hrun =>
    have hfresh := ho.listener_fresh (i := j) (by simp [h, Listener.push])
    change i ∈ s.sent ++ s.ackThread.batch.map Receipt.push ++
      (if s.ackThread.Swaps then s.pendingDeliveredAcks.map Receipt.push ++ [] else []) ↔ _
    simp only [live, drops, h, hrun, Listener.push, List.append_nil]
    by_cases hij : i = j
    · subst hij
      refine iff_of_false (fun hlive => hfresh ?_) fun hlive => hlive.2 List.mem_cons_self
      split_ifs at hlive
      · exact hlive
      · exact List.mem_append_left _ (by simpa using hlive)
    · cases s.ackThread.Swaps <;> simp [hij]
  | queue j msg h =>
    simp only [live, sent, drops, h]
    cases s.ackThread.Swaps <;> simp [Listener.push]
  | test h =>
    simp only [live, sent, drops, h]
    cases s.running <;> simp [AckThread.batch, AckThread.Swaps]
  | finalSwap h =>
    change i ∈ s.sent ++ s.pendingDeliveredAcks.map Receipt.push ++ [] ↔ _
    simp only [live, drops, h, AckThread.batch, AckThread.Swaps, List.map_nil, List.append_nil, if_true]
    by_cases hmem : i ∈ s.listener.push
    · have hfresh := ho.listener_fresh hmem
      simp only [h, AckThread.batch, List.map_nil, List.append_nil] at hfresh
      simp [hmem, hfresh]
    · simp [hmem]
  | finalSend batch h =>
    have hconnected : s.connected = true := by
      refine hc.connected.resolve_right fun hfin => ?_
      have hjoined := hc.joined (by rw [hfin]; rfl)
      rw [h] at hjoined
      cases hjoined
    simp only [live, sent, drops, h, hconnected, AckThread.batch, AckThread.Swaps]
    cases batch <;> simp
  | clearAuth h =>
    change i ∈ s.sent ++ s.ackThread.batch.map Receipt.push ++
      (if s.ackThread.Swaps then [] ++ s.listener.push else []) ↔ _
    simp only [live, drops, h, List.nil_append]
    by_cases hmem : i ∈ s.pendingDeliveredAcks.map Receipt.push
    · obtain ⟨hfresh, hlistener⟩ := ho.pending_fresh hmem
      have hgone : i ∉ if s.ackThread.Swaps then s.listener.push else [] := by
        split_ifs
        · exact hlistener
        · exact List.not_mem_nil
      rw [List.mem_append, or_iff_left hgone]
      exact iff_of_false hfresh fun hlive => hlive.2 hmem
    · cases s.ackThread.Swaps <;> simp [hmem]
  | idle h hempty => simp [live, sent, drops, h, hempty, AckThread.batch, AckThread.Swaps]
  | swap h hne => simp [live, sent, drops, h, AckThread.batch, AckThread.Swaps]
  | send batch h => simp [live, sent, drops, h, AckThread.batch, AckThread.Swaps]
  | logout h => simp [live, sent, drops]
  | disconnect h => simp [live, sent, drops]
  | _ => simp [live, sent, drops, *]

/-- What is known in every state. Before the call nothing has been dropped. -/
structure Inv (s : DeliveredAcks) : Prop where
  control : Control s
  inOrder : InOrder s
  idle : s.caller = .idle → s.before = 0 ∧ ∀ i < s.pushes.length, i ∈ s.live

theorem init_inv : init.Inv where
  control := by constructor <;> simp [init, Caller.Stopped, AckThread.Left, Caller.Joined]
  inOrder := by constructor <;> simp [init, places, sent, AckThread.batch, Listener.push]
  idle _ := by simp [init]

theorem drops_of_idle (hc : Control s) (hidle : s.caller = .idle) : s.drops a = [] := by
  have hrun : s.running = true := by
    rw [hc.running, hidle]
    rfl
  cases a with
  | call => simp [drops, hidle]
  | listen =>
    simp only [drops, hrun, if_true]
    split <;> rfl
  | acks =>
    have hthread : s.ackThread ≠ .finalSwap := by
      intro h
      have hstopped := hc.left (by rw [h]; rfl)
      rw [hrun] at hstopped
      cases hstopped
    simp only [drops]
  | _ => rfl

theorem Inv.moves (hi : Inv s) (h : Moves s a t) : Inv t := by
  obtain ⟨hc, ho, hidle⟩ := hi
  refine ⟨hc.moves h, ho.moves h, ?_⟩
  intro htidle
  have hsidle : s.caller = .idle := by
    cases h with
    | logout h => cases htidle
    | disconnect h => cases htidle
    | clearAuth h => cases htidle
    | stop h => cases htidle
    | join h hack => cases htidle
    | close h => cases htidle
    | finish h => cases htidle
    | _ => exact htidle
  obtain ⟨hbefore, hlive⟩ := hidle hsidle
  have hold : ∀ i < s.pushes.length, i ∈ t.live := by
    intro i hi
    rw [mem_live_moves hc ho h hi, drops_of_idle hc hsidle]
    exact ⟨hlive i hi, List.not_mem_nil⟩
  constructor
  · rcases before_moves h with heq | ⟨-, hne, -⟩
    · rw [heq, hbefore]
    · exact absurd htidle hne
  · cases h with
    | receive msg h =>
      intro i hi
      simp only [List.length_append, List.length_singleton] at hi
      rcases Nat.lt_succ_iff_lt_or_eq.mp hi with hi | rfl
      · exact hold i hi
      · have hswaps : s.ackThread.Swaps = true := by
          have hleft : s.ackThread.Left ≠ true := by
            intro hleft
            have hrun := hc.left hleft
            rw [hc.running, hsidle] at hrun
            cases hrun
          cases hthread : s.ackThread <;> simp_all [AckThread.Left, AckThread.Swaps]
        simp [live, hswaps, Listener.push]
    | _ => exact hold

theorem Inv.step (hi : Inv s) (ht : s.step a = some t) : Inv t := hi.moves (moves_of_step ht)

/-- No push received before the call has been dropped. -/
def Kept (s : DeliveredAcks) : Prop := ∀ i < s.before, i ∈ s.live

theorem kept_step (hi : Inv s) (ht : s.step a = some t) : t.Kept ↔ s.Kept ∧ s.Spares a := by
  have h := moves_of_step ht
  rcases before_moves h with hbefore | ⟨hidle, -, hbefore, hpushes, hlive, hdrops⟩
  · unfold Kept Spares
    rw [hbefore]
    have hmem : ∀ i < s.before, i ∈ t.live ↔ i ∈ s.live ∧ i ∉ s.drops a := fun i hlt =>
      mem_live_moves hi.control hi.inOrder h (lt_of_lt_of_le hlt hi.inOrder.before)
    constructor
    · intro hkept
      refine ⟨fun i hlt => ((hmem i hlt).mp (hkept i hlt)).1, fun i hdrop => ?_⟩
      by_contra hlt
      have hlt : i < s.before := Nat.lt_of_not_le hlt
      exact ((hmem i hlt).mp (hkept i hlt)).2 hdrop
    · intro ⟨hkept, hspares⟩ i hlt
      exact (hmem i hlt).mpr ⟨hkept i hlt, fun hdrop => Nat.not_lt.mpr (hspares i hdrop) hlt⟩
  · -- the call: everything received up to now is alive
    obtain ⟨hzero, hall⟩ := hi.idle hidle
    have hkept : t.Kept := by
      intro i hlt
      rw [hlive]
      exact hall i (hbefore ▸ hlt)
    have hspares : s.Spares a := by
      intro i hdrop
      rw [hdrops] at hdrop
      cases hdrop
    exact iff_of_true hkept ⟨fun i hlt => absurd hlt (by omega), hspares⟩

/-- Once the socket is closed the receipts alive are those that were sent. -/
theorem allAcked_iff_kept (hi : Inv s) (hclosed : s.caller = .closed) : s.AllAcked ↔ s.Kept := by
  have hthread : s.ackThread = .finished := hi.control.joined (by rw [hclosed]; rfl)
  have hlive : s.live = s.sent := by
    simp [live, hthread, AckThread.batch, AckThread.Swaps]
  have hnodup : s.sent.Nodup := by
    have hsorted := List.pairwise_append.mp hi.inOrder.sorted
    exact (List.pairwise_append.mp hsorted.1).1.imp Nat.ne_of_lt
  unfold AllAcked Kept
  rw [hlive]
  refine forall₂_congr fun i _ => ?_
  constructor
  · intro hcount
    exact List.count_pos_iff.mp (by omega)
  · exact List.count_eq_one_of_mem hnodup

/-- The receipts that were sent or are on their way. -/
def receipts (s : DeliveredAcks) : List Receipt :=
  s.batches.flatten ++ s.ackThread.batch ++ s.pendingDeliveredAcks

def Listener.message : Listener → Option (ℕ × P2PMessage)
  | .received i msg | .handling i msg => some (i, msg)
  | _ => none

private theorem receipts_moves (h : Moves s a t) {x : Receipt} (hx : x ∈ t.receipts) :
    x ∈ s.receipts ∨
      ∃ i msg, s.listener.message = some (i, msg) ∧ x = ⟨i, deliveredAck msg⟩ := by
  cases h with
  | queue i msg h =>
    simp only [receipts, ← List.append_assoc, List.mem_append, List.mem_singleton] at hx ⊢
    rcases hx with hx | rfl
    · exact .inl hx
    · exact .inr ⟨i, msg, by rw [h]; rfl, rfl⟩
  | finalSend batch h =>
    left
    simp only [receipts, h, AckThread.batch, List.append_nil, List.mem_append] at hx ⊢
    split_ifs at hx
    · rw [List.append_nil] at hx
      exact hx.imp_left .inl
    · simpa using hx
  | test h =>
    left
    cases hrun : s.running <;> simp_all [receipts, AckThread.batch]
  | clearAuth h =>
    left
    simp only [receipts, List.append_nil] at hx ⊢
    exact List.mem_append_left _ hx
  | idle h hempty =>
    left
    simpa [receipts, h, hempty, AckThread.batch] using hx
  | swap h hne =>
    left
    simpa [receipts, h, AckThread.batch] using hx
  | send batch h =>
    left
    simpa [receipts, h, AckThread.batch] using hx
  | finalSwap h =>
    left
    simpa [receipts, h, AckThread.batch] using hx
  | _ => exact .inl hx

private theorem message_moves (h : Moves s a t) {i : ℕ} {msg : P2PMessage}
    (hm : t.listener.message = some (i, msg)) :
    s.listener.message = some (i, msg) ∨ i = s.pushes.length ∧ t.pushes = s.pushes ++ [msg] := by
  cases h with
  | receive msg' h =>
    cases hm
    exact .inr ⟨rfl, rfl⟩
  | accept j msg' h hrun =>
    left
    rw [h]
    exact hm
  | loop h => cases hrun : s.running <;> simp [hrun, Listener.message] at hm
  | drop j msg' h hrun => cases hm
  | queue j msg' h => cases hm
  | _ => exact .inl hm

/-- Each receipt is for the message of its push. -/
structure Faithful (s : DeliveredAcks) : Prop where
  receipts : ∀ x ∈ s.receipts, ∃ msg, s.pushes[x.push]? = some msg ∧ x.ack = deliveredAck msg
  listener : ∀ i msg, s.listener.message = some (i, msg) → s.pushes[i]? = some msg

theorem Faithful.step (hf : Faithful s) (ht : s.step a = some t) : Faithful t := by
  have h := moves_of_step ht
  -- a push keeps its number
  have hkeep : ∀ (i : ℕ) (msg : P2PMessage), s.pushes[i]? = some msg → t.pushes[i]? = some msg := by
    intro i msg hi
    rcases places_moves h with ⟨heq, -⟩ | ⟨msg', heq, -⟩
    · rw [heq]
      exact hi
    · rw [heq]
      exact Threads.getElem?_append_of_some hi _
  constructor
  · intro x hx
    rcases receipts_moves h hx with hx | ⟨i, msg, hm, rfl⟩
    · obtain ⟨msg, hmsg, hack⟩ := hf.receipts x hx
      exact ⟨msg, hkeep _ _ hmsg, hack⟩
    · exact ⟨msg, hkeep i msg (hf.listener i msg hm), rfl⟩
  · intro i msg hm
    rcases message_moves h hm with hm | ⟨rfl, heq⟩
    · exact hkeep i msg (hf.listener i msg hm)
    · rw [heq]
      exact List.getElem?_concat_length

theorem init_faithful : init.Faithful where
  receipts x hx := by cases hx
  listener i msg hm := by cases hm

/-- Receipts are sent in the order of the pushes, each for the message of its push and at most
once. When the client closes the socket, every push received before the `Logout` or `Disconnect`
has had its receipt exactly if no step of the run dropped one of them. -/
theorem allAcked_iff_spares (as : List Action) (hr : Steps.run step init as = some t) :
    t.sent.Pairwise (· < ·) ∧
      (∀ x ∈ t.batches.flatten,
        ∃ msg, t.pushes[x.push]? = some msg ∧ x.ack = deliveredAck msg) ∧
      (t.caller = .closed → (t.AllAcked ↔ Steps.Meets step Spares init as)) := by
  have hi : t.Inv :=
    Steps.invariant_of_run (I := Inv) (fun _ _ _ h ht => h.step ht) init_inv hr
  have hf : t.Faithful :=
    Steps.invariant_of_run (I := Faithful) (fun _ _ _ h ht => h.step ht) init_faithful hr
  refine ⟨?_, ?_, ?_⟩
  · exact (List.pairwise_append.mp (List.pairwise_append.mp hi.inOrder.sorted).1).1
  · intro x hx
    exact hf.receipts x (List.mem_append_left _ (List.mem_append_left _ hx))
  · intro hclosed
    have hkept : t.Kept ↔ init.Kept ∧ Steps.Meets step Spares init as :=
      Steps.final_iff_meets (I := Inv) (fun _ _ _ h ht => h.step ht)
        (fun _ _ _ h ht => kept_step h ht) init_inv hr
    rw [allAcked_iff_kept hi hclosed, hkept]
    exact and_iff_right fun i hlt => absurd hlt (Nat.not_lt_zero i)

/-- The receipt of a push is sent with the last batch after a `Disconnect`. -/
theorem allAcked_disconnect : ∃ as t, Steps.run step init as = some t ∧ t.caller = .closed ∧
    t.before = 1 ∧ t.AllAcked := by
  have hr : ∃ t, Steps.run step init [.listen, .receive { msgId := 5 }, .listen, .listen,
      .disconnect, .call, .acks, .acks, .acks, .call, .call] = some t ∧ t.caller = .closed ∧
      t.before = 1 := ⟨_, rfl, rfl, rfl⟩
  obtain ⟨t, hr, hclosed, hbefore⟩ := hr
  refine ⟨_, t, hr, hclosed, hbefore, ((allAcked_iff_spares _ hr).2.2 hclosed).mpr ?_⟩
  decide

/-- A push is received and its receipt queued; `Logout` empties the queue before the thread has
looked at it, and closes the socket with no receipt sent. -/
theorem not_allAcked_logout : ∃ as t, Steps.run step init as = some t ∧ t.caller = .closed ∧
    t.before = 1 ∧ t.batches = [] ∧ ¬ t.AllAcked := by
  refine ⟨[.listen, .receive { msgId := 5 }, .listen, .listen,
    .logout, .call, .call, .acks, .acks, .acks, .call, .call], _, rfl, rfl, rfl, rfl, ?_⟩
  intro hacked
  have hcount := hacked 0 Nat.one_pos
  cases hcount

end DeliveredAcks
end TermChat
