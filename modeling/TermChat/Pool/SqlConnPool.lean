import TermChat.Base.Steps
import TermChat.Base.Threads

/-! `SqlConnPool` under any number of callers: what is free is counted by the semaphore and queued
under the mutex, and `GetConn` tests the queue without either. -/
namespace TermChat

/-- Where a caller stands, from the start of `GetConn` to the end of `FreeConn`. -/
inductive ConnCaller (κ : Type) where
  | testing
  | waiting
  | lockingToPop
  | popping
  | unlocking (conn : κ)
  | holding (conn : κ)
  | lockingToPush (conn : κ)
  | pushing (conn : κ)
  | posting
  | leaving
  deriving DecidableEq, Repr

/-- `poppedEmpty` records a `front` and `pop` of an empty queue. -/
structure SqlConnPool (κ : Type) where
  connQueue : List κ
  sem : ℕ
  locked : Bool := false
  callers : List (ConnCaller κ) := []
  poppedEmpty : Bool := false

namespace SqlConnPool

variable {κ : Type}

/-- `Init`, with the connections that could be created. -/
def init (created : List κ) : SqlConnPool κ := { connQueue := created, sem := created.length }

/-- `getConn` starts a call; `call i` lets caller `i` take its next step, and calls `FreeConn` when
the caller holds a connection. -/
inductive Action where
  | getConn
  | call (i : ℕ)
  deriving DecidableEq, Repr

/-- The next step of a caller; `none` while it is blocked. -/
def next (p : SqlConnPool κ) (i : ℕ) : ConnCaller κ → Option (SqlConnPool κ)
  | .testing =>
    let after := if p.connQueue.isEmpty then none else some .waiting
    some { p with callers := Threads.advance p.callers i after }
  | .waiting =>
    if 0 < p.sem then
      some { p with sem := p.sem - 1, callers := Threads.advance p.callers i (some .lockingToPop) }
    else none
  | .lockingToPop =>
    if p.locked then none
    else some { p with locked := true, callers := Threads.advance p.callers i (some .popping) }
  | .popping =>
    match p.connQueue with
    | [] => some { p with poppedEmpty := true }
    | conn :: rest =>
      some { p with
        connQueue := rest, callers := Threads.advance p.callers i (some (.unlocking conn)) }
  | .unlocking conn =>
    some { p with locked := false, callers := Threads.advance p.callers i (some (.holding conn)) }
  | .holding conn =>
    some { p with callers := Threads.advance p.callers i (some (.lockingToPush conn)) }
  | .lockingToPush conn =>
    if p.locked then none
    else some { p with locked := true, callers := Threads.advance p.callers i (some (.pushing conn)) }
  | .pushing conn =>
    some { p with
      connQueue := p.connQueue ++ [conn], callers := Threads.advance p.callers i (some .posting) }
  | .posting =>
    some { p with sem := p.sem + 1, callers := Threads.advance p.callers i (some .leaving) }
  | .leaving => some { p with locked := false, callers := Threads.advance p.callers i none }

def step (p : SqlConnPool κ) : Action → Option (SqlConnPool κ)
  | .getConn => some { p with callers := p.callers ++ [.testing] }
  | .call i => (p.callers[i]?).bind (p.next i)

def conn? : ConnCaller κ → Option κ
  | .unlocking conn => some conn
  | .holding conn => some conn
  | .lockingToPush conn => some conn
  | .pushing conn => some conn
  | _ => none

/-- The caller is between `sem_wait` and its pop. -/
def taking : ConnCaller κ → Bool
  | .lockingToPop => true
  | .popping => true
  | _ => false

/-- The caller is between its push and `sem_post`. -/
def giving : ConnCaller κ → Bool
  | .posting => true
  | _ => false

def held (p : SqlConnPool κ) : List κ := p.callers.filterMap conn?

/-- What is queued is counted by the semaphore, or a caller has counted it down already, or not yet
up. -/
structure Inv (created : List κ) (p : SqlConnPool κ) : Prop where
  noFault : p.poppedEmpty = false
  count : p.connQueue.length = p.sem + p.callers.countP taking + p.callers.countP giving
  conserved : (p.connQueue ++ p.held).Perm created

variable {created : List κ} {p p' : SqlConnPool κ}

theorem init_inv (created : List κ) : (init created).Inv created where
  noFault := rfl
  count := rfl
  conserved := by
    rw [held]
    exact List.Perm.of_eq (List.append_nil created)

/-- A step of a caller keeps the invariant when it moves a connection between the queue and the
caller, and counts it. -/
theorem Inv.advance {i : ℕ} {caller : ConnCaller κ} (h : p.Inv created)
    (hi : p.callers[i]? = some caller) {queue : List κ} {sem : ℕ} (locked : Bool)
    {next : Option (ConnCaller κ)}
    (hcount : queue.length + p.sem + (if taking caller then 1 else 0) + (if giving caller then 1 else 0) =
      p.connQueue.length + sem + next.toList.countP taking + next.toList.countP giving)
    (hconn : (queue ++ (next.bind conn?).toList).Perm (p.connQueue ++ (conn? caller).toList)) :
    Inv created { p with
      connQueue := queue, sem := sem, locked := locked
      callers := Threads.advance p.callers i next } where
  noFault := h.noFault
  count := by
    have hbefore := h.count
    have htaking := Threads.countP_eq hi taking
    have hgiving := Threads.countP_eq hi giving
    have htaking' := Threads.countP_advance hi next taking
    have hgiving' := Threads.countP_advance hi next giving
    simp only [htaking', hgiving']
    omega
  conserved := by
    have hbefore := (Threads.filterMap_perm hi conn?).append_left p.connQueue
    have hafter := (Threads.filterMap_advance_perm hi next conn?).append_left queue
    have hmove := hconn.append_right ((Threads.others p.callers i).filterMap conn?)
    rw [← List.append_assoc] at hbefore hafter
    exact ((hafter.trans hmove).trans hbefore.symm).trans h.conserved

theorem Inv.queue_ne_nil {i : ℕ} (h : p.Inv created) (hi : p.callers[i]? = some .popping) :
    p.connQueue ≠ [] := by
  intro hempty
  have hcount := h.count
  have htaking := Threads.countP_eq hi taking
  rw [hempty] at hcount
  simp only [List.length_nil, taking, if_true] at hcount htaking
  omega

theorem Inv.next {i : ℕ} {caller : ConnCaller κ} (h : p.Inv created)
    (hi : p.callers[i]? = some caller) (hstep : p.next i caller = some p') : p'.Inv created := by
  have hsame : ∀ conns : List κ, (p.connQueue ++ conns).Perm (p.connQueue ++ conns) :=
    fun _ => List.Perm.refl _
  cases caller with
  | testing =>
    cases hstep
    cases p.connQueue.isEmpty with
    | true => exact h.advance hi p.locked rfl (hsame [])
    | false => exact h.advance hi p.locked rfl (hsame [])
  | waiting =>
    simp only [SqlConnPool.next] at hstep
    split_ifs at hstep with hsem
    cases hstep
    apply h.advance hi p.locked _ (hsame [])
    simp [taking, giving]
    omega
  | lockingToPop =>
    simp only [SqlConnPool.next] at hstep
    split_ifs at hstep
    cases hstep
    exact h.advance hi true rfl (hsame [])
  | popping =>
    cases hqueue : p.connQueue with
    | nil => exact absurd hqueue (h.queue_ne_nil hi)
    | cons conn rest =>
      simp only [SqlConnPool.next, hqueue] at hstep
      cases hstep
      apply h.advance hi p.locked
      · simp [hqueue, taking, giving]
        omega
      · rw [hqueue]
        change (rest ++ [conn]).Perm (conn :: rest ++ [])
        rw [List.append_nil]
        exact List.perm_append_singleton conn rest
  | unlocking conn =>
    cases hstep
    exact h.advance hi false rfl (hsame [conn])
  | holding conn =>
    cases hstep
    exact h.advance hi p.locked rfl (hsame [conn])
  | lockingToPush conn =>
    simp only [SqlConnPool.next] at hstep
    split_ifs at hstep
    cases hstep
    exact h.advance hi true rfl (hsame [conn])
  | pushing conn =>
    cases hstep
    apply h.advance hi p.locked
    · simp [taking, giving]
      omega
    · simp [conn?]
  | posting =>
    cases hstep
    apply h.advance hi p.locked _ (hsame [])
    simp [taking, giving]
    omega
  | leaving =>
    cases hstep
    exact h.advance hi false rfl (hsame [])

theorem Inv.step (h : p.Inv created) {a : Action} (hstep : p.step a = some p') : p'.Inv created := by
  cases a with
  | getConn =>
    cases hstep
    refine ⟨h.noFault, ?_, ?_⟩
    · have hcount := h.count
      simp only [List.countP_append]
      exact hcount
    · have hheld : (p.callers ++ [ConnCaller.testing]).filterMap conn? = p.held := by
        rw [List.filterMap_append]
        exact List.append_nil _
      rw [held, hheld]
      exact h.conserved
  | call i =>
    obtain ⟨caller, hi, hnext⟩ := Option.bind_eq_some_iff.mp hstep
    exact h.next hi hnext

/-- In every run of calls of `GetConn` and `FreeConn`, no pop finds the queue empty, and the queue
and the callers have the connections of `Init` between them, each in one place. -/
theorem connections_conserved (created : List κ) (hdistinct : created.Nodup) (as : List Action)
    (p : SqlConnPool κ) (hrun : Steps.run step (init created) as = some p) :
    p.poppedEmpty = false ∧ (p.connQueue ++ p.held).Nodup ∧ (p.connQueue ++ p.held).Perm created := by
  have hinv : p.Inv created :=
    Steps.invariant_of_run (fun _ _ _ h hstep => Inv.step h hstep) (init_inv created) hrun
  exact ⟨hinv.noFault, hinv.conserved.nodup_iff.mpr hdistinct, hinv.conserved⟩

/-- Two callers pass the test for one connection; the second waits until it is freed. -/
def contention : List Action :=
  [.getConn, .call 0, .getConn, .call 1, .call 0, .call 0, .call 0, .call 0, .call 0, .call 0, .call 0,
    .call 0, .call 1, .call 0, .call 0, .call 0]

theorem connections_conserved_contention :
    ∃ p, Steps.run step (init [7]) contention = some p ∧ p.poppedEmpty = false ∧
      (p.connQueue ++ p.held).Perm [7] := by
  have henabled : (Steps.run step (init [7]) contention).isSome := by decide
  obtain ⟨p, hrun⟩ := Option.isSome_iff_exists.mp henabled
  have hconserved := connections_conserved [7] (by decide) contention p hrun
  exact ⟨p, hrun, hconserved.1, hconserved.2.2⟩

end SqlConnPool
end TermChat
