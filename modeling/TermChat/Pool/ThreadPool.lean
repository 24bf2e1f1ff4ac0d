import TermChat.Base.Steps
import TermChat.Base.Threads

/-! `ThreadPool`: workers, callers of `AddTask` and the destructor, in any interleaving, on one
mutex and one condition variable. The workers are detached: nobody joins them, and the destructor
frees the mutex, the condition and the queue while they may be anywhere. -/
namespace TermChat

/-- Where a thread stands: a worker, a caller of `AddTask`, or the destructor. A worker that waits on
the condition is `locking` again once it is woken. -/
inductive PoolThread (τ : Type) where
  | locking
  | looping
  | popped (task : τ)
  | running (task : τ)
  | waiting
  | exited
  | adding (task : τ)
  | emplacing (task : τ)
  | notifying
  | returning
  | closing
  | marking
  | notifyingAll
  | freeing
  deriving DecidableEq, Repr

namespace PoolThread

variable {τ : Type}

def holds : PoolThread τ → Bool
  | looping | popped _ | emplacing _ | notifying | returning | marking => true
  | _ => false

def isWaiting : PoolThread τ → Bool
  | waiting => true
  | _ => false

/-- A worker on its way to the test of `tasks_`. -/
def ready : PoolThread τ → Bool
  | locking | looping => true
  | _ => false

def isNotifying : PoolThread τ → Bool
  | notifying => true
  | _ => false

/-- The destructor, after it has set `isClosed`. -/
def isEnding : PoolThread τ → Bool
  | notifyingAll | freeing => true
  | _ => false

/-- A worker that has not left its loop. -/
def working : PoolThread τ → Bool
  | locking | looping | popped _ | running _ | waiting => true
  | _ => false

/-- The task that a worker has taken and not finished. -/
def task? : PoolThread τ → Option τ
  | popped task | running task => some task
  | _ => none

/-- What `notify_all` does to a thread. -/
def woken : PoolThread τ → PoolThread τ
  | waiting => locking
  | thread => thread

/-- A bound on the steps of a thread and on those it enables, `all` for one that wakes them all. -/
def weight (all : ℕ) : PoolThread τ → ℕ
  | waiting | exited => 0
  | looping | returning | freeing => 1
  | locking => 2
  | running _ => 3
  | popped _ | notifying => 4
  | emplacing _ => 9
  | adding _ => 10
  | notifyingAll => 2 * all + 2
  | marking => 2 * all + 3
  | closing => 2 * all + 4

end PoolThread

/-- `submitted` and `started` record the tasks in the order of `emplace` and of `pop`. `freed` holds
when the destructor has returned. -/
structure ThreadPool (τ : Type) where
  tasks : List τ := []
  isClosed : Bool := false
  freed : Bool := false
  locked : Bool := false
  threads : List (PoolThread τ)
  submitted : List τ := []
  started : List τ := []

namespace ThreadPool

variable {τ : Type}

/-- The constructor: `threadCount` workers that lock the mutex first. -/
def init (threadCount : ℕ) : ThreadPool τ := { threads := List.replicate threadCount .locking }

/-- `addTask` and `destroy` start a call. `next i` lets thread `i` go on, `notify i j` lets it wake
thread `j` with `notify_one`. `wake` is a spurious wake-up. -/
inductive Action (τ : Type) where
  | addTask (task : τ)
  | destroy
  | next (i : ℕ)
  | notify (i j : ℕ)
  | wake (i : ℕ)
  deriving DecidableEq, Repr

def goTo (p : ThreadPool τ) (i : ℕ) (thread : PoolThread τ) : ThreadPool τ :=
  { p with threads := Threads.advance p.threads i (some thread) }

/-- `lock`, for a thread that goes on at `thread` once it has the mutex. -/
def lock (p : ThreadPool τ) (i : ℕ) (thread : PoolThread τ) : Option (ThreadPool τ) :=
  if p.locked then none else some ({ p with locked := true }.goTo i thread)

def unlock (p : ThreadPool τ) (i : ℕ) (thread : PoolThread τ) : ThreadPool τ :=
  { p with locked := false }.goTo i thread

/-- The next step of thread `i`; `none` while it is blocked, or over. -/
def next (p : ThreadPool τ) (i : ℕ) : PoolThread τ → Option (ThreadPool τ)
  | .locking => p.lock i .looping
  | .looping =>
    match p.tasks with
    | task :: rest =>
      some ({ p with tasks := rest, started := p.started ++ [task] }.goTo i (.popped task))
    -- `break` gives the mutex back in the destructor of `locker`, `wait` as it blocks
    | [] => some (p.unlock i (if p.isClosed then .exited else .waiting))
  | .popped task => some (p.unlock i (.running task))
  | .running _ => some (p.goTo i .locking)
  | .waiting => none
  | .exited => none
  | .adding task => p.lock i (.emplacing task)
  | .emplacing task =>
    some ({ p with
      tasks := p.tasks ++ [task], submitted := p.submitted ++ [task] }.goTo i .notifying)
  | .notifying => if p.threads.any PoolThread.isWaiting then none else some (p.goTo i .returning)
  | .returning => some (p.unlock i .exited)
  | .closing => p.lock i .marking
  | .marking => some ({ p with isClosed := true }.unlock i .notifyingAll)
  | .notifyingAll => some ({ p with threads := p.threads.map .woken }.goTo i .freeing)
  -- the last owner of `pool_` is gone, and with it the tasks that are still queued
  | .freeing => some ({ p with tasks := [], freed := true }.goTo i .exited)

def act (p : ThreadPool τ) : Action τ → Option (ThreadPool τ)
  | .addTask task => some { p with threads := p.threads ++ [.adding task] }
  | .destroy => some { p with threads := p.threads ++ [.closing] }
  | .next i => (p.threads[i]?).bind (p.next i)
  | .notify i j =>
    match p.threads[i]?, p.threads[j]? with
    | some .notifying, some .waiting => some ((p.goTo i .returning).goTo j .locking)
    | _, _ => none
  | .wake i =>
    match p.threads[i]? with
    | some .waiting => some (p.goTo i .locking)
    | _ => none

/-- What a thread does with a pool that is freed is not defined, so no step follows. -/
def step (p : ThreadPool τ) (a : Action τ) : Option (ThreadPool τ) :=
  if p.freed then none else p.act a

def running (p : ThreadPool τ) : List τ := p.threads.filterMap PoolThread.task?

/-- The number of threads at program points of one kind. -/
def count (p : ThreadPool τ) (kind : PoolThread τ → Bool) : ℕ := p.threads.countP kind

/-- What a step of a thread does: from `thread` to `next`, with the rest of the pool as in `q`. -/
inductive Moves (p : ThreadPool τ) : PoolThread τ → ThreadPool τ → PoolThread τ → Prop where
  | lock (hfree : p.locked = false) : Moves p .locking { p with locked := true } .looping
  | pop {task : τ} {rest : List τ} (htasks : p.tasks = task :: rest) :
      Moves p .looping { p with tasks := rest, started := p.started ++ [task] } (.popped task)
  | leave (htasks : p.tasks = []) (hclosed : p.isClosed = true) :
      Moves p .looping { p with locked := false } .exited
  | sleep (htasks : p.tasks = []) (hopen : p.isClosed = false) :
      Moves p .looping { p with locked := false } .waiting
  | start (task : τ) : Moves p (.popped task) { p with locked := false } (.running task)
  | finish (task : τ) : Moves p (.running task) p .locking
  | lockToAdd (task : τ) (hfree : p.locked = false) :
      Moves p (.adding task) { p with locked := true } (.emplacing task)
  | emplace (task : τ) :
      Moves p (.emplacing task)
        { p with tasks := p.tasks ++ [task], submitted := p.submitted ++ [task] } .notifying
  | notifyNone (hnone : p.count PoolThread.isWaiting = 0) : Moves p .notifying p .returning
  | unlock : Moves p .returning { p with locked := false } .exited
  | lockToClose (hfree : p.locked = false) : Moves p .closing { p with locked := true } .marking
  | mark : Moves p .marking { p with isClosed := true, locked := false } .notifyingAll
  | notifyAll : Moves p .notifyingAll { p with threads := p.threads.map .woken } .freeing
  | free : Moves p .freeing { p with tasks := [], freed := true } .exited

variable {n : ℕ} {p p' q : ThreadPool τ} {i : ℕ} {thread next : PoolThread τ}

private theorem lock_eq_some (h : p.lock i next = some p') :
    p.locked = false ∧ p' = { p with locked := true }.goTo i next := by
  unfold lock at h
  split_ifs at h with hlocked
  exact ⟨by simpa using hlocked, (Option.some.inj h).symm⟩

theorem moves_of_next (h : p.next i thread = some p') :
    ∃ q next, p.Moves thread q next ∧ p' = q.goTo i next := by
  cases thread with
  | locking =>
    obtain ⟨hfree, rfl⟩ := lock_eq_some h
    exact ⟨_, _, .lock hfree, rfl⟩
  | looping =>
    cases htasks : p.tasks with
    | nil =>
      simp only [ThreadPool.next, htasks] at h
      cases hclosed : p.isClosed with
      | true =>
        rw [hclosed] at h
        exact ⟨_, _, .leave htasks hclosed, (Option.some.inj h).symm⟩
      | false =>
        rw [hclosed] at h
        exact ⟨_, _, .sleep htasks hclosed, (Option.some.inj h).symm⟩
    | cons task rest =>
      simp only [ThreadPool.next, htasks] at h
      exact ⟨_, _, .pop htasks, (Option.some.inj h).symm⟩
  | popped task => exact ⟨_, _, .start task, (Option.some.inj h).symm⟩
  | running task => exact ⟨_, _, .finish task, (Option.some.inj h).symm⟩
  | waiting => cases h
  | exited => cases h
  | adding task =>
    obtain ⟨hfree, rfl⟩ := lock_eq_some h
    exact ⟨_, _, .lockToAdd task hfree, rfl⟩
  | emplacing task => exact ⟨_, _, .emplace task, (Option.some.inj h).symm⟩
  | notifying =>
    simp only [ThreadPool.next] at h
    split_ifs at h with hany
    have hnone : p.count PoolThread.isWaiting = 0 := by
      rw [count, List.countP_eq_zero]
      intro thread hmem hwaiting
      exact hany (List.any_eq_true.mpr ⟨thread, hmem, hwaiting⟩)
    exact ⟨_, _, .notifyNone hnone, (Option.some.inj h).symm⟩
  | returning => exact ⟨_, _, .unlock, (Option.some.inj h).symm⟩
  | closing =>
    obtain ⟨hfree, rfl⟩ := lock_eq_some h
    exact ⟨_, _, .lockToClose hfree, rfl⟩
  | marking => exact ⟨_, _, .mark, (Option.some.inj h).symm⟩
  | notifyingAll => exact ⟨_, _, .notifyAll, (Option.some.inj h).symm⟩
  | freeing => exact ⟨_, _, .free, (Option.some.inj h).symm⟩

theorem count_goTo (hi : p.threads[i]? = some thread) (next : PoolThread τ)
    (kind : PoolThread τ → Bool) :
    (p.goTo i next).count kind + (kind thread).toNat = p.count kind + (kind next).toNat := by
  have hbefore := Threads.countP_eq hi kind
  have hafter := Threads.countP_advance hi (some next) kind
  simp only [Option.toList_some, List.countP_singleton] at hafter
  simp only [count, goTo, hbefore, hafter]
  cases kind thread <;> cases kind next <;> simp

theorem count_goTo_of_eq (hi : p.threads[i]? = some thread) (next : PoolThread τ)
    (kind : PoolThread τ → Bool) (hkind : kind thread = kind next) :
    (p.goTo i next).count kind = p.count kind := by
  have hcount := count_goTo hi next kind
  rw [hkind] at hcount
  exact Nat.add_right_cancel hcount

/-- What an action does: it starts a call, moves a thread, or wakes one. -/
inductive Acts (p : ThreadPool τ) : Action τ → ThreadPool τ → Prop where
  | addTask (task : τ) : Acts p (.addTask task) { p with threads := p.threads ++ [.adding task] }
  | destroy : Acts p .destroy { p with threads := p.threads ++ [.closing] }
  | next {i : ℕ} {thread next : PoolThread τ} {q : ThreadPool τ} (hi : p.threads[i]? = some thread)
      (hmoves : p.Moves thread q next) : Acts p (.next i) (q.goTo i next)
  | notify {i j : ℕ} (hi : p.threads[i]? = some .notifying)
      (hj : (p.goTo i .returning).threads[j]? = some .waiting) :
      Acts p (.notify i j) ((p.goTo i .returning).goTo j .locking)
  | wake {i : ℕ} (hi : p.threads[i]? = some .waiting) : Acts p (.wake i) (p.goTo i .locking)

theorem act_of_step {a : Action τ} (h : p.step a = some p') :
    p.freed = false ∧ p.act a = some p' := by
  unfold step at h
  split_ifs at h with hfreed
  exact ⟨by simpa using hfreed, h⟩

theorem acts_of_step {a : Action τ} (hstep : p.step a = some p') : p.Acts a p' := by
  have h := (act_of_step hstep).2
  cases a with
  | addTask task => exact Option.some.inj h ▸ .addTask task
  | destroy => exact Option.some.inj h ▸ .destroy
  | next i =>
    obtain ⟨thread, hi, hnext⟩ := Option.bind_eq_some_iff.mp h
    obtain ⟨q, next, hmoves, rfl⟩ := moves_of_next hnext
    exact .next hi hmoves
  | notify i j =>
    simp only [act] at h
    split at h
    · next hi hj =>
      have hne : i ≠ j := by
        rintro rfl
        cases hi.symm.trans hj
      exact Option.some.inj h ▸ .notify hi ((Threads.getElem?_advance_of_ne hne _).trans hj)
    · cases h
  | wake i =>
    simp only [act] at h
    split at h
    · next hi => exact Option.some.inj h ▸ .wake hi
    · cases h

/-- `notify_all` leaves no thread waiting. -/
theorem count_woken_isWaiting (p : ThreadPool τ) :
    (p.threads.map PoolThread.woken).countP PoolThread.isWaiting = 0 := by
  rw [List.countP_eq_zero]
  intro thread hmem
  obtain ⟨before, -, rfl⟩ := List.mem_map.mp hmem
  cases before <;> exact Bool.false_ne_true

/-- `notify_all` changes no count that does not tell a waiting thread from one that locks. -/
theorem count_woken {kind : PoolThread τ → Bool} (hkind : kind .waiting = kind .locking)
    (p : ThreadPool τ) : (p.threads.map PoolThread.woken).countP kind = p.count kind := by
  rw [List.countP_map, count]
  apply List.countP_congr
  intro thread _
  cases thread <;> simp [PoolThread.woken, hkind]

/-- The tasks are started in the order of submission, and none is lost before the pool is freed; a
worker that waits leaves a worker on its way, or a `notify_one` to come, for each queued task; a
closed pool is being freed. -/
structure Inv (n : ℕ) (p : ThreadPool τ) : Prop where
  holder : p.count PoolThread.holds = p.locked.toNat
  fifo : p.started <+: p.submitted
  kept : p.freed = false → p.started ++ p.tasks = p.submitted
  awake : 0 < p.count PoolThread.isWaiting →
    p.tasks.length ≤ p.count PoolThread.ready + p.count PoolThread.isNotifying
  closed : p.isClosed = true → p.freed = true ∨ 0 < p.count PoolThread.isEnding
  bounded : p.count PoolThread.working ≤ n
  staffed : p.isClosed = false → p.count PoolThread.working = n

private theorem count_init (n : ℕ) (kind : PoolThread τ → Bool) :
    (init n).count kind = if kind .locking then n else 0 := List.countP_replicate

theorem init_inv (n : ℕ) : (init n : ThreadPool τ).Inv n where
  holder := count_init n _
  fifo := List.prefix_rfl
  kept _ := rfl
  awake _ := Nat.zero_le _
  closed h := Bool.noConfusion h
  bounded := Nat.le_of_eq (count_init n _)
  staffed _ := count_init n _

section Moves

variable (h : p.Moves thread q next)
include h

theorem Moves.getElem? (hi : p.threads[i]? = some thread) : q.threads[i]? = some thread := by
  cases h with
  | notifyAll => simp [hi, PoolThread.woken]
  | _ => exact hi

theorem Moves.count_eq {kind : PoolThread τ → Bool} (hkind : kind .waiting = kind .locking) :
    q.count kind = p.count kind := by
  cases h with
  | notifyAll => exact count_woken hkind p
  | _ => rfl

theorem Moves.not_waiting : thread.isWaiting = false := by
  cases h <;> rfl

/-- Only the mutex's holder gives it back, and only a free one is taken. -/
theorem Moves.holder (hheld : thread.holds = true → p.locked = true) :
    q.locked.toNat + thread.holds.toNat = p.locked.toNat + next.holds.toNat := by
  cases h <;> simp_all [PoolThread.holds]

theorem Moves.kept (hkept : p.started ++ p.tasks = p.submitted) (hfreed : q.freed = false) :
    q.started ++ q.tasks = q.submitted := by
  cases h with
  | pop htasks => simp [← hkept, htasks]
  | emplace task => simp [← hkept]
  | free => cases hfreed
  | _ => exact hkept

theorem Moves.fifo (hkept : p.started ++ p.tasks = p.submitted) : q.started <+: q.submitted := by
  have hbefore : p.started <+: p.submitted := ⟨_, hkept⟩
  cases h with
  | pop htasks => exact ⟨_, by simpa [htasks] using hkept⟩
  | emplace task => exact hbefore.trans (List.prefix_append _ _)
  | _ => exact hbefore

/-- A worker goes to sleep only when nothing is queued. Otherwise a queued task that is new has its
`notify_one` to come, and a worker on its way leaves with a task. -/
theorem Moves.awake (hwaiting : 0 < (q.goTo i next).count PoolThread.isWaiting)
    (hi : p.threads[i]? = some thread) :
    q.tasks = [] ∨
      0 < p.count PoolThread.isWaiting ∧ q.threads = p.threads ∧
        q.tasks.length + thread.ready.toNat + thread.isNotifying.toNat ≤
          p.tasks.length + next.ready.toNat + next.isNotifying.toNat := by
  have hcount := count_goTo (h.getElem? hi) next PoolThread.isWaiting
  rw [h.not_waiting] at hcount
  cases h with
  | leave htasks _ => exact .inl htasks
  | sleep htasks _ => exact .inl htasks
  | free => exact .inl rfl
  | notifyAll =>
    have hnone : count _ PoolThread.isWaiting = 0 := hcount.trans (count_woken_isWaiting p)
    omega
  | notifyNone hnone =>
    have hnone : count _ PoolThread.isWaiting = 0 := hcount.trans hnone
    omega
  | pop htasks =>
    have hbefore : count _ PoolThread.isWaiting = p.count PoolThread.isWaiting := hcount
    exact .inr ⟨hbefore ▸ hwaiting, rfl, by simp [htasks, PoolThread.ready, PoolThread.isNotifying]⟩
  | _ =>
    have hbefore : count _ PoolThread.isWaiting = p.count PoolThread.isWaiting := hcount
    exact .inr ⟨hbefore ▸ hwaiting, rfl, by simp [PoolThread.ready, PoolThread.isNotifying]⟩

theorem Moves.closed (hclosed : q.isClosed = true) (hfreed : q.freed = false) :
    next.isEnding = true ∨ thread.isEnding = false ∧ p.isClosed = true := by
  cases h with
  | mark => exact .inl rfl
  | notifyAll => exact .inl rfl
  | free => cases hfreed
  | _ => exact .inr ⟨rfl, hclosed⟩

theorem Moves.working : next.working = thread.working ∨
    thread.working = true ∧ next.working = false ∧ q.isClosed = true ∧ q.tasks = [] := by
  cases h with
  | leave htasks hclosed => exact .inr ⟨rfl, rfl, hclosed, htasks⟩
  | _ => exact .inl rfl

theorem Moves.open (hopen : q.isClosed = false) : p.isClosed = false := by
  cases h with
  | mark => cases hopen
  | _ => exact hopen

end Moves

theorem Inv.locked_of_holds (h : p.Inv n) (hi : p.threads[i]? = some thread)
    (hholds : thread.holds = true) : p.locked = true := by
  have hcount := Threads.countP_eq hi PoolThread.holds
  have hholder := h.holder
  rw [hholds, if_pos rfl] at hcount
  rw [count, hcount] at hholder
  cases hlocked : p.locked with
  | true => rfl
  | false =>
    rw [hlocked, Bool.toNat_false] at hholder
    omega

theorem Inv.goTo (h : p.Inv n) (hfreed : p.freed = false) (hi : p.threads[i]? = some thread)
    (hmoves : p.Moves thread q next) : (q.goTo i next).Inv n := by
  have hcount := count_goTo (hmoves.getElem? hi) next
  have hworking := hcount PoolThread.working
  rw [hmoves.count_eq rfl] at hworking
  constructor
  · have hholds := hcount PoolThread.holds
    have hmoved := hmoves.holder (h.locked_of_holds hi)
    have hbefore := h.holder
    rw [hmoves.count_eq rfl] at hholds
    change _ = q.locked.toNat
    omega
  · exact hmoves.fifo (h.kept hfreed)
  · exact hmoves.kept (h.kept hfreed)
  · intro hwaiting
    change q.tasks.length ≤ _
    rcases hmoves.awake hwaiting hi with htasks | ⟨hbefore, hthreads, hdemand⟩
    · simp [htasks]
    · have hawake := h.awake hbefore
      have hready := hcount PoolThread.ready
      have hnotifying := hcount PoolThread.isNotifying
      simp only [count, hthreads] at hready hnotifying hawake ⊢
      omega
  · intro hclosed
    have hending := hcount PoolThread.isEnding
    rw [hmoves.count_eq rfl] at hending
    cases hafter : q.freed with
    | true => exact .inl hafter
    | false =>
      right
      rcases hmoves.closed hclosed hafter with hnext | ⟨hthread, hbefore⟩
      · have hpos : 0 < (q.goTo i next).threads.countP PoolThread.isEnding :=
          List.countP_pos_iff.mpr ⟨next, ?_, hnext⟩
        · exact hpos
        · exact Threads.mem_advance (hmoves.getElem? hi) |>.mpr (.inl rfl)
      · have hpos := (h.closed hbefore).resolve_left (by simp [hfreed])
        rw [hthread, Bool.toNat_false] at hending
        omega
  · have hbefore := h.bounded
    rcases hmoves.working with hsame | ⟨hthread, hnext, -, -⟩
    · rw [hsame] at hworking
      omega
    · rw [hthread, hnext, Bool.toNat_true, Bool.toNat_false] at hworking
      omega
  · intro hopen
    have hbefore := h.staffed (hmoves.open hopen)
    rcases hmoves.working with hsame | ⟨-, -, hclosed, -⟩
    · rw [hsame] at hworking
      omega
    · exact absurd (hclosed.symm.trans hopen) (by decide)

/-- A thread that starts a call is of no kind that the invariant counts. -/
theorem Inv.call (h : p.Inv n) {call : PoolThread τ}
    (hcall : ∀ kind ∈ [PoolThread.holds, PoolThread.isWaiting, PoolThread.ready,
      PoolThread.isNotifying, PoolThread.isEnding, PoolThread.working], kind call = false) :
    Inv n { p with threads := p.threads ++ [call] } := by
  have hcount : ∀ kind ∈ [PoolThread.holds, PoolThread.isWaiting, PoolThread.ready,
      PoolThread.isNotifying, PoolThread.isEnding, PoolThread.working],
      count { p with threads := p.threads ++ [call] } kind = p.count kind := by
    intro kind hkind
    simp [count, List.countP_append, hcall kind hkind]
  simp only [List.forall_mem_cons, List.not_mem_nil, IsEmpty.forall_iff, implies_true,
    and_true] at hcount
  obtain ⟨hholds, hwaiting, hready, hnotifying, hending, hworking⟩ := hcount
  constructor
  · rw [hholds]
    exact h.holder
  · exact h.fifo
  · exact h.kept
  · rw [hwaiting, hready, hnotifying]
    exact h.awake
  · rw [hending]
    exact h.closed
  · rw [hworking]
    exact h.bounded
  · rw [hworking]
    exact h.staffed

/-- A `notify_one` has a woken worker to show for it, so waking one makes up for it. -/
theorem Inv.wake (h : p.Inv n) {threads : List (PoolThread τ)} {j : ℕ}
    (hj : threads[j]? = some .waiting)
    (hsame : ∀ kind : PoolThread τ → Bool, kind .notifying = kind .returning →
      threads.countP kind = p.count kind)
    (hnotifying : p.count PoolThread.isNotifying ≤ threads.countP PoolThread.isNotifying + 1) :
    Inv n ({ p with threads := threads }.goTo j .locking) := by
  have hcount := count_goTo (p := { p with threads := threads }) hj .locking
  have hkeep : ∀ kind : PoolThread τ → Bool, kind .notifying = kind .returning →
      kind .waiting = kind .locking →
      count ({ p with threads := threads }.goTo j .locking) kind = p.count kind := by
    intro kind hkind hwoken
    exact (count_goTo_of_eq hj _ kind hwoken).trans (hsame kind hkind)
  have hasleep := (hcount PoolThread.isWaiting).trans (congrArg (· + 0) (hsame _ rfl))
  have hready := (hcount PoolThread.ready).trans (congrArg (· + 1) (hsame _ rfl))
  simp only [PoolThread.isWaiting, PoolThread.ready, Bool.toNat_true, Bool.toNat_false] at hasleep hready
  constructor
  · rw [hkeep _ rfl rfl]
    exact h.holder
  · exact h.fifo
  · exact h.kept
  · intro hwaiting
    have hawake := h.awake (by omega)
    have hleft : count _ PoolThread.isNotifying = threads.countP PoolThread.isNotifying :=
      hcount PoolThread.isNotifying
    change p.tasks.length ≤ _
    omega
  · rw [hkeep _ rfl rfl]
    exact h.closed
  · rw [hkeep _ rfl rfl]
    exact h.bounded
  · rw [hkeep _ rfl rfl]
    exact h.staffed

theorem Inv.step (h : p.Inv n) {a : Action τ} (hstep : p.step a = some p') : p'.Inv n := by
  cases acts_of_step hstep with
  | addTask task =>
    exact h.call (by simp [PoolThread.holds, PoolThread.isWaiting, PoolThread.ready,
      PoolThread.isNotifying, PoolThread.isEnding, PoolThread.working])
  | destroy =>
    exact h.call (by simp [PoolThread.holds, PoolThread.isWaiting, PoolThread.ready,
      PoolThread.isNotifying, PoolThread.isEnding, PoolThread.working])
  | next hi hmoves => exact h.goTo (act_of_step hstep).1 hi hmoves
  | notify hi hj =>
    apply h.wake hj
    · intro kind hkind
      exact count_goTo_of_eq hi _ kind hkind
    · exact Nat.le_of_eq (count_goTo hi .returning PoolThread.isNotifying).symm
  | wake hi => exact h.wake hi (fun _ _ => rfl) (Nat.le_succ _)

theorem inv_of_run {as : List (Action τ)} (hrun : Steps.run step (init n) as = some p) : p.Inv n :=
  Steps.invariant_of_run (fun _ _ _ h hstep => Inv.step h hstep) (init_inv n) hrun

theorem length_running_le (p : ThreadPool τ) : p.running.length ≤ p.count PoolThread.working := by
  rw [running, List.length_filterMap_eq_countP]
  apply List.countP_mono_left
  intro thread _ htask
  cases thread <;> first | rfl | cases htask

/-- In every interleaving of submissions, workers, spurious wake-ups and the destructor, up to the
end of the destructor, the tasks are started in the order of submission, each once, at most
`threadCount` of them at a time. Until the pool is freed, a task that is not started is queued, and
as long as a worker sleeps, every queued task has a worker of its own on the way to the queue, or its
`notify_one` is still to come. -/
theorem started_in_order (threadCount : ℕ) (as : List (Action τ)) (p : ThreadPool τ)
    (hrun : Steps.run step (init threadCount) as = some p) :
    p.started <+: p.submitted ∧ (p.freed = false → p.started ++ p.tasks = p.submitted) ∧
      p.running.length ≤ threadCount ∧
      (0 < p.count PoolThread.isWaiting →
        p.tasks.length ≤ p.count PoolThread.ready + p.count PoolThread.isNotifying) := by
  have hinv := inv_of_run hrun
  exact ⟨hinv.fifo, hinv.kept, Nat.le_trans (length_running_le p) hinv.bounded, hinv.awake⟩

/-- A worker goes to sleep, a task is submitted and its `notify_one` wakes the worker, which has the
task at the end. -/
def submission : List (Action ℕ) :=
  [.next 0, .next 0, .addTask 7, .next 2, .next 2, .notify 2 0, .next 2, .next 0, .next 0, .next 0]

theorem started_in_order_submission :
    ∃ p, Steps.run step (init 2) submission = some p ∧ p.started ++ p.tasks = p.submitted ∧
      p.running.length ≤ 2 := by
  have hopen : (Steps.run step (init 2) submission).map freed = some false := by decide
  obtain ⟨p, hrun, hfreed⟩ := Option.map_eq_some_iff.mp hopen
  obtain ⟨-, hkept, hrunning, -⟩ := started_in_order 2 submission p hrun
  exact ⟨p, hrun, hkept hfreed, hrunning⟩

/-- A bounded executor, on the queued tasks and those under way: what the event loop takes the pool
for. In the end it is gone, with the tasks that are queued. -/
inductive Executes (threadCount : ℕ) :
    Option (List τ × List τ) → Action τ → Option (List τ × List τ) → Prop where
  | stays {queue running running' : List τ} {a : Action τ} (hrunning : running'.Perm running) :
      Executes threadCount (some (queue, running)) a (some (queue, running'))
  | submits {queue running running' : List τ} {a : Action τ} (task : τ)
      (hrunning : running'.Perm running) :
      Executes threadCount (some (queue, running)) a (some (queue ++ [task], running'))
  | takes {queue running running' : List τ} {a : Action τ} {task : τ}
      (hroom : running.length < threadCount) (hrunning : running'.Perm (task :: running)) :
      Executes threadCount (some (task :: queue, running)) a (some (queue, running'))
  | finishes {queue running running' : List τ} {a : Action τ} {task : τ}
      (hrunning : running.Perm (task :: running')) :
      Executes threadCount (some (queue, running)) a (some (queue, running'))
  | ends {queue running : List τ} {a : Action τ} :
      Executes threadCount (some (queue, running)) a none

/-- The executor that the pool is, until it is freed. -/
def executor (p : ThreadPool τ) : Option (List τ × List τ) :=
  if p.freed then none else some (p.tasks, p.running)

theorem running_goTo (hi : p.threads[i]? = some thread) (next : PoolThread τ) :
    ∃ rest : List τ, p.running.Perm (thread.task?.toList ++ rest) ∧
      (p.goTo i next).running.Perm (next.task?.toList ++ rest) :=
  ⟨_, Threads.filterMap_perm hi _, Threads.filterMap_advance_perm hi (some next) _⟩

theorem running_goTo_of_eq (hi : p.threads[i]? = some thread) (next : PoolThread τ)
    (htask : thread.task? = next.task?) :
    (p.goTo i next).running.Perm p.running := by
  obtain ⟨rest, hbefore, hafter⟩ := running_goTo hi next
  rw [← htask] at hafter
  exact hafter.trans hbefore.symm

private theorem running_woken (p : ThreadPool τ) :
    running { p with threads := p.threads.map PoolThread.woken } = p.running := by
  rw [running, List.filterMap_map, running]
  apply List.filterMap_congr
  intro thread _
  cases thread <;> rfl

theorem Inv.length_running_lt (h : p.Inv n) (hi : p.threads[i]? = some .looping) :
    p.running.length < n := by
  have hothers : ((Threads.others p.threads i).filterMap PoolThread.task?).length ≤
      (Threads.others p.threads i).countP PoolThread.working :=
    length_running_le { p with threads := Threads.others p.threads i }
  have hrunning := (Threads.filterMap_perm hi PoolThread.task?).length_eq
  have hworking := Threads.countP_eq hi PoolThread.working
  have hbounded := h.bounded
  simp only [count, hworking, PoolThread.working, if_true] at hbounded
  rw [running, hrunning]
  simp only [PoolThread.task?, Option.toList_none, List.nil_append]
  omega

theorem Moves.executes (hmoves : p.Moves thread q next) (h : p.Inv n) (hfreed : p.freed = false)
    (hi : p.threads[i]? = some thread) (a : Action τ) :
    Executes n (some (p.tasks, p.running)) a (q.goTo i next).executor := by
  have hq := hmoves.getElem? hi
  have hexecutor : q.freed = false →
      (q.goTo i next).executor = some (q.tasks, (q.goTo i next).running) := by
    intro hopen
    exact if_neg (by simpa [goTo] using hopen)
  cases hmoves with
  | pop htasks =>
    obtain ⟨rest, hbefore, hafter⟩ := running_goTo hq (.popped _)
    rw [hexecutor hfreed, htasks]
    exact .takes (h.length_running_lt hi) (hafter.trans (hbefore.symm.cons _))
  | finish task =>
    obtain ⟨rest, hbefore, hafter⟩ := running_goTo hq .locking
    rw [hexecutor hfreed]
    exact .finishes (hbefore.trans (hafter.symm.cons _))
  | emplace task =>
    rw [hexecutor hfreed]
    exact .submits task (running_goTo_of_eq hq .notifying rfl)
  | notifyAll =>
    have hrunning := running_goTo_of_eq hq .freeing rfl
    rw [running_woken] at hrunning
    rw [hexecutor hfreed]
    exact .stays hrunning
  | free => exact .ends
  | _ =>
    rw [hexecutor hfreed]
    exact .stays (running_goTo_of_eq hq _ rfl)

theorem Inv.executes (h : p.Inv n) {a : Action τ} (hstep : p.step a = some p') :
    Executes n p.executor a p'.executor := by
  have hfreed := (act_of_step hstep).1
  have hsame : ∀ {q : ThreadPool τ}, q.freed = p.freed → q.tasks = p.tasks →
      q.running.Perm p.running → Executes n (some (p.tasks, p.running)) a q.executor := by
    intro q hsame htasks hrunning
    rw [executor, if_neg (by simp [hsame, hfreed]), htasks]
    exact .stays hrunning
  have hcall : ∀ call : PoolThread τ, call.task? = none →
      ((p.threads ++ [call]).filterMap PoolThread.task?).Perm p.running := by
    intro call hnone
    rw [List.filterMap_append, List.filterMap_cons_none hnone]
    exact List.Perm.of_eq (List.append_nil _)
  rw [executor, if_neg (by simp [hfreed])]
  cases acts_of_step hstep with
  | addTask task => exact hsame rfl rfl (hcall _ rfl)
  | destroy => exact hsame rfl rfl (hcall _ rfl)
  | next hi hmoves => exact hmoves.executes h hfreed hi _
  | notify hi hj =>
    have hnotified := running_goTo_of_eq hi .returning rfl
    have hwoken := running_goTo_of_eq hj .locking rfl
    exact hsame rfl rfl (hwoken.trans hnotified)
  | wake hi => exact hsame rfl rfl (running_goTo_of_eq hi .locking rfl)

/-- Until it is freed the pool refines the bounded executor: step by step, it queues a task behind the
others, takes the first one while fewer than `threadCount` are under way, or is done with one of
these. -/
theorem refines_executor (threadCount : ℕ) (as : List (Action τ)) (p : ThreadPool τ)
    (hrun : Steps.run step (init threadCount) as = some p) :
    Steps.Path (Executes threadCount) (some ([], [])) as p.executor := by
  have hrunning : (init threadCount : ThreadPool τ).running = [] := by
    rw [running, List.filterMap_eq_nil_iff]
    intro thread hmem
    rw [List.eq_of_mem_replicate hmem]
    rfl
  have hinit : (init threadCount : ThreadPool τ).executor = some ([], []) := by
    rw [executor, hrunning]
    rfl
  rw [← hinit]
  exact Steps.path_of_run (R := Executes threadCount) (f := executor)
    (fun _ _ _ h hstep => Inv.step h hstep) (fun _ _ _ h hstep => Inv.executes h hstep)
    (init_inv threadCount) hrun

theorem refines_executor_submission :
    ∃ p, Steps.run step (init 2) submission = some p ∧ p.executor = some ([], [7]) ∧
      Steps.Path (Executes 2) (some ([], [])) submission p.executor := by
  have hruns : (Steps.run step (init 2) submission).map executor = some (some ([], [7])) := by decide
  obtain ⟨p, hrun, hexecutor⟩ := Option.map_eq_some_iff.mp hruns
  exact ⟨p, hrun, hexecutor, refines_executor 2 submission p hrun⟩

/-- An upper bound for the steps that are left to the threads when no call starts and no wake-up is
spurious. -/
def rank (p : ThreadPool τ) : ℕ :=
  4 * p.tasks.length + Threads.total (PoolThread.weight p.threads.length) p.threads

/-- The threads' own steps: no new call, and no wake-up without a notification. -/
def Action.own : Action τ → Bool
  | .next _ | .notify _ _ => true
  | _ => false

private theorem total_woken (all : ℕ) (threads : List (PoolThread τ)) :
    Threads.total (PoolThread.weight all) (threads.map PoolThread.woken) ≤
      Threads.total (PoolThread.weight all) threads + 2 * threads.length := by
  induction threads with
  | nil => exact Nat.le_refl _
  | cons thread threads ih =>
    have hwoken : (PoolThread.woken thread).weight all ≤ thread.weight all + 2 := by
      cases thread <;> simp [PoolThread.woken, PoolThread.weight]
    simp only [List.map_cons, Threads.total, List.length_cons]
    omega

theorem total_goTo (hi : p.threads[i]? = some thread) (next : PoolThread τ) (all : ℕ) :
    Threads.total (PoolThread.weight all) (p.goTo i next).threads + thread.weight all =
      Threads.total (PoolThread.weight all) p.threads + next.weight all := by
  have hbefore := Threads.total_eq hi (PoolThread.weight all)
  have hafter := Threads.total_advance hi (some next) (PoolThread.weight all)
  simp only [Option.toList_some, Threads.total] at hafter
  simp only [goTo, hbefore, hafter]
  omega

theorem length_goTo (p : ThreadPool τ) (i : ℕ) (next : PoolThread τ) :
    (p.goTo i next).threads.length = p.threads.length := Threads.length_advance _ _ _

theorem Moves.rank_lt (h : p.Moves thread q next) (hi : p.threads[i]? = some thread) :
    (q.goTo i next).rank < p.rank := by
  have htotal := total_goTo (h.getElem? hi) next p.threads.length
  simp only [rank, length_goTo]
  change 4 * q.tasks.length + _ < _
  cases h with
  | notifyAll =>
    have hwoken := total_woken p.threads.length p.threads
    simp only [PoolThread.weight, List.length_map] at htotal ⊢
    omega
  | pop htasks =>
    simp only [PoolThread.weight, htasks, List.length_cons] at htotal ⊢
    omega
  | emplace task =>
    simp only [PoolThread.weight, List.length_append, List.length_singleton] at htotal ⊢
    omega
  | free =>
    simp only [PoolThread.weight, List.length_nil] at htotal ⊢
    omega
  | _ =>
    simp only [PoolThread.weight] at htotal ⊢
    omega

theorem rank_lt_of_step {a : Action τ} (hown : a.own = true) (hstep : p.step a = some p') :
    p'.rank < p.rank := by
  cases acts_of_step hstep with
  | next hi hmoves => exact hmoves.rank_lt hi
  | notify hi hj =>
    have hnotified := total_goTo hi .returning p.threads.length
    have hwoken := total_goTo hj .locking p.threads.length
    simp only [rank, length_goTo]
    simp only [PoolThread.weight] at hnotified hwoken
    change 4 * p.tasks.length + _ < _
    omega
  | _ => cases hown

/-- No thread can go on by itself. -/
def Resting (p : ThreadPool τ) : Prop := ∀ a : Action τ, a.own = true → p.step a = none

theorem Resting.act_eq_none (h : p.Resting) (hfreed : p.freed = false) {a : Action τ}
    (hown : a.own = true) : p.act a = none := by
  have hstep := h a hown
  rwa [step, if_neg (by simp [hfreed])] at hstep

theorem Resting.next_eq_none (h : p.Resting) (hfreed : p.freed = false)
    (hi : p.threads[i]? = some thread) : p.next i thread = none := by
  have hnext := h.act_eq_none hfreed (a := .next i) rfl
  rwa [act, hi] at hnext

theorem Resting.not_holds (h : p.Resting) (hfreed : p.freed = false)
    (hi : p.threads[i]? = some thread) : thread.holds = false := by
  have hnext := h.next_eq_none hfreed hi
  cases thread with
  | looping =>
    cases htasks : p.tasks with
    | nil => simp [ThreadPool.next, htasks] at hnext
    | cons task rest => simp [ThreadPool.next, htasks] at hnext
  | notifying =>
    cases hany : p.threads.any PoolThread.isWaiting with
    | false => simp [ThreadPool.next, hany] at hnext
    | true =>
      obtain ⟨sleeper, hmem, hwaiting⟩ := List.any_eq_true.mp hany
      obtain ⟨j, hj⟩ := List.mem_iff_getElem?.mp hmem
      have hnotify := h.act_eq_none hfreed (a := .notify i j) rfl
      cases sleeper with
      | waiting => simp [act, hi, hj] at hnotify
      | _ => cases hwaiting
  | popped | emplacing | returning | marking => cases hnext
  | _ => rfl

/-- When no thread can go on, each of them waits to be notified or is over. -/
theorem Inv.waiting_or_exited (h : p.Inv n) (hrest : p.Resting) (hfreed : p.freed = false)
    (hi : p.threads[i]? = some thread) : thread = .waiting ∨ thread = .exited := by
  have hfree : p.locked = false := by
    have hnone : p.count PoolThread.holds = 0 := by
      rw [count, List.countP_eq_zero]
      intro other hmem
      obtain ⟨j, hj⟩ := List.mem_iff_getElem?.mp hmem
      simp [hrest.not_holds hfreed hj]
    have hholder := h.holder
    rw [hnone] at hholder
    exact Bool.toNat_eq_zero.mp hholder.symm
  have hnext := hrest.next_eq_none hfreed hi
  have hholds := hrest.not_holds hfreed hi
  cases thread with
  | waiting => exact .inl rfl
  | exited => exact .inr rfl
  | locking | adding | closing => simp [ThreadPool.next, lock, hfree] at hnext
  | running | notifyingAll | freeing => cases hnext
  | _ => cases hholds

/-- A pool that rests is open, since the destructor of a closed one could go on. So it has all its
workers, and when all of them wait nothing is queued. -/
theorem Inv.drained (h : p.Inv n) (hn : 0 < n) (hrest : p.Resting) (hfreed : p.freed = false) :
    p.tasks = [] ∧ p.count PoolThread.isWaiting = n := by
  have hstands : ∀ thread ∈ p.threads, thread = .waiting ∨ thread = .exited := by
    intro thread hmem
    obtain ⟨i, hi⟩ := List.mem_iff_getElem?.mp hmem
    exact h.waiting_or_exited hrest hfreed hi
  have hnone : ∀ kind : PoolThread τ → Bool, kind .waiting = false → kind .exited = false →
      p.count kind = 0 := by
    intro kind hwaiting hexited
    rw [count, List.countP_eq_zero]
    intro thread hmem
    rcases hstands thread hmem with rfl | rfl
    · simp [hwaiting]
    · simp [hexited]
  have hopen : p.isClosed = false := by
    have hending := hnone PoolThread.isEnding rfl rfl
    cases hclosed : p.isClosed with
    | false => rfl
    | true =>
      have hpos := (h.closed hclosed).resolve_left (by simp [hfreed])
      omega
  have hasleep : p.count PoolThread.isWaiting = n := by
    rw [← h.staffed hopen, count, count]
    apply List.countP_congr
    intro thread hmem
    rcases hstands thread hmem with rfl | rfl <;> rfl
  refine ⟨?_, hasleep⟩
  have hawake := h.awake (by omega)
  rw [hnone PoolThread.ready rfl rfl, hnone PoolThread.isNotifying rfl rfl] at hawake
  exact List.length_eq_zero_iff.mp (Nat.le_zero.mp hawake)

/-- From any state that a pool of at least one worker reaches, the threads can go on by themselves for
at most `rank` steps. They come to rest only when the destructor has freed the pool, or when every task
that was submitted has been started, in order, and all the workers are asleep. -/
theorem rests_only_when_drained (threadCount : ℕ) (hcount : 0 < threadCount)
    (as bs : List (Action τ)) (p q : ThreadPool τ)
    (hrun : Steps.run step (init threadCount) as = some p) (hown : ∀ b ∈ bs, b.own = true)
    (hgoOn : Steps.run step p bs = some q) :
    bs.length ≤ p.rank ∧
      (q.Resting → q.freed = true ∨
        q.started = q.submitted ∧ q.count PoolThread.isWaiting = threadCount) := by
  have hlength := Steps.length_add_rank_le (I := fun _ => True) (fun _ _ _ _ _ => trivial)
    (fun _ _ _ _ => rank_lt_of_step) trivial hown hgoOn
  have hboth : Steps.run step (init threadCount) (as ++ bs) = some q := by
    rw [Steps.run_append, hrun]
    exact hgoOn
  have hinv := inv_of_run hboth
  constructor
  · omega
  · intro hrest
    cases hfreed : q.freed with
    | true => exact .inl rfl
    | false =>
      obtain ⟨htasks, hasleep⟩ := hinv.drained hcount hrest hfreed
      have hkept := hinv.kept hfreed
      rw [htasks, List.append_nil] at hkept
      exact .inr ⟨hkept, hasleep⟩

/-- The worker with the task finishes it, and both workers find the queue empty. -/
def settling : List (Action ℕ) := [.next 0, .next 0, .next 0, .next 1, .next 1]

def settled : ThreadPool ℕ where
  threads := [.waiting, .waiting, .exited]
  submitted := [7]
  started := [7]

theorem settled_resting : settled.Resting := by
  intro a hown
  cases a with
  | next i =>
    match i with
    | 0 | 1 | 2 => rfl
    | i + 3 => rfl
  | notify i j =>
    match i with
    | 0 | 1 | 2 => rfl
    | i + 3 => rfl
  | _ => cases hown

theorem rests_only_when_drained_submission :
    ∃ p, Steps.run step (init 2) submission = some p ∧ settling.length ≤ p.rank ∧
      Steps.run step p settling = some settled ∧ settled.started = settled.submitted := by
  have henabled : (Steps.run step (init 2) submission).isSome := by decide
  obtain ⟨p, hrun⟩ := Option.isSome_iff_exists.mp henabled
  have hsettles : (Steps.run step (init 2) submission).bind (Steps.run step · settling) =
      some settled := rfl
  rw [hrun] at hsettles
  obtain ⟨hlength, hdrained⟩ := rests_only_when_drained 2 (by decide) submission settling p settled
    hrun (by decide) hsettles
  have hstarted := (hdrained settled_resting).resolve_left (by decide)
  exact ⟨p, hrun, hlength, hsettles, hstarted.1⟩

end ThreadPool
end TermChat
