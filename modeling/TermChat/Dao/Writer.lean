import TermChat.Dao.Scylla

/-! `AsyncMsgWriter`: the queue, and the worker thread with its retry loop, its callbacks and
its final drain. One step is one access to the shared state, one `InsertBatch` or one
callback. -/
namespace TermChat

/-- Where `WorkerLoop` stands. While the callbacks run, `batch_buffer` is split into the items
whose callback has been run and the others. -/
inductive Worker (ι : Type) where
  | test
  | dequeue
  | persist (batch : List ι) (retryCount : ℕ)
  | notify (notified todo : List ι) (success : Bool)
  | drainTest
  | drainDequeue
  | drainPersist (batch : List ι)
  | drainNotify (notified todo : List ι) (success : Bool)
  | stopped
  deriving DecidableEq

structure AsyncMsgWriter (ι : Type) where
  queue : List ι
  running : Bool
  worker : Worker ι

namespace AsyncMsgWriter

variable {ι : Type}

def kBatchSize : ℕ := 100

def kMaxRetries : ℕ := 3

def init : AsyncMsgWriter ι := ⟨[], true, .test⟩

def enqueue (w : AsyncMsgWriter ι) (item : ι) : AsyncMsgWriter ι :=
  { w with queue := w.queue ++ [item] }

def stop (w : AsyncMsgWriter ι) : AsyncMsgWriter ι := { w with running := false }

def batch (w : AsyncMsgWriter ι) : List ι :=
  match w.worker with
  | .persist batch _ | .drainPersist batch => batch
  | .notify notified todo _ | .drainNotify notified todo _ => notified ++ todo
  | _ => []

/-- What the next step of the worker gives to `InsertBatch`. -/
def persisting (w : AsyncMsgWriter ι) : List ι :=
  match w.worker with
  | .persist batch _ | .drainPersist batch => batch
  | _ => []

/-- The batch for which no further `InsertBatch` will be tried. -/
def reported (w : AsyncMsgWriter ι) : List ι :=
  match w.worker with
  | .notify notified todo _ | .drainNotify notified todo _ => notified ++ todo
  | _ => []

/-- The callback that the next step of the worker runs, and with which result. -/
def callback (w : AsyncMsgWriter ι) : Option (ι × Bool) :=
  match w.worker with
  | .notify _ (item :: _) success | .drainNotify _ (item :: _) success => some (item, success)
  | _ => none

/-- The next step is the last `InsertBatch` for the batch: the last retry, or the drain. -/
def lastAttempt (w : AsyncMsgWriter ι) : Bool :=
  match w.worker with
  | .persist _ retryCount => decide (kMaxRetries < retryCount + 1)
  | .drainPersist _ => true
  | _ => false

/-- The next step of the worker; `inserted` is what `InsertBatch` returns, if it is called. -/
def work (w : AsyncMsgWriter ι) (inserted : Bool) : AsyncMsgWriter ι :=
  match w.worker with
  | .test => { w with worker := if w.running then .dequeue else .drainTest }
  | .dequeue =>
    { w with
      queue := w.queue.drop kBatchSize
      worker := if w.queue.isEmpty then .test else .persist (w.queue.take kBatchSize) 0 }
  | .persist batch retryCount =>
    { w with
      worker :=
        if inserted then .notify [] batch true
        else if kMaxRetries < retryCount + 1 then .notify [] batch false
        else .persist batch (retryCount + 1) }
  | .notify notified (item :: todo) success =>
    { w with worker := .notify (notified ++ [item]) todo success }
  | .notify _ [] _ => { w with worker := .test }
  | .drainTest => { w with worker := if w.queue.isEmpty then .stopped else .drainDequeue }
  | .drainDequeue =>
    { w with
      queue := w.queue.drop kBatchSize
      worker := if w.queue.isEmpty then .drainTest else .drainPersist (w.queue.take kBatchSize) }
  | .drainPersist batch => { w with worker := .drainNotify [] batch inserted }
  | .drainNotify notified (item :: todo) success =>
    { w with worker := .drainNotify (notified ++ [item]) todo success }
  | .drainNotify _ [] _ => { w with worker := .drainTest }
  | .stopped => w

/-- The items that the writer has not let go of, oldest first. -/
def items (w : AsyncMsgWriter ι) : List ι := w.batch ++ w.queue

variable (w : AsyncMsgWriter ι)

@[simp] theorem items_enqueue (item : ι) : (w.enqueue item).items = w.items ++ [item] :=
  (List.append_assoc w.batch w.queue [item]).symm

/-- A step of the worker keeps the items and their order, or lets go of a reported batch. -/
theorem items_work (inserted : Bool) :
    (w.work inserted).items = w.items ∨ w.items = w.reported ++ (w.work inserted).items := by
  obtain ⟨queue, running, worker⟩ := w
  cases worker with
  | test => cases running <;> exact .inl rfl
  | drainTest => cases queue <;> exact .inl rfl
  | dequeue | drainDequeue =>
    left
    cases queue with
    | nil => rfl
    | cons x xs => exact List.take_append_drop kBatchSize (x :: xs)
  | persist batch retryCount =>
    left
    simp only [work]
    split_ifs <;> rfl
  | drainPersist batch => exact .inl rfl
  | notify notified todo success | drainNotify notified todo success =>
    cases todo with
    | nil => exact .inr rfl
    | cons x xs => left; simp [work, items, batch]
  | stopped => exact .inl rfl

theorem mem_reported_of_callback {item : ι} {success : Bool}
    (h : w.callback = some (item, success)) : item ∈ w.reported := by
  obtain ⟨queue, running, worker⟩ := w
  cases worker with
  | notify notified todo s | drainNotify notified todo s =>
    cases todo with
    | nil => cases h
    | cons x xs =>
      cases h
      exact List.mem_append_right notified List.mem_cons_self
  | _ => cases h

/-- A successful `InsertBatch` is the end of a batch, and a batch comes out of the queue. -/
theorem queue_work : (w.work true).persisting ++ (w.work true).queue = w.queue := by
  obtain ⟨queue, running, worker⟩ := w
  cases worker with
  | test => cases running <;> rfl
  | drainTest => cases queue <;> rfl
  | dequeue | drainDequeue =>
    cases queue with
    | nil => rfl
    | cons x xs => exact List.take_append_drop kBatchSize (x :: xs)
  | notify notified todo success | drainNotify notified todo success => cases todo <;> rfl
  | persist batch retryCount => rfl
  | drainPersist batch => rfl
  | stopped => rfl

/-- The batch that is inserted comes before all other items. -/
theorem persisting_isPrefix : w.persisting <+: w.items := by
  obtain ⟨queue, running, worker⟩ := w
  cases worker with
  | persist batch retryCount => exact List.prefix_append batch queue
  | drainPersist batch => exact List.prefix_append batch queue
  | _ => exact List.nil_prefix

theorem items_work_suffix (inserted : Bool) : (w.work inserted).items <:+ w.items := by
  cases w.items_work inserted with
  | inl heq => exact ⟨[], heq⟩
  | inr heq => exact ⟨w.reported, heq.symm⟩

theorem reported_subset {x : ι} (h : x ∈ w.reported) : x ∈ w.items := by
  apply List.mem_append_left
  obtain ⟨queue, running, worker⟩ := w
  cases worker with
  | notify notified todo success => exact h
  | drainNotify notified todo success => exact h
  | _ => cases h

/-- A batch is reported after an `InsertBatch` that succeeded or was its last. -/
theorem reported_work (inserted : Bool) {x : ι} (h : x ∈ (w.work inserted).reported) :
    x ∈ w.reported ∨ x ∈ w.persisting ∧ (inserted = true ∨ w.lastAttempt = true) := by
  obtain ⟨queue, running, worker⟩ := w
  cases worker with
  | test => cases running <;> cases h
  | drainTest => cases queue <;> cases h
  | dequeue | drainDequeue => cases queue <;> cases h
  | persist batch retryCount =>
    right
    simp only [work] at h
    split_ifs at h with hins hlast
    · exact ⟨h, .inl hins⟩
    · exact ⟨h, .inr (decide_eq_true hlast)⟩
    · cases h
  | drainPersist batch => exact .inr ⟨h, .inr rfl⟩
  | notify notified todo success | drainNotify notified todo success =>
    cases todo with
    | nil => cases h
    | cons x xs => left; simpa [work, reported] using h
  | stopped => cases h

end AsyncMsgWriter
end TermChat
