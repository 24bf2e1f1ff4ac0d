import TermChat.Base.Steps
import TermChat.Base.Threads
import TermChat.Dao.Writer
import Mathlib.Data.Int.Notation
import Mathlib.Data.List.Nodup

/-! `AsyncMsgWriter` with any number of `Enqueue` calls under way: the counter, `dequeue_bulk` value
by value, and records of the `InsertBatch` calls and of the callbacks. The queue holds the values
that are linked and not dequeued. -/
namespace TermChat

/-- A message and whether it came with a callback. `call` numbers the `Enqueue` calls. -/
structure QueueItem (μ : Type) where
  call : ℕ
  msg : μ
  hasCallback : Bool
  deriving DecidableEq

namespace WriterRun

/-- Where `WorkerLoop` stands, before (`drain = false`) or after `running_` was seen false. -/
inductive Loop (ι : Type) where
  | test (drain : Bool)
  | dequeue (drain : Bool) (batch : List ι)
  | subtract (drain : Bool) (batch : List ι)
  | persist (drain : Bool) (batch : List ι) (retryCount : ℕ)
  | notify (drain : Bool) (notified todo : List ι) (success : Bool)
  | stopped
  deriving DecidableEq

structure InsertCall (μ : Type) where
  batch : List (QueueItem μ)
  drain : Bool
  result : Bool

end WriterRun

/-- `entering` are the `Enqueue` calls that have counted their item and not queued it. `enqueued`,
`inserts` and `reports` record the queued items, the `InsertBatch` calls and the items that
`NotifyCallbacks` has passed; `beforeStop` is how many items were queued when `Stop` took effect. -/
structure WriterRun (μ : Type) where
  queue : List (QueueItem μ)
  running : Bool
  queuedItems : ℤ
  loop : WriterRun.Loop (QueueItem μ)
  entering : List (QueueItem μ)
  calls : ℕ
  enqueued : List (QueueItem μ)
  inserts : List (WriterRun.InsertCall μ)
  reports : List (QueueItem μ × Bool)
  beforeStop : Option ℕ

namespace WriterRun
open AsyncMsgWriter (kBatchSize kMaxRetries)

variable {μ : Type}

def init : WriterRun μ :=
  { queue := []
    running := true
    queuedItems := 0
    loop := .test false
    entering := []
    calls := 0
    enqueued := []
    inserts := []
    reports := []
    beforeStop := none }

inductive Action (μ : Type) where
  | enqueue (msg : μ) (hasCallback : Bool)
  | link (i : ℕ)
  | stop
  | work (inserted : Bool)

/-- `Enqueue` up to its `fetch_add`. -/
def enqueue (s : WriterRun μ) (msg : μ) (hasCallback : Bool) : WriterRun μ :=
  { s with
    queuedItems := s.queuedItems + 1
    entering := s.entering ++ [⟨s.calls, msg, hasCallback⟩]
    calls := s.calls + 1 }

/-- The rest of the call `i` of those under way. -/
def link (s : WriterRun μ) (i : ℕ) : Option (WriterRun μ) :=
  match s.entering[i]? with
  | none => none
  | some item =>
    some { s with
      entering := Threads.others s.entering i
      queue := s.queue ++ [item]
      enqueued := s.enqueued ++ [item] }

/-- `Stop`; a second call has no effect. -/
def stop (s : WriterRun μ) : WriterRun μ :=
  if s.running then { s with running := false, beforeStop := some s.enqueued.length } else s

/-- The next step of the worker; `inserted` is what `InsertBatch` returns, if it is called. -/
def work (s : WriterRun μ) (inserted : Bool) : Option (WriterRun μ) :=
  match s.loop with
  | .test false => some { s with loop := if s.running then .dequeue false [] else .test true }
  | .test true => some { s with loop := if s.queue.isEmpty then .stopped else .dequeue true [] }
  | .dequeue drain batch =>
    match s.queue with
    | [] => some { s with loop := if batch.isEmpty then .test drain else .subtract drain batch }
    | item :: queue =>
      if batch.length < kBatchSize then
        some { s with queue := queue, loop := .dequeue drain (batch ++ [item]) }
      else some { s with loop := .subtract drain batch }
  | .subtract drain batch =>
    some { s with queuedItems := s.queuedItems - batch.length, loop := .persist drain batch 0 }
  | .persist drain batch retryCount =>
    some { s with
      inserts := s.inserts ++ [⟨batch, drain, inserted⟩]
      loop :=
        if inserted ∨ drain ∨ kMaxRetries < retryCount + 1 then .notify drain [] batch inserted
        else .persist drain batch (retryCount + 1) }
  | .notify drain notified (item :: todo) success =>
    some { s with
      reports := s.reports ++ [(item, success)]
      loop := .notify drain (notified ++ [item]) todo success }
  | .notify drain _ [] _ => some { s with loop := .test drain }
  | .stopped => none

def step (s : WriterRun μ) : Action μ → Option (WriterRun μ)
  | .enqueue msg hasCallback => some (s.enqueue msg hasCallback)
  | .link i => s.link i
  | .stop => some s.stop
  | .work inserted => s.work inserted

def callbacks (s : WriterRun μ) : List (QueueItem μ × Bool) := s.reports.filter (·.1.hasCallback)

/-! What the worker holds. -/

namespace Loop

variable {ι : Type}

/-- The items out of the queue and not passed by `NotifyCallbacks`. -/
def todo : Loop ι → List ι
  | .dequeue _ batch | .subtract _ batch | .persist _ batch _ => batch
  | .notify _ _ todo _ => todo
  | .test _ | .stopped => []

/-- The items out of the queue that `queued_items_` still counts. -/
def counted : Loop ι → List ι
  | .dequeue _ batch | .subtract _ batch => batch
  | _ => []

/-- What `NotifyCallbacks` has still to report. -/
def unreported : Loop ι → List (ι × Bool)
  | .notify _ _ todo success => todo.map fun x => (x, success)
  | _ => []

def drains : Loop ι → Bool
  | .test drain | .dequeue drain _ | .subtract drain _ | .persist drain _ _ | .notify drain _ _ _ =>
    drain
  | .stopped => true

/-- How often `InsertBatch` may be called for a batch. -/
def maxCalls (drain : Bool) : ℕ := if drain then 1 else kMaxRetries + 1

/-- Batches are not empty and not too large, and a call is left for the one that is inserted. -/
def Proper : Loop ι → Prop
  | .dequeue _ batch => batch.length ≤ kBatchSize
  | .subtract _ batch => batch ≠ [] ∧ batch.length ≤ kBatchSize
  | .persist drain batch retryCount =>
    batch ≠ [] ∧ batch.length ≤ kBatchSize ∧ retryCount < maxCalls drain
  | _ => True

end Loop

/-- The failed calls for the batch that is being inserted. -/
def Loop.attempts : Loop (QueueItem μ) → List (InsertCall μ)
  | .persist drain batch retryCount => List.replicate retryCount ⟨batch, drain, false⟩
  | _ => []

def Loop.held (loop : Loop (QueueItem μ)) :=
  (loop.todo, loop.counted, loop.attempts, loop.unreported)

/-- A batch with the results of its `InsertBatch` calls. -/
structure Batch (μ : Type) where
  items : List (QueueItem μ)
  drain : Bool
  results : List Bool

namespace Batch

def calls (b : Batch μ) : List (InsertCall μ) := b.results.map fun r => ⟨b.items, b.drain, r⟩

def reports (b : Batch μ) : List (QueueItem μ × Bool) :=
  b.items.map fun x => (x, b.results.contains true)

/-- At most four calls, or one in the final drain. -/
structure Bounded (b : Batch μ) : Prop where
  items : b.items.length ≤ kBatchSize
  results : b.results.length ≤ Loop.maxCalls b.drain

end Batch

/-- The items are numbered and kept in order, the counter counts them, the `InsertBatch` calls come
batch by batch, and the worker leaves nothing behind that was queued before `Stop`. -/
structure Inv (s : WriterRun μ) : Prop where
  calls : ((s.entering ++ s.enqueued).map QueueItem.call).Perm (List.range s.calls)
  items : s.enqueued = s.reports.map Prod.fst ++ s.loop.todo ++ s.queue
  counter : s.queuedItems = s.entering.length + s.loop.counted.length + s.queue.length
  proper : s.loop.Proper
  batches : ∃ batches : List (Batch μ), (∀ b ∈ batches, b.Bounded) ∧
    s.inserts = batches.flatMap Batch.calls ++ s.loop.attempts ∧
    s.reports ++ s.loop.unreported = batches.flatMap Batch.reports
  running : s.running = s.beforeStop.isNone
  drains : s.loop.drains = true → s.running = false
  beforeStop : ∀ n, s.beforeStop = some n → n ≤ s.enqueued.length
  stopped : s.loop = .stopped → ∀ n, s.beforeStop = some n → n ≤ s.reports.length

theorem init_inv : (init : WriterRun μ).Inv where
  calls := List.Perm.refl _
  items := rfl
  counter := rfl
  proper := trivial
  batches := ⟨[], by simp, rfl, rfl⟩
  running := rfl
  drains h := by cases h
  beforeStop n h := by cases h
  stopped h := by cases h

variable {s t : WriterRun μ}

inductive Works (s : WriterRun μ) (inserted : Bool) : WriterRun μ → Prop where
  | loop (hl : s.loop = .test false) (hrun : s.running = true) :
      Works s inserted { s with loop := .dequeue false [] }
  | leave (hl : s.loop = .test false) (hrun : s.running = false) :
      Works s inserted { s with loop := .test true }
  | drain (hl : s.loop = .test true) (hne : s.queue ≠ []) :
      Works s inserted { s with loop := .dequeue true [] }
  | finish (hl : s.loop = .test true) (hnil : s.queue = []) :
      Works s inserted { s with loop := .stopped }
  | nothing (drain : Bool) (hl : s.loop = .dequeue drain []) (hnil : s.queue = []) :
      Works s inserted { s with loop := .test drain }
  | dequeue (drain : Bool) (batch queue : List (QueueItem μ)) (item : QueueItem μ)
      (hl : s.loop = .dequeue drain batch) (hq : s.queue = item :: queue)
      (hlt : batch.length < kBatchSize) :
      Works s inserted { s with queue := queue, loop := .dequeue drain (batch ++ [item]) }
  | full (drain : Bool) (batch : List (QueueItem μ)) (hl : s.loop = .dequeue drain batch)
      (hne : batch ≠ []) (hend : s.queue = [] ∨ kBatchSize ≤ batch.length) :
      Works s inserted { s with loop := .subtract drain batch }
  | subtract (drain : Bool) (batch : List (QueueItem μ)) (hl : s.loop = .subtract drain batch) :
      Works s inserted
        { s with queuedItems := s.queuedItems - batch.length, loop := .persist drain batch 0 }
  | retry (batch : List (QueueItem μ)) (retryCount : ℕ)
      (hl : s.loop = .persist false batch retryCount) (hfailed : inserted = false)
      (hmore : retryCount + 1 ≤ kMaxRetries) :
      Works s inserted { s with
        inserts := s.inserts ++ [⟨batch, false, false⟩]
        loop := .persist false batch (retryCount + 1) }
  | persisted (drain : Bool) (batch : List (QueueItem μ)) (retryCount : ℕ)
      (hl : s.loop = .persist drain batch retryCount)
      (hlast : inserted = true ∨ drain = true ∨ kMaxRetries < retryCount + 1) :
      Works s inserted { s with
        inserts := s.inserts ++ [⟨batch, drain, inserted⟩]
        loop := .notify drain [] batch inserted }
  | notify (drain : Bool) (notified todo : List (QueueItem μ)) (item : QueueItem μ) (success : Bool)
      (hl : s.loop = .notify drain notified (item :: todo) success) :
      Works s inserted { s with
        reports := s.reports ++ [(item, success)]
        loop := .notify drain (notified ++ [item]) todo success }
  | clear (drain : Bool) (notified : List (QueueItem μ)) (success : Bool)
      (hl : s.loop = .notify drain notified [] success) :
      Works s inserted { s with loop := .test drain }

/-- Where `dequeue_bulk` stands, the queue and the size of the batch decide. -/
theorem works_of_dequeue {drain inserted : Bool} {batch : List (QueueItem μ)}
    (hl : s.loop = .dequeue drain batch) (ht : s.work inserted = some t) : Works s inserted t := by
  unfold work at ht
  rw [hl] at ht
  cases hq : s.queue with
  | nil =>
    rw [hq] at ht
    cases ht
    rw [← hq]
    split_ifs with hb
    · obtain rfl := List.isEmpty_iff.mp hb
      exact .nothing drain hl hq
    · exact .full drain batch hl (fun hnil => hb (List.isEmpty_iff.mpr hnil)) (.inl hq)
  | cons item queue =>
    rw [hq] at ht
    dsimp only at ht
    split_ifs at ht with hlt
    · cases ht
      exact .dequeue drain batch queue item hl hq hlt
    · cases ht
      rw [← hq]
      have hle : kBatchSize ≤ batch.length := Nat.le_of_not_lt hlt
      have hne : batch ≠ [] := by
        rintro rfl
        exact hlt (show 0 < kBatchSize by decide)
      exact .full drain batch hl hne (.inr hle)

theorem works_of_work {inserted : Bool} (ht : s.work inserted = some t) : Works s inserted t := by
  cases hl : s.loop with
  | dequeue drain batch => exact works_of_dequeue hl ht
  | test drain =>
    simp only [work, hl] at ht
    cases drain with
    | false =>
      cases ht
      split_ifs with hrun
      · exact .loop hl hrun
      · exact .leave hl (Bool.eq_false_iff.mpr hrun)
    | true =>
      cases ht
      split_ifs with hq
      · exact .finish hl (List.isEmpty_iff.mp hq)
      · exact .drain hl fun hnil => hq (List.isEmpty_iff.mpr hnil)
  | subtract drain batch =>
    simp only [work, hl] at ht
    cases ht
    exact .subtract drain batch hl
  | persist drain batch retryCount =>
    simp only [work, hl] at ht
    cases ht
    split_ifs with hlast
    · exact .persisted drain batch retryCount hl hlast
    · rw [not_or, not_or] at hlast
      obtain ⟨hfailed, hdrain, hmore⟩ := hlast
      obtain rfl : inserted = false := Bool.eq_false_iff.mpr hfailed
      obtain rfl : drain = false := Bool.eq_false_iff.mpr hdrain
      exact .retry batch retryCount hl rfl (Nat.le_of_not_lt hmore)
  | notify drain notified todo success =>
    cases todo with
    | nil =>
      simp only [work, hl] at ht
      cases ht
      exact .clear drain notified success hl
    | cons item todo =>
      simp only [work, hl] at ht
      cases ht
      exact .notify drain notified todo item success hl
  | stopped =>
    simp only [work, hl] at ht
    cases ht

namespace Inv

variable (h : s.Inv)
include h

theorem enqueue (msg : μ) (hasCallback : Bool) : (s.enqueue msg hasCallback).Inv where
  __ := h
  calls := by
    let item : QueueItem μ := ⟨s.calls, msg, hasCallback⟩
    show ((s.entering ++ [item] ++ s.enqueued).map QueueItem.call).Perm (List.range (s.calls + 1))
    have hmove : (s.entering ++ [item] ++ s.enqueued).Perm
        (s.entering ++ s.enqueued ++ [item]) := by
      rw [List.append_assoc, List.append_assoc]
      exact List.perm_append_comm.append_left s.entering
    rw [List.range_succ]
    refine (hmove.map QueueItem.call).trans ?_
    rw [List.map_append]
    exact h.calls.append_right _
  counter := by
    have hcount := h.counter
    simp only [WriterRun.enqueue, List.length_append, List.length_singleton]
    omega

theorem link {i : ℕ} (ht : s.link i = some t) : t.Inv := by
  unfold WriterRun.link at ht
  cases hi : s.entering[i]? with
  | none =>
    rw [hi] at ht
    cases ht
  | some item =>
    rw [hi] at ht
    cases ht
    have hperm := Threads.perm_cons_others hi
    exact
      { h with
        calls := by
          have hmove : (Threads.others s.entering i ++ (s.enqueued ++ [item])).Perm
              (s.entering ++ s.enqueued) := by
            rw [← List.append_assoc]
            refine (List.perm_append_singleton item _).trans ?_
            exact (hperm.append_right s.enqueued).symm
          exact (hmove.map QueueItem.call).trans h.calls
        items := by
          show s.enqueued ++ [item] = _
          rw [h.items]
          simp
        counter := by
          have hcount := h.counter
          have hlen := hperm.length_eq
          simp only [List.length_append, List.length_cons, List.length_nil] at hlen ⊢
          omega
        beforeStop := fun n hn => by
          have hle := h.beforeStop n hn
          simp only [List.length_append, List.length_singleton]
          omega }

theorem stop : s.stop.Inv := by
  unfold WriterRun.stop
  split_ifs with hrun
  · have hloop : s.loop.drains ≠ true := fun hd => by
      rw [h.drains hd] at hrun
      cases hrun
    exact
      { h with
        running := rfl
        drains := fun _ => rfl
        beforeStop := fun n hn => by
          cases hn
          exact Nat.le_refl _
        stopped := fun hs => by
          have hs : s.loop = .stopped := hs
          rw [hs] at hloop
          exact absurd rfl hloop }
  · exact h

theorem items_of {loop : Loop (QueueItem μ)} (hl : s.loop = loop) :
    s.enqueued = s.reports.map Prod.fst ++ loop.todo ++ s.queue :=
  hl ▸ h.items

theorem counter_of {loop : Loop (QueueItem μ)} (hl : s.loop = loop) :
    s.queuedItems = s.entering.length + loop.counted.length + s.queue.length :=
  hl ▸ h.counter

theorem batches_of {loop : Loop (QueueItem μ)} (hl : s.loop = loop) :
    ∃ batches : List (Batch μ), (∀ b ∈ batches, b.Bounded) ∧
      s.inserts = batches.flatMap Batch.calls ++ loop.attempts ∧
      s.reports ++ loop.unreported = batches.flatMap Batch.reports :=
  hl ▸ h.batches

theorem proper_of {loop : Loop (QueueItem μ)} (hl : s.loop = loop) : loop.Proper :=
  hl ▸ h.proper

theorem drains_of {loop : Loop (QueueItem μ)} (hl : s.loop = loop) (hd : loop.drains = true) :
    s.running = false :=
  h.drains (by rw [hl]; exact hd)

theorem goto {loop loop' : Loop (QueueItem μ)} (hl : s.loop = loop) (hheld : loop'.held = loop.held)
    (hproper : loop'.Proper) (hdrains : loop'.drains = true → s.running = false)
    (hstopped : loop' = .stopped → loop.todo = [] ∧ s.queue = []) :
    { s with loop := loop' }.Inv := by
  subst hl
  simp only [Loop.held, Prod.mk.injEq] at hheld
  obtain ⟨htodo, hcounted, hattempts, hunreported⟩ := hheld
  exact
    { h with
      items := by rw [htodo]; exact h.items
      counter := by rw [hcounted]; exact h.counter
      proper := hproper
      batches := by rw [hattempts, hunreported]; exact h.batches
      drains := hdrains
      stopped := fun hs n hn => by
        obtain ⟨htodo, hqueue⟩ := hstopped hs
        have hitems := congrArg List.length h.items
        have hle := h.beforeStop n hn
        rw [htodo, hqueue] at hitems
        simp only [List.append_nil, List.length_map] at hitems
        show n ≤ s.reports.length
        omega }

theorem dequeue {drain : Bool} {batch queue : List (QueueItem μ)} {item : QueueItem μ}
    (hl : s.loop = .dequeue drain batch) (hq : s.queue = item :: queue)
    (hlt : batch.length < kBatchSize) :
    { s with queue := queue, loop := .dequeue drain (batch ++ [item]) }.Inv :=
  { h with
    items := by
      rw [h.items_of hl, hq]
      simp [Loop.todo]
    counter := by
      have hcount := h.counter_of hl
      rw [hq] at hcount
      simp only [Loop.counted, List.length_append, List.length_cons, List.length_nil] at hcount ⊢
      omega
    proper := by
      show (batch ++ [item]).length ≤ kBatchSize
      rw [List.length_append, List.length_singleton]
      exact hlt
    batches := (h.batches_of hl :)
    drains := fun hd => h.drains_of hl hd
    stopped := fun hs => by cases hs }

theorem subtract {drain : Bool} {batch : List (QueueItem μ)} (hl : s.loop = .subtract drain batch) :
    { s with queuedItems := s.queuedItems - batch.length, loop := .persist drain batch 0 }.Inv :=
  { h with
    items := (h.items_of hl :)
    counter := by
      have hcount := h.counter_of hl
      simp only [Loop.counted, List.length_nil] at hcount ⊢
      omega
    proper := by
      have hproper := h.proper_of hl
      refine ⟨hproper.1, hproper.2, ?_⟩
      cases drain <;> decide
    batches := (h.batches_of hl :)
    drains := fun hd => h.drains_of hl hd
    stopped := fun hs => by cases hs }

theorem retry {batch : List (QueueItem μ)} {retryCount : ℕ}
    (hl : s.loop = .persist false batch retryCount) (hmore : retryCount + 1 ≤ kMaxRetries) :
    { s with
      inserts := s.inserts ++ [InsertCall.mk batch false false]
      loop := .persist false batch (retryCount + 1) }.Inv :=
  { h with
    items := (h.items_of hl :)
    counter := (h.counter_of hl :)
    proper := by
      have hproper := h.proper_of hl
      refine ⟨hproper.1, hproper.2.1, ?_⟩
      show retryCount + 1 < kMaxRetries + 1
      omega
    batches := by
      obtain ⟨batches, hbounded, hinserts, hreports⟩ := h.batches_of hl
      refine ⟨batches, hbounded, ?_, hreports⟩
      rw [hinserts, Loop.attempts, Loop.attempts, List.replicate_succ', List.append_assoc]
    drains := fun hd => by cases hd
    stopped := fun hs => by cases hs }

theorem persisted {drain inserted : Bool} {batch : List (QueueItem μ)} {retryCount : ℕ}
    (hl : s.loop = .persist drain batch retryCount) :
    { s with
      inserts := s.inserts ++ [InsertCall.mk batch drain inserted]
      loop := .notify drain [] batch inserted }.Inv :=
  { h with
    items := (h.items_of hl :)
    counter := (h.counter_of hl :)
    proper := trivial
    batches := by
      have hproper := h.proper_of hl
      obtain ⟨batches, hbounded, hinserts, hreports⟩ := h.batches_of hl
      let b : Batch μ := ⟨batch, drain, List.replicate retryCount false ++ [inserted]⟩
      have hcalls : b.calls = List.replicate retryCount ⟨batch, drain, false⟩ ++
          [⟨batch, drain, inserted⟩] := by
        simp [b, Batch.calls]
      have hresult : b.reports = batch.map fun x => (x, inserted) := by
        simp [b, Batch.reports]
      refine ⟨batches ++ [b], ?_, ?_, ?_⟩
      · intro b' hb'
        rcases List.mem_append.mp hb' with hb' | hb'
        · exact hbounded b' hb'
        · rw [List.mem_singleton.mp hb']
          refine ⟨hproper.2.1, ?_⟩
          have hcall : retryCount < Loop.maxCalls drain := hproper.2.2
          show (List.replicate retryCount false ++ [inserted]).length ≤ Loop.maxCalls drain
          rw [List.length_append, List.length_replicate, List.length_singleton]
          exact hcall
      · rw [List.flatMap_append, List.flatMap_singleton, hcalls, hinserts]
        simp [Loop.attempts]
      · rw [List.flatMap_append, List.flatMap_singleton, hresult, ← hreports]
        simp [Loop.unreported]
    drains := fun hd => h.drains_of hl hd
    stopped := fun hs => by cases hs }

theorem notify {drain success : Bool} {notified todo : List (QueueItem μ)} {item : QueueItem μ}
    (hl : s.loop = .notify drain notified (item :: todo) success) :
    { s with
      reports := s.reports ++ [(item, success)]
      loop := .notify drain (notified ++ [item]) todo success }.Inv :=
  { h with
    items := by
      rw [h.items_of hl]
      simp [Loop.todo]
    counter := (h.counter_of hl :)
    proper := trivial
    batches := by
      obtain ⟨batches, hbounded, hinserts, hreports⟩ := h.batches_of hl
      refine ⟨batches, hbounded, hinserts, ?_⟩
      rw [← hreports]
      simp [Loop.unreported]
    drains := fun hd => h.drains_of hl hd
    stopped := fun hs => by cases hs }

theorem works {inserted : Bool} (hw : Works s inserted t) : t.Inv := by
  cases hw with
  | loop hl hrun =>
    exact h.goto hl rfl (Nat.zero_le _) (fun hd => by cases hd) (fun hs => by cases hs)
  | leave hl hrun => exact h.goto hl rfl trivial (fun _ => hrun) (fun hs => by cases hs)
  | drain hl hne =>
    exact h.goto hl rfl (Nat.zero_le _) (fun _ => h.drains_of hl rfl) (fun hs => by cases hs)
  | finish hl hnil => exact h.goto hl rfl trivial (fun _ => h.drains_of hl rfl) fun _ => ⟨rfl, hnil⟩
  | nothing drain hl hnil =>
    exact h.goto hl rfl trivial (fun hd => h.drains_of hl hd) (fun hs => by cases hs)
  | dequeue drain batch queue item hl hq hlt => exact h.dequeue hl hq hlt
  | full drain batch hl hne hend =>
    exact h.goto hl rfl ⟨hne, h.proper_of hl⟩ (fun hd => h.drains_of hl hd) (fun hs => by cases hs)
  | subtract drain batch hl => exact h.subtract hl
  | retry batch retryCount hl hfailed hmore => exact h.retry hl hmore
  | persisted drain batch retryCount hl hlast => exact h.persisted hl
  | notify drain notified todo item success hl => exact h.notify hl
  | clear drain notified success hl =>
    exact h.goto hl rfl trivial (fun hd => h.drains_of hl hd) (fun hs => by cases hs)

theorem step {a : Action μ} (ht : s.step a = some t) : t.Inv := by
  cases a with
  | enqueue msg hasCallback =>
    cases ht
    exact h.enqueue msg hasCallback
  | link i => exact h.link ht
  | stop =>
    cases ht
    exact h.stop
  | work inserted => exact h.works (works_of_work ht)

end Inv

theorem run_inv {as : List (Action μ)} (hr : Steps.run step init as = some s) : s.Inv :=
  Steps.invariant_of_run (fun _ _ _ h ht => h.step ht) init_inv hr

/-! The writer that takes a batch at once, which the services run, is what remains when the steps of
`dequeue_bulk` and of the counter are not told apart. -/

def Loop.toWorker {ι : Type} : Loop ι → Worker ι
  | .test drain => if drain then .drainTest else .test
  | .dequeue drain _ => if drain then .drainDequeue else .dequeue
  | .subtract drain batch => if drain then .drainPersist batch else .persist batch 0
  | .persist drain batch retryCount =>
    if drain then .drainPersist batch else .persist batch retryCount
  | .notify drain notified todo success =>
    if drain then .drainNotify notified todo success else .notify notified todo success
  | .stopped => .stopped

def Loop.taken {ι : Type} : Loop ι → List ι
  | .dequeue _ batch => batch
  | _ => []

def toWriter (s : WriterRun μ) : AsyncMsgWriter (QueueItem μ) :=
  ⟨s.loop.taken ++ s.queue, s.running, s.loop.toWorker⟩

/-- The end of `dequeue_bulk` is the step at which the other writer takes the batch. -/
theorem toWriter_full {drain inserted : Bool} {batch : List (QueueItem μ)}
    (hl : s.loop = .dequeue drain batch) (hle : batch.length ≤ kBatchSize) (hne : batch ≠ [])
    (hend : s.queue = [] ∨ kBatchSize ≤ batch.length) :
    { s with loop := .subtract drain batch }.toWriter = s.toWriter.work inserted := by
  have hempty : (batch ++ s.queue).isEmpty = false := by
    simp [hne]
  have hbatch : (batch ++ s.queue).take kBatchSize = batch := by
    rcases hend with hnil | hge
    · rw [hnil, List.append_nil, List.take_of_length_le hle]
    · rw [← Nat.le_antisymm hle hge, List.take_left]
  have hdrop : (batch ++ s.queue).drop kBatchSize = s.queue := by
    have hsplit := List.take_append_drop kBatchSize (batch ++ s.queue)
    rw [hbatch] at hsplit
    exact List.append_cancel_left hsplit
  cases drain <;>
    simp [toWriter, hl, Loop.toWorker, Loop.taken, AsyncMsgWriter.work, hempty, hdrop, hbatch]

theorem toWriter_works (h : s.Inv) {inserted : Bool} (hw : Works s inserted t) :
    t.toWriter = s.toWriter ∨ t.toWriter = s.toWriter.work inserted := by
  cases hw with
  | dequeue drain batch queue item hl hq hlt =>
    left
    simp [toWriter, hl, hq, Loop.toWorker, Loop.taken]
  | subtract drain batch hl =>
    left
    cases drain <;> simp [toWriter, hl, Loop.toWorker, Loop.taken]
  | full drain batch hl hne hend =>
    right
    exact toWriter_full hl (h.proper_of hl) hne hend
  | loop hl hrun | leave hl hrun =>
    right
    simp [toWriter, hl, hrun, Loop.toWorker, Loop.taken, AsyncMsgWriter.work]
  | drain hl hq | finish hl hq =>
    right
    simp [toWriter, hl, hq, Loop.toWorker, Loop.taken, AsyncMsgWriter.work]
  | nothing drain hl hnil =>
    right
    cases drain <;> simp [toWriter, hl, hnil, Loop.toWorker, Loop.taken, AsyncMsgWriter.work]
  | retry batch retryCount hl hfailed hmore =>
    right
    have hmore : ¬ kMaxRetries < retryCount + 1 := Nat.not_lt_of_le hmore
    simp [toWriter, hl, hfailed, hmore, Loop.toWorker, Loop.taken, AsyncMsgWriter.work]
  | persisted drain batch retryCount hl hlast =>
    right
    cases drain with
    | true => simp [toWriter, hl, Loop.toWorker, Loop.taken, AsyncMsgWriter.work]
    | false =>
      cases inserted with
      | true => simp [toWriter, hl, Loop.toWorker, Loop.taken, AsyncMsgWriter.work]
      | false =>
        have hlast : kMaxRetries < retryCount + 1 := by simpa using hlast
        simp [toWriter, hl, hlast, Loop.toWorker, Loop.taken, AsyncMsgWriter.work]
  | notify drain notified todo item success hl =>
    right
    cases drain <;> simp [toWriter, hl, Loop.toWorker, Loop.taken, AsyncMsgWriter.work]
  | clear drain notified success hl =>
    right
    cases drain <;> simp [toWriter, hl, Loop.toWorker, Loop.taken, AsyncMsgWriter.work]

/-- Every step is a step of the writer that takes a batch at once, or none. -/
theorem toWriter_step (h : s.Inv) {a : Action μ} (ht : s.step a = some t) :
    t.toWriter = s.toWriter ∨ (∃ item, t.toWriter = s.toWriter.enqueue item) ∨
      t.toWriter = s.toWriter.stop ∨ ∃ inserted, t.toWriter = s.toWriter.work inserted := by
  cases a with
  | enqueue msg hasCallback =>
    cases ht
    exact .inl rfl
  | link i =>
    simp only [step, link] at ht
    split at ht <;> cases ht
    exact .inr (.inl ⟨_, congrArg (AsyncMsgWriter.mk · _ _) (List.append_assoc _ _ _).symm⟩)
  | stop =>
    cases ht
    unfold stop
    split_ifs
    · exact .inr (.inr (.inl rfl))
    · exact .inl rfl
  | work inserted =>
    rcases toWriter_works h (works_of_work ht) with hsame | hwork
    · exact .inl hsame
    · exact .inr (.inr (.inr ⟨inserted, hwork⟩))

end WriterRun
end TermChat
