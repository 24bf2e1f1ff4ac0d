import TermChat.Core.MpscMemory
import TermChat.Dao.Callbacks

/-! `AsyncMsgWriter` over its queue in memory: `Enqueue` and `WorkerLoop` go on access by access, and
`dequeue` deletes nodes. -/
namespace TermChat

/-- `memory` is `queue_`. The worker reads it; `writer.queue` is a record of the items that were
linked and not dequeued, and no step depends on it. -/
structure HeapWriter (μ : Type) where
  writer : WriterRun μ
  memory : HeapQueue (QueueItem μ)

namespace HeapWriter
open AsyncMsgWriter (kBatchSize kMaxRetries)

variable {μ : Type}

def init (default : QueueItem μ) : HeapWriter μ := ⟨.init, .init default⟩

/-- `enqueue` is `Enqueue` up to its `fetch_add`, `newNode` and `produce` are the accesses of the call
`p` in `queue_.enqueue`, and `work` are those of the worker. -/
inductive Action (μ : Type) where
  | enqueue (msg : μ) (hasCallback : Bool)
  | newNode (p addr : ℕ)
  | produce (p : ℕ) (spurious : Bool)
  | stop
  | work (inserted : Bool)

def Action.isWork : Action μ → Bool
  | .work _ => true
  | _ => false

/-- The node for the item of call `p` is allocated at `addr`. -/
def newNode (s : HeapWriter μ) (p addr : ℕ) : Option (HeapWriter μ) :=
  match s.writer.entering.find? (·.call = p) with
  | none => none
  | some item => (s.memory.step (.enqueue p item) addr).map fun m => { s with memory := m }

/-- An access of call `p`; its exchange on a `next` pointer puts the item into the queue. -/
def produce (s : HeapWriter μ) (p : ℕ) (spurious : Bool) : Option (HeapWriter μ) :=
  match s.memory.step (.produce p spurious) 0 with
  | none => none
  | some m =>
    if s.memory.queue.linksNow p spurious then
      (s.writer.link (s.writer.entering.findIdx (·.call = p))).map fun w => ⟨w, m⟩
    else some { s with memory := m }

/-- `dequeue_bulk` with `batch` taken so far. -/
def dequeueBulk (s : HeapWriter μ) (drain : Bool) (batch : List (QueueItem μ)) :
    Option (HeapWriter μ) :=
  match s.memory.queue.consumer with
  | .idle =>
    if batch.length < kBatchSize then
      (s.memory.step (.dequeueBulk 1) 0).map fun m => { s with memory := m }
    else some { s with writer.loop := .subtract drain batch }
  | .loadHead _ => (s.memory.step .consume 0).map fun m => { s with memory := m }
  | .loadNext _ head =>
    (s.memory.step .consume 0).map fun m =>
      match s.memory.queue.next head with
      | some _ => { s with memory := m }
      | none =>
        { s with
          writer.loop := if batch.isEmpty then .test drain else .subtract drain batch
          memory := m }
  | .storeHead _ _ _ result =>
    (s.memory.step .consume 0).map fun m =>
      { s with
        writer.queue := s.writer.queue.tail
        writer.loop := .dequeue drain (batch ++ [result])
        memory := m }

def work (s : HeapWriter μ) (inserted : Bool) : Option (HeapWriter μ) :=
  match s.writer.loop with
  | .dequeue drain batch => s.dequeueBulk drain batch
  | .test true =>
    let empty := (s.memory.queue.next s.memory.queue.head).isNone
    some { s with writer.loop := if empty then .stopped else .dequeue true [] }
  | _ => (s.writer.work inserted).map fun w => { s with writer := w }

def step (s : HeapWriter μ) : Action μ → Option (HeapWriter μ)
  | .enqueue msg hasCallback => some { s with writer := s.writer.enqueue msg hasCallback }
  | .newNode p addr => s.newNode p addr
  | .produce p spurious => s.produce p spurious
  | .stop => some { s with writer := s.writer.stop }
  | .work inserted => s.work inserted

def deletes (s : HeapWriter μ) : Action μ → Option ℕ
  | .work _ => s.memory.queue.unlinks .consume
  | _ => none

/-- The step does not delete a node that `tail_`, or `old_tail` of a call of `Enqueue`,
designates. -/
def SparesInUse (s : HeapWriter μ) (a : Action μ) : Prop :=
  ∀ head ∈ s.deletes a, head ≠ s.memory.queue.tail ∧
    ∀ p < s.writer.calls, (s.memory.queue.producers p).oldTail ≠ some head

instance (s : HeapWriter μ) (a : Action μ) : Decidable (s.SparesInUse a) :=
  inferInstanceAs (Decidable (∀ head ∈ s.deletes a, head ≠ s.memory.queue.tail ∧
    ∀ p < s.writer.calls, (s.memory.queue.producers p).oldTail ≠ some head))

def phase (s : HeapWriter μ) : ℕ :=
  match s.memory.queue.consumer with
  | .idle => 0
  | .loadHead _ => 1
  | .loadNext _ _ => 2
  | .storeHead _ _ _ _ => 3

/-- The worker is in `dequeue` only for the sake of a batch, and for one value at a time. -/
def InBatch (s : HeapWriter μ) (more : ℕ) : Prop :=
  more = 0 ∧ ∃ drain batch, s.writer.loop = .dequeue drain batch ∧ batch.length < kBatchSize

/-- What the worker is doing while it is in `dequeue`. -/
def Dequeues (s : HeapWriter μ) : MPSCQueue.Consumer (QueueItem μ) → Prop
  | .idle => True
  | .loadHead more | .loadNext more _ | .storeHead more _ _ _ => s.InBatch more

/-- The queue holds what the records say, a node that is not linked holds the item of a call under
way, and calls that have not begun have no node. -/
structure Inv (s : HeapWriter μ) : Prop where
  writer : s.writer.Inv
  holds : s.memory.Holds s.writer.queue
  pending : ∀ p item, s.memory.queue.pending p = some item →
    item ∈ s.writer.entering ∧ item.call = p
  idle : ∀ p, s.writer.calls ≤ p → s.memory.queue.producers p = .idle
  dequeues : s.Dequeues s.memory.queue.consumer

theorem init_inv (default : QueueItem μ) : (init default).Inv where
  writer := WriterRun.init_inv
  holds := HeapQueue.init_holds default
  pending p item h := by cases h
  idle p _ := rfl
  dequeues := trivial

variable {s t : HeapWriter μ}

/-- What a step comes to for the writer: it keeps the invariant, and the writer takes a step or none.
Of the accesses of the worker one in four is a step of the writer. -/
def Refines (s : HeapWriter μ) (a : Action μ) (t : HeapWriter μ) : Prop :=
  t.Inv ∧ ∃ bs, Steps.run WriterRun.step s.writer bs = some t.writer ∧
    (if a.isWork then 1 else 0) + s.phase ≤ 4 * bs.countP WriterRun.Action.isWork + t.phase

theorem Refines.of_stutter {a : Action μ} (ht : t.Inv) (hw : t.writer = s.writer)
    (hphase : (if a.isWork then 1 else 0) + s.phase ≤ t.phase) : Refines s a t :=
  ⟨ht, [], congrArg some hw.symm, by simpa using hphase⟩

theorem Refines.of_step {a : Action μ} {b : WriterRun.Action μ} (ht : t.Inv)
    (hb : s.writer.step b = some t.writer) (hphase : a.isWork = false → s.phase ≤ t.phase)
    (hwork : a.isWork = b.isWork) : Refines s a t := by
  refine ⟨ht, [b], by simp [Steps.run_cons, hb], ?_⟩
  have hle : s.phase ≤ 3 := by
    unfold phase
    split <;> decide
  rw [List.countP_singleton, ← hwork]
  cases ha : a.isWork with
  | true => simp; omega
  | false => simpa using hphase ha

theorem Refines.of_work {inserted : Bool} (ht : t.Inv)
    (hwork : s.writer.work inserted = some t.writer) : Refines s (.work inserted) t :=
  .of_step (b := .work inserted) ht hwork (fun hidle => Bool.noConfusion hidle) rfl

theorem entering_of_works {w w' : WriterRun μ} {inserted : Bool} (hw : w.Works inserted w') :
    w'.entering = w.entering ∧ w'.calls = w.calls := by
  cases hw <;> exact ⟨rfl, rfl⟩

theorem queue_of_works {w w' : WriterRun μ} {inserted : Bool} (hw : w.Works inserted w')
    (hl : ∀ drain batch, w.loop ≠ .dequeue drain batch) : w'.queue = w.queue := by
  cases hw with
  | dequeue drain batch queue item hloop hq hlt => exact absurd hloop (hl drain batch)
  | _ => rfl

namespace Inv

variable (h : s.Inv)
include h

theorem spares {inserted : Bool} (hspares : s.SparesInUse (.work inserted)) :
    s.memory.SparesInUse .consume := by
  intro head hhead
  obtain ⟨htail, hold⟩ := hspares head hhead
  refine ⟨htail, fun p => ?_⟩
  by_cases hp : p < s.writer.calls
  · exact hold p hp
  · rw [h.idle p (Nat.le_of_not_lt hp)]
    nofun

theorem work_of {inserted : Bool} (hw : s.writer.work inserted = some t.writer)
    (hholds : t.memory.Holds t.writer.queue)
    (hproducers : t.memory.queue.producers = s.memory.queue.producers)
    (hdata : t.memory.queue.data = s.memory.queue.data)
    (hdequeues : t.Dequeues t.memory.queue.consumer) : t.Inv := by
  obtain ⟨hentering, hcalls⟩ := entering_of_works (WriterRun.works_of_work hw)
  constructor
  · exact h.writer.step (a := .work inserted) hw
  · exact hholds
  · intro p item hitem
    rw [hentering]
    apply h.pending p item
    rwa [MPSCQueue.pending, hproducers, hdata] at hitem
  · intro p hp
    rw [hproducers]
    exact h.idle p (hcalls ▸ hp)
  · exact hdequeues

theorem dequeueBulk_idle {drain inserted : Bool} {batch : List (QueueItem μ)}
    (hl : s.writer.loop = .dequeue drain batch) (hpc : s.memory.queue.consumer = .idle)
    (ht : s.dequeueBulk drain batch = some t) : Refines s (.work inserted) t := by
  simp only [HeapWriter.dequeueBulk, hpc] at ht
  split_ifs at ht with hlt
  · simp only [HeapQueue.step, MPSCQueue.step, hpc, Option.map_some, Option.some.injEq] at ht
    subst ht
    refine .of_stutter ?_ rfl ?_
    · refine { h with holds := h.holds.dequeueBulk hpc 1, dequeues := ?_ }
      exact ⟨rfl, drain, batch, hl, hlt⟩
    · simp [phase, hpc, Action.isWork, MPSCQueue.Consumer.round]
  · -- the batch is full
    cases ht
    have hwork : s.writer.work inserted = some { s.writer with loop := .subtract drain batch } := by
      have hne : batch.isEmpty = false := by
        cases batch with
        | nil => exact absurd (show 0 < kBatchSize by decide) hlt
        | cons item batch => rfl
      cases hq : s.writer.queue <;> simp [WriterRun.work, hl, hq, hlt, hne]
    refine .of_work (h.work_of hwork ?_ rfl rfl ?_) hwork
    · exact h.holds
    · rw [hpc]
      trivial

/-- The accesses of `dequeue` are none of the writer's steps before it returns. -/
theorem dequeueBulk {drain inserted : Bool} {batch : List (QueueItem μ)}
    (hl : s.writer.loop = .dequeue drain batch) (hspares : s.SparesInUse (.work inserted))
    (ht : s.dequeueBulk drain batch = some t) : Refines s (.work inserted) t := by
  by_cases hidle : s.memory.queue.consumer = .idle
  · exact h.dequeueBulk_idle hl hidle ht
  have hdequeues := h.dequeues
  obtain ⟨m, hm⟩ := HeapQueue.exists_consume hidle 0
  unfold HeapWriter.dequeueBulk at ht
  cases h.holds.consume (h.spares hspares) hm with
  | loadHead more hpc holds =>
    simp only [hpc, hm, Option.map_some, Option.some.injEq] at ht
    rw [hpc] at hdequeues
    subst ht
    refine .of_stutter { h with holds := holds, dequeues := hdequeues } rfl ?_
    simp [phase, hpc, Action.isWork]
  | nullopt more head hpc hnext hnil holds =>
    simp only [hpc, hm, hnext, Option.map_some, Option.some.injEq] at ht
    subst ht
    have hwork : s.writer.work inserted = some { s.writer with
        loop := if batch.isEmpty then .test drain else .subtract drain batch } := by
      simp [WriterRun.work, hl, hnil]
    exact .of_work (h.work_of hwork holds rfl rfl trivial) hwork
  | loadNext more head x hpc hnext holds =>
    simp only [hpc, hm, hnext, Option.map_some, Option.some.injEq] at ht
    rw [hpc] at hdequeues
    subst ht
    refine .of_stutter { h with holds := holds, dequeues := hdequeues } rfl ?_
    simp [phase, hpc, Action.isWork]
  | storeHead more head x result rest hpc hc holds =>
    simp only [hpc, hm, Option.map_some, Option.some.injEq] at ht
    rw [hpc] at hdequeues
    obtain ⟨rfl, drain', batch', hl', hlt⟩ := hdequeues
    obtain ⟨rfl, rfl⟩ : drain = drain' ∧ batch = batch' := by
      rw [hl] at hl'
      cases hl'
      exact ⟨rfl, rfl⟩
    have hwork : s.writer.work inserted = some { s.writer with
        queue := s.writer.queue.tail, loop := .dequeue drain (batch ++ [result]) } := by
      simp [WriterRun.work, hl, hc, hlt]
    rw [hc, List.tail_cons] at ht hwork
    subst ht
    exact .of_work (h.work_of hwork holds rfl rfl trivial) hwork

private theorem idle_of_loop (hl : ∀ drain batch, s.writer.loop ≠ .dequeue drain batch) :
    s.memory.queue.consumer = .idle := by
  have hdequeues := h.dequeues
  cases hpc : s.memory.queue.consumer with
  | idle => rfl
  | _ =>
    rw [hpc] at hdequeues
    obtain ⟨-, drain, batch, hloop, -⟩ := hdequeues
    exact absurd hloop (hl drain batch)

/-- A step of the worker outside `dequeue_bulk` is one of the writer's. -/
theorem work_outside {inserted : Bool} (hl : ∀ drain batch, s.writer.loop ≠ .dequeue drain batch)
    (hwork : s.writer.work inserted = some t.writer) (hmemory : t.memory = s.memory) :
    Refines s (.work inserted) t := by
  refine .of_work (h.work_of hwork ?_ ?_ ?_ ?_) hwork
  · rw [hmemory, queue_of_works (WriterRun.works_of_work hwork) hl]
    exact h.holds
  · rw [hmemory]
  · rw [hmemory]
  · rw [hmemory, h.idle_of_loop hl]
    trivial

theorem work {inserted : Bool} (hspares : s.SparesInUse (.work inserted))
    (ht : s.work inserted = some t) : Refines s (.work inserted) t := by
  unfold HeapWriter.work at ht
  cases hl : s.writer.loop with
  | dequeue drain batch =>
    rw [hl] at ht
    exact h.dequeueBulk hl hspares ht
  | test drain =>
    rw [hl] at ht
    cases drain with
    | true =>
      cases ht
      refine h.work_outside (by simp [hl]) ?_ rfl
      have hempty := h.holds.isNone_iff
      rw [← List.isEmpty_iff] at hempty
      simp [WriterRun.work, hl, hempty]
    | false =>
      obtain ⟨w, hw, rfl⟩ := Option.map_eq_some_iff.mp ht
      exact h.work_outside (by simp [hl]) hw rfl
  | _ =>
    rw [hl] at ht
    obtain ⟨w, hw, rfl⟩ := Option.map_eq_some_iff.mp ht
    exact h.work_outside (by simp [hl]) hw rfl

private theorem call_lt {item : QueueItem μ} (hitem : item ∈ s.writer.entering) :
    item.call < s.writer.calls := by
  have hmem : item.call ∈ (s.writer.entering ++ s.writer.enqueued).map QueueItem.call :=
    List.mem_map_of_mem (List.mem_append_left _ hitem)
  exact List.mem_range.mp (h.writer.calls.mem_iff.mp hmem)

private theorem call_inj {x y : QueueItem μ} (hx : x ∈ s.writer.entering) (hy : y ∈ s.writer.entering)
    (hcall : x.call = y.call) : x = y := by
  have hnodup := h.writer.calls.nodup_iff.mpr List.nodup_range
  exact List.inj_on_of_nodup_map hnodup (List.mem_append_left _ hx) (List.mem_append_left _ hy)
    hcall

theorem newNode {p addr : ℕ} (ht : s.newNode p addr = some t) :
    Refines s (.newNode p addr) t := by
  unfold HeapWriter.newNode at ht
  split at ht
  · cases ht
  rename_i item hitem
  have hmem : item ∈ s.writer.entering := List.mem_of_find?_eq_some hitem
  have hcall : item.call = p := by simpa using List.find?_some hitem
  simp only [HeapQueue.step, MPSCQueue.step] at ht
  split_ifs at ht with haddr hidle
  · simp at ht
  · simp only [Option.map_some, Option.some.injEq] at ht
    subst ht
    refine .of_stutter { h with holds := ?_, pending := ?_, idle := ?_ } rfl ?_
    · exact h.holds.enqueue hidle haddr item
    · intro r x hx
      dsimp only at hx ⊢
      rw [h.holds.pending_enqueue haddr item r] at hx
      split_ifs at hx with hr
      · cases hx
        exact ⟨hmem, hcall.trans hr.symm⟩
      · exact h.pending r x hx
    · intro r hr
      have hlt := h.call_lt hmem
      have hne : r ≠ p := by
        dsimp only at hr
        omega
      exact (Function.update_of_ne hne _ _).trans (h.idle r hr)
    · simp [phase, Action.isWork, MPSCQueue.enqueue]
  · simp at ht

theorem link_eq {p : ℕ} {item : QueueItem μ} (hitem : item ∈ s.writer.entering)
    (hcall : item.call = p) : s.writer.link (s.writer.entering.findIdx (·.call = p)) =
      some { s.writer with
        entering := Threads.others s.writer.entering (s.writer.entering.findIdx (·.call = p))
        queue := s.writer.queue ++ [item]
        enqueued := s.writer.enqueued ++ [item] } ∧
      s.writer.entering[s.writer.entering.findIdx (·.call = p)]? = some item := by
  have hlt : s.writer.entering.findIdx (·.call = p) < s.writer.entering.length :=
    List.findIdx_lt_length_of_exists ⟨item, hitem, by simpa using hcall⟩
  have hget := List.getElem?_eq_getElem hlt
  have hsame : s.writer.entering[s.writer.entering.findIdx (·.call = p)] = item := by
    apply h.call_inj (List.getElem_mem hlt) hitem
    rw [hcall]
    simpa using List.findIdx_getElem (w := hlt)
  rw [hsame] at hget
  refine ⟨?_, hget⟩
  simp only [WriterRun.link, hget]

theorem produce {p : ℕ} {spurious : Bool} (ht : s.produce p spurious = some t) :
    Refines s (.produce p spurious) t := by
  unfold HeapWriter.produce at ht
  split at ht
  · cases ht
  rename_i m hm
  simp only [HeapQueue.step, MPSCQueue.step] at hm
  obtain ⟨r, hr, rfl⟩ := Option.map_eq_some_iff.mp hm
  have hholds := h.holds.produce hr
  have hpending := MPSCQueue.pending_produce hr
  obtain ⟨hbusy, hproducers, -, hconsumer⟩ := MPSCQueue.frame_produce hr
  have hidle : ∀ i, s.writer.calls ≤ i → r.producers i = .idle := by
    intro i hi
    have hne : i ≠ p := fun heq => hbusy (heq ▸ h.idle i hi)
    rw [hproducers i hne]
    exact h.idle i hi
  split_ifs at ht with hlinks
  · rw [if_pos hlinks] at hholds
    obtain ⟨item, hitem⟩ := MPSCQueue.exists_pending_of_linksNow hlinks
    obtain ⟨hmem, hcall⟩ := h.pending p item hitem
    obtain ⟨hlink, hget⟩ := h.link_eq hmem hcall
    rw [hlink, Option.map_some, Option.some.injEq] at ht
    subst ht
    have hstep : s.writer.step (.link (s.writer.entering.findIdx (·.call = p))) = _ := hlink
    rw [hitem] at hholds
    refine .of_step ⟨h.writer.step hstep, hholds, ?_, hidle, ?_⟩ hstep (fun _ => ?_) rfl
    · intro i x hx
      dsimp only at hx ⊢
      rw [hpending i] at hx
      split_ifs at hx with hi
      · obtain ⟨hxmem, hxcall⟩ := h.pending i x hx
        refine ⟨?_, hxcall⟩
        rcases (Threads.mem_iff hget).mp hxmem with rfl | hxmem
        · exact absurd ⟨hxcall.symm.trans hcall, hlinks⟩ hi
        · exact hxmem
    · dsimp only
      rw [hconsumer]
      exact h.dequeues
    · simp only [phase, hconsumer, Nat.le_refl]
  · cases ht
    rw [if_neg hlinks] at hholds
    refine .of_stutter { h with holds := hholds, pending := ?_, idle := hidle, dequeues := ?_ } rfl ?_
    · intro i x hx
      rw [hpending i, if_neg (fun hi => hlinks hi.2)] at hx
      exact h.pending i x hx
    · dsimp only
      rw [hconsumer]
      exact h.dequeues
    · simp [phase, hconsumer, Action.isWork]

theorem step {a : Action μ} (hspares : s.SparesInUse a) (ht : s.step a = some t) :
    Refines s a t := by
  cases a with
  | enqueue msg hasCallback =>
    cases ht
    have hstep : s.writer.step (.enqueue msg hasCallback) = _ := rfl
    refine .of_step { h with writer := h.writer.step hstep, pending := ?_, idle := ?_ } hstep
      (fun _ => Nat.le_refl _) rfl
    · intro p item hitem
      obtain ⟨hmem, hcall⟩ := h.pending p item hitem
      exact ⟨List.mem_append_left _ hmem, hcall⟩
    · exact fun p hp => h.idle p (Nat.le_of_succ_le hp)
  | newNode p addr => exact h.newNode ht
  | produce p spurious => exact h.produce ht
  | stop =>
    cases ht
    have hstep : s.writer.step .stop = some s.writer.stop := rfl
    have hsame : s.writer.stop.queue = s.writer.queue ∧ s.writer.stop.entering = s.writer.entering ∧
        s.writer.stop.calls = s.writer.calls ∧ s.writer.stop.loop = s.writer.loop := by
      unfold WriterRun.stop
      split_ifs <;> exact ⟨rfl, rfl, rfl, rfl⟩
    obtain ⟨hqueue, hentering, hcalls, hloop⟩ := hsame
    refine .of_step ⟨h.writer.step hstep, ?_, ?_, ?_, ?_⟩ hstep (fun _ => Nat.le_refl _) rfl
    · rw [hqueue]
      exact h.holds
    · rw [hentering]
      exact h.pending
    · rw [hcalls]
      exact h.idle
    · simpa only [Dequeues, InBatch, hloop] using h.dequeues
  | work inserted => exact h.work hspares ht

/-- While nodes in use are spared, the writer over its queue in memory is the writer over a list. -/
theorem run {as : List (Action μ)} (hspares : Steps.Meets HeapWriter.step SparesInUse s as)
    (hr : Steps.run HeapWriter.step s as = some t) :
    t.Inv ∧ ∃ bs, Steps.run WriterRun.step s.writer bs = some t.writer ∧
      as.countP Action.isWork + s.phase ≤ 4 * bs.countP WriterRun.Action.isWork + t.phase :=
  Steps.run_of_stutters (fun _ _ _ h hspares ht => h.step hspares ht) h hspares hr

end Inv

/-- The callbacks are exact in every run in which `dequeue` deletes no node that `tail_` or the
`old_tail` of a call of `Enqueue` designates. They come in queue order and at most once, with the
result of the `InsertBatch` calls; those come batch by batch, each with the same items, at most four
times or once in the final drain; and an item that was queued before `Stop` has had its callback when
the worker has stopped, and after a bounded number of its steps. -/
theorem sparing_callbacks_exact (default : QueueItem μ) (as : List (Action μ))
    (hspares : Steps.Meets step SparesInUse (init default) as)
    (hr : Steps.run step (init default) as = some s) :
    (s.writer.callbacks.map Prod.fst <+: s.writer.enqueued.filter QueueItem.hasCallback ∧
      (s.writer.callbacks.map (·.1.call)).Nodup) ∧
    (∀ r ∈ s.writer.callbacks, r.2 = true ↔
      ∃ call ∈ s.writer.inserts, r.1 ∈ call.batch ∧ call.result = true) ∧
    (∃ batches : List (WriterRun.Batch μ), (∀ b ∈ batches, b.Bounded) ∧
      s.writer.inserts = batches.flatMap WriterRun.Batch.calls ∧
      batches.flatMap WriterRun.Batch.items <+: s.writer.enqueued) ∧
    0 ≤ s.writer.queuedItems ∧
    (s.writer.loop = .stopped → ∀ n, s.writer.beforeStop = some n →
      ∀ x ∈ s.writer.enqueued.take n, s.writer.calledBack x = if x.hasCallback then 1 else 0) ∧
    ∀ i x bs t, s.writer.enqueued[i]? = some x → (∀ n, s.writer.beforeStop = some n → i < n) →
      Steps.Meets step SparesInUse s bs → Steps.run step s bs = some t →
      4 * ((i + 2) * (kBatchSize + 11)) ≤ bs.countP Action.isWork →
      t.writer.calledBack x = if x.hasCallback then 1 else 0 := by
  obtain ⟨hinv, ws, hws, -⟩ := (init_inv default).run hspares hr
  obtain ⟨horder, hflags, hbatches, hcounter, hstopped, hprogress⟩ :=
    WriterRun.callbacks_exact ws hws
  refine ⟨horder, hflags, hbatches, hcounter, hstopped, ?_⟩
  intro i x bs t hx hbefore hspares' hbs hwork
  obtain ⟨-, ws', hws', hcount⟩ := hinv.run hspares' hbs
  apply hprogress i x ws' t.writer hx hbefore hws'
  have hphase : t.phase ≤ 3 := by
    unfold phase
    split <;> decide
  omega

/-- The worker takes one item, with its node deleted in time, and another one in the drain. -/
def drained : List (Action ℕ) :=
  List.flatten [[.enqueue 7 true, .newNode 0 1], .replicate 5 (.produce 0 false),
    .replicate 12 (.work true), [.enqueue 8 true, .newNode 1 0], .replicate 5 (.produce 1 false),
    [.stop], .replicate 14 (.work false)]

theorem sparing_callbacks_exact_drain :
    ∃ (as : List (Action ℕ)) (s : HeapWriter ℕ), Steps.run step (init ⟨0, 0, false⟩) as = some s ∧
      s.writer.loop = .stopped ∧ s.writer.beforeStop = some 2 ∧
      s.writer.callbacks.map Prod.snd = [true, false] ∧
      (∀ x ∈ s.writer.enqueued.take 2, s.writer.calledBack x = if x.hasCallback then 1 else 0) := by
  have hspares : Steps.Meets step SparesInUse (init ⟨0, 0, false⟩) drained := by decide
  have hends : (Steps.run step (init ⟨0, 0, false⟩) drained).map (fun s => (s.writer.loop,
      s.writer.beforeStop, s.writer.callbacks.map Prod.snd)) =
      some (.stopped, some 2, [true, false]) := rfl
  obtain ⟨s, hr, hobs⟩ := Option.map_eq_some_iff.mp hends
  simp only [Prod.mk.injEq] at hobs
  obtain ⟨hstopped, hbefore, hflags⟩ := hobs
  obtain ⟨-, -, -, -, hexact, -⟩ := sparing_callbacks_exact _ drained hspares hr
  exact ⟨drained, s, hr, hstopped, hbefore, hflags, hexact hstopped 2 hbefore⟩

/-- The step does not delete the node that `tail_` designates. -/
def SparesTail (s : HeapWriter μ) (a : Action μ) : Prop :=
  ∀ head ∈ s.deletes a, head ≠ s.memory.queue.tail

instance (s : HeapWriter μ) (a : Action μ) : Decidable (s.SparesTail a) :=
  inferInstanceAs (Decidable (∀ head ∈ s.deletes a, head ≠ s.memory.queue.tail))

/-- A call of `Enqueue` has returned before `Stop` and the worker has stopped, and the callback of the
item was not run. -/
def LosesItem (s : HeapWriter μ) : Prop :=
  s.writer.loop = .stopped ∧ ∃ n, s.writer.beforeStop = some n ∧ ∃ x ∈ s.writer.enqueued.take n,
    x.hasCallback = true ∧ s.memory.queue.producers x.call = .idle ∧ s.writer.calledBack x = 0

/-- Two items were queued before `Stop`; that of call `p` is lost. -/
theorem exists_losesItem (as : List (Action ℕ)) (items : List (QueueItem ℕ)) (p data : ℕ)
    (hrun : (Steps.run step (init ⟨0, 0, false⟩) as).map (fun s => (s.writer.loop,
      s.writer.beforeStop, s.writer.enqueued, s.memory.queue.producers p,
      s.writer.calledBack ⟨p, data, true⟩)) = some (.stopped, some 2, items, .idle, 0))
    (hitem : ⟨p, data, true⟩ ∈ items.take 2) :
    ∃ s, Steps.run step (init ⟨0, 0, false⟩) as = some s ∧ s.LosesItem := by
  obtain ⟨s, hr, hobs⟩ := Option.map_eq_some_iff.mp hrun
  simp only [Prod.mk.injEq] at hobs
  obtain ⟨hstopped, hbefore, rfl, hidle, hnever⟩ := hobs
  exact ⟨s, hr, hstopped, 2, hbefore, _, hitem, rfl, hidle, hnever⟩

/-- Call 0 has linked its node and not moved `tail_` when the worker takes the item and deletes the
dummy, which `tail_` designates. The node of call 1 gets the address of the dummy: `old_tail` is the
node itself, which call 1 links behind itself. -/
def deletedTail : List (Action ℕ) :=
  List.flatten [[.enqueue 7 true, .newNode 0 1], .replicate 4 (.produce 0 false),
    .replicate 12 (.work true), [.enqueue 8 true, .newNode 1 0], .replicate 5 (.produce 1 false),
    [.stop], .replicate 2 (.work true)]

/-- `tail_` has moved on when the dummy is deleted, but call 0 still has it as `old_tail`, and links
its node behind the one that call 2 has at that address. -/
def deletedOldTail : List (Action ℕ) :=
  List.flatten [[.enqueue 7 true, .newNode 0 1], .replicate 3 (.produce 0 false),
    [.enqueue 8 true, .newNode 1 2], .replicate 5 (.produce 1 false), .replicate 12 (.work true),
    [.enqueue 9 true, .newNode 2 0], .replicate 2 (.produce 0 false), [.stop],
    .replicate 2 (.work true)]

/-- A deleted node costs an item its callback, whether it is `tail_` that still designates the node or
only the `old_tail` of a call. -/
theorem deleted_node_loses_item :
    (∃ (as : List (Action ℕ)) (s : HeapWriter ℕ),
      Steps.run step (init ⟨0, 0, false⟩) as = some s ∧ s.LosesItem) ∧
    ∃ (as : List (Action ℕ)) (s : HeapWriter ℕ),
      Steps.Meets step SparesTail (init ⟨0, 0, false⟩) as ∧
      Steps.run step (init ⟨0, 0, false⟩) as = some s ∧ s.LosesItem := by
  constructor
  · obtain ⟨s, hr, hloses⟩ := exists_losesItem deletedTail [⟨0, 7, true⟩, ⟨1, 8, true⟩] 1 8 rfl
      (by decide)
    exact ⟨deletedTail, s, hr, hloses⟩
  · obtain ⟨s, hr, hloses⟩ := exists_losesItem deletedOldTail [⟨1, 8, true⟩, ⟨0, 7, true⟩] 0 7 rfl
      (by decide)
    exact ⟨deletedOldTail, s, by decide, hr, hloses⟩

end HeapWriter
end TermChat
