import TermChat.Dao.WriterRun

/-! The callbacks of `AsyncMsgWriter`: in queue order, once, with the result of the `InsertBatch`
calls, and for every item that was queued before `Stop`. -/
namespace TermChat
namespace WriterRun
open AsyncMsgWriter (kBatchSize kMaxRetries)

variable {μ : Type} {s t : WriterRun μ}

namespace Inv

variable (h : s.Inv)
include h

theorem nodup_enqueued : (s.enqueued.map QueueItem.call).Nodup := by
  have hnodup := h.calls.nodup_iff.mpr List.nodup_range
  rw [List.map_append] at hnodup
  exact (List.nodup_append.mp hnodup).2.1

theorem reports_isPrefix : s.reports.map Prod.fst <+: s.enqueued := by
  rw [h.items, List.append_assoc]
  exact List.prefix_append _ _

private theorem queuedItems_nonneg : 0 ≤ s.queuedItems := by
  rw [h.counter]
  omega

theorem unreported_isPrefix :
    (s.reports ++ s.loop.unreported).map Prod.fst <+: s.enqueued := by
  rw [h.items, List.map_append]
  cases s.loop with
  | notify drain notified todo success =>
    simp only [Loop.unreported, Loop.todo, List.map_map]
    exact ⟨s.queue, by simp [Function.comp_def]⟩
  | _ => simp [Loop.unreported]

theorem report_unique {x : QueueItem μ} {f f' : Bool}
    (hf : (x, f) ∈ s.reports ++ s.loop.unreported) (hf' : (x, f') ∈ s.reports ++ s.loop.unreported) :
    f = f' := by
  have hnodup : (((s.reports ++ s.loop.unreported).map Prod.fst).map QueueItem.call).Nodup :=
    h.nodup_enqueued.sublist (h.unreported_isPrefix.map _).sublist
  have heq := List.inj_on_of_nodup_map (hnodup.of_map _) hf hf' rfl
  exact congrArg Prod.snd heq

/-- A report is true exactly if a call with the item returned true. -/
theorem report_iff {x : QueueItem μ} {f : Bool} (hf : (x, f) ∈ s.reports) :
    f = true ↔ ∃ call ∈ s.inserts, x ∈ call.batch ∧ call.result = true := by
  obtain ⟨batches, -, hinserts, hreports⟩ := h.batches
  have hmem : (x, f) ∈ s.reports ++ s.loop.unreported := List.mem_append_left _ hf
  constructor
  · rintro rfl
    rw [hreports] at hmem
    obtain ⟨b, hb, hx⟩ := List.mem_flatMap.mp hmem
    obtain ⟨y, hy, hyx⟩ := List.mem_map.mp hx
    obtain ⟨rfl, hcontains⟩ := Prod.mk.inj hyx
    have hcall : ⟨b.items, b.drain, true⟩ ∈ b.calls :=
      List.mem_map.mpr ⟨true, List.contains_iff_mem.mp hcontains, rfl⟩
    refine ⟨⟨b.items, b.drain, true⟩, ?_, hy, rfl⟩
    rw [hinserts]
    exact List.mem_append_left _ (List.mem_flatMap.mpr ⟨b, hb, hcall⟩)
  · rintro ⟨call, hcall, hx, hresult⟩
    rw [hinserts] at hcall
    rcases List.mem_append.mp hcall with hcall | hcall
    · obtain ⟨b, hb, hcall⟩ := List.mem_flatMap.mp hcall
      obtain ⟨r, hr, rfl⟩ := List.mem_map.mp hcall
      obtain rfl : r = true := hresult
      have hreport : (x, true) ∈ b.reports :=
        List.mem_map.mpr ⟨x, hx, by rw [List.contains_iff_mem.mpr hr]⟩
      apply h.report_unique hmem
      rw [hreports]
      exact List.mem_flatMap.mpr ⟨b, hb, hreport⟩
    · -- the calls for the batch that is being inserted have failed
      cases hl : s.loop with
      | persist drain batch retryCount =>
        rw [hl] at hcall
        rw [List.eq_of_mem_replicate hcall] at hresult
        cases hresult
      | _ =>
        rw [hl] at hcall
        cases hcall

/-- The calls so far, batch by batch; the batches are pieces of the queue, in its order. -/
theorem exists_batches : ∃ batches : List (Batch μ), (∀ b ∈ batches, b.Bounded) ∧
    s.inserts = batches.flatMap Batch.calls ∧ batches.flatMap Batch.items <+: s.enqueued := by
  obtain ⟨batches, hbounded, hinserts, hreports⟩ := h.batches
  have hitems : batches.flatMap Batch.items = (s.reports ++ s.loop.unreported).map Prod.fst := by
    rw [hreports, List.map_flatMap]
    congr 1
    funext b
    simp [Batch.reports, Function.comp_def]
  by_cases hopen : s.loop.attempts = []
  · rw [hopen, List.append_nil] at hinserts
    exact ⟨batches, hbounded, hinserts, hitems ▸ h.unreported_isPrefix⟩
  · cases hl : s.loop with
    | persist drain batch retryCount =>
      have hproper := h.proper
      rw [hl] at hproper hinserts hitems
      let b : Batch μ := ⟨batch, drain, List.replicate retryCount false⟩
      have hb : b.Bounded := by
        refine ⟨hproper.2.1, ?_⟩
        rw [List.length_replicate]
        exact Nat.le_of_lt hproper.2.2
      refine ⟨batches ++ [b], ?_, ?_, ?_⟩
      · intro b' hb'
        rcases List.mem_append.mp hb' with hb' | hb'
        · exact hbounded b' hb'
        · rw [List.mem_singleton.mp hb']
          exact hb
      · rw [hinserts, List.flatMap_append, List.flatMap_singleton]
        simp [b, Batch.calls, Loop.attempts]
      · rw [h.items, hl, List.flatMap_append, List.flatMap_singleton, hitems]
        exact ⟨s.queue, by simp [b, Loop.unreported, Loop.todo]⟩
    | _ =>
      rw [hl] at hopen
      exact absurd rfl hopen

/-- An item that `NotifyCallbacks` has passed has had its callback once, if it has one. -/
theorem countP_callbacks {i : ℕ} {x : QueueItem μ} (hx : s.enqueued[i]? = some x)
    (hi : i < s.reports.length) :
    s.callbacks.countP (fun r => r.1.call = x.call) = if x.hasCallback then 1 else 0 := by
  have hnodup : ((s.reports.map Prod.fst).map QueueItem.call).Nodup :=
    h.nodup_enqueued.sublist (h.reports_isPrefix.map _).sublist
  have hmem : x ∈ s.reports.map Prod.fst := by
    obtain ⟨rest, hrest⟩ := h.reports_isPrefix
    rw [← hrest, List.getElem?_append_left (by rwa [List.length_map])] at hx
    exact List.mem_of_getElem? hx
  -- a report with the number of `x` is a report of `x`
  have hsame : ∀ r ∈ s.reports, (decide (r.1.call = x.call) && r.1.hasCallback) =
      (decide (r.1.call = x.call) && x.hasCallback) := by
    intro r hr
    by_cases hcall : r.1.call = x.call
    · rw [List.inj_on_of_nodup_map hnodup (List.mem_map_of_mem hr) hmem hcall]
    · simp [hcall]
  have hone : s.reports.countP (fun r => r.1.call = x.call) = 1 := by
    have hcount := hnodup.count (a := x.call)
    rw [if_pos (List.mem_map_of_mem hmem), List.map_map, List.count, List.countP_map] at hcount
    simpa [Function.comp_def, beq_eq_decide] using hcount
  rw [callbacks, List.countP_filter, List.countP_congr fun r hr => by rw [hsame r hr]]
  cases x.hasCallback with
  | false => simp
  | true => simpa using hone

end Inv

/-! Progress: an item that was queued before `Stop` waits for a bounded number of worker steps. -/

/-- The worker steps until the next report, while there is something to report. -/
def Loop.rank {ι : Type} : Loop ι → ℕ
  | .notify _ _ [] _ => kBatchSize + 10
  | .test false => kBatchSize + 9
  | .test true => kBatchSize + 8
  | .dequeue _ batch => kBatchSize + 7 - batch.length
  | .subtract _ _ => 6
  | .persist _ _ retryCount => 5 - retryCount
  | .notify _ _ (_ :: _) _ => 0
  | .stopped => 0

theorem Loop.rank_le {ι : Type} (loop : Loop ι) : loop.rank ≤ kBatchSize + 10 := by
  cases loop with
  | test drain => cases drain <;> simp [rank]
  | notify drain notified todo success => cases todo <;> simp [rank]
  | _ => simp only [rank]; omega

/-- The steps until item `i` is reported. -/
def rank (i : ℕ) (s : WriterRun μ) : ℕ :=
  (i + 1 - s.reports.length) * (kBatchSize + 11) + s.loop.rank

/-- Item `i` is queued, and was so when `Stop` took effect, if it has. -/
structure Awaits (i : ℕ) (s : WriterRun μ) : Prop extends s.Inv where
  enqueued : i < s.enqueued.length
  before : ∀ n, s.beforeStop = some n → i < n

def Action.isWork : Action μ → Bool
  | .work _ => true
  | _ => false

theorem Awaits.todo_ne_nil {i : ℕ} (h : s.Awaits i) (hi : ¬ i < s.reports.length) :
    s.loop.todo ++ s.queue ≠ [] := by
  intro hnil
  have hlen := congrArg List.length h.items
  have hi' := h.enqueued
  rw [List.append_assoc, hnil, List.append_nil, List.length_map] at hlen
  omega

theorem rank_lt {i : ℕ} {loop : Loop (QueueItem μ)} (hl : s.loop = loop)
    (hrank : t.loop.rank < loop.rank) (hreports : t.reports = s.reports) : t.rank i < s.rank i := by
  unfold rank
  rw [hreports, hl]
  omega

/-- A report brings item `i` nearer by one item. -/
theorem rank_notify {i : ℕ} {report : QueueItem μ × Bool} (hi : ¬ i < s.reports.length)
    (hreports : t.reports = s.reports ++ [report]) : t.rank i < s.rank i := by
  have hle := t.loop.rank_le
  have hlen : i + 1 - s.reports.length = i + 1 - t.reports.length + 1 := by
    rw [hreports, List.length_append, List.length_singleton]
    omega
  unfold rank
  rw [hlen, Nat.succ_mul]
  omega

theorem rank_works {i : ℕ} (h : s.Awaits i) (hi : ¬ i < s.reports.length) {inserted : Bool}
    (hw : Works s inserted t) : t.rank i < s.rank i := by
  have htodo := h.todo_ne_nil hi
  cases hw with
  | loop hl hrun => exact rank_lt hl (by simp [Loop.rank]) rfl
  | leave hl hrun => exact rank_lt hl (by simp [Loop.rank]) rfl
  | drain hl hne => exact rank_lt hl (by simp [Loop.rank]) rfl
  | finish hl hnil =>
    -- the item is in the queue
    rw [hl, hnil] at htodo
    exact absurd rfl htodo
  | nothing drain hl hnil =>
    rw [hl, hnil] at htodo
    exact absurd rfl htodo
  | dequeue drain batch queue item hl hq hlt =>
    refine rank_lt hl ?_ rfl
    simp only [Loop.rank, List.length_append, List.length_singleton]
    omega
  | full drain batch hl hne hend =>
    have hle : batch.length ≤ kBatchSize := h.proper_of hl
    refine rank_lt hl ?_ rfl
    simp only [Loop.rank]
    omega
  | subtract drain batch hl => exact rank_lt hl (by simp [Loop.rank]) rfl
  | retry batch retryCount hl hfailed hmore =>
    have hlast : retryCount + 1 ≤ 3 := hmore
    refine rank_lt hl ?_ rfl
    simp only [Loop.rank]
    omega
  | persisted drain batch retryCount hl hlast =>
    obtain ⟨hne, -, hcall⟩ := h.proper_of hl
    have hcall : retryCount < 4 := by
      simp only [Loop.maxCalls, kMaxRetries] at hcall
      split_ifs at hcall <;> omega
    obtain ⟨item, batch, rfl⟩ := List.exists_cons_of_ne_nil hne
    refine rank_lt hl ?_ rfl
    simp only [Loop.rank]
    omega
  | notify drain notified todo item success hl => exact rank_notify hi rfl
  | clear drain notified success hl =>
    refine rank_lt hl ?_ rfl
    cases drain <;> simp [Loop.rank]

theorem works_frame {inserted : Bool} (hw : Works s inserted t) :
    t.enqueued = s.enqueued ∧ t.beforeStop = s.beforeStop ∧ s.reports <+: t.reports := by
  cases hw with
  | notify drain notified todo item success hl => exact ⟨rfl, rfl, List.prefix_append _ _⟩
  | _ => exact ⟨rfl, rfl, List.prefix_rfl⟩

theorem isPrefix_step {a : Action μ} (ht : s.step a = some t) :
    s.enqueued <+: t.enqueued ∧ s.reports <+: t.reports := by
  cases a with
  | enqueue msg hasCallback =>
    cases ht
    exact ⟨List.prefix_rfl, List.prefix_rfl⟩
  | link i =>
    simp only [step, link] at ht
    split at ht <;> cases ht
    exact ⟨List.prefix_append _ _, List.prefix_rfl⟩
  | stop =>
    cases ht
    unfold stop
    split_ifs <;> exact ⟨List.prefix_rfl, List.prefix_rfl⟩
  | work inserted =>
    obtain ⟨henqueued, -, hreports⟩ := works_frame (works_of_work ht)
    exact ⟨henqueued ▸ List.prefix_rfl, hreports⟩

theorem enqueued_isPrefix_run {as : List (Action μ)} (hr : Steps.run step s as = some t) :
    s.enqueued <+: t.enqueued :=
  Steps.invariant_of_run (I := fun u => s.enqueued <+: u.enqueued)
    (fun _ _ _ hu ha => hu.trans (isPrefix_step ha).1) List.prefix_rfl hr

theorem Awaits.step {i : ℕ} (h : s.Awaits i) {a : Action μ} (ht : s.step a = some t) :
    t.Awaits i := by
  have hinv := h.toInv.step ht
  cases a with
  | enqueue msg hasCallback =>
    cases ht
    exact ⟨hinv, h.enqueued, h.before⟩
  | link j =>
    simp only [WriterRun.step, WriterRun.link] at ht
    split at ht <;> cases ht
    refine ⟨hinv, ?_, h.before⟩
    have hi := h.enqueued
    rw [List.length_append]
    omega
  | stop =>
    cases ht
    unfold WriterRun.stop at hinv ⊢
    split_ifs at hinv ⊢ with hrun
    · refine ⟨hinv, h.enqueued, fun n hn => ?_⟩
      cases hn
      exact h.enqueued
    · exact h
  | work inserted =>
    obtain ⟨henqueued, hbefore, -⟩ := works_frame (works_of_work ht)
    exact ⟨hinv, henqueued ▸ h.enqueued, hbefore ▸ h.before⟩

theorem rank_step {i : ℕ} (h : s.Awaits i) (hi : ¬ i < s.reports.length) {a : Action μ}
    (ht : s.step a = some t) : t.rank i + (if a.isWork then 1 else 0) ≤ s.rank i := by
  cases a with
  | enqueue msg hasCallback =>
    cases ht
    exact Nat.le_refl _
  | link j =>
    simp only [step, link] at ht
    split at ht <;> cases ht
    exact Nat.le_refl _
  | stop =>
    cases ht
    have hsame : s.stop.rank i = s.rank i := by
      unfold stop
      split_ifs <;> rfl
    exact Nat.le_of_eq hsame
  | work inserted => exact rank_works h hi (works_of_work ht)

/-- After enough steps of the worker the item is reported. -/
theorem reported_of_run {i : ℕ} {as : List (Action μ)} (h : s.Awaits i)
    (hr : Steps.run step s as = some t)
    (hwork : (i + 2) * (kBatchSize + 11) ≤ as.countP Action.isWork) : i < t.reports.length := by
  have hkeep : ∀ (s : WriterRun μ) a t, s.Awaits i → i < s.reports.length → s.step a = some t →
      i < t.reports.length :=
    fun s a t _ hi ht => Nat.lt_of_lt_of_le hi (isPrefix_step ht).2.length_le
  have hrank : ∀ (s : WriterRun μ) a t, s.Awaits i → ¬ i < s.reports.length → s.step a = some t →
      i < t.reports.length ∨ t.rank i + (if a.isWork then 1 else 0) ≤ s.rank i :=
    fun s a t h hi ht => .inr (rank_step h hi ht)
  have hlt : s.rank i < as.countP Action.isWork := by
    have hle := s.loop.rank_le
    have hmul : (i + 1 - s.reports.length) * (kBatchSize + 11) ≤ (i + 1) * (kBatchSize + 11) :=
      Nat.mul_le_mul_right _ (Nat.sub_le _ _)
    unfold rank
    rw [Nat.succ_mul] at hwork
    omega
  exact Steps.reaches_of_rank (fun s a t h ht => h.step ht) hkeep hrank h hr hlt

/-- The callbacks that the item of a call has had. -/
def calledBack (s : WriterRun μ) (x : QueueItem μ) : ℕ :=
  s.callbacks.countP fun r => r.1.call = x.call

/-- The callbacks are exact. They come in queue order and at most once, with the result of the
`InsertBatch` calls; those come batch by batch, each with the same items, at most four times or
once in the final drain; and an item that was queued before `Stop` has had its callback when the
worker has stopped, and after a bounded number of its steps. -/
theorem callbacks_exact (as : List (Action μ)) (hr : Steps.run step init as = some s) :
    (s.callbacks.map Prod.fst <+: s.enqueued.filter QueueItem.hasCallback ∧
      (s.callbacks.map (·.1.call)).Nodup) ∧
    (∀ r ∈ s.callbacks, r.2 = true ↔
      ∃ call ∈ s.inserts, r.1 ∈ call.batch ∧ call.result = true) ∧
    (∃ batches : List (Batch μ), (∀ b ∈ batches, b.Bounded) ∧
      s.inserts = batches.flatMap Batch.calls ∧ batches.flatMap Batch.items <+: s.enqueued) ∧
    0 ≤ s.queuedItems ∧
    (s.loop = .stopped → ∀ n, s.beforeStop = some n → ∀ x ∈ s.enqueued.take n,
      s.calledBack x = if x.hasCallback then 1 else 0) ∧
    ∀ i x bs t, s.enqueued[i]? = some x → (∀ n, s.beforeStop = some n → i < n) →
      Steps.run step s bs = some t → (i + 2) * (kBatchSize + 11) ≤ bs.countP Action.isWork →
      t.calledBack x = if x.hasCallback then 1 else 0 := by
  have h := run_inv hr
  have horder : s.callbacks.map Prod.fst = (s.reports.map Prod.fst).filter QueueItem.hasCallback := by
    rw [callbacks, List.filter_map]
    rfl
  have hcallbacks : s.callbacks.map Prod.fst <+: s.enqueued.filter QueueItem.hasCallback := by
    rw [horder]
    exact h.reports_isPrefix.filter _
  refine ⟨⟨hcallbacks, ?_⟩, ?_, h.exists_batches, h.queuedItems_nonneg, ?_, ?_⟩
  · have hsub : (s.callbacks.map Prod.fst).Sublist s.enqueued :=
      hcallbacks.sublist.trans List.filter_sublist
    have hnodup := h.nodup_enqueued.sublist (hsub.map QueueItem.call)
    rwa [List.map_map] at hnodup
  · rintro ⟨x, f⟩ hmem
    exact h.report_iff (List.mem_of_mem_filter hmem)
  · intro hstopped n hn x hx
    obtain ⟨i, hi⟩ := List.mem_iff_getElem?.mp hx
    have hlt : i < n := by
      by_contra hge
      rw [List.getElem?_eq_none (by rw [List.length_take]; omega)] at hi
      cases hi
    rw [List.getElem?_take_of_lt hlt] at hi
    exact h.countP_callbacks hi (Nat.lt_of_lt_of_le hlt (h.stopped hstopped n hn))
  · intro i x bs t hx hbefore hrun hwork
    have hlt : i < s.enqueued.length := (List.getElem?_eq_some_iff.mp hx).1
    have hreported := reported_of_run ⟨h, hlt, hbefore⟩ hrun hwork
    have ht := Steps.invariant_of_run (fun _ _ _ h ht => Inv.step h ht) h hrun
    obtain ⟨rest, hrest⟩ := enqueued_isPrefix_run hrun
    apply ht.countP_callbacks _ hreported
    rw [← hrest, List.getElem?_append_left hlt]
    exact hx

end WriterRun
end TermChat
