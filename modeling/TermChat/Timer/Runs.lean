import TermChat.Base.Steps
import TermChat.Timer.Tick

/-! Runs of calls on a `HeapTimer`, against the same calls on a map of expiry times. -/
namespace TermChat
open HeapTimer

/-- The public calls. The times come from the clock, in the order of its readings. -/
inductive TimerCall where
  | add (id : ℕ) (timeOut : Int32)
  | adjust (id : ℕ) (newExpires : Int32)
  | remove (id : ℕ)
  | doWork (id : ℕ) (removes : Bool)
  | tick
  | pop
  | getNextTick
  | clear
  deriving DecidableEq, Repr

/-- The calls on a map. `Pop` and `Tick` take some entry of least expiry. -/
inductive Expiries.Step (clock : ℕ → ℤ) : Expiries × ℕ → TimerCall → Expiries × ℕ → Prop where
  | add (m : Expiries) (reads id : ℕ) (timeOut : Int32) :
      Step clock (m, reads) (.add id timeOut)
        (Function.update m id (some (deadline (clock reads) timeOut)), reads + 1)
  | adjust (m : Expiries) (reads id : ℕ) (newExpires : Int32) (hpresent : m id ≠ none) :
      Step clock (m, reads) (.adjust id newExpires)
        (Function.update m id (some (deadline (clock reads) newExpires)), reads + 1)
  | remove (m : Expiries) (reads id : ℕ) :
      Step clock (m, reads) (.remove id) (Function.update m id none, reads)
  | doWork (m : Expiries) (reads id : ℕ) (removes : Bool) :
      Step clock (m, reads) (.doWork id removes) (Function.update m id none, reads)
  | tick (m m' : Expiries) (reads reads' : ℕ) (fired : List (TimerNode × ℕ))
      (hticks : Ticks clock m reads fired m' reads') :
      Step clock (m, reads) .tick (m', reads')
  | pop (m : Expiries) (reads id : ℕ) (e : ℤ) (hleast : m.Least id e) :
      Step clock (m, reads) .pop (Function.update m id none, reads)
  | nextNone (m m' : Expiries) (reads reads' : ℕ) (fired : List (TimerNode × ℕ))
      (hticks : Ticks clock m reads fired m' reads') (hnone : ∀ id, m' id = none) :
      Step clock (m, reads) .getNextTick (m', reads')
  | nextSome (m m' : Expiries) (reads reads' id : ℕ) (fired : List (TimerNode × ℕ))
      (hticks : Ticks clock m reads fired m' reads') (hsome : m' id ≠ none) :
      Step clock (m, reads) .getNextTick (m', reads' + 1)
  | clear (m : Expiries) (reads : ℕ) : Step clock (m, reads) .clear (fun _ => none, reads)

/-- A timer, and how often the clock has been read. -/
structure ClockedTimer where
  timer : HeapTimer
  reads : ℕ

namespace ClockedTimer

def init : ClockedTimer := ⟨HeapTimer.init, 0⟩

variable (clock : ℕ → ℤ) (removes : ℕ → Bool)

def step (s : ClockedTimer) : TimerCall → Option ClockedTimer
  | .add id timeOut => some ⟨s.timer.add id timeOut (clock s.reads), s.reads + 1⟩
  | .adjust id newExpires =>
    (s.timer.adjust id newExpires (clock s.reads)).map fun t => ⟨t, s.reads + 1⟩
  | .remove id => some ⟨s.timer.remove id, s.reads⟩
  | .doWork id removes => some ⟨s.timer.doWork id removes, s.reads⟩
  | .tick =>
    let r := HeapTimer.tick clock removes s.timer s.reads
    some ⟨r.timer, r.reads⟩
  | .pop => s.timer.pop.map fun t => ⟨t, s.reads⟩
  | .getNextTick =>
    let r := (HeapTimer.getNextTick clock removes s.timer s.reads).2
    some ⟨r.timer, r.reads⟩
  | .clear => some ⟨s.timer.clear, s.reads⟩

variable {clock removes} {s t : ClockedTimer} {call : TimerCall}

/-- Every call keeps the order of the heap and does to the map what it should. -/
theorem step_spec (hs : s.timer.IsHeap) (h : step clock removes s call = some t) :
    t.timer.IsHeap ∧ Expiries.Step clock (s.timer.toMap, s.reads) call (t.timer.toMap, t.reads) := by
  cases call with
  | add id timeOut =>
    obtain rfl := Option.some.inj h
    refine ⟨isHeap_add hs _ _ _, ?_⟩
    rw [toMap_add]
    exact .add _ _ _ _
  | adjust id newExpires =>
    obtain ⟨u, hu, rfl⟩ := Option.map_eq_some_iff.mp h
    cases href : s.timer.ref id with
    | none =>
      rw [adjust_of_ref_none _ href] at hu
      cases hu
    | some i =>
      have hi := s.timer.lt_size_of_ref href
      rw [adjust_of_ref hs href] at hu
      obtain rfl := Option.some.inj hu
      refine ⟨isHeap_reschedule hs _ hi, ?_⟩
      rw [toMap_reschedule, s.timer.id_of_ref href hi]
      refine .adjust _ _ _ _ ?_
      rw [ne_eq, toMap_eq_none, href]
      exact Option.some_ne_none i
  | remove id =>
    obtain rfl := Option.some.inj h
    refine ⟨isHeap_remove hs id, ?_⟩
    rw [toMap_remove]
    exact .remove _ _ _
  | doWork id rem =>
    obtain rfl := Option.some.inj h
    refine ⟨isHeap_doWork hs id rem, ?_⟩
    rw [toMap_doWork]
    exact .doWork _ _ _ _
  | tick =>
    obtain rfl := Option.some.inj h
    exact ⟨isHeap_tick _ _ hs _, .tick _ _ _ _ _ (ticks_tick _ _ hs _)⟩
  | pop =>
    obtain ⟨u, hu, rfl⟩ := Option.map_eq_some_iff.mp h
    unfold HeapTimer.pop at hu
    split_ifs at hu with h0
    obtain rfl := Option.some.inj hu
    refine ⟨isHeap_del hs h0, ?_⟩
    rw [toMap_del]
    exact .pop _ _ _ _ (hs.least h0)
  | getNextTick =>
    obtain rfl := Option.some.inj h
    have hticks := ticks_tick clock removes hs s.reads
    have hheap := isHeap_tick clock removes hs s.reads
    by_cases h0 : 0 < (HeapTimer.tick clock removes s.timer s.reads).timer.heap.size
    · rw [getNextTick_of_pos clock removes h0]
      have hfront := toMap_heap _ h0
      exact ⟨hheap, .nextSome _ _ _ _ _ _ hticks (Option.ne_none_iff_exists'.mpr ⟨_, hfront⟩)⟩
    · rw [getNextTick_of_empty clock removes h0]
      refine ⟨hheap, .nextNone _ _ _ _ _ hticks ?_⟩
      exact (forall_toMap_eq_none _).mpr (Nat.eq_zero_of_not_pos h0)
  | clear =>
    obtain rfl := Option.some.inj h
    exact ⟨isHeap_empty rfl, .clear _ _⟩

/-- The only calls that fail are those that the asserts of the source exclude. -/
theorem step_eq_none (hs : s.timer.IsHeap) (h : step clock removes s call = none) :
    (∃ id newExpires, call = .adjust id newExpires ∧ s.timer.toMap id = none) ∨
      call = .pop ∧ ∀ id, s.timer.toMap id = none := by
  cases call with
  | add id timeOut => cases h
  | adjust id newExpires =>
    refine .inl ⟨id, newExpires, rfl, ?_⟩
    rw [toMap_eq_none]
    cases href : s.timer.ref id with
    | none => rfl
    | some i =>
      simp only [step, adjust_of_ref hs href] at h
      cases h
  | remove id => cases h
  | doWork id rem => cases h
  | tick => cases h
  | pop =>
    refine .inr ⟨rfl, s.timer.forall_toMap_eq_none.mpr ?_⟩
    by_contra hsize
    simp only [step, HeapTimer.pop, dif_pos (Nat.pos_of_ne_zero hsize)] at h
    cases h
  | getNextTick => cases h
  | clear => cases h

theorem isHeap_of_run {calls : List TimerCall}
    (h : Steps.run (step clock removes) init calls = some s) : s.timer.IsHeap :=
  Steps.invariant_of_run (I := fun s => s.timer.IsHeap)
    (fun _ _ _ hs hstep => (step_spec hs hstep).1) (isHeap_empty rfl) h

theorem path_of_run {calls : List TimerCall}
    (h : Steps.run (step clock removes) init calls = some s) :
    Steps.Path (Expiries.Step clock) (fun _ => none, 0) calls (s.timer.toMap, s.reads) :=
  Steps.path_of_run (I := fun s => s.timer.IsHeap) (f := fun s => (s.timer.toMap, s.reads))
    (fun _ _ _ hs hstep => (step_spec hs hstep).1) (fun _ _ _ hs hstep => (step_spec hs hstep).2)
    (isHeap_empty rfl) h

end ClockedTimer

structure HeapTimer.Sound (t : HeapTimer) : Prop where
  distinct : (t.heap.toList.map TimerNode.id).Nodup
  back : ∀ i (hi : i < t.heap.size), t.heap[i].id < t.refSize ∧ t.ref t.heap[i].id = some i
  absent : ∀ id, (∀ node ∈ t.heap, node.id ≠ id) → t.ref id = none
  ordered : ∀ i j (hi : i < t.heap.size) (hj : j < t.heap.size), j = 2 * i + 1 ∨ j = 2 * i + 2 →
    t.heap[i].expires ≤ t.heap[j].expires

theorem HeapTimer.IsHeap.sound {t : HeapTimer} (h : t.IsHeap) : t.Sound := by
  refine ⟨?_, ?_, ?_, ?_⟩
  · apply List.pairwise_iff_getElem.mpr
    intro i j hi hj hij hsame
    rw [List.length_map, Array.length_toList] at hi hj
    rw [List.getElem_map, List.getElem_map, Array.getElem_toList, Array.getElem_toList] at hsame
    have hindex := t.ref_heap hi
    rw [hsame, t.ref_heap hj] at hindex
    exact absurd (Option.some.inj hindex) (Nat.ne_of_gt hij)
  · intro i hi
    refine ⟨?_, t.ref_heap hi⟩
    by_contra hsize
    have hnone := t.inside t.heap[i].id (by omega)
    rw [t.ref_heap hi] at hnone
    cases hnone
  · intro id hid
    cases href : t.ref id with
    | none => rfl
    | some i =>
      have hi := t.lt_size_of_ref href
      exact absurd (t.id_of_ref href hi) (hid _ (Array.getElem_mem hi))
  · intro i j hi hj hchild
    have hedge := h j (by omega) hj
    rw [(BinaryHeap.parent_eq_iff (by omega)).mpr hchild, t.expiresAt_eq hi, t.expiresAt_eq hj] at hedge
    exact hedge

namespace ClockedTimer

/-- After every run of calls, with any clock and any callbacks, the representation is sound, the map
of the timer is one that the same calls can make of an empty map, and no further call fails but an
`Adjust` of an absent id and a `Pop` of an empty timer. -/
theorem timer_refines_map (clock : ℕ → ℤ) (removes : ℕ → Bool) (calls : List TimerCall)
    (s : ClockedTimer) (h : Steps.run (step clock removes) init calls = some s) :
    s.timer.Sound ∧
      Steps.Path (Expiries.Step clock) (fun _ => none, 0) calls (s.timer.toMap, s.reads) ∧
      ∀ call, step clock removes s call = none →
        (∃ id newExpires, call = .adjust id newExpires ∧ s.timer.toMap id = none) ∨
          call = .pop ∧ ∀ id, s.timer.toMap id = none := by
  have hheap := isHeap_of_run h
  exact ⟨hheap.sound, path_of_run h, fun call hnone => step_eq_none hheap hnone⟩

def steadyClock (k : ℕ) : ℤ := k * 1000000

/-- An id beyond the first 65536, a changed timeout, and a `Tick` that fires one of three timers. -/
theorem timer_refines_map_three :
    ∃ s, Steps.run (step steadyClock (fun _ => true)) init
        [.add 4 9, .add 70000 1, .add 5 20, .adjust 4 30, .tick] = some s ∧
      s.timer.heap = #[⟨5, 22000000⟩, ⟨4, 33000000⟩] ∧ s.timer.refSize = 140001 ∧ s.timer.Sound := by
  have hrun : (Steps.run (step steadyClock (fun _ => true)) init
      [.add 4 9, .add 70000 1, .add 5 20, .adjust 4 30, .tick]).map
        (fun s => (s.timer.heap, s.timer.refSize)) =
      some (#[⟨5, 22000000⟩, ⟨4, 33000000⟩], 140001) := by decide +kernel
  obtain ⟨s, hs, hobs⟩ := Option.map_eq_some_iff.mp hrun
  obtain ⟨hheap, hsize⟩ := Prod.mk.inj hobs
  exact ⟨s, hs, hheap, hsize, (timer_refines_map _ _ _ s hs).1⟩

end ClockedTimer
end TermChat
