import TermChat.Timer.Runs
import Mathlib.Algebra.Order.Ring.Int

/-! Which timers `Tick` fires, and what `GetNextTick` returns after it. -/
namespace TermChat
open HeapTimer

/-- `Tick` fires due timers, each once and the earlier ones first, and leaves the others, none of
which is due. It takes at most one reading for each timer. -/
structure HeapTimer.TickCorrect (clock : ℕ → ℤ) (t : HeapTimer) (reads : ℕ) (r : Ticked) : Prop where
  terminates : r.reads ≤ reads + t.heap.size
  once : (r.fired.map (·.1.id)).Nodup
  sorted : r.fired.Pairwise fun a b => a.1.expires ≤ b.1.expires
  due : ∀ node k, (node, k) ∈ r.fired → t.toMap node.id = some node.expires ∧
    reads ≤ k ∧ k < r.reads ∧ remaining node.expires (clock k) ≤ 0
  others : ∀ id, r.timer.toMap id = if id ∈ r.fired.map (·.1.id) then none else t.toMap id
  late : ∀ id e, r.timer.toMap id = some e → 1000000 ≤ e - clock (r.reads - 1)

theorem HeapTimer.IsHeap.tickCorrect {t : HeapTimer} (h : t.IsHeap) (clock : ℕ → ℤ)
    (removes : ℕ → Bool) (reads : ℕ) :
    TickCorrect clock t reads (tick clock removes t reads) := by
  have hticks := ticks_tick clock removes h reads
  exact ⟨reads_tick_le clock removes t reads, hticks.nodup, hticks.sorted,
    fun _ _ hmem => hticks.of_mem hmem, hticks.lookup, fun _ _ hid => hticks.late hid⟩

namespace Expiries

/-- No entry expires more than the longest timeout after a reading that has been taken. -/
def Recent (clock : ℕ → ℤ) (m : Expiries) (reads : ℕ) : Prop :=
  ∀ id e, m id = some e → ∃ k < reads, e ≤ clock k + (2 ^ 31 - 1) * 1000000

variable {clock : ℕ → ℤ} {m : Expiries} {reads : ℕ}

theorem deadline_le (now : ℤ) (timeOut : Int32) : deadline now timeOut ≤ now + (2 ^ 31 - 1) * 1000000 := by
  have hlt := timeOut.toInt_lt
  unfold deadline
  omega

theorem Recent.later (h : Recent clock m reads) {m' : Expiries} {reads' : ℕ}
    (hm : ∀ id e, m' id = some e → m id = some e) (hreads : reads ≤ reads') :
    Recent clock m' reads' := by
  intro id e he
  obtain ⟨k, hk, hle⟩ := h id e (hm id e he)
  exact ⟨k, Nat.lt_of_lt_of_le hk hreads, hle⟩

theorem Recent.set (h : Recent clock m reads) (id : ℕ) (timeOut : Int32) :
    Recent clock (Function.update m id (some (deadline (clock reads) timeOut))) (reads + 1) := by
  intro id' e he
  by_cases hid : id' = id
  · rw [hid, Function.update_self] at he
    rw [← Option.some.inj he]
    exact ⟨reads, Nat.lt_succ_self reads, deadline_le (clock reads) timeOut⟩
  · rw [Function.update_of_ne hid] at he
    obtain ⟨k, hk, hle⟩ := h id' e he
    exact ⟨k, Nat.lt_succ_of_lt hk, hle⟩

private theorem of_update_none {id id' : ℕ} {e : ℤ} (h : Function.update m id none id' = some e) :
    m id' = some e := by
  by_cases hid : id' = id
  · rw [hid, Function.update_self] at h
    cases h
  · rwa [Function.update_of_ne hid] at h

theorem Ticks.of_eq_some {m' : Expiries} {reads' : ℕ} {fired : List (TimerNode × ℕ)}
    (h : Ticks clock m reads fired m' reads') {id : ℕ} {e : ℤ} (he : m' id = some e) :
    m id = some e := by
  rw [h.lookup id] at he
  split_ifs at he
  exact he

theorem Recent.step {s s' : Expiries × ℕ} {call : TimerCall} (h : Recent clock s.1 s.2)
    (hstep : Step clock s call s') : Recent clock s'.1 s'.2 := by
  cases hstep with
  | add m reads id timeOut => exact h.set id timeOut
  | adjust m reads id newExpires hpresent => exact h.set id newExpires
  | remove m reads id => exact h.later (fun _ _ => of_update_none) (Nat.le_refl _)
  | doWork m reads id removes => exact h.later (fun _ _ => of_update_none) (Nat.le_refl _)
  | pop m reads id e hleast => exact h.later (fun _ _ => of_update_none) (Nat.le_refl _)
  | tick m m' reads reads' fired hticks =>
    exact h.later (fun _ _ => hticks.of_eq_some) hticks.reads_le
  | nextNone m m' reads reads' fired hticks hnone =>
    exact h.later (fun _ _ => hticks.of_eq_some) hticks.reads_le
  | nextSome m m' reads reads' id fired hticks hsome =>
    exact h.later (fun _ _ => hticks.of_eq_some) (Nat.le_succ_of_le hticks.reads_le)
  | clear m reads =>
    intro id e he
    cases he

/-- With a clock that does not go back, what remains fits an `int`. -/
theorem Recent.remaining_lt (h : Recent clock m reads) (hclock : ∀ i j, i ≤ j → clock i ≤ clock j) {id : ℕ} {e : ℤ}
    (he : m id = some e) : remaining e (clock reads) < 2 ^ 31 := by
  obtain ⟨k, hk, hle⟩ := h id e he
  have hnow := hclock k reads (Nat.le_of_lt hk)
  rcases Int.le_total (clock reads) e with hsign | hsign
  · rw [remaining_of_le hsign]
    omega
  · rw [remaining_of_ge hsign]
    omega

theorem Least.unique {id id' : ℕ} {e e' : ℤ} (h : m.Least id e) (h' : m.Least id' e') : e = e' :=
  le_antisymm (h.2 id' e' h'.1) (h'.2 id e h.1)

end Expiries

namespace HeapTimer

/-- The whole milliseconds by which `now` lies behind `expires`. -/
def overdue (expires now : ℤ) : ℕ := ((now - expires) / 1000000).toNat

private theorem toInt_narrowed (m : ℤ) :
    (if Int32.ofInt m < 0 then 0 else Int32.ofInt m).toInt = max 0 (m.bmod (2 ^ 32)) := by
  have hbmod : (Int32.ofInt m).toInt = m.bmod (2 ^ 32) := Int32.toInt_ofInt
  have hsign : Int32.ofInt m < 0 ↔ m.bmod (2 ^ 32) < 0 := by
    rw [Int32.lt_iff_toInt_lt, hbmod]
    rfl
  split_ifs with hneg
  · have hlt := hsign.mp hneg
    rw [max_eq_left hlt.le]
    rfl
  · have hge := not_lt.mp (mt hsign.mpr hneg)
    rw [hbmod, max_eq_right hge]

/-- Narrowed first and then cut off at 0, the milliseconds that remain come out right exactly when
those by which the timer is overdue do not wrap around to a positive number. -/
theorem narrowed_eq_iff {e now : ℤ} (hlt : remaining e now < 2 ^ 31) :
    max 0 ((remaining e now).bmod (2 ^ 32)) = max 0 (remaining e now) ↔
      overdue e now % 2 ^ 32 ≤ 2 ^ 31 := by
  rw [Int.bmod_def]
  unfold overdue
  rcases Int.le_total now e with hsign | hsign
  · rw [remaining_of_le hsign] at hlt ⊢
    have hzero : ((now - e) / 1000000).toNat = 0 := by omega
    split_ifs <;> omega
  · rw [remaining_of_ge hsign] at hlt ⊢
    split_ifs <;> omega

/-- What `GetNextTick` has to return after its `Tick`. -/
structure NextTickCorrect (clock : ℕ → ℤ) (r : Ticked) (res : Int32) : Prop where
  none_iff : res = -1 ↔ ∀ id, r.timer.toMap id = none
  earliest : ∀ id e, r.timer.toMap.Least id e → res.toInt = max 0 (remaining e (clock r.reads))

/-- When `GetNextTick` reads the clock, the earliest timer that is left is not overdue by more than
2^31 milliseconds, counted modulo 2^32. -/
def OnTime (clock : ℕ → ℤ) (r : Ticked) : Prop :=
  ∀ id e, r.timer.toMap.Least id e → overdue e (clock r.reads) % 2 ^ 32 ≤ 2 ^ 31

variable {clock : ℕ → ℤ}

theorem IsHeap.nextTickCorrect_iff {t : HeapTimer} (h : t.IsHeap) (hclock : ∀ i j, i ≤ j → clock i ≤ clock j)
    (removes : ℕ → Bool) (reads : ℕ) (hrecent : Expiries.Recent clock
      (tick clock removes t reads).timer.toMap (tick clock removes t reads).reads) :
    NextTickCorrect clock (tick clock removes t reads) (getNextTick clock removes t reads).1 ↔
      OnTime clock (tick clock removes t reads) := by
  have hheap := isHeap_tick clock removes h reads
  by_cases h0 : 0 < (tick clock removes t reads).timer.heap.size
  · have hfront := hheap.least h0
    have hres : (getNextTick clock removes t reads).1.toInt =
        max (0 : ℤ) ((remaining (tick clock removes t reads).timer.heap[0].expires
          (clock (tick clock removes t reads).reads)).bmod (2 ^ 32)) := by
      rw [getNextTick_of_pos clock removes h0]
      exact toInt_narrowed _
    have hiff := narrowed_eq_iff (hrecent.remaining_lt hclock hfront.1)
    constructor
    · intro hcorrect id e hleast
      rw [hleast.unique hfront, ← hiff, ← hres]
      exact hcorrect.earliest _ _ hfront
    · intro hontime
      refine ⟨iff_of_false ?_ ?_, ?_⟩
      · intro hminus
        rw [hminus] at hres
        have hneg : (-1 : Int32).toInt = -1 := rfl
        omega
      · intro hnone
        rw [forall_toMap_eq_none] at hnone
        omega
      · intro id e hleast
        rw [hleast.unique hfront, hres, hiff]
        exact hontime _ _ hfront
  · have hnone := (forall_toMap_eq_none _).mpr (Nat.eq_zero_of_not_pos h0)
    have habsent : ∀ id e, ¬ (tick clock removes t reads).timer.toMap.Least id e := by
      intro id e hleast
      have hid := hleast.1
      rw [hnone] at hid
      cases hid
    rw [getNextTick_of_empty clock removes h0]
    exact iff_of_true ⟨iff_of_true rfl hnone, fun id e hleast => absurd hleast (habsent id e)⟩
      fun id e hleast => absurd hleast (habsent id e)

end HeapTimer

namespace ClockedTimer

/-- After every run with a clock that does not go back, `Tick` is correct, and what `GetNextTick`
returns is correct exactly when its own clock reading is on time. -/
theorem tick_correct_next_iff (clock : ℕ → ℤ) (hclock : ∀ i j, i ≤ j → clock i ≤ clock j) (removes : ℕ → Bool)
    (calls : List TimerCall) (s : ClockedTimer)
    (hrun : Steps.run (step clock removes) init calls = some s) :
    TickCorrect clock s.timer s.reads (tick clock removes s.timer s.reads) ∧
      (NextTickCorrect clock (tick clock removes s.timer s.reads)
          (getNextTick clock removes s.timer s.reads).1 ↔
        OnTime clock (tick clock removes s.timer s.reads)) := by
  have hheap := isHeap_of_run hrun
  have hrecent : Expiries.Recent clock s.timer.toMap s.reads := by
    apply (path_of_run hrun).invariant (J := fun x => Expiries.Recent clock x.1 x.2)
    · intro x call y hx hstep
      exact hx.step hstep
    · intro id e he
      cases he
  have hticks := ticks_tick clock removes hheap s.reads
  exact ⟨hheap.tickCorrect clock removes s.reads, hheap.nextTickCorrect_iff hclock removes s.reads
    (hrecent.later (fun _ _ => hticks.of_eq_some) hticks.reads_le)⟩

/-- Two timers, of which one is due when `Tick` looks; its callback removes it. -/
theorem tick_correct_next_two :
    ∃ s, Steps.run (step steadyClock (fun _ => true)) init [.add 4 9, .add 7 1] = some s ∧
      (tick steadyClock (fun _ => true) s.timer s.reads).fired = [(⟨7, 2000000⟩, 2)] ∧
      TickCorrect steadyClock s.timer s.reads
        (tick steadyClock (fun _ => true) s.timer s.reads) ∧
      NextTickCorrect steadyClock
        (tick steadyClock (fun _ => true) s.timer s.reads)
        (getNextTick steadyClock (fun _ => true) s.timer s.reads).1 := by
  have hrun : (Steps.run (step steadyClock (fun _ => true)) init
      [.add 4 9, .add 7 1]).map
        (fun s => (tick steadyClock (fun _ => true) s.timer s.reads).fired) =
      some [(⟨7, 2000000⟩, 2)] := by decide +kernel
  obtain ⟨s, hs, hfired⟩ := Option.map_eq_some_iff.mp hrun
  have hclock : ∀ i j, i ≤ j → steadyClock i ≤ steadyClock j := by
    intro i j hij
    unfold steadyClock
    omega
  obtain ⟨htick, hnext⟩ := tick_correct_next_iff _ hclock _ _ s hs
  refine ⟨s, hs, hfired, htick, hnext.mpr fun id e hleast => ?_⟩
  have hlate := htick.late id e hleast.1
  unfold overdue steadyClock at *
  omega

/-- A clock that jumps by more than 2^31 milliseconds between the last reading of `Tick` and the
one of `GetNextTick`. -/
def jumpingClock (k : ℕ) : ℤ := if k < 2 then 0 else 2147483650000000

/-- The timer is overdue by 2147483649 milliseconds, and 2147483647 is returned. -/
theorem next_tick_wraps :
    (∀ i j, i ≤ j → jumpingClock i ≤ jumpingClock j) ∧
    ∃ s, Steps.run (step jumpingClock (fun _ => false)) init [.add 1 1] = some s ∧
      (getNextTick jumpingClock (fun _ => false) s.timer s.reads).1 = 2147483647 ∧
      ¬ NextTickCorrect jumpingClock (tick jumpingClock (fun _ => false) s.timer s.reads)
        (getNextTick jumpingClock (fun _ => false) s.timer s.reads).1 := by
  have hclock : ∀ i j, i ≤ j → jumpingClock i ≤ jumpingClock j := by
    intro i j hij
    unfold jumpingClock
    split_ifs <;> omega
  have hrun : (Steps.run (step jumpingClock (fun _ => false)) init [.add 1 1]).map (fun s =>
      ((getNextTick jumpingClock (fun _ => false) s.timer s.reads).1,
        (tick jumpingClock (fun _ => false) s.timer s.reads).timer.heap,
        (tick jumpingClock (fun _ => false) s.timer s.reads).reads)) =
      some (2147483647, #[⟨1, 1000000⟩], 2) := by decide +kernel
  obtain ⟨s, hs, hobs⟩ := Option.map_eq_some_iff.mp hrun
  simp only [Prod.mk.injEq] at hobs
  obtain ⟨hres, hheap, hreads⟩ := hobs
  have hleast : (tick jumpingClock (fun _ => false) s.timer s.reads).timer.toMap.Least 1 1000000 := by
    refine ⟨(toMap_eq_some _).mpr (by simp [hheap]), fun id e he => ?_⟩
    rw [toMap_eq_some, hheap] at he
    simp only [List.mem_toArray, List.mem_singleton, TimerNode.mk.injEq] at he
    exact he.2.ge
  refine ⟨hclock, s, hs, hres, fun hcorrect => ?_⟩
  have hwrong := hcorrect.earliest 1 1000000 hleast
  rw [hres, hreads] at hwrong
  exact absurd hwrong (by decide)

end ClockedTimer
end TermChat
