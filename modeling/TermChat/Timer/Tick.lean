import TermChat.Timer.Expiries

/-! `Tick` and `GetNextTick`. The clock is the sequence of all its readings; `reads` counts those
that have been taken. -/
namespace TermChat
open HeapTimer

/-- `Tick` on a map: it takes entries of least expiry while they are due. The entries that it takes
are listed with the number of the reading at which they were due. -/
inductive Expiries.Ticks (clock : ℕ → ℤ) :
    Expiries → ℕ → List (TimerNode × ℕ) → Expiries → ℕ → Prop where
  | empty (m : Expiries) (reads : ℕ) (hnone : ∀ id, m id = none) : Ticks clock m reads [] m reads
  | stop (m : Expiries) (reads id : ℕ) (e : ℤ) (hleast : m.Least id e)
      (hlate : 0 < remaining e (clock reads)) : Ticks clock m reads [] m (reads + 1)
  | fire (m m' : Expiries) (reads reads' id : ℕ) (e : ℤ) (fired : List (TimerNode × ℕ))
      (hleast : m.Least id e) (hdue : remaining e (clock reads) ≤ 0)
      (hrest : Ticks clock (Function.update m id none) (reads + 1) fired m' reads') :
      Ticks clock m reads ((⟨id, e⟩, reads) :: fired) m' reads'

theorem HeapTimer.remaining_of_le {e now : ℤ} (h : now ≤ e) :
    remaining e now = (e - now) / 1000000 := by
  unfold remaining
  exact Int.tdiv_eq_ediv_of_nonneg (by omega)

theorem HeapTimer.remaining_of_ge {e now : ℤ} (h : e ≤ now) :
    remaining e now = -((now - e) / 1000000) := by
  unfold remaining
  rw [← Int.neg_sub, Int.neg_tdiv, Int.tdiv_eq_ediv_of_nonneg (by omega)]

theorem HeapTimer.remaining_pos {e now : ℤ} : 0 < remaining e now ↔ 1000000 ≤ e - now := by
  rcases Int.le_total now e with h | h
  · rw [remaining_of_le h]
    omega
  · rw [remaining_of_ge h]
    omega

namespace Expiries.Ticks

variable {clock : ℕ → ℤ} {m m' : Expiries} {reads reads' : ℕ} {fired : List (TimerNode × ℕ)}

theorem lookup (h : Ticks clock m reads fired m' reads') (id : ℕ) :
    m' id = if id ∈ fired.map (·.1.id) then none else m id := by
  induction h with
  | empty => rfl
  | stop => rfl
  | fire m m' reads reads' id' e fired hleast hdue hrest ih =>
    rw [ih, List.map_cons]
    by_cases hid : id = id'
    · simp [hid]
    · rw [Function.update_of_ne hid]
      simp only [List.mem_cons, hid, false_or]

theorem reads_le (h : Ticks clock m reads fired m' reads') : reads ≤ reads' := by
  induction h with
  | empty => exact Nat.le_refl _
  | stop => exact Nat.le_succ _
  | fire m m' reads reads' id e fired hleast hdue hrest ih => exact Nat.le_of_succ_le ih

theorem of_mem (h : Ticks clock m reads fired m' reads') {node : TimerNode} {k : ℕ}
    (hmem : (node, k) ∈ fired) :
    m node.id = some node.expires ∧ reads ≤ k ∧ k < reads' ∧ remaining node.expires (clock k) ≤ 0 := by
  induction h with
  | empty => cases hmem
  | stop => cases hmem
  | fire m m' reads reads' id e fired hleast hdue hrest ih =>
    rcases List.mem_cons.mp hmem with hmem | hmem
    · obtain ⟨rfl, rfl⟩ := Prod.mk.inj hmem
      exact ⟨hleast.1, Nat.le_refl k, hrest.reads_le, hdue⟩
    · obtain ⟨hnode, hlo, hhi, hdue⟩ := ih hmem
      have hne : node.id ≠ id := by
        rintro rfl
        rw [Function.update_self] at hnode
        cases hnode
      rw [Function.update_of_ne hne] at hnode
      exact ⟨hnode, Nat.le_of_succ_le hlo, hhi, hdue⟩

theorem nodup (h : Ticks clock m reads fired m' reads') : (fired.map (·.1.id)).Nodup := by
  induction h with
  | empty => exact List.nodup_nil
  | stop => exact List.nodup_nil
  | fire m m' reads reads' id e fired hleast hdue hrest ih =>
    refine List.nodup_cons.mpr ⟨fun hmem => ?_, ih⟩
    obtain ⟨⟨node, k⟩, hagain, hid⟩ := List.mem_map.mp hmem
    have hnode := (hrest.of_mem hagain).1
    rw [show node.id = id from hid, Function.update_self] at hnode
    cases hnode

theorem sorted (h : Ticks clock m reads fired m' reads') :
    fired.Pairwise fun a b => a.1.expires ≤ b.1.expires := by
  induction h with
  | empty => exact List.Pairwise.nil
  | stop => exact List.Pairwise.nil
  | fire m m' reads reads' id e fired hleast hdue hrest ih =>
    refine List.pairwise_cons.mpr ⟨fun a ha => ?_, ih⟩
    exact hleast.2 a.1.id a.1.expires
      ((Ticks.fire m m' reads reads' id e fired hleast hdue hrest).of_mem
        (List.mem_cons_of_mem _ ha)).1

theorem late (h : Ticks clock m reads fired m' reads') {id : ℕ} {e : ℤ} (hid : m' id = some e) :
    1000000 ≤ e - clock (reads' - 1) := by
  induction h with
  | empty m reads hnone =>
    rw [hnone] at hid
    cases hid
  | stop m reads id' e' hleast hlate =>
    have hle := hleast.2 id e hid
    have hpos := remaining_pos.mp hlate
    rw [Nat.add_sub_cancel]
    omega
  | fire m m' reads reads' id' e' fired hleast hdue hrest ih => exact ih hid

end Expiries.Ticks

namespace HeapTimer

/-- What `Tick` leaves: the timer, the number of readings so far, and the nodes for which it has
run the callback, each with the number of its reading. -/
structure Ticked where
  timer : HeapTimer
  reads : ℕ
  fired : List (TimerNode × ℕ)

variable (clock : ℕ → ℤ) (removes : ℕ → Bool)

/-- `removes` tells for every reading whether the callback that it leads to removes the id. -/
def tick (t : HeapTimer) (reads : ℕ) : Ticked :=
  if h : 0 < t.heap.size then
    let node := t.heap[0]
    if 0 < remaining node.expires (clock reads) then ⟨t, reads + 1, []⟩
    else
      let r := tick (t.fire node.id (removes reads)) (reads + 1)
      { r with fired := (node, reads) :: r.fired }
  else ⟨t, reads, []⟩
termination_by t.heap.size
decreasing_by exact t.size_fire_lt h (removes reads)

/-- The result is narrowed to an `int` before it is compared with 0. -/
def getNextTick (t : HeapTimer) (reads : ℕ) : Int32 × Ticked :=
  let r := tick clock removes t reads
  if h : 0 < r.timer.heap.size then
    let res := Int32.ofInt (remaining r.timer.heap[0].expires (clock r.reads))
    (if res < 0 then 0 else res, { r with reads := r.reads + 1 })
  else (-1, r)

theorem getNextTick_of_pos {t : HeapTimer} {reads : ℕ}
    (h : 0 < (tick clock removes t reads).timer.heap.size) :
    getNextTick clock removes t reads =
      (if Int32.ofInt (remaining (tick clock removes t reads).timer.heap[0].expires
          (clock (tick clock removes t reads).reads)) < 0 then 0
        else Int32.ofInt (remaining (tick clock removes t reads).timer.heap[0].expires
          (clock (tick clock removes t reads).reads)),
      { tick clock removes t reads with reads := (tick clock removes t reads).reads + 1 }) :=
  dif_pos h

theorem getNextTick_of_empty {t : HeapTimer} {reads : ℕ}
    (h : ¬ 0 < (tick clock removes t reads).timer.heap.size) :
    getNextTick clock removes t reads = (-1, tick clock removes t reads) :=
  dif_neg h

variable {t : HeapTimer}

theorem isHeap_tick (h : t.IsHeap) (reads : ℕ) : (tick clock removes t reads).timer.IsHeap := by
  fun_induction tick clock removes t reads with
  | case1 t reads h0 node hlate => exact h
  | case2 t reads h0 node hdue r ih => exact ih (isHeap_fire h _ _)
  | case3 t reads h0 => exact h

/-- `Tick` does to the map of the timer what it should. -/
theorem ticks_tick (h : t.IsHeap) (reads : ℕ) :
    Expiries.Ticks clock t.toMap reads (tick clock removes t reads).fired
      (tick clock removes t reads).timer.toMap (tick clock removes t reads).reads := by
  fun_induction tick clock removes t reads with
  | case1 t reads h0 node hlate => exact .stop _ _ _ _ (h.least h0) hlate
  | case2 t reads h0 node hdue r ih =>
    have hrest := ih (isHeap_fire h _ _)
    rw [toMap_fire] at hrest
    exact .fire _ _ _ _ _ _ _ (h.least h0) (not_lt.mp hdue) hrest
  | case3 t reads h0 => exact .empty _ _ (t.forall_toMap_eq_none.mpr (Nat.eq_zero_of_not_pos h0))

/-- Every reading but the last one fires a timer. -/
theorem reads_tick_le (t : HeapTimer) (reads : ℕ) :
    (tick clock removes t reads).reads ≤ reads + t.heap.size := by
  fun_induction tick clock removes t reads with
  | case1 t reads h0 node hlate => exact Nat.add_le_add_left h0 reads
  | case2 t reads h0 node hdue r ih =>
    have hlt : (t.fire node.id (removes reads)).heap.size < t.heap.size :=
      t.size_fire_lt h0 (removes reads)
    calc
      r.reads ≤ reads + 1 + (t.fire node.id (removes reads)).heap.size := ih
      _ ≤ reads + t.heap.size := by omega
  | case3 t reads h0 => exact Nat.le_add_right reads _

end HeapTimer
end TermChat
