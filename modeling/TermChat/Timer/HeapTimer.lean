import TermChat.Base.BinaryHeap
import Mathlib.Data.Int.Order.Basic

/-! `HeapTimer`: timers in a binary heap, with the position of every id. The asserts of the source
are the hypotheses of the definitions. Times are nanoseconds of the clock. -/
namespace TermChat
open BinaryHeap

structure TimerNode where
  id : ℕ
  expires : ℤ
  deriving DecidableEq, Repr

/-- `ref id` is `ref_[id]`, with `none` for -1; there is nothing else from `refSize` on. -/
structure HeapTimer where
  heap : Array TimerNode
  refSize : ℕ
  ref : ℕ → Option ℕ
  linked : ∀ id i, ref id = some i ↔ heap[i]?.map TimerNode.id = some id
  inside : ∀ id, refSize ≤ id → ref id = none

namespace HeapTimer

def init : HeapTimer where
  heap := #[]
  refSize := 65536
  ref := fun _ => none
  linked := by simp
  inside := by simp

variable (t : HeapTimer) {i j n : ℕ}

theorem ref_heap (hi : i < t.heap.size) : t.ref t.heap[i].id = some i := by
  rw [t.linked, Array.getElem?_eq_getElem hi, Option.map_some]

theorem lt_size_of_ref {id : ℕ} (h : t.ref id = some i) : i < t.heap.size := by
  have hid := (t.linked id i).mp h
  by_contra hi
  rw [Array.getElem?_eq_none (by omega)] at hid
  cases hid

theorem id_of_ref {id : ℕ} (h : t.ref id = some i) (hi : i < t.heap.size) : t.heap[i].id = id := by
  have hid := (t.linked id i).mp h
  rw [Array.getElem?_eq_getElem hi] at hid
  exact Option.some.inj hid

theorem getElem?_swap (hi : i < t.heap.size) (hj : j < t.heap.size) (k : ℕ) :
    (t.heap.swap i j)[k]? = t.heap[Equiv.swap i j k]? := by
  rw [Array.getElem?_swap hi hj, Equiv.swap_apply_def]
  by_cases hkj : j = k
  · subst hkj
    by_cases hji : j = i
    · subst hji
      simp [hj]
    · simp [hji, hi]
  · by_cases hki : i = k
    · subst hki
      simp [hkj, hj]
    · simp [hkj, hki, Ne.symm hkj, Ne.symm hki]

private theorem ref_swap (hi : i < t.heap.size) (hj : j < t.heap.size) (id : ℕ) :
    Function.update (Function.update t.ref t.heap[j].id (some i)) t.heap[i].id (some j) id =
      (t.ref id).map (Equiv.swap i j) := by
  by_cases hidi : id = t.heap[i].id
  · rw [hidi, Function.update_self, t.ref_heap hi, Option.map_some, Equiv.swap_apply_left]
  · rw [Function.update_of_ne hidi]
    by_cases hidj : id = t.heap[j].id
    · rw [hidj, Function.update_self, t.ref_heap hj, Option.map_some, Equiv.swap_apply_right]
    · rw [Function.update_of_ne hidj]
      cases hk : t.ref id with
      | none => rfl
      | some k =>
        have hki : k ≠ i := by
          rintro rfl
          exact hidi (t.id_of_ref hk hi).symm
        have hkj : k ≠ j := by
          rintro rfl
          exact hidj (t.id_of_ref hk hj).symm
        rw [Option.map_some, Equiv.swap_apply_of_ne_of_ne hki hkj]

def swapNode (i j : ℕ) (hi : i < t.heap.size) (hj : j < t.heap.size) : HeapTimer where
  heap := t.heap.swap i j
  refSize := t.refSize
  ref := Function.update (Function.update t.ref t.heap[j].id (some i)) t.heap[i].id (some j)
  linked := by
    intro id k
    rw [t.ref_swap hi hj, t.getElem?_swap hi hj, ← t.linked, Option.map_eq_some_iff]
    constructor
    · rintro ⟨l, hl, rfl⟩
      rwa [Equiv.swap_apply_self]
    · intro h
      exact ⟨_, h, Equiv.swap_apply_self i j k⟩
  inside := by
    intro id hid
    rw [t.ref_swap hi hj, t.inside id hid, Option.map_none]

@[simp] theorem size_swapNode (hi : i < t.heap.size) (hj : j < t.heap.size) :
    (t.swapNode i j hi hj).heap.size = t.heap.size := Array.size_swap

def expiresAt (i : ℕ) : ℤ := (t.heap[i]?).elim 0 TimerNode.expires

theorem expiresAt_swapNode (hi : i < t.heap.size) (hj : j < t.heap.size) :
    (t.swapNode i j hi hj).expiresAt = t.expiresAt ∘ Equiv.swap i j := by
  funext k
  exact congrArg (Option.elim · 0 TimerNode.expires) (t.getElem?_swap hi hj k)

def siftUp (t : HeapTimer) (i : ℕ) (hi : i < t.heap.size) : HeapTimer :=
  if h : 0 < i then
    if t.expiresAt i < t.expiresAt (parent i) then
      (t.swapNode i (parent i) hi (Nat.lt_trans (parent_lt h) hi)).siftUp (parent i)
        (by simpa using Nat.lt_trans (parent_lt h) hi)
    else t
  else t
termination_by i
decreasing_by exact parent_lt h

/-- The child that `SiftDown_` compares with. -/
def lesserChild (i n : ℕ) : ℕ :=
  if 2 * i + 1 + 1 < n ∧ t.expiresAt (2 * i + 1 + 1) < t.expiresAt (2 * i + 1) then 2 * i + 1 + 1
  else 2 * i + 1

theorem lesserChild_lt (h : 2 * i + 1 < n) : t.lesserChild i n < n := by
  unfold lesserChild
  split_ifs with hsecond
  · exact hsecond.1
  · exact h

theorem parent_lesserChild : parent (t.lesserChild i n) = i := by
  unfold lesserChild parent
  split_ifs <;> omega

theorem lt_lesserChild : i < t.lesserChild i n := by
  unfold lesserChild
  split_ifs <;> omega

/-- The loop of `SiftDown_`, with the position where it ends. -/
def siftDownFrom (t : HeapTimer) (i n : ℕ) (hi : i < t.heap.size) (hn : n ≤ t.heap.size) :
    HeapTimer × ℕ :=
  if h : 2 * i + 1 < n then
    if t.expiresAt i < t.expiresAt (t.lesserChild i n) then (t, i)
    else
      (t.swapNode i (t.lesserChild i n) hi (Nat.lt_of_lt_of_le (t.lesserChild_lt h) hn)).siftDownFrom
        (t.lesserChild i n) n (by simpa using Nat.lt_of_lt_of_le (t.lesserChild_lt h) hn)
        (by simpa using hn)
  else (t, i)
termination_by n - i
decreasing_by
  have hlt := t.lesserChild_lt h
  have hgt := t.lt_lesserChild (i := i) (n := n)
  omega

def siftDown (index n : ℕ) (hi : index < t.heap.size) (hn : n ≤ t.heap.size) : HeapTimer × Bool :=
  let r := t.siftDownFrom index n hi hn
  (r.1, decide (index < r.2))

/-- The same nodes in other places, but for those from position `n` on. -/
structure Reshuffled (n : ℕ) (t u : HeapTimer) : Prop where
  perm : u.heap.Perm t.heap
  refSize : u.refSize = t.refSize
  kept : ∀ k, n ≤ k → u.heap[k]? = t.heap[k]?

namespace Reshuffled

variable {t} {u v : HeapTimer}

theorem refl (n : ℕ) (t : HeapTimer) : Reshuffled n t t :=
  ⟨.refl _, rfl, fun _ _ => rfl⟩

theorem trans (h : Reshuffled n t u) (h' : Reshuffled n u v) : Reshuffled n t v :=
  ⟨h'.perm.trans h.perm, h'.refSize.trans h.refSize,
    fun k hk => (h'.kept k hk).trans (h.kept k hk)⟩

theorem swapNode (hi : i < t.heap.size) (hj : j < t.heap.size) (hin : i < n) (hjn : j < n) :
    Reshuffled n t (t.swapNode i j hi hj) := by
  refine ⟨Array.swap_perm hi hj, rfl, fun k hk => ?_⟩
  have hki : k ≠ i := by omega
  have hkj : k ≠ j := by omega
  change (t.heap.swap i j)[k]? = _
  rw [t.getElem?_swap hi hj, Equiv.swap_apply_of_ne_of_ne hki hkj]

theorem size (h : Reshuffled n t u) : u.heap.size = t.heap.size := h.perm.size_eq

end Reshuffled

theorem reshuffled_siftUp (hi : i < t.heap.size) (hin : i < n) :
    Reshuffled n t (t.siftUp i hi) := by
  fun_induction siftUp t i hi with
  | case1 t i hi h hlt ih =>
    have hp := parent_lt h
    exact (Reshuffled.swapNode hi _ hin (by omega)).trans (ih (by omega))
  | case2 t i hi h hge => exact .refl n t
  | case3 t i hi h => exact .refl n t

theorem ordered_siftUp (hi : i < t.heap.size) (hin : i < n) (h : OrderedUp t.expiresAt n i) :
    Ordered (t.siftUp i hi).expiresAt n := by
  fun_induction siftUp t i hi with
  | case1 t i hi h0 hlt ih =>
    have hp := parent_lt h0
    apply ih (by omega)
    rw [expiresAt_swapNode]
    exact h.swap h0 hin hlt.le
  | case2 t i hi h0 hge => exact h.finish fun _ => not_lt.mp hge
  | case3 t i hi h0 => exact h.finish fun h0' => absurd h0' h0

theorem lesserChild_le (h0 : 0 < j) (hj : j < n) (hp : parent j = i) :
    t.expiresAt (t.lesserChild i n) ≤ t.expiresAt j := by
  unfold lesserChild
  rcases (parent_eq_iff h0).mp hp with rfl | rfl
  · split_ifs with hsecond
    · exact hsecond.2.le
    · exact le_refl _
  · split_ifs with hsecond
    · exact le_refl _
    · exact not_lt.mp fun hlt => hsecond ⟨hj, hlt⟩

theorem reshuffled_siftDownFrom (hi : i < t.heap.size) (hn : n ≤ t.heap.size) :
    Reshuffled n t (t.siftDownFrom i n hi hn).1 ∧ i ≤ (t.siftDownFrom i n hi hn).2 := by
  fun_induction siftDownFrom t i n hi hn with
  | case1 t i hi hn h hlt => exact ⟨.refl n t, Nat.le_refl i⟩
  | case2 t i hi hn h hge ih =>
    have hlt := t.lesserChild_lt h
    have hgt := t.lt_lesserChild (i := i) (n := n)
    exact ⟨(Reshuffled.swapNode hi _ (by omega) hlt).trans ih.1, by omega⟩
  | case3 t i hi hn h => exact ⟨.refl n t, Nat.le_refl i⟩

theorem ordered_siftDownFrom (hi : i < t.heap.size) (hn : n ≤ t.heap.size)
    (h : OrderedDown t.expiresAt n i) : Ordered (t.siftDownFrom i n hi hn).1.expiresAt n := by
  fun_induction siftDownFrom t i n hi hn with
  | case1 t i hi hn hc hlt =>
    exact h.finish fun j h0 hj hp => (hlt.trans_le (t.lesserChild_le h0 hj hp)).le
  | case2 t i hi hn hc hge ih =>
    apply ih
    rw [expiresAt_swapNode]
    exact h.swap (Nat.zero_lt_of_lt t.lt_lesserChild) (t.lesserChild_lt hc) t.parent_lesserChild
      (not_lt.mp hge) fun j h0 hj hp => t.lesserChild_le h0 hj hp
  | case3 t i hi hn hc =>
    refine h.finish fun j h0 hj hp => ?_
    have hchild := (parent_eq_iff h0).mp hp
    omega

theorem reshuffled_siftDown (hi : i < t.heap.size) (hn : n ≤ t.heap.size) :
    Reshuffled n t (t.siftDown i n hi hn).1 := (t.reshuffled_siftDownFrom hi hn).1

/-- `SiftDown_` moves the key at `i` to its place, or it does nothing and the key is not above its
children. -/
theorem siftDown_cases (hi : i < t.heap.size) (hn : n ≤ t.heap.size)
    (h : OrderedExcept t.expiresAt n i) :
    (t.siftDown i n hi hn).2 = true ∧ Ordered (t.siftDown i n hi hn).1.expiresAt n ∨
      t.siftDown i n hi hn = (t, false) ∧ OrderedUp t.expiresAt n i := by
  unfold siftDown
  rw [siftDownFrom]
  split_ifs with hc hlt
  · refine .inr ⟨by simp, h, fun j h0 hj hp => ?_⟩
    exact (hlt.trans_le (t.lesserChild_le h0 hj hp)).le
  · have hgt := t.lt_lesserChild (i := i) (n := n)
    have hchild := Nat.lt_of_lt_of_le (t.lesserChild_lt hc) hn
    have hle := ((t.swapNode i _ hi hchild).reshuffled_siftDownFrom
      (by simpa using hchild) (by simpa using hn)).2
    refine .inl ⟨decide_eq_true (Nat.lt_of_lt_of_le hgt hle), ?_⟩
    apply ordered_siftDownFrom
    rw [expiresAt_swapNode]
    exact h.swap (Nat.zero_lt_of_lt hgt) (t.lesserChild_lt hc) t.parent_lesserChild
      (not_lt.mp hlt) fun j h0 hj hp => t.lesserChild_le h0 hj hp
  · refine .inr ⟨by simp, h, fun j h0 hj hp => ?_⟩
    have hchild := (parent_eq_iff h0).mp hp
    omega

/-- Down, or else up: how every change of a key in the middle of the heap ends. -/
def settle (index n : ℕ) (hi : index < t.heap.size) (hn : n ≤ t.heap.size) : HeapTimer :=
  if (t.siftDown index n hi hn).2 then (t.siftDown index n hi hn).1
  else
    (t.siftDown index n hi hn).1.siftUp index (by rwa [(t.reshuffled_siftDown hi hn).size])

theorem reshuffled_settle (hi : i < t.heap.size) (hn : n ≤ t.heap.size) (hin : i < n) :
    Reshuffled n t (t.settle i n hi hn) := by
  unfold settle
  split_ifs
  · exact t.reshuffled_siftDown hi hn
  · exact (t.reshuffled_siftDown hi hn).trans (reshuffled_siftUp _ _ hin)

theorem ordered_settle (hi : i < t.heap.size) (hn : n ≤ t.heap.size) (hin : i < n)
    (h : OrderedExcept t.expiresAt n i) : Ordered (t.settle i n hi hn).expiresAt n := by
  unfold settle
  rcases t.siftDown_cases hi hn h with ⟨hmoved, hord⟩ | ⟨hsame, hup⟩
  · rw [if_pos hmoved]
    exact hord
  · simp only [hsame, Bool.false_eq_true, if_false]
    exact t.ordered_siftUp hi hin hup

def setExpires (i : ℕ) (e : ℤ) (hi : i < t.heap.size) : HeapTimer where
  heap := t.heap.set i { t.heap[i] with expires := e }
  refSize := t.refSize
  ref := t.ref
  linked := by
    intro id k
    rw [t.linked, Array.getElem?_set]
    split_ifs with hk
    · subst hk
      rw [Array.getElem?_eq_getElem hi, Option.map_some, Option.map_some]
    · rfl
  inside := t.inside

@[simp] theorem size_setExpires (e : ℤ) (hi : i < t.heap.size) :
    (t.setExpires i e hi).heap.size = t.heap.size := Array.size_set hi

/-- `ref_[id] = n; heap_.push_back({id, ...})`, where `n` is the size. -/
def pushBack (node : TimerNode) (hroom : node.id < t.refSize) (habsent : t.ref node.id = none) :
    HeapTimer where
  heap := t.heap.push node
  refSize := t.refSize
  ref := Function.update t.ref node.id (some t.heap.size)
  linked := by
    intro id k
    rw [Array.getElem?_push]
    by_cases hid : id = node.id
    · subst hid
      rw [Function.update_self]
      split_ifs with hk
      · simp [hk]
      · rw [← t.linked, habsent]
        simp [Ne.symm hk]
    · rw [Function.update_of_ne hid, t.linked]
      split_ifs with hk
      · rw [hk, Array.getElem?_eq_none (Nat.le_refl _)]
        simp [Ne.symm hid]
      · rfl
  inside := by
    intro id hid
    rw [Function.update_of_ne (by omega), t.inside id hid]

/-- `ref_[deleted_id] = -1; heap_.pop_back()`, for the id at the back. -/
def popBack (deletedId : ℕ) (h : t.heap.back?.map TimerNode.id = some deletedId) : HeapTimer where
  heap := t.heap.pop
  refSize := t.refSize
  ref := Function.update t.ref deletedId none
  linked := by
    have hback : t.ref deletedId = some (t.heap.size - 1) := by
      rw [t.linked, ← Array.back?_eq_getElem?, h]
    intro id k
    rw [Array.getElem?_pop]
    by_cases hid : id = deletedId
    · subst hid
      rw [Function.update_self]
      split_ifs with hk
      · rw [← t.linked, hback, Option.some_inj]
        simp
        omega
      · simp
    · rw [Function.update_of_ne hid, t.linked]
      split_ifs with hk
      · rfl
      · rw [← t.linked]
        simp only [Option.map_none, reduceCtorEq, iff_false]
        intro href
        have hlt := t.lt_size_of_ref href
        obtain rfl : k = t.heap.size - 1 := by omega
        exact hid (Option.some.inj (((t.linked _ _).mp href).symm.trans ((t.linked _ _).mp hback)))
  inside := by
    intro id hid
    by_cases heq : id = deletedId
    · rw [heq, Function.update_self]
    · rw [Function.update_of_ne heq, t.inside id hid]

/-- The deleted node is swapped with the last one, which then goes to its place. -/
def moveToBack (index : ℕ) (h : index < t.heap.size - 1) : HeapTimer :=
  (t.swapNode index (t.heap.size - 1) (by omega) (by omega)).settle index (t.heap.size - 1)
    (by rw [size_swapNode]; omega) (by rw [size_swapNode]; omega)

theorem reshuffled_swapped_moveToBack (h : i < t.heap.size - 1) :
    Reshuffled (t.heap.size - 1) (t.swapNode i (t.heap.size - 1) (by omega) (by omega))
      (t.moveToBack i h) := by
  apply reshuffled_settle
  exact h

theorem reshuffled_moveToBack (h : i < t.heap.size - 1) :
    Reshuffled t.heap.size t (t.moveToBack i h) := by
  have hsettle := t.reshuffled_swapped_moveToBack h
  have hswap : Reshuffled t.heap.size t (t.swapNode i (t.heap.size - 1) (by omega) (by omega)) :=
    Reshuffled.swapNode _ _ (by omega) (by omega)
  exact hswap.trans ⟨hsettle.perm, hsettle.refSize, fun k hk => hsettle.kept k (by omega)⟩

private theorem back_moveToBack (h : i < t.heap.size - 1) :
    (t.moveToBack i h).heap.back? = some t.heap[i] := by
  rw [Array.back?_eq_getElem?, (t.reshuffled_moveToBack h).size]
  apply ((t.reshuffled_swapped_moveToBack h).kept _ (Nat.le_refl _)).trans
  change (t.heap.swap i (t.heap.size - 1))[t.heap.size - 1]? = _
  rw [t.getElem?_swap, Equiv.swap_apply_right, Array.getElem?_eq_getElem]

def del (index : ℕ) (hi : index < t.heap.size) : HeapTimer :=
  let deletedId := t.heap[index].id
  if h : index < t.heap.size - 1 then
    (t.moveToBack index h).popBack deletedId (by rw [t.back_moveToBack h, Option.map_some])
  else
    t.popBack deletedId (by
      obtain rfl : index = t.heap.size - 1 := by omega
      rw [Array.back?_eq_getElem?, Array.getElem?_eq_getElem hi, Option.map_some])

/-- `now + MS(timeOut)`. -/
def deadline (now : ℤ) (timeOut : Int32) : ℤ := now + timeOut.toInt * 1000000

/-- `duration_cast<MS>(expires - now).count()`, which rounds towards zero. -/
def remaining (expires now : ℤ) : ℤ := (expires - now).tdiv 1000000

/-- Fails if the id is absent, as the assert of the source. -/
def adjust (id : ℕ) (newExpires : Int32) (now : ℤ) : Option HeapTimer :=
  match h : t.ref id with
  | none => none
  | some i =>
    let u := t.setExpires i (deadline now newExpires) (t.lt_size_of_ref h)
    let r := u.siftDown i u.heap.size (by rw [size_setExpires]; exact t.lt_size_of_ref h)
      (Nat.le_refl _)
    if r.2 then some r.1
    else
      -- `ref_[id]` is read again here
      match h' : r.1.ref id with
      | none => none
      | some j => some (r.1.siftUp j (r.1.lt_size_of_ref h'))

def reschedule (i : ℕ) (e : ℤ) (hi : i < t.heap.size) : HeapTimer :=
  (t.setExpires i e hi).settle i (t.setExpires i e hi).heap.size (by rwa [size_setExpires])
    (Nat.le_refl _)

/-- `ref_.resize(n, -1)`, which never makes it shorter here. -/
def resizeRef (n : ℕ) (hn : t.refSize ≤ n) : HeapTimer where
  heap := t.heap
  refSize := n
  ref := t.ref
  linked := t.linked
  inside := fun id hid => t.inside id (Nat.le_trans hn hid)

/-- `ref_` as long as `Add` makes it. -/
def grow (id : ℕ) : HeapTimer :=
  if h : t.refSize ≤ id then t.resizeRef (id * 2 + 1) (by omega) else t

theorem lt_refSize_grow (id : ℕ) : id < (t.grow id).refSize := by
  unfold grow
  split_ifs with h
  · change id < id * 2 + 1
    omega
  · omega

def add (id : ℕ) (timeOut : Int32) (now : ℤ) : HeapTimer :=
  let u := t.grow id
  match h : u.ref id with
  | some tmp => u.reschedule tmp (deadline now timeOut) (u.lt_size_of_ref h)
  | none =>
    (u.pushBack ⟨id, deadline now timeOut⟩ (t.lt_refSize_grow id) h).siftUp u.heap.size
      (by simp [pushBack])

def remove (id : ℕ) : HeapTimer :=
  if t.refSize ≤ id then t
  else
    match h : t.ref id with
    | none => t
    | some i => t.del i (t.lt_size_of_ref h)

/-- What the callback for `id` does to the timer: nothing, or it removes the id. -/
def callback (id : ℕ) (removes : Bool) : HeapTimer := if removes then t.remove id else t

/-- `callback_(id); Remove(id)`. -/
def fire (id : ℕ) (removes : Bool) : HeapTimer := (t.callback id removes).remove id

def doWork (id : ℕ) (removes : Bool) : HeapTimer :=
  if t.refSize ≤ id then t
  else
    match t.ref id with
    | none => t
    | some _ => t.fire id removes

def pop : Option HeapTimer :=
  if h : 0 < t.heap.size then some (t.del 0 h) else none

def clear : HeapTimer where
  heap := #[]
  refSize := t.refSize
  ref := fun _ => none
  linked := by simp
  inside := by simp

end HeapTimer
end TermChat
