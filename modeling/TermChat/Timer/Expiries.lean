import TermChat.Timer.HeapTimer

/-! The map from ids to expiry times that a `HeapTimer` stands for, and what each of its operations
does to the map and to the order of the heap. -/
namespace TermChat
open BinaryHeap

abbrev Expiries := ℕ → Option ℤ

/-- An entry that no other one expires before. -/
def Expiries.Least (m : Expiries) (id : ℕ) (e : ℤ) : Prop :=
  m id = some e ∧ ∀ id' e', m id' = some e' → e ≤ e'

namespace HeapTimer

variable (t : HeapTimer) {u : HeapTimer} {i n : ℕ}

def toMap : Expiries := fun id => (t.ref id).bind fun i => t.heap[i]?.map TimerNode.expires

theorem toMap_of_ref {id : ℕ} (h : t.ref id = some i) (hi : i < t.heap.size) :
    t.toMap id = some t.heap[i].expires := by
  unfold toMap
  rw [h, Option.bind_some, Array.getElem?_eq_getElem hi, Option.map_some]

theorem toMap_eq_none {id : ℕ} : t.toMap id = none ↔ t.ref id = none := by
  cases h : t.ref id with
  | none => simp [toMap, h]
  | some i => simp [t.toMap_of_ref h (t.lt_size_of_ref h)]

theorem toMap_eq_some {id : ℕ} {e : ℤ} : t.toMap id = some e ↔ ⟨id, e⟩ ∈ t.heap := by
  constructor
  · intro h
    obtain ⟨i, hi, he⟩ := Option.bind_eq_some_iff.mp h
    have hlt := t.lt_size_of_ref hi
    have hnode : t.heap[i] = ⟨id, e⟩ := by
      rw [Array.getElem?_eq_getElem hlt] at he
      rw [← t.id_of_ref hi hlt, ← Option.some.inj he]
    rw [← hnode]
    exact Array.getElem_mem hlt
  · intro h
    obtain ⟨i, hi, hnode⟩ := Array.mem_iff_getElem.mp h
    have href := t.ref_heap hi
    rw [hnode] at href
    rw [t.toMap_of_ref href hi, hnode]

theorem forall_toMap_eq_none : (∀ id, t.toMap id = none) ↔ t.heap.size = 0 := by
  constructor
  · intro hnone
    by_contra hsize
    have hfront := t.toMap_of_ref (t.ref_heap (Nat.pos_of_ne_zero hsize)) (Nat.pos_of_ne_zero hsize)
    rw [hnone] at hfront
    cases hfront
  · intro hsize id
    rw [toMap_eq_none]
    cases href : t.ref id with
    | none => rfl
    | some i =>
      have hlt := t.lt_size_of_ref href
      omega

theorem toMap_heap (hi : i < t.heap.size) : t.toMap t.heap[i].id = some t.heap[i].expires :=
  t.toMap_eq_some.mpr (Array.getElem_mem hi)

variable {t} in
theorem Reshuffled.toMap (h : Reshuffled n t u) : u.toMap = t.toMap := by
  funext id
  apply Option.ext
  intro e
  rw [toMap_eq_some, toMap_eq_some, h.perm.mem_iff]

private theorem toMap_setExpires (e : ℤ) (hi : i < t.heap.size) :
    (t.setExpires i e hi).toMap = Function.update t.toMap t.heap[i].id (some e) := by
  funext id
  by_cases hid : id = t.heap[i].id
  · have href : (t.setExpires i e hi).ref id = some i := hid ▸ t.ref_heap hi
    rw [hid, Function.update_self, ← hid, toMap_of_ref _ href (by simpa [setExpires] using hi)]
    simp [setExpires]
  · rw [Function.update_of_ne hid]
    change (t.ref id).bind (fun k => (t.heap.set i _)[k]?.map TimerNode.expires) = t.toMap id
    unfold toMap
    cases hk : t.ref id with
    | none => rfl
    | some k =>
      have hki : i ≠ k := by
        rintro rfl
        exact hid (t.id_of_ref hk hi).symm
      simp only [Option.bind_some]
      rw [Array.getElem?_set hi, if_neg hki]

private theorem toMap_pushBack (node : TimerNode) (hroom : node.id < t.refSize)
    (habsent : t.ref node.id = none) :
    (t.pushBack node hroom habsent).toMap = Function.update t.toMap node.id (some node.expires) := by
  funext id
  by_cases hid : id = node.id
  · have href : (t.pushBack node hroom habsent).ref id = some t.heap.size := by
      rw [hid]
      exact Function.update_self _ _ _
    rw [hid, Function.update_self, ← hid, toMap_of_ref _ href (by simp [pushBack])]
    simp [pushBack]
  · rw [Function.update_of_ne hid]
    have href : (t.pushBack node hroom habsent).ref id = t.ref id := Function.update_of_ne hid _ _
    unfold toMap
    rw [href]
    cases hk : t.ref id with
    | none => rfl
    | some k =>
      have hlt := t.lt_size_of_ref hk
      change (t.heap.push node)[k]?.map _ = t.heap[k]?.map _
      rw [Array.getElem?_push, if_neg (by omega)]

private theorem toMap_popBack (deletedId : ℕ) (h : t.heap.back?.map TimerNode.id = some deletedId) :
    (t.popBack deletedId h).toMap = Function.update t.toMap deletedId none := by
  funext id
  by_cases hid : id = deletedId
  · rw [hid, Function.update_self, toMap_eq_none]
    exact Function.update_self _ _ _
  · rw [Function.update_of_ne hid]
    have href : (t.popBack deletedId h).ref id = t.ref id := Function.update_of_ne hid _ _
    unfold toMap
    rw [href]
    cases hk : t.ref id with
    | none => rfl
    | some k =>
      have hlt := t.lt_size_of_ref hk
      have hne : k ≠ t.heap.size - 1 := by
        rintro rfl
        rw [Array.back?_eq_getElem?, (t.linked _ _).mp hk] at h
        exact hid (Option.some.inj h)
      change t.heap.pop[k]?.map _ = t.heap[k]?.map _
      rw [Array.getElem?_pop, if_pos (by omega)]

def IsHeap : Prop := Ordered t.expiresAt t.heap.size

theorem expiresAt_eq (hi : i < t.heap.size) : t.expiresAt i = t.heap[i].expires := by
  unfold expiresAt
  rw [Array.getElem?_eq_getElem hi, Option.elim_some]

variable {t} in
theorem IsHeap.least (h : t.IsHeap) (h0 : 0 < t.heap.size) :
    t.toMap.Least t.heap[0].id t.heap[0].expires := by
  refine ⟨t.toMap_heap h0, fun id e he => ?_⟩
  obtain ⟨i, hi, hnode⟩ := Array.mem_iff_getElem.mp (t.toMap_eq_some.mp he)
  have hle := Ordered.root_le h hi
  rw [t.expiresAt_eq h0, t.expiresAt_eq hi, hnode] at hle
  exact hle

section Order

variable {t}

private theorem ordered_moveToBack (h : t.IsHeap) (hi : i < t.heap.size - 1) :
    Ordered (t.moveToBack i hi).expiresAt (t.heap.size - 1) := by
  apply ordered_settle
  · exact hi
  · apply (h.mono (Nat.sub_le _ 1)).except hi
    intro j hj hji
    rw [expiresAt_swapNode, Function.comp_apply, Equiv.swap_apply_of_ne_of_ne hji (by omega)]

private theorem isHeap_popBack {deletedId : ℕ} {hback : t.heap.back?.map TimerNode.id = some deletedId}
    (h : Ordered t.expiresAt (t.heap.size - 1)) : (t.popBack deletedId hback).IsHeap := by
  have hsize : (t.popBack deletedId hback).heap.size = t.heap.size - 1 := Array.size_pop
  unfold IsHeap
  rw [hsize]
  apply h.congr
  intro j hj
  change (t.heap.pop[j]?).elim 0 _ = (t.heap[j]?).elim 0 _
  rw [Array.getElem?_pop, if_pos hj]

theorem isHeap_del (h : t.IsHeap) (hi : i < t.heap.size) : (t.del i hi).IsHeap := by
  unfold del
  dsimp only
  split_ifs with hlast
  · apply isHeap_popBack
    rw [(t.reshuffled_moveToBack hlast).size]
    exact ordered_moveToBack h hlast
  · exact isHeap_popBack (h.mono (Nat.sub_le _ 1))

theorem orderedExcept_setExpires (h : t.IsHeap) (e : ℤ) (hi : i < t.heap.size) :
    OrderedExcept (t.setExpires i e hi).expiresAt (t.setExpires i e hi).heap.size i := by
  rw [size_setExpires]
  apply Ordered.except h hi
  intro j hj hji
  change ((t.heap.set i _)[j]?).elim 0 _ = (t.heap[j]?).elim 0 _
  rw [Array.getElem?_set hi, if_neg (Ne.symm hji)]

theorem reshuffled_reschedule (e : ℤ) (hi : i < t.heap.size) :
    Reshuffled (t.setExpires i e hi).heap.size (t.setExpires i e hi) (t.reschedule i e hi) := by
  apply reshuffled_settle
  rwa [size_setExpires]

theorem isHeap_reschedule (h : t.IsHeap) (e : ℤ) (hi : i < t.heap.size) :
    (t.reschedule i e hi).IsHeap := by
  unfold IsHeap
  rw [(reshuffled_reschedule e hi).size]
  apply ordered_settle
  · rwa [size_setExpires]
  · exact orderedExcept_setExpires h e hi

end Order

theorem toMap_del (hi : i < t.heap.size) :
    (t.del i hi).toMap = Function.update t.toMap t.heap[i].id none := by
  unfold del
  dsimp only
  split_ifs with hlast
  · rw [toMap_popBack, (t.reshuffled_moveToBack hlast).toMap]
  · rw [toMap_popBack]

theorem size_del (hi : i < t.heap.size) : (t.del i hi).heap.size = t.heap.size - 1 := by
  unfold del
  dsimp only
  split_ifs with hlast
  · rw [← (t.reshuffled_moveToBack hlast).size]
    exact Array.size_pop
  · exact Array.size_pop

theorem toMap_reschedule (e : ℤ) (hi : i < t.heap.size) :
    (t.reschedule i e hi).toMap = Function.update t.toMap t.heap[i].id (some e) := by
  rw [(reshuffled_reschedule e hi).toMap, toMap_setExpires]

variable {t} in
/-- `SiftDown_` has moved nothing when `Adjust` reads `ref_[id]` again. -/
theorem adjust_of_ref (h : t.IsHeap) {id : ℕ} (href : t.ref id = some i) (newExpires : Int32)
    (now : ℤ) :
    t.adjust id newExpires now =
      some (t.reschedule i (deadline now newExpires) (t.lt_size_of_ref href)) := by
  unfold adjust reschedule settle
  split
  · rename_i hnone
    rw [href] at hnone
    cases hnone
  · rename_i k hk
    obtain rfl := Option.some.inj (href.symm.trans hk)
    have hi := t.lt_size_of_ref href
    have hexcept := orderedExcept_setExpires h (deadline now newExpires) hi
    have hi' : i < (t.setExpires i (deadline now newExpires) hi).heap.size := by
      rwa [size_setExpires]
    rcases siftDown_cases _ hi' (Nat.le_refl _) hexcept with ⟨hmoved, -⟩ | ⟨hsame, -⟩
    · rw [if_pos hmoved, if_pos hmoved]
    · have hstay : (siftDown _ i _ hi' (Nat.le_refl _)).2 ≠ true := by
        rw [hsame]
        exact Bool.false_ne_true
      rw [if_neg hstay, if_neg hstay]
      have hread : (siftDown _ i _ hi' (Nat.le_refl _)).1.ref id = some i := by
        rw [hsame]
        exact href
      split
      · rename_i hnone
        rw [hread] at hnone
        cases hnone
      · rename_i j hj
        obtain rfl := Option.some.inj (hread.symm.trans hj)
        rfl

theorem adjust_of_ref_none {id : ℕ} (href : t.ref id = none) (newExpires : Int32) (now : ℤ) :
    t.adjust id newExpires now = none := by
  unfold adjust
  split
  · rfl
  · rename_i i h
    rw [href] at h
    cases h

private theorem toMap_grow (id : ℕ) : (t.grow id).toMap = t.toMap := by
  unfold grow
  split_ifs <;> rfl

variable {t} in
private theorem isHeap_grow (h : t.IsHeap) (id : ℕ) : (t.grow id).IsHeap := by
  unfold grow
  split_ifs
  · exact h
  · exact h

theorem toMap_add (id : ℕ) (timeOut : Int32) (now : ℤ) :
    (t.add id timeOut now).toMap = Function.update t.toMap id (some (deadline now timeOut)) := by
  unfold add
  dsimp only
  split
  · rename_i i href
    have hi := (t.grow id).lt_size_of_ref href
    rw [toMap_reschedule, toMap_grow, (t.grow id).id_of_ref href hi]
  · rw [(reshuffled_siftUp _ _ (Nat.lt_succ_self _)).toMap, toMap_pushBack, toMap_grow]

variable {t} in
theorem isHeap_pushBack_siftUp (h : t.IsHeap) (node : TimerNode) (hroom : node.id < t.refSize)
    (habsent : t.ref node.id = none) (hlast : t.heap.size < (t.pushBack node hroom habsent).heap.size) :
    ((t.pushBack node hroom habsent).siftUp t.heap.size hlast).IsHeap := by
  have hsize : (t.pushBack node hroom habsent).heap.size = t.heap.size + 1 := Array.size_push ..
  unfold IsHeap
  rw [(reshuffled_siftUp _ hlast (Nat.lt_succ_self _)).size, hsize]
  apply ordered_siftUp _ _ (Nat.lt_succ_self _)
  apply Ordered.push h
  intro j hj
  change ((t.heap.push node)[j]?).elim 0 _ = (t.heap[j]?).elim 0 _
  rw [Array.getElem?_push, if_neg (by omega)]

variable {t} in
theorem isHeap_add (h : t.IsHeap) (id : ℕ) (timeOut : Int32) (now : ℤ) :
    (t.add id timeOut now).IsHeap := by
  have hgrow := isHeap_grow h id
  unfold add
  dsimp only
  split
  · exact isHeap_reschedule hgrow _ _
  · exact isHeap_pushBack_siftUp hgrow _ _ _ _

/-- A present id is deleted where it stands; an absent one needs no deletion. -/
theorem remove_cases (id : ℕ) :
    (∃ i hi, t.ref id = some i ∧ t.remove id = t.del i hi) ∨ t.ref id = none ∧ t.remove id = t := by
  unfold remove
  split_ifs with hsize
  · exact .inr ⟨t.inside id hsize, rfl⟩
  · split
    · rename_i href
      exact .inr ⟨href, rfl⟩
    · rename_i i href
      exact .inl ⟨i, t.lt_size_of_ref href, href, rfl⟩

theorem update_toMap_of_ref_none {id : ℕ} (h : t.ref id = none) :
    Function.update t.toMap id none = t.toMap := by
  rw [← t.toMap_eq_none.mpr h, Function.update_eq_self]

theorem toMap_remove (id : ℕ) : (t.remove id).toMap = Function.update t.toMap id none := by
  rcases t.remove_cases id with ⟨i, hi, href, hdel⟩ | ⟨hnone, hsame⟩
  · rw [hdel, toMap_del, t.id_of_ref href hi]
  · rw [hsame, t.update_toMap_of_ref_none hnone]

private theorem size_remove_le (id : ℕ) : (t.remove id).heap.size ≤ t.heap.size := by
  rcases t.remove_cases id with ⟨i, hi, -, hdel⟩ | ⟨-, hsame⟩
  · rw [hdel, size_del]
    omega
  · simp [hsame]

private theorem size_remove_lt {id : ℕ} (h : t.ref id ≠ none) :
    (t.remove id).heap.size < t.heap.size := by
  rcases t.remove_cases id with ⟨i, hi, -, hdel⟩ | ⟨hnone, -⟩
  · rw [hdel, size_del]
    omega
  · exact absurd hnone h

variable {t} in
theorem isHeap_remove (h : t.IsHeap) (id : ℕ) : (t.remove id).IsHeap := by
  rcases t.remove_cases id with ⟨i, hi, -, hdel⟩ | ⟨-, hsame⟩
  · rw [hdel]
    exact isHeap_del h hi
  · rw [hsame]
    exact h

theorem toMap_fire (id : ℕ) (removes : Bool) :
    (t.fire id removes).toMap = Function.update t.toMap id none := by
  unfold fire callback
  cases removes with
  | false => exact t.toMap_remove id
  | true =>
    simp only [if_true]
    rw [toMap_remove, toMap_remove, Function.update_idem]

theorem size_fire_lt (h : 0 < t.heap.size) (removes : Bool) :
    (t.fire t.heap[0].id removes).heap.size < t.heap.size := by
  have hpresent : t.ref t.heap[0].id ≠ none := by
    rw [t.ref_heap h]
    exact Option.some_ne_none 0
  unfold fire callback
  cases removes with
  | false => exact t.size_remove_lt hpresent
  | true => exact Nat.lt_of_le_of_lt (size_remove_le _ _) (t.size_remove_lt hpresent)

theorem toMap_doWork (id : ℕ) (removes : Bool) :
    (t.doWork id removes).toMap = Function.update t.toMap id none := by
  unfold doWork
  split_ifs with hsize
  · exact (t.update_toMap_of_ref_none (t.inside id hsize)).symm
  · split
    · rename_i hnone
      exact (t.update_toMap_of_ref_none hnone).symm
    · exact t.toMap_fire id removes

variable {t}

theorem isHeap_fire (h : t.IsHeap) (id : ℕ) (removes : Bool) : (t.fire id removes).IsHeap := by
  unfold fire callback
  cases removes with
  | false => exact isHeap_remove h id
  | true => exact isHeap_remove (isHeap_remove h id) id

theorem isHeap_doWork (h : t.IsHeap) (id : ℕ) (removes : Bool) : (t.doWork id removes).IsHeap := by
  unfold doWork
  split_ifs
  · exact h
  · split
    · exact h
    · exact isHeap_fire h id removes

theorem isHeap_empty (h : t.heap.size = 0) : t.IsHeap := by
  intro j _ hj
  omega

end HeapTimer
end TermChat
