import Mathlib.Data.List.Nodup
import Mathlib.Data.List.Basic

/-! A singly linked list in memory, described by the list of its nodes in the order in which
they were linked. -/
namespace Memory

variable {ν : Type*} {next : ν → Option ν} {order : List ν} {a b : ν} {i : ℕ}

/-- Each node of `order` points to the one behind it, and the last one to none. -/
structure Linked (next : ν → Option ν) (order : List ν) : Prop where
  nodup : order.Nodup
  next_eq : ∀ {i : ℕ} {a : ν}, order[i]? = some a → next a = order[i + 1]?

namespace Linked

variable (h : Linked next order)
include h

theorem getElem?_succ (ha : order[i]? = some a) (hn : next a = some b) :
    order[i + 1]? = some b := by
  rw [← h.next_eq ha]
  exact hn

theorem mem_of_next (ha : a ∈ order) (hn : next a = some b) : b ∈ order := by
  obtain ⟨i, hi⟩ := List.getElem?_of_mem ha
  exact List.mem_of_getElem? (h.getElem?_succ hi hn)

theorem length_eq (ha : order[i]? = some a) (hn : next a = none) : order.length = i + 1 := by
  have hlt : i < order.length := (List.getElem?_eq_some_iff.mp ha).1
  have hle : order.length ≤ i + 1 := by
    rw [← List.getElem?_eq_none_iff, ← h.next_eq ha]
    exact hn
  omega

theorem idxOf_getElem? [DecidableEq ν] (ha : order[i]? = some a) : order.idxOf a = i := by
  obtain ⟨hi, rfl⟩ := List.getElem?_eq_some_iff.mp ha
  exact h.nodup.idxOf_getElem i hi

theorem idxOf_next [DecidableEq ν] (ha : a ∈ order) (hn : next a = some b) :
    order.idxOf b = order.idxOf a + 1 := by
  obtain ⟨i, hi⟩ := List.getElem?_of_mem ha
  rw [h.idxOf_getElem? hi]
  exact h.idxOf_getElem? (h.getElem?_succ hi hn)

theorem next_inj {c : ν} (ha : a ∈ order) (hc : c ∈ order) (hn : next a = some b)
    (hnc : next c = some b) : a = c := by
  classical
  have hidx := (h.idxOf_next ha hn).symm.trans (h.idxOf_next hc hnc)
  exact (List.idxOf_inj ha).mp (Nat.succ.inj hidx)

theorem link [DecidableEq ν] (ha : a ∈ order) (hn : next a = none) (hb : b ∉ order)
    (hbn : next b = none) : Linked (Function.update next a (some b)) (order ++ [b]) := by
  obtain ⟨k, hk⟩ := List.getElem?_of_mem ha
  have hlen := h.length_eq hk hn
  constructor
  · apply List.nodup_append.mpr
    exact ⟨h.nodup, List.nodup_singleton b, by simpa using fun x hx => ne_of_mem_of_not_mem hx hb⟩
  · intro i x hx
    by_cases hi : i < order.length
    · rw [List.getElem?_append_left hi] at hx
      by_cases hxa : x = a
      · -- the node that was the last
        subst hxa
        have hik : i = k := by rw [← h.idxOf_getElem? hx, h.idxOf_getElem? hk]
        subst hik
        rw [Function.update_self, ← hlen, List.getElem?_append_right (Nat.le_refl _)]
        simp
      · have hsucc : i + 1 < order.length := by
          by_contra hge
          have hik : i = k := by omega
          subst hik
          exact hxa (Option.some.inj (hx.symm.trans hk))
        rw [Function.update_of_ne hxa, h.next_eq hx, List.getElem?_append_left hsucc]
    · have hlt := (List.getElem?_eq_some_iff.mp hx).1
      rw [List.length_append, List.length_singleton] at hlt
      have hi : i = order.length := by omega
      subst hi
      have hxb : b = x := by simpa using hx
      subst hxb
      have hba : b ≠ a := fun heq => hb (heq ▸ ha)
      rw [Function.update_of_ne hba, hbn]
      exact (List.getElem?_eq_none (by simp)).symm

end Linked

end Memory
