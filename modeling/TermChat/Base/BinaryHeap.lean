import Mathlib.Logic.Equiv.Basic
import Mathlib.Order.Lattice

/-! The order of a binary heap, on the keys by position: what a swap along an edge does to it, and
when a sift may stop. Only the first `n` positions count. -/
namespace BinaryHeap

variable {κ : Type*}

theorem comp_swap_left (k : ℕ → κ) (i j : ℕ) : (k ∘ Equiv.swap i j) i = k j :=
  congrArg k (Equiv.swap_apply_left i j)

theorem comp_swap_right (k : ℕ → κ) (i j : ℕ) : (k ∘ Equiv.swap i j) j = k i :=
  congrArg k (Equiv.swap_apply_right i j)

theorem comp_swap_of_ne (k : ℕ → κ) {i j l : ℕ} (hi : l ≠ i) (hj : l ≠ j) :
    (k ∘ Equiv.swap i j) l = k l :=
  congrArg k (Equiv.swap_apply_of_ne_of_ne hi hj)

variable [LinearOrder κ] {k k' : ℕ → κ} {n i c : ℕ}

def parent (i : ℕ) : ℕ := (i - 1) / 2

theorem parent_lt (h : 0 < i) : parent i < i := by
  unfold parent
  omega

theorem parent_eq_iff (h : 0 < c) : parent c = i ↔ c = 2 * i + 1 ∨ c = 2 * i + 2 := by
  unfold parent
  omega

/-- No key is greater than those of its children. -/
def Ordered (k : ℕ → κ) (n : ℕ) : Prop := ∀ j, 0 < j → j < n → k (parent j) ≤ k j

/-- The key at `i` may be out of order with its neighbours, which are in order without it. -/
structure OrderedExcept (k : ℕ → κ) (n i : ℕ) : Prop where
  edges : ∀ j, 0 < j → j < n → j ≠ i → parent j ≠ i → k (parent j) ≤ k j
  grand : ∀ j, 0 < j → j < n → 0 < i → parent j = i → k (parent i) ≤ k j

/-- Only the edge from `i` up may be out of order. -/
structure OrderedUp (k : ℕ → κ) (n i : ℕ) : Prop extends OrderedExcept k n i where
  below : ∀ j, 0 < j → j < n → parent j = i → k i ≤ k j

/-- Only the edges from `i` down may be out of order. -/
structure OrderedDown (k : ℕ → κ) (n i : ℕ) : Prop extends OrderedExcept k n i where
  above : 0 < i → k (parent i) ≤ k i

theorem Ordered.mono {m : ℕ} (h : Ordered k n) (hm : m ≤ n) : Ordered k m :=
  fun j hj hjm => h j hj (Nat.lt_of_lt_of_le hjm hm)

theorem Ordered.congr (h : Ordered k n) (hk : ∀ j, j < n → k' j = k j) : Ordered k' n := by
  intro j h0 hj
  have hp := parent_lt h0
  rw [hk j hj, hk (parent j) (by omega)]
  exact h j h0 hj

theorem Ordered.root_le (h : Ordered k n) (hi : i < n) : k 0 ≤ k i := by
  induction i using Nat.strongRecOn with
  | ind i ih =>
    by_cases h0 : 0 < i
    · have hp := parent_lt h0
      exact le_trans (ih (parent i) hp (by omega)) (h i h0 hi)
    · obtain rfl : i = 0 := by omega
      exact le_refl _

theorem Ordered.except (h : Ordered k n) (hi : i < n) (hk : ∀ j, j < n → j ≠ i → k' j = k j) :
    OrderedExcept k' n i := by
  constructor
  · intro j h0 hj hji hpi
    have hp := parent_lt h0
    rw [hk j hj hji, hk (parent j) (by omega) hpi]
    exact h j h0 hj
  · intro j h0 hj hi0 hpj
    have hpj' := parent_lt h0
    have hpi := parent_lt hi0
    rw [hk j hj (by omega), hk (parent i) (by omega) (by omega)]
    have hij := h j h0 hj
    rw [hpj] at hij
    exact le_trans (h i hi0 hi) hij

theorem Ordered.push (h : Ordered k n) (hk : ∀ j, j < n → k' j = k j) : OrderedUp k' (n + 1) n := by
  have hchild : ∀ j, 0 < j → j < n + 1 → parent j ≠ n := by
    intro j h0 hj
    have hp := parent_lt h0
    omega
  refine ⟨⟨?_, ?_⟩, ?_⟩
  · intro j h0 hj hjn _
    have hp := parent_lt h0
    rw [hk j (by omega), hk (parent j) (by omega)]
    exact h j h0 (by omega)
  · intro j h0 hj _ hpj
    exact absurd hpj (hchild j h0 hj)
  · intro j h0 hj hpj
    exact absurd hpj (hchild j h0 hj)

theorem OrderedUp.finish (h : OrderedUp k n i) (hstop : 0 < i → k (parent i) ≤ k i) :
    Ordered k n := by
  intro j h0 hj
  by_cases hji : j = i
  · subst hji
    exact hstop h0
  · by_cases hpj : parent j = i
    · rw [hpj]
      exact h.below j h0 hj hpj
    · exact h.edges j h0 hj hji hpj

theorem OrderedDown.finish (h : OrderedDown k n i)
    (hstop : ∀ j, 0 < j → j < n → parent j = i → k i ≤ k j) : Ordered k n :=
  OrderedUp.finish ⟨h.toOrderedExcept, hstop⟩ h.above

/-- The key at `i` goes up past its parent. -/
theorem OrderedUp.swap (h : OrderedUp k n i) (hi0 : 0 < i) (hi : i < n) (hle : k i ≤ k (parent i)) :
    OrderedUp (k ∘ Equiv.swap i (parent i)) n (parent i) := by
  have hp := parent_lt hi0
  have hgrand : 0 < parent i → k (parent (parent i)) ≤ k (parent i) := by
    intro hp0
    have hpp := parent_lt hp0
    exact h.edges (parent i) hp0 (by omega) (by omega) (by omega)
  refine ⟨⟨?_, ?_⟩, ?_⟩
  · intro j h0 hj hjp hpj
    have hpj' := parent_lt h0
    by_cases hji : j = i
    · subst hji
      exact absurd rfl hpj
    · rw [comp_swap_of_ne k hji hjp]
      by_cases hpji : parent j = i
      · rw [hpji, comp_swap_left]
        exact h.grand j h0 hj hi0 hpji
      · rw [comp_swap_of_ne k hpji hpj]
        exact h.edges j h0 hj hji hpji
  · intro j h0 hj hp0 hpj
    have hpp := parent_lt hp0
    have hpj' := parent_lt h0
    rw [comp_swap_of_ne k (by omega) (by omega)]
    by_cases hji : j = i
    · rw [hji, comp_swap_left]
      exact hgrand hp0
    · rw [comp_swap_of_ne k hji (by omega)]
      have hedge := h.edges j h0 hj hji (by omega)
      rw [hpj] at hedge
      exact le_trans (hgrand hp0) hedge
  · intro j h0 hj hpj
    have hpj' := parent_lt h0
    rw [comp_swap_right]
    by_cases hji : j = i
    · rw [hji, comp_swap_left]
      exact hle
    · rw [comp_swap_of_ne k hji (by omega)]
      have hedge := h.edges j h0 hj hji (by omega)
      rw [hpj] at hedge
      exact le_trans hle hedge

/-- The key at `i` goes down past the least of its children. -/
theorem OrderedExcept.swap (h : OrderedExcept k n i) (hc0 : 0 < c) (hc : c < n)
    (hparent : parent c = i) (hle : k c ≤ k i)
    (hleast : ∀ j, 0 < j → j < n → parent j = i → k c ≤ k j) :
    OrderedDown (k ∘ Equiv.swap i c) n c := by
  have hic : i < c := hparent ▸ parent_lt hc0
  refine ⟨⟨?_, ?_⟩, ?_⟩
  · intro j h0 hj hjc hpj
    have hpj' := parent_lt h0
    by_cases hji : j = i
    · subst hji
      rw [comp_swap_left, comp_swap_of_ne k (l := parent j) (by omega) (by omega)]
      exact h.grand c hc0 hc h0 hparent
    · rw [comp_swap_of_ne k hji hjc]
      by_cases hpji : parent j = i
      · rw [hpji, comp_swap_left]
        exact hleast j h0 hj hpji
      · rw [comp_swap_of_ne k hpji hpj]
        exact h.edges j h0 hj hji hpji
  · intro j h0 hj _ hpj
    have hpj' := parent_lt h0
    rw [hparent, comp_swap_left, comp_swap_of_ne k (by omega) (by omega), ← hpj]
    exact h.edges j h0 hj (by omega) (by omega)
  · intro _
    rw [hparent, comp_swap_left, comp_swap_right]
    exact hle

end BinaryHeap
