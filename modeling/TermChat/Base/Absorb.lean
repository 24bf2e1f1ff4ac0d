import Mathlib.Data.List.Dedup
import Mathlib.Data.List.Perm.Basic

/-! Folds of steps that commute and that absorb a repetition: the result depends only on which
elements occur. -/
namespace Absorb

variable {σ α : Type*} {f : σ → α → σ}

/-- The steps commute, and a step taken twice is the step taken once. -/
structure Absorbing (f : σ → α → σ) : Prop where
  comm : ∀ s a b, f (f s a) b = f (f s b) a
  idem : ∀ s a, f (f s a) a = f s a

namespace Absorbing

variable (h : Absorbing f)
include h

/-- A step in front of the fold is a step behind it. -/
theorem foldl_comm (s : σ) (a : α) (as : List α) : as.foldl f (f s a) = f (as.foldl f s) a := by
  induction as generalizing s with
  | nil => rfl
  | cons b as ih => rw [List.foldl_cons, List.foldl_cons, h.comm, ih]

private theorem foldl_of_mem {s : σ} {a : α} {as : List α} (ha : a ∈ as) :
    f (as.foldl f s) a = as.foldl f s := by
  induction as generalizing s with
  | nil => cases ha
  | cons b as ih =>
    rw [List.foldl_cons]
    rcases List.mem_cons.mp ha with rfl | ha
    · rw [h.foldl_comm, h.idem]
    · exact ih ha

private theorem foldl_dedup [DecidableEq α] (s : σ) (as : List α) :
    as.dedup.foldl f s = as.foldl f s := by
  induction as generalizing s with
  | nil => rfl
  | cons a as ih =>
    rw [List.foldl_cons, h.foldl_comm, ← ih]
    by_cases ha : a ∈ as
    · rw [List.dedup_cons_of_mem ha]
      exact (h.foldl_of_mem (List.mem_dedup.mpr ha)).symm
    · rw [List.dedup_cons_of_notMem ha, List.foldl_cons, h.foldl_comm]

/-- Neither the order of the elements nor their number matters. -/
theorem foldl_congr {as bs : List α} (hmem : ∀ a, a ∈ as ↔ a ∈ bs) (s : σ) :
    as.foldl f s = bs.foldl f s := by
  classical
  have hperm : as.dedup.Perm bs.dedup := by
    rw [List.perm_ext_iff_of_nodup (List.nodup_dedup as) (List.nodup_dedup bs)]
    intro a
    rw [List.mem_dedup, List.mem_dedup]
    exact hmem a
  rw [← h.foldl_dedup s as, ← h.foldl_dedup s bs]
  exact hperm.foldl_eq' (fun x _ y _ z => h.comm z x y) s

end Absorbing

end Absorb
