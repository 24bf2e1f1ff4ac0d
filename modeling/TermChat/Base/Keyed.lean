import Mathlib.Data.List.Nodup

/-! Tables with a unique key: rows in insertion order, read by key, with the insertion of a
row under a new key and the update of the row under a key. -/

/-- Rows of type `ρ`, no two of them with the same `key`. -/
structure Keyed {ρ κ : Type*} (key : ρ → κ) where
  rows : List ρ
  unique : (rows.map key).Nodup

namespace Keyed

variable {ρ κ : Type*} [DecidableEq κ] {key : ρ → κ} (t : Keyed key)

def empty : Keyed key := ⟨[], List.nodup_nil⟩

def find (k : κ) : Option ρ := t.rows.find? (key · = k)

theorem find_eq_none_iff {k : κ} : t.find k = none ↔ ∀ r ∈ t.rows, key r ≠ k := by
  simp [find]

theorem find_eq_some_iff {k : κ} {r : ρ} : t.find k = some r ↔ r ∈ t.rows ∧ key r = k := by
  constructor
  · intro h
    have hkey : key r = k := by simpa using List.find?_some h
    exact ⟨List.mem_of_find?_eq_some h, hkey⟩
  · intro ⟨hmem, hkey⟩
    cases hf : t.find k with
    | none => exact absurd hkey (t.find_eq_none_iff.mp hf r hmem)
    | some other =>
      have hother : key other = k := by simpa using List.find?_some hf
      have hsame : key other = key r := hother.trans hkey.symm
      rw [List.inj_on_of_nodup_map t.unique (List.mem_of_find?_eq_some hf) hmem hsame]

def insert (r : ρ) (h : t.find (key r) = none) : Keyed key where
  rows := t.rows ++ [r]
  unique := by
    rw [List.map_append, List.map_singleton, List.nodup_append]
    refine ⟨t.unique, List.nodup_singleton _, ?_⟩
    intro a ha b hb
    obtain ⟨x, hx, rfl⟩ := List.mem_map.mp ha
    rw [List.mem_singleton.mp hb]
    exact t.find_eq_none_iff.mp h x hx

/-- `UPDATE ... WHERE` the key is `k`, of columns outside the key. -/
def update (k : κ) (f : ρ → ρ) (hf : ∀ r, key (f r) = key r) : Keyed key where
  rows := t.rows.map fun r => if key r = k then f r else r
  unique := by
    have hkeys : (t.rows.map fun r => if key r = k then f r else r).map key = t.rows.map key := by
      rw [List.map_map]
      apply List.map_congr_left
      intro r _
      simp only [Function.comp_apply]
      split_ifs
      · exact hf r
      · rfl
    rw [hkeys]
    exact t.unique

theorem find_insert (r : ρ) (h : t.find (key r) = none) (k : κ) :
    (t.insert r h).find k = if k = key r then some r else t.find k := by
  split_ifs with hk
  · rw [find_eq_some_iff]
    exact ⟨List.mem_append_right _ List.mem_cons_self, hk.symm⟩
  · simp [find, insert, List.find?_append, Ne.symm hk]

theorem find_update (k : κ) (f : ρ → ρ) (hf : ∀ r, key (f r) = key r) (j : κ) :
    (t.update k f hf).find j = if j = k then (t.find k).map f else t.find j := by
  have hpred : ((fun r => decide (key r = j)) ∘ fun r => if key r = k then f r else r) =
      fun r => decide (key r = j) := by
    funext r
    simp only [Function.comp_apply]
    split_ifs
    · rw [hf]
    · rfl
  have hfind : (t.update k f hf).find j = (t.find j).map fun r => if key r = k then f r else r := by
    rw [find, update, List.find?_map, hpred, find]
  rw [hfind]
  cases hj : t.find j with
  | none =>
    split_ifs with hjk
    · rw [← hjk, hj]
      rfl
    · rfl
  | some r =>
    have hkey := (t.find_eq_some_iff.mp hj).2
    split_ifs with hjk
    · rw [← hjk, hj, Option.map_some, Option.map_some, if_pos hkey]
    · rw [Option.map_some, if_neg (hkey.trans_ne hjk)]

end Keyed
