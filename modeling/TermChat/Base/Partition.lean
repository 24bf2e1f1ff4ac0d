import Mathlib.Data.List.Nodup
import Mathlib.Order.Lattice

/-! A partition of a clustered table: rows in the order of a key, at most one row a key.
An insert overwrites the row of the same key, a query reads on from a key. -/
namespace Partition

variable {α κ : Type*} [LinearOrder κ] {key : α → κ} {x y : α} {rows : List α}

def upsert (key : α → κ) (x : α) : List α → List α
  | [] => [x]
  | r :: rows =>
    if key x < key r then x :: r :: rows
    else if key x = key r then x :: rows
    else r :: upsert key x rows

def Sorted (key : α → κ) (rows : List α) : Prop := rows.Pairwise fun a b => key a < key b

/-- The first `n` rows above `cursor`. -/
def after (key : α → κ) (cursor : κ) (n : ℕ) (rows : List α) : List α :=
  (rows.filter fun r => cursor < key r).take n

theorem mem_of_mem_upsert (h : y ∈ upsert key x rows) : y = x ∨ y ∈ rows := by
  induction rows with
  | nil => exact .inl (List.mem_singleton.mp h)
  | cons r rows ih =>
    simp only [upsert] at h
    split_ifs at h
    · exact List.mem_cons.mp h
    · exact (List.mem_cons.mp h).imp_right (List.mem_cons_of_mem r)
    · cases List.mem_cons.mp h with
      | inl h => exact .inr (h ▸ List.mem_cons_self)
      | inr h => exact (ih h).imp_right (List.mem_cons_of_mem r)

theorem mem_upsert_self (key : α → κ) (x : α) (rows : List α) : x ∈ upsert key x rows := by
  induction rows with
  | nil => exact List.mem_singleton_self x
  | cons r rows ih =>
    simp only [upsert]
    split_ifs
    · exact List.mem_cons_self
    · exact List.mem_cons_self
    · exact List.mem_cons_of_mem r ih

theorem mem_upsert_of_ne (h : y ∈ rows) (hk : key y ≠ key x) : y ∈ upsert key x rows := by
  induction rows with
  | nil => exact absurd h List.not_mem_nil
  | cons r rows ih =>
    simp only [upsert]
    split_ifs with hlt heq
    · exact List.mem_cons_of_mem x h
    · cases List.mem_cons.mp h with
      | inl h => exact absurd (h ▸ heq.symm) hk
      | inr h => exact List.mem_cons_of_mem x h
    · cases List.mem_cons.mp h with
      | inl h => exact h ▸ List.mem_cons_self
      | inr h => exact List.mem_cons_of_mem r (ih h)

theorem upsert_of_lt (h : ∀ r ∈ rows, key r < key x) : upsert key x rows = rows ++ [x] := by
  induction rows with
  | nil => rfl
  | cons r rows ih =>
    have hr := h r List.mem_cons_self
    rw [upsert, if_neg (not_lt.mpr (le_of_lt hr)), if_neg (ne_of_gt hr),
      ih fun q hq => h q (List.mem_cons_of_mem r hq)]
    rfl

theorem sorted_nil (key : α → κ) : Sorted key [] := List.Pairwise.nil

theorem Sorted.upsert (h : Sorted key rows) (x : α) : Sorted key (upsert key x rows) := by
  induction rows with
  | nil => exact List.pairwise_singleton _ x
  | cons r rows ih =>
    obtain ⟨hr, hrows⟩ := List.pairwise_cons.mp h
    simp only [Partition.upsert]
    split_ifs with hlt heq
    · apply List.pairwise_cons.mpr
      refine ⟨fun y hy => ?_, h⟩
      cases List.mem_cons.mp hy with
      | inl hy => exact hy ▸ hlt
      | inr hy => exact lt_trans hlt (hr y hy)
    · exact List.pairwise_cons.mpr ⟨fun y hy => heq ▸ hr y hy, hrows⟩
    · refine List.pairwise_cons.mpr ⟨fun y hy => ?_, ih hrows⟩
      cases mem_of_mem_upsert hy with
      | inl hy => exact hy ▸ lt_of_le_of_ne (not_lt.mp hlt) (Ne.symm heq)
      | inr hy => exact hr y hy

theorem Sorted.nodup (h : Sorted key rows) : (rows.map key).Nodup :=
  List.pairwise_map.mpr (h.imp fun hab => ne_of_lt hab)

theorem Sorted.eq_of_key (h : Sorted key rows) (hx : x ∈ rows) (hy : y ∈ rows)
    (hk : key x = key y) : x = y :=
  List.inj_on_of_nodup_map h.nodup hx hy hk

theorem Sorted.ext {rows' : List α} (h : Sorted key rows) (h' : Sorted key rows')
    (hmem : ∀ r, r ∈ rows ↔ r ∈ rows') : rows = rows' := by
  have hperm := (List.perm_ext_iff_of_nodup h.nodup.of_map h'.nodup.of_map).mpr hmem
  exact hperm.eq_of_pairwise (fun a b _ _ hab hba => absurd hba (lt_asymm hab)) h h'

theorem Sorted.le_last (h : Sorted key rows) (hy : rows.getLast? = some y) (hx : x ∈ rows) :
    key x ≤ key y := by
  obtain ⟨before, rfl⟩ := List.getLast?_eq_some_iff.mp hy
  rcases List.mem_append.mp hx with hx | hx
  · exact le_of_lt ((List.pairwise_append.mp h).2.2 x hx y (List.mem_singleton_self y))
  · rw [List.mem_singleton.mp hx]

/-- Writing a row that is there, or whose key is above all of them, loses no row. -/
theorem Sorted.mem_upsert (h : Sorted key rows) (hx : x ∈ rows ∨ ∀ r ∈ rows, key r < key x)
    (hy : y ∈ rows) : y ∈ Partition.upsert key x rows := by
  by_cases hk : key y = key x
  · cases hx with
    | inl hx => exact h.eq_of_key hy hx hk ▸ mem_upsert_self key y rows
    | inr hx => exact absurd hk (ne_of_lt (hx y hy))
  · exact mem_upsert_of_ne hy hk

/-- `rows'` has the rows of `rows`, and besides them only rows above all of them. -/
def Extends (key : α → κ) (rows rows' : List α) : Prop :=
  (∀ r ∈ rows, r ∈ rows') ∧ ∀ r ∈ rows', r ∈ rows ∨ ∀ q ∈ rows, key q < key r

theorem Extends.refl (key : α → κ) (rows : List α) : Extends key rows rows :=
  ⟨fun _ h => h, fun _ h => .inl h⟩

theorem Extends.trans {rows' rows'' : List α} (h : Extends key rows rows')
    (h' : Extends key rows' rows'') : Extends key rows rows'' := by
  refine ⟨fun r hr => h'.1 r (h.1 r hr), fun r hr => ?_⟩
  cases h'.2 r hr with
  | inl hr => exact h.2 r hr
  | inr hr => exact .inr fun q hq => hr q (h.1 q hq)

theorem Sorted.extends_upsert (h : Sorted key rows)
    (hx : x ∈ rows ∨ ∀ r ∈ rows, key r < key x) :
    Extends key rows (Partition.upsert key x rows) := by
  refine ⟨fun r hr => h.mem_upsert hx hr, fun r hr => ?_⟩
  cases mem_of_mem_upsert hr with
  | inl hr => exact hr ▸ hx
  | inr hr => exact .inl hr

theorem mem_after {cursor : κ} {n : ℕ} (h : y ∈ after key cursor n rows) :
    y ∈ rows ∧ cursor < key y := by
  simpa using List.mem_filter.mp (List.mem_of_mem_take h)

/-- A query leaves out no row between the cursor and a row that it returns. -/
theorem Sorted.mem_after (h : Sorted key rows) {cursor : κ} {n : ℕ}
    (hy : y ∈ after key cursor n rows) (hx : x ∈ rows) (hc : cursor < key x)
    (hxy : key x ≤ key y) : x ∈ after key cursor n rows := by
  have hmem : x ∈ rows.filter fun r => cursor < key r := List.mem_filter.mpr ⟨hx, by simpa using hc⟩
  rw [← List.take_append_drop n (rows.filter _), List.mem_append] at hmem
  apply hmem.resolve_right
  intro hdrop
  have hsorted : Sorted key (rows.filter fun r => cursor < key r) := List.Pairwise.filter _ h
  rw [Sorted, ← List.take_append_drop n (rows.filter _), List.pairwise_append] at hsorted
  exact not_lt.mpr hxy (hsorted.2.2 y hy x hdrop)

/-- What a query from the last row of a page would find: what the page left over. -/
theorem Sorted.filter_last (h : Sorted key rows) {cursor : κ} {n : ℕ}
    (hy : ((rows.filter fun r => cursor < key r).take n).getLast? = some y) :
    (rows.filter fun r => key y < key r) = (rows.filter fun r => cursor < key r).drop n := by
  set found := rows.filter fun r => cursor < key r with hfound
  obtain ⟨before, hpage⟩ := List.getLast?_eq_some_iff.mp hy
  have hsorted : Sorted key found := List.Pairwise.filter _ h
  rw [Sorted, ← List.take_append_drop n found, hpage, List.pairwise_append,
    List.pairwise_append] at hsorted
  obtain ⟨⟨-, -, hbefore⟩, -, hafter⟩ := hsorted
  have hcursor : cursor < key y := by
    have hmem : y ∈ found.take n := by
      rw [hpage]
      exact List.mem_append_right _ (List.mem_singleton_self y)
    simpa using (List.mem_filter.mp (List.mem_of_mem_take hmem)).2
  have hsub : (rows.filter fun r => key y < key r) = found.filter fun r => key y < key r := by
    rw [hfound, List.filter_filter]
    apply List.filter_congr
    intro r _
    by_cases hr : key y < key r
    · simp [hr, lt_trans hcursor hr]
    · simp [hr]
  have htake : (found.take n).filter (fun r => key y < key r) = [] := by
    rw [hpage, List.filter_eq_nil_iff]
    intro r hr
    rw [decide_eq_true_eq, not_lt]
    rcases List.mem_append.mp hr with hr | hr
    · exact le_of_lt (hbefore r hr y (List.mem_singleton_self y))
    · exact le_of_eq (by rw [List.mem_singleton.mp hr])
  have hdrop : (found.drop n).filter (fun r => key y < key r) = found.drop n := by
    rw [List.filter_eq_self]
    intro r hr
    rw [decide_eq_true_eq]
    exact hafter y (List.mem_append_right _ (List.mem_singleton_self y)) r hr
  rw [hsub]
  nth_rewrite 1 [← List.take_append_drop n found]
  rw [List.filter_append, htake, hdrop, List.nil_append]

end Partition
