import Mathlib.Data.List.Induction
import Mathlib.Logic.Function.Basic
import TermChat.Base.Partition

/-! Tables of a wide-column store whose primary key is a partition column and a clustering key.
Statements bind their values by position; every insert names all columns of its table, so that
it replaces the row of its key. -/
namespace Cql

variable {κ ν ω : Type*} [DecidableEq κ] [DecidableEq ν] [LinearOrder ω]

abbrev Row (κ ν : Type*) := κ → Option ν

/-- `INSERT INTO … (columns) VALUES (?, …)` with its bound values. -/
structure Insert (κ ν : Type*) where
  columns : List κ
  values : List ν

def Insert.row (i : Insert κ ν) : Row κ ν := fun c => (i.columns.zip i.values).lookup c

structure Schema (κ ν ω : Type*) where
  partition : κ
  clustering : Row κ ν → ω

abbrev Table (κ ν : Type*) := ν → List (Row κ ν)

variable (S : Schema κ ν ω)

/-- A statement without a partition is refused. -/
def insert (t : Table κ ν) (i : Insert κ ν) : Table κ ν :=
  match i.row S.partition with
  | none => t
  | some p => Function.update t p (Partition.upsert S.clustering i.row (t p))

def insertAll (t : Table κ ν) (is : List (Insert κ ν)) : Table κ ν := is.foldl (insert S) t

/-- `SELECT columns … WHERE partition = p AND clustering > cursor LIMIT limit`. -/
def select (t : Table κ ν) (columns : List κ) (p : ν) (cursor : ω) (limit : ℕ) :
    List (List (Option ν)) :=
  (Partition.after S.clustering cursor limit (t p)).map fun row => columns.map row

/-- Inserts that agree on a key agree on its row. -/
def Agree (is : List (Insert κ ν)) : Prop :=
  ∀ i ∈ is, ∀ j ∈ is, i.row S.partition = j.row S.partition →
    S.clustering i.row = S.clustering j.row → i.row = j.row

variable {S} {is : List (Insert κ ν)} {i : Insert κ ν} {t : Table κ ν} {p : ν} {r : Row κ ν}

theorem insert_of_eq (h : i.row S.partition = some p) :
    insert S t i p = Partition.upsert S.clustering i.row (t p) := by
  simp only [insert, h, Function.update_self]

theorem insert_of_ne (h : i.row S.partition ≠ some p) : insert S t i p = t p := by
  cases hq : i.row S.partition with
  | none => simp only [insert, hq]
  | some q =>
    have hne : p ≠ q := fun heq => h (heq ▸ hq)
    simp only [insert, hq, Function.update_of_ne hne]

theorem insertAll_concat (t : Table κ ν) (is : List (Insert κ ν)) (i : Insert κ ν) :
    insertAll S t (is ++ [i]) = insert S (insertAll S t is) i := by
  rw [insertAll, List.foldl_append]
  rfl

theorem sorted_insertAll (is : List (Insert κ ν)) (p : ν) :
    Partition.Sorted S.clustering (insertAll S (fun _ => []) is p) := by
  induction is using List.reverseRecOn with
  | nil => exact Partition.sorted_nil _
  | append_singleton is i ih =>
    rw [insertAll_concat]
    by_cases h : i.row S.partition = some p
    · rw [insert_of_eq h]
      exact ih.upsert _
    · rw [insert_of_ne h]
      exact ih

/-- A partition has the rows that were inserted into it, and no others. -/
theorem mem_insertAll (h : Agree S is) :
    r ∈ insertAll S (fun _ => []) is p ↔ ∃ i ∈ is, i.row S.partition = some p ∧ i.row = r := by
  induction is using List.reverseRecOn with
  | nil => simp [insertAll]
  | append_singleton is i ih =>
    have hmem : i ∈ is ++ [i] := List.mem_append_right _ (List.mem_singleton_self i)
    have hbefore : ∀ j ∈ is, j ∈ is ++ [i] := fun j hj => List.mem_append_left _ hj
    have hrows := ih fun a ha b hb => h a (hbefore a ha) b (hbefore b hb)
    have hsplit : (∃ j ∈ is ++ [i], j.row S.partition = some p ∧ j.row = r) ↔
        (∃ j ∈ is, j.row S.partition = some p ∧ j.row = r) ∨
          i.row S.partition = some p ∧ i.row = r := by
      simp only [List.mem_append, List.mem_singleton, or_and_right, exists_or, exists_eq_left]
    rw [insertAll_concat, hsplit, ← hrows]
    by_cases hp : i.row S.partition = some p
    · rw [insert_of_eq hp]
      constructor
      · intro hr
        rcases Partition.mem_of_mem_upsert hr with rfl | hr
        · exact .inr ⟨hp, rfl⟩
        · exact .inl hr
      · rintro (hr | ⟨-, rfl⟩)
        · by_cases hkey : S.clustering r = S.clustering i.row
          · obtain ⟨j, hj, hjp, rfl⟩ := hrows.mp hr
            rw [h j (hbefore j hj) i hmem (hjp.trans hp.symm) hkey]
            exact Partition.mem_upsert_self _ _ _
          · exact Partition.mem_upsert_of_ne hr hkey
        · exact Partition.mem_upsert_self _ _ _
    · rw [insert_of_ne hp]
      constructor
      · exact .inl
      · rintro (hr | ⟨hi, -⟩)
        · exact hr
        · exact absurd hi hp

end Cql
