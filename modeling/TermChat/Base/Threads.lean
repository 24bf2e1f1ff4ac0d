import Mathlib.Data.List.Perm.Basic

/-! Concurrent activities as a list of program points. A step of one of them replaces its
program point by the next one, or removes it when the activity ends. -/
namespace Threads

variable {τ : Type*} {ts : List τ} {i : ℕ} {t : τ}

/-- Activity `i` goes on at `next`, or ends. -/
def advance (ts : List τ) (i : ℕ) : Option τ → List τ
  | some next => ts.set i next
  | none => ts.eraseIdx i

def others (ts : List τ) (i : ℕ) : List τ := ts.eraseIdx i

theorem getElem?_append_of_some (h : ts[i]? = some t) (more : List τ) :
    (ts ++ more)[i]? = some t := by
  rw [List.getElem?_append_left (List.getElem?_eq_some_iff.mp h).1]
  exact h

theorem perm_cons_others (h : ts[i]? = some t) : ts.Perm (t :: others ts i) := by
  obtain ⟨hi, rfl⟩ := List.getElem?_eq_some_iff.mp h
  exact (List.getElem_cons_eraseIdx_perm hi).symm

theorem perm_advance (h : ts[i]? = some t) (next : Option τ) :
    (advance ts i next).Perm (next.toList ++ others ts i) := by
  obtain ⟨hi, -⟩ := List.getElem?_eq_some_iff.mp h
  cases next with
  | none => exact List.Perm.refl _
  | some u => exact List.set_perm_cons_eraseIdx hi u

theorem mem_iff (h : ts[i]? = some t) {x : τ} : x ∈ ts ↔ x = t ∨ x ∈ others ts i := by
  rw [(perm_cons_others h).mem_iff, List.mem_cons]

theorem mem_advance (h : ts[i]? = some t) {next : Option τ} {x : τ} :
    x ∈ advance ts i next ↔ x ∈ next ∨ x ∈ others ts i := by
  rw [(perm_advance h next).mem_iff, List.mem_append, Option.mem_toList, Option.mem_def]

theorem forall_mem_advance (h : ts[i]? = some t) {next : Option τ} {P : τ → Prop}
    (hts : ∀ x ∈ ts, P x) (hnext : ∀ x, next = some x → P x) : ∀ x ∈ advance ts i next, P x := by
  intro x hx
  cases (mem_advance h).mp hx with
  | inl hx => exact hnext x hx
  | inr hx => exact hts x ((mem_iff h).mpr (.inr hx))

theorem exists_mem_iff (h : ts[i]? = some t) {P : τ → Prop} :
    (∃ x ∈ ts, P x) ↔ P t ∨ ∃ x ∈ others ts i, P x := by
  simp only [mem_iff h, or_and_right, exists_or, exists_eq_left]

theorem exists_mem_advance (h : ts[i]? = some t) {next : Option τ} {P : τ → Prop} :
    (∃ x ∈ advance ts i next, P x) ↔ (∃ x ∈ next, P x) ∨ ∃ x ∈ others ts i, P x := by
  simp only [mem_advance h, or_and_right, exists_or]

theorem filter_perm (h : ts[i]? = some t) (p : τ → Bool) :
    (ts.filter p).Perm ([t].filter p ++ (others ts i).filter p) := by
  rw [← List.filter_append]
  exact (perm_cons_others h).filter p

theorem filter_advance_perm (h : ts[i]? = some t) (next : Option τ) (p : τ → Bool) :
    ((advance ts i next).filter p).Perm (next.toList.filter p ++ (others ts i).filter p) := by
  rw [← List.filter_append]
  exact (perm_advance h next).filter p

/-- Counting program points, with that of one activity apart. -/
theorem countP_eq (h : ts[i]? = some t) (p : τ → Bool) :
    ts.countP p = (others ts i).countP p + if p t then 1 else 0 := by
  rw [(perm_cons_others h).countP_eq, List.countP_cons]

theorem countP_advance (h : ts[i]? = some t) (next : Option τ) (p : τ → Bool) :
    (advance ts i next).countP p = (others ts i).countP p + next.toList.countP p := by
  rw [(perm_advance h next).countP_eq, List.countP_append, Nat.add_comm]

def total (weight : τ → ℕ) : List τ → ℕ
  | [] => 0
  | t :: ts => weight t + total weight ts

private theorem total_append (weight : τ → ℕ) (ts us : List τ) :
    total weight (ts ++ us) = total weight ts + total weight us := by
  induction ts with
  | nil => exact (Nat.zero_add _).symm
  | cons t ts ih => simp only [List.cons_append, total, ih, Nat.add_assoc]

theorem total_perm (weight : τ → ℕ) {us : List τ} (h : ts.Perm us) :
    total weight ts = total weight us := by
  induction h with
  | nil => rfl
  | cons t h ih => simp only [total, ih]
  | swap t u ts => simp only [total, Nat.add_left_comm]
  | trans h₁ h₂ ih₁ ih₂ => exact ih₁.trans ih₂

theorem total_eq (h : ts[i]? = some t) (weight : τ → ℕ) :
    total weight ts = weight t + total weight (others ts i) :=
  total_perm weight (perm_cons_others h)

theorem total_advance (h : ts[i]? = some t) (next : Option τ) (weight : τ → ℕ) :
    total weight (advance ts i next) = total weight next.toList + total weight (others ts i) := by
  rw [total_perm weight (perm_advance h next), total_append]

theorem length_advance (ts : List τ) (i : ℕ) (next : τ) :
    (advance ts i (some next)).length = ts.length := List.length_set

theorem getElem?_advance_of_ne {j : ℕ} (hne : i ≠ j) (next : τ) :
    (advance ts i (some next))[j]? = ts[j]? := List.getElem?_set_ne hne

theorem filterMap_perm {β : Type*} (h : ts[i]? = some t) (f : τ → Option β) :
    (ts.filterMap f).Perm ((f t).toList ++ (others ts i).filterMap f) := by
  have hperm := (perm_cons_others h).filterMap f
  rwa [← List.singleton_append, List.filterMap_append] at hperm

theorem filterMap_advance_perm {β : Type*} (h : ts[i]? = some t) (next : Option τ)
    (f : τ → Option β) :
    ((advance ts i next).filterMap f).Perm ((next.bind f).toList ++ (others ts i).filterMap f) := by
  have hperm := (perm_advance h next).filterMap f
  rw [List.filterMap_append] at hperm
  cases next with
  | none => exact hperm
  | some u => exact hperm

section Finish

variable {σ : Type*} (next : σ → τ → σ × Option τ)

/-- One activity runs on its own, for at most `n` steps, on the state it shares. The second
component is where it stands afterwards, if it is not over. -/
def finish : ℕ → σ → τ → σ × Option τ
  | 0, s, t => (s, some t)
  | n + 1, s, t =>
    match (next s t).2 with
    | none => ((next s t).1, none)
    | some u => finish n (next s t).1 u

/-- An activity whose rank decreases comes to its end in as many steps. What each of its steps
keeps until then, `J` at the end, holds at the end. -/
theorem finish_spec (rank : τ → ℕ) {I : σ → τ → Prop} {J : σ → Prop}
    (hnext : ∀ s t u, I s t → (next s t).2 = some u → rank u < rank t ∧ I (next s t).1 u)
    (hend : ∀ s t, I s t → (next s t).2 = none → J (next s t).1)
    {n : ℕ} {s : σ} {t : τ} (hn : rank t < n) (h : I s t) :
    (finish next n s t).2 = none ∧ J (finish next n s t).1 := by
  induction n generalizing s t with
  | zero => omega
  | succ n ih =>
    unfold finish
    cases hu : (next s t).2 with
    | none => exact ⟨rfl, hend s t h hu⟩
    | some u =>
      obtain ⟨hlt, hu⟩ := hnext s t u h hu
      exact ih (by omega) hu

theorem finish_keeps {I : σ → Prop} (h : ∀ s t, I s → I (next s t).1) (n : ℕ) {s : σ} (t : τ)
    (hs : I s) : I (finish next n s t).1 := by
  induction n generalizing s t with
  | zero => exact hs
  | succ n ih =>
    unfold finish
    cases (next s t).2 with
    | none => exact h s t hs
    | some u => exact ih u (h s t hs)

/-- A change that the steps of the activity do not notice, its end does not notice either. -/
theorem finish_map {f : τ → τ}
    (h : ∀ s t, next s (f t) = ((next s t).1, (next s t).2.map f)) (n : ℕ) (s : σ) (t : τ) :
    (finish next n s (f t)).1 = (finish next n s t).1 := by
  induction n generalizing s t with
  | zero => rfl
  | succ n ih =>
    unfold finish
    rw [h]
    cases (next s t).2 with
    | none => rfl
    | some u => exact ih _ u

end Finish

end Threads
