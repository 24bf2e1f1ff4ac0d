import Mathlib.Data.List.Basic

/-! Cutting a text at its first separator: one element, or two in a row that end a line. -/
namespace Lines

variable {α : Type*} [DecidableEq α]

/-- What stands before and behind the first `a`. -/
def cut (a : α) : List α → Option (List α × List α)
  | [] => none
  | x :: xs => if x = a then some ([], xs) else (cut a xs).map fun p => (x :: p.1, p.2)

/-- The line up to the first `a`, `b`, and what stands behind them; a text without them is one
line. -/
def line (a b : α) : List α → List α × Option (List α)
  | [] => ([], none)
  | [x] => ([x], none)
  | x :: y :: text =>
    if x = a ∧ y = b then ([], some text)
    else (x :: (line a b (y :: text)).1, (line a b (y :: text)).2)

variable {a b : α} {text before behind : List α}

theorem cut_append (h : a ∉ before) (behind : List α) :
    cut a (before ++ a :: behind) = some (before, behind) := by
  induction before with
  | nil => simp [cut]
  | cons x before ih =>
    rw [List.mem_cons, not_or] at h
    simp [cut, Ne.symm h.1, ih h.2]

theorem of_cut (h : cut a text = some (before, behind)) :
    text = before ++ a :: behind ∧ a ∉ before := by
  induction text generalizing before with
  | nil => cases h
  | cons x text ih =>
    unfold cut at h
    split_ifs at h with hx
    · cases h
      exact ⟨by rw [hx, List.nil_append], List.not_mem_nil⟩
    · obtain ⟨⟨before', behind'⟩, hcut, heq⟩ := Option.map_eq_some_iff.mp h
      cases heq
      obtain ⟨rfl, hmem⟩ := ih hcut
      refine ⟨rfl, ?_⟩
      rw [List.mem_cons, not_or]
      exact ⟨Ne.symm hx, hmem⟩

theorem eq_of_cut {before' behind' : List α} (h : a ∉ before) (h' : a ∉ before')
    (heq : before ++ a :: behind = before' ++ a :: behind') : before = before' := by
  have hcut := cut_append h behind
  rw [heq, cut_append h' behind'] at hcut
  cases hcut
  rfl

theorem line_append (h : a ∉ before) (behind : List α) :
    line a b (before ++ a :: b :: behind) = (before, some behind) := by
  induction before with
  | nil => simp [line]
  | cons x before ih =>
    rw [List.mem_cons, not_or] at h
    have hrest := ih h.2
    cases before with
    | nil =>
      rw [List.nil_append] at hrest
      simp [line, Ne.symm h.1]
    | cons y before =>
      rw [List.cons_append] at hrest
      rw [List.cons_append, List.cons_append, line, if_neg fun hx => h.1 hx.1.symm, hrest]

theorem of_line_some (h : (line a b text).2 = some behind) :
    text = (line a b text).1 ++ a :: b :: behind := by
  induction text using line.induct a b with
  | case1 => cases h
  | case2 x => cases h
  | case3 x y text hxy =>
    rw [line, if_pos hxy] at h ⊢
    cases h
    rw [hxy.1, hxy.2]
    rfl
  | case4 x y text hxy ih =>
    rw [line, if_neg hxy] at h ⊢
    rw [List.cons_append, ← ih h]

private theorem of_line_none (h : (line a b text).2 = none) : (line a b text).1 = text := by
  induction text using line.induct a b with
  | case1 => rfl
  | case2 x => rfl
  | case3 x y text hxy =>
    rw [line, if_pos hxy] at h
    cases h
  | case4 x y text hxy ih =>
    rw [line, if_neg hxy] at h ⊢
    rw [ih h]

theorem line_isPrefix (text : List α) : (line a b text).1 <+: text := by
  cases h : (line a b text).2 with
  | none => exact ⟨[], by rw [of_line_none h, List.append_nil]⟩
  | some behind => exact ⟨_, (of_line_some h).symm⟩

/-- A text that is cut off may end between the two, and then the first is part of the line. -/
theorem line_isPrefix_of_isPrefix (h : a ∉ before)
    (hpiece : text <+: before ++ a :: b :: behind) : (line a b text).1 <+: before ++ [a] := by
  have hline : (line a b text).1 <+: before ++ a :: b :: behind :=
    (line_isPrefix text).trans hpiece
  have hshort : (before ++ [a]) <+: before ++ a :: b :: behind :=
    ⟨b :: behind, by rw [List.append_assoc, List.singleton_append]⟩
  rcases List.prefix_or_prefix_of_prefix hline hshort with hle | hge
  · exact hle
  · -- a longer line would hold both of them
    by_cases hlen : (before ++ [a]).length = (line a b text).1.length
    · exact ⟨[], by rw [hge.eq_of_length hlen, List.append_nil]⟩
    · have hlong : before ++ [a, b] <+: text := by
        have hfull : before ++ [a, b] <+: before ++ a :: b :: behind :=
          ⟨behind, by rw [List.append_assoc]; rfl⟩
        have hle := hge.length_le
        have hle' := (line_isPrefix (a := a) (b := b) text).length_le
        simp only [List.length_append, List.length_singleton] at hlen hle
        apply List.prefix_of_prefix_length_le hfull hpiece
        simp only [List.length_append, List.length_cons, List.length_nil]
        omega
      obtain ⟨rest, rfl⟩ := hlong
      rw [List.append_assoc, List.cons_append, List.singleton_append, line_append h] at hge ⊢
      exact List.prefix_append _ _

end Lines
