import Mathlib.Data.List.Induction
import Mathlib.Data.List.Infix

/-! Lexical resolution of paths, component by component: one component stands for the directory
above, every other for an entry. A relative path climbs some levels and then names entries. -/
namespace Lexical

variable {α : Type*} [DecidableEq α] (up : α)

/-- The root has no directory above it. -/
def push (dir : List α) (c : α) : List α := if c = up then dir.dropLast else dir ++ [c]

def resolve (dir cs : List α) : List α := cs.foldl (push up) dir

def pushRelative (r : ℕ × List α) (c : α) : ℕ × List α :=
  if c = up then if r.2 = [] then (r.1 + 1, []) else (r.1, r.2.dropLast) else (r.1, r.2 ++ [c])

/-- How many levels the components climb, and what they name from there. -/
def relative (cs : List α) : ℕ × List α := cs.foldl (pushRelative up) (0, [])

theorem resolve_append (dir cs cs' : List α) :
    resolve up dir (cs ++ cs') = resolve up (resolve up dir cs) cs' := List.foldl_append

private theorem resolve_eq (dir cs : List α) :
    resolve up dir cs = dir.take (dir.length - (relative up cs).1) ++ (relative up cs).2 := by
  induction cs using List.reverseRecOn with
  | nil => simp [resolve, relative]
  | append_singleton cs c ih =>
    have hrelative : relative up (cs ++ [c]) = pushRelative up (relative up cs) c := List.foldl_append
    rw [resolve_append, ih, hrelative]
    change push up _ c = _
    by_cases hc : c = up
    · rw [push, if_pos hc, pushRelative, if_pos hc]
      split_ifs with hnames
      · rw [hnames, List.append_nil, List.append_nil, List.dropLast_eq_take, List.length_take,
          List.take_take]
        congr 1
        omega
      · rw [List.dropLast_append_of_ne_nil hnames]
    · rw [push, if_neg hc, pushRelative, if_neg hc, List.append_assoc]

/-- The components lead to a place inside the directory exactly when they name again what they
climbed out of. -/
theorem resolve_inside_iff (dir cs : List α) :
    dir <+: resolve up dir cs ↔
      dir.drop (dir.length - (relative up cs).1) <+: (relative up cs).2 := by
  rw [resolve_eq]
  nth_rewrite 1 [← List.take_append_drop (dir.length - (relative up cs).1) dir]
  exact List.prefix_append_right_inj _

end Lexical
