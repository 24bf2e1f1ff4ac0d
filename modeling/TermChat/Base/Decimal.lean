import TermChat.Base.Lines

/-! Numbers in decimal, as `toString` prints them: digits only, and what is read back is the number. -/
namespace Decimal

theorem isDigit_of_mem {n : ℕ} {c : Char} (h : c ∈ (toString n).toList) : c.isDigit := by
  rw [Nat.toString_eq_repr, Nat.toList_repr] at h
  exact Nat.isDigit_of_mem_toDigits (by decide) (by decide) h

theorem notMem_of_not_isDigit {c : Char} (h : ¬ c.isDigit) (n : ℕ) : c ∉ (toString n).toList :=
  fun hmem => h (isDigit_of_mem hmem)

private theorem eq_of_toString_eq {m n : ℕ} (h : (toString m).toList = (toString n).toList) :
    m = n := by
  have hread := congrArg (fun digits => Nat.ofDigitChars 10 digits 0) h
  simpa [Nat.toString_eq_repr, Nat.ofDigitChars_toDigits] using hread

theorem eq_of_separated {sep : Char} (hsep : ¬ sep.isDigit) {m n m' n' : ℕ}
    (h : toString m ++ sep.toString ++ toString n = toString m' ++ sep.toString ++ toString n') :
    m = m' ∧ n = n' := by
  have hlist := congrArg String.toList h
  simp only [String.toList_append, Char.toString_eq_singleton, String.toList_singleton,
    List.append_assoc, List.singleton_append] at hlist
  have hfirst := Lines.eq_of_cut (notMem_of_not_isDigit hsep m) (notMem_of_not_isDigit hsep m') hlist
  rw [hfirst] at hlist
  have hsecond := List.cons.inj (List.append_cancel_left hlist)
  exact ⟨eq_of_toString_eq hfirst, eq_of_toString_eq hsecond.2⟩

end Decimal
