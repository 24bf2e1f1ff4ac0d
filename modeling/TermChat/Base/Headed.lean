import TermChat.Base.Decimal
import Mathlib.Data.List.Flatten

/-! Messages that consist of a first line, header lines, a blank line and a body of which one of the
headers gives the length, and a reader that takes a stream of them apart. -/
namespace Headed

structure Message where
  first : List UInt8
  headers : List (List UInt8)
  body : List UInt8
  deriving DecidableEq, Repr

def crlf : List UInt8 := [13, 10]

def Message.encode (m : Message) : List UInt8 :=
  m.first ++ crlf ++ m.headers.flatMap (fun line => line ++ crlf) ++ crlf ++ m.body

def number (digits : List UInt8) : Option ℕ :=
  if !digits.isEmpty && digits.all (fun b => 48 ≤ b.toNat && b.toNat ≤ 57) then
    some (digits.foldl (fun n b => 10 * n + (b.toNat - 48)) 0)
  else none

variable (name : List UInt8)

/-- The number behind `name`, in the first header that has one. -/
def bodyLength (headers : List (List UInt8)) : Option ℕ :=
  headers.findSome? fun line => if name <+: line then number (line.drop name.length) else none

/-- The lines up to the blank one. -/
def readHeaders : ℕ → List UInt8 → Option (List (List UInt8) × List UInt8)
  | 0, _ => none
  | n + 1, text =>
    match Lines.line 13 10 text with
    | (_, none) => none
    | ([], some rest) => some ([], rest)
    | (b :: line, some rest) => (readHeaders n rest).map fun r => ((b :: line) :: r.1, r.2)

def read (text : List UInt8) : Option (Message × List UInt8) :=
  match Lines.line 13 10 text with
  | (_, none) => none
  | (first, some rest) =>
    (readHeaders rest.length rest).bind fun r =>
      (bodyLength name r.1).bind fun n =>
        if n ≤ r.2.length then some (⟨first, r.1, r.2.take n⟩, r.2.drop n) else none

def readUpTo : ℕ → List UInt8 → Option (List Message)
  | _, [] => some []
  | 0, _ :: _ => none
  | n + 1, b :: text =>
    (read name (b :: text)).bind fun r => (readUpTo n r.2).map fun ms => r.1 :: ms

def readAll (text : List UInt8) : Option (List Message) := readUpTo name text.length text

/-- The lines end where they should, and the length is that of the body. -/
structure Message.Delimited (m : Message) : Prop where
  first : 13 ∉ m.first
  headers : ∀ line ∈ m.headers, line ≠ [] ∧ 13 ∉ line
  length : bodyLength name m.headers = some m.body.length

theorem number_digits (n : ℕ) : number ((toString n).toList.map Char.toUInt8) = some n := by
  have hdigit : ∀ c ∈ (toString n).toList, 48 ≤ c.toNat ∧ c.toNat ≤ 57 := by
    intro c hc
    have hdigit := Decimal.isDigit_of_mem hc
    simp only [Char.isDigit, Bool.and_eq_true, decide_eq_true_eq] at hdigit
    exact ⟨UInt32.le_iff_toNat_le.mp hdigit.1, UInt32.le_iff_toNat_le.mp hdigit.2⟩
  have hbyte : ∀ c ∈ (toString n).toList, c.toUInt8.toNat = c.toNat := by
    intro c hc
    have hmod : c.toUInt8.toNat = c.toNat % 2 ^ 8 := UInt32.toNat_toUInt8 c.val
    have hle := (hdigit c hc).2
    omega
  have hall : ∀ b ∈ (toString n).toList.map Char.toUInt8, 48 ≤ b.toNat ∧ b.toNat ≤ 57 := by
    intro b hb
    obtain ⟨c, hc, rfl⟩ := List.mem_map.mp hb
    rw [hbyte c hc]
    exact hdigit c hc
  have hne : (toString n).toList.map Char.toUInt8 ≠ [] := by
    rw [Nat.toString_eq_repr, Nat.toList_repr, Ne, List.map_eq_nil_iff]
    exact Nat.toDigits_ne_nil
  have hread : Nat.ofDigitChars 10 (toString n).toList 0 = n := by
    rw [Nat.toString_eq_repr, Nat.toList_repr]
    exact Nat.ofDigitChars_toDigits (by decide) (by decide)
  have hdigits : (!((toString n).toList.map Char.toUInt8).isEmpty &&
      ((toString n).toList.map Char.toUInt8).all
        (fun b => 48 ≤ b.toNat && b.toNat ≤ 57)) = true := by
    rw [Bool.and_eq_true, Bool.not_eq_true', List.isEmpty_eq_false_iff, List.all_eq_true]
    refine ⟨hne, fun b hb => ?_⟩
    rw [Bool.and_eq_true, decide_eq_true_eq, decide_eq_true_eq]
    exact hall b hb
  rw [number, if_pos hdigits, List.foldl_map]
  refine congrArg some ((List.foldl_ext _ _ _ fun m c hc => ?_).trans hread)
  rw [hbyte c hc]
  rfl

theorem length_le_flatMap {α β : Type*} {f : α → List β} (h : ∀ x, f x ≠ []) (xs : List α) :
    xs.length ≤ (xs.flatMap f).length := by
  induction xs with
  | nil => exact Nat.le_refl 0
  | cons x xs ih =>
    have hpos := List.length_pos_of_ne_nil (h x)
    rw [List.flatMap_cons, List.length_append, List.length_cons]
    omega

theorem line_crlf {line : List UInt8} (h : 13 ∉ line) (rest : List UInt8) :
    Lines.line 13 10 (line ++ crlf ++ rest) = (line, some rest) := by
  rw [List.append_assoc]
  exact Lines.line_append h rest

variable {name}

private theorem readHeaders_encode {headers : List (List UInt8)}
    (h : ∀ line ∈ headers, line ≠ [] ∧ 13 ∉ line) (rest : List UInt8) {n : ℕ}
    (hn : headers.length < n) :
    readHeaders n (headers.flatMap (fun line => line ++ crlf) ++ crlf ++ rest) =
      some (headers, rest) := by
  induction headers generalizing n with
  | nil =>
    obtain ⟨n, rfl⟩ := Nat.exists_eq_add_one_of_ne_zero (Nat.ne_zero_of_lt hn)
    have hline : Lines.line 13 10 ([] ++ crlf ++ rest) = ([], some rest) :=
      line_crlf List.not_mem_nil rest
    simp only [List.flatMap_nil, readHeaders, hline]
  | cons line headers ih =>
    obtain ⟨n, rfl⟩ := Nat.exists_eq_add_one_of_ne_zero (Nat.ne_zero_of_lt hn)
    obtain ⟨hne, hcr⟩ := h line List.mem_cons_self
    have hrest := ih (fun l hl => h l (List.mem_cons_of_mem line hl)) (Nat.lt_of_succ_lt_succ hn)
    have hline := line_crlf hcr (headers.flatMap (fun line => line ++ crlf) ++ crlf ++ rest)
    cases line with
    | nil => exact absurd rfl hne
    | cons b line =>
      simp only [List.flatMap_cons, List.append_assoc] at hline hrest ⊢
      simp only [readHeaders, hline, hrest, Option.map_some]

theorem read_encode {m : Message} (h : m.Delimited name) (rest : List UInt8) :
    read name (m.encode ++ rest) = some (m, rest) := by
  have hshort : m.headers.length <
      (m.headers.flatMap (fun line => line ++ crlf) ++ crlf ++ (m.body ++ rest)).length := by
    have hlines : m.headers.length ≤ (m.headers.flatMap fun line => line ++ crlf).length := by
      apply length_le_flatMap
      intro line
      simp [crlf]
    simp only [List.length_append, crlf, List.length_cons, List.length_nil] at hlines ⊢
    omega
  have htext : m.encode ++ rest = m.first ++ crlf ++
      (m.headers.flatMap (fun line => line ++ crlf) ++ crlf ++ (m.body ++ rest)) := by
    simp only [Message.encode, List.append_assoc]
  have hle : m.body.length ≤ (m.body ++ rest).length := by
    rw [List.length_append]
    omega
  rw [htext, read, line_crlf h.first]
  simp only [readHeaders_encode h.headers _ hshort, Option.bind_some, h.length, if_pos hle,
    List.take_left, List.drop_left]

theorem encode_ne_nil (m : Message) : m.encode ≠ [] := by
  simp [Message.encode, crlf]

private theorem readUpTo_encode {ms : List Message} (h : ∀ m ∈ ms, m.Delimited name) {n : ℕ}
    (hn : ms.length ≤ n) : readUpTo name n (ms.flatMap Message.encode) = some ms := by
  induction ms generalizing n with
  | nil =>
    cases n with
    | zero => rfl
    | succ n => rfl
  | cons m ms ih =>
    obtain ⟨n, rfl⟩ := Nat.exists_eq_add_one_of_ne_zero (Nat.ne_zero_of_lt hn)
    have hrest := ih (fun m' hm' => h m' (List.mem_cons_of_mem m hm')) (Nat.le_of_succ_le_succ hn)
    have hread := read_encode (h m List.mem_cons_self) (ms.flatMap Message.encode)
    rw [List.flatMap_cons]
    generalize htext : m.encode ++ ms.flatMap Message.encode = text at hread ⊢
    cases text with
    | nil => exact absurd (List.append_eq_nil_iff.mp htext).1 (encode_ne_nil m)
    | cons b text => simp only [readUpTo, hread, Option.bind_some, hrest, Option.map_some]

theorem readAll_encode {ms : List Message} (h : ∀ m ∈ ms, m.Delimited name) :
    readAll name (ms.flatMap Message.encode) = some ms := by
  exact readUpTo_encode h (length_le_flatMap encode_ne_nil ms)

end Headed
