import Mathlib.Data.UInt
import Mathlib.Algebra.Order.Group.Nat

/-! The wire format of protobuf: varints, tags and fields. A field that has its default value
is left out. -/
namespace Wire

/-- At most `k` bytes, seven bits in each, the lowest first; the top bit says that more follow. -/
def groups : ℕ → ℕ → List UInt8
  | 0, _ => []
  | k + 1, n =>
    if n < 128 then [UInt8.ofNat n] else UInt8.ofNat (n % 128 + 128) :: groups k (n / 128)

/-- A varint of 64 bits has at most ten bytes. -/
def varint (n : ℕ) : List UInt8 := groups 10 n

/-- Wire type 0 is a varint, 2 a length and that many bytes. -/
def tag (field wireType : ℕ) : List UInt8 := varint (8 * field + wireType)

def uintField (field n : ℕ) : List UInt8 := if n = 0 then [] else tag field 0 ++ varint n

/-- A message, which is written even if it is empty. -/
def messageField (field : ℕ) (bs : List UInt8) : List UInt8 := tag field 2 ++ varint bs.length ++ bs

def bytesField (field : ℕ) (bs : List UInt8) : List UInt8 :=
  if bs = [] then [] else messageField field bs

private theorem length_groups_le (k n : ℕ) : (groups k n).length ≤ k := by
  induction k generalizing n with
  | zero => exact le_rfl
  | succ k ih =>
    unfold groups
    split_ifs
    · exact Nat.succ_le_succ (Nat.zero_le k)
    · exact Nat.succ_le_succ (ih _)

theorem length_varint_le (n : ℕ) : (varint n).length ≤ 10 := length_groups_le 10 n

theorem length_varint_four {n : ℕ} (hlo : 2 ^ 21 ≤ n) (hhi : n < 2 ^ 28) : (varint n).length = 4 := by
  simp only [varint, groups]
  rw [if_neg (by omega), if_neg (by omega), if_neg (by omega), if_pos (by omega)]
  rfl

theorem length_uintField_le (field n : ℕ) : (uintField field n).length ≤ 20 := by
  have htag := length_varint_le (8 * field + 0)
  have hn := length_varint_le n
  unfold uintField tag
  split_ifs
  · exact Nat.zero_le 20
  · rw [List.length_append]
    omega

theorem length_messageField (field : ℕ) (bs : List UInt8) :
    (messageField field bs).length = (tag field 2).length + (varint bs.length).length + bs.length := by
  rw [messageField, List.length_append, List.length_append]

theorem length_messageField_le (field : ℕ) (bs : List UInt8) :
    (messageField field bs).length ≤ bs.length + 20 := by
  have htag := length_varint_le (8 * field + 2)
  have hn := length_varint_le bs.length
  rw [length_messageField, tag]
  omega

theorem length_bytesField_le (field : ℕ) (bs : List UInt8) :
    (bytesField field bs).length ≤ bs.length + 20 := by
  unfold bytesField
  split_ifs
  · exact Nat.zero_le _
  · exact length_messageField_le field bs

theorem le_length_bytesField (field : ℕ) (bs : List UInt8) :
    bs.length ≤ (bytesField field bs).length := by
  unfold bytesField
  split_ifs with h
  · simp [h]
  · rw [length_messageField]
    omega

end Wire
