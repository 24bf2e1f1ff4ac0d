import Mathlib.Data.List.Chain
import Mathlib.Data.Set.Insert
import Mathlib.Data.UInt
import TermChat.Base.Decimal

/-! `IdGenerator::GenerateMsgId`: milliseconds since the epoch above a 22-bit sequence. The ids of
a sequence of calls, when two of them are equal, and when they increase. Conversation ids: the ids
of two users in order, with an underscore between them. -/
namespace TermChat.IdGenerator

def epoch : UInt64 := 1704067200000

def sequenceMask : UInt64 := 0x3FFFFF

/-- The id for the clock reading `nowMs`, when `fetch_add` returns `sequence`. -/
def generateMsgId (nowMs : UInt64) (sequence : UInt32) : UInt64 :=
  let nowMs := if nowMs < epoch then epoch else nowMs
  ((nowMs - epoch) <<< 22) ||| (sequence.toUInt64 &&& sequenceMask)

example : generateMsgId 1704067200001 5 = 4194309 := by decide

/-- The ids of calls in the order of their `fetch_add`, each with its clock reading. -/
def generateMsgIds (sequence : UInt32) : List UInt64 → List UInt64
  | [] => []
  | nowMs :: readings => generateMsgId nowMs sequence :: generateMsgIds (sequence + 1) readings

def clamped (nowMs : UInt64) : ℕ := max nowMs.toNat epoch.toNat

/-- The reading fits the 42 bits above the sequence. -/
def InRange (nowMs : UInt64) : Prop := nowMs.toNat < epoch.toNat + 2 ^ 42

instance (nowMs : UInt64) : Decidable (InRange nowMs) := inferInstanceAs (Decidable (_ < _))

theorem epoch_le_clamped (nowMs : UInt64) : epoch.toNat ≤ clamped nowMs := le_max_right _ _

private theorem clamped_lt {nowMs : UInt64} (h : InRange nowMs) :
    clamped nowMs < epoch.toNat + 2 ^ 42 := by
  have hlt : nowMs.toNat < epoch.toNat + 2 ^ 42 := h
  unfold clamped
  omega

private theorem clamped_mono {a b : UInt64} (h : a ≤ b) : clamped a ≤ clamped b := by
  have hle : a.toNat ≤ b.toNat := UInt64.le_iff_toNat_le.mp h
  unfold clamped
  omega

/-- The two fields of an id do not overlap. -/
theorem toNat_generateMsgId {nowMs : UInt64} (h : InRange nowMs) (sequence : UInt32) :
    (generateMsgId nowMs sequence).toNat =
      (clamped nowMs - epoch.toNat) * 2 ^ 22 + sequence.toNat % 2 ^ 22 := by
  have hlt := clamped_lt h
  have hfield : ((if nowMs < epoch then epoch else nowMs) - epoch).toNat =
      clamped nowMs - epoch.toNat := by
    split_ifs with hlow
    · have hnat := UInt64.lt_iff_toNat_lt.mp hlow
      rw [UInt64.toNat_sub_of_le _ _ (UInt64.le_refl _), clamped]
      omega
    · have hle : epoch ≤ nowMs := UInt64.not_lt.mp hlow
      have hnat := UInt64.le_iff_toNat_le.mp hle
      rw [UInt64.toNat_sub_of_le _ _ hle, clamped]
      omega
  have hhigh : (((if nowMs < epoch then epoch else nowMs) - epoch) <<< 22).toNat =
      (clamped nowMs - epoch.toNat) <<< 22 := by
    rw [UInt64.toNat_shiftLeft, hfield]
    change (clamped nowMs - epoch.toNat) <<< 22 % 2 ^ 64 = _
    rw [Nat.shiftLeft_eq]
    apply Nat.mod_eq_of_lt
    omega
  have hlow : (sequence.toUInt64 &&& sequenceMask).toNat = sequence.toNat % 2 ^ 22 := by
    rw [UInt64.toNat_and, UInt32.toNat_toUInt64, ← Nat.and_two_pow_sub_one_eq_mod]
    rfl
  have hmask : sequence.toNat % 2 ^ 22 < 2 ^ 22 := Nat.mod_lt _ (by decide)
  unfold generateMsgId
  rw [UInt64.toNat_or, hhigh, hlow, ← Nat.shiftLeft_add_eq_or_of_lt hmask, Nat.shiftLeft_eq]

@[simp] theorem length_generateMsgIds (sequence : UInt32) (readings : List UInt64) :
    (generateMsgIds sequence readings).length = readings.length := by
  induction readings generalizing sequence with
  | nil => rfl
  | cons nowMs readings ih => simp [generateMsgIds, ih]

private theorem getElem?_generateMsgIds (sequence : UInt32) (readings : List UInt64) (i : ℕ) :
    (generateMsgIds sequence readings)[i]? =
      readings[i]?.map fun nowMs => generateMsgId nowMs (sequence + UInt32.ofNat i) := by
  induction readings generalizing sequence i with
  | nil => rfl
  | cons nowMs readings ih =>
    cases i with
    | zero => simp [generateMsgIds]
    | succ i =>
      have hnext : sequence + 1 + UInt32.ofNat i = sequence + UInt32.ofNat (i + 1) := by
        rw [UInt32.ofNat_add, UInt32.add_assoc, UInt32.add_comm 1]
        rfl
      rw [generateMsgIds, List.getElem?_cons_succ, List.getElem?_cons_succ, ih, hnext]

/-- The counter wraps at 32 bits, which the 22 bits of the mask do not see. -/
theorem toNat_of_reading (sequence : UInt32) {readings : List UInt64}
    (hr : ∀ r ∈ readings, InRange r) {i : ℕ} {nowMs : UInt64} (hi : readings[i]? = some nowMs) :
    ∃ id, (generateMsgIds sequence readings)[i]? = some id ∧
      id.toNat = (clamped nowMs - epoch.toNat) * 2 ^ 22 + (sequence.toNat + i) % 2 ^ 22 := by
  refine ⟨generateMsgId nowMs (sequence + UInt32.ofNat i), ?_, ?_⟩
  · rw [getElem?_generateMsgIds, hi, Option.map_some]
  · have hseq : (sequence + UInt32.ofNat i).toNat % 2 ^ 22 = (sequence.toNat + i) % 2 ^ 22 := by
      rw [UInt32.toNat_add, UInt32.toNat_ofNat']
      omega
    rw [toNat_generateMsgId (hr nowMs (List.mem_of_getElem? hi)), hseq]

/-- Two calls get one id exactly when they read one millisecond and are a multiple of `2 ^ 22`
calls apart; calls that are closer never do. -/
theorem generateMsgIds_eq_iff (sequence : UInt32) (readings : List UInt64)
    (hr : ∀ r ∈ readings, InRange r) (i j : ℕ) (hij : i < j) (hj : j < readings.length) :
    ((generateMsgIds sequence readings)[i]? = (generateMsgIds sequence readings)[j]? ↔
      readings[i]?.map clamped = readings[j]?.map clamped ∧ 2 ^ 22 ∣ j - i) ∧
    (j - i < 2 ^ 22 →
      (generateMsgIds sequence readings)[i]? ≠ (generateMsgIds sequence readings)[j]?) := by
  obtain ⟨r, hri⟩ : ∃ r, readings[i]? = some r :=
    ⟨_, List.getElem?_eq_getElem (hij.trans hj)⟩
  obtain ⟨r', hrj⟩ : ∃ r, readings[j]? = some r := ⟨_, List.getElem?_eq_getElem hj⟩
  obtain ⟨a, ha, hanat⟩ := toNat_of_reading sequence hr hri
  obtain ⟨b, hb, hbnat⟩ := toNat_of_reading sequence hr hrj
  have hr₁ := epoch_le_clamped r
  have hr₂ := epoch_le_clamped r'
  have hiff : a = b ↔ clamped r = clamped r' ∧ 2 ^ 22 ∣ j - i := by
    rw [← UInt64.toNat_inj, hanat, hbnat]
    omega
  simp only [ha, hb, hri, hrj, Option.map_some, Option.some_inj, ne_eq, hiff, true_and]
  rintro hclose ⟨-, hdvd⟩
  have hle : 2 ^ 22 ≤ j - i := Nat.le_of_dvd (by omega) hdvd
  omega

/-- A reading before the epoch and one at the epoch, while the 32-bit counter wraps. -/
theorem generateMsgIds_eq_iff_neighbours :
    (generateMsgIds 0xFFFFFFFF [0, 1704067200000])[0]? ≠
      (generateMsgIds 0xFFFFFFFF [0, 1704067200000])[1]? :=
  (generateMsgIds_eq_iff 0xFFFFFFFF [0, 1704067200000] (by simp [InRange, epoch]) 0 1 (by decide) (by decide)).2
    (by decide)

/-- No call whose masked counter is 0 reads the millisecond of the call before it. -/
def NoWrap (sequence : UInt32) (readings : List UInt64) : Prop :=
  ∀ i r r', readings[i]? = some r → readings[i + 1]? = some r' → clamped r = clamped r' →
    (sequence.toNat + (i + 1)) % 2 ^ 22 ≠ 0

/-- With a clock that does not go back, the ids increase exactly when the sequence never wraps
inside a millisecond. -/
theorem generateMsgIds_increasing_iff (sequence : UInt32) (readings : List UInt64)
    (hr : ∀ r ∈ readings, InRange r) (hclock : readings.Pairwise (· ≤ ·)) :
    (generateMsgIds sequence readings).Pairwise (· < ·) ↔ NoWrap sequence readings := by
  have hnext : ∀ i r r', readings[i]? = some r → readings[i + 1]? = some r' →
      clamped r ≤ clamped r' := by
    intro i r r' hi hj
    obtain ⟨hilt, hir⟩ := List.getElem?_eq_some_iff.mp hi
    obtain ⟨hjlt, hjr⟩ := List.getElem?_eq_some_iff.mp hj
    rw [← hir, ← hjr]
    exact clamped_mono (List.pairwise_iff_getElem.mp hclock i (i + 1) hilt hjlt (by omega))
  -- one comparison of neighbours, on the two fields
  have hstep : ∀ i r r' a b, readings[i]? = some r → readings[i + 1]? = some r' →
      (generateMsgIds sequence readings)[i]? = some a →
      (generateMsgIds sequence readings)[i + 1]? = some b →
      (a < b ↔ (clamped r = clamped r' → (sequence.toNat + (i + 1)) % 2 ^ 22 ≠ 0)) := by
    intro i r r' a b hi hj ha hb
    obtain ⟨a', ha', hanat⟩ := toNat_of_reading sequence hr hi
    obtain ⟨b', hb', hbnat⟩ := toNat_of_reading sequence hr hj
    obtain rfl := Option.some.inj (ha'.symm.trans ha)
    obtain rfl := Option.some.inj (hb'.symm.trans hb)
    have hle := hnext i r r' hi hj
    have hr₁ := epoch_le_clamped r
    rw [UInt64.lt_iff_toNat_lt, hanat, hbnat]
    omega
  rw [← List.isChain_iff_pairwise, List.isChain_iff_getElem]
  constructor
  · intro hchain i r r' hi hj
    have hlt : i + 1 < (generateMsgIds sequence readings).length := by
      rw [length_generateMsgIds]
      exact (List.getElem?_eq_some_iff.mp hj).1
    apply (hstep i r r' _ _ hi hj (List.getElem?_eq_getElem (by omega))
      (List.getElem?_eq_getElem hlt)).mp
    exact hchain i hlt
  · intro hwrap i hi
    have hlt : i + 1 < readings.length := by rwa [length_generateMsgIds] at hi
    have hri : readings[i]? = some readings[i] := List.getElem?_eq_getElem (by omega)
    have hrj : readings[i + 1]? = some readings[i + 1] := List.getElem?_eq_getElem hlt
    apply (hstep i _ _ _ _ hri hrj (List.getElem?_eq_getElem (by omega))
      (List.getElem?_eq_getElem hi)).mpr
    exact hwrap i _ _ hri hrj

/-- Three calls, two of them in one millisecond. -/
theorem generateMsgIds_increasing_burst :
    (generateMsgIds 0 [1704067200001, 1704067200001, 1704067200002]).Pairwise (· < ·) := by
  rw [generateMsgIds_increasing_iff 0 _ (by simp [InRange, epoch]) (by decide)]
  intro i r r' hi hj _
  have hlt : i + 1 < 3 := (List.getElem?_eq_some_iff.mp hj).1
  have hzero : (0 : UInt32).toNat = 0 := rfl
  omega

/-- `2 ^ 22 - 1` calls in one millisecond and two in the next. -/
def straddlingReadings : List UInt64 :=
  List.replicate (2 ^ 22 - 1) (epoch + 1) ++ List.replicate 2 (epoch + 2)

/-- The last two calls read one millisecond, and the sequence wraps between them. -/
theorem straddling_not_increasing :
    straddlingReadings.Pairwise (· ≤ ·) ∧ (∀ r ∈ straddlingReadings, InRange r) ∧
      (∀ r, straddlingReadings.count r < 2 ^ 22) ∧
      ¬ (generateMsgIds 0 straddlingReadings).Pairwise (· < ·) := by
  have hle : epoch + 1 ≤ epoch + 2 := by decide
  have hend : ∀ n k, k < 2 →
      (List.replicate n (epoch + 1) ++ List.replicate 2 (epoch + 2))[n + k]? = some (epoch + 2) := by
    intro n k hk
    rw [List.getElem?_append_right (by simp), List.length_replicate, Nat.add_sub_cancel_left,
      List.getElem?_replicate, if_pos hk]
  have hclock : straddlingReadings.Pairwise (· ≤ ·) := by
    refine List.pairwise_append.mpr ⟨?_, ?_, ?_⟩
    · exact List.pairwise_replicate.mpr (.inr (UInt64.le_refl _))
    · exact List.pairwise_replicate.mpr (.inr (UInt64.le_refl _))
    · intro a ha b hb
      rw [List.eq_of_mem_replicate ha, List.eq_of_mem_replicate hb]
      exact hle
  have hrange : ∀ r ∈ straddlingReadings, InRange r := by
    intro r hr
    rcases List.mem_append.mp hr with hr | hr
    · rw [List.eq_of_mem_replicate hr]
      decide
    · rw [List.eq_of_mem_replicate hr]
      decide
  refine ⟨hclock, hrange, ?_, ?_⟩
  · intro r
    rw [straddlingReadings, List.count_append, List.count_replicate, List.count_replicate]
    by_cases hr : epoch + 1 = r
    · have hne : ¬ epoch + 2 = r := by
        rw [← hr]
        decide
      simp [hr, hne]
    · simp only [beq_iff_eq, hr, if_false]
      split_ifs <;> omega
  · intro h
    obtain ⟨a, ha, hanat⟩ := toNat_of_reading 0 hrange (hend (2 ^ 22 - 1) 0 (by decide))
    obtain ⟨b, hb, hbnat⟩ := toNat_of_reading 0 hrange (hend (2 ^ 22 - 1) 1 (by decide))
    obtain ⟨hi, hia⟩ := List.getElem?_eq_some_iff.mp ha
    obtain ⟨hj, hjb⟩ := List.getElem?_eq_some_iff.mp hb
    have hlt := List.pairwise_iff_getElem.mp h _ _ hi hj (by omega)
    rw [hia, hjb, UInt64.lt_iff_toNat_lt, hanat, hbnat] at hlt
    have hzero : (0 : UInt32).toNat = 0 := rfl
    omega

def generateP2PConvId (senderId receiverId : UInt64) : String :=
  if senderId ≤ receiverId then toString senderId ++ "_" ++ toString receiverId
  else toString receiverId ++ "_" ++ toString senderId

example : generateP2PConvId 12 3 = "3_12" := by decide

theorem generateP2PConvId_comm (a b : UInt64) : generateP2PConvId a b = generateP2PConvId b a := by
  unfold generateP2PConvId
  split_ifs with hab hba hba
  · rw [UInt64.le_antisymm hab hba]
  · rfl
  · rfl
  · exact absurd (UInt64.le_of_lt (UInt64.not_le.mp hab)) hba

theorem generateP2PConvId_of_le {a b : UInt64} (h : a ≤ b) :
    generateP2PConvId a b = toString a.toNat ++ '_'.toString ++ toString b.toNat :=
  if_pos h

theorem eq_of_generateP2PConvId_eq {a b c d : UInt64} (hab : a ≤ b) (hcd : c ≤ d)
    (h : generateP2PConvId a b = generateP2PConvId c d) : a = c ∧ b = d := by
  rw [generateP2PConvId_of_le hab, generateP2PConvId_of_le hcd] at h
  have hnat := Decimal.eq_of_separated (by decide) h
  exact ⟨UInt64.toNat_inj.mp hnat.1, UInt64.toNat_inj.mp hnat.2⟩

theorem pair_of_generateP2PConvId_eq {a b c d : UInt64}
    (h : generateP2PConvId a b = generateP2PConvId c d) : a = c ∧ b = d ∨ a = d ∧ b = c := by
  -- either pair is in order, or its swap is and has the same id
  rcases UInt64.le_total a b with hab | hba
  · rcases UInt64.le_total c d with hcd | hdc
    · exact .inl (eq_of_generateP2PConvId_eq hab hcd h)
    · rw [generateP2PConvId_comm c d] at h
      exact .inr (eq_of_generateP2PConvId_eq hab hdc h)
  · rw [generateP2PConvId_comm a b] at h
    rcases UInt64.le_total c d with hcd | hdc
    · have hpair := eq_of_generateP2PConvId_eq hba hcd h
      exact .inr hpair.symm
    · rw [generateP2PConvId_comm c d] at h
      have hpair := eq_of_generateP2PConvId_eq hba hdc h
      exact .inl hpair.symm

/-- Two chats have one conversation id exactly when they are between the same two users. -/
theorem generateP2PConvId_eq_iff (a b c d : UInt64) :
    generateP2PConvId a b = generateP2PConvId c d ↔ ({a, b} : Set UInt64) = {c, d} := by
  rw [Set.pair_eq_pair_iff]
  constructor
  · exact pair_of_generateP2PConvId_eq
  · rintro (⟨rfl, rfl⟩ | ⟨rfl, rfl⟩)
    · rfl
    · exact generateP2PConvId_comm a b

end TermChat.IdGenerator
