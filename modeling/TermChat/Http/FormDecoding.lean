import TermChat.Http.Form

/-! Forms as `application/x-www-form-urlencoded`, and what `ParseFromUrlencoded_` makes of them. An
escape is not decoded: a digit counts as its character code, and what comes out is written as two
bytes behind the percent sign. -/
namespace TermChat.HttpRequest

/-- The bytes that an encoder leaves as they are. -/
structure SafeBytes where
  safe : UInt8 → Bool
  printable : ∀ b, safe b → 33 ≤ b.toNat ∧ b.toNat ≤ 126
  separators : ∀ b, safe b → b ≠ 37 ∧ b ≠ 38 ∧ b ≠ 43 ∧ b ≠ 61

def IsHexDigit (d : ℕ) (ch : UInt8) : Prop :=
  d < 10 ∧ ch.toNat = 48 + d ∨ 10 ≤ d ∧ d < 16 ∧ (ch.toNat = 55 + d ∨ ch.toNat = 87 + d)

instance (d : ℕ) (ch : UInt8) : Decidable (IsHexDigit d ch) := inferInstanceAs (Decidable (_ ∨ _))

section Encoding

variable (set : SafeBytes)

inductive EncodesByte : UInt8 → Bytes → Prop
  | space : EncodesByte 32 [43]
  | safe {b : UInt8} (h : set.safe b) : EncodesByte b [b]
  | escape {b high low : UInt8} (hspace : b ≠ 32) (h : ¬ set.safe b)
      (hhigh : IsHexDigit (b.toNat / 16) high) (hlow : IsHexDigit (b.toNat % 16) low) :
      EncodesByte b [37, high, low]

inductive Encodes : Bytes → Bytes → Prop
  | nil : Encodes [] []
  | cons {b : UInt8} {bs t ts : Bytes} (h : EncodesByte set b t) (hs : Encodes bs ts) :
      Encodes (b :: bs) (t ++ ts)

/-- The pairs, joined by ampersands. -/
inductive EncodesForm : List (Bytes × Bytes) → Bytes → Prop
  | nil : EncodesForm [] []
  | single {k v ek ev : Bytes} (hk : Encodes set k ek) (hv : Encodes set v ev) :
      EncodesForm [(k, v)] (ek ++ 61 :: ev)
  | cons {k v ek ev body : Bytes} {p : Bytes × Bytes} {ps : List (Bytes × Bytes)}
      (hk : Encodes set k ek) (hv : Encodes set v ev) (h : EncodesForm (p :: ps) body) :
      EncodesForm ((k, v) :: p :: ps) (ek ++ 61 :: (ev ++ 38 :: body))

/-- An encoder, with digits in upper case. -/
def hexDigit (d : ℕ) : UInt8 := UInt8.ofNat (if d < 10 then 48 + d else 55 + d)

def encodeByte (b : UInt8) : Bytes :=
  if b = 32 then [43]
  else if set.safe b then [b]
  else [37, hexDigit (b.toNat / 16), hexDigit (b.toNat % 16)]

def encode (bs : Bytes) : Bytes := bs.flatMap (encodeByte set)

def encodeForm : List (Bytes × Bytes) → Bytes
  | [] => []
  | [(k, v)] => encode set k ++ 61 :: encode set v
  | (k, v) :: p :: ps => encode set k ++ 61 :: (encode set v ++ 38 :: encodeForm (p :: ps))

private theorem isHexDigit_hexDigit {d : ℕ} (h : d < 16) : IsHexDigit d (hexDigit d) := by
  have hsmall : (if d < 10 then 48 + d else 55 + d) < 256 := by
    split_ifs <;> omega
  have htoNat : (hexDigit d).toNat = if d < 10 then 48 + d else 55 + d :=
    UInt8.toNat_ofNat_of_lt hsmall
  unfold IsHexDigit
  rw [htoNat]
  split_ifs <;> omega

theorem encodesByte_encodeByte (b : UInt8) : EncodesByte set b (encodeByte set b) := by
  have hb : b.toNat < 256 := b.toNat_lt
  unfold encodeByte
  split_ifs with hspace hsafe
  · rw [hspace]
    exact .space
  · exact .safe hsafe
  · exact .escape hspace hsafe (isHexDigit_hexDigit (by omega)) (isHexDigit_hexDigit (by omega))

theorem encodes_encode (bs : Bytes) : Encodes set bs (encode set bs) := by
  induction bs with
  | nil => exact .nil
  | cons b bs ih => exact .cons (encodesByte_encodeByte set b) ih

theorem encodesForm_encodeForm (ps : List (Bytes × Bytes)) :
    EncodesForm set ps (encodeForm set ps) := by
  induction ps with
  | nil => exact .nil
  | cons p ps ih =>
    obtain ⟨k, v⟩ := p
    cases ps with
    | nil => exact .single (encodes_encode set k) (encodes_encode set v)
    | cons p ps => exact .cons (encodes_encode set k) (encodes_encode set v) ih

end Encoding

/-- Letters, digits and four more, as browsers send them. -/
def browserSafe : SafeBytes where
  safe b := decide (48 ≤ b.toNat ∧ b.toNat ≤ 57 ∨ 65 ≤ b.toNat ∧ b.toNat ≤ 90 ∨
    97 ≤ b.toNat ∧ b.toNat ≤ 122 ∨ b.toNat = 42 ∨ b.toNat = 45 ∨ b.toNat = 46 ∨ b.toNat = 95)
  printable b h := by
    rw [decide_eq_true_eq] at h
    omega
  separators b h := by
    refine ⟨?_, ?_, ?_, ?_⟩
    all_goals
      rintro rfl
      revert h
      decide

namespace SafeBytes

variable (set : SafeBytes)

def PlainByte (b : UInt8) : Prop := set.safe b ∨ b = 32

instance (b : UInt8) : Decidable (set.PlainByte b) := inferInstanceAs (Decidable (_ ∨ _))

def Plain (bs : Bytes) : Prop := ∀ b ∈ bs, set.PlainByte b

instance (bs : Bytes) : Decidable (set.Plain bs) := List.decidableBAll set.PlainByte bs

/-- What `ConvertHex` makes of a digit. -/
def hexValue (d : ℕ) : ℤ := if d < 10 then 48 + d else d

/-- What the pass leaves of an encoded byte. -/
def misreadByte (b : UInt8) : Bytes :=
  if set.PlainByte b then [b]
  else
    let num := hexValue (b.toNat / 16) * 16 + hexValue (b.toNat % 16)
    [37, UInt8.ofInt (num.tdiv 10 + 48), UInt8.ofInt (num.tmod 10 + 48)]

def misread (bs : Bytes) : Bytes := bs.flatMap set.misreadByte

variable {set} {bs : Bytes}

theorem misread_cons (b : UInt8) (bs : Bytes) :
    set.misread (b :: bs) = set.misreadByte b ++ set.misread bs := rfl

theorem misread_of_plain (h : set.Plain bs) : set.misread bs = bs := by
  induction bs with
  | nil => rfl
  | cons b bs ih =>
    obtain ⟨hb, hbs⟩ := List.forall_mem_cons.mp h
    rw [misread_cons, misreadByte, if_pos hb, ih hbs]
    rfl

/-- A percent sign is always escaped. -/
theorem percent_notMem_of_plain (h : set.Plain bs) : 37 ∉ bs := by
  intro hmem
  rcases h 37 hmem with hsafe | heq
  · exact (set.separators 37 hsafe).1 rfl
  · cases heq

theorem percent_mem_misread (h : ¬ set.Plain bs) : 37 ∈ set.misread bs := by
  obtain ⟨b, hb, hplain⟩ : ∃ b ∈ bs, ¬ set.PlainByte b := by simpa [Plain] using h
  rw [misread, List.mem_flatMap]
  refine ⟨b, hb, ?_⟩
  rw [misreadByte, if_neg hplain]
  exact List.mem_cons_self

theorem length_misreadByte (b : UInt8) :
    (set.misreadByte b).length = if set.PlainByte b then 1 else 3 := by
  unfold misreadByte
  split_ifs <;> rfl

theorem length_le_misread (bs : Bytes) : bs.length ≤ (set.misread bs).length := by
  induction bs with
  | nil => exact Nat.le_refl _
  | cons b bs ih =>
    have hone := set.length_misreadByte b
    rw [misread_cons, List.length_append, List.length_cons]
    split_ifs at hone <;> omega

/-- What is escaped comes out longer than it was. -/
theorem length_lt_misread (h : ¬ set.Plain bs) : bs.length < (set.misread bs).length := by
  induction bs with
  | nil => exact absurd (fun b hb => absurd hb List.not_mem_nil) h
  | cons b bs ih =>
    have hone := set.length_misreadByte b
    have hle := set.length_le_misread bs
    rw [misread_cons, List.length_append, List.length_cons]
    by_cases hb : set.PlainByte b
    · have hbs : ¬ set.Plain bs := fun hbs => h (List.forall_mem_cons.mpr ⟨hb, hbs⟩)
      have hlt := ih hbs
      rw [if_pos hb] at hone
      omega
    · rw [if_neg hb] at hone
      omega

theorem plain_of_misread_eq (h : set.misread bs = bs) : set.Plain bs := by
  by_contra hplain
  have hlt := length_lt_misread hplain
  rw [h] at hlt
  exact Nat.lt_irrefl _ hlt

end SafeBytes

private theorem toInt_toInt8 {ch : UInt8} (h : ch.toNat < 128) : ch.toInt8.toInt = ch.toNat := by
  have hcond := BitVec.toInt_eq_toNat_cond ch.toBitVec
  change ch.toInt8.toInt = if 2 * ch.toNat < 2 ^ 8 then (ch.toNat : ℤ) else ch.toNat - 2 ^ 8 at hcond
  rw [hcond, if_pos (by omega)]

private theorem convertHex_of_isHexDigit {d : ℕ} {ch : UInt8} (h : IsHexDigit d ch) :
    convertHex ch = SafeBytes.hexValue d := by
  have hsmall : ch.toNat < 128 := by
    unfold IsHexDigit at h
    omega
  have hupper : (65 ≤ ch ∧ ch ≤ 70) ↔ (65 ≤ ch.toNat ∧ ch.toNat ≤ 70) := by
    rw [UInt8.le_iff_toNat_le, UInt8.le_iff_toNat_le]
    rfl
  have hlower : (97 ≤ ch ∧ ch ≤ 102) ↔ (97 ≤ ch.toNat ∧ ch.toNat ≤ 102) := by
    rw [UInt8.le_iff_toNat_le, UInt8.le_iff_toNat_le]
    rfl
  simp only [convertHex, SafeBytes.hexValue, toInt_toInt8 hsmall, hupper, hlower]
  unfold IsHexDigit at h
  split_ifs <;> omega

/-- The loop at a point of the body: `before` ends where `j` is, and `read` where `i` is. -/
def scanAt (before read rest key : Bytes) (post : Bytes → Option Bytes) : FormScan where
  body := before ++ read ++ rest
  post := post
  key := key
  i := before.length + read.length
  j := before.length

section Loop

variable {set : SafeBytes} {before read rest key bs enc : Bytes} {post : Bytes → Option Bytes}
  {n : ℤ} {ch : UInt8}

theorem getElem?_scanAt_add (k : ℕ) :
    (scanAt before read rest key post).body[(scanAt before read rest key post).i + k]? = rest[k]? := by
  have hlen : before.length + read.length + k = (before ++ read).length + k := by
    rw [List.length_append]
  simp only [scanAt, hlen, List.getElem?_append_right (Nat.le_add_right _ _), Nat.add_sub_cancel_left]

theorem getElem?_scanAt : (scanAt before read (ch :: rest) key post).body[
    (scanAt before read (ch :: rest) key post).i]? = some ch :=
  getElem?_scanAt_add 0

private theorem formLoop_scanAt_plain (hn : ((before.length + read.length : ℕ) : ℤ) < n)
    (hint : n < 2 ^ 31) (hch : ch ≠ 61 ∧ ch ≠ 43 ∧ ch ≠ 37 ∧ ch ≠ 38) :
    formLoop n (scanAt before read (ch :: rest) key post) =
      formLoop n (scanAt before (read ++ [ch]) rest key post) := by
  have hi : (scanAt before read (ch :: rest) key post).i < 2 ^ 31 := by
    change before.length + read.length < 2 ^ 31
    omega
  rw [formLoop_step hn (formStep_plain hi getElem?_scanAt hch)]
  simp [scanAt, Nat.add_assoc]

private theorem formLoop_scanAt_plus (hn : ((before.length + read.length : ℕ) : ℤ) < n)
    (hint : n < 2 ^ 31) :
    formLoop n (scanAt before read (43 :: rest) key post) =
      formLoop n (scanAt before (read ++ [32]) rest key post) := by
  have hi : (scanAt before read (43 :: rest) key post).i < 2 ^ 31 := by
    change before.length + read.length < 2 ^ 31
    omega
  rw [formLoop_step hn (formStep_plus hi getElem?_scanAt)]
  simp [scanAt, Nat.add_assoc]

private theorem formLoop_scanAt_escape {high low : UInt8}
    (hn : ((before.length + read.length + 2 : ℕ) : ℤ) < n) (hint : n < 2 ^ 31) :
    formLoop n (scanAt before read (37 :: high :: low :: rest) key post) =
      formLoop n (scanAt before
        (read ++ [37, (decimalDigits high low).1, (decimalDigits high low).2]) rest key post) := by
  have hi : (scanAt before read (37 :: high :: low :: rest) key post).i + 2 < 2 ^ 31 := by
    change before.length + read.length + 2 < 2 ^ 31
    omega
  have hlt : ((scanAt before read (37 :: high :: low :: rest) key post).i : ℤ) < n := by
    change ((before.length + read.length : ℕ) : ℤ) < n
    omega
  have hstep := formStep_escape (by omega) getElem?_scanAt (getElem?_scanAt_add 1)
    (getElem?_scanAt_add 2) hi
  rw [formLoop_step hlt hstep]
  simp [scanAt, Nat.add_assoc]

private theorem formLoop_scanAt_eq (hn : ((before.length + read.length : ℕ) : ℤ) < n)
    (hint : n < 2 ^ 31) :
    formLoop n (scanAt before read (61 :: rest) key post) =
      formLoop n (scanAt (before ++ read ++ [61]) [] rest read post) := by
  have hi : (scanAt before read (61 :: rest) key post).i < 2 ^ 31 := by
    change before.length + read.length < 2 ^ 31
    omega
  have hj : (scanAt before read (61 :: rest) key post).j ≤
      (scanAt before read (61 :: rest) key post).body.length := by
    simp [scanAt]
  rw [formLoop_step hn (formStep_eq hi getElem?_scanAt hj)]
  simp [scanAt, Nat.add_assoc]

private theorem formLoop_scanAt_amp (hn : ((before.length + read.length : ℕ) : ℤ) < n)
    (hint : n < 2 ^ 31) :
    formLoop n (scanAt before read (38 :: rest) key post) =
      formLoop n (scanAt (before ++ read ++ [38]) [] rest key
        (Function.update post key (some read))) := by
  have hi : (scanAt before read (38 :: rest) key post).i < 2 ^ 31 := by
    change before.length + read.length < 2 ^ 31
    omega
  have hj : (scanAt before read (38 :: rest) key post).j ≤
      (scanAt before read (38 :: rest) key post).body.length := by
    simp [scanAt]
  rw [formLoop_step hn (formStep_amp hi getElem?_scanAt hj)]
  simp [scanAt, Nat.add_assoc]

theorem formLoop_scanAt_byte {b : UInt8} (h : EncodesByte set b enc)
    (hn : ((before.length + read.length + enc.length : ℕ) : ℤ) ≤ n) (hint : n < 2 ^ 31) :
    formLoop n (scanAt before read (enc ++ rest) key post) =
      formLoop n (scanAt before (read ++ set.misreadByte b) rest key post) := by
  cases h with
  | space =>
    have hplain : set.PlainByte 32 := .inr rfl
    simp only [List.length_singleton] at hn
    rw [SafeBytes.misreadByte, if_pos hplain]
    exact formLoop_scanAt_plus (by omega) hint
  | safe h =>
    have hplain : set.PlainByte b := .inl h
    obtain ⟨hpercent, hamp, hplus, heq⟩ := set.separators b h
    simp only [List.length_singleton] at hn
    rw [SafeBytes.misreadByte, if_pos hplain]
    exact formLoop_scanAt_plain (by omega) hint ⟨heq, hplus, hpercent, hamp⟩
  | escape hspace h hhigh hlow =>
    have hplain : ¬ set.PlainByte b := not_or.mpr ⟨h, hspace⟩
    simp only [List.length_cons, List.length_nil] at hn
    rw [SafeBytes.misreadByte, if_neg hplain, ← convertHex_of_isHexDigit hhigh,
      ← convertHex_of_isHexDigit hlow]
    exact formLoop_scanAt_escape (by omega) hint

theorem length_misreadByte_of_encodes {b : UInt8} (h : EncodesByte set b enc) :
    (set.misreadByte b).length = enc.length := by
  rw [SafeBytes.length_misreadByte]
  cases h with
  | space => exact if_pos (.inr rfl)
  | safe h => exact if_pos (.inl h)
  | escape hspace h _ _ => exact if_neg (not_or.mpr ⟨h, hspace⟩)

/-- The pass through the encoding of a key or a value. -/
theorem formLoop_scanAt_encodes (h : Encodes set bs enc)
    (hn : ((before.length + read.length + enc.length : ℕ) : ℤ) ≤ n) (hint : n < 2 ^ 31) :
    formLoop n (scanAt before read (enc ++ rest) key post) =
      formLoop n (scanAt before (read ++ set.misread bs) rest key post) := by
  induction h generalizing read with
  | nil =>
    simp only [SafeBytes.misread, List.flatMap_nil, List.append_nil, List.nil_append]
  | cons hb hbs ih =>
    rename_i b bs t ts
    have hlen := length_misreadByte_of_encodes hb
    rw [List.length_append] at hn
    rw [List.append_assoc, formLoop_scanAt_byte hb (by omega) hint, SafeBytes.misread_cons,
      ← List.append_assoc]
    apply ih
    rw [List.length_append, hlen]
    omega

theorem length_misread_of_encodes (h : Encodes set bs enc) :
    (set.misread bs).length = enc.length := by
  induction h with
  | nil => rfl
  | cons hb _ ih =>
    rw [SafeBytes.misread_cons, List.length_append, List.length_append, ih,
      length_misreadByte_of_encodes hb]

theorem formLoop_scanAt_pair {k v ek ev : Bytes} (hk : Encodes set k ek) (hv : Encodes set v ev)
    (hn : ((before.length + ek.length + 1 + ev.length : ℕ) : ℤ) ≤ n) (hint : n < 2 ^ 31) :
    formLoop n (scanAt before [] (ek ++ 61 :: (ev ++ rest)) key post) =
      formLoop n (scanAt (before ++ set.misread k ++ [61]) (set.misread v) rest (set.misread k)
        post) := by
  have hlen := length_misread_of_encodes hk
  rw [formLoop_scanAt_encodes hk (by simp only [List.length_nil]; omega) hint, List.nil_append,
    formLoop_scanAt_eq (by omega) hint]
  apply formLoop_scanAt_encodes hv _ hint
  simp only [List.length_append, List.length_singleton, List.length_nil, hlen]
  omega

end Loop

/-- What the pass and the statements behind it store for a list of pairs: all but the last at
their ampersands, the last if it has a value and its key is new. -/
def stored (post : Bytes → Option Bytes) : List (Bytes × Bytes) → Bytes → Option Bytes
  | [] => post
  | [(k, v)] => if post k = none ∧ v ≠ [] then Function.update post k (some v) else post
  | (k, v) :: p :: ps => stored (Function.update post k (some v)) (p :: ps)

section Stored

variable {post : Bytes → Option Bytes} {ps : List (Bytes × Bytes)} {k v : Bytes}

theorem mem_of_stored (h : stored post ps k = some v) : (k, v) ∈ ps ∨ post k = some v := by
  induction ps generalizing post with
  | nil => exact .inr h
  | cons p ps ih =>
    obtain ⟨k', v'⟩ := p
    have hone : Function.update post k' (some v') k = some v →
        (k, v) ∈ (k', v') :: ps ∨ post k = some v := by
      intro h
      by_cases hk : k = k'
      · subst hk
        rw [Function.update_self, Option.some.injEq] at h
        exact .inl (h ▸ List.mem_cons_self)
      · rw [Function.update_of_ne hk] at h
        exact .inr h
    cases ps with
    | nil =>
      rw [stored] at h
      split_ifs at h
      · exact hone h
      · exact .inr h
    | cons q ps =>
      rcases ih h with hmem | h
      · exact .inl (List.mem_cons_of_mem _ hmem)
      · exact hone h

/-- The last pair is stored only under a key that has no value yet. -/
theorem stored_singleton {p : Bytes × Bytes} (hmem : (k, v) = p ∨ post k = some v) (hv : v ≠ [])
    (hother : ∀ w, (k, w) = p → w = v) (hpost : ∀ w, post k = some w → w = v) :
    stored post [p] k = some v := by
  obtain ⟨k', v'⟩ := p
  rw [stored]
  by_cases hk : k = k'
  · subst hk
    have hv' : v' = v := hother v' rfl
    subst hv'
    split_ifs with hnew
    · rw [Function.update_self]
    · have hsome : post k ≠ none := fun h => hnew ⟨h, hv⟩
      obtain ⟨w, hw⟩ := Option.ne_none_iff_exists'.mp hsome
      rw [hw, hpost w hw]
  · have hold : post k = some v := hmem.resolve_left fun h => hk (Prod.mk.inj h).1
    split_ifs
    · rw [Function.update_of_ne hk, hold]
    · exact hold

/-- A value that is not empty is stored, if no other goes by its key. -/
theorem stored_eq_some (hmem : (k, v) ∈ ps ∨ post k = some v) (hv : v ≠ [])
    (hother : ∀ w, (k, w) ∈ ps → w = v) (hpost : ∀ w, post k = some w → w = v) :
    stored post ps k = some v := by
  induction ps generalizing post with
  | nil => exact hmem.resolve_left List.not_mem_nil
  | cons p ps ih =>
    cases ps with
    | nil =>
      simp only [List.mem_singleton] at hmem hother
      exact stored_singleton hmem hv hother hpost
    | cons q ps =>
      obtain ⟨k', v'⟩ := p
      have hrest : ∀ w, (k, w) ∈ q :: ps → w = v :=
        fun w hw => hother w (List.mem_cons_of_mem _ hw)
      by_cases hk : k = k'
      · subst hk
        have hv' : v' = v := hother v' List.mem_cons_self
        subst hv'
        have hself : Function.update post k (some v') k = some v' := Function.update_self _ _ _
        exact ih (.inr hself) hrest fun w hw => Option.some.inj (hw.symm.trans hself)
      · have hsame : Function.update post k' (some v') k = post k := Function.update_of_ne hk _ _
        apply ih _ hrest
        · rw [hsame]
          exact hpost
        · rw [hsame]
          refine hmem.imp_left fun h => ?_
          rw [List.mem_cons, Prod.mk.injEq] at h
          exact h.resolve_left fun heq => hk heq.1

end Stored

def SafeBytes.misreadPairs (set : SafeBytes) (ps : List (Bytes × Bytes)) : List (Bytes × Bytes) :=
  ps.map fun p => (set.misread p.1, set.misread p.2)

/-- The loop ends behind the last value, with the other pairs stored. -/
theorem formLoop_form {set : SafeBytes} {ps : List (Bytes × Bytes)} {body before key : Bytes}
    {post : Bytes → Option Bytes} {n : ℤ} (h : EncodesForm set ps body) (hps : ps ≠ [])
    (hn : ((before.length + body.length : ℕ) : ℤ) = n) (hint : n < 2 ^ 31) :
    ∃ before' value key' post', formLoop n (scanAt before [] body key post) =
        .ok (scanAt before' value [] key' post') ∧
      (if post' key' = none ∧ value ≠ [] then Function.update post' key' (some value) else post') =
        stored post (set.misreadPairs ps) := by
  induction h generalizing before key post with
  | nil => exact absurd rfl hps
  | single hk hv =>
    rename_i k v ek ev
    have hlenk := length_misread_of_encodes hk
    have hlenv := length_misread_of_encodes hv
    simp only [List.length_append, List.length_cons] at hn
    have hpass : formLoop n (scanAt before [] (ek ++ 61 :: (ev ++ [])) key post) = _ :=
      formLoop_scanAt_pair hk hv (by omega) hint
    rw [List.append_nil] at hpass
    refine ⟨_, _, _, _, hpass.trans (formLoop_done ?_), rfl⟩
    simp only [scanAt, List.length_append, List.length_singleton, hlenk, hlenv]
    omega
  | cons hk hv hrest ih =>
    rename_i k v ek ev body p ps
    have hlenk := length_misread_of_encodes hk
    have hlenv := length_misread_of_encodes hv
    simp only [List.length_append, List.length_cons] at hn
    rw [formLoop_scanAt_pair hk hv (by omega) hint, formLoop_scanAt_amp
      (by simp only [List.length_append, List.length_singleton, hlenk, hlenv]; omega) hint]
    apply ih (List.cons_ne_nil p ps)
    simp only [List.length_append, List.length_singleton, hlenk, hlenv]
    omega

private theorem intSize_of_lt {body : Bytes} (h : body.length < 2 ^ 31) :
    intSize body = body.length := by
  unfold intSize
  rw [Int.bmod_def]
  split_ifs <;> omega

theorem parseFromUrlencoded_scanAt {body before value key : Bytes} {post post' : Bytes → Option Bytes}
    (hne : body.length ≠ 0) (hloop : formLoop (intSize body) { body := body, post := post } =
      .ok (scanAt before value [] key post')) :
    parseFromUrlencoded body post = .ok (before ++ value ++ [],
      if post' key = none ∧ value ≠ [] then Function.update post' key (some value) else post') := by
  have hstart : Scanning body { body := body, post := post } :=
    ⟨rfl, rfl, Nat.le_refl _, Nat.zero_le _⟩
  obtain ⟨-, s, hs, hscan⟩ | ⟨-, hfault⟩ := hstart.formLoop (intSize_le body) (intSize_lt body)
  · rw [hloop] at hs
    cases hs
    have hlt : before.length < before.length + value.length ↔ value ≠ [] := by
      rw [Nat.lt_add_right_iff_pos, List.length_pos_iff]
    have htake : ((before ++ value ++ []).drop before.length).take
        (before.length + value.length - before.length) = value := by
      rw [List.append_nil, List.drop_left, Nat.add_sub_cancel_left, List.take_length]
    rw [parseFromUrlencoded_of_ok hne hloop hscan]
    simp only [scanAt, hlt, htake]
    split_ifs <;> rfl
  · rw [hloop] at hfault
    cases hfault

/-- What `post_` is after the pass over an encoded form. -/
theorem parseFromUrlencoded_form {set : SafeBytes} {ps : List (Bytes × Bytes)} {body : Bytes}
    (post : Bytes → Option Bytes) (h : EncodesForm set ps body) (hint : body.length < 2 ^ 31) :
    ∃ out, parseFromUrlencoded body post = .ok (out, stored post (set.misreadPairs ps)) := by
  by_cases hps : ps = []
  · subst hps
    cases h
    exact ⟨[], rfl⟩
  · have hne : body.length ≠ 0 := by
      cases h with
      | nil => exact absurd rfl hps
      | single hk hv => simp
      | cons hk hv h => simp
    have hlen : ((([] : Bytes).length + body.length : ℕ) : ℤ) = intSize body := by
      rw [intSize_of_lt hint, List.length_nil, Nat.zero_add]
    obtain ⟨before, value, key, post', hloop, hstored⟩ := formLoop_form h hps hlen (intSize_lt body)
    rw [← hstored]
    exact ⟨_, parseFromUrlencoded_scanAt hne hloop⟩

section RoundTrip

variable {set : SafeBytes} {ps : List (Bytes × Bytes)}

theorem mem_misreadPairs {k v : Bytes} :
    (k, v) ∈ set.misreadPairs ps ↔ ∃ p ∈ ps, set.misread p.1 = k ∧ set.misread p.2 = v := by
  simp only [SafeBytes.misreadPairs, List.mem_map, Prod.mk.injEq]

/-- Only a plain key comes out as a plain one. -/
theorem eq_of_misread_plain {k k' : Bytes} (hk : set.Plain k) (h : set.misread k' = k) : k' = k := by
  by_cases hk' : set.Plain k'
  · rw [← h, SafeBytes.misread_of_plain hk']
  · exact absurd (h ▸ SafeBytes.percent_mem_misread hk') (SafeBytes.percent_notMem_of_plain hk)

private theorem misread_eq_nil_iff {bs : Bytes} : set.misread bs = [] ↔ bs = [] := by
  constructor
  · intro h
    have hle := set.length_le_misread bs
    rw [h] at hle
    exact List.length_eq_zero_iff.mp (Nat.le_zero.mp hle)
  · rintro rfl
    rfl

/-- Plain pairs come out of `post_` as they went in. -/
theorem getD_stored_of_plain (hkeys : (ps.map Prod.fst).Nodup)
    (hplain : ∀ p ∈ ps, p.2 ≠ [] → set.Plain p.1 ∧ set.Plain p.2) {k v : Bytes} (hmem : (k, v) ∈ ps) :
    (stored (fun _ => none) (set.misreadPairs ps) k).getD [] = v := by
  -- whatever is stored under the key is its value
  have hother : ∀ w, (k, w) ∈ set.misreadPairs ps → w = v := by
    intro w hw
    obtain ⟨⟨k', v'⟩, hp, hk', hv'⟩ := mem_misreadPairs.mp hw
    by_cases hempty : v' = []
    · subst hempty
      by_contra hne
      have hv : v ≠ [] := fun hv => hne (hv'.symm.trans hv.symm)
      have heq : k' = k := eq_of_misread_plain (hplain (k, v) hmem hv).1 hk'
      subst heq
      have hpair := List.inj_on_of_nodup_map hkeys hp hmem rfl
      exact hv (congrArg Prod.snd hpair).symm
    · obtain ⟨hpk, hpv⟩ := hplain (k', v') hp hempty
      have heq : k' = k := by rw [← hk', SafeBytes.misread_of_plain hpk]
      subst heq
      have hpair := List.inj_on_of_nodup_map hkeys hp hmem rfl
      rw [← hv', SafeBytes.misread_of_plain hpv]
      exact congrArg Prod.snd hpair
  by_cases hv : v = []
  · cases hstored : stored (fun _ => none) (set.misreadPairs ps) k with
    | none => exact hv.symm
    | some w =>
      rcases mem_of_stored hstored with hw | hw
      · exact hother w hw
      · cases hw
  · obtain ⟨hpk, hpv⟩ := hplain (k, v) hmem hv
    have hin : (k, v) ∈ set.misreadPairs ps :=
      mem_misreadPairs.mpr ⟨(k, v), hmem, SafeBytes.misread_of_plain hpk, SafeBytes.misread_of_plain hpv⟩
    rw [stored_eq_some (.inl hin) hv hother fun w hw => by cases hw]
    rfl

theorem source_of_getD {k v : Bytes} (hv : v ≠ [])
    (h : (stored (fun _ => none) (set.misreadPairs ps) k).getD [] = v) :
    ∃ p ∈ ps, set.misread p.1 = k ∧ set.misread p.2 = v ∧ p.2 ≠ [] := by
  cases hstored : stored (fun _ => none) (set.misreadPairs ps) k with
  | none =>
    rw [hstored] at h
    exact absurd h.symm hv
  | some w =>
    rw [hstored] at h
    change w = v at h
    subst h
    rcases mem_of_stored hstored with hmem | hnone
    · obtain ⟨p, hp, hk, hw⟩ := mem_misreadPairs.mp hmem
      exact ⟨p, hp, hk, hw, fun hempty => hv (hw ▸ misread_eq_nil_iff.mpr hempty)⟩
    · cases hnone

/-- If all values come out, then no key of one has an escape: what comes out for such a key is
longer, so the shortest of them is not among the keys that come out. -/
theorem plain_key_of_getD
    (h : ∀ p ∈ ps, (stored (fun _ => none) (set.misreadPairs ps) p.1).getD [] = p.2)
    {p : Bytes × Bytes} (hmem : p ∈ ps) (hv : p.2 ≠ []) : set.Plain p.1 := by
  induction hn : p.1.length using Nat.strong_induction_on generalizing p with
  | _ n ih =>
    obtain ⟨q, hq, hk, -, hqv⟩ := source_of_getD hv (h p hmem)
    by_cases hplain : set.Plain q.1
    · rw [← hk, SafeBytes.misread_of_plain hplain]
      exact hplain
    · have hlt := SafeBytes.length_lt_misread hplain
      rw [hk, hn] at hlt
      exact absurd (ih _ hlt hq hqv rfl) hplain

private theorem plain_of_getD (hkeys : (ps.map Prod.fst).Nodup)
    (h : ∀ p ∈ ps, (stored (fun _ => none) (set.misreadPairs ps) p.1).getD [] = p.2)
    {p : Bytes × Bytes} (hmem : p ∈ ps) (hv : p.2 ≠ []) : set.Plain p.1 ∧ set.Plain p.2 := by
  have hplain := plain_key_of_getD h hmem hv
  obtain ⟨q, hq, hk, hw, -⟩ := source_of_getD hv (h p hmem)
  have hpair : q = p := List.inj_on_of_nodup_map hkeys hq hmem (eq_of_misread_plain hplain hk)
  rw [hpair] at hw
  exact ⟨hplain, SafeBytes.plain_of_misread_eq hw⟩

end RoundTrip

/-- A size that is negative as an `int` lets the loop read nothing. -/
theorem parseFromUrlencoded_of_intSize_nonpos {body : Bytes} (h : intSize body ≤ 0)
    (post : Bytes → Option Bytes) : parseFromUrlencoded body post = .ok (body, post) := by
  unfold parseFromUrlencoded
  split_ifs
  · rfl
  · have hloop : formLoop (intSize body) { body := body, post := post } =
        .ok { body := body, post := post } := by
      rw [formLoop]
      exact if_neg (by simpa using h)
    rw [hloop]
    simp [bind, Except.bind, pure, Except.pure]

private theorem intSize_nonpos {body : Bytes} (hint : 2 ^ 31 ≤ body.length) (hlen : body.length < 2 ^ 32) :
    intSize body ≤ 0 := by
  unfold intSize
  rw [Int.bmod_def]
  split_ifs <;> omega

/-- `GetPost` returns the values of an encoded form exactly when no pair with a value has an escape
and the size of the form is an `int`. -/
theorem getPost_form_iff (set : SafeBytes) (ps : List (Bytes × Bytes)) (body : Bytes)
    (henc : EncodesForm set ps body) (hkeys : (ps.map Prod.fst).Nodup) (hne : ∀ p ∈ ps, p.1 ≠ [])
    (hlen : body.length < 2 ^ 32) :
    (∃ out post, parseFromUrlencoded body (fun _ => none) = .ok (out, post) ∧
        ∀ p ∈ ps, getPost post p.1 = some p.2) ↔
      ∀ p ∈ ps, p.2 ≠ [] → body.length < 2 ^ 31 ∧ set.Plain p.1 ∧ set.Plain p.2 := by
  by_cases hint : body.length < 2 ^ 31
  · obtain ⟨out, hparse⟩ := parseFromUrlencoded_form (fun _ => none) henc hint
    have hget : ∀ p ∈ ps, getPost (stored (fun _ => none) (set.misreadPairs ps)) p.1 =
        some ((stored (fun _ => none) (set.misreadPairs ps) p.1).getD []) :=
      fun p hp => if_neg (hne p hp)
    constructor
    · rintro ⟨out', post, hparse', hall⟩
      rw [hparse] at hparse'
      cases hparse'
      have hvalues : ∀ p ∈ ps, (stored (fun _ => none) (set.misreadPairs ps) p.1).getD [] = p.2 :=
        fun p hp => Option.some.inj ((hget p hp).symm.trans (hall p hp))
      exact fun p hp hv => ⟨hint, plain_of_getD hkeys hvalues hp hv⟩
    · intro hplain
      refine ⟨out, _, hparse, fun p hp => ?_⟩
      rw [hget p hp, getD_stored_of_plain hkeys (fun q hq hv => (hplain q hq hv).2) hp]
  · -- nothing is read, so only the empty values come out
    have hparse := parseFromUrlencoded_of_intSize_nonpos (intSize_nonpos (Nat.le_of_not_lt hint) hlen)
      fun _ => none
    have hget : ∀ p ∈ ps, getPost (fun _ => none) p.1 = some [] := fun p hp => if_neg (hne p hp)
    constructor
    · rintro ⟨out', post, hparse', hall⟩ p hp hv
      rw [hparse] at hparse'
      cases hparse'
      have hempty := (hget p hp).symm.trans (hall p hp)
      exact absurd (Option.some.inj hempty).symm hv
    · intro hplain
      refine ⟨body, _, hparse, fun p hp => ?_⟩
      have hempty : p.2 = [] := by
        by_contra hv
        exact hint (hplain p hp hv).1
      rw [hget p hp, hempty]

/-- A login, with a space and an empty field. -/
def loginForm : List (Bytes × Bytes) :=
  [(ascii "username", ascii "john doe"), (ascii "next", []), (ascii "password", ascii "s3cret")]

theorem getPost_form_iff_login :
    ∃ out post, parseFromUrlencoded (ascii "username=john+doe&next=&password=s3cret")
        (fun _ => none) = .ok (out, post) ∧ ∀ p ∈ loginForm, getPost post p.1 = some p.2 :=
  (getPost_form_iff browserSafe loginForm _ (encodesForm_encodeForm browserSafe loginForm)
    (by decide) (by decide) (by decide)).mpr (by decide)

/-- An at sign in a value: `GetPost` returns `a%`, the byte 136 and `0b`. -/
theorem getPost_escaped_at_sign :
    EncodesForm browserSafe [(ascii "user", ascii "a@b")] (ascii "user=a%40b") ∧
    ¬ ∃ out post, parseFromUrlencoded (ascii "user=a%40b") (fun _ => none) = .ok (out, post) ∧
      getPost post (ascii "user") = some (ascii "a@b") := by
  constructor
  · exact encodesForm_encodeForm browserSafe [(ascii "user", ascii "a@b")]
  · have hvalue : ((parseFromUrlencoded (ascii "user=a%40b") fun _ => none).toOption.bind
        fun r => getPost r.2 (ascii "user")) = some [97, 37, 136, 48, 98] := by decide +kernel
    rintro ⟨out, post, hparse, hget⟩
    rw [hparse] at hvalue
    change getPost post (ascii "user") = _ at hvalue
    rw [hget] at hvalue
    revert hvalue
    decide

end TermChat.HttpRequest
