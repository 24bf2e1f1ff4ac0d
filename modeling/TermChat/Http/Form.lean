import Mathlib.Algebra.Order.Ring.Int
import Mathlib.Logic.Function.Basic
import TermChat.Http.Request

/-! `ParseFromUrlencoded_`: one pass over `body_` that splits it into pairs and decodes it in place.
When the pass stays inside `body_`. -/
namespace TermChat

/-- What goes wrong first: an index of `body_` out of range, the exception of `substr`, the
assertion behind the loop. -/
inductive FormFault where
  | index
  | substr
  | assertion
  deriving DecidableEq, Repr

structure FormScan where
  body : Bytes
  post : Bytes → Option Bytes
  key : Bytes := []
  i : ℕ := 0
  j : ℕ := 0

namespace HttpRequest

/-- `char` is signed. -/
def convertHex (ch : UInt8) : ℤ :=
  if 65 ≤ ch ∧ ch ≤ 70 then ch.toInt8.toInt - 65 + 10
  else if 97 ≤ ch ∧ ch ≤ 102 then ch.toInt8.toInt - 97 + 10
  else ch.toInt8.toInt

/-- `body_[i]`. The index is an `int`. -/
def byteAt (body : Bytes) (i : ℕ) : Except FormFault UInt8 :=
  if h : i < body.length ∧ i < 2 ^ 31 then .ok (body.get ⟨i, h.1⟩) else .error .index

def setByte (body : Bytes) (i : ℕ) (b : UInt8) : Except FormFault Bytes :=
  if i < body.length ∧ i < 2 ^ 31 then .ok (body.set i b) else .error .index

def substr (body : Bytes) (pos n : ℕ) : Except FormFault Bytes :=
  if pos ≤ body.length then .ok ((body.drop pos).take n) else .error .substr

def formStep (s : FormScan) : Except FormFault FormScan := do
  let ch ← byteAt s.body s.i
  if ch = 61 then
    let key ← substr s.body s.j (s.i - s.j)
    return { s with key := key, j := s.i + 1, i := s.i + 1 }
  else if ch = 43 then
    let body ← setByte s.body s.i 32
    return { s with body := body, i := s.i + 1 }
  else if ch = 37 then
    let high ← byteAt s.body (s.i + 1)
    let low ← byteAt s.body (s.i + 2)
    let num := convertHex high * 16 + convertHex low
    let body ← setByte s.body (s.i + 2) (UInt8.ofInt (num.tmod 10 + 48))
    let body ← setByte body (s.i + 1) (UInt8.ofInt (num.tdiv 10 + 48))
    return { s with body := body, i := s.i + 3 }
  else if ch = 38 then
    let value ← substr s.body s.j (s.i - s.j)
    return { s with post := Function.update s.post s.key (some value), j := s.i + 1, i := s.i + 1 }
  else return { s with i := s.i + 1 }

def intSize (body : Bytes) : ℤ := (body.length : ℤ).bmod (2 ^ 32)

private theorem bind_ok {α β : Type} {x : Except FormFault α} {f : α → Except FormFault β} {r : β}
    (h : (x >>= f) = .ok r) : ∃ a, x = .ok a ∧ f a = .ok r := by
  cases x with
  | error fault => cases h
  | ok a => exact ⟨a, rfl, h⟩

theorem lt_of_formStep {s s' : FormScan} (h : formStep s = .ok s') : s.i < s'.i := by
  obtain ⟨ch, -, h⟩ := bind_ok h
  split_ifs at h
  · obtain ⟨key, -, h⟩ := bind_ok h
    cases h
    exact Nat.lt_succ_self s.i
  · obtain ⟨body, -, h⟩ := bind_ok h
    cases h
    exact Nat.lt_succ_self s.i
  · obtain ⟨high, -, h⟩ := bind_ok h
    obtain ⟨low, -, h⟩ := bind_ok h
    obtain ⟨body, -, h⟩ := bind_ok h
    obtain ⟨body', -, h⟩ := bind_ok h
    cases h
    exact Nat.lt_add_of_pos_right (by decide)
  · obtain ⟨value, -, h⟩ := bind_ok h
    cases h
    exact Nat.lt_succ_self s.i
  · cases h
    exact Nat.lt_succ_self s.i

def formLoop (n : ℤ) (s : FormScan) : Except FormFault FormScan :=
  if (s.i : ℤ) < n then
    match _h : formStep s with
    | .error fault => .error fault
    | .ok s' => formLoop n s'
  else .ok s
termination_by (n - s.i).toNat
decreasing_by
  have hlt := lt_of_formStep _h
  omega

def parseFromUrlencoded (body : Bytes) (post : Bytes → Option Bytes) :
    Except FormFault (Bytes × (Bytes → Option Bytes)) :=
  if body.length = 0 then .ok (body, post)
  else do
    let s ← formLoop (intSize body) { body := body, post := post }
    if s.i < s.j then .error .assertion
    else if s.post s.key = none ∧ s.j < s.i then
      let value ← substr s.body s.j (s.i - s.j)
      return (s.body, Function.update s.post s.key (some value))
    else return (s.body, s.post)

/-- `GetPost`; `none` when its assertion fails. -/
def getPost (post : Bytes → Option Bytes) (key : Bytes) : Option Bytes :=
  if key = [] then none else some ((post key).getD [])

/-- `UserVerify`; `dao` is what the database answers to a login or a registration. -/
def userVerify (dao : Bytes → Bytes → Bool → Bool) (name pwd : Bytes) (isLogin : Bool) : Bool :=
  if name = [] ∨ pwd = [] then false else dao name pwd isLogin

/-- `DEFAULT_HTML_TAG`: whether the page is the one for a login. -/
def defaultHtmlTag (path : Bytes) : Option Bool :=
  if path = ascii "/login.html" then some true
  else if path = ascii "/register.html" then some false
  else none

/-- What `ParsePost_` makes of a form. Behind a fault nothing is defined; the request stays as it
is there. `operator[]` leaves entries for the two fields behind. -/
def formOf (dao : Bytes → Bytes → Bool → Bool) (req : HttpRequest) : Form :=
  match parseFromUrlencoded req.body req.post with
  | .error _ => ⟨req.path, req.body, req.post⟩
  | .ok (body, post) =>
    match defaultHtmlTag req.path with
    | none => ⟨req.path, body, post⟩
    | some isLogin =>
      let name := (post (ascii "username")).getD []
      let pwd := (post (ascii "password")).getD []
      let post := Function.update (Function.update post (ascii "username") (some name))
        (ascii "password") (some pwd)
      if userVerify dao name pwd isLogin then ⟨ascii "/welcome.html", body, post⟩
      else ⟨ascii "/error.html", body, post⟩

/-- Where the pass finds escapes: at `i` and behind it, below `n`. An escape takes three bytes. -/
def escapes (body : Bytes) (n : ℤ) (i : ℕ) : List ℕ :=
  if (i : ℤ) < n then
    if body[i]? = some 37 then i :: escapes body n (i + 3) else escapes body n (i + 1)
  else []
termination_by (n - i).toNat

/-- The two bytes of the escape at `i` are bytes of the body, at indices that are an `int`. -/
def EscapeFits (body : Bytes) (i : ℕ) : Prop := i + 2 < body.length ∧ i + 2 < 2 ^ 31

instance (body : Bytes) (i : ℕ) : Decidable (EscapeFits body i) :=
  inferInstanceAs (Decidable (_ ∧ _))

theorem intSize_le (body : Bytes) : intSize body ≤ body.length := by
  unfold intSize
  rw [Int.bmod_def]
  split_ifs <;> omega

theorem intSize_lt (body : Bytes) : intSize body < 2 ^ 31 := by
  unfold intSize
  rw [Int.bmod_def]
  split_ifs <;> omega

theorem byteAt_of_getElem? {body : Bytes} {i : ℕ} {b : UInt8} (h : body[i]? = some b)
    (hi : i < 2 ^ 31) : byteAt body i = .ok b := by
  obtain ⟨hlt, hget⟩ := List.getElem?_eq_some_iff.mp h
  rw [byteAt, dif_pos ⟨hlt, hi⟩]
  exact congrArg Except.ok hget

private theorem byteAt_ok {body : Bytes} {i : ℕ} (h : i < body.length) (hi : i < 2 ^ 31) :
    byteAt body i = .ok (body.get ⟨i, h⟩) := dif_pos ⟨h, hi⟩

/-- The two bytes that an escape is overwritten with. -/
def decimalDigits (high low : UInt8) : UInt8 × UInt8 :=
  let num := convertHex high * 16 + convertHex low
  (UInt8.ofInt (num.tdiv 10 + 48), UInt8.ofInt (num.tmod 10 + 48))

section Step

variable {s : FormScan} {ch : UInt8} (hi : s.i < 2 ^ 31)
include hi

theorem formStep_eq (hch : s.body[s.i]? = some 61) (hj : s.j ≤ s.body.length) :
    formStep s = .ok { s with
      key := (s.body.drop s.j).take (s.i - s.j), j := s.i + 1, i := s.i + 1 } := by
  simp only [formStep, byteAt_of_getElem? hch hi, substr, if_pos hj]
  rfl

theorem formStep_plus (hch : s.body[s.i]? = some 43) :
    formStep s = .ok { s with body := s.body.set s.i 32, i := s.i + 1 } := by
  obtain ⟨hlt, -⟩ := List.getElem?_eq_some_iff.mp hch
  have hset : setByte s.body s.i 32 = .ok (s.body.set s.i 32) := if_pos ⟨hlt, hi⟩
  simp only [formStep, byteAt_of_getElem? hch hi, hset]
  rfl

theorem formStep_amp (hch : s.body[s.i]? = some 38) (hj : s.j ≤ s.body.length) :
    formStep s = .ok { s with
      post := Function.update s.post s.key (some ((s.body.drop s.j).take (s.i - s.j)))
      j := s.i + 1, i := s.i + 1 } := by
  simp only [formStep, byteAt_of_getElem? hch hi, substr, if_pos hj]
  rfl

theorem formStep_plain (hch : s.body[s.i]? = some ch)
    (hplain : ch ≠ 61 ∧ ch ≠ 43 ∧ ch ≠ 37 ∧ ch ≠ 38) :
    formStep s = .ok { s with i := s.i + 1 } := by
  obtain ⟨heq, hplus, hpercent, hamp⟩ := hplain
  have hread := byteAt_of_getElem? hch hi
  simp only [formStep, hread, bind, Except.bind, if_neg heq, if_neg hplus, if_neg hpercent,
    if_neg hamp]
  rfl

theorem formStep_escape {high low : UInt8} (hch : s.body[s.i]? = some 37)
    (hhigh : s.body[s.i + 1]? = some high) (hlow : s.body[s.i + 2]? = some low)
    (hint : s.i + 2 < 2 ^ 31) :
    formStep s = .ok { s with
      body := (s.body.set (s.i + 2) (decimalDigits high low).2).set (s.i + 1)
        (decimalDigits high low).1
      i := s.i + 3 } := by
  obtain ⟨hlen, -⟩ := List.getElem?_eq_some_iff.mp hlow
  have hset : ∀ b, setByte s.body (s.i + 2) b = .ok (s.body.set (s.i + 2) b) :=
    fun b => if_pos ⟨hlen, hint⟩
  have hset' : ∀ b c, setByte (s.body.set (s.i + 2) b) (s.i + 1) c =
      .ok ((s.body.set (s.i + 2) b).set (s.i + 1) c) := by
    intro b c
    apply if_pos
    rw [List.length_set]
    omega
  have hread := byteAt_of_getElem? hhigh (by omega)
  simp only [formStep, byteAt_of_getElem? hch hi, hread, byteAt_of_getElem? hlow hint, hset, hset',
    bind, Except.bind]
  rfl

/-- An escape that is cut off is read past the end. -/
theorem formStep_escape_fault (hch : s.body[s.i]? = some 37) (hfits : ¬ EscapeFits s.body s.i) :
    formStep s = .error .index := by
  have hlow : byteAt s.body (s.i + 2) = .error .index := dif_neg hfits
  simp only [formStep, byteAt_of_getElem? hch hi, hlow, bind, Except.bind]
  by_cases hhigh : s.i + 1 < s.body.length ∧ s.i + 1 < 2 ^ 31
  · simp only [byteAt_ok hhigh.1 hhigh.2]
    rfl
  · simp only [byteAt, dif_neg hhigh]
    rfl

end Step

/-- Between two steps: nothing from `i` on has been written, and `j` is not ahead. -/
structure Scanning (body : Bytes) (s : FormScan) : Prop where
  length : s.body.length = body.length
  ahead : s.body.drop s.i = body.drop s.i
  order : s.j ≤ s.i
  inside : s.i ≤ body.length

variable {body : Bytes} {s : FormScan} {n : ℤ}

theorem Scanning.getElem? (h : Scanning body s) : s.body[s.i]? = body[s.i]? := by
  have hhead := congrArg List.head? h.ahead
  rwa [List.head?_drop, List.head?_drop] at hhead

theorem Scanning.order_le (h : Scanning body s) : s.j ≤ s.body.length := by
  rw [h.length]
  exact Nat.le_trans h.order h.inside

theorem Scanning.drop_add (h : Scanning body s) (k : ℕ) :
    s.body.drop (s.i + k) = body.drop (s.i + k) := by
  rw [← List.drop_drop, ← List.drop_drop, h.ahead]

theorem Scanning.escapeFits_iff (h : Scanning body s) :
    EscapeFits s.body s.i ↔ EscapeFits body s.i := by
  rw [EscapeFits, EscapeFits, h.length]

theorem Scanning.step (h : Scanning body s) (hlt : s.i < body.length) (hi : s.i < 2 ^ 31)
    (hch : body[s.i]? ≠ some 37) :
    ∃ s', formStep s = .ok s' ∧ Scanning body s' ∧ s'.i = s.i + 1 := by
  obtain ⟨ch, hget⟩ : ∃ ch, s.body[s.i]? = some ch := by
    rw [h.getElem?]
    exact ⟨_, List.getElem?_eq_getElem hlt⟩
  have hpercent : ch ≠ 37 := by
    rintro rfl
    exact hch (h.getElem? ▸ hget)
  have hahead := h.drop_add 1
  by_cases heq : ch = 61
  · subst heq
    exact ⟨_, formStep_eq hi hget h.order_le, ⟨h.length, hahead, Nat.le_refl _, hlt⟩, rfl⟩
  by_cases hplus : ch = 43
  · subst hplus
    have hlen : (s.body.set s.i 32).length = body.length := by rw [List.length_set, h.length]
    have hdrop : (s.body.set s.i 32).drop (s.i + 1) = body.drop (s.i + 1) := by
      rw [List.drop_set_of_lt (Nat.lt_succ_self s.i), hahead]
    exact ⟨_, formStep_plus hi hget, ⟨hlen, hdrop, Nat.le_succ_of_le h.order, hlt⟩, rfl⟩
  by_cases hamp : ch = 38
  · subst hamp
    exact ⟨_, formStep_amp hi hget h.order_le, ⟨h.length, hahead, Nat.le_refl _, hlt⟩, rfl⟩
  exact ⟨_, formStep_plain hi hget ⟨heq, hplus, hpercent, hamp⟩,
    ⟨h.length, hahead, Nat.le_succ_of_le h.order, hlt⟩, rfl⟩

/-- An escape that fits is overwritten, and the scan goes on behind it. -/
theorem Scanning.step_escape (h : Scanning body s) (hi : s.i < 2 ^ 31)
    (hch : body[s.i]? = some 37) (hfits : EscapeFits body s.i) :
    ∃ s', formStep s = .ok s' ∧ Scanning body s' ∧ s'.i = s.i + 3 := by
  have hlen : s.i + 2 < s.body.length := (h.escapeFits_iff.mpr hfits).1
  have hhigh := List.getElem?_eq_getElem (Nat.lt_of_succ_lt hlen)
  have hlow := List.getElem?_eq_getElem hlen
  refine ⟨_, formStep_escape hi (h.getElem?.trans hch) hhigh hlow hfits.2, ⟨?_, ?_, ?_, ?_⟩, rfl⟩
  · simp only [List.length_set, h.length]
  · simp only
    rw [List.drop_set_of_lt (by omega), List.drop_set_of_lt (by omega), h.drop_add]
  · exact Nat.le_trans h.order (Nat.le_add_right _ _)
  · exact hfits.1

theorem formLoop_step {s' : FormScan} (hlt : (s.i : ℤ) < n) (h : formStep s = .ok s') :
    formLoop n s = formLoop n s' := by
  rw [formLoop, if_pos hlt]
  split
  · simp_all
  · simp_all

theorem formLoop_fault {fault : FormFault} (hlt : (s.i : ℤ) < n) (h : formStep s = .error fault) :
    formLoop n s = .error fault := by
  rw [formLoop, if_pos hlt]
  split
  · simp_all
  · simp_all

theorem formLoop_done (h : ¬ (s.i : ℤ) < n) : formLoop n s = .ok s := by
  rw [formLoop, if_neg h]

/-- The loop ends; with an index out of range if an escape does not fit. -/
theorem Scanning.formLoop (h : Scanning body s) (hn : n ≤ body.length) (hint : n < 2 ^ 31) :
    ((∀ e ∈ escapes body n s.i, EscapeFits body e) ∧
      ∃ s', HttpRequest.formLoop n s = .ok s' ∧ Scanning body s') ∨
    (∃ e ∈ escapes body n s.i, ¬ EscapeFits body e) ∧
      HttpRequest.formLoop n s = .error .index := by
  induction hk : (n - s.i).toNat using Nat.strong_induction_on generalizing s with
  | _ k ih =>
    by_cases hlt : (s.i : ℤ) < n
    · have hi : s.i < 2 ^ 31 := by omega
      have hinside : s.i < body.length := by omega
      rw [escapes, if_pos hlt]
      by_cases hch : body[s.i]? = some 37
      · rw [if_pos hch, List.forall_mem_cons, List.exists_mem_cons_iff]
        by_cases hfits : EscapeFits body s.i
        · obtain ⟨s', hstep, hs', hnext⟩ := h.step_escape hi hch hfits
          rw [and_iff_right hfits, or_iff_right (not_not_intro hfits), formLoop_step hlt hstep,
            ← hnext]
          exact ih _ (by omega) hs' rfl
        · have hfault := formStep_escape_fault hi (h.getElem?.trans hch)
            (h.escapeFits_iff.not.mpr hfits)
          exact .inr ⟨.inl hfits, formLoop_fault hlt hfault⟩
      · obtain ⟨s', hstep, hs', hnext⟩ := h.step hinside hi hch
        rw [if_neg hch, formLoop_step hlt hstep, ← hnext]
        exact ih _ (by omega) hs' rfl
    · rw [escapes, if_neg hlt]
      exact .inl ⟨fun e he => absurd he List.not_mem_nil, s, formLoop_done hlt, h⟩

/-- Behind a loop that ends well, nothing fails. -/
theorem parseFromUrlencoded_of_ok {post : Bytes → Option Bytes} (hne : body.length ≠ 0)
    (hloop : HttpRequest.formLoop (intSize body) { body := body, post := post } = .ok s)
    (h : Scanning body s) :
    parseFromUrlencoded body post =
      if s.post s.key = none ∧ s.j < s.i then
        .ok (s.body, Function.update s.post s.key (some ((s.body.drop s.j).take (s.i - s.j))))
      else .ok (s.body, s.post) := by
  rw [parseFromUrlencoded, if_neg hne, hloop]
  simp only [bind, Except.bind, if_neg (Nat.not_lt.mpr h.order), substr, if_pos h.order_le]
  rfl

theorem parseFromUrlencoded_of_error {post : Bytes → Option Bytes} {fault : FormFault}
    (hne : body.length ≠ 0)
    (hloop : HttpRequest.formLoop (intSize body) { body := body, post := post } = .error fault) :
    parseFromUrlencoded body post = .error fault := by
  rw [parseFromUrlencoded, if_neg hne, hloop]
  rfl

/-- The pass stays inside `body_` exactly when no escape is cut off by the end of the body. Then
and otherwise, `substr` and the assertion do not fail. -/
theorem parseFromUrlencoded_inBounds_iff (body : Bytes) (post : Bytes → Option Bytes) :
    ((∃ result, parseFromUrlencoded body post = .ok result) ↔
      ∀ e ∈ escapes body (intSize body) 0, EscapeFits body e) ∧
    ∀ fault, parseFromUrlencoded body post = .error fault → fault = .index := by
  have hstart : Scanning body { body := body, post := post } :=
    ⟨rfl, rfl, Nat.le_refl _, Nat.zero_le _⟩
  have hloop := hstart.formLoop (intSize_le body) (intSize_lt body)
  by_cases hne : body.length = 0
  · have hparse : parseFromUrlencoded body post = .ok (body, post) := if_pos hne
    have hsize := intSize_le body
    have hescapes : escapes body (intSize body) 0 = [] := by
      rw [escapes, if_neg (by omega)]
    rw [hparse, hescapes]
    constructor
    · exact ⟨fun _ e he => absurd he List.not_mem_nil, fun _ => ⟨_, rfl⟩⟩
    · intro fault hfault
      cases hfault
  obtain ⟨hfits, s, hs, hscan⟩ | ⟨⟨e, he, hcut⟩, hfault⟩ := hloop
  · have hparse := parseFromUrlencoded_of_ok hne hs hscan
    rw [hparse]
    split_ifs
    · refine ⟨⟨fun _ => hfits, fun _ => ⟨_, rfl⟩⟩, fun fault h => ?_⟩
      cases h
    · refine ⟨⟨fun _ => hfits, fun _ => ⟨_, rfl⟩⟩, fun fault h => ?_⟩
      cases h
  · rw [parseFromUrlencoded_of_error hne hfault]
    refine ⟨⟨fun h => ?_, fun hfits => absurd (hfits e he) hcut⟩, fun fault h => ?_⟩
    · obtain ⟨result, h⟩ := h
      cases h
    · cases h
      rfl

/-- The body `a=%`: the pass reads `body_[3]`. -/
theorem parseFromUrlencoded_percent_at_end :
    ¬ ∃ result, parseFromUrlencoded (ascii "a=%") (fun _ => none) = .ok result := by
  have hfault : (parseFromUrlencoded (ascii "a=%") fun _ => none).isOk = false := by decide +kernel
  rintro ⟨result, h⟩
  rw [h] at hfault
  cases hfault

end HttpRequest
end TermChat
