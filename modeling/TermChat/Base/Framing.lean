import Mathlib.Data.List.Basic
import Mathlib.Data.List.ReduceOption
import Mathlib.Data.UInt

/-! Length-prefixed framing: a four-byte big-endian length in front of each payload.
A stream of frames splits in one way only, and a proper piece of a frame is recognised
by its length. The decoder refuses payloads above a limit by dropping their header. -/
namespace Framing

/-- Big-endian bytes of a number modulo `2 ^ 32`. -/
def be32 (n : ℕ) : List UInt8 :=
  [UInt8.ofNat (n / 2 ^ 24), UInt8.ofNat (n / 2 ^ 16), UInt8.ofNat (n / 2 ^ 8), UInt8.ofNat n]

def beNat (bs : List UInt8) : ℕ := bs.foldl (fun n b => 256 * n + b.toNat) 0

def frame (payload : List UInt8) : List UInt8 := be32 payload.length ++ payload

def frames (payloads : List (List UInt8)) : List UInt8 := payloads.flatMap frame

@[simp] theorem length_be32 (n : ℕ) : (be32 n).length = 4 := rfl

theorem beNat_be32 (n : ℕ) : beNat (be32 n) = n % 2 ^ 32 := by
  simp only [be32, beNat, List.foldl_cons, List.foldl_nil, UInt8.toNat_ofNat']
  omega

theorem beNat_be32_of_lt {n : ℕ} (h : n < 2 ^ 32) : beNat (be32 n) = n := by
  rw [beNat_be32, Nat.mod_eq_of_lt h]

@[simp] theorem length_frame (p : List UInt8) : (frame p).length = 4 + p.length := by
  simp [frame]

@[simp] theorem frames_nil : frames [] = [] := rfl

@[simp] theorem frames_cons (p : List UInt8) (ps : List (List UInt8)) :
    frames (p :: ps) = frame p ++ frames ps := rfl

@[simp] theorem frames_append (ps qs : List (List UInt8)) :
    frames (ps ++ qs) = frames ps ++ frames qs := by
  simp [frames]

@[simp] theorem take_four_frame (p rest : List UInt8) : (frame p ++ rest).take 4 = be32 p.length := by
  simp [frame, List.append_assoc, List.take_append]

/-- The header of a piece of a stream is the header of the frame that the stream starts with. -/
theorem take_four_of_isPrefix {buf p rest : List UInt8} (h : buf <+: frame p ++ rest)
    (hl : 4 ≤ buf.length) : buf.take 4 = be32 p.length := by
  obtain ⟨more, hr⟩ := h
  have hhead := congrArg (List.take 4) hr
  rwa [List.take_append_of_le_length hl, take_four_frame] at hhead

private theorem take_drop_frame (p rest : List UInt8) :
    ((frame p ++ rest).drop 4).take p.length = p := by
  rw [frame, List.append_assoc, List.drop_left' (length_be32 _), List.take_left]

private theorem drop_frame (p rest : List UInt8) :
    (frame p ++ rest).drop (4 + p.length) = rest := by
  rw [← length_frame, List.drop_left]

/-- A piece of a stream of frames: whole frames, then a proper piece of the next one. -/
theorem exists_split_of_isPrefix {buf : List UInt8} {ps : List (List UInt8)}
    (h : buf <+: frames ps) :
    ∃ done todo tail, ps = done ++ todo ∧ buf = frames done ++ tail ∧ tail <+: frames todo ∧
      ∀ p ∈ todo.head?, tail.length < (frame p).length := by
  induction ps generalizing buf with
  | nil => exact ⟨[], [], buf, rfl, by simp, h, by simp⟩
  | cons p ps ih =>
    by_cases hl : buf.length < (frame p).length
    · exact ⟨[], p :: ps, buf, rfl, by simp, h, by simpa using hl⟩
    · obtain ⟨rest, hr⟩ := h
      rw [frames_cons] at hr
      obtain ⟨more, rfl⟩ : frame p <+: buf := List.prefix_of_prefix_length_le
        ⟨frames ps, rfl⟩ ⟨rest, hr⟩ (not_lt.mp hl)
      rw [List.append_assoc, List.append_cancel_left_eq] at hr
      obtain ⟨done, todo, tail, rfl, rfl, ht, hh⟩ := ih ⟨rest, hr⟩
      exact ⟨p :: done, todo, tail, rfl, by simp, ht, hh⟩

/-- Four bytes are the header for the number that they stand for. -/
theorem be32_beNat {bs : List UInt8} (h : bs.length = 4) : be32 (beNat bs) = bs := by
  match bs, h with
  | [a, b, c, d], _ =>
    have ha := a.toNat_lt
    have hb := b.toNat_lt
    have hc := c.toNat_lt
    have hd := d.toNat_lt
    simp only [be32, beNat, List.foldl_cons, List.foldl_nil, List.cons.injEq, and_true,
      ← UInt8.toNat_inj, UInt8.toNat_ofNat']
    omega

/-- No frame is the start of another one. -/
theorem eq_of_frame_isPrefix {p q x y : List UInt8} (hp : p.length < 2 ^ 32) (hq : q.length < 2 ^ 32)
    (h : frame q ++ x <+: frame p ++ y) : q = p ∧ x <+: y := by
  obtain ⟨z, hz⟩ := h
  have hhead := congrArg (List.take 4) hz
  rw [List.append_assoc, take_four_frame, take_four_frame] at hhead
  have hlen : q.length = p.length := by
    rw [← beNat_be32_of_lt hq, hhead, beNat_be32_of_lt hp]
  rw [List.append_assoc] at hz
  obtain ⟨hframe, hrest⟩ := List.append_inj hz (by rw [length_frame, length_frame, hlen])
  exact ⟨(List.append_inj hframe (by simp)).2, z, hrest⟩

/-- Whole frames at the front of a stream of frames are the first ones of it. -/
theorem exists_of_frames_isPrefix {ps qs : List (List UInt8)} {tail : List UInt8}
    (hp : ∀ p ∈ ps, p.length < 2 ^ 32) (hq : ∀ q ∈ qs, q.length < 2 ^ 32)
    (h : frames qs ++ tail <+: frames ps) : ∃ todo, ps = qs ++ todo ∧ tail <+: frames todo := by
  induction qs generalizing ps with
  | nil => exact ⟨ps, rfl, h⟩
  | cons q qs ih =>
    cases ps with
    | nil =>
      have hlen := h.length_le
      simp at hlen
    | cons p ps =>
      rw [frames_cons, frames_cons, List.append_assoc] at h
      obtain ⟨rfl, hrest⟩ :=
        eq_of_frame_isPrefix (hp p List.mem_cons_self) (hq q List.mem_cons_self) h
      obtain ⟨todo, rfl, htail⟩ := ih (fun r hr => hp r (List.mem_cons_of_mem _ hr))
        (fun r hr => hq r (List.mem_cons_of_mem _ hr)) hrest
      exact ⟨todo, rfl, htail⟩

section Decoder

variable {ε : Type*} (parse : List UInt8 → Option ε) (limit : ℕ)

/-- One attempt at the front of the buffer: what stays in it, and what was decoded. -/
def decode (bs : List UInt8) : List UInt8 × Option ε :=
  if bs.length < 4 then (bs, none)
  else if limit < beNat (bs.take 4) then (bs.drop 4, none)
  else if bs.length < 4 + beNat (bs.take 4) then (bs, none)
  else (bs.drop (4 + beNat (bs.take 4)), parse ((bs.drop 4).take (beNat (bs.take 4))))

theorem length_decode_lt {bs : List UInt8} {e : ε} (h : (decode parse limit bs).2 = some e) :
    (decode parse limit bs).1.length < bs.length := by
  unfold decode at h ⊢
  split_ifs at h ⊢
  simp only [List.length_drop]
  omega

/-- Attempts up to the first that decodes nothing. -/
def decodeAll (bs : List UInt8) : List ε × List UInt8 :=
  match _h : (decode parse limit bs).2 with
  | none => ([], (decode parse limit bs).1)
  | some e =>
    let rest := decodeAll (decode parse limit bs).1
    (e :: rest.1, rest.2)
termination_by bs.length
decreasing_by exact length_decode_lt parse limit ‹_›

variable {parse} {limit}

theorem decodeAll_of_none {bs : List UInt8} (h : (decode parse limit bs).2 = none) :
    decodeAll parse limit bs = ([], (decode parse limit bs).1) := by
  rw [decodeAll]
  split
  · rfl
  · next e he => rw [h] at he; cases he

theorem decodeAll_of_some {bs : List UInt8} {e : ε} (h : (decode parse limit bs).2 = some e) :
    decodeAll parse limit bs =
      (e :: (decodeAll parse limit (decode parse limit bs).1).1,
        (decodeAll parse limit (decode parse limit bs).1).2) := by
  rw [decodeAll]
  split
  · next he => rw [h] at he; cases he
  · next e' he =>
    obtain rfl : e = e' := Option.some.inj (h.symm.trans he)
    rfl

theorem decode_short {bs : List UInt8} (h : bs.length < 4) : decode parse limit bs = (bs, none) :=
  if_pos h

theorem decode_frame {p : List UInt8} (hp : p.length ≤ limit) (hl : limit < 2 ^ 32)
    (rest : List UInt8) : decode parse limit (frame p ++ rest) = (rest, parse p) := by
  unfold decode
  rw [take_four_frame, beNat_be32_of_lt (hp.trans_lt hl), take_drop_frame, drop_frame]
  have h4 : ¬ (frame p ++ rest).length < 4 := by simp; omega
  have hn : ¬ (frame p ++ rest).length < 4 + p.length := by simp
  rw [if_neg h4, if_neg (not_lt.mpr hp), if_neg hn]

theorem decode_piece {bs p : List UInt8} (hb : bs <+: frame p) (hs : bs.length < (frame p).length)
    (hp : p.length ≤ limit) (hl : limit < 2 ^ 32) : decode parse limit bs = (bs, none) := by
  have hhead : ¬ bs.length < 4 → beNat (bs.take 4) = p.length := by
    intro h4
    rw [← List.append_nil (frame p)] at hb
    rw [take_four_of_isPrefix hb (not_lt.mp h4), beNat_be32_of_lt (hp.trans_lt hl)]
  unfold decode
  split_ifs with h4 ho hn
  · rfl
  · rw [hhead h4] at ho
    exact absurd hp (not_le.mpr ho)
  · rfl
  · rw [hhead h4] at hn
    exact absurd (by simpa using hs) hn

theorem decode_oversize {n : ℕ} (hn : limit < n) (hl : n < 2 ^ 32) (rest : List UInt8) :
    decode parse limit (be32 n ++ rest) = (rest, none) := by
  have ht : (be32 n ++ rest).take 4 = be32 n := List.take_left' (length_be32 n)
  have hd : (be32 n ++ rest).drop 4 = rest := List.drop_left' (length_be32 n)
  unfold decode
  rw [ht, hd, beNat_be32_of_lt hl, if_neg (by simp), if_pos hn]

/-- Whole frames in front are decoded in order, whatever follows them. -/
theorem decodeAll_frames {ser : ε → List UInt8} {es : List ε}
    (h : ∀ e ∈ es, (ser e).length ≤ limit ∧ parse (ser e) = some e) (hl : limit < 2 ^ 32)
    (tail : List UInt8) :
    decodeAll parse limit (frames (es.map ser) ++ tail) =
      (es ++ (decodeAll parse limit tail).1, (decodeAll parse limit tail).2) := by
  induction es with
  | nil => rfl
  | cons e es ih =>
    obtain ⟨hle, hpar⟩ := h e List.mem_cons_self
    have hd : decode parse limit (frames ((e :: es).map ser) ++ tail) =
        (frames (es.map ser) ++ tail, some e) := by
      rw [List.map_cons, frames_cons, List.append_assoc, decode_frame hle hl, hpar]
    rw [decodeAll_of_some (by rw [hd]), hd, ih fun e he => h e (List.mem_cons_of_mem _ he)]
    rfl

/-- A piece of a stream of admissible frames decodes to the whole frames in it, and the
unfinished piece of the next frame stays. -/
theorem decodeAll_of_isPrefix {ser : ε → List UInt8} {es : List ε}
    (h : ∀ e ∈ es, (ser e).length ≤ limit ∧ parse (ser e) = some e) (hl : limit < 2 ^ 32)
    {buf : List UInt8} (hb : buf <+: frames (es.map ser)) :
    ∃ todo, es = (decodeAll parse limit buf).1 ++ todo ∧
      buf = frames ((decodeAll parse limit buf).1.map ser) ++ (decodeAll parse limit buf).2 ∧
      ∀ e ∈ todo.head?, (decodeAll parse limit buf).2.length < (frame (ser e)).length := by
  obtain ⟨ps, qs, tail, hes, rfl, ht, hshort⟩ := exists_split_of_isPrefix hb
  obtain ⟨done, todo, rfl, rfl, rfl⟩ := List.map_eq_append_iff.mp hes
  have htail : decodeAll parse limit tail = ([], tail) := by
    have hd : decode parse limit tail = (tail, none) := by
      cases todo with
      | nil =>
        obtain rfl : tail = [] := List.prefix_nil.mp ht
        exact decode_short (by simp)
      | cons e todo =>
        have hs : tail.length < (frame (ser e)).length := hshort _ rfl
        have hp : tail <+: frame (ser e) :=
          List.prefix_of_prefix_length_le ht ⟨_, rfl⟩ hs.le
        exact decode_piece hp hs (h e (by simp)).1 hl
    rw [decodeAll_of_none (by rw [hd]), hd]
  have hall := decodeAll_frames (fun e he => h e (List.mem_append_left _ he)) hl tail
  rw [htail, List.append_nil] at hall
  rw [hall]
  refine ⟨todo, rfl, rfl, fun e he => hshort (ser e) ?_⟩
  simpa using ⟨e, he, rfl⟩

/-- Fewer bytes than the next frame needs. -/
def Waiting (limit : ℕ) (bs : List UInt8) : Prop :=
  bs.length < 4 ∨ beNat (bs.take 4) ≤ limit ∧ bs.length < 4 + beNat (bs.take 4)

instance (bs : List UInt8) : Decidable (Waiting limit bs) :=
  inferInstanceAs (Decidable (_ ∨ _))

theorem decode_of_waiting {bs : List UInt8} (h : Waiting limit bs) :
    decode parse limit bs = (bs, none) := by
  unfold decode
  rcases h with h | ⟨hle, hlt⟩
  · rw [if_pos h]
  · rw [if_neg (not_lt.mpr hle), if_pos hlt, ite_self]

theorem length_decode_of_not_waiting {bs : List UInt8} (h : ¬ Waiting limit bs) :
    (decode parse limit bs).1.length < bs.length := by
  unfold Waiting at h
  unfold decode
  split_ifs <;> simp only [List.length_drop] <;> omega

/-- An attempt that has its bytes does the same when more follow. -/
theorem decode_append {bs : List UInt8} (h : ¬ Waiting limit bs) (more : List UInt8) :
    decode parse limit (bs ++ more) =
      ((decode parse limit bs).1 ++ more, (decode parse limit bs).2) := by
  unfold Waiting at h
  have h4 : 4 ≤ bs.length := by omega
  have htake : (bs ++ more).take 4 = bs.take 4 := List.take_append_of_le_length h4
  have hdrop : (bs ++ more).drop 4 = bs.drop 4 ++ more := List.drop_append_of_le_length h4
  unfold decode
  rw [htake, hdrop, List.length_append, if_neg (by omega), if_neg (by omega : ¬ bs.length < 4)]
  split_ifs
  · rfl
  · omega
  · omega
  · omega
  · have hlen : beNat (bs.take 4) ≤ (bs.drop 4).length := by
      rw [List.length_drop]
      omega
    rw [List.drop_append_of_le_length (by omega), List.take_append_of_le_length hlen]

variable (parse) (limit)

/-- A scan to the end of the bytes: what each attempt decodes, `none` for a length above the
limit (of which the header is skipped) and for a payload that does not parse (which is
dropped). It stops only where fewer bytes remain than the next frame needs. -/
def items (bs : List UInt8) : List (Option ε) :=
  if _h : Waiting limit bs then []
  else (decode parse limit bs).2 :: items (decode parse limit bs).1
termination_by bs.length
decreasing_by exact length_decode_of_not_waiting ‹_›

def scan (bs : List UInt8) : List ε := (items parse limit bs).reduceOption

/-- Nothing decodes behind the first attempt that fails. -/
def NoneHidden (bs : List UInt8) : Prop :=
  (items parse limit bs).Pairwise fun x y => x = none → y = none

variable {parse} {limit}

theorem items_of_waiting {bs : List UInt8} (h : Waiting limit bs) : items parse limit bs = [] := by
  rw [items, dif_pos h]

theorem items_of_not_waiting {bs : List UInt8} (h : ¬ Waiting limit bs) :
    items parse limit bs = (decode parse limit bs).2 :: items parse limit (decode parse limit bs).1 := by
  rw [items, dif_neg h]

/-- The attempts up to the first that fails are the start of the scan, whatever follows. -/
theorem scan_append (bs more : List UInt8) :
    scan parse limit (bs ++ more) =
      (decodeAll parse limit bs).1 ++ scan parse limit ((decodeAll parse limit bs).2 ++ more) := by
  induction hn : bs.length using Nat.strong_induction_on generalizing bs with
  | _ n ih =>
    by_cases hw : Waiting limit bs
    · have hd : decode parse limit bs = (bs, none) := decode_of_waiting hw
      rw [decodeAll_of_none (by rw [hd]), hd, List.nil_append]
    · have happ : decode parse limit (bs ++ more) =
          ((decode parse limit bs).1 ++ more, (decode parse limit bs).2) := decode_append hw more
      have hlt : (decode parse limit bs).1.length < bs.length := length_decode_of_not_waiting hw
      have hw' : ¬ Waiting limit (bs ++ more) := by
        intro hcon
        have hlen := congrArg List.length (congrArg Prod.fst (happ.symm.trans (decode_of_waiting hcon)))
        simp only [List.length_append] at hlen
        omega
      have hitems : items parse limit (bs ++ more) =
          (decode parse limit bs).2 :: items parse limit ((decode parse limit bs).1 ++ more) := by
        rw [items_of_not_waiting hw', happ]
      cases hd : (decode parse limit bs).2 with
      | none =>
        rw [decodeAll_of_none hd, scan, hitems, hd, List.reduceOption_cons_of_none, ← scan,
          List.nil_append]
      | some e =>
        rw [decodeAll_of_some hd, scan, hitems, hd, List.reduceOption_cons_of_some, ← scan,
          ih _ (hn ▸ hlt) _ rfl, List.cons_append]

private theorem reduceOption_eq_nil_iff {l : List (Option ε)} :
    l.reduceOption = [] ↔ ∀ x ∈ l, x = none := by
  simp [List.reduceOption, List.filterMap_eq_nil_iff]

/-- The attempts up to the first that fails leave nothing to decode exactly when nothing is
hidden behind it. -/
theorem scan_decodeAll_eq_nil_iff (bs : List UInt8) :
    scan parse limit (decodeAll parse limit bs).2 = [] ↔ NoneHidden parse limit bs := by
  induction hn : bs.length using Nat.strong_induction_on generalizing bs with
  | _ n ih =>
    unfold NoneHidden
    by_cases hw : Waiting limit bs
    · have hd : decode parse limit bs = (bs, none) := decode_of_waiting hw
      rw [decodeAll_of_none (by rw [hd]), hd, scan, items_of_waiting hw]
      simp
    · rw [items_of_not_waiting hw]
      cases hd : (decode parse limit bs).2 with
      | none =>
        rw [decodeAll_of_none hd, scan, reduceOption_eq_nil_iff, List.pairwise_cons]
        constructor
        · intro h
          exact ⟨fun y hy _ => h y hy, List.pairwise_of_forall_mem_list fun _ _ y hy _ => h y hy⟩
        · intro h x hx
          exact h.1 x hx rfl
      | some e =>
        have hlt : (decode parse limit bs).1.length < bs.length := length_decode_of_not_waiting hw
        rw [decodeAll_of_some hd, ih _ (hn ▸ hlt) _ rfl, NoneHidden, List.pairwise_cons]
        simp

end Decoder

end Framing
