import TermChat.Core.OutStream

/-! `TcpConnection::write` of an HTTP response: one `writev` sends the header from the write buffer
and the file from its mapping, and after a partial write the two `iovec`s and the buffer are moved
on together. -/
namespace TermChat

/-- An `iovec`, by its offset into the memory it points into. -/
structure Iovec where
  base : ℕ
  len : ℕ
  deriving DecidableEq, Repr

def Iovec.bytes (iov : Iovec) (memory : Bytes) : Bytes := (memory.drop iov.base).take iov.len

theorem Iovec.length_bytes {iov : Iovec} {memory : Bytes} (h : iov.base + iov.len ≤ memory.length) :
    (iov.bytes memory).length = iov.len := by
  rw [Iovec.bytes, List.length_take, List.length_drop]
  omega

/-- An `iovec` that is moved on by `n` describes what is left. -/
theorem Iovec.bytes_advance (iov : Iovec) (memory : Bytes) (n : ℕ) :
    (Iovec.mk (iov.base + n) (iov.len - n)).bytes memory = (iov.bytes memory).drop n := by
  rw [Iovec.bytes, Iovec.bytes, List.drop_take, List.drop_drop]

def Buffer.toIovec (b : Buffer) : Iovec := ⟨b.readPos, b.readableBytes⟩

/-- What `write` works on when `conn_type_` is HTTP. `iov1` points into `file`; both are left from
an earlier response when `iovCnt` is 1. -/
structure HttpOut where
  writeBuff : Buffer
  outgoingQueue : List Bytes
  file : Bytes
  iov0 : Iovec
  iov1 : Iovec
  iovCnt : ℕ

namespace HttpOut

/-- `setup_iov_for_http`; `file` is what `File()` points to, if it is not null. -/
def setupIovForHttp (s : HttpOut) (file : Option Bytes) : HttpOut :=
  let s := { s with iov0 := s.writeBuff.toIovec, iovCnt := 1 }
  match file with
  | none => s
  | some content =>
    if 0 < content.length then
      { s with file := content, iov1 := ⟨0, content.length⟩, iovCnt := 2 }
    else s

/-- `iov_[0].iov_len + (iov_cnt_ > 1 ? iov_[1].iov_len : 0)`. -/
def remaining (s : HttpOut) : ℕ := s.iov0.len + if 1 < s.iovCnt then s.iov1.len else 0

def toWriteBytes (s : HttpOut) : ℕ :=
  if 0 < s.iovCnt then s.remaining else s.writeBuff.readableBytes

def gathered (s : HttpOut) : Bytes :=
  s.iov0.bytes s.writeBuff.buffer ++ if 1 < s.iovCnt then s.iov1.bytes s.file else []

/-- After `writev` has sent `len` bytes. `none` when `iov_[1].iov_len` underflows or the assertion
of `retrieve` fails. -/
def adjust (s : HttpOut) (len : ℕ) : Option HttpOut :=
  if s.iov0.len < len then
    let fileSent := len - s.iov0.len
    if s.iov1.len < fileSent then none
    else
      let s := { s with iov1 := ⟨s.iov1.base + fileSent, s.iov1.len - fileSent⟩ }
      if 0 < s.iov0.len then
        some { s with writeBuff := s.writeBuff.retrieveAll, iov0 := { s.iov0 with len := 0 } }
      else some s
  else if h : len ≤ s.writeBuff.readableBytes then
    some { s with
      iov0 := ⟨s.iov0.base + len, s.iov0.len - len⟩
      writeBuff := s.writeBuff.retrieve len h }
  else none

/-- The loop of `write`, and the bytes that the socket took. The list has what the `writev` calls
return, a count of at most what remains, or `none` for an error. -/
def writevLoop (isEt : Bool) : HttpOut → List (Option ℕ) → Option (HttpOut × Bytes)
  | s, [] => some (s, [])
  | s, none :: _ => some (s, [])
  | s, some n :: answers =>
    let len := min n s.remaining
    if len = 0 then some (s, [])
    else
      match s.adjust len with
      | none => none
      | some s' =>
        let sent := s.gathered.take len
        if s'.remaining = 0 ∨ isEt = false ∧ s'.remaining < 10240 then some (s', sent)
        else (writevLoop isEt s' answers).map fun r => (r.1, sent ++ r.2)

def write (isEt : Bool) (s : HttpOut) (answers : List (Option ℕ)) : Option (HttpOut × Bytes) :=
  -- `flush_pending_to_buffer`
  let s := { s with
    writeBuff := s.outgoingQueue.foldl Buffer.append s.writeBuff, outgoingQueue := [] }
  if 0 < s.iovCnt then s.writevLoop isEt answers
  else
    let r := writeLoop isEt s.writeBuff answers
    some ({ s with writeBuff := r.1 }, r.2)

/-- Call after call; the bytes are collected. -/
def writes (isEt : Bool) : HttpOut × Bytes → List (List (Option ℕ)) → Option (HttpOut × Bytes) :=
  Steps.run fun s answers => (s.1.write isEt answers).map fun r => (r.1, s.2 ++ r.2)

/-- `iov_[0]` describes the readable region of the write buffer; its pointer is not moved on when
the region becomes empty. -/
structure Describes (s : HttpOut) : Prop where
  len : s.iov0.len = s.writeBuff.readableBytes
  base : 0 < s.iov0.len → s.iov0.base = s.writeBuff.readPos

/-- What holds between two `writev` calls of a response of which `sent` is on the wire. -/
structure Sending (s : HttpOut) (sent response : Bytes) : Prop where
  queue : s.outgoingQueue = []
  describes : s.Describes
  iovCnt : 0 < s.iovCnt
  inFile : 1 < s.iovCnt → s.iov1.base + s.iov1.len ≤ s.file.length
  bytes : sent ++ s.gathered = response

variable {s : HttpOut} {sent response : Bytes}

theorem Describes.bytes (h : s.Describes) : s.iov0.bytes s.writeBuff.buffer = s.writeBuff.readable := by
  by_cases hpos : 0 < s.iov0.len
  · rw [Iovec.bytes, h.base hpos, h.len, Buffer.readable, Buffer.readableBytes, List.drop_take]
  · have hlen : s.iov0.len = 0 := by omega
    have hempty : s.writeBuff.readable = [] := by
      apply List.length_eq_zero_iff.mp
      rw [Buffer.length_readable, ← h.len, hlen]
    rw [Iovec.bytes, hlen, List.take_zero, hempty]

theorem Sending.length_gathered (h : s.Sending sent response) : s.gathered.length = s.remaining := by
  rw [gathered, remaining, List.length_append, h.describes.bytes, Buffer.length_readable,
    h.describes.len]
  split_ifs with hcnt
  · rw [Iovec.length_bytes (h.inFile hcnt)]
  · rfl

/-- The bytes of a `writev` go from the front of what is still to be sent. -/
theorem Sending.advance {s' : HttpOut} (h : s.Sending sent response) {len : ℕ}
    (hdrop : s'.gathered = s.gathered.drop len) :
    sent ++ s.gathered.take len ++ s'.gathered = response := by
  rw [hdrop, List.append_assoc, List.take_append_drop]
  exact h.bytes

/-- A `writev` that ends inside the header, or at its end. -/
theorem Sending.adjust_header (h : s.Sending sent response) {len : ℕ} (hlen : len ≤ s.iov0.len) :
    ∃ s', s.adjust len = some s' ∧ s'.Sending (sent ++ s.gathered.take len) response := by
  have hread : len ≤ s.writeBuff.readableBytes := by
    rw [← h.describes.len]
    exact hlen
  refine ⟨_, (if_neg (by omega)).trans (dif_pos hread), ?_⟩
  have hdescribes : Describes { s with
      iov0 := ⟨s.iov0.base + len, s.iov0.len - len⟩
      writeBuff := s.writeBuff.retrieve len hread } := by
    constructor
    · show s.iov0.len - len = s.writeBuff.writePos - (s.writeBuff.readPos + len)
      rw [h.describes.len, Buffer.readableBytes]
      omega
    · intro hpos
      show s.iov0.base + len = s.writeBuff.readPos + len
      rw [h.describes.base (Nat.lt_of_lt_of_le hpos (Nat.sub_le _ _))]
  refine ⟨h.queue, hdescribes, h.iovCnt, h.inFile, h.advance ?_⟩
  have hfront : len ≤ s.writeBuff.readable.length := by rwa [Buffer.length_readable]
  rw [gathered, hdescribes.bytes, Buffer.readable_retrieve, gathered, h.describes.bytes,
    List.drop_append_of_le_length hfront]

theorem Sending.adjust_file (h : s.Sending sent response) {len : ℕ} (hheader : s.iov0.len < len)
    (hlen : len ≤ s.remaining) :
    ∃ s', s.adjust len = some s' ∧ s'.Sending (sent ++ s.gathered.take len) response := by
  have hcnt : 1 < s.iovCnt := by
    by_contra hone
    rw [remaining, if_neg hone] at hlen
    omega
  have hfits : ¬ s.iov1.len < len - s.iov0.len := by
    rw [remaining, if_pos hcnt] at hlen
    omega
  have hin := h.inFile hcnt
  have hlength : s.writeBuff.readable.length = s.iov0.len := by
    rw [Buffer.length_readable, h.describes.len]
  -- what is left of the two segments, whether the header is reset or was empty before
  have hdrop : (s.iov1.bytes s.file).drop (len - s.iov0.len) = s.gathered.drop len := by
    have hgone : s.writeBuff.readable.drop len = [] := List.drop_eq_nil_of_le (by omega)
    rw [gathered, h.describes.bytes, if_pos hcnt, List.drop_append, hlength, hgone, List.nil_append]
  unfold adjust
  rw [if_pos hheader]
  dsimp only
  rw [if_neg hfits]
  by_cases hpos : 0 < s.iov0.len
  · rw [if_pos hpos]
    refine ⟨_, rfl, h.queue, ⟨rfl, fun hlt => absurd hlt (lt_irrefl 0)⟩, h.iovCnt, ?_, h.advance ?_⟩
    · intro _
      show s.iov1.base + (len - s.iov0.len) + (s.iov1.len - (len - s.iov0.len)) ≤ s.file.length
      omega
    · rw [← hdrop, ← Iovec.bytes_advance, gathered, if_pos hcnt, Iovec.bytes, List.take_zero,
        List.nil_append]
  · have hzero : s.iov0.len = 0 := by omega
    rw [if_neg hpos]
    refine ⟨_, rfl, h.queue, ⟨h.describes.len, h.describes.base⟩, h.iovCnt, ?_, h.advance ?_⟩
    · intro _
      show s.iov1.base + (len - s.iov0.len) + (s.iov1.len - (len - s.iov0.len)) ≤ s.file.length
      omega
    · rw [← hdrop, ← Iovec.bytes_advance, gathered, if_pos hcnt, Iovec.bytes, hzero, List.take_zero,
        List.nil_append]

theorem Sending.adjust (h : s.Sending sent response) {len : ℕ} (hlen : len ≤ s.remaining) :
    ∃ s', s.adjust len = some s' ∧ s'.Sending (sent ++ s.gathered.take len) response := by
  by_cases hheader : s.iov0.len < len
  · exact h.adjust_file hheader hlen
  · exact h.adjust_header (not_lt.mp hheader)

theorem Sending.writevLoop (h : s.Sending sent response) (isEt : Bool) (answers : List (Option ℕ)) :
    ∃ r, s.writevLoop isEt answers = some r ∧ r.1.Sending (sent ++ r.2) response := by
  have hstop : s.Sending (sent ++ []) response := by rwa [List.append_nil]
  induction answers generalizing s sent with
  | nil => exact ⟨(s, []), rfl, hstop⟩
  | cons answer answers ih =>
    cases answer with
    | none => exact ⟨(s, []), rfl, hstop⟩
    | some n =>
      rw [HttpOut.writevLoop]
      dsimp only
      split_ifs with hzero
      · exact ⟨(s, []), rfl, hstop⟩
      · obtain ⟨s', hadjust, h'⟩ := h.adjust (Nat.min_le_right n s.remaining)
        rw [hadjust]
        dsimp only
        split_ifs with hbreak
        · exact ⟨_, rfl, h'⟩
        · obtain ⟨r, hr, hsend⟩ := ih h' (by rwa [List.append_nil])
          rw [hr]
          refine ⟨_, rfl, ?_⟩
          rwa [List.append_assoc] at hsend

theorem Sending.write (h : s.Sending sent response) (isEt : Bool) (answers : List (Option ℕ)) :
    ∃ r, s.write isEt answers = some r ∧ r.1.Sending (sent ++ r.2) response := by
  have hflush : { s with
      writeBuff := s.outgoingQueue.foldl Buffer.append s.writeBuff, outgoingQueue := [] } = s := by
    rw [h.queue, List.foldl_nil, ← h.queue]
  unfold HttpOut.write
  dsimp only
  rw [if_pos h.iovCnt, hflush]
  exact h.writevLoop isEt answers

theorem Sending.writes (h : s.Sending sent response) (isEt : Bool)
    (calls : List (List (Option ℕ))) :
    ∃ r, writes isEt (s, sent) calls = some r ∧ r.1.Sending r.2 response := by
  induction calls generalizing s sent with
  | nil => exact ⟨(s, sent), rfl, h⟩
  | cons answers calls ih =>
    obtain ⟨r, hr, hsend⟩ := h.write isEt answers
    obtain ⟨r', hr', hsend'⟩ := ih hsend
    refine ⟨r', ?_, hsend'⟩
    rw [HttpOut.writes, Steps.run_cons, hr]
    exact hr'

theorem sending_setup (s : HttpOut) (hqueue : s.outgoingQueue = []) (file : Option Bytes) :
    (s.setupIovForHttp file).Sending [] (s.writeBuff.readable ++ file.getD []) := by
  have hdescribes : ∀ (content : Bytes) (iov1 : Iovec) (iovCnt : ℕ), Describes { s with
      iov0 := s.writeBuff.toIovec, file := content, iov1 := iov1, iovCnt := iovCnt } :=
    fun _ _ _ => ⟨rfl, fun _ => rfl⟩
  -- without a file, only the header is sent
  have hheader : Sending { s with iov0 := s.writeBuff.toIovec, iovCnt := 1 } []
      (s.writeBuff.readable ++ []) := by
    refine ⟨hqueue, hdescribes _ _ _, Nat.one_pos, fun hlt => absurd hlt (lt_irrefl 1), ?_⟩
    rw [List.nil_append, gathered, (hdescribes s.file s.iov1 1).bytes]
    rfl
  unfold setupIovForHttp
  cases file with
  | none => exact hheader
  | some content =>
    dsimp only
    split_ifs with hlen
    · refine ⟨hqueue, hdescribes _ _ _, Nat.two_pos, fun _ => by simp, ?_⟩
      rw [List.nil_append, gathered, (hdescribes content _ 2).bytes]
      simp [Iovec.bytes]
    · have hempty : content = [] := List.length_eq_zero_iff.mp (by omega)
      rw [hempty]
      exact hheader

/-- The response of a drained connection, with or without a file, however the socket takes it in
however many calls of `write`: what is on the wire is a prefix of the header and the file, the first
`iovec` stays on the readable region, whatever the next `writev` sends is taken off without a failed
assertion or an underflow, and nothing is left to write exactly when everything is on the wire. -/
theorem http_response_sent (isEt : Bool) (s : HttpOut) (hqueue : s.outgoingQueue = [])
    (file : Option Bytes) (calls : List (List (Option ℕ))) :
    ∃ t sent, writes isEt (s.setupIovForHttp file, []) calls = some (t, sent) ∧
      sent <+: s.writeBuff.readable ++ file.getD [] ∧ t.Describes ∧
      (∀ len ≤ t.remaining, (t.adjust len).isSome) ∧
      (t.toWriteBytes = 0 ↔ sent = s.writeBuff.readable ++ file.getD []) := by
  obtain ⟨⟨t, sent⟩, hrun, h⟩ := (sending_setup s hqueue file).writes isEt calls
  refine ⟨t, sent, hrun, ⟨t.gathered, h.bytes⟩, h.describes, ?_, ?_⟩
  · intro len hlen
    obtain ⟨t', hadjust, -⟩ := h.adjust hlen
    rw [hadjust]
    rfl
  · have hleft : t.toWriteBytes = t.gathered.length := by
      rw [toWriteBytes, if_pos h.iovCnt, h.length_gathered]
    have hbytes : sent ++ t.gathered = s.writeBuff.readable ++ file.getD [] := h.bytes
    rw [hleft, List.length_eq_zero_iff, ← hbytes, List.self_eq_append_right]

/-- A connection that has a header of three bytes in its buffer, and an `iovec` of an earlier file. -/
def headed : HttpOut where
  writeBuff := (Buffer.init 8).append [1, 2, 3]
  outgoingQueue := []
  file := []
  iov0 := ⟨0, 0⟩
  iov1 := ⟨7, 7⟩
  iovCnt := 0

/-- A file of four bytes, and a socket that takes two bytes, three over the end of the header, and
two. -/
theorem http_response_sent_pieces :
    ∃ t, writes false (headed.setupIovForHttp (some [4, 5, 6, 7]), [])
        [[some 2], [none], [some 3], [some 2]] = some (t, [1, 2, 3, 4, 5, 6, 7]) ∧
      t.toWriteBytes = 0 := by
  obtain ⟨t, sent, hrun, -, -, -, hdone⟩ := http_response_sent false headed rfl (some [4, 5, 6, 7])
    [[some 2], [none], [some 3], [some 2]]
  have hvalue : (writes false (headed.setupIovForHttp (some [4, 5, 6, 7]), [])
      [[some 2], [none], [some 3], [some 2]]).map Prod.snd = some [1, 2, 3, 4, 5, 6, 7] := by
    decide
  have hsent : sent = [1, 2, 3, 4, 5, 6, 7] := by
    rw [hrun] at hvalue
    exact Option.some.inj hvalue
  refine ⟨t, ?_, hdone.mpr hsent⟩
  rw [hrun, hsent]

end HttpOut
end TermChat
