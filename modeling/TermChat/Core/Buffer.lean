import TermChat.Proto.Messages

/-! `Buffer`: a byte vector with a read and a write position. The bytes between the two
are the readable region; every operation is specified by what it does to that region. -/
namespace TermChat

structure Buffer where
  buffer : Bytes
  readPos : ℕ
  writePos : ℕ
  readPos_le : readPos ≤ writePos
  writePos_le : writePos ≤ buffer.length

namespace Buffer

def initBufferSize : ℕ := 1024

def init (size : ℕ) : Buffer := ⟨List.replicate size 0, 0, 0, le_rfl, Nat.zero_le _⟩

def readableBytes (b : Buffer) : ℕ := b.writePos - b.readPos

def writableBytes (b : Buffer) : ℕ := b.buffer.length - b.writePos

def prependableBytes (b : Buffer) : ℕ := b.readPos

/-- The bytes from `peek()` on, `readable_bytes()` of them. -/
def readable (b : Buffer) : Bytes := (b.buffer.take b.writePos).drop b.readPos

@[simp] theorem length_readable (b : Buffer) : b.readable.length = b.readableBytes := by
  simp [readable, readableBytes, Nat.min_eq_left b.writePos_le]

@[simp] theorem readable_init (size : ℕ) : (init size).readable = [] := by
  simp [readable, init]

def resize (bs : Bytes) (n : ℕ) : Bytes := bs.take n ++ List.replicate (n - bs.length) 0

theorem length_resize (bs : Bytes) (n : ℕ) : (resize bs n).length = n := by
  simp only [resize, List.length_append, List.length_take, List.length_replicate]
  omega

/-- Growth keeps the positions; otherwise the readable region moves to the front. -/
def makeSpace (b : Buffer) (len : ℕ) : Buffer :=
  if b.writableBytes + b.prependableBytes < len then
    ⟨resize b.buffer (b.writePos + len + 1), b.readPos, b.writePos, b.readPos_le, by
      rw [length_resize]; omega⟩
  else
    ⟨b.readable ++ b.buffer.drop b.readableBytes, 0, b.readableBytes, Nat.zero_le _, by simp⟩

private theorem readable_makeSpace (b : Buffer) (len : ℕ) :
    (b.makeSpace len).readable = b.readable := by
  unfold makeSpace
  split_ifs with h
  · have hl : b.buffer.length ≤ b.writePos + len + 1 := by
      simp only [writableBytes, prependableBytes] at h
      omega
    simp only [readable, resize, List.take_of_length_le hl]
    rw [List.take_append_of_le_length b.writePos_le]
  · change ((b.readable ++ _).take b.readableBytes).drop 0 = _
    rw [List.drop_zero, List.take_left' b.length_readable]

private theorem le_writableBytes_makeSpace (b : Buffer) (len : ℕ) :
    len ≤ (b.makeSpace len).writableBytes := by
  have h1 := b.readPos_le
  have h2 := b.writePos_le
  unfold makeSpace
  split_ifs with h
  · simp only [writableBytes, length_resize]
    omega
  · simp only [writableBytes, List.length_append, length_readable, List.length_drop]
    simp only [writableBytes, prependableBytes, readableBytes] at h ⊢
    omega

def ensureWritable (b : Buffer) (len : ℕ) : Buffer :=
  if b.writableBytes < len then b.makeSpace len else b

@[simp] theorem readable_ensureWritable (b : Buffer) (len : ℕ) :
    (b.ensureWritable len).readable = b.readable := by
  unfold ensureWritable
  split_ifs
  · exact readable_makeSpace b len
  · rfl

theorem le_writableBytes_ensureWritable (b : Buffer) (len : ℕ) :
    len ≤ (b.ensureWritable len).writableBytes := by
  unfold ensureWritable
  split_ifs with h
  · exact le_writableBytes_makeSpace b len
  · exact not_lt.mp h

/-- Copy to `begin_write()`, then `has_written`; the data fits behind the write position. -/
def store (b : Buffer) (data : Bytes) (_ : data.length ≤ b.writableBytes) : Buffer :=
  ⟨b.buffer.take b.writePos ++ data ++ b.buffer.drop (b.writePos + data.length), b.readPos,
    b.writePos + data.length, b.readPos_le.trans (Nat.le_add_right _ _), by
      have := b.writePos_le
      simp only [List.length_append, List.length_take, List.length_drop]
      omega⟩

theorem readable_store (b : Buffer) (data : Bytes) (h : data.length ≤ b.writableBytes) :
    (b.store data h).readable = b.readable ++ data := by
  have hw : (b.buffer.take b.writePos).length = b.writePos := by
    simp [Nat.min_eq_left b.writePos_le]
  have ht : (b.buffer.take b.writePos ++ data).length = b.writePos + data.length := by
    rw [List.length_append, hw]
  change ((b.buffer.take b.writePos ++ data ++ _).take (b.writePos + data.length)).drop b.readPos = _
  rw [List.take_left' ht, List.drop_append_of_le_length (by rw [hw]; exact b.readPos_le), readable]

def append (b : Buffer) (data : Bytes) : Buffer :=
  (b.ensureWritable data.length).store data (b.le_writableBytes_ensureWritable _)

@[simp] theorem readable_append (b : Buffer) (data : Bytes) :
    (b.append data).readable = b.readable ++ data := by
  rw [append, readable_store, readable_ensureWritable]

/-- The assertion of `retrieve` is the hypothesis. -/
def retrieve (b : Buffer) (len : ℕ) (h : len ≤ b.readableBytes) : Buffer :=
  ⟨b.buffer, b.readPos + len, b.writePos, by
    have := b.readPos_le
    simp only [readableBytes] at h
    omega, b.writePos_le⟩

@[simp] theorem readable_retrieve (b : Buffer) (len : ℕ) (h : len ≤ b.readableBytes) :
    (b.retrieve len h).readable = b.readable.drop len := by
  simp [readable, retrieve, List.drop_drop]

def retrieveAll (b : Buffer) : Buffer := ⟨b.buffer, 0, 0, le_rfl, Nat.zero_le _⟩

@[simp] theorem readable_retrieveAll (b : Buffer) : b.retrieveAll.readable = [] := by
  simp [readable, retrieveAll]

def extraBytes : ℕ := 65535

/-- `read_fd` when `readv` returns `data`: what does not fit spills into the stack buffer
and is appended from there. The capacity of the two segments bounds what `readv` returns. -/
def readFd (b : Buffer) (data : Bytes) (_ : data.length ≤ b.writableBytes + extraBytes) : Buffer :=
  if h : data.length ≤ b.writableBytes then b.store data h
  else (b.store (data.take b.writableBytes) (by simp)).append (data.drop b.writableBytes)

@[simp] theorem readable_readFd (b : Buffer) (data : Bytes)
    (h : data.length ≤ b.writableBytes + extraBytes) :
    (b.readFd data h).readable = b.readable ++ data := by
  unfold readFd
  split_ifs with hs
  · exact readable_store b data hs
  · rw [readable_append, readable_store, List.append_assoc, List.take_append_drop]

/-- `write_fd` when `write` takes the first `n` readable bytes. -/
def writeFd (b : Buffer) (n : ℕ) (h : n ≤ b.readableBytes) : Buffer := b.retrieve n h

@[simp] theorem readable_writeFd (b : Buffer) (n : ℕ) (h : n ≤ b.readableBytes) :
    (b.writeFd n h).readable = b.readable.drop n := readable_retrieve b n h

end Buffer
end TermChat
