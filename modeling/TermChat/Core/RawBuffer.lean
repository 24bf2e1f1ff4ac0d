import TermChat.Core.Buffer

/-! `Buffer` with the arithmetic of `std::size_t` and with appended bytes that may lie in the
vector itself. As long as the sizes fit and the bytes come from elsewhere, it is the `Buffer` whose
positions are numbers in order. -/
namespace TermChat

structure RawBuffer where
  buffer : Bytes
  readPos : UInt64
  writePos : UInt64
  deriving DecidableEq, Repr

/-- Bytes to append. `own` is their offset in the vector, when the pointer leads there. -/
structure Chunk where
  bytes : Bytes
  own : Option ℕ := none
  deriving DecidableEq, Repr

namespace RawBuffer

def init (size : ℕ) : RawBuffer := ⟨List.replicate size 0, 0, 0⟩

def size (b : RawBuffer) : UInt64 := .ofNat b.buffer.length

def readableBytes (b : RawBuffer) : UInt64 := b.writePos - b.readPos

def writableBytes (b : RawBuffer) : UInt64 := b.size - b.writePos

def prependableBytes (b : RawBuffer) : UInt64 := b.readPos

def readable (b : RawBuffer) : Bytes := (b.buffer.take b.writePos.toNat).drop b.readPos.toNat

def maxSize : ℕ := 2 ^ 63 - 1

/-- `std::vector::resize`; `none` is its `std::length_error`. -/
def resize (bs : Bytes) (n : UInt64) : Option Bytes :=
  if n.toNat ≤ maxSize then some (Buffer.resize bs n.toNat) else none

/-- `make_space` takes the branch that grows the vector. -/
def Grows (b : RawBuffer) (len : UInt64) : Prop :=
  b.writableBytes < len ∧ b.writableBytes + b.prependableBytes < len

instance (b : RawBuffer) (len : UInt64) : Decidable (b.Grows len) :=
  inferInstanceAs (Decidable (_ ∧ _))

/-- `std::memmove` of the readable region to the front of the vector. -/
def compact (b : RawBuffer) : RawBuffer :=
  ⟨b.readable ++ b.buffer.drop b.readable.length, 0, b.readableBytes⟩

def makeSpace (b : RawBuffer) (len : UInt64) : Option RawBuffer :=
  if b.writableBytes + b.prependableBytes < len then
    (resize b.buffer (b.writePos + len + 1)).map fun bs => { b with buffer := bs }
  else some b.compact

def ensureWritable (b : RawBuffer) (len : UInt64) : Option RawBuffer :=
  if b.writableBytes < len then b.makeSpace len else some b

/-- Copy to `begin_write()`, then `has_written`. -/
def store (b : RawBuffer) (data : Bytes) : RawBuffer :=
  ⟨b.buffer.take b.writePos.toNat ++ data ++ b.buffer.drop (b.writePos.toNat + data.length),
    b.readPos, b.writePos + .ofNat data.length⟩

/-- The bytes are read after `ensure_writable`: those of the vector itself from where it has them
then. `none` also stands for the pointer into a vector that has grown, and so moved, since. -/
def append (b : RawBuffer) (c : Chunk) : Option RawBuffer :=
  (b.ensureWritable (.ofNat c.bytes.length)).bind fun b' =>
    match c.own with
    | none => some (b'.store c.bytes)
    | some offset =>
      if b.Grows (.ofNat c.bytes.length) then none
      else some (b'.store ((b'.buffer.drop offset).take c.bytes.length))

def retrieve (b : RawBuffer) (len : UInt64) : RawBuffer := { b with readPos := b.readPos + len }

def retrieveAll (b : RawBuffer) : RawBuffer := { b with readPos := 0, writePos := 0 }

def fill (b : RawBuffer) (data : Bytes) : RawBuffer :=
  { b.store (data.take b.writableBytes.toNat) with writePos := b.size }

/-- `read_fd` when `readv` returns `data`. -/
def readFd (b : RawBuffer) (data : Bytes) : Option RawBuffer :=
  if UInt64.ofNat data.length ≤ b.writableBytes then some (b.store data)
  else (b.fill data).append ⟨data.drop b.writableBytes.toNat, none⟩

end RawBuffer

namespace Buffer

def raw (b : Buffer) : RawBuffer := ⟨b.buffer, .ofNat b.readPos, .ofNat b.writePos⟩

/-- The vector is below its `max_size()`. -/
def Small (b : Buffer) : Prop := b.buffer.length ≤ RawBuffer.maxSize

variable {b : Buffer}

theorem toNat_ofNat_le {n m : ℕ} (h : n ≤ m) (hm : m ≤ RawBuffer.maxSize) :
    (UInt64.ofNat n).toNat = n :=
  UInt64.toNat_ofNat_of_lt' (lt_of_le_of_lt (h.trans hm) (by decide))

theorem toNat_writePos (h : b.Small) : b.raw.writePos.toNat = b.writePos :=
  toNat_ofNat_le b.writePos_le h

theorem toNat_readPos (h : b.Small) : b.raw.readPos.toNat = b.readPos :=
  toNat_ofNat_le (b.readPos_le.trans b.writePos_le) h

private theorem toNat_size (h : b.Small) :
    b.raw.size.toNat = b.buffer.length := toNat_ofNat_le le_rfl h

theorem toNat_sub {x y : UInt64} (h : y.toNat ≤ x.toNat) : (x - y).toNat = x.toNat - y.toNat :=
  UInt64.toNat_sub_of_le x y (UInt64.le_iff_toNat_le.mpr h)

theorem toNat_readableBytes (h : b.Small) : b.raw.readableBytes.toNat = b.readableBytes := by
  have hread := toNat_readPos h
  have hwrite := toNat_writePos h
  have hle := b.readPos_le
  rw [RawBuffer.readableBytes, toNat_sub (by omega), hread, hwrite, readableBytes]

theorem toNat_writableBytes (h : b.Small) : b.raw.writableBytes.toNat = b.writableBytes := by
  have hwrite := toNat_writePos h
  have hsize := toNat_size h
  have hle := b.writePos_le
  rw [RawBuffer.writableBytes, toNat_sub (by omega), hwrite, hsize, writableBytes]

theorem readable_raw (h : b.Small) : b.raw.readable = b.readable := by
  rw [RawBuffer.readable, toNat_writePos h, toNat_readPos h]
  rfl

private theorem readableBytes_raw (h : b.Small) : b.raw.readableBytes = .ofNat b.readableBytes := by
  rw [← toNat_readableBytes h, UInt64.ofNat_toNat]

variable {len : ℕ}

/-- There is room for `len` more bytes below `max_size()`. -/
def Fits (b : Buffer) (len : ℕ) : Prop := b.writePos + len + 1 ≤ RawBuffer.maxSize

theorem Fits.toNat (h : b.Fits len) : (UInt64.ofNat len).toNat = len :=
  toNat_ofNat_le (m := b.writePos + len + 1) (by omega) h

private theorem lt_iff_of_fits (h : b.Small) (hfits : b.Fits len) :
    b.raw.writableBytes < .ofNat len ↔ b.writableBytes < len := by
  rw [UInt64.lt_iff_toNat_lt, toNat_writableBytes h, hfits.toNat]

private theorem grows_iff_of_fits (h : b.Small) (hfits : b.Fits len) :
    b.raw.writableBytes + b.raw.prependableBytes < .ofNat len ↔
      b.writableBytes + b.prependableBytes < len := by
  have hwritable := toNat_writableBytes h
  have hread := toNat_readPos h
  have hle := b.readPos_le
  have hle' := b.writePos_le
  have hmax : RawBuffer.maxSize < 2 ^ 63 := by decide
  have hsmall : b.buffer.length ≤ RawBuffer.maxSize := h
  have hadd : (b.raw.writableBytes + b.raw.prependableBytes).toNat =
      b.writableBytes + b.prependableBytes := by
    rw [RawBuffer.prependableBytes, UInt64.toNat_add, hwritable, hread, prependableBytes]
    have hw : b.writableBytes = b.buffer.length - b.writePos := rfl
    exact Nat.mod_eq_of_lt (by omega)
  rw [UInt64.lt_iff_toNat_lt, hadd, hfits.toNat]

private theorem compact_raw (h : b.Small) :
    b.raw.compact = ⟨b.readable ++ b.buffer.drop b.readableBytes, 0, .ofNat b.readableBytes⟩ := by
  rw [RawBuffer.compact, readable_raw h, readableBytes_raw h, length_readable]
  rfl

theorem makeSpace_raw (h : b.Small) (hfits : b.Fits len) :
    b.raw.makeSpace (.ofNat len) = some (b.makeSpace len).raw := by
  unfold RawBuffer.makeSpace makeSpace
  by_cases hgrows : b.writableBytes + b.prependableBytes < len
  · have hroom : b.writePos + len + 1 ≤ RawBuffer.maxSize := hfits
    have hsum : (b.raw.writePos + .ofNat len + 1).toNat = b.writePos + len + 1 := by
      have hmax : RawBuffer.maxSize < 2 ^ 63 := by decide
      have hwrite := toNat_writePos h
      have hlen := hfits.toNat
      rw [UInt64.toNat_add, UInt64.toNat_add, hwrite, hlen, UInt64.toNat_one]
      omega
    rw [if_pos ((grows_iff_of_fits h hfits).mpr hgrows), if_pos hgrows, RawBuffer.resize, hsum,
      if_pos hroom]
    rfl
  · rw [if_neg (mt (grows_iff_of_fits h hfits).mp hgrows), if_neg hgrows, compact_raw h]
    rfl

theorem small_makeSpace (h : b.Small) (hfits : b.Fits len) : (b.makeSpace len).Small := by
  unfold makeSpace Small
  split_ifs
  · rw [length_resize]
    exact hfits
  · have hle : b.readableBytes ≤ b.buffer.length := (Nat.sub_le _ _).trans b.writePos_le
    have hlen : (b.readable ++ b.buffer.drop b.readableBytes).length = b.buffer.length := by
      rw [List.length_append, length_readable, List.length_drop]
      omega
    exact hlen.trans_le h

theorem ensureWritable_raw (h : b.Small) (hfits : b.Fits len) :
    b.raw.ensureWritable (.ofNat len) = some (b.ensureWritable len).raw ∧
      (b.ensureWritable len).Small := by
  unfold RawBuffer.ensureWritable ensureWritable
  by_cases hlt : b.writableBytes < len
  · rw [if_pos ((lt_iff_of_fits h hfits).mpr hlt), if_pos hlt]
    exact ⟨makeSpace_raw h hfits, small_makeSpace h hfits⟩
  · rw [if_neg (mt (lt_iff_of_fits h hfits).mp hlt), if_neg hlt]
    exact ⟨rfl, h⟩

theorem store_raw (h : b.Small) {data : Bytes} (hdata : data.length ≤ b.writableBytes) :
    b.raw.store data = (b.store data hdata).raw ∧ (b.store data hdata).Small := by
  have hwrite := toNat_writePos h
  constructor
  · unfold RawBuffer.store
    rw [hwrite]
    refine congrArg (RawBuffer.mk _ _) ?_
    exact (UInt64.ofNat_add b.writePos data.length).symm
  · have hw : b.writableBytes = b.buffer.length - b.writePos := rfl
    have hle := b.writePos_le
    have hlen : (b.store data hdata).buffer.length = b.buffer.length := by
      simp only [store, List.length_append, List.length_take, List.length_drop]
      omega
    exact hlen.trans_le h

theorem append_raw (h : b.Small) {data : Bytes} (hfits : b.Fits data.length) :
    b.raw.append ⟨data, none⟩ = some (b.append data).raw ∧ (b.append data).Small := by
  obtain ⟨hensure, hsmall⟩ := ensureWritable_raw h hfits
  have hstore := store_raw hsmall (b.le_writableBytes_ensureWritable data.length)
  refine ⟨?_, hstore.2⟩
  rw [RawBuffer.append, hensure, Option.bind_some]
  exact congrArg some hstore.1

theorem retrieve_raw (hlen : len ≤ b.readableBytes) :
    b.raw.retrieve (.ofNat len) = (b.retrieve len hlen).raw := by
  refine congrArg (RawBuffer.mk _ · _) ?_
  exact (UInt64.ofNat_add b.readPos len).symm

/-- `read_fd` gets more than the vector has room for. -/
def Spills (b : Buffer) (data : Bytes) : Prop :=
  b.writableBytes < data.length ∧ data.length ≤ b.writableBytes + extraBytes ∧
    b.buffer.length + extraBytes + 1 ≤ RawBuffer.maxSize

theorem Spills.fill_raw {data : Bytes} (hspill : b.Spills data) (h : b.Small) :
    ∃ hdata : (data.take b.writableBytes).length ≤ b.writableBytes,
      b.raw.fill data = (b.store (data.take b.writableBytes) hdata).raw ∧
      (b.store (data.take b.writableBytes) hdata).Small ∧
      (b.store (data.take b.writableBytes) hdata).Fits (data.drop b.writableBytes).length := by
  obtain ⟨hlong, hdata, hroom⟩ := hspill
  have hw : b.writableBytes = b.buffer.length - b.writePos := rfl
  have hle := b.writePos_le
  have htake : (data.take b.writableBytes).length = b.writableBytes := by
    rw [List.length_take]
    omega
  have hdrop : (data.drop b.writableBytes).length ≤ extraBytes := by
    rw [List.length_drop]
    omega
  -- `writePos_ = buffer_.size()` is where the copy has ended
  have hend : (b.store (data.take b.writableBytes) htake.le).writePos = b.buffer.length := by
    change b.writePos + (data.take b.writableBytes).length = b.buffer.length
    omega
  obtain ⟨hstore, hsmall⟩ := store_raw h htake.le
  refine ⟨htake.le, ?_, hsmall, ?_⟩
  · rw [RawBuffer.fill, toNat_writableBytes h, hstore]
    exact congrArg (RawBuffer.mk _ _) (congrArg UInt64.ofNat hend.symm)
  · unfold Fits
    omega

theorem readFd_raw (h : b.Small) {data : Bytes}
    (hdata : data.length ≤ b.writableBytes + extraBytes)
    (hroom : b.buffer.length + extraBytes + 1 ≤ RawBuffer.maxSize) :
    b.raw.readFd data = some (b.readFd data hdata).raw ∧ (b.readFd data hdata).Small := by
  have hwritable := toNat_writableBytes h
  have hw : b.writableBytes = b.buffer.length - b.writePos := rfl
  have hlen : (UInt64.ofNat data.length).toNat = data.length :=
    toNat_ofNat_le (m := b.buffer.length + extraBytes + 1) (by omega) hroom
  have hiff : UInt64.ofNat data.length ≤ b.raw.writableBytes ↔ data.length ≤ b.writableBytes := by
    rw [UInt64.le_iff_toNat_le, hlen, hwritable]
  unfold RawBuffer.readFd readFd
  by_cases hshort : data.length ≤ b.writableBytes
  · rw [if_pos (hiff.mpr hshort), dif_pos hshort]
    obtain ⟨hstore, hsmall⟩ := store_raw h hshort
    exact ⟨congrArg some hstore, hsmall⟩
  · obtain ⟨htake, hfill, hsmall, hfits⟩ := Spills.fill_raw ⟨not_le.mp hshort, hdata, hroom⟩ h
    rw [if_neg (mt hiff.mp hshort), dif_neg hshort, hwritable, hfill]
    exact append_raw hsmall hfits

end Buffer
end TermChat
