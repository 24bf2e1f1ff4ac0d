import TermChat.Base.Steps
import TermChat.Core.RawBuffer

/-! `Buffer` refines a queue of bytes. Compaction, growth and the spill of `read_fd` are not seen
by its users: what is readable is what came in and has not been consumed. It rests on sizes that
do not overflow and on appended bytes that do not lie in the vector. -/
namespace TermChat

/-- A call on a buffer, with what comes from outside: the bytes that `readv` delivers and the count
that `write` takes, `none` for an error. `retrieveUntil` has the distance of its end from `peek()`. -/
inductive BufferCall where
  | append (data : Chunk)
  | ensureWritable (len : UInt64)
  | retrieve (len : ℕ)
  | retrieveUntil (offset : ℤ)
  | retrieveAll
  | retrieveAllToStr
  | readFd (data : Option Bytes)
  | writeFd (len : Option ℕ)

/-- A queue of bytes, and what was taken out of it for a reader, one piece for each call. -/
structure ByteQueue where
  bytes : Bytes
  outputs : List Bytes

namespace ByteQueue

def empty : ByteQueue := ⟨[], []⟩

def push (q : ByteQueue) (data : Bytes) : ByteQueue := { q with bytes := q.bytes ++ data }

def drop (q : ByteQueue) (n : ℕ) : ByteQueue := { q with bytes := q.bytes.drop n }

/-- The first `n` bytes are handed to a reader. -/
def pop (q : ByteQueue) (n : ℕ) : ByteQueue :=
  ⟨q.bytes.drop n, q.outputs ++ [q.bytes.take n]⟩

def call (q : ByteQueue) : BufferCall → ByteQueue
  | .append data => q.push data.bytes
  | .ensureWritable _ => q
  | .retrieve len => q.drop len
  | .retrieveUntil offset => q.drop offset.toNat
  | .retrieveAll => q.drop q.bytes.length
  | .retrieveAllToStr => q.pop q.bytes.length
  | .readFd none => q
  | .readFd (some data) => q.push data
  | .writeFd none => q
  | .writeFd (some n) => q.pop n

end ByteQueue

/-- A buffer with the pieces that `retrieve_all_to_str` and `write_fd` gave away. -/
structure Traffic where
  buffer : RawBuffer
  outputs : List Bytes

namespace Traffic
open Buffer

def init (size : ℕ) : Traffic := ⟨.init size, []⟩

/-- Callers stay inside the readable region, a pointer into the vector leads to the bytes it
stands for, and the kernel stays inside the segments it is given. -/
def Permits (t : Traffic) : BufferCall → Prop
  | .append data =>
    ∀ offset ∈ data.own, (t.buffer.buffer.drop offset).take data.bytes.length = data.bytes
  | .retrieve len => len ≤ t.buffer.readableBytes.toNat
  | .retrieveUntil offset => 0 ≤ offset ∧ offset.toNat ≤ t.buffer.readableBytes.toNat
  | .readFd (some data) => data.length ≤ t.buffer.writableBytes.toNat + extraBytes
  | .writeFd (some n) => n ≤ t.buffer.readableBytes.toNat
  | _ => True

/-- The vector stays below its `max_size()`, and no appended byte lies in it. -/
def Fits (t : Traffic) : BufferCall → Prop
  | .append data =>
    data.own = none ∧ t.buffer.writePos.toNat + data.bytes.length + 1 ≤ RawBuffer.maxSize
  | .ensureWritable len => t.buffer.writePos.toNat + len.toNat + 1 ≤ RawBuffer.maxSize
  | .readFd (some _) => t.buffer.buffer.length + extraBytes + 1 ≤ RawBuffer.maxSize
  | _ => True

instance (t : Traffic) (call : BufferCall) : Decidable (t.Permits call) := by
  unfold Permits
  split
  all_goals infer_instance

instance (t : Traffic) (call : BufferCall) : Decidable (t.Fits call) := by
  unfold Fits
  split
  all_goals infer_instance

/-- The assertion of `ensure_writable`, if it comes to it. -/
def AssertsWritable (b : RawBuffer) (len : UInt64) : Prop :=
  ∀ b' ∈ b.ensureWritable len, len ≤ b'.writableBytes

instance (b : RawBuffer) (len : UInt64) : Decidable (AssertsWritable b len) :=
  inferInstanceAs (Decidable (∀ b' ∈ b.ensureWritable len, len ≤ b'.writableBytes))

def spill (t : Traffic) (data : Bytes) : Bytes := data.drop t.buffer.writableBytes.toNat

/-- The assertions that a call evaluates: that of `ensure_writable`, which every append runs
through, and those of the two `retrieve`s. -/
def Asserts (t : Traffic) : BufferCall → Prop
  | .append data => AssertsWritable t.buffer (.ofNat data.bytes.length)
  | .ensureWritable len => AssertsWritable t.buffer len
  | .retrieve len => len ≤ t.buffer.readableBytes.toNat
  | .retrieveUntil offset => 0 ≤ offset ∧ offset.toNat ≤ t.buffer.readableBytes.toNat
  | .readFd (some data) => t.buffer.writableBytes < .ofNat data.length →
      AssertsWritable (t.buffer.fill data) (.ofNat (t.spill data).length)
  | _ => True

instance (t : Traffic) (call : BufferCall) : Decidable (t.Asserts call) := by
  unfold Asserts
  split
  all_goals infer_instance

def withBuffer (t : Traffic) (b : RawBuffer) : Traffic := { t with buffer := b }

/-- `none` when an assertion of a `retrieve` fails, when the vector throws, for a pointer that
dangles, or for an answer that the kernel cannot give. -/
def step (t : Traffic) : BufferCall → Option Traffic
  | .append data => (t.buffer.append data).map t.withBuffer
  | .ensureWritable len => (t.buffer.ensureWritable len).map t.withBuffer
  | .retrieve len =>
    if len ≤ t.buffer.readableBytes.toNat then some (t.withBuffer (t.buffer.retrieve (.ofNat len)))
    else none
  | .retrieveUntil offset =>
    if 0 ≤ offset ∧ offset.toNat ≤ t.buffer.readableBytes.toNat then
      some (t.withBuffer (t.buffer.retrieve (.ofNat offset.toNat)))
    else none
  | .retrieveAll => some (t.withBuffer t.buffer.retrieveAll)
  | .retrieveAllToStr => some ⟨t.buffer.retrieveAll, t.outputs ++ [t.buffer.readable]⟩
  | .readFd none => some t
  | .readFd (some data) =>
    if data.length ≤ t.buffer.writableBytes.toNat + extraBytes then
      (t.buffer.readFd data).map t.withBuffer
    else none
  | .writeFd none => some t
  | .writeFd (some n) =>
    if n ≤ t.buffer.readableBytes.toNat then
      some ⟨t.buffer.retrieve (.ofNat n), t.outputs ++ [t.buffer.readable.take n]⟩
    else none

def toQueue (t : Traffic) : ByteQueue := ⟨t.buffer.readable, t.outputs⟩

def Ordered (t : Traffic) : Prop := ∃ b : Buffer, b.Small ∧ t.buffer = b.raw

variable {t : Traffic} {b : Buffer} {call : BufferCall}

theorem toQueue_raw (h : b.Small) (outputs : List Bytes) :
    toQueue ⟨b.raw, outputs⟩ = ⟨b.readable, outputs⟩ := by
  rw [toQueue, readable_raw h]

theorem assertsWritable_raw (h : b.Small) {len : ℕ} (hfits : b.Fits len) :
    AssertsWritable b.raw (.ofNat len) := by
  intro b' hb'
  obtain ⟨hensure, hsmall⟩ := ensureWritable_raw h hfits
  obtain rfl := Option.some.inj (hb'.symm.trans hensure)
  rw [UInt64.le_iff_toNat_le, toNat_writableBytes hsmall, hfits.toNat]
  exact b.le_writableBytes_ensureWritable len

theorem refines_of_raw {outputs : List Bytes} {q : ByteQueue} (b' : Buffer) (outputs' : List Bytes)
    (hstep : step ⟨b.raw, outputs⟩ call = some ⟨b'.raw, outputs'⟩) (hsmall : b'.Small)
    (hq : (⟨b'.readable, outputs'⟩ : ByteQueue) = q.call call) :
    ∃ t', step ⟨b.raw, outputs⟩ call = some t' ∧ t'.Ordered ∧ t'.toQueue = q.call call :=
  ⟨_, hstep, ⟨b', hsmall, rfl⟩, (toQueue_raw hsmall _).trans hq⟩

/-- A call does to the readable region what it does to the queue. -/
theorem step_refines (h : t.Ordered) (hpermits : t.Permits call) (hfits : t.Fits call) :
    ∃ t', t.step call = some t' ∧ t'.Ordered ∧ t'.toQueue = t.toQueue.call call := by
  obtain ⟨b, hsmall, hb⟩ := h
  obtain ⟨raw, outputs⟩ := t
  obtain rfl : raw = b.raw := hb
  have hreadable := toNat_readableBytes hsmall
  have hwritable := toNat_writableBytes hsmall
  have hwrite := toNat_writePos hsmall
  rw [toQueue_raw hsmall]
  cases call with
  | append data =>
    obtain ⟨bytes, own⟩ := data
    obtain ⟨rfl, hroom⟩ := hfits
    rw [hwrite] at hroom
    obtain ⟨happend, hsmall'⟩ := append_raw hsmall hroom
    refine refines_of_raw _ _ (congrArg (Option.map _) happend) hsmall' ?_
    rw [readable_append]
    rfl
  | ensureWritable len =>
    have hroom : b.Fits len.toNat := by
      unfold Buffer.Fits
      rwa [← hwrite]
    obtain ⟨hensure, hsmall'⟩ := ensureWritable_raw hsmall hroom
    rw [UInt64.ofNat_toNat] at hensure
    refine refines_of_raw _ _ (congrArg (Option.map _) hensure) hsmall' ?_
    rw [readable_ensureWritable]
    rfl
  | retrieve len =>
    have hle : len ≤ b.readableBytes := hreadable ▸ hpermits
    refine refines_of_raw (b.retrieve len hle) outputs ?_ hsmall ?_
    · dsimp only [step, withBuffer]
      rw [hreadable, if_pos hle, retrieve_raw hle]
    · rw [readable_retrieve]
      rfl
  | retrieveUntil offset =>
    have hle : offset.toNat ≤ b.readableBytes := hreadable ▸ hpermits.2
    refine refines_of_raw (b.retrieve offset.toNat hle) outputs ?_ hsmall ?_
    · dsimp only [step, withBuffer]
      rw [hreadable, if_pos ⟨hpermits.1, hle⟩, retrieve_raw hle]
    · rw [readable_retrieve]
      rfl
  | retrieveAll =>
    refine refines_of_raw b.retrieveAll outputs rfl hsmall ?_
    simp [ByteQueue.call, ByteQueue.drop]
  | retrieveAllToStr =>
    refine refines_of_raw b.retrieveAll (outputs ++ [b.readable]) ?_ hsmall ?_
    · rw [step, readable_raw hsmall]
      rfl
    · simp [ByteQueue.call, ByteQueue.pop]
  | readFd data =>
    cases data with
    | none => exact ⟨_, rfl, ⟨b, hsmall, rfl⟩, toQueue_raw hsmall _⟩
    | some data =>
      have hle : data.length ≤ b.writableBytes + extraBytes := hwritable ▸ hpermits
      obtain ⟨hread, hsmall'⟩ := readFd_raw hsmall hle hfits
      refine refines_of_raw _ _ ((if_pos hpermits).trans (congrArg (Option.map _) hread)) hsmall' ?_
      rw [readable_readFd]
      rfl
  | writeFd len =>
    cases len with
    | none => exact ⟨_, rfl, ⟨b, hsmall, rfl⟩, toQueue_raw hsmall _⟩
    | some n =>
      have hle : n ≤ b.readableBytes := hreadable ▸ hpermits
      refine refines_of_raw (b.writeFd n hle) (outputs ++ [b.readable.take n]) ?_ hsmall ?_
      · dsimp only [step]
        rw [hreadable, if_pos hle, readable_raw hsmall, retrieve_raw hle]
        rfl
      · rw [readable_writeFd]
        rfl

theorem asserts_of_fits (h : t.Ordered) (hpermits : t.Permits call) (hfits : t.Fits call) :
    t.Asserts call := by
  obtain ⟨b, hsmall, hb⟩ := h
  obtain ⟨raw, outputs⟩ := t
  obtain rfl : raw = b.raw := hb
  have hwritable := toNat_writableBytes hsmall
  have hwrite := toNat_writePos hsmall
  cases call with
  | append data =>
    have hroom : b.Fits data.bytes.length := by
      unfold Buffer.Fits
      rw [← hwrite]
      exact hfits.2
    exact assertsWritable_raw hsmall hroom
  | ensureWritable len =>
    have hroom : b.Fits len.toNat := by
      unfold Buffer.Fits
      rwa [← hwrite]
    have hasserts := assertsWritable_raw hsmall hroom
    rwa [UInt64.ofNat_toNat] at hasserts
  | retrieve len => exact hpermits
  | retrieveUntil offset => exact hpermits
  | retrieveAll | retrieveAllToStr => trivial
  | readFd data =>
    cases data with
    | none => trivial
    | some data =>
      intro hlong
      have hle : data.length ≤ b.writableBytes + extraBytes := hwritable ▸ hpermits
      have hw : b.writableBytes = b.buffer.length - b.writePos := rfl
      have hlen : (UInt64.ofNat data.length).toNat = data.length :=
        toNat_ofNat_le (m := b.buffer.length + extraBytes + 1) (by omega) hfits
      rw [UInt64.lt_iff_toNat_lt, hlen, hwritable] at hlong
      obtain ⟨htake, hfill, hsmall', hroom⟩ := Spills.fill_raw ⟨hlong, hle, hfits⟩ hsmall
      have hasserts := assertsWritable_raw hsmall' hroom
      rw [← hfill, ← hwritable] at hasserts
      exact hasserts
  | writeFd len => cases len <;> trivial

private theorem small_init {size : ℕ} (hsize : size < 2 ^ 31) : (Buffer.init size).Small := by
  have hlen : (Buffer.init size).buffer.length = size := List.length_replicate
  have hmax : 2 ^ 31 ≤ RawBuffer.maxSize := by decide
  unfold Buffer.Small
  omega

theorem Ordered.positions (h : t.Ordered) :
    t.buffer.readPos ≤ t.buffer.writePos ∧ t.buffer.writePos.toNat ≤ t.buffer.buffer.length := by
  obtain ⟨b, hsmall, hb⟩ := h
  rw [hb, UInt64.le_iff_toNat_le, toNat_readPos hsmall, toNat_writePos hsmall]
  exact ⟨b.readPos_le, b.writePos_le⟩

/-- Whatever calls are made on a fresh buffer, inside the readable region, with sizes that fit, with
bytes from elsewhere and with any answers of the kernel: the positions stay in order, no assertion
fails, and the readable region and the pieces that were given away are those of the queue. -/
theorem buffer_refines_queue (size : ℕ) (hsize : size < 2 ^ 31) (calls : List BufferCall)
    (hcalls : Steps.Meets step (fun t call => t.Permits call ∧ t.Fits call) (init size) calls) :
    Steps.Meets step Asserts (init size) calls ∧
      ∃ t, Steps.run step (init size) calls = some t ∧
        t.buffer.readPos ≤ t.buffer.writePos ∧ t.buffer.writePos.toNat ≤ t.buffer.buffer.length ∧
        t.toQueue = calls.foldl ByteQueue.call .empty := by
  have hsmall := small_init hsize
  have hinit : (init size).Ordered := ⟨.init size, hsmall, rfl⟩
  constructor
  · refine Steps.meets_of_invariant (fun t call t' ht hC hstep => ?_) (fun t call ht hC => ?_) hinit hcalls
    · obtain ⟨u, hu, hordered, -⟩ := step_refines ht hC.1 hC.2
      exact Option.some.inj (hu.symm.trans hstep) ▸ hordered
    · exact asserts_of_fits ht hC.1 hC.2
  · have hempty : (init size).toQueue = .empty := by
      rw [ByteQueue.empty, ← readable_init size]
      exact toQueue_raw hsmall []
    obtain ⟨t, hrun, hordered, hqueue⟩ := Steps.simulates
      (R := fun t q => t.Ordered ∧ t.toQueue = q) (f := ByteQueue.call)
      (fun t q call ht hC => by
        obtain ⟨t', hstep, hordered, hqueue⟩ := step_refines ht.1 hC.1 hC.2
        exact ⟨t', hstep, hordered, ht.2 ▸ hqueue⟩) ⟨hinit, hempty⟩ hcalls
    exact ⟨t, hrun, hordered.positions.1, hordered.positions.2, hqueue⟩

/-- Growth, compaction, a spill over the end of the vector and a short write. -/
def shuffle : List BufferCall :=
  [.append ⟨[1, 2, 3], none⟩, .retrieve 2, .append ⟨[4, 5, 6], none⟩, .retrieveUntil 1, .readFd none,
    .readFd (some [7, 8, 9, 10, 11]), .writeFd (some 2), .writeFd none, .retrieveAllToStr]

theorem buffer_refines_queue_shuffle :
    ∃ t, Steps.run step (init 4) shuffle = some t ∧
      t.toQueue = ⟨[], [[4, 5], [6, 7, 8, 9, 10, 11]]⟩ := by
  obtain ⟨-, t, hrun, -, -, hqueue⟩ := buffer_refines_queue 4 (by decide) shuffle (by decide)
  exact ⟨t, hrun, hqueue⟩

/-- `b.append(b)` when the four readable bytes of `b` stand behind three consumed ones. -/
def appendsItself : List BufferCall :=
  [.append ⟨[1, 2, 3, 4, 5, 6, 7], none⟩, .retrieve 3, .append ⟨[4, 5, 6, 7], some 3⟩]

/-- `ensure_writable` of a size that `writePos_ + len + 1` takes around. -/
def asksTooMuch : List BufferCall :=
  [.append ⟨[1, 2], none⟩, .ensureWritable 0xFFFFFFFFFFFFFFFE]

/-- Compaction moves the bytes that are appended before they are read; and the vector is made
shorter than what is written in it, with the assertion of `ensure_writable` holding. -/
theorem buffer_loses_bytes :
    (Steps.Meets step Permits (init 8) appendsItself ∧
      (Steps.run step (init 8) appendsItself).map (fun t => t.toQueue.bytes) =
        some [4, 5, 6, 7, 7, 5, 6, 7] ∧
      (appendsItself.foldl ByteQueue.call .empty).bytes = [4, 5, 6, 7, 4, 5, 6, 7]) ∧
    Steps.Meets step Permits (init 4) asksTooMuch ∧
      Steps.Meets step Asserts (init 4) asksTooMuch ∧
      (Steps.run step (init 4) asksTooMuch).map
        (fun t => (t.buffer.writePos, t.buffer.buffer.length)) = some (2, 1) := by
  decide

end Traffic
end TermChat
