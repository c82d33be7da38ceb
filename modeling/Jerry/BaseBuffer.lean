/-
`net/BaseBuffer`: one vector of bytes with a read cursor and a write cursor.
Cursors are offsets from the start of the vector, every byte of the vector is
modelled, the dropped ones in front and the unused ones behind included.
-/
import Jerry.Window
import Mathlib.Algebra.Group.Int.Defs
import Mathlib.Algebra.Group.Nat.Defs

namespace Jerry

/-- The vector and its two iterators. -/
structure BaseBuffer where
  buffer : List UInt8
  readIdx : Nat
  writeIdx : Nat
deriving DecidableEq, Repr

/-- What `readv` and `SSL_read` report: the bytes they stored (none of them
when the peer has closed), or a failure. -/
inductive ReadResult where
  | stored (data : List UInt8)
  | failed
deriving DecidableEq, Repr

/-- What `write` and `SSL_write` report: how many bytes they took, or a
failure. -/
inductive WriteResult where
  | wrote (n : Nat)
  | failed
deriving DecidableEq, Repr

/-- The number the call returns. -/
def ReadResult.toInt : ReadResult → Int
  | .stored data => data.length
  | .failed => -1

def WriteResult.toInt : WriteResult → Int
  | .wrote n => n
  | .failed => -1

namespace BaseBuffer

open Window

/-- `0 ≤ read_idx ≤ write_idx ≤ buffer.size()`. -/
structure Valid (b : BaseBuffer) : Prop where
  read_le_write : b.readIdx ≤ b.writeIdx
  write_le_size : b.writeIdx ≤ b.buffer.length

instance (b : BaseBuffer) : Decidable b.Valid :=
  decidable_of_iff (b.readIdx ≤ b.writeIdx ∧ b.writeIdx ≤ b.buffer.length)
    ⟨fun h => ⟨h.1, h.2⟩, fun h => ⟨h.1, h.2⟩⟩

/-- The constructor. -/
def ofSize (initSize : Nat) : BaseBuffer :=
  ⟨List.replicate initSize 0, 0, 0⟩

def readableBytes (b : BaseBuffer) : Nat :=
  b.writeIdx - b.readIdx

def writableBytes (b : BaseBuffer) : Nat :=
  b.buffer.length - b.writeIdx

/-- The readable window `[BeginOfReadable, EndOfReadable)`. -/
def toStringView (b : BaseBuffer) : List UInt8 :=
  slice b.buffer b.readIdx b.writeIdx

/-- What memory holds from `BeginOfReadable` to the end of the vector. -/
def memory (b : BaseBuffer) : List UInt8 :=
  b.buffer.drop b.readIdx

/-- The bytes of the vector behind the readable window. -/
def deadBytes (b : BaseBuffer) : List UInt8 :=
  b.buffer.drop b.writeIdx

def dropAllBytes (b : BaseBuffer) : BaseBuffer :=
  { b with readIdx := 0, writeIdx := 0 }

def dropBytes (b : BaseBuffer) (n : Nat) : BaseBuffer :=
  if n ≥ b.readableBytes then b.dropAllBytes
  else { b with readIdx := b.readIdx + n }

/-- `while (read_idx != pos) read_idx += 1`, watched for `fuel` rounds. -/
def dropBytesUntilLoop (pos : Nat) : Nat → BaseBuffer → Option BaseBuffer
  | 0, b => if b.readIdx = pos then some b else none
  | fuel + 1, b =>
      if b.readIdx = pos then some b
      else dropBytesUntilLoop pos fuel { b with readIdx := b.readIdx + 1 }

/-- `none` is a loop that runs past `pos` and never meets it. -/
def dropBytesUntil (b : BaseBuffer) (pos : Nat) : Option BaseBuffer :=
  dropBytesUntilLoop pos (pos - b.readIdx) b

def release (_ : BaseBuffer) : BaseBuffer :=
  ⟨[], 0, 0⟩

/-- Room for `len` more bytes: as it is, after moving the data to the front, or
after growing the vector.  `buffer.size() * 1.5` is rounded down. -/
def ensureWritableSpace (b : BaseBuffer) (len : Nat) : BaseBuffer :=
  if b.writableBytes ≥ len then b
  else
    let freeSpace := b.readIdx
    if freeSpace + b.writableBytes ≥ len then
      { buffer := overwrite b.buffer 0 b.toStringView
        readIdx := 0
        writeIdx := b.writeIdx - freeSpace }
    else
      let newSize := max (b.buffer.length + len) (b.buffer.length * 3 / 2)
      { b with
        buffer := b.buffer ++ List.replicate (newSize - b.buffer.length) 0 }

def append (b : BaseBuffer) (data : List UInt8) : BaseBuffer :=
  if data.length = 0 then b
  else
    let b := b.ensureWritableSpace data.length
    { b with
      buffer := overwrite b.buffer b.writeIdx data
      writeIdx := b.writeIdx + data.length }

/-- `sizeof(extra_buffer)`. -/
def extraBufferSize : Nat := 65535

/-- How many bytes the `iovec`s passed to `readv` can take. -/
def iovecBytes (b : BaseBuffer) : Nat :=
  if b.writableBytes < extraBufferSize then b.writableBytes + extraBufferSize
  else b.writableBytes

/-- `readv` fills the unused part of the vector first and `extra_buffer` with
the rest. -/
def readBytesFromFd (b : BaseBuffer) (r : ReadResult) : BaseBuffer × Int :=
  match r with
  | .failed => (b, r.toInt)
  | .stored data =>
      let writable := b.writableBytes
      let filled := { b with
        buffer := overwrite b.buffer b.writeIdx (data.take writable) }
      if data.length ≤ writable then
        ({ filled with writeIdx := b.writeIdx + data.length }, r.toInt)
      else
        (({ filled with writeIdx := b.buffer.length }).append
          (data.drop writable), r.toInt)

/-- The conversion of a 64-bit result to `int`. -/
def toInt32 (n : Int) : Int :=
  n.bmod (2 ^ 32)

def writeBytesToFd (b : BaseBuffer) (w : WriteResult) : BaseBuffer × Int :=
  let n := toInt32 w.toInt
  (if n > 0 then b.dropBytes n.toNat else b, n)

/-- The space `ReadBytesFromSsl` asks for before it reads. -/
def sslReserve : Nat := 1024

def readBytesFromSsl (b : BaseBuffer) (r : ReadResult) : BaseBuffer × Int :=
  let b := b.ensureWritableSpace sslReserve
  match r with
  | .failed => (b, r.toInt)
  | .stored data =>
      ({ b with
          buffer := overwrite b.buffer b.writeIdx data
          writeIdx := b.writeIdx + data.length }, r.toInt)

/-- `SSL_write` returns an `int` itself. -/
def writeBytesToSsl (b : BaseBuffer) (w : WriteResult) : BaseBuffer × Int :=
  let n := w.toInt
  (if n > 0 then b.dropBytes n.toNat else b, n)

section Window

variable {b : BaseBuffer}

theorem ofSize_valid (initSize : Nat) : (ofSize initSize).Valid :=
  ⟨Nat.le_refl _, Nat.zero_le _⟩

@[simp] theorem ofSize_toStringView (initSize : Nat) :
    (ofSize initSize).toStringView = [] := by
  simp [ofSize, toStringView]

theorem toStringView_length (hb : b.Valid) :
    b.toStringView.length = b.readableBytes :=
  slice_length hb.write_le_size

/-- Memory behind `BeginOfReadable` is the readable window and the dead bytes. -/
theorem memory_eq (hb : b.Valid) :
    b.memory = b.toStringView ++ b.deadBytes :=
  drop_eq_slice_append hb.read_le_write

theorem dropAllBytes_valid (b : BaseBuffer) : b.dropAllBytes.Valid :=
  ⟨Nat.le_refl _, Nat.zero_le _⟩

@[simp] theorem dropAllBytes_toStringView (b : BaseBuffer) :
    b.dropAllBytes.toStringView = [] := by
  simp [dropAllBytes, toStringView]

theorem dropBytes_valid (hb : b.Valid) (n : Nat) : (b.dropBytes n).Valid := by
  unfold dropBytes
  split
  · exact b.dropAllBytes_valid
  · rename_i hn
    have hread := hb.read_le_write
    simp only [readableBytes, ge_iff_le, Nat.not_le] at hn
    exact ⟨by simp only; omega, hb.write_le_size⟩

theorem dropBytes_toStringView (hb : b.Valid) (n : Nat) :
    (b.dropBytes n).toStringView = b.toStringView.drop n := by
  unfold dropBytes
  split
  · rename_i hn
    rw [dropAllBytes_toStringView, List.drop_of_length_le]
    rwa [toStringView_length hb]
  · exact slice_add _ _ _ _

theorem dropBytesUntilLoop_eq {pos fuel : Nat} (hpos : b.readIdx ≤ pos)
    (hfuel : pos - b.readIdx ≤ fuel) :
    dropBytesUntilLoop pos fuel b = some { b with readIdx := pos } := by
  induction fuel generalizing b with
  | zero =>
      have heq : b.readIdx = pos := by omega
      subst heq
      simp [dropBytesUntilLoop]
  | succ fuel ih =>
      by_cases heq : b.readIdx = pos
      · subst heq
        simp [dropBytesUntilLoop]
      · simp only [dropBytesUntilLoop, heq, if_false]
        exact ih (b := { b with readIdx := b.readIdx + 1 })
          (by simp only; omega) (by simp only; omega)

/-- A position behind the read cursor is reached. -/
theorem dropBytesUntil_eq {pos : Nat} (hpos : b.readIdx ≤ pos) :
    b.dropBytesUntil pos = some { b with readIdx := pos } :=
  dropBytesUntilLoop_eq hpos (Nat.le_refl _)

theorem release_valid (b : BaseBuffer) : b.release.Valid :=
  ⟨Nat.le_refl _, Nat.le_refl _⟩

@[simp] theorem release_toStringView (b : BaseBuffer) :
    b.release.toStringView = [] := by
  simp [release, toStringView]

end Window

section Space

variable {b : BaseBuffer}

/-- What `EnsureWritableSpace` can do: nothing, move the data to the front, or
grow the vector. -/
theorem ensureWritableSpace_cases (b : BaseBuffer) (len : Nat) :
    (len ≤ b.writableBytes ∧ b.ensureWritableSpace len = b) ∨
    (len ≤ b.readIdx + b.writableBytes ∧
      b.ensureWritableSpace len =
        ⟨overwrite b.buffer 0 b.toStringView, 0, b.writeIdx - b.readIdx⟩) ∨
    (b.readIdx + b.writableBytes < len ∧
      b.ensureWritableSpace len =
        ⟨b.buffer ++ List.replicate
            (max (b.buffer.length + len) (b.buffer.length * 3 / 2) -
              b.buffer.length) 0, b.readIdx, b.writeIdx⟩) := by
  by_cases hfits : len ≤ b.writableBytes
  · exact Or.inl ⟨hfits, by simp [ensureWritableSpace, hfits]⟩
  · by_cases hfree : len ≤ b.readIdx + b.writableBytes
    · exact Or.inr (Or.inl ⟨hfree, by simp [ensureWritableSpace, hfits, hfree]⟩)
    · exact Or.inr (Or.inr ⟨Nat.lt_of_not_le hfree,
        by simp [ensureWritableSpace, hfits, hfree]⟩)

theorem ensureWritableSpace_valid (hb : b.Valid) (len : Nat) :
    (b.ensureWritableSpace len).Valid := by
  have hread := hb.read_le_write
  have hwrite := hb.write_le_size
  rcases ensureWritableSpace_cases b len with
    ⟨_, heq⟩ | ⟨_, heq⟩ | ⟨_, heq⟩ <;> rw [heq]
  · exact hb
  · refine ⟨Nat.zero_le _, ?_⟩
    simp only [overwrite_length]
    omega
  · refine ⟨hread, ?_⟩
    simp only [List.length_append]
    omega

theorem ensureWritableSpace_toStringView (hb : b.Valid) (len : Nat) :
    (b.ensureWritableSpace len).toStringView = b.toStringView := by
  have hwrite := hb.write_le_size
  rcases ensureWritableSpace_cases b len with
    ⟨_, heq⟩ | ⟨_, heq⟩ | ⟨_, heq⟩ <;> rw [heq]
  · have hview := toStringView_length hb
    simp only [readableBytes] at hview
    have hend : slice (overwrite b.buffer 0 b.toStringView) 0
        (0 + b.toStringView.length) = slice b.buffer 0 0 ++ b.toStringView :=
      slice_overwrite_end (Nat.le_refl _) (by omega)
    rwa [Nat.zero_add, hview, slice_self, List.nil_append] at hend
  · exact slice_append_left hb.write_le_size

/-- Every path ends with enough room. -/
theorem le_ensureWritableSpace_writableBytes (hb : b.Valid) (len : Nat) :
    len ≤ (b.ensureWritableSpace len).writableBytes := by
  have hread := hb.read_le_write
  have hwrite := hb.write_le_size
  rcases ensureWritableSpace_cases b len with
    ⟨hle, heq⟩ | ⟨hle, heq⟩ | ⟨hlt, heq⟩ <;> rw [heq]
  · exact hle
  · simp only [writableBytes, overwrite_length] at hle ⊢
    omega
  · simp only [writableBytes, List.length_append, List.length_replicate]
    omega

/-- Bytes written at the write cursor, with room for them, join the readable
window at its end. -/
theorem overwrite_writeIdx_toStringView (hb : b.Valid) {data : List UInt8}
    (hroom : data.length ≤ b.writableBytes) :
    ({ b with
        buffer := overwrite b.buffer b.writeIdx data
        writeIdx := b.writeIdx + data.length } : BaseBuffer).toStringView =
      b.toStringView ++ data := by
  have hwrite := hb.write_le_size
  simp only [writableBytes] at hroom
  exact slice_overwrite_end hb.read_le_write (by omega)

theorem overwrite_writeIdx_valid (hb : b.Valid) {data : List UInt8}
    (hroom : data.length ≤ b.writableBytes) :
    ({ b with
        buffer := overwrite b.buffer b.writeIdx data
        writeIdx := b.writeIdx + data.length } : BaseBuffer).Valid := by
  have hread := hb.read_le_write
  have hwrite := hb.write_le_size
  simp only [writableBytes] at hroom
  refine ⟨by simp only; omega, ?_⟩
  simp only [overwrite_length]
  omega

theorem append_valid (hb : b.Valid) (data : List UInt8) :
    (b.append data).Valid := by
  unfold append
  split
  · exact hb
  · exact overwrite_writeIdx_valid (ensureWritableSpace_valid hb _)
      (le_ensureWritableSpace_writableBytes hb _)

theorem append_toStringView (hb : b.Valid) (data : List UInt8) :
    (b.append data).toStringView = b.toStringView ++ data := by
  unfold append
  split
  · rename_i hempty
    rw [List.length_eq_zero_iff.mp hempty, List.append_nil]
  · rw [overwrite_writeIdx_toStringView (ensureWritableSpace_valid hb _)
        (le_ensureWritableSpace_writableBytes hb _),
      ensureWritableSpace_toStringView hb]

end Space

section Transfer

variable {b : BaseBuffer}

theorem readBytesFromFd_valid (hb : b.Valid) (r : ReadResult) :
    (b.readBytesFromFd r).1.Valid := by
  have hread := hb.read_le_write
  have hwrite := hb.write_le_size
  cases r with
  | failed => exact hb
  | stored data =>
      simp only [readBytesFromFd]
      split
      · rename_i hfits
        simp only [writableBytes] at hfits
        exact ⟨by simp only; omega, by simp only [overwrite_length]; omega⟩
      · apply append_valid
        exact ⟨Nat.le_trans hread hwrite,
          Nat.le_of_eq (overwrite_length _ _ _).symm⟩

theorem readBytesFromFd_snd (b : BaseBuffer) (r : ReadResult) :
    (b.readBytesFromFd r).2 = r.toInt := by
  cases r with
  | failed => rfl
  | stored data =>
      simp only [readBytesFromFd]
      split <;> rfl

theorem readBytesFromSsl_snd (b : BaseBuffer) (r : ReadResult) :
    (b.readBytesFromSsl r).2 = r.toInt := by
  cases r <;> rfl

/-- The bytes the kernel delivered join the window in order, whether they fit
the vector or spill into `extra_buffer`. -/
theorem readBytesFromFd_stored_toStringView (hb : b.Valid)
    (data : List UInt8) :
    (b.readBytesFromFd (.stored data)).1.toStringView =
      b.toStringView ++ data := by
  have hread := hb.read_le_write
  have hwrite := hb.write_le_size
  simp only [readBytesFromFd]
  split
  · rename_i hfits
    rw [List.take_of_length_le hfits]
    exact overwrite_writeIdx_toStringView hb hfits
  · rename_i hspill
    have htake : (data.take b.writableBytes).length = b.writableBytes := by
      simp only [List.length_take]
      omega
    have hend : b.buffer.length =
        b.writeIdx + (data.take b.writableBytes).length := by
      rw [htake, writableBytes]
      omega
    have hfilled : ({ b with
        buffer := overwrite b.buffer b.writeIdx (data.take b.writableBytes)
        writeIdx := b.buffer.length } : BaseBuffer).Valid :=
      ⟨Nat.le_trans hread hwrite, Nat.le_of_eq (overwrite_length _ _ _).symm⟩
    rw [append_toStringView hfilled]
    simp only [hend]
    rw [overwrite_writeIdx_toStringView hb (Nat.le_of_eq htake),
      List.append_assoc, List.take_append_drop]

theorem writeBytesToFd_valid (hb : b.Valid) (w : WriteResult) :
    (b.writeBytesToFd w).1.Valid := by
  simp only [writeBytesToFd]
  split
  · exact dropBytes_valid hb _
  · exact hb

theorem writeBytesToSsl_valid (hb : b.Valid) (w : WriteResult) :
    (b.writeBytesToSsl w).1.Valid := by
  simp only [writeBytesToSsl]
  split
  · exact dropBytes_valid hb _
  · exact hb

/-- A count that fits `int` survives the conversion. -/
theorem toInt32_of_lt {n : Nat} (hn : n < 2 ^ 31) : toInt32 n = n := by
  unfold toInt32
  rw [Int.bmod_eq_of_le] <;> omega

theorem writeBytesToFd_wrote (b : BaseBuffer) {n : Nat} (hn : n < 2 ^ 31) :
    b.writeBytesToFd (.wrote n) =
      (if n > 0 then b.dropBytes n else b, (n : Int)) := by
  simp [writeBytesToFd, WriteResult.toInt, toInt32_of_lt hn]

@[simp] theorem writeBytesToFd_failed (b : BaseBuffer) :
    b.writeBytesToFd .failed = (b, -1) := by
  simp [writeBytesToFd, WriteResult.toInt, toInt32, Int.bmod]

theorem writeBytesToSsl_wrote (b : BaseBuffer) (n : Nat) :
    b.writeBytesToSsl (.wrote n) =
      (if n > 0 then b.dropBytes n else b, (n : Int)) := by
  simp [writeBytesToSsl, WriteResult.toInt]

@[simp] theorem writeBytesToSsl_failed (b : BaseBuffer) :
    b.writeBytesToSsl .failed = (b, -1) := by
  simp [writeBytesToSsl, WriteResult.toInt]

theorem readBytesFromSsl_valid (hb : b.Valid) {r : ReadResult}
    (hroom : ∀ data, r = .stored data →
      data.length ≤ (b.ensureWritableSpace sslReserve).writableBytes) :
    (b.readBytesFromSsl r).1.Valid := by
  have hspace := ensureWritableSpace_valid hb sslReserve
  cases r with
  | failed => exact hspace
  | stored data => exact overwrite_writeIdx_valid hspace (hroom data rfl)

theorem readBytesFromSsl_stored_toStringView (hb : b.Valid)
    {data : List UInt8}
    (hroom : data.length ≤ (b.ensureWritableSpace sslReserve).writableBytes) :
    (b.readBytesFromSsl (.stored data)).1.toStringView =
      b.toStringView ++ data := by
  have hspace := ensureWritableSpace_valid hb sslReserve
  simp only [readBytesFromSsl]
  rw [overwrite_writeIdx_toStringView hspace hroom,
    ensureWritableSpace_toStringView hb]

@[simp] theorem readBytesFromSsl_failed (b : BaseBuffer) :
    b.readBytesFromSsl .failed = (b.ensureWritableSpace sslReserve, -1) :=
  rfl

end Transfer

end BaseBuffer

end Jerry
