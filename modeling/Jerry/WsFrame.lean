/-
RFC 6455 frames as `WsFrameFormat.h` draws them: what a sequence of bytes says,
read from the layout alone.
-/
import Jerry.ByteOrder
import Mathlib.Algebra.GroupWithZero.Nat

namespace Jerry

open ByteOrder

/-- `WsFrameType`: the values of a four-bit opcode, six of them with names. -/
structure WsFrameType where
  value : Fin 16
deriving DecidableEq, Repr

namespace WsFrameType

def kContinue : WsFrameType := ⟨0⟩
def kText : WsFrameType := ⟨1⟩
def kBinary : WsFrameType := ⟨2⟩
def kClose : WsFrameType := ⟨8⟩
def kPing : WsFrameType := ⟨9⟩
def kPong : WsFrameType := ⟨10⟩

end WsFrameType

instance neZero_16 : NeZero (16 : Nat) := ⟨by decide⟩

instance neZero_128 : NeZero (128 : Nat) := ⟨by decide⟩

/-- The bit fields of the first two bytes, `ws_base_head` without the key. -/
structure WsBaseHead where
  fin : Bool
  rsv1 : Bool
  rsv2 : Bool
  rsv3 : Bool
  opcode : Fin 16
  mask : Bool
  payloadLength : Fin 128
deriving DecidableEq, Repr

namespace WsBaseHead

/-- Bit fields are laid out from the least significant bit. -/
def byte₀ (head : WsBaseHead) : UInt8 :=
  UInt8.ofNat (head.opcode + 16 * head.rsv3.toNat + 32 * head.rsv2.toNat +
    64 * head.rsv1.toNat + 128 * head.fin.toNat)

def byte₁ (head : WsBaseHead) : UInt8 :=
  UInt8.ofNat (head.payloadLength + 128 * head.mask.toNat)

def toBytes (head : WsBaseHead) : List UInt8 :=
  [head.byte₀, head.byte₁]

def ofBytes (b₀ b₁ : UInt8) : WsBaseHead :=
  { fin := b₀.toNat.testBit 7
    rsv1 := b₀.toNat.testBit 6
    rsv2 := b₀.toNat.testBit 5
    rsv3 := b₀.toNat.testBit 4
    opcode := Fin.ofNat 16 b₀.toNat
    mask := b₁.toNat.testBit 7
    payloadLength := Fin.ofNat 128 b₁.toNat }

/-- The bit fields survive the two bytes. -/
theorem ofBytes_byte (head : WsBaseHead) :
    ofBytes head.byte₀ head.byte₁ = head := by
  obtain ⟨fin, rsv1, rsv2, rsv3, opcode, mask, payloadLength⟩ := head
  have hfirst : ∀ (fin rsv1 rsv2 rsv3 : Bool) (opcode : Fin 16),
      let b := UInt8.ofNat (opcode + 16 * rsv3.toNat + 32 * rsv2.toNat +
        64 * rsv1.toNat + 128 * fin.toNat)
      b.toNat.testBit 7 = fin ∧ b.toNat.testBit 6 = rsv1 ∧
        b.toNat.testBit 5 = rsv2 ∧ b.toNat.testBit 4 = rsv3 ∧
        Fin.ofNat 16 b.toNat = opcode := by
    decide +kernel
  have hsecond : ∀ (mask : Bool) (payloadLength : Fin 128),
      let b := UInt8.ofNat (payloadLength + 128 * mask.toNat)
      b.toNat.testBit 7 = mask ∧ Fin.ofNat 128 b.toNat = payloadLength := by
    decide +kernel
  obtain ⟨h7, h6, h5, h4, h0⟩ := hfirst fin rsv1 rsv2 rsv3 opcode
  obtain ⟨hmask, hlength⟩ := hsecond mask payloadLength
  simp only [ofBytes, byte₀, byte₁, h7, h6, h5, h4, h0, hmask, hlength]

end WsBaseHead

/-- One frame: the flags, the type, the key if it is masked and the payload. -/
structure WsFrame where
  fin : Bool
  rsv1 : Bool
  rsv2 : Bool
  rsv3 : Bool
  type : WsFrameType
  maskKey : Option (List UInt8)
  payload : List UInt8
deriving DecidableEq, Repr

namespace WsFrame

/-- The first `n` bytes and the rest, if there are that many. -/
def takeBytes (n : Nat) (bytes : List UInt8) : Option (List UInt8 × List UInt8) :=
  if n ≤ bytes.length then some (bytes.take n, bytes.drop n) else none

/-- The payload length: seven bits, or 126 and two bytes, or 127 and eight, in
network byte order. -/
def parseLength (len : Fin 128) (bytes : List UInt8) :
    Option (Nat × List UInt8) :=
  if len < 126 then some (len, bytes)
  else if len = 126 then
    (takeBytes 2 bytes).map fun r => (ofBe r.1, r.2)
  else (takeBytes 8 bytes).map fun r => (ofBe r.1, r.2)

/-- Byte `i` of a payload is combined with byte `i % 4` of the key. -/
def unmask (key : List UInt8) (i : Nat) : List UInt8 → List UInt8
  | [] => []
  | b :: bs => (b ^^^ key.getD (i % 4) 0) :: unmask key (i + 1) bs

/-- One frame and the bytes behind it. -/
def parse : List UInt8 → Option (WsFrame × List UInt8)
  | b₀ :: b₁ :: rest =>
      let head := WsBaseHead.ofBytes b₀ b₁
      match parseLength head.payloadLength rest with
      | none => none
      | some (length, rest) =>
          match (if head.mask then (takeBytes 4 rest).map (Prod.map some id)
            else some (none, rest)) with
          | none => none
          | some (key, rest) =>
              (takeBytes length rest).map fun r =>
                ({ fin := head.fin
                   rsv1 := head.rsv1
                   rsv2 := head.rsv2
                   rsv3 := head.rsv3
                   type := ⟨head.opcode⟩
                   maskKey := key
                   payload := match key with
                     | none => r.1
                     | some key => unmask key 0 r.1 }, r.2)
  | _ => none

theorem takeBytes_append (xs ys : List UInt8) :
    takeBytes xs.length (xs ++ ys) = some (xs, ys) := by
  rw [takeBytes, if_pos (by rw [List.length_append]; omega), List.take_left,
    List.drop_left]

/-- An unmasked frame is its length and that many bytes. -/
theorem parse_unmasked (head : WsBaseHead) (hmask : head.mask = false)
    (bytes : List UInt8) :
    parse (head.toBytes ++ bytes) =
      (parseLength head.payloadLength bytes).bind fun l =>
        (takeBytes l.1 l.2).map fun r =>
          ({ fin := head.fin
             rsv1 := head.rsv1
             rsv2 := head.rsv2
             rsv3 := head.rsv3
             type := ⟨head.opcode⟩
             maskKey := none
             payload := r.1 }, r.2) := by
  change parse (head.byte₀ :: head.byte₁ :: bytes) = _
  rw [parse, WsBaseHead.ofBytes_byte]
  cases hlength : parseLength head.payloadLength bytes with
  | none => simp
  | some l => simp [hmask]

section Append

variable {n : Nat} {bytes : List UInt8}

/-- What has come is not read differently when more comes. -/
theorem takeBytes_append_more {r : List UInt8 × List UInt8}
    (h : takeBytes n bytes = some r) (more : List UInt8) :
    takeBytes n (bytes ++ more) = some (r.1, r.2 ++ more) := by
  rw [takeBytes] at h
  split at h
  · rename_i hle
    cases h
    have hle' : n ≤ (bytes ++ more).length :=
      Nat.le_trans hle (List.prefix_append _ _).length_le
    rw [takeBytes, if_pos hle', List.take_append_of_le_length hle,
      List.drop_append_of_le_length hle]
  · cases h

theorem parseLength_append_more {len : Fin 128} {r : Nat × List UInt8}
    (h : parseLength len bytes = some r) (more : List UInt8) :
    parseLength len (bytes ++ more) = some (r.1, r.2 ++ more) := by
  have hext (k : Nat) (hk : (takeBytes k bytes).map
      (fun r => (ofBe r.1, r.2)) = some r) :
      (takeBytes k (bytes ++ more)).map (fun r => (ofBe r.1, r.2)) =
        some (r.1, r.2 ++ more) := by
    obtain ⟨taken, htaken, rfl⟩ := Option.map_eq_some_iff.mp hk
    rw [takeBytes_append_more htaken, Option.map_some]
  rw [parseLength] at h ⊢
  split
  · rename_i hshort
    rw [if_pos hshort] at h
    cases h
    rfl
  · rename_i hlong
    rw [if_neg hlong] at h
    split
    · rename_i htwo
      rw [if_pos htwo] at h
      exact hext 2 h
    · rename_i height
      rw [if_neg height] at h
      exact hext 8 h

theorem key_append_more {mask : Bool} {r : Option (List UInt8) × List UInt8}
    (h : (if mask then (takeBytes 4 bytes).map (Prod.map some id)
      else some (none, bytes)) = some r) (more : List UInt8) :
    (if mask then (takeBytes 4 (bytes ++ more)).map (Prod.map some id)
      else some (none, bytes ++ more)) = some (r.1, r.2 ++ more) := by
  cases mask with
  | false =>
      cases h
      rfl
  | true =>
      obtain ⟨taken, htaken, rfl⟩ := Option.map_eq_some_iff.mp h
      rw [if_pos rfl, takeBytes_append_more htaken]
      rfl

/-- A frame that has come whole is read, whatever comes behind it. -/
theorem parse_append_more {f : WsFrame} {rest : List UInt8}
    (h : parse bytes = some (f, rest)) (more : List UInt8) :
    parse (bytes ++ more) = some (f, rest ++ more) := by
  obtain ⟨b₀, b₁, bytes, rfl⟩ : ∃ b₀ b₁ bytes', bytes = b₀ :: b₁ :: bytes' := by
    cases bytes with
    | nil => cases h
    | cons b₀ bytes =>
        cases bytes with
        | nil => cases h
        | cons b₁ bytes => exact ⟨b₀, b₁, bytes, rfl⟩
  rw [List.cons_append, List.cons_append]
  rw [parse] at h ⊢
  cases hlength : parseLength (WsBaseHead.ofBytes b₀ b₁).payloadLength bytes with
  | none =>
      simp only [hlength] at h
      cases h
  | some l =>
      obtain ⟨length, bytes₁⟩ := l
      simp only [hlength] at h
      simp only [parseLength_append_more hlength more]
      cases hkey : (if (WsBaseHead.ofBytes b₀ b₁).mask then
          (takeBytes 4 bytes₁).map (Prod.map some id) else some (none, bytes₁)) with
      | none =>
          simp only [hkey] at h
          cases h
      | some k =>
          obtain ⟨key, bytes₂⟩ := k
          simp only [hkey] at h
          simp only [key_append_more hkey more]
          obtain ⟨taken, htaken, heq⟩ := Option.map_eq_some_iff.mp h
          cases heq
          rw [takeBytes_append_more htaken, Option.map_some]

end Append

end WsFrame

end Jerry
