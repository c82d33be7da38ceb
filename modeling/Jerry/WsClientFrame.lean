/-
Frames as clients send them: masked, and with any of the three forms of the
payload length that holds it.
-/
import Jerry.WebsocketCodec

namespace Jerry

open ByteOrder

namespace WsFrame

/-- Masking twice gives the payload back. -/
theorem unmask_unmask (key : List UInt8) (i : Nat) (bs : List UInt8) :
    unmask key i (unmask key i bs) = bs := by
  induction bs generalizing i with
  | nil => rfl
  | cons b bs ih =>
      rw [unmask, unmask, ih, UInt8.xor_assoc, UInt8.xor_self, UInt8.xor_zero]

@[simp] theorem unmask_length (key : List UInt8) (i : Nat) (bs : List UInt8) :
    (unmask key i bs).length = bs.length := by
  induction bs generalizing i with
  | nil => rfl
  | cons b bs ih => rw [unmask, List.length_cons, ih, List.length_cons]

theorem unmask_append (key : List UInt8) (i : Nat) (xs ys : List UInt8) :
    unmask key i (xs ++ ys) =
      unmask key i xs ++ unmask key (i + xs.length) ys := by
  induction xs generalizing i with
  | nil => rfl
  | cons x xs ih =>
      have hsucc : i + 1 + xs.length = i + (x :: xs).length := by
        rw [List.length_cons, Nat.add_right_comm, Nat.add_assoc]
      rw [List.cons_append, unmask, ih, hsucc]
      rfl

/-- `DecodePayload` counts from the beginning of the segment and adds the index
where the payload went on. -/
theorem mapIdx_eq_unmask (key : List UInt8) (k : Nat) (bs : List UInt8) :
    bs.mapIdx (fun i b => b ^^^ key.getD ((i + k) % 4) 0) =
      unmask key k bs := by
  induction bs generalizing k with
  | nil => rfl
  | cons b bs ih =>
      rw [List.mapIdx_cons, unmask, Nat.zero_add, ← ih]
      simp only [Nat.add_right_comm _ 1 k, Nat.add_assoc]

end WsFrame

/-- Seven, sixteen or sixty-four bits. -/
inductive LengthForm where
  | short | extended126 | extended127
deriving DecidableEq, Repr

namespace LengthForm

/-- The lengths a form can hold are the ones below. -/
def bound : LengthForm → Nat
  | .short => 126
  | .extended126 => 2 ^ 16
  | .extended127 => 2 ^ 64

/-- The seven bits of the base head. -/
def field (n : Nat) : LengthForm → Fin 128
  | .short => Fin.ofNat 128 n
  | .extended126 => 126
  | .extended127 => 127

/-- The bytes between the base head and the key. -/
def extended (n : Nat) : LengthForm → List UInt8
  | .short => []
  | .extended126 => beBytes 2 n
  | .extended127 => beBytes 8 n

theorem field_short {n : Nat} (hn : n < 126) :
    (field n .short).val = n ∧ field n .short < 126 := by
  have hval : (Fin.ofNat 128 n).val = n := Nat.mod_eq_of_lt (by omega)
  refine ⟨hval, ?_⟩
  rw [Fin.lt_def]
  exact hval.symm ▸ hn

theorem extended_length (form : LengthForm) {n : Nat} (hn : n < form.bound) :
    (form.extended n).length = WebsocketCodec.extendedLength (form.field n) := by
  cases form with
  | short => simp [extended, WebsocketCodec.extendedLength, field_short hn]
  | extended126 => rfl
  | extended127 => rfl

/-- What a form holds is read back from it. -/
theorem read_eq (form : LengthForm) {n : Nat} (hn : n < form.bound) :
    (if form.field n < 126 then (form.field n).val
      else ofBe (form.extended n)) = n := by
  cases form with
  | short => rw [if_pos (field_short hn).2, (field_short hn).1]
  | extended126 => exact ofBe_beBytes hn
  | extended127 => exact ofBe_beBytes hn

end LengthForm

/-- A frame a client may send any time after the handshake. -/
structure ClientFrame where
  fin : Bool
  rsv1 : Bool
  rsv2 : Bool
  rsv3 : Bool
  type : WsFrameType
  form : LengthForm
  key : List UInt8
  payload : List UInt8
  type_ne : type ≠ .kClose
  key_length : key.length = 4
  fits : payload.length < form.bound

namespace ClientFrame

variable (f : ClientFrame)

def baseHead : WsBaseHead :=
  { fin := f.fin
    rsv1 := f.rsv1
    rsv2 := f.rsv2
    rsv3 := f.rsv3
    opcode := f.type.value
    mask := true
    payloadLength := f.form.field f.payload.length }

/-- Everything in front of the payload. -/
def head : List UInt8 :=
  f.baseHead.toBytes ++ (f.form.extended f.payload.length ++ f.key)

def masked : List UInt8 :=
  WsFrame.unmask f.key 0 f.payload

/-- The bytes of the frame. -/
def wire : List UInt8 :=
  f.head ++ f.masked

/-- The bytes of the frame once its payload is unmasked in place. -/
def plain : List UInt8 :=
  f.head ++ f.payload

@[simp] theorem masked_length : f.masked.length = f.payload.length :=
  WsFrame.unmask_length _ _ _

@[simp] theorem wire_length :
    f.wire.length = f.head.length + f.payload.length := by
  rw [wire, List.length_append, masked_length]

theorem head_length :
    f.head.length =
      2 + WebsocketCodec.extendedLength f.baseHead.payloadLength + 4 := by
  rw [head, List.length_append, List.length_append, f.key_length,
    f.form.extended_length f.fits, Nat.add_assoc]
  rfl

/-- The rest of a masked payload, unmasked from where it begins. -/
theorem unmask_masked_drop (k : Nat) :
    WsFrame.unmask f.key k (f.masked.drop k) = f.payload.drop k := by
  have hwhole := WsFrame.unmask_unmask f.key 0 f.payload
  rcases Nat.lt_or_ge f.payload.length k with hover | hle
  · rw [List.drop_of_length_le (by rw [masked_length]; omega),
      List.drop_of_length_le (Nat.le_of_lt hover)]
    rfl
  · have htake : (f.masked.take k).length = k := by
      rw [List.length_take, masked_length, Nat.min_eq_left hle]
    change WsFrame.unmask f.key 0 f.masked = f.payload at hwhole
    rw [← List.take_append_drop k f.masked, WsFrame.unmask_append, htake,
      Nat.zero_add] at hwhole
    rw [← hwhole, List.drop_left' (by rw [WsFrame.unmask_length, htake])]

/-- The length is read from the base head and the bytes behind it. -/
theorem payloadLength_eq :
    (if f.baseHead.payloadLength < 126 then f.baseHead.payloadLength.val
      else ofBe (f.form.extended f.payload.length)) = f.payload.length :=
  f.form.read_eq f.fits

/-- All the bytes of some frames. -/
def wires (frames : List ClientFrame) : List UInt8 :=
  frames.flatMap wire

/-- The same bytes with the payloads unmasked in place. -/
def plains (frames : List ClientFrame) : List UInt8 :=
  frames.flatMap plain

theorem wires_cons (frames : List ClientFrame) :
    wires (f :: frames) = f.head ++ (f.masked ++ wires frames) := by
  rw [wires, List.flatMap_cons, wire, List.append_assoc]
  rfl

theorem plains_cons (frames : List ClientFrame) :
    plains (f :: frames) = f.head ++ (f.payload ++ plains frames) := by
  rw [plains, List.flatMap_cons, plain, List.append_assoc]
  rfl

end ClientFrame

end Jerry
