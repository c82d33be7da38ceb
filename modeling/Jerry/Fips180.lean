/-
SHA-1 as FIPS PUB 180-1 defines it: the padding of a message, the words of a
block and the eighty steps.
-/
import Jerry.BlockHash
import Jerry.ByteOrder

namespace Fips180

open BlockHash ByteOrder

/-- The chaining value and the word buffers. -/
structure Words where
  a : UInt32
  b : UInt32
  c : UInt32
  d : UInt32
  e : UInt32
deriving DecidableEq, Repr

/-- The digest is the five words, most significant byte first. -/
def Words.toBytes (h : Words) : List UInt8 :=
  [h.a, h.b, h.c, h.d, h.e].flatMap fun word => beBytes 4 word.toNat

def initial : Words :=
  ⟨0x67452301, 0xEFCDAB89, 0x98BADCFE, 0x10325476, 0xC3D2E1F0⟩

/-- The circular left shift. -/
def rotl (n : Nat) (word : UInt32) : UInt32 :=
  ⟨word.toBitVec.rotateLeft n⟩

def ch (b c d : UInt32) : UInt32 :=
  (b &&& c) ||| (~~~b &&& d)

def parity (b c d : UInt32) : UInt32 :=
  b ^^^ c ^^^ d

def maj (b c d : UInt32) : UInt32 :=
  (b &&& c) ||| (b &&& d) ||| (c &&& d)

/-- The function of step `t`. -/
def f (t : Nat) : UInt32 → UInt32 → UInt32 → UInt32 :=
  if t < 20 then ch else if t < 40 then parity else if t < 60 then maj else parity

/-- The constant of step `t`. -/
def k (t : Nat) : UInt32 :=
  if t < 20 then 0x5A827999
  else if t < 40 then 0x6ED9EBA1
  else if t < 60 then 0x8F1BBCDC
  else 0xCA62C1D6

/-- The word sequence of a block. -/
def w (block : List UInt8) (t : Nat) : UInt32 :=
  if t < 16 then UInt32.ofNat (ofBe ((block.drop (4 * t)).take 4))
  else rotl 1 (w block (t - 3) ^^^ w block (t - 8) ^^^ w block (t - 14) ^^^
    w block (t - 16))
termination_by t

def step (block : List UInt8) (t : Nat) (r : Words) : Words :=
  ⟨rotl 5 r.a + f t r.b r.c r.d + r.e + w block t + k t, r.a, rotl 30 r.b, r.c,
    r.d⟩

/-- The first `t` steps. -/
def steps (block : List UInt8) : Nat → Words → Words
  | 0, r => r
  | t + 1, r => step block t (steps block t r)

def compress (h : Words) (block : List UInt8) : Words :=
  let r := steps block 80 h
  ⟨h.a + r.a, h.b + r.b, h.c + r.c, h.d + r.d, h.e + r.e⟩

/-- The standard has no digest for a message of 2^64 bits or more. -/
def Fits (length : Nat) : Prop :=
  8 * length < 2 ^ 64

instance (length : Nat) : Decidable (Fits length) :=
  inferInstanceAs (Decidable (8 * length < 2 ^ 64))

/-- One bit, zeros, and the length in bits, up to the end of a block. -/
def padding (length : Nat) : List UInt8 :=
  0x80 :: List.replicate ((119 - length % 64) % 64) 0 ++ beBytes 8 (8 * length)

def sha1 (msg : List UInt8) : Words :=
  hashed compress 64 initial (msg ++ padding msg.length)

end Fips180
