/-
`3rdparty/crypto/sha1`: SHA-1 of input that comes in pieces.  What is not enough
for a block waits in `Message_Block`, behind it lies what is left of earlier
blocks.
-/
import Jerry.Fips180
import Jerry.Machine

namespace Jerry

open Fips180 ByteOrder

structure Sha1 where
  h : Words
  lengthLow : UInt32
  lengthHigh : UInt32
  messageBlock : Vector UInt8 64
  messageBlockIndex : Nat
  computed : Bool
  corrupted : Bool
deriving DecidableEq, Repr

namespace Sha1

def reset (s : Sha1) : Sha1 :=
  { s with
    h := ⟨0x67452301, 0xEFCDAB89, 0x98BADCFE, 0x10325476, 0xC3D2E1F0⟩
    lengthLow := 0
    lengthHigh := 0
    messageBlockIndex := 0
    computed := false
    corrupted := false }

/-- The constructor, over whatever the memory held. -/
def init (messageBlock : Vector UInt8 64) : Sha1 :=
  reset ⟨⟨0, 0, 0, 0, 0⟩, 0, 0, messageBlock, 0, false, false⟩

def circularShift (bits word : UInt32) : UInt32 :=
  ((word <<< bits) &&& 0xFFFFFFFF) ||| ((word &&& 0xFFFFFFFF) >>> (32 - bits))

/-- `W[t]` for the first sixteen `t`. -/
def blockWord (block : List UInt8) (t : Nat) : UInt32 :=
  let byte i := (block.getD i 0).toUInt32
  byte (t * 4) <<< 24 ||| byte (t * 4 + 1) <<< 16 ||| byte (t * 4 + 2) <<< 8 |||
    byte (t * 4 + 3)

/-- `W`, which grows by a word with each `t`. -/
def wordSequence (block : List UInt8) : List UInt32 :=
  (List.range' 16 64).foldl
    (fun w t => w ++ [circularShift 1 (w.getD (t - 3) 0 ^^^ w.getD (t - 8) 0 ^^^
      w.getD (t - 14) 0 ^^^ w.getD (t - 16) 0)])
    ((List.range 16).map (blockWord block))

/-- One of the four loops of twenty steps. -/
def twenty (f : UInt32 → UInt32 → UInt32 → UInt32) (k : UInt32)
    (w : List UInt32) (start : Nat) (r : Words) : Words :=
  (List.range' start 20).foldl
    (fun r t =>
      let temp := circularShift 5 r.a + f r.b r.c r.d + r.e + w.getD t 0 + k
      ⟨temp, r.a, circularShift 30 r.b, r.c, r.d⟩)
    r

def processMessageBlock (s : Sha1) : Sha1 :=
  let w := wordSequence s.messageBlock.toList
  let r := twenty (fun b c d => (b &&& c) ||| (~~~b &&& d)) 0x5A827999 w 0 s.h
  let r := twenty (fun b c d => b ^^^ c ^^^ d) 0x6ED9EBA1 w 20 r
  let r := twenty (fun b c d => (b &&& c) ||| (b &&& d) ||| (c &&& d)) 0x8F1BBCDC
    w 40 r
  let r := twenty (fun b c d => b ^^^ c ^^^ d) 0xCA62C1D6 w 60 r
  { s with
    h := ⟨s.h.a + r.a, s.h.b + r.b, s.h.c + r.c, s.h.d + r.d, s.h.e + r.e⟩
    messageBlockIndex := 0 }

/-- `Message_Block[Message_Block_Index++] = byte`. -/
def put (s : Sha1) (byte : UInt8) : Sha1 :=
  { s with
    messageBlock := s.messageBlock.setIfInBounds s.messageBlockIndex byte
    messageBlockIndex := s.messageBlockIndex + 1 }

/-- Eight bits more. -/
def count (s : Sha1) : Sha1 :=
  let low := s.lengthLow + 8
  if low = 0 then
    let high := s.lengthHigh + 1
    { s with
      lengthLow := low
      lengthHigh := high
      corrupted := s.corrupted || high = 0 }
  else { s with lengthLow := low }

/-- One pass of the loop in `Input`. -/
def inputOctet (s : Sha1) (byte : UInt8) : Sha1 :=
  let s := (s.put byte).count
  if s.messageBlockIndex = 64 then s.processMessageBlock else s

/-- `while (length-- && !Corrupted)`. -/
def inputLoop : List UInt8 → Sha1 → Sha1
  | [], s => s
  | byte :: bytes, s =>
      if s.corrupted then s else inputLoop bytes (s.inputOctet byte)

def input (s : Sha1) (bytes : List UInt8) : Sha1 :=
  if bytes = [] then s
  else if s.computed || s.corrupted then { s with corrupted := true }
  else inputLoop bytes s

def putZeros : Nat → Sha1 → Sha1
  | 0, s => s
  | k + 1, s => putZeros k (s.put 0)

/-- `while (Message_Block_Index < n)`, with a zero each time. -/
def zeros (s : Sha1) (n : Nat) : Sha1 :=
  putZeros (n - s.messageBlockIndex) s

/-- The message length as the last eight octets. -/
def putLength (s : Sha1) : Sha1 :=
  let put (block : Vector UInt8 64) i (word : UInt32) bits :=
    block.setIfInBounds i (word >>> bits).toUInt8
  let block := s.messageBlock
  let block := put block 56 s.lengthHigh 24
  let block := put block 57 s.lengthHigh 16
  let block := put block 58 s.lengthHigh 8
  let block := put block 59 s.lengthHigh 0
  let block := put block 60 s.lengthLow 24
  let block := put block 61 s.lengthLow 16
  let block := put block 62 s.lengthLow 8
  let block := put block 63 s.lengthLow 0
  { s with messageBlock := block }

/-- If the block is too small for the padding, it takes a second one. -/
def padMessage (s : Sha1) : Sha1 :=
  let s :=
    if s.messageBlockIndex > 55 then
      ((s.put 0x80).zeros 64).processMessageBlock.zeros 56
    else (s.put 0x80).zeros 56
  s.putLength.processMessageBlock

/-- The digest, unless the input is corrupted. -/
def result (s : Sha1) : Option Words × Sha1 :=
  if s.corrupted then (none, s)
  else
    let s := if s.computed then s else { s.padMessage with computed := true }
    (some s.h, s)

/-- What a user calls. -/
inductive Call where
  | reset
  | input (bytes : List UInt8)
  | result
deriving DecidableEq, Repr

def exec (s : Sha1) : Call → Sha1
  | .reset => s.reset
  | .input bytes => s.input bytes
  | .result => s.result.2

/-- What the calls of `Result` return. -/
def results : Sha1 → List Call → List (Option Words)
  | _, [] => []
  | s, .result :: calls => s.result.1 :: results s.result.2 calls
  | s, call :: calls => results (s.exec call) calls

end Sha1

end Jerry
