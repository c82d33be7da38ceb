/-
`3rdparty/crypto/base64`: three bytes become four characters, and what is left at
the end is filled up.
-/
import Jerry.CString

namespace Jerry

open CString

namespace Base64

def base64Chars : List UInt8 :=
  bytes "ABCDEFGHIJKLMNOPQRSTUVWXYZabcdefghijklmnopqrstuvwxyz0123456789+/"

def isAlnum (c : UInt8) : Bool :=
  (65 ≤ c && c ≤ 90) || (97 ≤ c && c ≤ 122) || (48 ≤ c && c ≤ 57)

def isBase64 (c : UInt8) : Bool :=
  isAlnum c || c = 43 || c = 47

/-- `base64_chars[i]`. -/
def char (i : UInt8) : UInt8 :=
  base64Chars.getD i.toNat 0

/-- `base64_chars.find` as an `unsigned char`, in which `npos` is 255. -/
def find (c : UInt8) : UInt8 :=
  match base64Chars.idxOf? c with
  | some i => UInt8.ofNat i
  | none => 255

/-- `char_array_4` from `char_array_3`. -/
def toFour (a b c : UInt8) : List UInt8 :=
  [(a &&& 0xfc) >>> 2,
    ((a &&& 0x03) <<< 4) + ((b &&& 0xf0) >>> 4),
    ((b &&& 0x0f) <<< 2) + ((c &&& 0xc0) >>> 6),
    c &&& 0x3f]

/-- `char_array_3` from `char_array_4`. -/
def toThree (a b c d : UInt8) : List UInt8 :=
  [(a <<< 2) + ((b &&& 0x30) >>> 4),
    ((b &&& 0x0f) <<< 4) + ((c &&& 0x3c) >>> 2),
    ((c &&& 0x03) <<< 6) + d]

/-- The loop of `base64_encode`, with the part of `char_array_3` that is set. -/
def encodeLoop : List UInt8 → List UInt8 → List UInt8 → List UInt8 × List UInt8
  | [], chars, ret => (chars, ret)
  | byte :: bytes, chars, ret =>
      match chars ++ [byte] with
      | [a, b, c] => encodeLoop bytes [] (ret ++ (toFour a b c).map char)
      | chars => encodeLoop bytes chars ret

def base64Encode (bytesToEncode : List UInt8) : List UInt8 :=
  let (chars, ret) := encodeLoop bytesToEncode [] []
  let i := chars.length
  if i = 0 then ret
  else
    let four := toFour (chars.getD 0 0) (chars.getD 1 0) (chars.getD 2 0)
    ret ++ (four.take (i + 1)).map char ++ List.replicate (3 - i) 61

/-- The loop of `base64_decode`, with the part of `char_array_4` that is set. -/
def decodeLoop : List UInt8 → List UInt8 → List UInt8 → List UInt8 × List UInt8
  | [], chars, ret => (chars, ret)
  | c :: text, chars, ret =>
      if c ≠ 61 && isBase64 c then
        match chars ++ [c] with
        | [x, y, z, w] =>
            decodeLoop text [] (ret ++ toThree (find x) (find y) (find z) (find w))
        | chars => decodeLoop text chars ret
      else (chars, ret)

def base64Decode (encodedString : List UInt8) : List UInt8 :=
  let (chars, ret) := decodeLoop encodedString [] []
  let i := chars.length
  if i = 0 then ret
  else
    let three := toThree (find (chars.getD 0 0)) (find (chars.getD 1 0))
      (find (chars.getD 2 0)) (find (chars.getD 3 0))
    ret ++ three.take (i - 1)

end Base64

end Jerry
