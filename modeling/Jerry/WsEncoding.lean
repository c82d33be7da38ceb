/-
`EncodeFrameHead`: for which payload lengths the head it returns, with the
payload behind it, is one frame.
-/
import Jerry.WebsocketCodec

namespace Jerry

open CString ByteOrder WsFrame

namespace WebsocketCodec

/-- The length of the shortest unmasked head for a payload of `n` bytes. -/
def shortestHead (n : Nat) : Nat :=
  if n < 126 then 2 else if n < 65536 then 4 else 10

/-- The frame `EncodeFrameHead` and the payload are meant to be. -/
def finFrame (data : List UInt8) (type : WsFrameType) : WsFrame :=
  ⟨true, false, false, false, type, none, data⟩

/-- The head has the right length, and whatever follows the payload, the frame
is read back and nothing else is. -/
structure Decodable (data : List UInt8) (type : WsFrameType) : Prop where
  length : (encodeFrameHead data type).length = shortestHead data.length
  parses : ∀ rest, parse (encodeFrameHead data type ++ data ++ rest) =
    some (finFrame data type, rest)

/-- No byte of the head is zero, and the eight bytes of a long length read the
same in both directions. -/
def EncodableLength (n : Nat) : Prop :=
  (1 ≤ n ∧ n < 126) ∨
  (256 ≤ n ∧ n < 65535 ∧ n % 256 ≠ 0) ∨
  (65535 < n ∧ 0 ∉ leBytes 8 n ∧ leBytes 8 n = beBytes 8 n)

instance (n : Nat) : Decidable (EncodableLength n) :=
  inferInstanceAs (Decidable (_ ∨ _))

section Head

/-- The bits of the base head that are set for a payload of `n` bytes. -/
def finHead (type : WsFrameType) (n : Nat) : WsBaseHead :=
  { fin := true
    rsv1 := false
    rsv2 := false
    rsv3 := false
    opcode := type.value
    mask := false
    payloadLength :=
      if n < 126 then Fin.ofNat 128 n else if n < 65535 then 126 else 127 }

/-- The bytes that are copied behind the base head. -/
def extension (n : Nat) : List UInt8 :=
  if n < 126 then [] else if n < 65535 then beBytes 2 n else leBytes 8 n

/-- The array holds the base head, the length and zeros. -/
theorem encodeFrameHead_eq (data : List UInt8) (type : WsFrameType) :
    encodeFrameHead data type =
      cStr ((finHead type data.length).toBytes ++ extension data.length) := by
  rcases lt_or_ge data.length 126 with hshort | hlong
  · rw [← cStr_append_zeros _ 9]
    simp only [encodeFrameHead, finHead, extension, hshort, if_true]
    rfl
  · rcases lt_or_ge data.length 65535 with hmid | hlarge
    · rw [← cStr_append_zeros _ 7]
      simp only [encodeFrameHead, finHead, extension, hmid, if_true,
        Nat.not_lt.mpr hlong, if_false]
      rfl
    · rw [← cStr_append_zeros _ 1]
      simp only [encodeFrameHead, finHead, extension, Nat.not_lt.mpr hlarge,
        Nat.not_lt.mpr hlong, if_false]
      rfl

theorem finHead_byte₀_ne_zero (type : WsFrameType) (n : Nat) :
    (finHead type n).byte₀ ≠ 0 := by
  have hall : ∀ opcode : Fin 16,
      UInt8.ofNat (opcode + 16 * 0 + 32 * 0 + 64 * 0 + 128 * 1) ≠ 0 := by
    decide
  exact hall type.value

/-- Only an empty payload leaves the second byte zero. -/
theorem finHead_byte₁_eq_zero_iff (type : WsFrameType) (n : Nat) :
    (finHead type n).byte₁ = 0 ↔ n = 0 := by
  have hall : ∀ len : Fin 128,
      UInt8.ofNat (len + 128 * 0) = 0 ↔ len = 0 := by
    decide +kernel
  refine (hall (finHead type n).payloadLength).trans ?_
  simp only [finHead]
  split
  · rename_i hshort
    rw [Fin.ext_iff, Fin.val_ofNat, Fin.val_zero,
      Nat.mod_eq_of_lt (by omega)]
  · rename_i hlong
    have hne : n ≠ 0 := by omega
    split <;> simp [hne]

theorem zero_mem_head_iff (type : WsFrameType) (n : Nat) :
    0 ∈ (finHead type n).toBytes ++ extension n ↔ n = 0 ∨ 0 ∈ extension n := by
  have hfirst := finHead_byte₀_ne_zero type n
  have hsecond := finHead_byte₁_eq_zero_iff type n
  simp only [WsBaseHead.toBytes, List.mem_append, List.mem_cons,
    List.not_mem_nil, or_false, eq_comm (a := (0 : UInt8)), hfirst, hsecond,
    false_or]

end Head

section Parse

variable {data rest : List UInt8} {type : WsFrameType}

/-- A head without a zero byte is what was put into the array. -/
theorem encodeFrameHead_of_no_zero (hpos : data.length ≠ 0)
    (hext : 0 ∉ extension data.length) :
    encodeFrameHead data type =
      (finHead type data.length).toBytes ++ extension data.length := by
  rw [encodeFrameHead_eq]
  apply cStr_eq_self
  rw [zero_mem_head_iff]
  rintro (hzero | hzero)
  · exact hpos hzero
  · exact hext hzero

/-- The length that is read behind the base head is the one of the payload. -/
theorem parse_finHead (data rest : List UInt8) (type : WsFrameType)
    (hlength : parseLength (finHead type data.length).payloadLength
      (extension data.length ++ (data ++ rest)) =
        some (data.length, data ++ rest)) :
    parse ((finHead type data.length).toBytes ++ extension data.length ++
      data ++ rest) = some (finFrame data type, rest) := by
  rw [List.append_assoc, List.append_assoc, parse_unmasked _ rfl, hlength,
    Option.bind_some, takeBytes_append]
  rfl

theorem parseLength_short (hshort : data.length < 126) :
    parseLength (finHead type data.length).payloadLength
      (extension data.length ++ (data ++ rest)) =
        some (data.length, data ++ rest) := by
  have hlt : data.length < 128 := by omega
  have hfield : (Fin.ofNat 128 data.length).val = data.length :=
    Nat.mod_eq_of_lt hlt
  have hsmall : Fin.ofNat 128 data.length < 126 := by
    rw [Fin.lt_def, hfield]
    exact hshort
  simp only [finHead, extension, hshort, if_true, parseLength, hsmall, hfield,
    List.nil_append]

theorem parseLength_mid (hlong : 126 ≤ data.length)
    (hmid : data.length < 65535) :
    parseLength (finHead type data.length).payloadLength
      (extension data.length ++ (data ++ rest)) =
        some (data.length, data ++ rest) := by
  have htake := takeBytes_append (beBytes 2 data.length) (data ++ rest)
  rw [beBytes_length] at htake
  have hback : ofBe (beBytes 2 data.length) = data.length :=
    ofBe_beBytes (by omega)
  have hshort : ¬ data.length < 126 := Nat.not_lt.mpr hlong
  simp only [finHead, extension, hshort, hmid, if_true, if_false, parseLength]
  rw [if_neg (by decide), htake, Option.map_some, hback]

/-- Eight bytes are written in one order and read in the other. -/
theorem parseLength_large (hlarge : 65535 ≤ data.length) :
    parseLength (finHead type data.length).payloadLength
      (extension data.length ++ (data ++ rest)) =
        some (ofBe (leBytes 8 data.length), data ++ rest) := by
  have htake := takeBytes_append (leBytes 8 data.length) (data ++ rest)
  rw [leBytes_length] at htake
  have hshort : ¬ data.length < 126 := by omega
  have hmid : ¬ data.length < 65535 := Nat.not_lt.mpr hlarge
  simp only [finHead, extension, hshort, hmid, if_false, parseLength]
  rw [if_neg (by decide), if_neg (by decide), htake, Option.map_some]

/-- Eight bytes that the reader takes for `n` are the bytes of `n`. -/
theorem leBytes_eq_beBytes_of_ofBe {n : Nat} (h : ofBe (leBytes 8 n) = n) :
    leBytes 8 n = beBytes 8 n := by
  have heq := eq_beBytes_of_ofBe h
  rwa [leBytes_length] at heq

/-- Two bytes are read back from two bytes without a zero. -/
theorem zero_mem_beBytes_two_iff {n : Nat} (hn : n < 65536) :
    0 ∈ beBytes 2 n ↔ n < 256 ∨ n % 256 = 0 := by
  have hbyte (m : Nat) : 0 = UInt8.ofNat m ↔ m % 256 = 0 := by
    rw [← UInt8.toNat_inj, UInt8.toNat_ofNat']
    exact eq_comm
  have hdiv : n / 256 % 256 = 0 ↔ n < 256 := by omega
  simp only [beBytes, leBytes, List.reverse_cons, List.reverse_nil,
    List.nil_append, List.mem_append, List.mem_cons, List.not_mem_nil,
    or_false, hbyte, hdiv]

end Parse

section Decodable

variable {data : List UInt8} {type : WsFrameType}

/-- `65535` is written in eight bytes although two are enough. -/
theorem shortestHead_eq {n : Nat} (hn : n ≠ 65535) :
    shortestHead n = 2 + (extension n).length := by
  rcases lt_or_ge n 126 with hshort | hlong
  · simp [shortestHead, extension, hshort]
  · rcases lt_or_ge n 65535 with hmid | hlarge
    · have hle : n < 65536 := by omega
      simp [shortestHead, extension, hmid, hle, Nat.not_lt.mpr hlong]
    · have hle : ¬ n < 65536 := by omega
      simp [shortestHead, extension, hle, Nat.not_lt.mpr hlong,
        Nat.not_lt.mpr hlarge]

theorem length_head (data : List UInt8) (type : WsFrameType) :
    ((finHead type data.length).toBytes ++ extension data.length).length =
      2 + (extension data.length).length := by
  rw [List.length_append]
  rfl

/-- A head of the right length has not been cut at a zero byte. -/
theorem Decodable.no_zero (h : Decodable data type)
    (hn : data.length ≠ 65535) :
    data.length ≠ 0 ∧ 0 ∉ extension data.length := by
  have hlength := h.length
  rw [shortestHead_eq hn, encodeFrameHead_eq, ← length_head data type,
    cStr_length_eq_iff, zero_mem_head_iff] at hlength
  exact not_or.mp hlength

theorem decodable_of_parseLength (hn : data.length ≠ 65535)
    (hpos : data.length ≠ 0) (hext : 0 ∉ extension data.length)
    (hparse : ∀ rest, parseLength (finHead type data.length).payloadLength
      (extension data.length ++ (data ++ rest)) =
        some (data.length, data ++ rest)) : Decodable data type := by
  have hhead := @encodeFrameHead_of_no_zero data type hpos hext
  constructor
  · rw [hhead, length_head, shortestHead_eq hn]
  · intro rest
    rw [hhead]
    exact parse_finHead data rest type (hparse rest)

theorem decodable_iff_of_short (hshort : data.length < 126) :
    Decodable data type ↔ data.length ≠ 0 := by
  have hn : data.length ≠ 65535 := by omega
  constructor
  · intro h
    exact (h.no_zero hn).1
  · intro hpos
    apply decodable_of_parseLength hn hpos
    · simp [extension, hshort]
    · intro rest
      exact parseLength_short hshort

theorem decodable_iff_of_mid (hlong : 126 ≤ data.length)
    (hmid : data.length < 65535) :
    Decodable data type ↔ 256 ≤ data.length ∧ data.length % 256 ≠ 0 := by
  have hn : data.length ≠ 65535 := Nat.ne_of_lt hmid
  have hext : extension data.length = beBytes 2 data.length := by
    simp [extension, hmid, Nat.not_lt.mpr hlong]
  have hzero : 0 ∉ beBytes 2 data.length ↔
      256 ≤ data.length ∧ data.length % 256 ≠ 0 := by
    rw [zero_mem_beBytes_two_iff (by omega), not_or, Nat.not_lt]
  rw [← hzero, ← hext]
  constructor
  · intro h
    exact (h.no_zero hn).2
  · intro hnot
    apply decodable_of_parseLength hn (by omega) hnot
    intro rest
    exact parseLength_mid hlong hmid

theorem decodable_iff_of_large (hlarge : 65535 < data.length)
    (hlt : data.length < 2 ^ 63) :
    Decodable data type ↔
      0 ∉ leBytes 8 data.length ∧
        leBytes 8 data.length = beBytes 8 data.length := by
  have hn : data.length ≠ 65535 := Nat.ne_of_gt hlarge
  have hext : extension data.length = leBytes 8 data.length := by
    have hshort : ¬ data.length < 126 := by omega
    have hmid : ¬ data.length < 65535 := by omega
    simp only [extension, hshort, hmid, if_false]
  have hread (rest) := @parseLength_large data rest type (Nat.le_of_lt hlarge)
  constructor
  · intro h
    obtain ⟨hpos, hnot⟩ := h.no_zero hn
    have hparse := h.parses []
    rw [encodeFrameHead_of_no_zero hpos hnot, List.append_assoc,
      List.append_assoc, parse_unmasked _ rfl, hread [], Option.bind_some]
      at hparse
    -- the payload that is read back has the length that was read
    have hsame : ofBe (leBytes 8 data.length) = data.length := by
      simp only [takeBytes, List.append_nil] at hparse
      split at hparse
      · rename_i hfits
        simp only [Option.map_some, Option.some.injEq, Prod.mk.injEq,
          List.drop_eq_nil_iff] at hparse
        exact Nat.le_antisymm hfits hparse.2
      · cases hparse
    exact ⟨hext ▸ hnot, leBytes_eq_beBytes_of_ofBe hsame⟩
  · rintro ⟨hnot, hsame⟩
    have hback : ofBe (leBytes 8 data.length) = data.length := by
      rw [hsame]
      exact ofBe_beBytes (by omega)
    apply decodable_of_parseLength hn (by omega) (hext ▸ hnot)
    intro rest
    rw [hread rest, hback]

/-- The head of 65535 bytes ends after two of its eight length bytes, and the
reader finds a length that begins with them. -/
theorem not_decodable_of_limit (hlimit : data.length = 65535) :
    ¬ Decodable data type := by
  intro h
  have hhead : encodeFrameHead data type =
      (finHead type data.length).toBytes ++ [255, 255] := by
    rw [encodeFrameHead_eq]
    have hfirst := finHead_byte₀_ne_zero type data.length
    have hsecond : (finHead type data.length).byte₁ ≠ 0 := by
      rw [Ne, finHead_byte₁_eq_zero_iff]
      omega
    have hext : extension data.length = [255, 255, 0, 0, 0, 0, 0, 0] := by
      rw [hlimit]
      decide
    rw [hext]
    simp [WsBaseHead.toBytes, cStr, List.takeWhile, hfirst, hsecond]
  have hparse := h.parses []
  have hfield : (finHead type data.length).payloadLength = 127 := by
    simp [finHead, hlimit]
  rw [hhead, List.append_nil, List.append_assoc, parse_unmasked _ rfl, hfield]
    at hparse
  have hread : parseLength 127 ([255, 255] ++ data) =
      some (ofBe (255 :: 255 :: data.take 6), data.drop 6) := by
    have hfits : 8 ≤ ([255, 255] ++ data).length := by
      rw [List.length_append, hlimit]
      decide
    rw [parseLength, if_neg (by decide), if_neg (by decide), takeBytes,
      if_pos hfits]
    rfl
  rw [hread, Option.bind_some, takeBytes] at hparse
  split at hparse
  · rename_i hfits
    simp only [Option.map_some, Option.some.injEq, Prod.mk.injEq] at hparse
    have hpayload := congrArg (fun f => f.payload.length) hparse.1
    simp only [finFrame, List.length_take, List.length_drop] at hpayload
    omega
  · cases hparse

end Decodable

/-- An encodable length is one of the three that are written. -/
theorem decodable_of_encodable {data : List UInt8} {type : WsFrameType}
    (hlt : data.length < 2 ^ 63) (h : EncodableLength data.length) :
    Decodable data type := by
  rcases h with ⟨hpos, hshort⟩ | ⟨hle, hmid, hmod⟩ | ⟨hlarge, hlong⟩
  · exact (decodable_iff_of_short hshort).mpr (Nat.ne_of_gt hpos)
  · exact (decodable_iff_of_mid (by omega) hmid).mpr ⟨hle, hmod⟩
  · exact (decodable_iff_of_large hlarge hlt).mpr hlong

/-- The encoding can be decoded for exactly these payload lengths. -/
theorem encodeFrameHead_iff (data : List UInt8) (type : WsFrameType)
    (hlt : data.length < 2 ^ 63) :
    Decodable data type ↔ EncodableLength data.length := by
  constructor
  · intro h
    rcases lt_or_ge data.length 126 with hshort | hlong
    · have hne := (decodable_iff_of_short hshort).mp h
      exact Or.inl ⟨Nat.pos_of_ne_zero hne, hshort⟩
    · rcases Nat.lt_trichotomy data.length 65535 with hmid | hlimit | hlarge
      · obtain ⟨hle, hmod⟩ := (decodable_iff_of_mid hlong hmid).mp h
        exact Or.inr (Or.inl ⟨hle, hmid, hmod⟩)
      · exact absurd h (not_decodable_of_limit hlimit)
      · exact Or.inr (Or.inr ⟨hlarge, (decodable_iff_of_large hlarge hlt).mp h⟩)
  · exact decodable_of_encodable hlt

theorem encodeFrameHead_iff_hello :
    (bytes "hello").length < 2 ^ 63 ∧ EncodableLength (bytes "hello").length ∧
      Decodable (bytes "hello") .kText :=
  have hlt : (bytes "hello").length < 2 ^ 63 := by decide
  have hlength : EncodableLength (bytes "hello").length := by decide
  ⟨hlt, hlength, (encodeFrameHead_iff _ _ hlt).mpr hlength⟩

/-- The close frame of the codec is one byte, and no frame is read from it. -/
theorem encodeFrameHead_iff_close :
    ([] : List UInt8).length < 2 ^ 63 ∧ encodeFrameHead [] .kClose = [0x88] ∧
      parse (encodeFrameHead [] .kClose) = none ∧ ¬ Decodable [] .kClose := by
  refine ⟨by decide, by decide, by decide, ?_⟩
  intro h
  exact absurd h.length (by decide)

end WebsocketCodec

end Jerry
