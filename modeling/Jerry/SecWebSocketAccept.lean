/-
`GetSecWebSocketAccept`: the SHA-1 digest of the key and the magic key in Base64.
With it the handshake, from the bytes of an upgrade request to the response that
the peer parses, is complete.
-/
import Jerry.Base64Text
import Jerry.GmtDate
import Jerry.HttpRespWire
import Jerry.Sha1Digest
import Jerry.WsUpgrade
import Mathlib.Data.List.Nodup

namespace Jerry

open ByteOrder CString Fips180 HttpReqDecoder HttpResp

namespace WebsocketCodec

def rfc6544MagicKey : List UInt8 :=
  bytes "258EAFA5-E914-47DA-95CA-C5AB0DC85B11"

/-- `std::swap` of two bytes. -/
def swapBytes (digest : List UInt8) (i j : Nat) : List UInt8 :=
  (digest.set i (digest.getD j 0)).set j (digest.getD i 0)

/-- Little endian to big endian, word by word. -/
def swapWords (digest : List UInt8) : List UInt8 :=
  [0, 4, 8, 12, 16].foldl
    (fun digest i => swapBytes (swapBytes digest i (i + 3)) (i + 1) (i + 2)) digest

/-- The words of a digest in the memory of a little-endian machine. -/
def wordsInMemory (h : Words) : List UInt8 :=
  [h.a, h.b, h.c, h.d, h.e].flatMap fun word => leBytes 4 word.toNat

/-- `Input` takes its length as an `unsigned`, and a `Result` that fails leaves the
digest as it is.  The block of the new object is `memory`. -/
def getSecWebSocketAccept (memory : Vector UInt8 64) (secKey : List UInt8) :
    List UInt8 :=
  let acceptKey := secKey ++ rfc6544MagicKey
  let sha := (Sha1.init memory).input (acceptKey.take (acceptKey.length % 2 ^ 32))
  let digest := match sha.result.1 with
    | some h => wordsInMemory h
    | none => List.replicate 20 0
  Base64.base64Encode (swapWords digest)

section Accept

theorem getD_behind (xs ys : List UInt8) (a : UInt8) :
    (xs ++ a :: ys).getD xs.length 0 = a := by
  rw [List.getD_eq_getElem?_getD, List.getElem?_append_right (Nat.le_refl _),
    Nat.sub_self]
  rfl

theorem set_behind (xs ys : List UInt8) (a b : UInt8) :
    (xs ++ a :: ys).set xs.length b = xs ++ b :: ys := by
  rw [List.set_append_right _ _ (Nat.le_refl _), Nat.sub_self]
  rfl

theorem swapBytes_eq (xs mid ys : List UInt8) (a b : UInt8) {j : Nat}
    (hj : (xs ++ a :: mid).length = j) :
    swapBytes (xs ++ a :: (mid ++ b :: ys)) xs.length j =
      xs ++ b :: (mid ++ a :: ys) := by
  have hsplit (c d : UInt8) :
      xs ++ c :: (mid ++ d :: ys) = (xs ++ c :: mid) ++ d :: ys := by
    rw [List.append_assoc, List.cons_append]
  have hlength : (xs ++ b :: mid).length = j := by
    rw [← hj, List.length_append, List.length_append]
    rfl
  rw [swapBytes, getD_behind, set_behind, hsplit a b, ← hj, getD_behind, hj,
    hsplit b b, ← hlength, set_behind, ← hsplit]

theorem swapWord_eq (xs ys : List UInt8) (a b c d : UInt8) {i : Nat}
    (hi : xs.length = i) :
    swapBytes (swapBytes (xs ++ ([a, b, c, d] ++ ys)) i (i + 3)) (i + 1) (i + 2) =
      xs ++ ([d, c, b, a] ++ ys) := by
  have hsplit (a b c d : UInt8) :
      xs ++ ([a, b, c, d] ++ ys) = (xs ++ [a]) ++ b :: ([] ++ c :: (d :: ys)) := by
    simp only [List.append_assoc, List.cons_append, List.nil_append]
  have houter : swapBytes (xs ++ ([a, b, c, d] ++ ys)) i (i + 3) =
      xs ++ ([d, b, c, a] ++ ys) := by
    subst hi
    exact swapBytes_eq xs [b, c] ys a d (by simp)
  have hlength : (xs ++ [d]).length = i + 1 := by
    rw [List.length_append, hi]
    rfl
  rw [houter, hsplit, ← hlength,
    swapBytes_eq (xs ++ [d]) [] (a :: ys) b c (by simp [hi]), ← hsplit]

/-- The words behind those that have been swapped. -/
theorem foldl_swap (words : List UInt32) (xs : List UInt8) :
    (List.range' xs.length words.length 4).foldl
      (fun digest i => swapBytes (swapBytes digest i (i + 3)) (i + 1) (i + 2))
      (xs ++ words.flatMap fun word => leBytes 4 word.toNat) =
        xs ++ words.flatMap fun word => beBytes 4 word.toNat := by
  induction words generalizing xs with
  | nil => rfl
  | cons word words ih =>
      obtain ⟨a, b, c, d, hfour⟩ : ∃ a b c d, leBytes 4 word.toNat = [a, b, c, d] :=
        ⟨_, _, _, _, rfl⟩
      have hreverse : beBytes 4 word.toNat = [d, c, b, a] := by
        rw [beBytes, hfour]
        rfl
      have hnext := ih (xs ++ [d, c, b, a])
      have hlength : (xs ++ [d, c, b, a]).length = xs.length + 4 :=
        List.length_append
      rw [hlength] at hnext
      rw [List.length_cons, List.range'_succ, List.foldl_cons, List.flatMap_cons,
        List.flatMap_cons, hfour, hreverse, swapWord_eq xs _ a b c d rfl,
        ← List.append_assoc, hnext, List.append_assoc]

/-- Swapped in memory, the words are the bytes of the digest. -/
theorem swapWords_wordsInMemory (h : Words) :
    swapWords (wordsInMemory h) = h.toBytes :=
  foldl_swap [h.a, h.b, h.c, h.d, h.e] []

/-- The accept value of the protocol. -/
def acceptValue (secKey : List UInt8) : List UInt8 :=
  Base64.text (sha1 (secKey ++ rfc6544MagicKey)).toBytes

theorem getSecWebSocketAccept_eq (memory : Vector UInt8 64) {secKey : List UInt8}
    (hlength : secKey.length + 36 < 2 ^ 32) :
    getSecWebSocketAccept memory secKey = acceptValue secKey := by
  have hmagic : (secKey ++ rfc6544MagicKey).length = secKey.length + 36 :=
    List.length_append
  have htake : (secKey ++ rfc6544MagicKey).take
      ((secKey ++ rfc6544MagicKey).length % 2 ^ 32) = secKey ++ rfc6544MagicKey := by
    rw [hmagic, Nat.mod_eq_of_lt hlength]
    exact List.take_of_length_le (Nat.le_of_eq hmagic)
  have hfits : Fits (secKey ++ rfc6544MagicKey).length := by
    unfold Fits
    omega
  have hinput := Sha1.input_represents (Sha1.reset_represents
    ⟨⟨0, 0, 0, 0, 0⟩, 0, 0, memory, 0, false, false⟩) (secKey ++ rfc6544MagicKey)
  rw [Sha1.Meaning.input, List.nil_append, if_pos hfits] at hinput
  have hresult := (Sha1.result_represents hinput).1
  rw [Sha1.Meaning.result] at hresult
  simp only [getSecWebSocketAccept, htake, Sha1.init, hresult]
  rw [swapWords_wordsInMemory, Base64.base64Encode_eq]
  rfl

theorem acceptValue_clean (secKey : List UInt8) : Clean (acceptValue secKey) := by
  have hchar : ∀ c : UInt8, Base64.isBase64 c = true → c ≠ cr ∧ c ≠ lf := by
    apply Base64.byte_cases
    decide +kernel
  intro c hc
  rcases List.mem_append.mp hc with hc | hc
  · obtain ⟨d, hd, rfl⟩ := List.mem_map.mp hc
    exact hchar _ (Base64.find_char (Radix.lt_of_mem_digits (by decide) hd)).1
  · rw [List.eq_of_mem_replicate hc]
    decide

end Accept

section Response

/-- What the handshake takes from elsewhere, as the code computes it. -/
def handshakeEnv (memory : Vector UInt8 64) (date : List UInt8) : HandshakeEnv where
  getSecWebSocketAccept := getSecWebSocketAccept memory
  date := date

/-- The fields of the response. -/
def acceptFields (secKey date : List UInt8) : List Field :=
  [(bytes "Connection", bytes "Upgrade"),
    (bytes "Sec-WebSocket-Accept", acceptValue secKey),
    (bytes "Upgrade", bytes "WebSocket"), (bytes "Content-Length", bytes "0"),
    (bytes "Date", date)]

variable {memory : Vector UInt8 64} {secKey date : List UInt8}

def acceptNames : List (List UInt8) :=
  ["Connection", "Sec-WebSocket-Accept", "Upgrade", "Content-Length", "Date"].map
    bytes

theorem acceptFields_names : (acceptFields secKey date).map Prod.fst = acceptNames :=
  rfl

theorem acceptFields_clean (hdate : Clean date) :
    ∀ f ∈ acceptFields secKey date, CleanField f := by
  have hname : ∀ name ∈ acceptNames, Clean name ∧ colon ∉ name ∧ 0 ∉ name := by
    decide +kernel
  have hvalue : Clean (bytes "Upgrade") ∧ Clean (bytes "WebSocket") ∧
      Clean (bytes "0") := by
    decide +kernel
  intro f hf
  obtain ⟨hclean, hcolon, hzero⟩ :=
    hname f.1 (acceptFields_names ▸ List.mem_map_of_mem hf)
  refine ⟨hclean, hcolon, hzero, ?_⟩
  simp only [acceptFields, List.mem_cons, List.not_mem_nil, or_false] at hf
  rcases hf with rfl | rfl | rfl | rfl | rfl
  · exact hvalue.1
  · exact acceptValue_clean secKey
  · exact hvalue.2.1
  · exact hvalue.2.2
  · exact hdate

/-- No two fields have the same name. -/
theorem acceptFields_find {f : Field} (hf : f ∈ acceptFields secKey date) :
    (acceptFields secKey date).find? (fun g => decide (EqualFold g.1 f.1)) =
      some f := by
  have hfold : ∀ name ∈ acceptNames, ∀ name' ∈ acceptNames,
      EqualFold name name' → name = name' := by
    decide +kernel
  have hnodup : ((acceptFields secKey date).map Prod.fst).Nodup := by
    rw [acceptFields_names]
    decide +kernel
  have hsome : ((acceptFields secKey date).find?
      fun g => decide (EqualFold g.1 f.1)).isSome := by
    rw [List.find?_isSome]
    exact ⟨f, hf, decide_eq_true rfl⟩
  obtain ⟨g, hg⟩ := Option.isSome_iff_exists.mp hsome
  have hmem := List.mem_of_find?_eq_some hg
  have hname : g.1 = f.1 :=
    hfold _ (acceptFields_names ▸ List.mem_map_of_mem hmem) _
      (acceptFields_names ▸ List.mem_map_of_mem hf)
      (by simpa using List.find?_some hg)
  rw [hg, List.inj_on_of_nodup_map hnodup hmem hf hname]

/-- The peer parses what the response writer has written. -/
theorem acceptFields_parsed (hdate : Clean date) {d : HttpReqDecoder}
    (hd : d.buffer.Valid) (hempty : d.req.headers = .empty)
    (hview : d.buffer.toStringView =
      (acceptFields secKey date).flatMap fieldWire ++ (crlf ++ [])) :
    ∃ d', parseHeaders d = .ok (true, d') ∧ d'.buffer.toStringView = [] ∧
      ∀ f, f ∈ d'.req.headers.entries ↔ f ∈ acceptFields secKey date := by
  have hclean : ∀ f ∈ acceptFields secKey date, CleanField f := acceptFields_clean hdate
  obtain ⟨lines, hmap, hwires, hbegin⟩ := exists_lines hclean
  rw [← hwires] at hview
  obtain ⟨d', hparse, -, hreq, -, hrest, -⟩ := parseHeaders_lines hd hbegin hview
  refine ⟨d', hparse, hrest, fun f => ?_⟩
  have hrecovers := recovers_addAll hclean hmap f
  rw [hreq]
  simp only [hempty]
  rw [hrecovers]
  exact ⟨List.mem_of_find?_eq_some, acceptFields_find⟩

end Response

/-- The handshake is completed for a peer that follows the protocol: it sends a
request for an upgrade, of which all but the last segment end in the request line,
and behind a status line of 101 it parses the accept value of its own key. -/
theorem handShake_accepted (memory : Vector UInt8 64) (u : UpgradeRequest) (n : Nat)
    {segments : List (List UInt8)} (hwire : segments.flatten = u.wire)
    (hcuts : LineInLast u segments)
    (hkey : ∀ secKey, u.field "Sec-WebSocket-Key" = some secKey →
      secKey.length + 36 < 2 ^ 32)
    {us : DateTime} (hepoch : 0 ≤ us)
    (hyear : (Calendar.CivilTime.ofSeconds (us / 1000000)).date.year ≤ 9999) :
    ∃ date secKey block c', DateTime.toGmtString us = some date ∧
      u.field "Sec-WebSocket-Key" = some secKey ∧
      receiveAll (handshakeEnv memory date) (init (BaseBuffer.ofSize n)) segments =
        .ok c' ∧
      c'.calls = [.send (bytes "HTTP/1.1 101 Switching Protocols\r\n" ++ block)] ∧
      ∀ d : HttpReqDecoder, d.buffer.Valid → d.req.headers = .empty →
        d.buffer.toStringView = block →
        ∃ d', parseHeaders d = .ok (true, d') ∧ d'.buffer.toStringView = [] ∧
          ∀ f, f ∈ d'.req.headers.entries ↔ f ∈ acceptFields secKey date := by
  have hdate := DateTime.toGmtString_eq hepoch hyear
  have hclean := (DateTime.gmtText_printable
    (Calendar.CivilTime.ofSeconds (us / 1000000))).clean.2
  generalize DateTime.gmtText (Calendar.CivilTime.ofSeconds (us / 1000000)) = date
    at hdate hclean
  have hexpect : (init (BaseBuffer.ofSize n)).Expecting [] :=
    ⟨rfl, rfl, (BaseBuffer.ofSize_fresh n).valid,
      (BaseBuffer.ofSize_fresh n).toStringView⟩
  have hsegments : segments ≠ [] := by
    rintro rfl
    have hline := congrArg List.length hwire
    simp [UpgradeRequest.wire, RequestHead.requestLine] at hline
  have hupgrades : Upgrades (handshakeEnv memory date) u (init (BaseBuffer.ofSize n))
      segments := hexpect.upgrades hsegments hwire hcuts
  obtain ⟨c', hreceive, hupgraded⟩ := hupgrades
  obtain ⟨secKey, hfield, hcalls⟩ := hupgraded.response
  have haccept : (handshakeEnv memory date).getSecWebSocketAccept secKey =
      acceptValue secKey := by
    simp only [handshakeEnv, getSecWebSocketAccept_eq memory (hkey secKey hfield)]
  have hfields : upgradedFields (acceptValue secKey) date = acceptFields secKey date :=
    rfl
  rw [switchingProtocols, haccept] at hcalls
  refine ⟨date, secKey, _, c', hdate, hfield, hreceive, hcalls,
    fun d hd hempty hview => ?_⟩
  refine acceptFields_parsed hclean hd hempty (hview.trans ?_)
  rw [← hfields, List.append_nil]
  rfl

/-- The key and the accept value that the protocol's own example has. -/
theorem handShake_accepted_inside :
    acceptValue (bytes "dGhlIHNhbXBsZSBub25jZQ==") =
      bytes "s3pPLMBiTxaQ9kYGzzhZRbK+xOo=" ∧
    ∃ date secKey block c',
      DateTime.toGmtString 1709251199000000 = some date ∧
      exampleRequest.field "Sec-WebSocket-Key" = some secKey ∧
      receiveAll (handshakeEnv (Vector.replicate 64 0) date)
        (init (BaseBuffer.ofSize 32))
        [exampleRequest.wire.take 5, exampleRequest.wire.drop 5] = .ok c' ∧
      c'.calls = [.send (bytes "HTTP/1.1 101 Switching Protocols\r\n" ++ block)] ∧
      ∀ d : HttpReqDecoder, d.buffer.Valid → d.req.headers = .empty →
        d.buffer.toStringView = block →
        ∃ d', parseHeaders d = .ok (true, d') ∧ d'.buffer.toStringView = [] ∧
          ∀ f, f ∈ d'.req.headers.entries ↔ f ∈ acceptFields secKey date := by
  have hkey : (bytes "dGhlIHNhbXBsZSBub25jZQ==").length + 36 < 2 ^ 32 := by
    decide
  have hfield : exampleRequest.field "Sec-WebSocket-Key" =
      some (bytes "dGhlIHNhbXBsZSBub25jZQ==") := by
    decide +kernel
  have hwire : [exampleRequest.wire.take 5, exampleRequest.wire.drop 5].flatten =
      exampleRequest.wire := by
    rw [List.flatten_cons, List.flatten_singleton, List.take_append_drop]
  have hcuts : LineInLast exampleRequest
      [exampleRequest.wire.take 5, exampleRequest.wire.drop 5] := by
    rw [LineInLast]
    decide +kernel
  have hepoch : (0 : DateTime) ≤ 1709251199000000 := by
    decide
  have hyear : (Calendar.CivilTime.ofSeconds
      ((1709251199000000 : DateTime) / 1000000)).date.year ≤ 9999 := by
    decide +kernel
  refine ⟨?_, handShake_accepted (Vector.replicate 64 0) exampleRequest 32 hwire hcuts
    (fun secKey heq => ?_) hepoch hyear⟩
  · rw [← getSecWebSocketAccept_eq (Vector.replicate 64 0) hkey]
    decide +kernel
  · rw [hfield, Option.some_inj] at heq
    rw [← heq]
    exact hkey

end WebsocketCodec

end Jerry
