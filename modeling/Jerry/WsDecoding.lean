/-
What `Decode` does with the head and with the payload of a frame, and with a
head of which not every byte is readable.
-/
import Jerry.BaseBufferReuse
import Jerry.WsClientFrame

namespace Jerry

open Window WsFrame ByteOrder

namespace WebsocketCodec

variable {c : WebsocketCodec} {b : BaseBuffer} {done rest : List UInt8}
  {f : ClientFrame} {k : Nat} {env : HandshakeEnv}

/-- The next byte is the first of a head.  Of what was last received into `b`,
`done` has been read and is unmasked and `rest` is still to be read. -/
structure AtHead (c : WebsocketCodec) (b : BaseBuffer)
    (done rest : List UInt8) : Prop where
  empty : b.Empty
  state : c.state = .exceptFrameHead
  buffer : c.recvBuffer = b.consumed done rest
  payload : c.req.payload = []
  lastReadIdx : c.lastReadIdx = 0

/-- The head of `f` and `k` bytes of its payload have been read. -/
structure InPayload (c : WebsocketCodec) (b : BaseBuffer)
    (done rest : List UInt8) (f : ClientFrame) (k : Nat) : Prop where
  empty : b.Empty
  state : c.state = .exceptPayload
  buffer : c.recvBuffer = b.consumed done rest
  type : c.req.type = f.type
  payload : c.req.payload = f.payload.take k
  key : c.maskKey = f.key
  remains : c.payloadRemains = f.payload.length - k
  lastReadIdx : c.lastReadIdx = k
  le : k ≤ f.payload.length
  received : c.headReceived = true

/-- Memory begins with a masked head, of a frame that is neither empty nor a
close frame, within the vector. -/
def Harmless : List UInt8 → Prop
  | b₀ :: b₁ :: stream =>
      let head := WsBaseHead.ofBytes b₀ b₁
      let n := extendedLength head.payloadLength
      head.mask = true ∧ ⟨head.opcode⟩ ≠ WsFrameType.kClose ∧
        n + 4 ≤ stream.length ∧
        (if head.payloadLength < 126 then head.payloadLength.val
          else ofBe (stream.take n)) ≠ 0
  | _ => False

instance : ∀ memory, Decidable (Harmless memory)
  | [] => isFalse id
  | [_] => isFalse id
  | _ :: _ :: _ => inferInstanceAs (Decidable (_ ∧ _ ∧ _ ∧ _))

section Rounds

/-- What reading a head can do: leave the vector, close the connection, or go
on with a payload. -/
theorem decodeFrameHead_cases (c : WebsocketCodec) :
    (∃ fault, c.decodeFrameHead = .error fault ∧
      ¬ Harmless c.recvBuffer.memory) ∨
    (∃ c', c.decodeFrameHead = .ok (false, c') ∧
      c'.calls = c.calls ++
        [.send (encodeFrameHead [] .kClose), .shutdown] ∧
      ¬ Harmless c.recvBuffer.memory) ∨
    (∃ b₀ b₁ stream c' n, c.recvBuffer.memory = b₀ :: b₁ :: stream ∧
      n = 2 + extendedLength (WsBaseHead.ofBytes b₀ b₁).payloadLength + 4 ∧
      c.decodeFrameHead = .ok (true, c') ∧
      c'.state = .exceptPayload ∧ c'.calls = c.calls ∧
      c'.recvBuffer = c.recvBuffer.dropBytes n ∧
      c'.headReceived = decide (n ≤ c.recvBuffer.readableBytes) ∧
      (Harmless c.recvBuffer.memory ↔ c'.payloadRemains ≠ 0)) := by
  simp only [decodeFrameHead]
  split
  · rename_i b₀ b₁ stream hmemory
    rw [hmemory]
    simp only [Harmless]
    split
    · rename_i hclose
      refine Or.inr (Or.inl ⟨_, rfl, rfl, ?_⟩)
      rintro ⟨hmask, htype, _⟩
      rcases hclose with hclose | hclose
      · rw [hclose] at hmask
        cases hmask
      · exact htype hclose
    · rename_i hclient
      obtain ⟨hmask, htype⟩ := not_or.mp hclient
      split
      · rename_i hshort
        exact Or.inl ⟨_, rfl, fun h => absurd h.2.2.1 (Nat.not_le.mpr hshort)⟩
      · rename_i hfits
        refine Or.inr (Or.inr ⟨b₀, b₁, stream, _, _, rfl, rfl, rfl, rfl, rfl,
          rfl, rfl, ?_⟩)
        constructor
        · exact fun h => h.2.2.2
        · exact fun h => ⟨eq_true_of_ne_false hmask, htype,
            Nat.not_lt.mp hfits, h⟩
  · rename_i hmemory
    refine Or.inl ⟨_, rfl, ?_⟩
    rcases hlist : c.recvBuffer.memory with _ | ⟨b₀, _ | ⟨b₁, stream⟩⟩
    · exact id
    · exact id
    · exact absurd hlist (hmemory b₀ b₁ stream)

/-- What reading a payload can do: finish it, if the rest of it is readable, or
ask for more of it. -/
theorem decodePayload_cases (c : WebsocketCodec) :
    ∃ finished c', c.decodePayload = (finished, c') ∧
      (finished = true ↔ c.payloadRemains ≤ c.recvBuffer.readableBytes) ∧
      c'.state = (if finished then .parseFinished else c.state) ∧
      c'.headReceived = c.headReceived ∧ c'.calls = c.calls := by
  have hrest : c.payloadRemains -
      min c.recvBuffer.readableBytes c.payloadRemains = 0 ↔
        c.payloadRemains ≤ c.recvBuffer.readableBytes := by omega
  simp only [decodePayload, hrest]
  split
  · rename_i hle
    exact ⟨true, _, rfl, ⟨fun _ => hle, fun _ => rfl⟩, rfl, rfl, rfl⟩
  · rename_i hlt
    exact ⟨false, _, rfl, ⟨fun h => absurd h Bool.false_ne_true,
      fun h => absurd h hlt⟩, rfl, rfl, rfl⟩

/-- A payload takes at most two rounds, so the third is not needed. -/
theorem decodeLoop_payload (hstate : c.state = .exceptPayload) (fuel : Nat) :
    decodeLoop env (fuel + 2) c =
      match decodePayload c with
      | (false, c) => .ok (none, c)
      | (true, c) => .ok (some c.req,
          { c with state := .exceptFrameHead, req := c.req.movedFrom }) := by
  obtain ⟨finished, c', hpayload, _, hfinished, _⟩ := decodePayload_cases c
  rw [decodeLoop, hstate]
  simp only [hpayload]
  cases finished with
  | false => rfl
  | true =>
      simp only
      rw [decodeLoop, hfinished]
      rfl

theorem decode_payload (hstate : c.state = .exceptPayload) :
    decode env c =
      match decodePayload c with
      | (false, c) => .ok (none, c)
      | (true, c) => .ok (some c.req,
          { c with state := .exceptFrameHead, req := c.req.movedFrom }) :=
  decodeLoop_payload hstate 1

/-- Behind a head, the same call goes on with the payload. -/
theorem decode_head (hstate : c.state = .exceptFrameHead) :
    decode env c =
      match decodeFrameHead c with
      | .error fault => .error fault
      | .ok (false, c) => .ok (none, c)
      | .ok (true, c) => decode env c := by
  rw [decode, decodeLoop, hstate]
  rcases decodeFrameHead_cases c with
    ⟨fault, hhead, _⟩ | ⟨c', hhead, _⟩ |
    ⟨_, _, _, c', _, _, _, hhead, hnext, _⟩
  · rw [hhead]
  · rw [hhead]
  · rw [hhead]
    simp only
    rw [decodeLoop_payload hnext 0, decode_payload hnext]

end Rounds

section Head

/-- A head all of whose bytes are readable is read as it was sent. -/
theorem AtHead.decodeFrameHead (h : c.AtHead b done (f.head ++ rest)) :
    ∃ c', c.decodeFrameHead = .ok (true, c') ∧
      c'.InPayload b (done ++ f.head) rest f 0 ∧ c'.calls = c.calls := by
  have hmemory : c.recvBuffer.memory =
      f.baseHead.byte₀ :: f.baseHead.byte₁ ::
        (f.form.extended f.payload.length ++
          (f.key ++ (rest ++ c.recvBuffer.deadBytes))) := by
    rw [h.buffer, BaseBuffer.consumed_memory h.empty]
    simp only [ClientFrame.head, WsBaseHead.toBytes, List.append_assoc,
      List.cons_append, List.nil_append]
  have hext := f.form.extended_length f.fits
  have hclient : ¬ (f.baseHead.mask = false ∨
      (⟨f.baseHead.opcode⟩ : WsFrameType) = .kClose) := by
    rintro (hmask | htype)
    · cases hmask
    · exact f.type_ne htype
  have hfits : ¬ (f.form.extended f.payload.length ++
      (f.key ++ (rest ++ c.recvBuffer.deadBytes))).length <
        extendedLength f.baseHead.payloadLength + 4 := by
    simp only [List.length_append, hext, f.key_length, ClientFrame.baseHead]
    omega
  have hhead : f.head.length ≤ c.recvBuffer.readableBytes := by
    rw [h.buffer, BaseBuffer.consumed_readableBytes h.empty,
      List.length_append]
    exact Nat.le_add_right _ _
  have hlength := f.head_length
  rw [WebsocketCodec.decodeFrameHead, hmemory]
  simp only [WsBaseHead.ofBytes_byte]
  rw [if_neg hclient, if_neg hfits]
  refine ⟨_, rfl, ?_, rfl⟩
  rw [← hlength]
  exact
    { empty := h.empty
      state := rfl
      buffer := by
        simp only [h.buffer]
        exact BaseBuffer.consumed_drop b done f.head rest
      type := rfl
      payload := h.payload
      key := by
        simp only [ClientFrame.baseHead, ← hext]
        rw [List.drop_left, ← f.key_length, List.take_left]
      remains := by
        simp only [ClientFrame.baseHead, ← hext, List.take_left]
        exact f.payloadLength_eq
      lastReadIdx := h.lastReadIdx
      le := Nat.zero_le _
      received := decide_eq_true hhead }

/-- A head of which only the front is readable is not read as received. -/
theorem AtHead.not_received (h : c.AtHead b done rest)
    (hfront : rest <+: f.head) (hshort : rest.length < f.head.length)
    {b₀ b₁ : UInt8} {stream : List UInt8}
    (hmemory : c.recvBuffer.memory = b₀ :: b₁ :: stream) :
    ¬ 2 + extendedLength (WsBaseHead.ofBytes b₀ b₁).payloadLength + 4 ≤
      c.recvBuffer.readableBytes := by
  intro hle
  rw [h.buffer, BaseBuffer.consumed_readableBytes h.empty] at hle
  rw [h.buffer, BaseBuffer.consumed_memory h.empty] at hmemory
  obtain ⟨more, hmore⟩ := hfront
  -- with two readable bytes, the base head is the one of the frame
  rcases rest with _ | ⟨c₀, _ | ⟨c₁, rest⟩⟩
  · simp at hle
  · simp at hle
  · simp only [List.cons_append, List.cons.injEq] at hmemory
    simp only [ClientFrame.head, WsBaseHead.toBytes, List.cons_append,
      List.cons.injEq] at hmore
    rw [← hmemory.1, ← hmemory.2.1, hmore.1, hmore.2.1,
      WsBaseHead.ofBytes_byte, ← f.head_length] at hle
    exact absurd hshort (Nat.not_lt.mpr hle)

end Head

section Payload

/-- The readable part of the payload, `front`, is unmasked and taken. -/
theorem InPayload.decodePayload {front : List UInt8}
    (h : c.InPayload b done (front ++ rest) f k)
    (hsize : min (front ++ rest).length (f.payload.length - k) =
      front.length) (hfront : front <+: f.masked.drop k) :
    ∃ c', c.decodePayload =
        (if c'.payloadRemains = 0 then
          (true, { c' with lastReadIdx := 0, state := .parseFinished })
        else (false, c')) ∧
      c'.InPayload b (done ++ (f.payload.drop k).take front.length) rest f
        (k + front.length) ∧ c'.calls = c.calls := by
  have hunmask : unmask f.key k front =
      (f.payload.drop k).take front.length := by
    obtain ⟨more, hmore⟩ := hfront
    have hwhole := f.unmask_masked_drop k
    rw [← hmore, unmask_append] at hwhole
    rw [← hwhole, List.take_left' (unmask_length _ _ _)]
  have hview : c.recvBuffer.toStringView = front ++ rest := by
    rw [h.buffer, BaseBuffer.consumed_toStringView h.empty]
  have hreadable : min c.recvBuffer.readableBytes c.payloadRemains =
      front.length := by
    rw [h.buffer, BaseBuffer.consumed_readableBytes h.empty, h.remains, hsize]
  have hle : k + front.length ≤ f.payload.length := by
    have hlength := hfront.length_le
    rw [List.length_drop, ClientFrame.masked_length] at hlength
    have hk := h.le
    omega
  rw [WebsocketCodec.decodePayload, hreadable, hview, List.take_left, h.key,
    h.lastReadIdx, mapIdx_eq_unmask, hunmask]
  refine ⟨_, rfl, ?_, rfl⟩
  exact
    { empty := h.empty
      state := h.state
      buffer := by
        simp only [h.buffer]
        apply BaseBuffer.consumed_overwrite h.empty
        rw [← hunmask, unmask_length]
      type := h.type
      payload := by
        simp only [h.payload]
        rw [← List.take_add]
      key := rfl
      remains := by
        simp only [h.remains]
        exact Nat.sub_sub _ _ _
      lastReadIdx := rfl
      le := hle
      received := h.received }

/-- The segment ends before the payload does: more bytes are asked for. -/
theorem InPayload.decode_incomplete (h : c.InPayload b done rest f k)
    (hrest : rest <+: f.masked.drop k)
    (hshort : rest.length < f.payload.length - k) :
    ∃ c', decode env c = .ok (none, c') ∧
      c'.InPayload b (done ++ (f.payload.drop k).take rest.length) [] f
        (k + rest.length) ∧ c'.calls = c.calls := by
  have h' : c.InPayload b done (rest ++ []) f k := by
    rwa [List.append_nil]
  obtain ⟨c', hdecode, hin, hcalls⟩ := h'.decodePayload
    (by rw [List.append_nil, Nat.min_eq_left (Nat.le_of_lt hshort)]) hrest
  refine ⟨c', ?_, hin, hcalls⟩
  rw [decode_payload h.state, hdecode, if_neg]
  rw [hin.remains]
  omega

/-- The payload is complete: the frame is returned. -/
theorem InPayload.decode_complete
    (h : c.InPayload b done (f.masked.drop k ++ rest) f k) :
    ∃ req c', decode env c = .ok (some req, c') ∧
      req.type = f.type ∧ req.payload = f.payload ∧
      c'.AtHead b (done ++ f.payload.drop k) rest ∧
      c'.headReceived = true ∧ c'.calls = c.calls := by
  have hlength : (f.masked.drop k).length = f.payload.length - k := by
    rw [List.length_drop, ClientFrame.masked_length]
  have hk := h.le
  obtain ⟨c', hdecode, hin, hcalls⟩ := h.decodePayload
    (by rw [List.length_append, hlength]; omega) (List.prefix_refl _)
  rw [hlength, Nat.add_sub_cancel' hk] at hin
  have hzero : c'.payloadRemains = 0 := by
    rw [hin.remains, Nat.sub_self]
  rw [if_pos hzero] at hdecode
  refine ⟨c'.req, { c' with
    lastReadIdx := 0
    state := .exceptFrameHead
    req := c'.req.movedFrom }, ?_, hin.type, ?_, ?_, hin.received, hcalls⟩
  · rw [decode_payload h.state, hdecode]
  · rw [hin.payload, List.take_length]
  · have hall : (f.payload.drop k).take (f.payload.length - k) =
        f.payload.drop k := by
      rw [← List.length_drop, List.take_length]
    exact
      { empty := h.empty
        state := rfl
        buffer := hall ▸ hin.buffer
        payload := rfl
        lastReadIdx := rfl }

end Payload

end WebsocketCodec

end Jerry
