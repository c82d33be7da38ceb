/-
Frames from a buffer of which only the readable bytes are known: what the next
`Decode` returns when the head it comes to is readable, and what a `Decode` for
as long as something is readable makes of a stream cut outside the heads.
-/
import Jerry.WsSegmentation

namespace Jerry

namespace BaseBuffer

variable {b : BaseBuffer} {rest : List UInt8}

/-- Every buffer with something to read is one the rest was appended to. -/
theorem exists_consumed (hb : b.Valid) (hview : b.toStringView = rest)
    (hrest : rest ≠ []) :
    ∃ b₀ : BaseBuffer, b₀.Empty ∧ b = b₀.consumed [] rest := by
  have hlength := toStringView_length hb
  rw [hview, readableBytes] at hlength
  have hread := hb.read_le_write
  have hsize := hb.write_le_size
  have hempty : ({ b with writeIdx := b.readIdx } : BaseBuffer).Empty :=
    ⟨⟨Nat.le_refl _, hread.trans hsize⟩, Window.slice_self _ _⟩
  have hroom : ({ b with writeIdx := b.readIdx } :
      BaseBuffer).ensureWritableSpace rest.length =
        { b with writeIdx := b.readIdx } := by
    rw [ensureWritableSpace, if_pos]
    simp only [writableBytes]
    omega
  have hend : b.readIdx + rest.length = b.writeIdx := by omega
  have hsame : Window.overwrite b.buffer b.readIdx rest = b.buffer := by
    have hsplit := Window.drop_eq_slice_append (l := b.buffer) hread
    rw [toStringView] at hview
    rw [hview] at hsplit
    rw [Window.overwrite_eq (hend ▸ hsize), hend, List.append_assoc, ← hsplit,
      List.take_append_drop]
  refine ⟨_, hempty, ?_⟩
  rw [consumed_start hempty hrest, append_eq hrest, hroom]
  simp only [hend, hsame]

end BaseBuffer

open ClientFrame

namespace WebsocketCodec

/-- The first `n` bytes of the frames end inside a head. -/
def InsideHead : List ClientFrame → Nat → Prop
  | [], _ => False
  | f :: frames, n =>
      if n < f.wire.length then 0 < n ∧ n < f.head.length
      else InsideHead frames (n - f.wire.length)

instance decidableInsideHead : ∀ frames n, Decidable (InsideHead frames n)
  | [], _ => isFalse id
  | f :: frames, n =>
      have := decidableInsideHead frames (n - f.wire.length)
      inferInstanceAs (Decidable (ite _ _ _))

/-- Of the frames, `n` bytes have been read, and `rest` is readable. -/
inductive Reading (c : WebsocketCodec) (rest : List UInt8) :
    List ClientFrame → Nat → Prop
  | ready {frames : List ClientFrame} : c.Ready → rest = [] →
      Reading c rest frames 0
  | head {b : BaseBuffer} {done : List UInt8} {frames : List ClientFrame} :
      c.AtHead b done rest → Reading c rest frames 0
  | payload {b : BaseBuffer} {done : List UInt8} {f : ClientFrame}
      {frames : List ClientFrame} {k : Nat} : c.InPayload b done rest f k →
      k < f.payload.length → Reading c rest (f :: frames) (f.head.length + k)

section Reading

variable {env : HandshakeEnv} {c : WebsocketCodec} {b : BaseBuffer}
  {done rest segment : List UInt8} {f : ClientFrame}
  {frames : List ClientFrame} {n k : Nat}

theorem receive_nil (c : WebsocketCodec) : c.receive [] = c := by
  simp [receive, BaseBuffer.append]

/-- What is readable, and the segment behind it. -/
theorem receive_consumed (hb : b.Empty)
    (hbuffer : c.recvBuffer = b.consumed done rest) (hsegment : segment ≠ []) :
    ∃ b' : BaseBuffer, b'.Empty ∧
      (c.receive segment).recvBuffer = b'.consumed [] (rest ++ segment) := by
  have hvalid : c.recvBuffer.Valid := by
    rw [hbuffer]
    exact BaseBuffer.consumed_valid hb done rest
  apply BaseBuffer.exists_consumed (BaseBuffer.append_valid hvalid segment)
  · rw [BaseBuffer.append_toStringView hvalid, hbuffer,
      BaseBuffer.consumed_toStringView hb]
  · exact List.append_ne_nil_of_right_ne_nil _ hsegment

theorem Reading.receive (h : c.Reading rest frames n) (segment : List UInt8) :
    (c.receive segment).Reading (rest ++ segment) frames n := by
  by_cases hsegment : segment = []
  · rw [hsegment, receive_nil, List.append_nil]
    exact h
  cases h with
  | ready hready hrest =>
      rw [hrest]
      exact .head (hready.receive hsegment)
  | head hat =>
      obtain ⟨b', hempty, hbuffer⟩ :=
        receive_consumed hat.empty hat.buffer hsegment
      exact .head ⟨hempty, hat.state, hbuffer, hat.payload, hat.lastReadIdx⟩
  | payload hin hk =>
      obtain ⟨b', hempty, hbuffer⟩ :=
        receive_consumed hin.empty hin.buffer hsegment
      have hin' : (c.receive segment).InPayload b' [] (rest ++ segment) _ _ :=
        { empty := hempty
          state := hin.state
          buffer := hbuffer
          type := hin.type
          payload := hin.payload
          key := hin.key
          remains := hin.remains
          lastReadIdx := hin.lastReadIdx
          le := hin.le
          received := hin.received }
      exact .payload hin' hk

theorem Reading.readableBytes (h : c.Reading rest frames n) :
    c.recvBuffer.readableBytes = rest.length := by
  cases h with
  | ready hready hrest =>
      rw [← BaseBuffer.toStringView_length hready.empty.valid,
        hready.empty.view, hrest]
  | head hat => rw [hat.buffer, BaseBuffer.consumed_readableBytes hat.empty]
  | payload hin _ => rw [hin.buffer, BaseBuffer.consumed_readableBytes hin.empty]

/-- What one call of `Decode` makes of the first frame: it returns it, and
`rest'` is left, or it takes all there is of it. -/
inductive Reads (env : HandshakeEnv) (c : WebsocketCodec) (rest : List UInt8)
    (f : ClientFrame) (frames : List ClientFrame) (n : Nat) : Prop
  | complete {front rest' : List UInt8} {req : WsReq} {c' : WebsocketCodec} :
      rest = front ++ rest' → n + front.length = f.wire.length →
      decode env c = .ok (some req, c') → Produced (req, c'.headReceived) f →
      c'.Reading rest' frames 0 → c'.calls = c.calls → Reads env c rest f frames n
  | incomplete {c' : WebsocketCodec} : n + rest.length < f.wire.length →
      decode env c = .ok (none, c') →
      c'.Reading [] (f :: frames) (n + rest.length) → c'.calls = c.calls →
      Reads env c rest f frames n

theorem InPayload.reads (h : c.InPayload b done rest f k)
    (hahead : rest <+: f.masked.drop k ++ wires frames) :
    Reads env c rest f frames (f.head.length + k) := by
  have hdrop : (f.masked.drop k).length = f.payload.length - k := by
    rw [List.length_drop, masked_length]
  have hk := h.le
  rcases Nat.lt_or_ge rest.length (f.payload.length - k) with hshort | hlong
  · have hrest : rest <+: f.masked.drop k := by
      apply List.prefix_of_prefix_length_le hahead (List.prefix_append _ _)
      omega
    obtain ⟨c', hdecode, hin, hcalls⟩ := @InPayload.decode_incomplete c b
      done rest f k env h hrest hshort
    refine .incomplete ?_ hdecode ?_ hcalls
    · rw [wire_length]
      omega
    · rw [Nat.add_assoc]
      exact .payload hin (by omega)
  · obtain ⟨rest', rfl⟩ : f.masked.drop k <+: rest := by
      apply List.prefix_of_prefix_length_le (List.prefix_append _ _) hahead
      omega
    obtain ⟨req, c', hdecode, htype, hpayload, hat, hreceived, hcalls⟩ :=
      @InPayload.decode_complete c b done rest' f k env h
    refine .complete rfl ?_ hdecode ⟨htype, hpayload, hreceived⟩ (.head hat)
      hcalls
    rw [hdrop, wire_length]
    omega

/-- A head that is readable is read, and so is what there is of its payload. -/
theorem Reading.reads (h : c.Reading rest (f :: frames) n) (hrest : rest ≠ [])
    (hahead : rest <+: (wires (f :: frames)).drop n)
    (hhead : f.head.length ≤ n + rest.length) :
    Reads env c rest f frames n := by
  cases h with
  | ready _ hnil => exact absurd hnil hrest
  | head hat =>
      rw [List.drop_zero, wires_cons] at hahead
      obtain ⟨rest', rfl⟩ : f.head <+: rest := by
        apply List.prefix_of_prefix_length_le (List.prefix_append _ _) hahead
        omega
      obtain ⟨c', hread, hin, hcalls⟩ := hat.decodeFrameHead
      have hdecode := @decode_head c env hat.state
      rw [hread] at hdecode
      have hpayload : Reads env _ _ _ frames _ := hin.reads
        (by rwa [List.drop_zero, ← List.prefix_append_right_inj f.head])
      cases hpayload with
      | @complete front rest'' req c'' hsplit hlength hout hproduced hnext hsame =>
          have hwhole : f.head ++ rest' = f.head ++ front ++ rest'' := by
            rw [List.append_assoc, hsplit]
          refine .complete hwhole ?_ (hdecode.trans hout) hproduced hnext
            (hsame.trans hcalls)
          rw [List.length_append]
          omega
      | incomplete hshort hout hnext hsame =>
          refine .incomplete ?_ (hdecode.trans hout) ?_ (hsame.trans hcalls)
          · rw [List.length_append]
            omega
          · rw [List.length_append, Nat.zero_add]
            exact hnext
  | payload hin hk =>
      apply hin.reads
      rwa [wires_cons, ← List.drop_drop, List.drop_left,
        List.drop_append_of_le_length (by rw [masked_length]; omega)] at hahead

end Reading

/-- The request has the host and the URI of the handshake while its payload is
read. -/
def Named (c : WebsocketCodec) : Prop :=
  c.state = .exceptPayload →
    c.req.host = c.host ∧ c.req.requestUri = c.requestUri

section Named

variable {env : HandshakeEnv} {c c' : WebsocketCodec} {out : Option WsReq}

theorem decodeFrameHead_named {ok : Bool}
    (h : c.decodeFrameHead = .ok (ok, c')) :
    c'.host = c.host ∧ c'.requestUri = c.requestUri ∧
      (ok = true → c'.Named) ∧ (ok = false → c'.state = c.state) := by
  simp only [decodeFrameHead] at h
  split at h
  · split at h
    · obtain ⟨rfl, rfl⟩ := Prod.mk.inj (Except.ok.inj h)
      exact ⟨rfl, rfl, fun hok => absurd hok (by decide), fun _ => rfl⟩
    · split at h
      · cases h
      · obtain ⟨rfl, rfl⟩ := Prod.mk.inj (Except.ok.inj h)
        exact ⟨rfl, rfl, fun _ _ => ⟨rfl, rfl⟩, fun hok => absurd hok (by decide)⟩
  · cases h

theorem decodePayload_named {finished : Bool}
    (h : c.decodePayload = (finished, c')) :
    c'.host = c.host ∧ c'.requestUri = c.requestUri ∧
      c'.req.host = c.req.host ∧ c'.req.requestUri = c.req.requestUri := by
  simp only [decodePayload] at h
  split at h
  · obtain ⟨rfl, rfl⟩ := Prod.mk.inj h
    exact ⟨rfl, rfl, rfl, rfl⟩
  · obtain ⟨rfl, rfl⟩ := Prod.mk.inj h
    exact ⟨rfl, rfl, rfl, rfl⟩

/-- What a call of `Decode` behind the handshake keeps, and what it puts into
the request it returns. -/
structure KeepsNames (c : WebsocketCodec) (out : Option WsReq)
    (c' : WebsocketCodec) : Prop where
  host : c'.host = c.host
  requestUri : c'.requestUri = c.requestUri
  named : c'.Named
  req : ∀ req, out = some req →
    req.host = c.host ∧ req.requestUri = c.requestUri

theorem decode_payload_named (hstate : c.state = .exceptPayload)
    (hnamed : c.Named) (h : decode env c = .ok (out, c')) :
    KeepsNames c out c' := by
  obtain ⟨hhost, huri⟩ := hnamed hstate
  obtain ⟨finished, c₁, hpayload, _, hnext, _, _⟩ := decodePayload_cases c
  obtain ⟨hhost₁, huri₁, hreq₁, hrequri₁⟩ := decodePayload_named hpayload
  rw [decode_payload hstate, hpayload] at h
  cases finished with
  | false =>
      obtain ⟨rfl, rfl⟩ := Prod.mk.inj (Except.ok.inj h)
      exact
        { host := hhost₁
          requestUri := huri₁
          named := fun _ => ⟨by rw [hreq₁, hhost, hhost₁],
            by rw [hrequri₁, huri, huri₁]⟩
          req := fun req hreq => absurd hreq (by simp) }
  | true =>
      obtain ⟨rfl, rfl⟩ := Prod.mk.inj (Except.ok.inj h)
      exact
        { host := hhost₁
          requestUri := huri₁
          named := fun hpayload => absurd hpayload (by simp)
          req := fun req hreq => by
            obtain rfl := Option.some.inj hreq
            exact ⟨hreq₁.trans hhost, hrequri₁.trans huri⟩ }

theorem decode_named (hnamed : c.Named)
    (hstate : c.state = .exceptFrameHead ∨ c.state = .exceptPayload)
    (h : decode env c = .ok (out, c')) : KeepsNames c out c' := by
  rcases hstate with hstate | hstate
  · have hdecode := @decode_head c env hstate
    rw [h] at hdecode
    cases hhead : c.decodeFrameHead with
    | error fault =>
        rw [hhead] at hdecode
        cases hdecode
    | ok r =>
        obtain ⟨ok, c₁⟩ := r
        obtain ⟨hhost, huri, hnamed₁, hsame⟩ := decodeFrameHead_named hhead
        rw [hhead] at hdecode
        cases ok with
        | false =>
            obtain ⟨rfl, rfl⟩ := Prod.mk.inj (Except.ok.inj hdecode)
            refine ⟨hhost, huri, fun hpayload => ?_,
              fun req hreq => absurd hreq (by simp)⟩
            rw [hsame rfl, hstate] at hpayload
            cases hpayload
        | true =>
            have hpayload : c₁.state = .exceptPayload := by
              rcases decodeFrameHead_cases c with
                ⟨_, heq, _⟩ | ⟨_, heq, _⟩ |
                ⟨_, _, _, _, _, _, _, heq, hnext, _⟩
              · rw [hhead] at heq
                cases heq
              · rw [hhead] at heq
                cases heq
              · rw [hhead] at heq
                obtain rfl := (Prod.mk.inj (Except.ok.inj heq)).2
                exact hnext
            have hkeeps := decode_payload_named hpayload (hnamed₁ rfl)
              hdecode.symm
            exact
              { host := hkeeps.host.trans hhost
                requestUri := hkeeps.requestUri.trans huri
                named := hkeeps.named
                req := fun req hreq => by
                  obtain ⟨hreqHost, hreqUri⟩ := hkeeps.req req hreq
                  exact ⟨hreqHost.trans hhost, hreqUri.trans huri⟩ }
  · exact decode_payload_named hstate hnamed h

end Named

end WebsocketCodec

end Jerry
