/-
A stream of frames that is never cut inside a head: with a `Decode` for as long
as something is readable, every frame is returned, as it was sent.
-/
import Jerry.HeaderNames
import Jerry.WsUpgrade

namespace Jerry

open CString ClientFrame HttpReqDecoder

/-- The request a frame is. -/
def ClientFrame.toReq (f : ClientFrame) (host requestUri : List UInt8) : WsReq :=
  { type := f.type
    payload := f.payload
    host := host
    requestUri := requestUri }

namespace WebsocketCodec

/-- The handshake has been completed with what `c₀` had received. -/
structure Handshaken (env : HandshakeEnv) (c₀ c : WebsocketCodec) : Prop where
  state : c₀.state = .exceptHandshake
  payload : c₀.req.payload = []
  lastReadIdx : c₀.lastReadIdx = 0
  valid : c₀.recvBuffer.Valid
  decode : decode env c₀ = .ok (none, c)
  done : c.state = .exceptFrameHead

/-- What is readable begins with a request line for `uri`, and of the header
lines behind it the first that is named `Host` has the value `host`. -/
def Asks (b : BaseBuffer) (host uri : List UInt8) : Prop :=
  ∃ (q : RequestHead) (lines : List FieldLine) (tail : List UInt8),
    b.toStringView = q.requestLine ++ (FieldLine.wires lines ++ tail) ∧
    crlf <+: tail ++ b.deadBytes ∧ q.uri = uri ∧
    ∃ l, lines.find? (fun l =>
        decide (EqualFold (cStr l.name) (bytes "Host"))) = some l ∧
      l.value = host

/-- Of a whole upgrade request the host and the URI are the ones it was made of. -/
def AsksFor (b : BaseBuffer) (host uri : List UInt8) : Prop :=
  Asks b host uri ∧
    ∀ u : UpgradeRequest, b.toStringView = u.wire →
      u.field "Host" = some host ∧ u.head.uri = uri

/-- No segment ends inside a head.  `n` bytes have come before. -/
def EndsOutsideHeads (frames : List ClientFrame) :
    Nat → List (List UInt8) → Prop
  | _, [] => True
  | n, segment :: segments =>
      ¬ InsideHead frames (n + segment.length) ∧
        EndsOutsideHeads frames (n + segment.length) segments

instance decidableEndsOutsideHeads (frames : List ClientFrame) :
    ∀ n segments, Decidable (EndsOutsideHeads frames n segments)
  | _, [] => isTrue trivial
  | n, segment :: segments =>
      have := decidableEndsOutsideHeads frames (n + segment.length) segments
      inferInstanceAs (Decidable (_ ∧ _))

/-- `Decode` is called as long as something is readable, watched for `fuel`
calls.  With what a call returned goes how many bytes it took. -/
def drainReadable (env : HandshakeEnv) (fuel : Nat) (c : WebsocketCodec) :
    Except Fault (List (Option WsReq × Nat) × WebsocketCodec) :=
  if c.recvBuffer.readableBytes = 0 then .ok ([], c)
  else
    match fuel with
    | 0 => .error .endless
    | fuel + 1 =>
        match decode env c with
        | .error fault => .error fault
        | .ok (out, c') =>
            let took := c.recvBuffer.readableBytes - c'.recvBuffer.readableBytes
            (drainReadable env fuel c').map fun r => ((out, took) :: r.1, r.2)

/-- The segments arrive one by one.  A call for every byte is enough. -/
def feedReadable (env : HandshakeEnv) : WebsocketCodec → List (List UInt8) →
    Except Fault (List (Option WsReq × Nat) × WebsocketCodec)
  | c, [] => .ok ([], c)
  | c, segment :: segments =>
      let received := c.receive segment
      match drainReadable env received.recvBuffer.readableBytes received with
      | .error fault => .error fault
      | .ok (calls, c') =>
          (feedReadable env c' segments).map fun r => (calls ++ r.1, r.2)

section Handshake

variable {env : HandshakeEnv} {c₀ c : WebsocketCodec}

theorem Handshaken.ready (h : Handshaken env c₀ c) : c.Ready :=
  decode_ready h.state h.payload h.lastReadIdx h.decode h.done

/-- The request was handed out, not refused, and has been recorded. -/
theorem Handshaken.recorded (h : Handshaken env c₀ c) :
    ∃ req d, (HttpReqDecoder.init c₀.recvBuffer).decode = .ok (some req, d) ∧
      refuses req = false ∧ c.host = (getHeader req "Host").getD [] ∧
      c.requestUri = req.getRequestUri := by
  have hdecode := h.decode
  have hdone := h.done
  rw [WebsocketCodec.decode, decodeLoop, h.state] at hdecode
  simp only [handShake] at hdecode
  split at hdecode
  · cases hdecode
  · rename_i c₁ hshake
    obtain rfl := (Prod.mk.inj (Except.ok.inj hdecode)).2
    split at hshake
    · cases hshake
    · obtain rfl := Except.ok.inj hshake
      have hsame : c₀.state = .exceptFrameHead := hdone
      rw [h.state] at hsame
      cases hsame
    · rename_i req d hrequest
      split at hshake
      · split at hshake
        · cases hshake
        · obtain rfl := Except.ok.inj hshake
          have hsame : c₀.state = .exceptFrameHead := hdone
          rw [h.state] at hsame
          cases hsame
      · rename_i hrefuses
        split at hshake
        · cases hshake
        · obtain rfl := Except.ok.inj hshake
          exact ⟨req, d, hrequest, eq_false_of_ne_true hrefuses, rfl, rfl⟩

theorem getHeader_host {req : HttpReq} {lines : List FieldLine}
    (hheaders : req.headers = FieldLine.addAll lines .empty) :
    getHeader req "Host" = (lines.find? fun l =>
      decide (EqualFold (cStr l.name) (bytes "Host"))).map FieldLine.value := by
  have hname : cStr (bytes "Host") = bytes "Host" := by decide
  rw [getHeader, FieldLine.getHeader_eq hheaders, hname]

theorem refuses_host {req : HttpReq} (h : refuses req = false) :
    (getHeader req "Host").isSome := by
  simp only [refuses, Bool.or_eq_false_iff] at h
  exact Option.isNone_eq_false_iff.mp h.1.1.1.1.2

/-- The host and the URI of the codec are read from what it had received. -/
theorem Handshaken.asksFor (h : Handshaken env c₀ c) :
    AsksFor c₀.recvBuffer c.host c.requestUri := by
  obtain ⟨req, d, hrequest, hrefuses, hhost, huri⟩ := h.recorded
  obtain ⟨host, hsome⟩ := Option.isSome_iff_exists.mp (refuses_host hrefuses)
  rw [hsome, Option.getD_some] at hhost
  constructor
  · cases decode_sound (d := HttpReqDecoder.init c₀.recvBuffer) rfl rfl rfl
      h.valid hrequest with
    | @whole _ q lines tail hview hend _ hline _ hheaders =>
        have hfind := (getHeader_host hheaders).symm.trans hsome
        obtain ⟨l, hl, hvalue⟩ := Option.map_eq_some_iff.mp hfind
        exact ⟨q, lines, tail, hview, hend, (huri.trans hline).symm, l, hl,
          hvalue.trans hhost.symm⟩
  · intro u hview
    obtain ⟨body, truncated, d', hwhole⟩ :=
      decode_fieldLines (d := HttpReqDecoder.init c₀.recvBuffer) (q := u.head)
        rfl rfl rfl h.valid u.lines_begin (u.addAll_lines _) hview
    rw [hrequest] at hwhole
    obtain rfl := Option.some.inj (Prod.mk.inj (Except.ok.inj hwhole)).1
    obtain ⟨hfield, _⟩ := getHeader_toReq u body truncated
      (by decide : "Host" ∈ upgradeFields)
    exact ⟨hfield.symm.trans (hsome.trans (congrArg some hhost.symm)), huri.symm⟩

end Handshake

section Streaming

variable {env : HandshakeEnv} {c : WebsocketCodec} {rest future : List UInt8}
  {f : ClientFrame} {frames : List ClientFrame} {n m fuel : Nat}
  {segments : List (List UInt8)}

theorem insideHead_wire_add (m : Nat) :
    InsideHead (f :: frames) (f.wire.length + m) ↔ InsideHead frames m := by
  rw [InsideHead, if_neg (by omega), Nat.add_sub_cancel_left]

/-- Outside the heads, something of a head is all of it. -/
theorem head_length_le (h : ¬ InsideHead (f :: frames) n) (hn : 0 < n) :
    f.head.length ≤ n := by
  by_contra hlt
  apply h
  rw [InsideHead, if_pos (by rw [wire_length]; omega)]
  exact ⟨hn, by omega⟩

theorem endsOutsideHeads_wire_add (m : Nat) :
    EndsOutsideHeads (f :: frames) (f.wire.length + m) segments ↔
      EndsOutsideHeads frames m segments := by
  induction segments generalizing m with
  | nil => rfl
  | cons segment segments ih =>
      rw [EndsOutsideHeads, EndsOutsideHeads, Nat.add_assoc,
        insideHead_wire_add, ih]

/-- What the calls of `Decode` return, and that each of them gets on. -/
structure Returned (calls : List (Option WsReq × Nat))
    (reqs : List WsReq) : Prop where
  reqs : calls.filterMap Prod.fst = reqs
  progress : ∀ call ∈ calls, call.1.isSome ∨ 0 < call.2

theorem Returned.append {calls calls' : List (Option WsReq × Nat)}
    {reqs reqs' : List WsReq} (h : Returned calls reqs)
    (h' : Returned calls' reqs') :
    Returned (calls ++ calls') (reqs ++ reqs') := by
  constructor
  · rw [List.filterMap_append, h.reqs, h'.reqs]
  · intro call hcall
    rcases List.mem_append.mp hcall with hcall | hcall
    · exact h.progress call hcall
    · exact h'.progress call hcall

theorem Returned.cons {calls : List (Option WsReq × Nat)} {reqs : List WsReq}
    (h : Returned calls reqs) (call : Option WsReq × Nat)
    (hcall : call.1.isSome ∨ 0 < call.2) :
    Returned (call :: calls) (call.1.toList ++ reqs) := by
  constructor
  · cases hout : call.1 with
    | none => rw [List.filterMap_cons_none hout, h.reqs]; rfl
    | some req => rw [List.filterMap_cons_some hout, h.reqs]; rfl
  · intro call' hcall'
    rcases List.mem_cons.mp hcall' with rfl | hcall'
    · exact hcall
    · exact h.progress call' hcall'

/-- What has been read of the frames, with what is to come. -/
structure Upto (c : WebsocketCodec) (rest future : List UInt8)
    (frames : List ClientFrame) (n : Nat) (segments : List (List UInt8)) :
    Prop where
  reading : c.Reading rest frames n
  named : c.Named
  ahead : rest ++ future = (wires frames).drop n
  outside : ¬ InsideHead frames (n + rest.length)
  cuts : EndsOutsideHeads frames (n + rest.length) segments

theorem Reading.state (h : c.Reading rest frames n) :
    c.state = .exceptFrameHead ∨ c.state = .exceptPayload := by
  cases h with
  | ready hready _ => exact Or.inl hready.state
  | head hat => exact Or.inl hat.state
  | payload hin _ => exact Or.inr hin.state

theorem Reading.lt_wire_length (h : c.Reading rest (f :: frames) n) :
    n < f.wire.length := by
  have hhead := f.head_length
  have hwire := f.wire_length
  cases h with
  | ready _ _ => omega
  | head _ => omega
  | payload _ hk => omega

theorem drop_wire (frames : List ClientFrame) :
    (wires (f :: frames)).drop f.wire.length = wires frames := by
  rw [wires, List.flatMap_cons, List.drop_left]
  rfl

/-- Something is ahead of every frame that has not been returned. -/
theorem Reading.eq_nil (h : c.Reading rest frames n)
    (hnone : (wires frames).drop n = []) : frames = [] := by
  cases frames with
  | nil => rfl
  | cons f frames =>
      have hlt := h.lt_wire_length
      have hlength := List.drop_eq_nil_iff.mp hnone
      rw [wires, List.flatMap_cons, List.length_append] at hlength
      omega

variable (env) in
/-- The step lemma: a call returns the first frame, or takes all there is. -/
theorem Upto.decode (h : Upto c rest future frames n segments)
    (hrest : rest ≠ []) :
    ∃ f frames', frames = f :: frames' ∧
      ((∃ rest' c', rest'.length < rest.length ∧
          decode env c = .ok (some (f.toReq c.host c.requestUri), c') ∧
          c'.host = c.host ∧ c'.requestUri = c.requestUri ∧
          Upto c' rest' future frames' 0 segments) ∨
        (∃ c', decode env c = .ok (none, c') ∧
          c'.host = c.host ∧ c'.requestUri = c.requestUri ∧
          Upto c' [] future frames (n + rest.length) segments)) := by
  have hpos := List.length_pos_of_ne_nil hrest
  cases frames with
  | nil =>
      have hnone := h.ahead
      rw [wires, List.flatMap_nil, List.drop_nil] at hnone
      exact absurd (List.append_eq_nil_iff.mp hnone).1 hrest
  | cons f frames =>
      refine ⟨f, frames, rfl, ?_⟩
      have hlt := h.reading.lt_wire_length
      have hreads : Reads env c rest f frames n := h.reading.reads hrest
        (h.ahead ▸ List.prefix_append _ _)
        (head_length_le h.outside (by omega))
      cases hreads with
      | @complete front rest' req c' hsplit hlength hdecode hproduced hnext _ =>
          have hkeeps := decode_named h.named h.reading.state hdecode
          obtain ⟨hhost, huri⟩ := hkeeps.req req rfl
          have hreq : req = f.toReq c.host c.requestUri := by
            rw [ClientFrame.toReq, ← hproduced.type, ← hproduced.payload,
              ← hhost, ← huri]
          have hrestLength : rest.length = front.length + rest'.length := by
            rw [hsplit, List.length_append]
          have hend : n + rest.length = f.wire.length + rest'.length := by omega
          have hahead := congrArg (List.drop front.length) h.ahead
          rw [hsplit, List.append_assoc, List.drop_left, List.drop_drop, hlength,
            drop_wire] at hahead
          refine Or.inl ⟨rest', c', by omega, hreq ▸ hdecode, hkeeps.host,
            hkeeps.requestUri, hnext, hkeeps.named, hahead, ?_, ?_⟩
          · rw [Nat.zero_add, ← insideHead_wire_add (f := f), ← hend]
            exact h.outside
          · rw [Nat.zero_add, ← endsOutsideHeads_wire_add (f := f), ← hend]
            exact h.cuts
      | @incomplete c' hshort hdecode hnext _ =>
          have hkeeps := decode_named h.named h.reading.state hdecode
          have hahead := congrArg (List.drop rest.length) h.ahead
          rw [List.drop_left, List.drop_drop] at hahead
          exact Or.inr ⟨c', hdecode, hkeeps.host, hkeeps.requestUri, hnext,
            hkeeps.named, hahead, h.outside, h.cuts⟩

theorem drainReadable_nil (hzero : c.recvBuffer.readableBytes = 0) :
    drainReadable env fuel c = .ok ([], c) := by
  rw [drainReadable.eq_def, if_pos hzero]

theorem drainReadable_call {c' c'' : WebsocketCodec} {out : Option WsReq}
    {calls : List (Option WsReq × Nat)}
    (hreadable : c.recvBuffer.readableBytes ≠ 0)
    (hdecode : WebsocketCodec.decode env c = .ok (out, c'))
    (hdrain : drainReadable env fuel c' = .ok (calls, c'')) :
    drainReadable env (fuel + 1) c = .ok ((out, c.recvBuffer.readableBytes -
      c'.recvBuffer.readableBytes) :: calls, c'') := by
  rw [drainReadable, if_neg hreadable]
  simp only [hdecode, hdrain]
  rfl

variable (env) in
/-- What is readable is read to its end. -/
theorem Upto.drainReadable (h : Upto c rest future frames n segments)
    (hfuel : rest.length ≤ fuel) :
    ∃ calls c' done frames' n', drainReadable env fuel c = .ok (calls, c') ∧
      frames = done ++ frames' ∧
      Returned calls (done.map fun f => f.toReq c.host c.requestUri) ∧
      c'.host = c.host ∧ c'.requestUri = c.requestUri ∧
      Upto c' [] future frames' n' segments := by
  induction fuel generalizing c rest frames n with
  | zero =>
      obtain rfl : rest = [] := List.length_eq_zero_iff.mp (by omega)
      exact ⟨[], c, [], frames, n, drainReadable_nil h.reading.readableBytes, rfl,
        ⟨rfl, by simp⟩, rfl, rfl, h⟩
  | succ fuel ih =>
      have hreadable := h.reading.readableBytes
      by_cases hrest : rest = []
      · subst hrest
        exact ⟨[], c, [], frames, n, drainReadable_nil hreadable, rfl,
          ⟨rfl, by simp⟩, rfl, rfl, h⟩
      have hpos := List.length_pos_of_ne_nil hrest
      have hmore : c.recvBuffer.readableBytes ≠ 0 := by omega
      obtain ⟨f, frames', rfl, hcall⟩ := h.decode env hrest
      rcases hcall with
        ⟨rest', c', hlt, hdecode, hhost, huri, hupto⟩ |
        ⟨c', hdecode, hhost, huri, hupto⟩
      · obtain ⟨calls, c'', done, frames'', n', hdrain, hframes, hreturned,
          hhost', huri', hupto'⟩ := ih hupto (by omega)
        rw [hhost, huri] at hreturned
        exact ⟨_, c'', f :: done, frames'', n',
          drainReadable_call hmore hdecode hdrain,
          by rw [hframes, List.cons_append], hreturned.cons _ (Or.inl rfl),
          hhost'.trans hhost, huri'.trans huri, hupto'⟩
      · obtain ⟨calls, c'', done, frames'', n', hdrain, hframes, hreturned,
          hhost', huri', hupto'⟩ := ih hupto (Nat.zero_le _)
        have hnothing := hupto.reading.readableBytes
        rw [List.length_nil] at hnothing
        rw [hhost, huri] at hreturned
        exact ⟨_, c'', done, frames'', n',
          drainReadable_call hmore hdecode hdrain, hframes,
          hreturned.cons _ (Or.inr (by simp only; omega)), hhost'.trans hhost,
          huri'.trans huri, hupto'⟩

variable (env) in
/-- Segment after segment. -/
theorem Reading.feedReadable (h : c.Reading [] frames n) (hnamed : c.Named)
    (hwire : segments.flatten = (wires frames).drop n)
    (hcuts : EndsOutsideHeads frames n segments) :
    ∃ calls c', feedReadable env c segments = .ok (calls, c') ∧
      Returned calls (frames.map fun f => f.toReq c.host c.requestUri) := by
  induction segments generalizing c frames n with
  | nil =>
      obtain rfl := h.eq_nil hwire.symm
      exact ⟨[], c, rfl, rfl, by simp⟩
  | cons segment segments ih =>
      have hupto : Upto (c.receive segment) segment segments.flatten frames n
          segments :=
        ⟨h.receive segment, hnamed, hwire, hcuts.1, hcuts.2⟩
      obtain ⟨calls, c', done, frames', n', hdrain, rfl, hreturned, hhost, huri,
        hupto'⟩ := hupto.drainReadable env
          (Nat.le_of_eq hupto.reading.readableBytes.symm)
      obtain ⟨calls', c'', hfeed, hreturned'⟩ :=
        ih hupto'.reading hupto'.named hupto'.ahead hupto'.cuts
      refine ⟨calls ++ calls', c'', ?_, ?_⟩
      · simp only [WebsocketCodec.feedReadable, hdrain, hfeed]
        rfl
      · rw [hhost, huri] at hreturned'
        rw [List.map_append]
        exact hreturned.append hreturned'

end Streaming

/-- Whatever the vector holds and wherever the segments end, as long as no head
is cut, the calls of `Decode` return the frames, with the host and the URI that
the request of the handshake asked for, and each of them gets on. -/
theorem frames_decoded {env : HandshakeEnv} {c₀ c : WebsocketCodec}
    {frames : List ClientFrame} {segments : List (List UInt8)}
    (h : Handshaken env c₀ c) (hwire : segments.flatten = wires frames)
    (hcuts : EndsOutsideHeads frames 0 segments) :
    ∃ host uri calls c', AsksFor c₀.recvBuffer host uri ∧
      feedReadable env c segments = .ok (calls, c') ∧
      calls.filterMap Prod.fst = frames.map (fun f => f.toReq host uri) ∧
      ∀ call ∈ calls, call.1.isSome ∨ 0 < call.2 := by
  have hnamed : c.Named := by
    intro hpayload
    rw [h.done] at hpayload
    cases hpayload
  have hreading : c.Reading [] frames 0 := .ready h.ready rfl
  obtain ⟨calls, c', hfeed, hreturned⟩ :=
    hreading.feedReadable env hnamed hwire hcuts
  exact ⟨c.host, c.requestUri, calls, c', h.asksFor, hfeed, hreturned.reqs,
    hreturned.progress⟩

theorem exampleUpgrade_handshaken : ∃ c, Handshaken exampleEnv
    ((init (BaseBuffer.ofSize 1024)).receive exampleUpgrade) c := by
  let c₀ := (init (BaseBuffer.ofSize 1024)).receive exampleUpgrade
  have hdone : ((decode exampleEnv c₀).toOption.map fun r =>
      (r.1, r.2.state)) = some (none, .exceptFrameHead) := by decide +kernel
  have hvalid (n : Nat) (segment : List UInt8) :
      ((init (BaseBuffer.ofSize n)).receive segment).recvBuffer.Valid :=
    BaseBuffer.append_valid (BaseBuffer.ofSize_valid n) segment
  cases hdecode : decode exampleEnv c₀ with
  | error fault =>
      rw [hdecode] at hdone
      cases hdone
  | ok r =>
      obtain ⟨out, c⟩ := r
      rw [hdecode] at hdone
      obtain ⟨rfl, hstate⟩ := Prod.mk.inj (Option.some.inj hdone)
      exact ⟨c, rfl, rfl, rfl, hvalid 1024 exampleUpgrade, hdecode, hstate⟩

/-- A cut right behind a head, one inside the payload, and the end of the first
frame together with the head of the second. -/
theorem frames_decoded_pieces :
    ∃ c calls c', Handshaken exampleEnv
        ((init (BaseBuffer.ofSize 1024)).receive exampleUpgrade) c ∧
      feedReadable exampleEnv c [(wires exampleFrames).take 6,
        ((wires exampleFrames).drop 6).take 1,
        ((wires exampleFrames).drop 7).take 11,
        (wires exampleFrames).drop 18] = .ok (calls, c') ∧
      (calls.filterMap Prod.fst).map WsReq.payload =
        exampleFrames.map payload := by
  obtain ⟨c, hshake⟩ := exampleUpgrade_handshaken
  have hcuts : EndsOutsideHeads exampleFrames 0 [(wires exampleFrames).take 6,
      ((wires exampleFrames).drop 6).take 1,
      ((wires exampleFrames).drop 7).take 11,
      (wires exampleFrames).drop 18] := by decide +kernel
  obtain ⟨host, uri, calls, c', _, hfeed, hreqs, _⟩ :=
    frames_decoded hshake (by decide +kernel) hcuts
  refine ⟨c, calls, c', hshake, hfeed, ?_⟩
  rw [hreqs, List.map_map]
  rfl

end WebsocketCodec

end Jerry
