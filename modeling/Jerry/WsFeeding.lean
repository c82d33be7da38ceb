/-
A stream that arrives in segments: `Decode` is called behind each of them until
it returns nothing, and what it returned is compared with the frames sent.
-/
import Jerry.WsDecoding
import Mathlib.Data.List.Forall2

namespace Jerry

namespace WebsocketCodec

/-- A segment arrives. -/
def receive (c : WebsocketCodec) (segment : List UInt8) : WebsocketCodec :=
  { c with recvBuffer := c.recvBuffer.append segment }

/-- A segment behind one that has been read to its end. -/
theorem InPayload.receive {c : WebsocketCodec} {b : BaseBuffer}
    {done segment : List UInt8} {f : ClientFrame} {k : Nat}
    (h : c.InPayload b done [] f k) (hsegment : segment ≠ []) :
    (c.receive segment).InPayload (b.append done).dropAllBytes [] segment f
      k := by
  have hempty := BaseBuffer.dropAllBytes_empty (b.append done)
  exact
    { empty := hempty
      state := h.state
      buffer := by
        rw [BaseBuffer.consumed_start hempty hsegment,
          ← BaseBuffer.consumed_nil h.empty, ← h.buffer]
        rfl
      type := h.type
      payload := h.payload
      key := h.key
      remains := h.remains
      lastReadIdx := h.lastReadIdx
      le := h.le
      received := h.received }

/-- `Decode` is called until it returns nothing.  With each request goes whether
its head had been received. -/
inductive Drain (env : HandshakeEnv) :
    WebsocketCodec → List (WsReq × Bool) → WebsocketCodec → Prop
  | done {c c' : WebsocketCodec} : decode env c = .ok (none, c') →
      Drain env c [] c'
  | next {c c' c'' : WebsocketCodec} {req : WsReq}
      {outs : List (WsReq × Bool)} : decode env c = .ok (some req, c') →
      Drain env c' outs c'' → Drain env c ((req, c'.headReceived) :: outs) c''

/-- The segments arrive one by one. -/
inductive Feed (env : HandshakeEnv) : WebsocketCodec → List (List UInt8) →
    List (WsReq × Bool) → WebsocketCodec → Prop
  | nil {c : WebsocketCodec} : Feed env c [] [] c
  | cons {c c' c'' : WebsocketCodec} {segment : List UInt8}
      {segments : List (List UInt8)} {outs outs' : List (WsReq × Bool)} :
      Drain env (c.receive segment) outs c' → Feed env c' segments outs' c'' →
      Feed env c (segment :: segments) (outs ++ outs') c''

/-- The request is the frame, and was made from received bytes. -/
structure Produced (out : WsReq × Bool) (f : ClientFrame) : Prop where
  type : out.1.type = f.type
  payload : out.1.payload = f.payload
  received : out.2 = true

/-- The segments yield the frames, and the connection ends with `calls`. -/
def Delivers (env : HandshakeEnv) (calls : List ConnCall) (c : WebsocketCodec)
    (frames : List ClientFrame) (segments : List (List UInt8)) : Prop :=
  ∃ outs c', Feed env c segments outs c' ∧ List.Forall₂ Produced outs frames ∧
    c'.calls = calls

/-- `Delivers`, with the calls of `Decode` behind the last segment to come. -/
def Yields (env : HandshakeEnv) (calls : List ConnCall) (c : WebsocketCodec)
    (frames : List ClientFrame) (segments : List (List UInt8)) : Prop :=
  ∃ outs c₁ outs' c', Drain env c outs c₁ ∧ Feed env c₁ segments outs' c' ∧
    List.Forall₂ Produced (outs ++ outs') frames ∧ c'.calls = calls

section Calls

variable {env : HandshakeEnv} {c c' : WebsocketCodec}

/-- The calls one call of `Decode` makes: if it shuts the connection down, it
sends something right before. -/
def Calls (before after : List ConnCall) : Prop :=
  ∃ more, after = before ++ more ∧
    (.shutdown ∈ more → ∃ text, more = [.send text, .shutdown])

theorem Calls.refl (calls : List ConnCall) : Calls calls calls :=
  ⟨[], (List.append_nil calls).symm, fun h => absurd h List.not_mem_nil⟩

theorem handShake_calls (h : handShake env c = .ok c') :
    Calls c.calls c'.calls := by
  simp only [handShake] at h
  split at h
  · cases h
  · obtain rfl := Except.ok.inj h
    exact Calls.refl c.calls
  · split at h
    · split at h
      · cases h
      · obtain rfl := Except.ok.inj h
        exact ⟨_, rfl, fun _ => ⟨_, rfl⟩⟩
    · split at h
      · cases h
      · obtain rfl := Except.ok.inj h
        exact ⟨_, rfl, fun h => absurd h (by simp)⟩

theorem decodeLoop_calls {fuel : Nat} {out : Option WsReq}
    (h : decodeLoop env fuel c = .ok (out, c')) : Calls c.calls c'.calls := by
  induction fuel generalizing c with
  | zero => cases h
  | succ fuel ih =>
      rw [decodeLoop] at h
      cases hstate : c.state with
      | exceptHandshake =>
          simp only [hstate] at h
          split at h
          · cases h
          · rename_i c₁ hshake
            obtain rfl := (Prod.mk.inj (Except.ok.inj h)).2
            exact handShake_calls hshake
      | exceptFrameHead =>
          simp only [hstate] at h
          rcases decodeFrameHead_cases c with
            ⟨fault, hhead, _⟩ | ⟨c₁, hhead, hcalls, _⟩ |
            ⟨_, _, _, c₁, _, _, _, hhead, _, hcalls, _⟩
          · rw [hhead] at h
            cases h
          · rw [hhead] at h
            obtain rfl := (Prod.mk.inj (Except.ok.inj h)).2
            exact ⟨_, hcalls, fun _ => ⟨_, rfl⟩⟩
          · rw [hhead] at h
            exact hcalls ▸ ih h
      | exceptPayload =>
          simp only [hstate] at h
          obtain ⟨finished, c₁, hpayload, _, _, _, hcalls⟩ :=
            decodePayload_cases c
          rw [hpayload] at h
          cases finished with
          | false =>
              obtain rfl := (Prod.mk.inj (Except.ok.inj h)).2
              exact hcalls ▸ Calls.refl c₁.calls
          | true => exact hcalls ▸ ih h
      | parseFinished =>
          simp only [hstate] at h
          obtain rfl := (Prod.mk.inj (Except.ok.inj h)).2
          exact Calls.refl c.calls

theorem decode_calls_grow {out : Option WsReq}
    (h : decode env c = .ok (out, c')) : c.calls <+: c'.calls := by
  obtain ⟨more, hmore, _⟩ := decodeLoop_calls h
  exact hmore ▸ List.prefix_append _ _

variable {outs : List (WsReq × Bool)} {segments : List (List UInt8)}

theorem Drain.calls_grow (h : Drain env c outs c') :
    c.calls <+: c'.calls := by
  induction h with
  | done hdecode => exact decode_calls_grow hdecode
  | next hdecode _ ih => exact (decode_calls_grow hdecode).trans ih

/-- What was called stays called. -/
theorem Feed.calls_grow (h : Feed env c segments outs c') :
    c.calls <+: c'.calls := by
  induction h with
  | nil => exact List.prefix_refl _
  | cons hdrain _ ih => exact hdrain.calls_grow.trans ih

end Calls

section Steps

variable {env : HandshakeEnv} {calls : List ConnCall} {c c' : WebsocketCodec}
  {f : ClientFrame} {frames : List ClientFrame} {segment : List UInt8}
  {segments : List (List UInt8)} {req : WsReq}

theorem delivers_nil_iff :
    Delivers env calls c frames [] ↔ frames = [] ∧ c.calls = calls := by
  constructor
  · rintro ⟨outs, c', hfeed, houts, hcalls⟩
    cases hfeed
    exact ⟨List.forall₂_nil_left_iff.mp houts, hcalls⟩
  · rintro ⟨rfl, hcalls⟩
    exact ⟨[], c, .nil, .nil, hcalls⟩

theorem delivers_cons_iff :
    Delivers env calls c frames (segment :: segments) ↔
      Yields env calls (c.receive segment) frames segments := by
  constructor
  · rintro ⟨outs, c', hfeed, houts, hcalls⟩
    cases hfeed with
    | cons hdrain hfeed =>
        exact ⟨_, _, _, _, hdrain, hfeed, houts, hcalls⟩
  · rintro ⟨outs, c₁, outs', c', hdrain, hfeed, houts, hcalls⟩
    exact ⟨_, _, .cons hdrain hfeed, houts, hcalls⟩

theorem yields_of_none (h : decode env c = .ok (none, c')) :
    Yields env calls c frames segments ↔
      Delivers env calls c' frames segments := by
  constructor
  · rintro ⟨outs, c₁, outs', c₂, hdrain, hfeed, houts, hcalls⟩
    cases hdrain with
    | done hdecode =>
        rw [h] at hdecode
        obtain rfl := (Prod.mk.inj (Except.ok.inj hdecode)).2
        exact ⟨outs', c₂, hfeed, houts, hcalls⟩
    | next hdecode _ =>
        rw [h] at hdecode
        cases hdecode
  · rintro ⟨outs, c₂, hfeed, houts, hcalls⟩
    exact ⟨[], c', outs, c₂, .done h, hfeed, houts, hcalls⟩

/-- The first frame is the returned request. -/
theorem yields_of_some (h : decode env c = .ok (some req, c')) :
    Yields env calls c (f :: frames) segments ↔
      Produced (req, c'.headReceived) f ∧
        Yields env calls c' frames segments := by
  constructor
  · rintro ⟨outs, c₁, outs', c₂, hdrain, hfeed, houts, hcalls⟩
    cases hdrain with
    | done hdecode =>
        rw [h] at hdecode
        cases hdecode
    | next hdecode hdrain =>
        rw [h] at hdecode
        cases hdecode
        rw [List.cons_append, List.forall₂_cons] at houts
        exact ⟨houts.1, _, _, _, _, hdrain, hfeed, houts.2, hcalls⟩
  · rintro ⟨hproduced, outs, c₁, outs', c₂, hdrain, hfeed, houts, hcalls⟩
    exact ⟨_, _, outs', _, .next h hdrain, hfeed, .cons hproduced houts, hcalls⟩

/-- More requests than frames. -/
theorem not_yields_nil_of_some (h : decode env c = .ok (some req, c')) :
    ¬ Yields env calls c [] segments := by
  rintro ⟨outs, c₁, outs', c₂, hdrain, hfeed, houts, hcalls⟩
  cases hdrain with
  | done hdecode =>
      rw [h] at hdecode
      cases hdecode
  | next hdecode hdrain => cases houts

/-- A request from bytes that were not received. -/
theorem not_yields_of_some (h : decode env c = .ok (some req, c'))
    (hreceived : c'.headReceived = false) :
    ¬ Yields env calls c frames segments := by
  cases frames with
  | nil => exact not_yields_nil_of_some h
  | cons f frames =>
      rw [yields_of_some h, hreceived]
      intro hyields
      exact absurd hyields.1.received Bool.false_ne_true

theorem not_yields_of_error {fault : Fault}
    (h : decode env c = .error fault) :
    ¬ Yields env calls c frames segments := by
  rintro ⟨outs, c₁, outs', c₂, hdrain, hfeed, houts, hcalls⟩
  cases hdrain with
  | done hdecode =>
      rw [h] at hdecode
      cases hdecode
  | next hdecode _ =>
      rw [h] at hdecode
      cases hdecode

/-- The codec has closed the connection. -/
theorem not_delivers_of_calls {call : ConnCall} {more : List ConnCall}
    (h : c.calls = calls ++ call :: more) :
    ¬ Delivers env calls c frames segments := by
  rintro ⟨outs, c', hfeed, houts, hcalls⟩
  have hfront := hfeed.calls_grow.length_le
  rw [h, hcalls, List.length_append, List.length_cons] at hfront
  omega

theorem yields_congr (h : decode env c = decode env c') :
    Yields env calls c frames segments ↔
      Yields env calls c' frames segments := by
  cases hdecode : decode env c' with
  | error fault =>
      have hnot := @not_yields_of_error env calls c' frames segments fault
        hdecode
      have hnot' := @not_yields_of_error env calls c frames segments fault
        (h.trans hdecode)
      exact ⟨fun hy => absurd hy hnot', fun hy => absurd hy hnot⟩
  | ok r =>
      obtain ⟨out, c''⟩ := r
      cases out with
      | none => rw [yields_of_none (h.trans hdecode), yields_of_none hdecode]
      | some req =>
          cases frames with
          | nil =>
              exact ⟨fun hy => absurd hy
                  (not_yields_nil_of_some (h.trans hdecode)),
                fun hy => absurd hy (not_yields_nil_of_some hdecode)⟩
          | cons f frames =>
              rw [yields_of_some (h.trans hdecode), yields_of_some hdecode]

end Steps

end WebsocketCodec

end Jerry
