/-
The handshake as the frames see it: a connection that has completed it waits
for the head of a frame with nothing left to read.
-/
import Jerry.BaseBufferReuse
import Jerry.WebsocketCodec

namespace Jerry

namespace HttpReqDecoder

variable {d d' : HttpReqDecoder}

theorem parseRequestLine_state (h : parseRequestLine d = .ok (true, d')) :
    d'.state = .expectHeaders := by
  simp only [parseRequestLine] at h
  repeat' split at h
  all_goals cases h
  rfl

theorem parseHeadersLoop_state {fuel : Nat}
    (h : parseHeadersLoop fuel d = .ok (true, d')) :
    d'.state = .expectBody := by
  induction fuel generalizing d with
  | zero => cases h
  | succ fuel ih =>
      rw [parseHeadersLoop] at h
      split at h
      · cases h
      · rw [← (Prod.mk.inj (Except.ok.inj h)).2]
      · split at h
        · cases h
        · cases h
        · exact ih h

/-- A request is handed out when everything readable has been dropped. -/
theorem decodeLoop_empty {fuel : Nat} {req : HttpReq}
    (hd : d.state = .parseFinished → d.buffer.Empty)
    (h : decodeLoop fuel d = .ok (some req, d')) : d'.buffer.Empty := by
  induction fuel generalizing d with
  | zero => cases h
  | succ fuel ih =>
      rw [decodeLoop] at h
      cases hstate : d.state with
      | expectRequestLine =>
          simp only [hstate] at h
          split at h
          · cases h
          · split at h
            · cases h
            · cases h
            · rename_i d₁ hline
              refine ih ?_ h
              rw [parseRequestLine_state hline]
              exact fun hfinished => nomatch hfinished
      | expectHeaders =>
          simp only [hstate] at h
          split at h
          · cases h
          · cases h
          · rename_i d₁ hheaders
            refine ih ?_ h
            rw [parseHeadersLoop_state hheaders]
            exact fun hfinished => nomatch hfinished
      | expectBody =>
          simp only [hstate] at h
          exact ih (fun _ => BaseBuffer.dropAllBytes_empty d.buffer) h
      | parseFinished =>
          simp only [hstate] at h
          rw [← (Prod.mk.inj (Except.ok.inj h)).2]
          exact hd hstate

end HttpReqDecoder

namespace WebsocketCodec

variable {c c' : WebsocketCodec} {env : HandshakeEnv}

/-- Between two frames, with nothing readable. -/
structure Ready (c : WebsocketCodec) : Prop where
  state : c.state = .exceptFrameHead
  empty : c.recvBuffer.Empty
  payload : c.req.payload = []
  lastReadIdx : c.lastReadIdx = 0

/-- What a handshake can do to the state of the decoder: nothing, or complete. -/
theorem handShake_cases (h : handShake env c = .ok c') :
    c'.req = c.req ∧ c'.lastReadIdx = c.lastReadIdx ∧
      (c'.state = c.state ∨
        c'.state = .exceptFrameHead ∧ c'.recvBuffer.Empty) := by
  simp only [handShake] at h
  split at h
  · cases h
  · obtain rfl := Except.ok.inj h
    exact ⟨rfl, rfl, Or.inl rfl⟩
  · rename_i req decoder hdecode
    have hempty : decoder.buffer.Empty := by
      refine HttpReqDecoder.decodeLoop_empty ?_ hdecode
      intro hfinished
      cases hfinished
    split at h
    · split at h
      · cases h
      · obtain rfl := Except.ok.inj h
        exact ⟨rfl, rfl, Or.inl rfl⟩
    · split at h
      · cases h
      · obtain rfl := Except.ok.inj h
        exact ⟨rfl, rfl, Or.inr ⟨rfl, hempty⟩⟩

/-- The call that completes the handshake leaves nothing behind it to read. -/
theorem decode_ready {out : Option WsReq} (hstate : c.state = .exceptHandshake)
    (hpayload : c.req.payload = []) (hindex : c.lastReadIdx = 0)
    (h : decode env c = .ok (out, c'))
    (hdone : c'.state = .exceptFrameHead) : c'.Ready := by
  rw [decode, decodeLoop, hstate] at h
  simp only at h
  split at h
  · cases h
  · rename_i c₁ hshake
    obtain rfl := (Prod.mk.inj (Except.ok.inj h)).2
    obtain ⟨hreq, hlast, hkeep | ⟨_, hempty⟩⟩ := handShake_cases hshake
    · rw [hdone, hstate] at hkeep
      cases hkeep
    · exact ⟨hdone, hempty, hreq ▸ hpayload, hlast.trans hindex⟩

end WebsocketCodec

end Jerry
