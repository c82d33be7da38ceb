/-
`proto/ws/WsResp`: the response a handler fills, and the type that the frame
which `WebsocketServer` makes of it has on the wire.
-/
import Jerry.WebsocketServer
import Jerry.WsEncoding

namespace Jerry

structure WsResp where
  type : WsFrameType
  payload : List UInt8
deriving DecidableEq, Repr

namespace WsResp

/-- `WsResp resp`. -/
def init : WsResp :=
  ⟨.kText, []⟩

def setFrameType (resp : WsResp) (type : WsFrameType) : WsResp :=
  { resp with type := type }

def appendData (resp : WsResp) (data : List UInt8) : WsResp :=
  { resp with payload := resp.payload ++ data }

def getPayload (resp : WsResp) : List UInt8 :=
  resp.payload

/-- What a handler can do to a response. -/
inductive Call where
  | setFrameType (type : WsFrameType)
  | appendData (data : List UInt8)
deriving DecidableEq, Repr

def Call.exec (resp : WsResp) : Call → WsResp
  | .setFrameType type => resp.setFrameType type
  | .appendData data => resp.appendData data

/-- The response a handler leaves behind. -/
def build (calls : List Call) : WsResp :=
  calls.foldl Call.exec init

/-- The type that was set last, or `kText`. -/
def lastType (calls : List Call) : WsFrameType :=
  calls.foldl (fun last call =>
    match call with
    | .setFrameType type => type
    | .appendData _ => last) .kText

/-- The response knows the type. -/
theorem build_type (calls : List Call) :
    (build calls).type = lastType calls := by
  have hfold (resp : WsResp) : (calls.foldl Call.exec resp).type =
      calls.foldl (fun last call =>
        match call with
        | .setFrameType type => type
        | .appendData _ => last) resp.type := by
    induction calls generalizing resp with
    | nil => rfl
    | cons call calls ih =>
        rw [List.foldl_cons, List.foldl_cons, ih]
        cases call <;> rfl
  exact hfold init

end WsResp

namespace WebsocketCodec

/-- The first byte is always there, and has the type that is given. -/
theorem encodeFrameHead_opcode (data : List UInt8) (type : WsFrameType) :
    ∃ b rest, encodeFrameHead data type = b :: rest ∧
      Fin.ofNat 16 b.toNat = type.value := by
  have hfirst := finHead_byte₀_ne_zero type data.length
  have hhead := WsBaseHead.ofBytes_byte (finHead type data.length)
  refine ⟨(finHead type data.length).byte₀, CString.cStr
    ((finHead type data.length).byte₁ :: extension data.length), ?_, ?_⟩
  · rw [encodeFrameHead_eq, WsBaseHead.toBytes, List.cons_append, CString.cStr,
      List.takeWhile_cons_of_pos (by simpa using hfirst)]
    rfl
  · exact congrArg WsBaseHead.opcode hhead

end WebsocketCodec

namespace WebsocketServer

/-- `OnTcpReceivedData` with a handler that makes these calls.  Only the payload
of the response is asked for; the head gets the type that is the default of
`EncodeFrameHead`. -/
def respond (env : HandshakeEnv) (onRequest : WsReq → List WsResp.Call)
    (s : WebsocketServer) : Except Fault WebsocketServer :=
  s.onTcpReceivedData env fun req => (WsResp.build (onRequest req)).getPayload

/-- What was queued is a frame of that type. -/
def Carries (type : WsFrameType) (queued : List ConnCall) : Prop :=
  ∃ b head payload, queued = [.send (b :: head), .send payload] ∧
    Fin.ofNat 16 b.toNat = type.value

theorem carries_encoded (type : WsFrameType) (payload : List UInt8) :
    Carries type
        [.send (WebsocketCodec.encodeFrameHead payload .kText), .send payload] ↔
      type = .kText := by
  obtain ⟨b, rest, hhead, hopcode⟩ :=
    WebsocketCodec.encodeFrameHead_opcode payload .kText
  rw [hhead]
  constructor
  · rintro ⟨_, _, _, hqueued, htype⟩
    cases hqueued
    obtain ⟨value⟩ := type
    exact congrArg WsFrameType.mk (htype.symm.trans hopcode)
  · rintro rfl
    exact ⟨b, rest, payload, rfl, hopcode⟩

variable {s : WebsocketServer} {env : HandshakeEnv} {req : WsReq}
  {codec : WebsocketCodec}

theorem respond_calls (onRequest : WsReq → List WsResp.Call)
    (hdecode : s.codec.decode env = .ok (some req, codec)) :
    ∃ s', s.respond env onRequest = .ok s' ∧
      s'.codec.calls = codec.calls ++
        [.send (WebsocketCodec.encodeFrameHead
            (WsResp.build (onRequest req)).getPayload .kText),
          .send (WsResp.build (onRequest req)).getPayload] := by
  rw [respond, onTcpReceivedData, hdecode]
  exact ⟨_, rfl, rfl⟩

/-- Whenever a frame has been decoded, the answer that is queued carries the type
that the handler set last exactly when that is `kText`. -/
theorem carries_iff (onRequest : WsReq → List WsResp.Call)
    (hdecode : s.codec.decode env = .ok (some req, codec)) :
    ∃ s' queued, s.respond env onRequest = .ok s' ∧
      s'.codec.calls = codec.calls ++ queued ∧
      (Carries (WsResp.lastType (onRequest req)) queued ↔
        WsResp.lastType (onRequest req) = .kText) := by
  obtain ⟨s', hrespond, hcalls⟩ := respond_calls onRequest hdecode
  exact ⟨s', _, hrespond, hcalls, carries_encoded _ _⟩

section Ping

/-- After the handshake, a ping without a payload has come. -/
def pinged : WebsocketServer :=
  { codec := { WebsocketCodec.init
      ((BaseBuffer.ofSize 16).append [137, 128, 0, 0, 0, 0]) with
        state := .exceptFrameHead }
    requests := [] }

def noEnv : HandshakeEnv :=
  ⟨fun _ => [], []⟩

theorem pinged_decode :
    ∃ codec, pinged.codec.decode noEnv =
        .ok (some ⟨.kPing, [], [], []⟩, codec) ∧ codec.calls = [] := by
  have hrun : (pinged.codec.decode noEnv).toOption.map
      (fun r => (r.1, r.2.calls)) =
        some (some ⟨.kPing, [], [], []⟩, []) := by
    decide +kernel
  cases hdecode : pinged.codec.decode noEnv with
  | error fault =>
      rw [hdecode] at hrun
      cases hrun
  | ok r =>
      obtain ⟨out, codec⟩ := r
      rw [hdecode] at hrun
      obtain ⟨rfl, hcalls⟩ := Prod.mk.inj (Option.some.inj hrun)
      exact ⟨codec, rfl, hcalls⟩

/-- The answer `"ok"`. -/
theorem carries_text :
    ∃ s' queued, pinged.respond noEnv (fun _ => [.appendData [111, 107]]) = .ok s' ∧
      s'.codec.calls = queued ∧ Carries .kText queued := by
  obtain ⟨codec, hdecode, hcalls⟩ := pinged_decode
  obtain ⟨s', queued, hrespond, hqueued, hiff⟩ :=
    carries_iff (fun _ => [.appendData [111, 107]]) hdecode
  rw [hcalls, List.nil_append] at hqueued
  exact ⟨s', queued, hrespond, hqueued, hiff.mpr rfl⟩

/-- A handler that answers a ping with a pong sends a text. -/
theorem carries_pong :
    ∃ s' queued, pinged.respond noEnv (fun _ => [.setFrameType .kPong]) = .ok s' ∧
      s'.codec.calls = queued ∧ ¬ Carries .kPong queued := by
  obtain ⟨codec, hdecode, hcalls⟩ := pinged_decode
  obtain ⟨s', hrespond, hqueued⟩ :=
    respond_calls (fun _ => [.setFrameType .kPong]) hdecode
  rw [hcalls, List.nil_append] at hqueued
  refine ⟨s', _, hrespond, hqueued, ?_⟩
  rw [carries_encoded]
  decide

end Ping

end WebsocketServer

end Jerry
