/-
`proto/ws/WebsocketCodec`: the handshake, and the decoder and encoder of frames.
What the codec does to its connection is recorded as calls of `Send` and
`Shutdown`.
-/
import Jerry.HttpResp
import Jerry.WsFrame

namespace Jerry

open CString Window ByteOrder

structure WsReq where
  type : WsFrameType
  payload : List UInt8
  host : List UInt8
  requestUri : List UInt8
deriving DecidableEq, Repr

/-- What `std::move(req)` leaves behind. -/
def WsReq.movedFrom (req : WsReq) : WsReq :=
  { req with payload := [], host := [], requestUri := [] }

/-- A call on the connection. -/
inductive ConnCall where
  | send (data : List UInt8)
  | shutdown
deriving DecidableEq, Repr

/-- `WebsocketCodec::State`. -/
inductive WebsocketCodec.State where
  | exceptHandshake | exceptFrameHead | exceptPayload | parseFinished
deriving DecidableEq, Repr

/-- The mask key is kept as its four bytes in memory.  `headReceived` is not in
the source: it says whether every byte of the last head was readable when it was
read. -/
structure WebsocketCodec where
  req : WsReq
  requestUri : List UInt8
  host : List UInt8
  maskKey : List UInt8
  payloadRemains : Nat
  lastReadIdx : Nat
  state : WebsocketCodec.State
  recvBuffer : BaseBuffer
  calls : List ConnCall
  headReceived : Bool
deriving DecidableEq, Repr

/-- What a handshake takes from elsewhere: the digest of the key and the
current date. -/
structure HandshakeEnv where
  getSecWebSocketAccept : List UInt8 → List UInt8
  date : List UInt8

namespace WebsocketCodec

def init (recvBuffer : BaseBuffer) : WebsocketCodec :=
  { req := ⟨.kContinue, [], [], []⟩
    requestUri := []
    host := []
    maskKey := [0, 0, 0, 0]
    payloadRemains := 0
    lastReadIdx := 0
    state := .exceptHandshake
    recvBuffer := recvBuffer
    calls := []
    headReceived := true }

/-- The head is built in an array of eleven zero bytes and returned as a C
string. -/
def encodeFrameHead (data : List UInt8) (type : WsFrameType) : List UInt8 :=
  let encodeHead := List.replicate 11 0
  let baseHead : WsBaseHead :=
    { fin := true
      rsv1 := false
      rsv2 := false
      rsv3 := false
      opcode := type.value
      mask := false
      payloadLength := 0 }
  let n := data.length
  cStr <|
    if n < 126 then
      overwrite encodeHead 0
        { baseHead with payloadLength := Fin.ofNat 128 n }.toBytes
    else if n < 65535 then
      overwrite (overwrite encodeHead 2 (beBytes 2 n)) 0
        { baseHead with payloadLength := 126 }.toBytes
    else
      overwrite (overwrite encodeHead 2 (leBytes 8 n)) 0
        { baseHead with payloadLength := 127 }.toBytes

def getHeader (req : HttpReq) (name : String) : Option (List UInt8) :=
  req.getHeader (.ofString (bytes name))

/-- The request is refused unless it is a `GET` of HTTP/1.1 with the headers of
an upgrade. -/
def refuses (req : HttpReq) : Bool :=
  req.getMethod ≠ .get || req.getVersion = .http10 ||
    (getHeader req "Host").isNone || (getHeader req "Upgrade").isNone ||
    (getHeader req "Connection").isNone ||
    (getHeader req "Sec-WebSocket-Version").isNone ||
    (getHeader req "Sec-WebSocket-Key").isNone

/-- The decoder of the request lives for one call only. -/
def handShake (env : HandshakeEnv) (c : WebsocketCodec) :
    Except Fault WebsocketCodec :=
  match (HttpReqDecoder.init c.recvBuffer).decode with
  | .error fault => .error fault
  | .ok (none, decoder) => .ok { c with recvBuffer := decoder.buffer }
  | .ok (some req, decoder) =>
      let c := { c with recvBuffer := decoder.buffer }
      if refuses req then
        match (HttpResp.init.setStatus 400).toString env.date with
        | .error fault => .error fault
        | .ok text => .ok { c with calls := c.calls ++ [.send text, .shutdown] }
      else
        let key := (getHeader req "Sec-WebSocket-Key").getD []
        let add resp name value :=
          HttpResp.addHeader resp (.ofString (bytes name)) value false
        let resp := HttpResp.init.setStatus 101
        let resp := add resp "Upgrade" (bytes "WebSocket")
        let resp := add resp "Connection" (bytes "Upgrade")
        let resp := add resp "Sec-WebSocket-Accept"
          (env.getSecWebSocketAccept key)
        match resp.toString env.date with
        | .error fault => .error fault
        | .ok text => .ok
            { c with
              calls := c.calls ++ [.send text]
              host := (getHeader req "Host").getD []
              requestUri := req.getRequestUri
              state := .exceptFrameHead }

/-- How many bytes of extended length a head has. -/
def extendedLength (payloadLength : Fin 128) : Nat :=
  if payloadLength < 126 then 0 else if payloadLength = 126 then 2 else 8

/-- The head is read from memory, whatever of it is readable. -/
def decodeFrameHead (c : WebsocketCodec) :
    Except Fault (Bool × WebsocketCodec) :=
  match c.recvBuffer.memory with
  | b₀ :: b₁ :: stream =>
      let head := WsBaseHead.ofBytes b₀ b₁
      if head.mask = false ∨ ⟨head.opcode⟩ = WsFrameType.kClose then
        .ok (false,
          { c with
            recvBuffer := c.recvBuffer.dropAllBytes
            calls := c.calls ++
              [.send (encodeFrameHead [] .kClose), .shutdown] })
      else
        let n := extendedLength head.payloadLength
        if stream.length < n + 4 then .error .outOfBounds
        else .ok (true,
          { c with
            payloadRemains :=
              if head.payloadLength < 126 then head.payloadLength
              else ofBe (stream.take n)
            maskKey := (stream.drop n).take 4
            recvBuffer := c.recvBuffer.dropBytes (2 + n + 4)
            req := { c.req with
              type := ⟨head.opcode⟩
              host := c.host
              requestUri := c.requestUri }
            state := .exceptPayload
            headReceived := decide (2 + n + 4 ≤ c.recvBuffer.readableBytes) })
  | _ => .error .outOfBounds

/-- The readable part of the payload is unmasked where it lies. -/
def decodePayload (c : WebsocketCodec) : Bool × WebsocketCodec :=
  let size := min c.recvBuffer.readableBytes c.payloadRemains
  let data := (c.recvBuffer.toStringView.take size).mapIdx fun i b =>
    b ^^^ c.maskKey.getD ((i + c.lastReadIdx) % 4) 0
  let unmasked : BaseBuffer := { c.recvBuffer with
    buffer := overwrite c.recvBuffer.buffer c.recvBuffer.readIdx data }
  let c : WebsocketCodec := { c with
    payloadRemains := c.payloadRemains - size
    lastReadIdx := c.lastReadIdx + size
    req := { c.req with payload := c.req.payload ++ data }
    recvBuffer := unmasked.dropBytes size }
  if c.payloadRemains = 0 then
    (true, { c with lastReadIdx := 0, state := .parseFinished })
  else (false, c)

/-- The `while (true)` of `Decode`, watched for `fuel` rounds. -/
def decodeLoop (env : HandshakeEnv) : Nat → WebsocketCodec →
    Except Fault (Option WsReq × WebsocketCodec)
  | 0, _ => .error .endless
  | fuel + 1, c =>
      match c.state with
      | .exceptHandshake =>
          match handShake env c with
          | .error fault => .error fault
          | .ok c => .ok (none, c)
      | .exceptFrameHead =>
          match decodeFrameHead c with
          | .error fault => .error fault
          | .ok (false, c) => .ok (none, c)
          | .ok (true, c) => decodeLoop env fuel c
      | .exceptPayload =>
          match decodePayload c with
          | (false, c) => .ok (none, c)
          | (true, c) => decodeLoop env fuel c
      | .parseFinished => .ok (some c.req,
          { c with state := .exceptFrameHead, req := c.req.movedFrom })

/-- A head, a payload and the result. -/
def decode (env : HandshakeEnv) (c : WebsocketCodec) :
    Except Fault (Option WsReq × WebsocketCodec) :=
  decodeLoop env 3 c

end WebsocketCodec

end Jerry
