/-
What can end `HttpServer::OnTcpReceivedData` other than a return.  The handler of
a request fills in the response it likes; it is a step of its own, between
`Decode` and the text that is sent.
-/
import Jerry.HttpBounds
import Jerry.HttpResp
import Jerry.Machine

namespace Jerry

open CString Search Window HttpReqDecoder

/-- A connection of the server: `request` is being answered by `OnRequest`, and
`fault` has ended the worker. -/
structure HttpConn where
  decoder : HttpReqDecoder
  request : Option HttpReq
  sent : List (List UInt8)
  fault : Option Fault
deriving DecidableEq

namespace HttpConn

/-- The connection gets a decoder with a limit of 4 MB. -/
def onTcpConnected (recvBuffer : BaseBuffer) : HttpConn :=
  { decoder := (init recvBuffer).setBodyMaxBytes (4 * 1024 * 1024)
    request := none
    sent := []
    fault := none }

/-- `OnTcpReceivedData` up to `OnRequest`, once a segment has been read. -/
def receive (c : HttpConn) (segment : List UInt8) : HttpConn :=
  match c.decoder.feed segment with
  | .error fault => { c with fault := some fault }
  | .ok (out, decoder) => { c with decoder := decoder, request := out }

/-- The rest of it, with what `OnRequest` has done to the response. -/
def respond (c : HttpConn) (calls : List HttpResp.Setter) (date : List UInt8) :
    HttpConn :=
  match (HttpResp.build calls).toString date with
  | .error fault => { c with fault := some fault }
  | .ok text => { c with request := none, sent := c.sent ++ [text] }

inductive Op where
  | receive (segment : List UInt8)
  | onRequest (calls : List HttpResp.Setter) (date : List UInt8)
deriving DecidableEq, Repr

namespace Op

def Enabled (c : HttpConn) : Op → Prop
  | .receive _ => c.fault = none ∧ c.request = none
  | .onRequest _ _ => c.fault = none ∧ c.request.isSome = true

instance (c : HttpConn) : ∀ op : Op, Decidable (op.Enabled c)
  | .receive _ => inferInstanceAs (Decidable (_ ∧ _))
  | .onRequest _ _ => inferInstanceAs (Decidable (_ ∧ _))

def exec (c : HttpConn) : Op → HttpConn
  | .receive segment => c.receive segment
  | .onRequest calls date => c.respond calls date

end Op

/-- No call has ended but by a return, and the request that is being answered
can be printed. -/
def Returns (c : HttpConn) : Prop :=
  c.fault = none ∧ ∀ req ∈ c.request, req.toString.isSome = true

instance (c : HttpConn) : Decidable c.Returns :=
  inferInstanceAs (Decidable (_ ∧ ∀ req ∈ _, _))

end HttpConn

/-- A connection whose client sends what it likes. -/
def httpConnMachine : Machine HttpConn HttpConn.Op where
  enabled c op := op.Enabled c
  next c op := op.exec c

instance (c : HttpConn) (op : HttpConn.Op) :
    Decidable (httpConnMachine.enabled c op) :=
  inferInstanceAs (Decidable (op.Enabled c))

namespace HttpResp

/-- The status code that a call leaves. -/
def Setter.statusCode (last : UInt16) : Setter → UInt16
  | .setStatus statusCode => statusCode
  | .setRedirect _ statusCode => statusCode
  | _ => last

/-- The status code that was set last. -/
def lastStatus (calls : List Setter) : UInt16 :=
  calls.foldl Setter.statusCode 200

theorem build_statusCode (calls : List Setter) :
    (build calls).statusCode = lastStatus calls := by
  have hexec (resp : HttpResp) (call : Setter) :
      (call.exec resp).statusCode = call.statusCode resp.statusCode := by
    cases call <;> rfl
  have hfold (resp : HttpResp) : (calls.foldl Setter.exec resp).statusCode =
      calls.foldl Setter.statusCode resp.statusCode := by
    induction calls generalizing resp with
    | nil => rfl
    | cons call calls ih => rw [List.foldl_cons, List.foldl_cons, ih, hexec]
  exact hfold init

end HttpResp

namespace HttpConn

/-- A segment after which no unknown version and no look outside of the vector
comes up, and a status code that has a reason phrase. -/
def Meets (c : HttpConn) : Op → Prop
  | .receive segment =>
      let received : HttpReqDecoder :=
        { c.decoder with buffer := c.decoder.buffer.append segment }
      received.KnownVersion ∧ HeadWithin received.buffer.deadBytes received
  | .onRequest calls _ =>
      (HttpResp.statusMap.lookup (HttpResp.lastStatus calls)).isSome = true

instance (c : HttpConn) : ∀ op : Op, Decidable (c.Meets op)
  | .receive _ => inferInstanceAs (Decidable (_ ∧ _))
  | .onRequest _ _ => inferInstanceAs (Decidable (_ = _))

instance (c : HttpConn) (op : Op) :
    Decidable ((httpConnMachine.guard Meets).enabled c op) :=
  inferInstanceAs (Decidable (_ ∧ _))

end HttpConn

namespace HttpReqDecoder

variable {d d' : HttpReqDecoder}

/-- `HttpReq::method_map` has the method. -/
def Printable (req : HttpReq) : Prop :=
  (HttpReq.methodMap.lookup req.method).isSome = true

theorem Printable.toString {req : HttpReq} (h : Printable req) :
    req.toString.isSome = true := by
  obtain ⟨method, hmethod⟩ := Option.isSome_iff_exists.mp h
  have hversion : (HttpReq.versionMap.lookup req.version).isSome = true := by
    cases req.version <;> rfl
  obtain ⟨version, hversion⟩ := Option.isSome_iff_exists.mp hversion
  rw [HttpReq.toString, HttpReq.getMethodString, HttpReq.getVersionString, hmethod,
    hversion]
  rfl

/-- The methods that the decoder knows can be printed. -/
theorem methodMap_printable {name : List UInt8} {method : HttpReq.Method}
    (h : HttpReqDecoder.methodMap.lookup name = some method) :
    (HttpReq.methodMap.lookup method).isSome = true := by
  obtain ⟨before, after, heq, _⟩ := List.lookup_eq_some_iff.mp h
  have hall : ∀ entry ∈ HttpReqDecoder.methodMap,
      (HttpReq.methodMap.lookup entry.2).isSome = true := by decide
  exact hall (name, method) (by rw [heq]; simp)

theorem parseRequestLine_printable {found : Bool} (hreq : Printable d.req)
    (h : parseRequestLine d = .ok (found, d')) : Printable d'.req := by
  unfold parseRequestLine at h
  simp only at h
  split at h
  · split at h
    · obtain ⟨_, rfl⟩ := Prod.mk.inj (Except.ok.inj h)
      exact hreq
    · obtain ⟨_, rfl⟩ := Prod.mk.inj (Except.ok.inj h)
      exact hreq
  · split at h
    · obtain ⟨_, rfl⟩ := Prod.mk.inj (Except.ok.inj h)
      exact hreq
    · rename_i method hmethod
      have hprintable := methodMap_printable hmethod
      split at h
      · obtain ⟨_, rfl⟩ := Prod.mk.inj (Except.ok.inj h)
        exact hprintable
      · split at h
        · obtain ⟨_, rfl⟩ := Prod.mk.inj (Except.ok.inj h)
          exact hprintable
        · split at h
          · cases h
          · rw [dropBytesUntil_add] at h
            obtain ⟨_, rfl⟩ := Prod.mk.inj (Except.ok.inj h)
            exact hprintable

/-- So can every request that is handed out. -/
theorem decodeLoop_printable {fuel : Nat} {out : Option HttpReq}
    (hreq : Printable d.req) (h : decodeLoop fuel d = .ok (out, d')) :
    Printable d'.req ∧ ∀ req ∈ out, Printable req := by
  induction fuel generalizing d with
  | zero => cases h
  | succ fuel ih =>
      rw [decodeLoop] at h
      split at h
      · split at h
        · cases h
        · split at h
          · cases h
          · rename_i hline
            obtain ⟨rfl, rfl⟩ := Prod.mk.inj (Except.ok.inj h)
            exact ⟨parseRequestLine_printable hreq hline, fun req hmem => by cases hmem⟩
          · rename_i hline
            exact ih (parseRequestLine_printable hreq hline) h
      · split at h
        · cases h
        · rename_i hheaders
          obtain ⟨rfl, rfl⟩ := Prod.mk.inj (Except.ok.inj h)
          refine ⟨?_, fun req hmem => by cases hmem⟩
          rw [Printable, (parseHeadersLoop_trace hheaders).1]
          exact hreq
        · rename_i hheaders
          refine ih ?_ h
          rw [Printable, (parseHeadersLoop_trace hheaders).1]
          exact hreq
      · exact @ih (parseBody d) hreq h
      · obtain ⟨rfl, rfl⟩ := Prod.mk.inj (Except.ok.inj h)
        refine ⟨hreq, fun req hmem => ?_⟩
        obtain rfl := Option.some.inj hmem
        exact hreq

end HttpReqDecoder

namespace HttpConn

variable {c t : HttpConn} {op : Op} {ops : List Op}

/-- What holds between two steps. -/
structure Inv (c : HttpConn) : Prop where
  decoder : c.decoder.Resumable
  printable : Printable c.decoder.req

theorem onTcpConnected_inv (n : Nat) : (onTcpConnected (.ofSize n)).Inv :=
  ⟨(init_resumable (BaseBuffer.ofSize_valid n)).setBodyMaxBytes _, rfl⟩

/-- What a segment does to the connection. -/
theorem receive_cases (hc : c.Inv) (segment : List UInt8) (hfault : c.fault = none) :
    (¬ c.Meets (.receive segment) ∧ (c.receive segment).fault ≠ none) ∨
      (c.Meets (.receive segment) ∧ (c.receive segment).Inv ∧
        (c.receive segment).Returns) := by
  have houtcome := decode_outcome (hc.decoder.append segment)
  rw [receive, Meets, HttpReqDecoder.feed]
  cases hdecode : decode { c.decoder with buffer := c.decoder.buffer.append segment } with
  | error fault =>
      refine Or.inl ⟨fun hmeets => ?_, Option.some_ne_none fault⟩
      rw [hdecode] at houtcome
      cases houtcome with
      | unknown h => exact h hmeets.1
      | outside _ h => exact h hmeets.2
  | ok r =>
      obtain ⟨out, d⟩ := r
      rw [hdecode] at houtcome
      cases houtcome with
      | returns hknown hwithin hd =>
          have hprintable := @decodeLoop_printable
            { c.decoder with buffer := c.decoder.buffer.append segment } d 4 out
            hc.printable hdecode
          exact Or.inr ⟨⟨hknown, hwithin⟩, ⟨hd, hprintable.1⟩, hfault,
            fun req hreq => (hprintable.2 req hreq).toString⟩

/-- What the response of a handler does to it. -/
theorem respond_cases (hc : c.Inv) (calls : List HttpResp.Setter)
    (date : List UInt8) (hfault : c.fault = none) :
    (¬ c.Meets (.onRequest calls date) ∧ (c.respond calls date).fault ≠ none) ∨
      (c.Meets (.onRequest calls date) ∧ (c.respond calls date).Inv ∧
        (c.respond calls date).Returns) := by
  rw [respond, Meets, HttpResp.toString, HttpResp.build_statusCode]
  cases hstatus : HttpResp.statusMap.lookup (HttpResp.lastStatus calls) with
  | none => exact Or.inl ⟨by decide, Option.some_ne_none _⟩
  | some reason =>
      exact Or.inr ⟨rfl, ⟨hc.decoder, hc.printable⟩, hfault,
        fun req hreq => by cases hreq⟩

/-- The step lemma. -/
theorem exec_cases (hc : c.Inv) (henabled : op.Enabled c) :
    (¬ c.Meets op ∧ (op.exec c).fault ≠ none) ∨
      (c.Meets op ∧ (op.exec c).Inv ∧ (op.exec c).Returns) := by
  cases op with
  | receive segment => exact receive_cases hc segment henabled.1
  | onRequest calls date => exact respond_cases hc calls date henabled.1

/-- No run leaves a call other than by its return, and every request in it can be
printed, if and only if each of its steps meets the condition. -/
theorem returns_always_iff (n : Nat)
    (hrun : httpConnMachine.Run (onTcpConnected (.ofSize n)) ops t) :
    httpConnMachine.Always Returns (onTcpConnected (.ofSize n)) ops ↔
      (httpConnMachine.guard Meets).Run (onTcpConnected (.ofSize n)) ops t := by
  refine hrun.always_iff_guard (onTcpConnected_inv n)
    ⟨rfl, fun req hreq => by cases hreq⟩ ?_ ?_
  · intro c op hc _ henabled hreturns
    rcases exec_cases hc henabled with ⟨_, hfault⟩ | ⟨_, hinv, _⟩
    · exact absurd hreturns.1 hfault
    · exact hinv
  · intro c op hc _ henabled
    rcases exec_cases hc henabled with ⟨hnot, hfault⟩ | ⟨hmeets, _, hreturns⟩
    · exact iff_of_false (fun h => hfault h.1) hnot
    · exact iff_of_true hreturns hmeets

/-- A request cut inside its request line, answered with a redirect. -/
theorem returns_always_iff_redirect :
    let ops : List Op :=
      [.receive (bytes "GET / HT"),
        .receive (bytes "TP/1.1\r\nHost: a\r\n\r\n"),
        .onRequest [.setRedirect (bytes "/b") 301, .setBody (bytes "moved")] []]
    httpConnMachine.Always Returns (onTcpConnected (.ofSize 1024)) ops := by
  intro ops
  have hguard : (httpConnMachine.guard Meets).Run (onTcpConnected (.ofSize 1024)) ops
      (ops.foldl httpConnMachine.next (onTcpConnected (.ofSize 1024))) :=
    Machine.run_iff.mpr ⟨by decide +kernel, rfl⟩
  exact (returns_always_iff 1024 hguard.of_guard).mpr hguard

/-- A version that is not known, and a status code without a reason phrase. -/
theorem returns_always_iff_outOfRange :
    let version : List Op := [.receive (bytes "GET / HTTP/2.0\r\n\r\n")]
    let status : List Op :=
      [.receive (bytes "GET / HTTP/1.1\r\n\r\n"), .onRequest [.setStatus 429] []]
    ∀ ops ∈ [version, status],
      ∃ c, httpConnMachine.Run (onTcpConnected (.ofSize 1024)) ops c ∧
        c.fault = some .outOfRange ∧
        ¬ httpConnMachine.Always Returns (onTcpConnected (.ofSize 1024)) ops := by
  intro version status
  have hends : ∀ ops ∈ [version, status],
      httpConnMachine.EnabledFrom (onTcpConnected (.ofSize 1024)) ops ∧
        (ops.foldl httpConnMachine.next (onTcpConnected (.ofSize 1024))).fault =
          some .outOfRange := by decide +kernel
  intro ops hops
  obtain ⟨henabled, hfault⟩ := hends ops hops
  have hrun := Machine.run_iff.mpr ⟨henabled, rfl⟩
  refine ⟨_, hrun, hfault, fun hall => ?_⟩
  have hnone := (hall.last hrun).1
  rw [hfault] at hnone
  cases hnone

end HttpConn

end Jerry
