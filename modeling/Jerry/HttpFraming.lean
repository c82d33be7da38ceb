/-
`proto/http/HttpServer`: which requests reach `OnRequest`.  The decoder takes
everything that is readable behind a head as the body, so the requests are
recovered when segments end where requests do.
-/
import Jerry.HttpRoundTrip
import Jerry.HttpSegmentation
import Mathlib.Data.List.ReduceOption

namespace Jerry

open CString HttpReqDecoder

/-- A connection of the server: its decoder, and the requests that `OnRequest`
was called with. -/
structure HttpServer where
  decoder : HttpReqDecoder
  handled : List HttpReq

namespace HttpServer

/-- The connection gets a decoder with a limit of 4 MB. -/
def onTcpConnected (recvBuffer : BaseBuffer) : HttpServer :=
  ⟨(init recvBuffer).setBodyMaxBytes (4 * 1024 * 1024), []⟩

/-- One call of `Decode`; a request goes to `OnRequest`, whose reply is sent
and has no influence on what is decoded next. -/
def onTcpReceivedData (s : HttpServer) : Except Fault HttpServer :=
  match s.decoder.decode with
  | .error fault => .error fault
  | .ok (none, decoder) => .ok ⟨decoder, s.handled⟩
  | .ok (some req, decoder) => .ok ⟨decoder, s.handled ++ [req]⟩

/-- The channel becomes readable with one segment. -/
def receive (s : HttpServer) (segment : List UInt8) : Except Fault HttpServer :=
  onTcpReceivedData { s with decoder := { s.decoder with
    buffer := s.decoder.buffer.append segment } }

def receiveAll (s : HttpServer) : List (List UInt8) → Except Fault HttpServer
  | [] => .ok s
  | segment :: segments =>
      match s.receive segment with
      | .error fault => .error fault
      | .ok s => receiveAll s segments

theorem receive_of_feed {s : HttpServer} {segment : List UInt8}
    {out : Option HttpReq} {d : HttpReqDecoder}
    (hfeed : s.decoder.feed segment = .ok (out, d)) :
    s.receive segment = .ok ⟨d, s.handled ++ out.toList⟩ := by
  change decode _ = _ at hfeed
  rw [receive, onTcpReceivedData]
  simp only [hfeed]
  cases out with
  | none => rw [Option.toList_none, List.append_nil]
  | some req => rfl

/-- What the calls return is what `OnRequest` sees. -/
theorem receiveAll_of_feedAll {s : HttpServer} {segments : List (List UInt8)}
    {outs : List (Option HttpReq)} {d : HttpReqDecoder}
    (hfeed : s.decoder.feedAll segments = .ok (outs, d)) :
    s.receiveAll segments = .ok ⟨d, s.handled ++ outs.reduceOption⟩ := by
  induction segments generalizing s outs with
  | nil =>
      cases hfeed
      rw [List.reduceOption_nil, List.append_nil]
      rfl
  | cons segment segments ih =>
      rw [feedAll] at hfeed
      split at hfeed
      · cases hfeed
      · rename_i out d₁ hdecode
        split at hfeed
        · cases hfeed
        · rename_i outs' d₂ hrest
          cases hfeed
          rw [receiveAll, receive_of_feed hdecode]
          have hnext := @ih ⟨d₁, s.handled ++ out.toList⟩ _ hrest
          simp only [hnext]
          cases out with
          | none => simp
          | some req => simp

theorem receiveAll_append {s t : HttpServer} {segments : List (List UInt8)}
    (h : s.receiveAll segments = .ok t) (more : List (List UInt8)) :
    s.receiveAll (segments ++ more) = t.receiveAll more := by
  induction segments generalizing s with
  | nil =>
      cases h
      rfl
  | cons segment segments ih =>
      rw [List.cons_append, receiveAll]
      rw [receiveAll] at h
      split at h
      · cases h
      · exact ih h

end HttpServer

/-- A request with a body announces its length, which is within the limit. -/
def Request.Framed (bodyMaxBytes : Nat) (r : Request) : Prop :=
  r.body.length ≤ bodyMaxBytes ∧
    (r.body ≠ [] →
      r.header (bytes "Content-Length") = some (toDecimal r.body.length))

instance (bodyMaxBytes : Nat) (r : Request) :
    Decidable (r.Framed bodyMaxBytes) :=
  inferInstanceAs (Decidable (_ ∧ _))

/-- `OnRequest` is called with these requests, each with its own body, and
nothing else. -/
def HttpServer.Recovers (s : HttpServer) (rs : List Request)
    (segments : List (List UInt8)) : Prop :=
  ∃ s' reqs, s.receiveAll segments = .ok s' ∧
    s'.handled = s.handled ++ reqs ∧
    List.Forall₂ (fun (r : Request) req =>
      r.Matches s.decoder.bodyMaxBytes req ∧ req.getBody = r.body) rs reqs

/-- How one request is delivered: in segments of its own, the last of which
brings the end of the head and the whole body. -/
structure Delivery where
  request : Request
  segments : List (List UInt8)
  ne_nil : segments ≠ []
  flatten_eq : segments.flatten = request.wire
  last_ends_head :
    segments.dropLast.flatten.length < request.head.wire.length

namespace Delivery

/-- Every cut inside a head is harmless where it happens. -/
def CutsHarmless : HttpReqDecoder → List Delivery → Prop
  | _, [] => True
  | d, v :: vs =>
      HttpReqDecoder.CutsHarmless v.request.head d [] v.segments ∧
      ∀ outs d', d.feedAll v.segments = .ok (outs, d') → CutsHarmless d' vs

instance decidableCutsHarmless :
    ∀ d vs, Decidable (CutsHarmless d vs)
  | _, [] => isTrue trivial
  | d, v :: vs =>
      match hfeed : d.feedAll v.segments with
      | .error _ => decidable_of_iff
          (HttpReqDecoder.CutsHarmless v.request.head d [] v.segments)
          (by simp [CutsHarmless, hfeed])
      | .ok (outs, d') =>
          have := decidableCutsHarmless d' vs
          decidable_of_iff
            (HttpReqDecoder.CutsHarmless v.request.head d [] v.segments ∧
              CutsHarmless d' vs)
            (by simp [CutsHarmless, hfeed])

end Delivery

namespace HttpServer

/-- One delivered request. -/
theorem receiveAll_delivery {s : HttpServer} (hidle : s.decoder.Idle)
    (v : Delivery)
    (hcuts : HttpReqDecoder.CutsHarmless v.request.head s.decoder []
      v.segments) :
    ∃ outs d' req, s.decoder.feedAll v.segments = .ok (outs, d') ∧
      s.receiveAll v.segments = .ok ⟨d', s.handled ++ [req]⟩ ∧
      v.request.Matches s.decoder.bodyMaxBytes req ∧ d'.Idle ∧
      d'.bodyMaxBytes = s.decoder.bodyMaxBytes := by
  obtain ⟨d', hfeed, hidle', hmax⟩ := feedAll_of_cutsHarmless
    (hidle.awaiting v.request.head) v.ne_nil
    (by rw [List.nil_append]; exact v.flatten_eq) v.last_ends_head hcuts
  have hreceive := receiveAll_of_feedAll hfeed
  rw [List.reduceOption_append, List.reduceOption_replicate_none] at hreceive
  exact ⟨_, d', _, hfeed, hreceive, v.request.toReq_matches _ _, hidle', hmax⟩

/-- Requests delivered one after the other, each ending where a segment ends,
are recovered, whatever their headers say about their bodies. -/
theorem recovers_deliveries {s : HttpServer} (hidle : s.decoder.Idle)
    {vs : List Delivery}
    (hlimit : ∀ v ∈ vs, v.request.body.length ≤ s.decoder.bodyMaxBytes)
    (hcuts : Delivery.CutsHarmless s.decoder vs) :
    s.Recovers (vs.map Delivery.request) (vs.flatMap Delivery.segments) := by
  induction vs generalizing s with
  | nil =>
      exact ⟨s, [], rfl, (List.append_nil _).symm, .nil⟩
  | cons v vs ih =>
      obtain ⟨hcut, hrest⟩ := hcuts
      obtain ⟨outs, d', req, hfeed, hreceive, hmatch, hidle', hmax⟩ :=
        receiveAll_delivery hidle v hcut
      have hbody : req.getBody = v.request.body := by
        rw [hmatch.body]
        exact List.take_of_length_le (hlimit v List.mem_cons_self)
      obtain ⟨s', reqs, hall, hhandled, hmatches⟩ :=
        @ih ⟨d', s.handled ++ [req]⟩ hidle'
          (fun w hw => hmax.symm ▸ hlimit w (List.mem_cons_of_mem _ hw))
          (hrest outs d' hfeed)
      refine ⟨s', req :: reqs, ?_, ?_, .cons ⟨hmatch, hbody⟩ (hmax ▸ hmatches)⟩
      · rw [List.flatMap_cons, receiveAll_append hreceive]
        exact hall
      · rw [hhandled, List.append_assoc, List.singleton_append]

/-- A `POST` that announces another length than its body has, with the head cut
inside the method, and a `GET` behind it. -/
theorem recovers_deliveries_two :
    let post : Request := ⟨.post (bytes "/u")
      [⟨bytes "Content-Length", bytes "9",
        HeaderLine.clean (by decide), HeaderLine.clean (by decide)⟩] (by decide),
      bytes "abc", by decide⟩
    let get : Request := ⟨.get (bytes "/") [.host] (by decide), [], by decide⟩
    let vs : List Delivery :=
      [⟨post, [bytes "PO",
          bytes "ST /u HTTP/1.1\r\nContent-Length: 9\r\n\r\nabc"],
          by decide, by decide, by decide⟩,
        ⟨get, [bytes "GET / HTTP/1.1\r\nHost: a\r\n\r\n"],
          by decide, by decide, by decide⟩]
    (onTcpConnected (.ofSize 1024)).Recovers (vs.map Delivery.request)
      (vs.flatMap Delivery.segments) := by
  intro post get vs
  have hidle : (onTcpConnected (.ofSize 1024)).decoder.Idle :=
    (init_idle (BaseBuffer.ofSize_valid _)
      (BaseBuffer.ofSize_toStringView _)).setBodyMaxBytes _
  exact recovers_deliveries hidle (by decide) (by decide +kernel)

/-- The bodies `OnRequest` sees when the requests are recovered. -/
theorem Recovers.bodies {s : HttpServer} {rs : List Request}
    {segments : List (List UInt8)} (h : s.Recovers rs segments) :
    (s.receiveAll segments).toOption.map
        (fun s' => s'.handled.map HttpReq.getBody) =
      some (s.handled.map HttpReq.getBody ++ rs.map Request.body) := by
  obtain ⟨s', reqs, hall, hhandled, hmatches⟩ := h
  have hbodies : reqs.map HttpReq.getBody = rs.map Request.body := by
    clear hhandled
    induction hmatches with
    | nil => rfl
    | cons hmatch _ ih => rw [List.map_cons, List.map_cons, hmatch.2, ih]
  rw [hall, ← hbodies, ← List.map_append, ← hhandled]
  rfl

/-- Two requests in one segment are one request with a body; a body in a segment
of its own is lost. -/
theorem recovers_deliveries_elsewhere :
    let s := onTcpConnected (.ofSize 1024)
    (¬ ∀ rs : List Request,
      (∀ r ∈ rs, r.Framed s.decoder.bodyMaxBytes) →
        s.Recovers rs [rs.flatMap Request.wire]) ∧
    (¬ ∀ (r : Request) (segments : List (List UInt8)),
      r.Framed s.decoder.bodyMaxBytes → (∀ segment ∈ segments, segment ≠ []) →
        segments.flatten = r.wire → s.Recovers [r] segments) := by
  intro s
  refine ⟨fun hall => ?_, fun hall => ?_⟩
  · let get : Request := ⟨.get (bytes "/") [] (by decide), [], by decide⟩
    have hbodies := (hall [get, get] (by decide)).bodies
    revert hbodies
    decide +kernel
  · let post : Request := ⟨.post (bytes "/u")
      [⟨bytes "Content-Length", bytes "3",
        HeaderLine.clean (by decide), HeaderLine.clean (by decide)⟩] (by decide),
      bytes "abc", by decide⟩
    have hbodies := (hall post
      [bytes "POST /u HTTP/1.1\r\nContent-Length: 3\r\n\r\n", bytes "abc"]
      (by decide) (by decide) (by decide)).bodies
    revert hbodies
    decide +kernel

end HttpServer

end Jerry
