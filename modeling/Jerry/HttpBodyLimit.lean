/-
The limit for bodies: what `IsBodyTruncated` says about requests that arrive
whole, one after the other on one decoder.
-/
import Jerry.HttpGrammar
import Mathlib.Data.List.Forall2

namespace Jerry

open CString HttpReqDecoder

/-- A request in one segment, with header lines as the decoder finds them: of
`head`, only the request line is sent. -/
structure SentRequest where
  head : RequestHead
  lines : List FieldLine
  body : List UInt8
  begins : ∀ l ∈ lines, ¬ crlf <+: l.name

namespace SentRequest

def wire (r : SentRequest) : List UInt8 :=
  r.head.requestLine ++ (FieldLine.wires r.lines ++ (crlf ++ r.body))

/-- The flag says whether the limit has cut the body, and a body that was cut
is the first part of what arrived. -/
def FlagExact (bodyMaxBytes : Nat) (r : SentRequest) (req : HttpReq) : Prop :=
  (req.isBodyTruncated = true ↔ bodyMaxBytes < r.body.length) ∧
    (bodyMaxBytes < r.body.length → req.getBody = r.body.take bodyMaxBytes)

/-- What comes out of the decoder: the lines are there, the body is cut, and the
flag is not set. -/
structure Received (bodyMaxBytes : Nat) (r : SentRequest) (req : HttpReq) :
    Prop where
  headers : req.headers = FieldLine.addAll r.lines .empty
  flag : req.isBodyTruncated = false
  body : req.getBody = r.body.take bodyMaxBytes

theorem Received.exact_iff {n : Nat} {r : SentRequest} {req : HttpReq}
    (h : r.Received n req) : r.FlagExact n req ↔ r.body.length ≤ n := by
  rw [FlagExact, h.flag, h.body]
  constructor
  · rintro ⟨hflag, _⟩
    exact Nat.not_lt.mp fun hcut => absurd (hflag.mpr hcut) (by decide)
  · intro hfits
    have hwhole : ¬ n < r.body.length := Nat.not_lt.mpr hfits
    exact ⟨iff_of_false (by decide) hwhole, fun _ => rfl⟩

theorem flagExact_all_iff {n : Nat} {rs : List SentRequest}
    {reqs : List HttpReq} (h : List.Forall₂ (Received n) rs reqs) :
    List.Forall₂ (FlagExact n) rs reqs ↔ ∀ r ∈ rs, r.body.length ≤ n := by
  induction h with
  | nil => simp
  | cons hhead htail ih =>
      rw [List.forall₂_cons, hhead.exact_iff, ih, List.forall_mem_cons]

end SentRequest

namespace HttpReqDecoder

variable {d : HttpReqDecoder}

/-- One request: the step lemma.  The flag that was not set stays so. -/
theorem feed_sent (hidle : d.Idle) (hflag : d.req.isBodyTruncated = false)
    (r : SentRequest) :
    ∃ req d', feed d r.wire = .ok (some req, d') ∧
      r.Received d.bodyMaxBytes req ∧ d'.Idle ∧
      d'.bodyMaxBytes = d.bodyMaxBytes ∧ d'.req.isBodyTruncated = false := by
  have hview : (d.buffer.append r.wire).toStringView =
      r.head.requestLine ++
        (FieldLine.wires r.lines ++ (crlf ++ r.body)) := by
    rw [BaseBuffer.append_toStringView hidle.valid, hidle.empty,
      List.nil_append, SentRequest.wire]
  obtain ⟨d', hdecode, hidle', hmax, hflag'⟩ :=
    @decode_lines { d with buffer := d.buffer.append r.wire } r.head r.lines
      r.body hidle.state hidle.headers hidle.body
      (BaseBuffer.append_valid hidle.valid _) r.begins hview
  exact ⟨_, d', hdecode, ⟨rfl, hflag, rfl⟩, hidle', hmax, hflag'.trans hflag⟩

theorem feedAll_sent (hidle : d.Idle) (hflag : d.req.isBodyTruncated = false)
    (rs : List SentRequest) :
    ∃ reqs d', feedAll d (rs.map SentRequest.wire) =
        .ok (reqs.map some, d') ∧
      List.Forall₂ (SentRequest.Received d.bodyMaxBytes) rs reqs := by
  induction rs generalizing d with
  | nil => exact ⟨[], d, rfl, .nil⟩
  | cons r rs ih =>
      obtain ⟨req, d₁, hfeed, hreq, hidle₁, hmax, hflag₁⟩ :=
        feed_sent hidle hflag r
      obtain ⟨reqs, d', hrest, hreqs⟩ := ih hidle₁ hflag₁
      refine ⟨req :: reqs, d', ?_, .cons hreq (hmax ▸ hreqs)⟩
      rw [List.map_cons, feedAll, hfeed]
      simp only [hrest, List.map_cons]

/-- The flags of a sequence of requests are exact only when no body exceeds the
limit, so that none of them has to be set. -/
theorem flagExact_iff {buffer : BaseBuffer} (hvalid : buffer.Valid)
    (hempty : buffer.toStringView = []) (n : Nat) (rs : List SentRequest) :
    (∃ reqs d', feedAll ((init buffer).setBodyMaxBytes n)
        (rs.map SentRequest.wire) = .ok (reqs.map some, d') ∧
      List.Forall₂ (SentRequest.FlagExact n) rs reqs) ↔
      ∀ r ∈ rs, r.body.length ≤ n := by
  obtain ⟨reqs, d', hfeed, hreqs⟩ :=
    feedAll_sent ((init_idle hvalid hempty).setBodyMaxBytes n) rfl rs
  constructor
  · rintro ⟨reqs', d'', hfeed', hexact⟩
    have hsame := (Prod.mk.inj (Except.ok.inj (hfeed.symm.trans hfeed'))).1
    obtain rfl := List.map_injective_iff.mpr (fun _ _ => Option.some.inj)
      hsame
    exact (SentRequest.flagExact_all_iff hreqs).mp hexact
  · intro hfits
    exact ⟨reqs, d', hfeed, (SentRequest.flagExact_all_iff hreqs).mpr hfits⟩

theorem sp_not_mem_slash : sp ∉ bytes "/" := by
  decide

/-- A `POST` to `/` with a body and no header lines. -/
def upload (body : List UInt8) : SentRequest :=
  ⟨.post (bytes "/") [] sp_not_mem_slash, [], body, List.forall_mem_nil _⟩

/-- Bodies of the length of the limit and below it. -/
theorem flagExact_fits :
    ∃ reqs d', feedAll ((init (.ofSize 64)).setBodyMaxBytes 2)
        [(upload (bytes "ab")).wire, (upload []).wire] =
          .ok (reqs.map some, d') ∧
      List.Forall₂ (SentRequest.FlagExact 2) [upload (bytes "ab"), upload []]
        reqs :=
  (flagExact_iff (BaseBuffer.ofSize_valid 64) (BaseBuffer.ofSize_toStringView 64)
    2 [upload (bytes "ab"), upload []]).mpr (by decide)

/-- Three bytes where two are allowed. -/
theorem flagExact_cut :
    ∃ reqs d', feedAll ((init (.ofSize 64)).setBodyMaxBytes 2)
        [(upload (bytes "abc")).wire] = .ok (reqs.map some, d') ∧
      ¬ List.Forall₂ (SentRequest.FlagExact 2) [upload (bytes "abc")]
        reqs := by
  have hidle : ((init (.ofSize 64)).setBodyMaxBytes 2).Idle :=
    (init_idle (BaseBuffer.ofSize_valid 64)
      (BaseBuffer.ofSize_toStringView 64)).setBodyMaxBytes 2
  obtain ⟨reqs, d', hfeed, hreqs⟩ := feedAll_sent hidle rfl
    [upload (bytes "abc")]
  refine ⟨reqs, d', hfeed, ?_⟩
  have hcut := SentRequest.flagExact_all_iff hreqs
  rw [show ((init (.ofSize 64)).setBodyMaxBytes 2).bodyMaxBytes = 2 from rfl]
    at hcut
  rw [hcut]
  decide

end HttpReqDecoder

end Jerry
