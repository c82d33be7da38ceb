/-
Segmentation of a request head: how many `Decode` calls a head needs, whichever
way its bytes are cut, and the cuts after which a call misreads it.
-/
import Jerry.HttpTrace

namespace Jerry

open CString Search Window HttpReqDecoder HeaderLine

namespace HttpReqDecoder

variable {d d' : HttpReqDecoder} {q : RequestHead} {received body : List UInt8}

/-- The head of one request is the head of the other. -/
structure SameHead (r s : HttpReq) : Prop where
  method : r.method = s.method
  uri : r.requestUri = s.requestUri
  version : r.version = s.version
  headers : r.headers = s.headers

/-- Every call but the last returns nothing, and the last one returns the
request that one call on all the bytes would return. -/
def Segmented (d : HttpReqDecoder) (segments : List (List UInt8)) : Prop :=
  ∃ req whole d' d'',
    feedAll d segments =
      .ok (List.replicate (segments.length - 1) none ++ [some req], d') ∧
    feed d segments.flatten = .ok (some whole, d'') ∧ SameHead req whole

/-- Every segment but the last ends in a harmless cut.  `received` are the bytes
of the head that came before. -/
def CutsHarmless (q : RequestHead) :
    HttpReqDecoder → List UInt8 → List (List UInt8) → Prop
  | _, _, [] => True
  | d, received, segment :: segments =>
      segments ≠ [] →
        CutHarmless q (received ++ segment)
          (d.buffer.append segment).deadBytes ∧
        ∀ out d', feed d segment = .ok (out, d') →
          CutsHarmless q d' (received ++ segment) segments

instance decidableCutsHarmless (q : RequestHead) :
    ∀ d received segments, Decidable (CutsHarmless q d received segments)
  | _, _, [] => isTrue trivial
  | d, received, segment :: segments =>
      match hfeed : feed d segment with
      | .error _ => decidable_of_iff (segments ≠ [] →
          CutHarmless q (received ++ segment)
            (d.buffer.append segment).deadBytes)
          (by simp [CutsHarmless, hfeed])
      | .ok (out, d') =>
          have := decidableCutsHarmless q d' (received ++ segment) segments
          decidable_of_iff (segments ≠ [] →
            CutHarmless q (received ++ segment)
              (d.buffer.append segment).deadBytes ∧
            CutsHarmless q d' (received ++ segment) segments)
            (by simp [CutsHarmless, hfeed])

theorem feedAll_cons {segment : List UInt8} {segments : List (List UInt8)}
    {out : Option HttpReq} (hfeed : feed d segment = .ok (out, d')) :
    feedAll d (segment :: segments) =
      match feedAll d' segments with
      | .error fault => .error fault
      | .ok (outs, d'') => .ok (out :: outs, d'') := by
  cases hrest : feedAll d' segments with
  | error fault => simp [feedAll, hfeed, hrest]
  | ok r => simp [feedAll, hfeed, hrest]

theorem replicate_none_cons {α : Type} (last : Option α) {n : Nat}
    (hn : 0 < n) : none :: (List.replicate (n - 1) none ++ [last]) =
      List.replicate n none ++ [last] := by
  obtain ⟨m, rfl⟩ := Nat.exists_eq_succ_of_ne_zero (Nat.ne_of_gt hn)
  rfl

/-- In the middle of a head, the remaining segments finish it; what the last
one brings behind the head is the body. -/
theorem feedAll_of_cutsHarmless {segments : List (List UInt8)}
    (h : Awaiting q received d) (hsegments : segments ≠ [])
    (hwire : received ++ segments.flatten = q.wire ++ body)
    (hlast : (received ++ segments.dropLast.flatten).length < q.wire.length)
    (hcuts : CutsHarmless q d received segments) :
    ∃ d', feedAll d segments = .ok
        (List.replicate (segments.length - 1) none ++
          [some (q.toReq (body.take d.bodyMaxBytes) d.req.isBodyTruncated)],
          d') ∧
      d'.Idle ∧ d'.bodyMaxBytes = d.bodyMaxBytes := by
  induction segments generalizing d received with
  | nil => exact absurd rfl hsegments
  | cons segment segments ih =>
      by_cases hmore : segments = []
      · -- the last segment completes the head
        subst hmore
        rw [List.flatten_singleton] at hwire
        obtain ⟨d', hfeed, hidle, hmax, _⟩ := feed_complete h hwire
        exact ⟨d', feedAll_cons hfeed, hidle, hmax⟩
      · obtain ⟨hcut, hrest⟩ := hcuts hmore
        rw [List.flatten_cons, ← List.append_assoc] at hwire
        rw [List.dropLast_cons_of_ne_nil hmore, List.flatten_cons,
          ← List.append_assoc, List.length_append] at hlast
        obtain ⟨rest, hsplit⟩ := List.prefix_of_prefix_length_le
          ⟨_, hwire⟩ (List.prefix_append q.wire body) (by omega)
        have hne : rest ≠ [] := by
          rintro rfl
          rw [List.append_nil] at hsplit
          rw [hsplit] at hlast
          omega
        obtain ⟨d₁, hfeed, hawait, hmax, htruncated⟩ :=
          feed_incomplete h hsplit hne hcut
        obtain ⟨d', hfeeds, hidle, hmax'⟩ := ih hawait hmore hwire
          (by rw [List.length_append]; omega) (hrest none d₁ hfeed)
        refine ⟨d', ?_, hidle, hmax'.trans hmax⟩
        rw [feedAll_cons hfeed, hfeeds, htruncated, hmax]
        simp only [List.length_cons, Nat.add_sub_cancel]
        rw [← replicate_none_cons _ (List.length_pos_of_ne_nil hmore)]

/-- Without a body, the last segment is the rest of the head. -/
theorem dropLast_flatten_lt {segments : List (List UInt8)}
    (hne : ∀ segment ∈ segments, segment ≠ []) (hsegments : segments ≠ []) :
    segments.dropLast.flatten.length < segments.flatten.length := by
  have hpos := List.length_pos_of_ne_nil
    (hne _ (List.getLast_mem hsegments))
  conv_rhs => rw [← List.dropLast_append_getLast hsegments]
  rw [List.flatten_append, List.flatten_singleton, List.length_append]
  omega

/-- All the bytes of a head at once. -/
theorem feed_whole (hidle : d.Idle) :
    ∃ d', feed d q.wire = .ok (some (q.toReq [] d.req.isBodyTruncated), d') ∧
      d'.Idle := by
  obtain ⟨d', hfeed, hidle', _⟩ := feed_complete (hidle.awaiting q)
    (List.append_nil q.wire).symm
  rw [List.take_nil] at hfeed
  exact ⟨d', hfeed, hidle'⟩

theorem segmented_of_cutsHarmless {segments : List (List UInt8)}
    (hidle : d.Idle) (hne : ∀ segment ∈ segments, segment ≠ [])
    (hwire : segments.flatten = q.wire)
    (hcuts : CutsHarmless q d [] segments) : Segmented d segments := by
  have hsegments : segments ≠ [] := by
    rintro rfl
    exact q.wire_ne_nil hwire.symm
  have hlast := dropLast_flatten_lt hne hsegments
  rw [hwire] at hlast
  have hall : [] ++ segments.flatten = q.wire ++ [] := by
    rw [List.nil_append, List.append_nil, hwire]
  obtain ⟨d', hfeed, _⟩ := feedAll_of_cutsHarmless (hidle.awaiting q)
    hsegments hall hlast hcuts
  rw [List.take_nil] at hfeed
  obtain ⟨d'', hwhole, _⟩ := feed_whole (q := q) hidle
  exact ⟨_, _, d', d'', hfeed, hwire ▸ hwhole, rfl, rfl, rfl, rfl⟩

section Converse

/-- Behind the headers a call does not ask for more. -/
theorem decodeLoop_body_ne_none (fuel : Nat) (hstate : d.state = .expectBody) :
    decodeLoop fuel d ≠ .ok (none, d') := by
  rcases fuel with _ | _ | fuel
  · simp [decodeLoop]
  · rw [decodeLoop, hstate]
    simp [decodeLoop]
  · rw [decodeLoop_body fuel hstate]
    simp

/-- Complete lines with nothing, or only a CR, behind them: when the memory
that follows does not say that the headers go on, the call does not ask for
more. -/
theorem decodeLoop_headers_stop {hs : List HeaderLine} {tail : List UInt8}
    (fuel : Nat) (hd : d.buffer.Valid) (hstate : d.state = .expectHeaders)
    (hview : d.buffer.toStringView = wires hs ++ tail)
    (hend : atEndOfHeaders (tail ++ d.buffer.deadBytes) ≠ some false) :
    decodeLoop fuel d ≠ .ok (none, d') := by
  cases fuel with
  | zero => simp [decodeLoop]
  | succ fuel =>
      have hlength := BaseBuffer.toStringView_length hd
      have hlines := length_le_wires_length hs
      have hrounds : hs.length < d.buffer.readableBytes + 1 := by
        rw [← hlength, hview, List.length_append]
        omega
      obtain ⟨rounds, heq⟩ := Nat.exists_eq_add_of_lt hrounds
      have hvalid : (d.advance (wires hs).length).buffer.Valid :=
        advance_valid hd (by rw [hview, List.length_append]; omega)
      have hmemory : (d.advance (wires hs).length).buffer.memory =
          tail ++ d.buffer.deadBytes := by
        rw [BaseBuffer.memory_eq hvalid, advance_toStringView, hview,
          List.drop_left, advance_deadBytes]
      have hparse : parseHeaders d = parseHeadersLoop (rounds + 1)
          ((d.advance (wires hs).length).withReq
            { d.req with headers := addAll hs d.req.headers }) := by
        rw [parseHeaders, heq, Nat.add_assoc, Nat.add_comm hs.length,
          parseHeadersLoop_wires _ hd hview]
      have hmemory' : atEndOfHeaders ((d.advance (wires hs).length).withReq
          { d.req with headers := addAll hs d.req.headers }).buffer.memory =
          atEndOfHeaders (tail ++ d.buffer.deadBytes) :=
        congrArg atEndOfHeaders hmemory
      rw [decodeLoop_headers fuel hstate, hparse, parseHeadersLoop, hmemory']
      rcases hfound : atEndOfHeaders (tail ++ d.buffer.deadBytes) with
        _ | found
      · simp
      · cases found with
        | false => exact absurd hfound hend
        | true => exact decodeLoop_body_ne_none fuel rfl

/-- A call after a cut whose following memory pretends to end the headers. -/
theorem decode_stop {hs todo : List HeaderLine} {tail : List UInt8}
    (h : Awaiting q (q.requestLine ++ wires hs ++ tail) d)
    (hsplit : q.headers = hs ++ todo) (hshort : tail.length ≤ 1)
    (hend : atEndOfHeaders (tail ++ d.buffer.deadBytes) ≠ some false) :
    decode d ≠ .ok (none, d') := by
  cases h with
  | requestLine hstate hheaders hbody hvalid hview =>
      rw [List.append_assoc] at hview
      obtain ⟨hvalid', hview'⟩ := afterRequestLine_view hvalid hview
      have hline : decode d = decodeLoop 3 (d.afterRequestLine q) := by
        change decodeLoop (3 + 1) d = _
        rw [decodeLoop_requestLine 3 hstate hheaders hbody,
          parseRequestLine_complete hview]
      rw [hline]
      exact decodeLoop_headers_stop 3 hvalid' rfl hview' hend
  | headers done rest hdone hstate hreq hvalid hview =>
      rw [List.append_assoc, List.append_assoc] at hview
      have hrest := List.append_cancel_left hview
      rcases List.append_eq_append_iff.mp (hsplit.symm.trans hdone) with
        ⟨more, rfl, _⟩ | ⟨more, rfl, _⟩
      · -- no line fits into the tail
        rw [wires_append, List.append_assoc] at hrest
        have htail := List.append_cancel_left hrest
        cases more with
        | nil =>
            have hempty : d.buffer.toStringView = wires [] ++ tail := htail.symm
            exact decodeLoop_headers_stop 4 hvalid hstate hempty hend
        | cons k ks =>
            have hlength := congrArg List.length htail
            have hline := k.wire_length
            simp only [wires_cons, List.length_append] at hlength
            omega
      · rw [wires_append, List.append_assoc] at hrest
        have htail := List.append_cancel_left hrest
        exact decodeLoop_headers_stop 4 hvalid hstate htail.symm hend

/-- The name `OPTIONS` alone is dropped as garbage. -/
theorem decode_options (h : Awaiting q received d)
    (hfront : received <+: q.wire) (hmethod : q.method = .options)
    (hlength : received.length = 7) :
    ∃ d', decode d = .ok (none, d') ∧ Traced [] d' := by
  have hname : q.methodStr = bytes "OPTIONS" :=
    methodMap_options (hmethod ▸ q.method_known)
  have hreceived : received = bytes "OPTIONS" := by
    have htake := List.prefix_iff_eq_take.mp hfront
    rw [hlength, RequestHead.wire, RequestHead.requestLine, hname] at htake
    exact htake
  cases h with
  | requestLine hstate hheaders hbody hvalid hview =>
      refine ⟨{ d with buffer := d.buffer.dropAllBytes }, ?_,
        .requestLine hstate hheaders hbody d.buffer.dropAllBytes_valid
          (by simp)⟩
      have hspace : (bytes "OPTIONS").idxOf sp = (bytes "OPTIONS").length := by
        decide
      have hreadable : d.buffer.readableBytes ≥ 7 := by
        rw [← BaseBuffer.toStringView_length hvalid, hview, hlength]
      have hparse : parseRequestLine d =
          .ok (false, { d with buffer := d.buffer.dropAllBytes }) := by
        simp only [parseRequestLine, hview, hreceived, hspace, if_true]
        exact if_pos hreadable
      change decodeLoop (3 + 1) d = _
      rw [decodeLoop_requestLine 3 hstate hheaders hbody, hparse]
  | headers done todo hsplit hstate hreq hvalid hview =>
      have hlong := congrArg List.length hview
      simp only [RequestHead.requestLine, hname, List.length_append,
        List.length_cons] at hlong
      have hseven : (bytes "OPTIONS").length = 7 := by decide
      omega

/-- The name of the method does not stand in the rest of an `OPTIONS`
request. -/
def NamedOnce (q : RequestHead) : Prop :=
  q.method = .options → ¬ bytes "OPTIONS " <:+: q.wire.drop 7

/-- A call that returns nothing before the head is complete, and a run that
still ends in the right request, show that the cut was harmless. -/
theorem cutHarmless_of_feed {segment : List UInt8}
    {segments : List (List UInt8)} {req : HttpReq} {n : Nat}
    (h : Awaiting q received d)
    (hwire : received ++ segment ++ segments.flatten = q.wire)
    (honce : NamedOnce q) (hmethod : req.method = q.method)
    {d₁ : HttpReqDecoder} (hfeed : feed d segment = .ok (none, d₁))
    (hrest : feedAll d₁ segments =
      .ok (List.replicate n none ++ [some req], d')) :
    CutHarmless q (received ++ segment) (d.buffer.append segment).deadBytes := by
  have hawait := h.append segment
  constructor
  · rintro ⟨hoptions, hlength⟩
    obtain ⟨d₂, hdecode, htraced⟩ :=
      decode_options hawait ⟨_, hwire⟩ hoptions hlength
    obtain rfl : d₁ = d₂ := by
      have heq := hfeed.symm.trans hdecode
      simpa using heq
    obtain ⟨name, hname, hinfix⟩ := feedAll_trace htraced hrest
    rw [hmethod, hoptions] at hname
    rw [methodMap_options hname, List.nil_append] at hinfix
    apply honce hoptions
    rw [← hwire, ← hlength, List.drop_left]
    exact hinfix
  · intro done todo hsplit hreceived
    by_contra hend
    rw [hreceived, ← List.append_nil (_ ++ _)] at hawait
    exact decode_stop hawait hsplit (Nat.zero_le _) hend hfeed
  · intro hreceived
    by_contra hend
    rw [hreceived] at hawait
    exact decode_stop hawait (List.append_nil _).symm (Nat.le_refl _) hend hfeed

theorem cutsHarmless_of_feedAll {segments : List (List UInt8)} {req : HttpReq}
    (h : Awaiting q received d) (hne : ∀ segment ∈ segments, segment ≠ [])
    (hwire : received ++ segments.flatten = q.wire) (honce : NamedOnce q)
    (hmethod : req.method = q.method)
    (hfeed : feedAll d segments =
      .ok (List.replicate (segments.length - 1) none ++ [some req], d')) :
    CutsHarmless q d received segments := by
  induction segments generalizing d received with
  | nil => trivial
  | cons segment segments ih =>
      intro hlast
      rw [List.flatten_cons, ← List.append_assoc] at hwire
      have hmore : segments.flatten ≠ [] := by
        obtain ⟨next, others, rfl⟩ := List.exists_cons_of_ne_nil hlast
        have hnext : next ≠ [] := hne next (by simp)
        simp [hnext]
      rw [feedAll] at hfeed
      split at hfeed
      · cases hfeed
      · rename_i out d₁ hdecode
        split at hfeed
        · cases hfeed
        · rename_i outs d₂ hrest
          rw [List.length_cons, Nat.add_sub_cancel, ← replicate_none_cons _
            (List.length_pos_of_ne_nil hlast)] at hfeed
          simp only [Except.ok.injEq, Prod.mk.injEq, List.cons.injEq] at hfeed
          obtain ⟨⟨rfl, rfl⟩, rfl⟩ := hfeed
          have hcut := cutHarmless_of_feed h hwire honce hmethod hdecode hrest
          obtain ⟨d₃, hdecode', hawait, _⟩ :=
            feed_incomplete h hwire hmore hcut
          refine ⟨hcut, ?_⟩
          intro out d₄ hagain
          obtain ⟨rfl, rfl⟩ : none = out ∧ d₃ = d₄ := by
            have heq := hdecode'.symm.trans hagain
            simpa using heq
          obtain rfl : d₁ = d₃ := by
            have heq := hdecode.symm.trans hdecode'
            simpa using heq
          exact ih hawait
            (fun segment hmem => hne segment (List.mem_cons_of_mem _ hmem))
            hwire hrest

end Converse

/-- A decoder between two requests reads a head the same way however it is cut,
as long as every cut is harmless; and only then, unless an `OPTIONS` request
repeats its own name. -/
theorem segmented_iff {segments : List (List UInt8)} (hidle : d.Idle)
    (hne : ∀ segment ∈ segments, segment ≠ [])
    (hwire : segments.flatten = q.wire) :
    (CutsHarmless q d [] segments → Segmented d segments) ∧
    (NamedOnce q → Segmented d segments → CutsHarmless q d [] segments) := by
  refine ⟨segmented_of_cutsHarmless hidle hne hwire, ?_⟩
  rintro honce ⟨req, whole, d', d'', hfeed, hwhole, hsame⟩
  obtain ⟨d₁, hall, _⟩ := feed_whole (q := q) hidle
  have hmethod : req.method = q.method := by
    rw [hwire, hall] at hwhole
    cases hwhole
    exact hsame.method
  exact cutsHarmless_of_feedAll (hidle.awaiting q) hne
    (by rw [List.nil_append, hwire]) honce hmethod hfeed

/-- A head with one header line, cut inside the method, between CR and LF and
inside the header. -/
theorem segmented_iff_three_cuts :
    Segmented (init (.ofSize 1024)) [bytes "GE", bytes "T / HTTP/1.1\r",
      bytes "\nHost: a", bytes "\r\n\r\n"] := by
  have hidle : (init (.ofSize 1024)).Idle :=
    init_idle (BaseBuffer.ofSize_valid _) (BaseBuffer.ofSize_toStringView _)
  exact (segmented_iff (q := .get (bytes "/") [.host] (by decide)) hidle
    (by decide) (by decide)).1 (by decide +kernel)

/-- A run whose last call returns nothing has lost the request. -/
theorem not_segmented {segments : List (List UInt8)}
    (hlast : (feedAll d segments).toOption.map (fun r => r.1.getLast?) =
      some (some none)) : ¬ Segmented d segments := by
  rintro ⟨req, whole, d', d'', hrun, _⟩
  rw [hrun] at hlast
  simp [Except.toOption] at hlast

def optionsHead : RequestHead :=
  { methodStr := bytes "OPTIONS"
    method := .options
    uri := bytes "/"
    version := .http11
    headers := []
    method_known := by decide
    uri_no_space := by decide }

/-- A fresh decoder loses `OPTIONS` cut behind its name; one whose buffer holds
the end of an earlier request behind the readable bytes misreads a head cut
behind its request line. -/
theorem segmented_iff_bad_cuts :
    let d := init (.ofSize 1024)
    let used := (d.feed (bytes "GET /a HTTP/1.1\r\n\r\n")).toOption.elim d
      Prod.snd
    (d.Idle ∧ ¬ ∀ (q : RequestHead) (segments : List (List UInt8)),
      (∀ segment ∈ segments, segment ≠ []) → segments.flatten = q.wire →
        Segmented d segments) ∧
    (used.Idle ∧ ¬ ∀ (q : RequestHead) (segments : List (List UInt8)),
      (∀ segment ∈ segments, segment ≠ []) → segments.flatten = q.wire →
        Segmented used segments) := by
  intro d used
  have hidle : d.Idle :=
    init_idle (BaseBuffer.ofSize_valid _) (BaseBuffer.ofSize_toStringView _)
  obtain ⟨d', hfeed, hidle'⟩ :=
    @feed_whole d (.get (bytes "/a") [] (by decide)) hidle
  have hwire : (RequestHead.get (bytes "/a") [] (by decide)).wire =
      bytes "GET /a HTTP/1.1\r\n\r\n" := by
    decide
  rw [hwire] at hfeed
  have hused : used = d' := by
    simp only [used, hfeed]
    rfl
  refine ⟨⟨hidle, fun hall => ?_⟩, hused ▸ hidle', fun hall => ?_⟩
  · refine not_segmented ?_ (hall optionsHead
      [bytes "OPTIONS", bytes " / HTTP/1.1\r\n\r\n"] (by decide) (by decide))
    decide +kernel
  · refine not_segmented ?_ (hall (.get (bytes "/b") [.host] (by decide))
      [bytes "GET /b HTTP/1.1\r\n", bytes "Host: a\r\n\r\n"]
      (by decide) (by decide))
    decide +kernel

end HttpReqDecoder

end Jerry
