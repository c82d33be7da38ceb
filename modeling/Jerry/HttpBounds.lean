/-
What a call of `Decode` comes to, whatever is readable: the request line it
finds, and whether its looks at the end of the headers fall on bytes that are
there.
-/
import Jerry.HttpGrammar

namespace Jerry

open CString Search Window HttpReqDecoder

namespace HttpReqDecoder

variable {d d' : HttpReqDecoder}

/-- A known method, two spaces and a CRLF are readable: the text of the version,
and what is behind the line. -/
def requestLine? (readable : List UInt8) : Option (List UInt8 × List UInt8) :=
  let sp1 := readable.idxOf sp
  let sp2 := sp1 + 1 + (readable.drop (sp1 + 1)).idxOf sp
  let eol := sp2 + 1 + search crlf (readable.drop (sp2 + 1))
  if sp1 = readable.length then none
  else if methodMap.lookup (readable.take sp1) = none then none
  else if sp2 = readable.length then none
  else if eol = readable.length then none
  else some (slice readable (sp2 + 1) eol, readable.drop (eol + 2))

/-- Each look for the empty line, in front of a line and behind the last one, is
at two bytes of `readable ++ dead`, or at one that is no CR. -/
def HeadersWithin (dead : List UInt8) : Nat → List UInt8 → Prop
  | 0, _ => True
  | fuel + 1, readable =>
      readable ++ dead ≠ [] ∧ readable ++ dead ≠ [cr] ∧
        if crlf <+: readable ++ dead then True
        else
          let col := readable.idxOf colon
          let eol := col + 1 + search crlf (readable.drop (col + 1))
          if col = readable.length ∨ eol = readable.length then True
          else HeadersWithin dead fuel (readable.drop (eol + 2))

instance decidableHeadersWithin (dead : List UInt8) :
    ∀ fuel readable, Decidable (HeadersWithin dead fuel readable)
  | 0, _ => isTrue trivial
  | fuel + 1, readable =>
      have := decidableHeadersWithin dead fuel (readable.drop
        (readable.idxOf colon + 1 +
          search crlf (readable.drop (readable.idxOf colon + 1)) + 2))
      inferInstanceAs (Decidable (_ ∧ _ ∧ ite _ _ (ite _ _ _)))

/-- A request line that is readable has a version that is known. -/
def KnownVersion (d : HttpReqDecoder) : Prop :=
  d.state = .expectRequestLine →
    ∀ line ∈ requestLine? d.buffer.toStringView,
      (versionMap.lookup line.1).isSome = true

instance (d : HttpReqDecoder) : Decidable d.KnownVersion :=
  inferInstanceAs (Decidable (_ → ∀ line ∈ _, _))

/-- The same for the whole call, which goes on to the headers behind a request
line. -/
def HeadWithin (dead : List UInt8) (d : HttpReqDecoder) : Prop :=
  match d.state with
  | .expectRequestLine =>
      ∀ line ∈ requestLine? d.buffer.toStringView,
        (versionMap.lookup line.1).isSome = true →
          HeadersWithin dead (line.2.length + 1) line.2
  | .expectHeaders =>
      HeadersWithin dead (d.buffer.toStringView.length + 1) d.buffer.toStringView
  | _ => True

instance (dead : List UInt8) (d : HttpReqDecoder) :
    Decidable (HeadWithin dead d) := by
  unfold HeadWithin
  exact match d.state with
    | .expectRequestLine => inferInstance
    | .expectHeaders => inferInstance
    | .expectBody | .parseFinished => inferInstance

/-- Between two calls the decoder waits for a request line, with nothing kept of
the last request, or for headers. -/
structure Resumable (d : HttpReqDecoder) : Prop where
  valid : d.buffer.Valid
  state : d.state = .expectRequestLine ∧ d.req.headers = .empty ∧ d.req.body = [] ∨
    d.state = .expectHeaders

theorem init_resumable {buffer : BaseBuffer} (hvalid : buffer.Valid) :
    (init buffer).Resumable :=
  ⟨hvalid, Or.inl ⟨rfl, rfl, rfl⟩⟩

theorem Resumable.setBodyMaxBytes (h : d.Resumable) (n : Nat) :
    (d.setBodyMaxBytes n).Resumable :=
  ⟨h.valid, h.state⟩

theorem Resumable.append (h : d.Resumable) (segment : List UInt8) :
    Resumable { d with buffer := d.buffer.append segment } :=
  ⟨BaseBuffer.append_valid h.valid segment, h.state⟩

section RequestLine

variable {readable : List UInt8} {sp1 sp2 eol : Nat}

/-- The pieces that `ParseRequestLine` finds one behind the other. -/
theorem requestLine_within (hsp1 : sp1 = readable.idxOf sp)
    (hne1 : sp1 ≠ readable.length)
    (hsp2 : sp2 = sp1 + 1 + (readable.drop (sp1 + 1)).idxOf sp)
    (hne2 : sp2 ≠ readable.length)
    (heol : eol = sp2 + 1 + search crlf (readable.drop (sp2 + 1)))
    (hne3 : eol ≠ readable.length) :
    sp1 < sp2 ∧ sp2 < eol ∧ eol + 2 ≤ readable.length := by
  have hle : readable.idxOf sp ≤ readable.length := List.idxOf_le_length
  have hlt : sp2 < readable.length := by
    rw [hsp2] at hne2 ⊢
    exact idxOf_drop_lt (by omega) hne2
  have hend : eol + 2 ≤ readable.length := by
    rw [heol] at hne3 ⊢
    exact search_drop_le (by decide) (by omega) hne3
  omega

theorem requestLine?_eq_some (hsp1 : sp1 = readable.idxOf sp)
    (hne1 : sp1 ≠ readable.length)
    (hmethod : methodMap.lookup (readable.take sp1) ≠ none)
    (hsp2 : sp2 = sp1 + 1 + (readable.drop (sp1 + 1)).idxOf sp)
    (hne2 : sp2 ≠ readable.length)
    (heol : eol = sp2 + 1 + search crlf (readable.drop (sp2 + 1)))
    (hne3 : eol ≠ readable.length) :
    requestLine? readable =
      some (slice readable (sp2 + 1) eol, readable.drop (eol + 2)) := by
  subst hsp1 hsp2 heol
  rw [requestLine?, if_neg hne1, if_neg hmethod, if_neg hne2, if_neg hne3]

/-- What `ParseRequestLine` comes to. -/
inductive LineOutcome (d : HttpReqDecoder) :
    Except Fault (Bool × HttpReqDecoder) → Prop
  | waits {d' : HttpReqDecoder} :
      requestLine? d.buffer.toStringView = none → d'.state = d.state →
      d'.req.headers = d.req.headers → d'.req.body = d.req.body →
      d'.buffer.Valid → LineOutcome d (.ok (false, d'))
  | unknown {text rest : List UInt8} :
      requestLine? d.buffer.toStringView = some (text, rest) →
      versionMap.lookup text = none → LineOutcome d (.error .outOfRange)
  | found {text rest : List UInt8} {d' : HttpReqDecoder} :
      requestLine? d.buffer.toStringView = some (text, rest) →
      (versionMap.lookup text).isSome = true → d'.state = .expectHeaders →
      d'.buffer.Valid → d'.buffer.toStringView = rest →
      d'.buffer.deadBytes = d.buffer.deadBytes →
      LineOutcome d (.ok (true, d'))

theorem parseRequestLine_outcome (hd : d.buffer.Valid) :
    LineOutcome d (parseRequestLine d) := by
  unfold parseRequestLine
  simp only
  split
  · rename_i hsp1
    have hnone : requestLine? d.buffer.toStringView = none := by
      rw [requestLine?]
      exact if_pos hsp1
    split
    · exact .waits hnone rfl rfl rfl d.buffer.dropAllBytes_valid
    · exact .waits hnone rfl rfl rfl hd
  · rename_i hsp1
    split
    · rename_i hmethod
      have hnone : requestLine? d.buffer.toStringView = none := by
        simp only [requestLine?, if_neg hsp1, hmethod, if_true]
      exact .waits hnone rfl rfl rfl d.buffer.dropAllBytes_valid
    · rename_i method hmethod
      have hknown : ¬ methodMap.lookup (d.buffer.toStringView.take
          (d.buffer.toStringView.idxOf sp)) = none := by
        rw [hmethod]
        exact Option.some_ne_none _
      split
      · rename_i hsp2
        have hnone : requestLine? d.buffer.toStringView = none := by
          simp only [requestLine?, if_neg hsp1, if_neg hknown, if_pos hsp2]
        exact .waits hnone rfl rfl rfl hd
      · rename_i hsp2
        split
        · rename_i heol
          have hnone : requestLine? d.buffer.toStringView = none := by
            simp only [requestLine?, if_neg hsp1, if_neg hknown, if_neg hsp2,
              if_pos heol]
          exact .waits hnone rfl rfl rfl hd
        · rename_i heol
          obtain ⟨_, _, hend⟩ := requestLine_within rfl hsp1 rfl hsp2 rfl heol
          have hline :=
            requestLine?_eq_some rfl hsp1 hknown rfl hsp2 rfl heol
          split
          · rename_i hversion
            exact .unknown hline hversion
          · rename_i version hversion
            rw [dropBytesUntil_add]
            exact .found hline (by rw [hversion]; rfl) rfl (advance_valid hd hend)
              (advance_toStringView d _) rfl

end RequestLine

section Headers

variable {dead readable : List UInt8}

theorem atEndOfHeaders_eq_none_iff {memory : List UInt8} :
    atEndOfHeaders memory = none ↔ memory = [] ∨ memory = [cr] := by
  rcases memory with _ | ⟨c, _ | ⟨e, memory⟩⟩
  · simp [atEndOfHeaders]
  · simp [atEndOfHeaders]
  · simp only [atEndOfHeaders]
    split <;> simp

/-- Nothing more is looked at behind the empty line. -/
theorem headersWithin_end (fuel : Nat) (hfront : crlf <+: readable ++ dead) :
    HeadersWithin dead (fuel + 1) readable := by
  refine ⟨?_, ?_, ?_⟩
  · intro hnil
    rw [hnil] at hfront
    exact absurd hfront.length_le (by decide)
  · intro hcr
    rw [hcr] at hfront
    exact absurd hfront.length_le (by decide)
  · rw [if_pos hfront]
    trivial

/-- Nor in front of a line that is not complete. -/
theorem headersWithin_waits (fuel : Nat) (hnil : readable ++ dead ≠ [])
    (hcr : readable ++ dead ≠ [cr])
    (hwaits : readable.idxOf colon = readable.length ∨
      readable.idxOf colon + 1 +
        search crlf (readable.drop (readable.idxOf colon + 1)) =
          readable.length) : HeadersWithin dead (fuel + 1) readable := by
  refine ⟨hnil, hcr, ?_⟩
  split
  · trivial
  · simp only [if_pos hwaits]

/-- Behind a complete line it goes on. -/
theorem headersWithin_wire (dead : List UInt8) (fuel : Nat) (l : FieldLine)
    {rest : List UInt8}
    (hnil : l.wire ++ rest ++ dead ≠ []) (hcr : l.wire ++ rest ++ dead ≠ [cr])
    (hfront : ¬ crlf <+: l.wire ++ rest ++ dead) :
    HeadersWithin dead (fuel + 1) (l.wire ++ rest) ↔
      HeadersWithin dead fuel rest := by
  obtain ⟨hcol, heol, hne1, hne2⟩ :=
    fieldLine_positions (rfl : l.wire ++ rest = l.wire ++ rest)
  have hlength := l.wire_length
  have hdrop : (l.wire ++ rest).drop (l.name.length + 1 + l.raw.length + 2) =
      rest := List.drop_left' (by omega)
  rw [HeadersWithin, if_neg hfront]
  simp only [hcol, heol, if_neg (not_or.mpr ⟨hne1, hne2⟩), hdrop]
  exact ⟨fun h => h.2.2, fun h => ⟨hnil, hcr, h⟩⟩

/-- What the loop of `ParseHeaders` comes to. -/
inductive HeadersOutcome (fuel : Nat) (d : HttpReqDecoder) :
    Except Fault (Bool × HttpReqDecoder) → Prop
  | outside :
      ¬ HeadersWithin d.buffer.deadBytes fuel d.buffer.toStringView →
      HeadersOutcome fuel d (.error .outOfBounds)
  | waits {d' : HttpReqDecoder} :
      HeadersWithin d.buffer.deadBytes fuel d.buffer.toStringView →
      d'.state = d.state → d'.buffer.Valid →
      HeadersOutcome fuel d (.ok (false, d'))
  | ended {d' : HttpReqDecoder} :
      HeadersWithin d.buffer.deadBytes fuel d.buffer.toStringView →
      d'.state = .expectBody → d'.buffer.Valid →
      HeadersOutcome fuel d (.ok (true, d'))

theorem parseHeader_ne_error (d : HttpReqDecoder) (fault : Fault) :
    parseHeader d ≠ .error fault := by
  unfold parseHeader
  simp only
  split
  · simp
  · split
    · simp
    · rw [dropBytesUntil_add]
      simp

theorem parseHeadersLoop_outcome {fuel : Nat} (hd : d.buffer.Valid)
    (hfuel : d.buffer.toStringView.length < fuel) :
    HeadersOutcome fuel d (parseHeadersLoop fuel d) := by
  induction fuel generalizing d with
  | zero => exact absurd hfuel (Nat.not_lt_zero _)
  | succ fuel ih =>
      rw [parseHeadersLoop, BaseBuffer.memory_eq hd]
      split
      · rename_i hnone
        refine .outside fun h => ?_
        rcases atEndOfHeaders_eq_none_iff.mp hnone with hnil | hcr
        · exact h.1 hnil
        · exact h.2.1 hcr
      · rename_i hend
        have hfront := (atEndOfHeaders_iff hend).mp rfl
        exact .ended (headersWithin_end fuel hfront) rfl
          (BaseBuffer.dropBytes_valid hd 2)
      · rename_i hend
        have hfront : ¬ crlf <+: d.buffer.toStringView ++ d.buffer.deadBytes :=
          fun hfront => absurd ((atEndOfHeaders_iff hend).mpr hfront) (by decide)
        have hlook : ¬ (d.buffer.toStringView ++ d.buffer.deadBytes = [] ∨
            d.buffer.toStringView ++ d.buffer.deadBytes = [cr]) := by
          rw [← atEndOfHeaders_eq_none_iff, hend]
          exact Option.some_ne_none _
        obtain ⟨hnil, hcr⟩ := not_or.mp hlook
        split
        · rename_i fault hheader
          exact absurd hheader (parseHeader_ne_error d fault)
        · rename_i d₁ hheader
          obtain ⟨rfl, hwaits⟩ := parseHeader_waits hheader
          exact .waits (headersWithin_waits fuel hnil hcr hwaits) rfl hd
        · rename_i d₁ hheader
          obtain ⟨l, rest, hview, rfl⟩ := parseHeader_sound hheader
          have hlength := congrArg List.length hview
          rw [List.length_append] at hlength
          have hline := l.wire_length
          have hvalid : (d.advance l.wire.length).buffer.Valid :=
            advance_valid hd (by omega)
          have hnext : (d.advance l.wire.length).buffer.toStringView = rest := by
            rw [advance_toStringView, hview, List.drop_left]
          have hiff : HeadersWithin d.buffer.deadBytes (fuel + 1)
              d.buffer.toStringView ↔ HeadersWithin d.buffer.deadBytes fuel rest := by
            rw [hview] at hnil hcr hfront ⊢
            exact headersWithin_wire _ fuel l hnil hcr hfront
          have hrest := @ih ((d.advance l.wire.length).withReq { d.req with
            headers := d.req.headers.emplace l.name l.value }) hvalid (by
              change (d.advance _).buffer.toStringView.length < fuel
              rw [hnext]
              omega)
          have hwithin := hnext.symm ▸ hiff
          generalize parseHeadersLoop fuel _ = result at hrest ⊢
          cases hrest with
          | outside h => exact .outside fun hin => h (hwithin.mp hin)
          | waits h hstate hvalid' => exact .waits (hwithin.mpr h) hstate hvalid'
          | ended h hstate hvalid' => exact .ended (hwithin.mpr h) hstate hvalid'

end Headers

section Decode

/-- What a call of `Decode` comes to. -/
inductive DecodeOutcome (d : HttpReqDecoder) :
    Except Fault (Option HttpReq × HttpReqDecoder) → Prop
  | unknown : ¬ d.KnownVersion → DecodeOutcome d (.error .outOfRange)
  | outside : d.KnownVersion → ¬ HeadWithin d.buffer.deadBytes d →
      DecodeOutcome d (.error .outOfBounds)
  | returns {out : Option HttpReq} {d' : HttpReqDecoder} :
      d.KnownVersion → HeadWithin d.buffer.deadBytes d → d'.Resumable →
      DecodeOutcome d (.ok (out, d'))

/-- The call from the headers on. -/
theorem decodeLoop_headers_outcome (fuel : Nat) (hstate : d.state = .expectHeaders)
    (hd : d.buffer.Valid) : DecodeOutcome d (decodeLoop (fuel + 3) d) := by
  have hknown : d.KnownVersion := by
    intro hline
    rw [hstate] at hline
    cases hline
  have hwithin : HeadWithin d.buffer.deadBytes d ↔
      HeadersWithin d.buffer.deadBytes (d.buffer.toStringView.length + 1)
        d.buffer.toStringView := by
    rw [HeadWithin, hstate]
  have hloop := parseHeadersLoop_outcome hd (Nat.lt_succ_self _)
  rw [decodeLoop_headers _ hstate, parseHeaders, ← BaseBuffer.toStringView_length hd]
  generalize parseHeadersLoop _ d = result at hloop ⊢
  cases hloop with
  | outside h => exact .outside hknown fun hin => h (hwithin.mp hin)
  | waits h hstate' hvalid =>
      exact .returns hknown (hwithin.mpr h) ⟨hvalid, Or.inr (hstate'.trans hstate)⟩
  | @ended d' h hstate' _ =>
      change DecodeOutcome d (decodeLoop (fuel + 2) d')
      rw [decodeLoop_body fuel hstate']
      exact .returns hknown (hwithin.mpr h)
        ⟨d'.buffer.dropAllBytes_valid, Or.inl ⟨rfl, rfl, rfl⟩⟩

theorem decode_outcome (hd : d.Resumable) : DecodeOutcome d (decode d) := by
  rcases hd.state with ⟨hstate, hheaders, hbody⟩ | hstate
  · change DecodeOutcome d (decodeLoop (3 + 1) d)
    rw [decodeLoop_requestLine 3 hstate hheaders hbody]
    have hline := parseRequestLine_outcome hd.valid
    generalize parseRequestLine d = result at hline ⊢
    cases hline with
    | waits hnone hstate' hheaders' hbody' hvalid =>
        refine .returns ?_ ?_ ⟨hvalid, Or.inl ⟨hstate'.trans hstate,
          hheaders'.trans hheaders, hbody'.trans hbody⟩⟩
        · intro _ line hmem
          rw [hnone] at hmem
          cases hmem
        · rw [HeadWithin, hstate]
          intro line hmem
          rw [hnone] at hmem
          cases hmem
    | unknown hsome hversion =>
        refine .unknown fun hknown => ?_
        have hin := hknown hstate _ hsome
        rw [hversion] at hin
        cases hin
    | @found text rest d' hsome hversion hstate' hvalid hview hdead =>
        have hknown : d.KnownVersion := by
          intro _ line hmem
          rw [hsome] at hmem
          obtain rfl := Option.some.inj hmem
          exact hversion
        have hwithin : HeadWithin d.buffer.deadBytes d ↔
            HeadWithin d'.buffer.deadBytes d' := by
          simp only [HeadWithin, hstate, hstate', hsome, hview, hdead]
          constructor
          · exact fun h => h _ rfl hversion
          · intro h line hmem _
            obtain rfl := Option.some.inj hmem
            exact h
        have hrest := decodeLoop_headers_outcome 0 hstate' hvalid
        change DecodeOutcome d (decodeLoop (0 + 3) d')
        generalize decodeLoop (0 + 3) d' = result at hrest ⊢
        cases hrest with
        | unknown h =>
            refine absurd (fun hline => ?_) h
            rw [hstate'] at hline
            cases hline
        | outside _ h => exact .outside hknown fun hin => h (hwithin.mp hin)
        | returns _ h hd' => exact .returns hknown (hwithin.mpr h) hd'
  · exact decodeLoop_headers_outcome 1 hstate hd.valid

/-- It stays so from call to call. -/
theorem Resumable.feed {segment : List UInt8} {out : Option HttpReq}
    (hd : d.Resumable) (h : d.feed segment = .ok (out, d')) : d'.Resumable := by
  have houtcome := decode_outcome (hd.append segment)
  change decode _ = _ at h
  rw [h] at houtcome
  cases houtcome with
  | returns _ _ hd' => exact hd'

theorem Resumable.feedAll {segments : List (List UInt8)}
    {outs : List (Option HttpReq)} (hd : d.Resumable)
    (h : d.feedAll segments = .ok (outs, d')) : d'.Resumable := by
  induction segments generalizing d outs with
  | nil =>
      obtain ⟨_, rfl⟩ := Prod.mk.inj (Except.ok.inj h)
      exact hd
  | cons segment segments ih =>
      rw [HttpReqDecoder.feedAll] at h
      split at h
      · cases h
      · rename_i out d₁ hfeed
        split at h
        · cases h
        · rename_i outs' d₂ hrest
          obtain ⟨_, rfl⟩ := Prod.mk.inj (Except.ok.inj h)
          exact ih (hd.feed hfeed) hrest

end Decode

end HttpReqDecoder

end Jerry
