/-
Which bytes a call of `Decode` looks at.  They are readable ones but for the look
at the end of the headers, and a call that keeps to them does not depend on what
else the vector holds.
-/
import Jerry.HttpBounds

namespace Jerry

open CString Search Window HttpReqDecoder

/-- A look at a byte of the vector, and what was readable at that moment. -/
structure ByteRead where
  pos : Nat
  readIdx : Nat
  writeIdx : Nat
deriving DecidableEq, Repr

/-- It falls in `[BeginOfReadable, EndOfReadable)`. -/
def ByteRead.Inside (r : ByteRead) : Prop :=
  r.readIdx ≤ r.pos ∧ r.pos < r.writeIdx

instance (r : ByteRead) : Decidable r.Inside :=
  inferInstanceAs (Decidable (_ ∧ _))

/-- A range of offsets from `BeginOfReadable`. -/
def BaseBuffer.reads (b : BaseBuffer) (i j : Nat) : List ByteRead :=
  (List.range' i (j - i)).map fun k => ⟨b.readIdx + k, b.readIdx, b.writeIdx⟩

namespace HttpReqDecoder

/-- `std::find` looks at the bytes up to the one it finds, `std::search` at no
other bytes than those of its range, and a string is copied byte by byte. -/
def parseRequestLineReads (d : HttpReqDecoder) : List ByteRead :=
  let readable := d.buffer.toStringView
  let sp1 := readable.idxOf sp
  d.buffer.reads 0 (min (sp1 + 1) readable.length) ++
    if sp1 = readable.length then []
    else
      d.buffer.reads 0 sp1 ++
        match methodMap.lookup (readable.take sp1) with
        | none => []
        | some _ =>
            let sp2 := sp1 + 1 + (readable.drop (sp1 + 1)).idxOf sp
            d.buffer.reads (sp1 + 1) (min (sp2 + 1) readable.length) ++
              if sp2 = readable.length then []
              else
                let eol := sp2 + 1 + search crlf (readable.drop (sp2 + 1))
                d.buffer.reads (sp1 + 1) sp2 ++
                  d.buffer.reads (sp2 + 1) readable.length ++
                  if eol = readable.length then []
                  else d.buffer.reads (sp2 + 1) eol

/-- The second byte is looked at when the first is a CR. -/
def atEndOfHeadersReads (b : BaseBuffer) : List ByteRead :=
  b.reads 0 1 ++ if b.memory.head? = some cr then b.reads 1 2 else []

def parseHeaderReads (d : HttpReqDecoder) : List ByteRead :=
  let readable := d.buffer.toStringView
  let col := readable.idxOf colon
  d.buffer.reads 0 (min (col + 1) readable.length) ++
    if col = readable.length then []
    else
      let eol := col + 1 + search crlf (readable.drop (col + 1))
      d.buffer.reads (col + 1) readable.length ++
        if eol = readable.length then []
        else
          let valuePos :=
            if readable[col + 1]? = some sp then col + 2 else col + 1
          d.buffer.reads 0 col ++ d.buffer.reads (col + 1) (col + 2) ++
            d.buffer.reads valuePos eol

def parseHeadersLoopReads : Nat → HttpReqDecoder → List ByteRead
  | 0, _ => []
  | fuel + 1, d =>
      atEndOfHeadersReads d.buffer ++
        match atEndOfHeaders d.buffer.memory with
        | some false =>
            parseHeaderReads d ++
              match parseHeader d with
              | .ok (true, d) => parseHeadersLoopReads fuel d
              | _ => []
        | _ => []

def parseHeadersReads (d : HttpReqDecoder) : List ByteRead :=
  parseHeadersLoopReads (d.buffer.readableBytes + 1) d

def parseBodyReads (d : HttpReqDecoder) : List ByteRead :=
  d.buffer.reads 0 (min d.buffer.readableBytes d.bodyMaxBytes)

def decodeLoopReads : Nat → HttpReqDecoder → List ByteRead
  | 0, _ => []
  | fuel + 1, d =>
      match d.state with
      | .expectRequestLine =>
          if d.req.headers.entries ≠ [] ∨ d.req.body ≠ [] then []
          else
            parseRequestLineReads d ++
              match parseRequestLine d with
              | .ok (true, d) => decodeLoopReads fuel d
              | _ => []
      | .expectHeaders =>
          parseHeadersReads d ++
            match parseHeaders d with
            | .ok (true, d) => decodeLoopReads fuel d
            | _ => []
      | .expectBody => parseBodyReads d ++ decodeLoopReads fuel (parseBody d)
      | .parseFinished => []

/-- The bytes that one call of `Decode` looks at, in this order. -/
def decodeReads (d : HttpReqDecoder) : List ByteRead :=
  decodeLoopReads 4 d

section Inside

variable {d : HttpReqDecoder} {b : BaseBuffer}

theorem reads_inside {i j : Nat} (hb : b.Valid) (hj : j ≤ b.toStringView.length) :
    ∀ r ∈ b.reads i j, r.Inside := by
  rw [BaseBuffer.toStringView_length hb, BaseBuffer.readableBytes] at hj
  intro r hr
  obtain ⟨k, hk, rfl⟩ := List.mem_map.mp hr
  have hrange := List.mem_range'_1.mp hk
  have hle := hb.read_le_write
  refine ⟨Nat.le_add_right _ _, ?_⟩
  simp only
  omega

theorem parseRequestLineReads_inside (hd : d.buffer.Valid) :
    ∀ r ∈ parseRequestLineReads d, r.Inside := by
  have hsp : d.buffer.toStringView.idxOf sp ≤ d.buffer.toStringView.length :=
    List.idxOf_le_length
  unfold parseRequestLineReads
  simp only [List.forall_mem_append]
  refine ⟨reads_inside hd (Nat.min_le_right _ _), ?_⟩
  split
  · exact List.forall_mem_nil _
  · rename_i hsp1
    simp only [List.forall_mem_append]
    refine ⟨reads_inside hd hsp, ?_⟩
    split
    · exact List.forall_mem_nil _
    · simp only [List.forall_mem_append]
      refine ⟨reads_inside hd (Nat.min_le_right _ _), ?_⟩
      split
      · exact List.forall_mem_nil _
      · rename_i hsp2
        have hlt2 := idxOf_drop_lt (by omega) hsp2
        simp only [List.forall_mem_append]
        refine ⟨⟨reads_inside hd (by omega), reads_inside hd (Nat.le_refl _)⟩, ?_⟩
        split
        · exact List.forall_mem_nil _
        · rename_i heol
          obtain ⟨_, _, hend⟩ := requestLine_within rfl hsp1 rfl hsp2 rfl heol
          exact reads_inside hd (by omega)

theorem parseHeaderReads_inside (hd : d.buffer.Valid) :
    ∀ r ∈ parseHeaderReads d, r.Inside := by
  have hcolon : d.buffer.toStringView.idxOf colon ≤ d.buffer.toStringView.length :=
    List.idxOf_le_length
  unfold parseHeaderReads
  simp only [List.forall_mem_append]
  refine ⟨reads_inside hd (Nat.min_le_right _ _), ?_⟩
  split
  · exact List.forall_mem_nil _
  · rename_i hcol
    simp only [List.forall_mem_append]
    refine ⟨reads_inside hd (Nat.le_refl _), ?_⟩
    split
    · exact List.forall_mem_nil _
    · rename_i heol
      have hend : _ + 2 ≤ d.buffer.toStringView.length :=
        search_drop_le (by decide : crlf ≠ []) (by omega) heol
      simp only [List.forall_mem_append]
      exact ⟨⟨reads_inside hd hcolon, reads_inside hd (by omega)⟩,
        reads_inside hd (by omega)⟩

theorem parseBodyReads_inside (hd : d.buffer.Valid) :
    ∀ r ∈ parseBodyReads d, r.Inside := by
  refine reads_inside hd ?_
  rw [BaseBuffer.toStringView_length hd]
  exact Nat.min_le_left _ _

theorem reads_one (b : BaseBuffer) (i : Nat) :
    b.reads i (i + 1) = [⟨b.readIdx + i, b.readIdx, b.writeIdx⟩] := by
  rw [BaseBuffer.reads, Nat.add_sub_cancel_left]
  rfl

/-- One readable byte is enough for a look at the end of the headers, or two of
them if the first is a CR. -/
theorem atEndOfHeadersReads_inside_iff (hb : b.Valid) :
    (∀ r ∈ atEndOfHeadersReads b, r.Inside) ↔
      b.toStringView ≠ [] ∧ b.toStringView ≠ [cr] := by
  have hlength := BaseBuffer.toStringView_length hb
  rw [BaseBuffer.readableBytes] at hlength
  have hfirst : b.reads 0 1 = [⟨b.readIdx, b.readIdx, b.writeIdx⟩] := reads_one b 0
  have hsecond : b.reads 1 2 = [⟨b.readIdx + 1, b.readIdx, b.writeIdx⟩] :=
    reads_one b 1
  rw [atEndOfHeadersReads, hfirst, hsecond, BaseBuffer.memory_eq hb]
  rcases hview : b.toStringView with _ | ⟨c, rest⟩
  · rw [hview, List.length_nil] at hlength
    refine iff_of_false (fun h => ?_) (fun h => h.1 rfl)
    have hin : b.readIdx < b.writeIdx := (h _ List.mem_cons_self).2
    omega
  · rw [hview, List.length_cons] at hlength
    simp only [List.cons_append, List.head?_cons, Option.some.injEq]
    split
    · rename_i hcr
      subst hcr
      have htail : (cr :: rest ≠ [] ∧ cr :: rest ≠ [cr]) ↔ rest.length ≠ 0 := by
        simp
      rw [htail]
      simp only [List.nil_append, List.forall_mem_cons, ByteRead.Inside]
      constructor
      · rintro ⟨_, hin, _⟩
        omega
      · exact fun hne => ⟨by omega, by omega, List.forall_mem_nil _⟩
    · rename_i hcr
      refine iff_of_true ?_ ⟨List.cons_ne_nil _ _, fun h => hcr (List.cons.inj h).1⟩
      simp only [List.append_nil, List.mem_singleton, forall_eq, ByteRead.Inside]
      omega

/-- Then it is the readable bytes that say whether the headers end. -/
theorem atEndOfHeaders_append {readable : List UInt8} (hnil : readable ≠ [])
    (hcr : readable ≠ [cr]) (dead : List UInt8) :
    atEndOfHeaders (readable ++ dead) = some (decide (crlf <+: readable)) := by
  rcases readable with _ | ⟨c, _ | ⟨e, rest⟩⟩
  · exact absurd rfl hnil
  · have hc : c ≠ cr := fun heq => hcr (by rw [heq])
    simp [atEndOfHeaders, crlf, hc]
  · by_cases hc : c = cr
    · simp [atEndOfHeaders, crlf, hc, eq_comm]
    · simp [atEndOfHeaders, crlf, hc, Ne.symm hc]

theorem parseHeadersLoopReads_inside_iff (fuel : Nat) (hd : d.buffer.Valid) :
    (∀ r ∈ parseHeadersLoopReads fuel d, r.Inside) ↔
      HeadersWithin [] fuel d.buffer.toStringView := by
  induction fuel generalizing d with
  | zero => exact iff_of_true (List.forall_mem_nil _) trivial
  | succ fuel ih =>
      rw [parseHeadersLoopReads, List.forall_mem_append,
        atEndOfHeadersReads_inside_iff hd]
      by_cases hlook : d.buffer.toStringView ≠ [] ∧ d.buffer.toStringView ≠ [cr]
      swap
      · refine iff_of_false (fun h => hlook h.1) (fun h => hlook ?_)
        rw [HeadersWithin, List.append_nil] at h
        exact ⟨h.1, h.2.1⟩
      rw [and_iff_right hlook, BaseBuffer.memory_eq hd,
        atEndOfHeaders_append hlook.1 hlook.2]
      obtain ⟨hnil, hcr⟩ := hlook
      rw [← List.append_nil d.buffer.toStringView] at hnil hcr
      by_cases hfront : crlf <+: d.buffer.toStringView
      · rw [decide_eq_true hfront]
        refine iff_of_true (List.forall_mem_nil _)
          (headersWithin_end fuel ?_)
        rwa [List.append_nil]
      · rw [decide_eq_false hfront]
        rw [← List.append_nil d.buffer.toStringView] at hfront
        simp only [List.forall_mem_append]
        rw [and_iff_right (parseHeaderReads_inside hd)]
        cases hheader : parseHeader d with
        | error fault => exact absurd hheader (parseHeader_ne_error d fault)
        | ok r =>
            obtain ⟨found, d₁⟩ := r
            cases found with
            | false =>
                exact iff_of_true (List.forall_mem_nil _)
                  (headersWithin_waits fuel hnil hcr (parseHeader_waits hheader).2)
            | true =>
                obtain ⟨l, rest, hview, rfl⟩ := parseHeader_sound hheader
                have hvalid : (d.advance l.wire.length).buffer.Valid :=
                  advance_valid hd (by rw [hview, List.length_append]; omega)
                have hnext : (d.advance l.wire.length).buffer.toStringView = rest := by
                  rw [advance_toStringView, hview, List.drop_left]
                refine (@ih ((d.advance l.wire.length).withReq { d.req with
                  headers := d.req.headers.emplace l.name l.value })
                    hvalid).trans ?_
                rw [hview] at hnil hcr hfront ⊢
                rw [headersWithin_wire [] fuel l hnil hcr hfront, ← hnext]
                rfl

theorem decodeLoopReads_body_inside (fuel : Nat) (hstate : d.state = .expectBody)
    (hd : d.buffer.Valid) : ∀ r ∈ decodeLoopReads (fuel + 2) d, r.Inside := by
  simp only [decodeLoopReads, hstate, parseBody, List.append_nil]
  exact parseBodyReads_inside hd

theorem decodeLoopReads_headers_inside_iff (fuel : Nat)
    (hstate : d.state = .expectHeaders) (hd : d.buffer.Valid) :
    (∀ r ∈ decodeLoopReads (fuel + 3) d, r.Inside) ↔ HeadWithin [] d := by
  have hreads := parseHeadersLoopReads_inside_iff (d.buffer.readableBytes + 1) hd
  have hrest : ∀ r ∈ (match parseHeaders d with
      | .ok (true, d) => decodeLoopReads (fuel + 2) d
      | _ => []), r.Inside := by
    have hloop := parseHeadersLoop_outcome hd (Nat.lt_succ_self _)
    rw [parseHeaders, ← BaseBuffer.toStringView_length hd]
    generalize parseHeadersLoop _ d = result at hloop
    cases hloop with
    | outside _ => exact List.forall_mem_nil _
    | waits _ _ _ => exact List.forall_mem_nil _
    | ended _ hstate' hvalid => exact decodeLoopReads_body_inside fuel hstate' hvalid
  rw [decodeLoopReads, hstate]
  simp only [List.forall_mem_append]
  rw [and_iff_left hrest, parseHeadersReads, hreads, HeadWithin, hstate,
    BaseBuffer.toStringView_length hd]

theorem decodeReads_inside_iff (hd : d.Resumable) :
    (∀ r ∈ decodeReads d, r.Inside) ↔ HeadWithin [] d := by
  rcases hd.state with ⟨hstate, hheaders, hbody⟩ | hstate
  · have hassert : ¬ (d.req.headers.entries ≠ [] ∨ d.req.body ≠ []) := by
      simp [hheaders, hbody, OrderedMap.empty]
    rw [decodeReads, decodeLoopReads, hstate]
    simp only [if_neg hassert, List.forall_mem_append]
    rw [and_iff_right (parseRequestLineReads_inside hd.valid)]
    have hline := parseRequestLine_outcome hd.valid
    generalize parseRequestLine d = result at hline ⊢
    cases hline with
    | waits hnone _ _ _ _ =>
        refine iff_of_true (List.forall_mem_nil _) ?_
        simp only [HeadWithin, hstate, hnone]
        exact fun line hmem => by cases hmem
    | unknown hsome hversion =>
        refine iff_of_true (List.forall_mem_nil _) ?_
        simp only [HeadWithin, hstate, hsome]
        intro line hmem hknown
        obtain rfl := Option.some.inj hmem
        rw [hversion] at hknown
        cases hknown
    | @found text rest d' hsome hversion hstate' hvalid hview _ =>
        refine (decodeLoopReads_headers_inside_iff 0 hstate' hvalid).trans ?_
        simp only [HeadWithin, hstate, hstate', hsome, hview]
        constructor
        · intro h line hmem _
          obtain rfl := Option.some.inj hmem
          exact h
        · exact fun h => h _ rfl hversion
  · exact decodeLoopReads_headers_inside_iff 1 hstate hd.valid

end Inside

/-- The same decoder over another buffer with the same readable bytes. -/
structure Alike (d e : HttpReqDecoder) : Prop where
  req : d.req = e.req
  bodyMaxBytes : d.bodyMaxBytes = e.bodyMaxBytes
  state : d.state = e.state
  left : d.buffer.Valid
  right : e.buffer.Valid
  view : d.buffer.toStringView = e.buffer.toStringView

/-- Two calls fail alike, or they return the same and leave two decoders that are
alike. -/
inductive SameOutcome {α : Type} : Except Fault (α × HttpReqDecoder) →
    Except Fault (α × HttpReqDecoder) → Prop
  | error (fault : Fault) : SameOutcome (.error fault) (.error fault)
  | ok (a : α) {d e : HttpReqDecoder} :
      Alike d e → SameOutcome (.ok (a, d)) (.ok (a, e))

section Alike

variable {d e : HttpReqDecoder}

theorem Alike.dropAllBytes (h : Alike d e) (req : HttpReq) :
    Alike { d with req := req, buffer := d.buffer.dropAllBytes }
      { e with req := req, buffer := e.buffer.dropAllBytes } := by
  refine ⟨rfl, h.bodyMaxBytes, h.state, d.buffer.dropAllBytes_valid,
    e.buffer.dropAllBytes_valid, ?_⟩
  rw [BaseBuffer.dropAllBytes_toStringView, BaseBuffer.dropAllBytes_toStringView]

theorem Alike.withReq (h : Alike d e) (req : HttpReq) :
    Alike (d.withReq req) (e.withReq req) :=
  ⟨rfl, h.bodyMaxBytes, h.state, h.left, h.right, h.view⟩

theorem Alike.dropBytes (h : Alike d e) (n : Nat) (state : State) :
    Alike { d with buffer := d.buffer.dropBytes n, state := state }
      { e with buffer := e.buffer.dropBytes n, state := state } := by
  refine ⟨h.req, h.bodyMaxBytes, rfl, BaseBuffer.dropBytes_valid h.left n,
    BaseBuffer.dropBytes_valid h.right n, ?_⟩
  rw [BaseBuffer.dropBytes_toStringView h.left, BaseBuffer.dropBytes_toStringView h.right,
    h.view]

theorem Alike.advance (h : Alike d e) {n : Nat}
    (hn : n ≤ d.buffer.toStringView.length) : Alike (d.advance n) (e.advance n) := by
  refine ⟨h.req, h.bodyMaxBytes, h.state, advance_valid h.left hn,
    advance_valid h.right (h.view ▸ hn), ?_⟩
  rw [advance_toStringView, advance_toStringView, h.view]

theorem Alike.readableBytes (h : Alike d e) :
    d.buffer.readableBytes = e.buffer.readableBytes := by
  rw [← BaseBuffer.toStringView_length h.left,
    ← BaseBuffer.toStringView_length h.right, h.view]

theorem parseRequestLine_alike (h : Alike d e) :
    SameOutcome (parseRequestLine d) (parseRequestLine e) := by
  unfold parseRequestLine
  simp only [← h.view, ← h.readableBytes, ← h.req, dropBytesUntil_add]
  split
  · split
    · exact .ok _ (h.dropAllBytes _)
    · exact .ok _ h
  · rename_i hsp1
    split
    · exact .ok _ (h.dropAllBytes _)
    · split
      · exact .ok _ (h.withReq _)
      · rename_i hsp2
        split
        · exact .ok _ (h.withReq _)
        · rename_i heol
          obtain ⟨_, _, hend⟩ := requestLine_within rfl hsp1 rfl hsp2 rfl heol
          split
          · exact .error _
          · have hnext := h.advance hend
            exact .ok _ ⟨rfl, h.bodyMaxBytes, rfl, hnext.left, hnext.right, hnext.view⟩

theorem parseHeader_alike (h : Alike d e) :
    SameOutcome (parseHeader d) (parseHeader e) := by
  unfold parseHeader
  simp only [← h.view, ← h.req, dropBytesUntil_add]
  split
  · exact .ok _ h
  · rename_i hcol
    split
    · exact .ok _ h
    · rename_i heol
      have hle : d.buffer.toStringView.idxOf colon ≤
          d.buffer.toStringView.length := List.idxOf_le_length
      have hend : _ + 2 ≤ d.buffer.toStringView.length :=
        search_drop_le (by decide : crlf ≠ []) (by omega) heol
      exact .ok _ ((h.advance hend).withReq _)

/-- As long as the looks at the end of the headers are inside, what else the
vectors hold makes no difference. -/
theorem parseHeadersLoop_alike {fuel : Nat} (h : Alike d e)
    (hwithin : HeadersWithin [] fuel d.buffer.toStringView) :
    SameOutcome (parseHeadersLoop fuel d) (parseHeadersLoop fuel e) := by
  induction fuel generalizing d e with
  | zero => exact .error _
  | succ fuel ih =>
      have hlook := hwithin
      rw [HeadersWithin, List.append_nil] at hlook
      obtain ⟨hnil, hcr, _⟩ := hlook
      rw [parseHeadersLoop, parseHeadersLoop, BaseBuffer.memory_eq h.left,
        BaseBuffer.memory_eq h.right, ← h.view, atEndOfHeaders_append hnil hcr,
        atEndOfHeaders_append hnil hcr]
      by_cases hfront : crlf <+: d.buffer.toStringView
      · rw [decide_eq_true hfront]
        exact .ok _ (h.dropBytes 2 .expectBody)
      · rw [decide_eq_false hfront]
        have hheader := parseHeader_alike h
        cases hd : parseHeader d with
        | error fault => exact absurd hd (parseHeader_ne_error d fault)
        | ok r =>
            rw [hd] at hheader
            generalize parseHeader e = result at hheader ⊢
            cases hheader with
            | @ok found d₁ e₁ halike =>
                cases found with
                | false => exact .ok _ halike
                | true =>
                    refine ih halike ?_
                    obtain ⟨l, rest, hview, rfl⟩ := parseHeader_sound hd
                    rw [← List.append_nil d.buffer.toStringView] at hnil hcr hfront
                    have hnext : (d.advance l.wire.length).buffer.toStringView =
                        rest := by
                      rw [advance_toStringView, hview, List.drop_left]
                    change HeadersWithin [] fuel
                      (d.advance l.wire.length).buffer.toStringView
                    rw [hview] at hwithin hnil hcr hfront
                    rw [hnext]
                    exact (headersWithin_wire [] fuel l hnil hcr hfront).mp hwithin

theorem decodeLoop_body_alike (fuel : Nat) (h : Alike d e)
    (hstate : d.state = .expectBody) :
    SameOutcome (decodeLoop (fuel + 2) d) (decodeLoop (fuel + 2) e) := by
  have hreq : (parseBody d).req = (parseBody e).req := by
    simp only [parseBody, ← h.req, ← h.bodyMaxBytes, ← h.view, ← h.readableBytes]
  rw [decodeLoop_body fuel hstate, decodeLoop_body fuel (h.state ▸ hstate), ← hreq]
  refine .ok _ ⟨rfl, h.bodyMaxBytes, rfl, d.buffer.dropAllBytes_valid,
    e.buffer.dropAllBytes_valid, ?_⟩
  exact d.buffer.dropAllBytes_toStringView.trans
    e.buffer.dropAllBytes_toStringView.symm

theorem decodeLoop_headers_alike (fuel : Nat) (h : Alike d e)
    (hstate : d.state = .expectHeaders)
    (hwithin : HeadersWithin [] (d.buffer.toStringView.length + 1)
      d.buffer.toStringView) :
    SameOutcome (decodeLoop (fuel + 3) d) (decodeLoop (fuel + 3) e) := by
  rw [decodeLoop_headers _ hstate, decodeLoop_headers _ (h.state ▸ hstate), parseHeaders,
    parseHeaders, ← h.readableBytes, ← BaseBuffer.toStringView_length h.left]
  have hsame := parseHeadersLoop_alike h hwithin
  cases hd : parseHeadersLoop (d.buffer.toStringView.length + 1) d with
  | error fault =>
      rw [hd] at hsame
      generalize parseHeadersLoop _ e = result at hsame ⊢
      cases hsame with
      | error => exact .error fault
  | ok r =>
      rw [hd] at hsame
      generalize parseHeadersLoop _ e = result at hsame ⊢
      cases hsame with
      | @ok found d₁ e₁ halike =>
          cases found with
          | false => exact .ok none halike
          | true =>
              exact decodeLoop_body_alike fuel halike (parseHeadersLoop_trace hd).2

theorem decode_alike (hd : d.Resumable) (h : Alike d e) (hwithin : HeadWithin [] d) :
    SameOutcome (decode d) (decode e) := by
  rcases hd.state with ⟨hstate, hheaders, hbody⟩ | hstate
  · change SameOutcome (decodeLoop (3 + 1) d) (decodeLoop (3 + 1) e)
    rw [decodeLoop_requestLine 3 hstate hheaders hbody,
      decodeLoop_requestLine 3 (h.state ▸ hstate) (h.req ▸ hheaders) (h.req ▸ hbody)]
    have hsame := parseRequestLine_alike h
    have hline := parseRequestLine_outcome hd.valid
    generalize parseRequestLine d = result at hsame hline ⊢
    generalize parseRequestLine e = result' at hsame ⊢
    cases hsame with
    | error fault => exact .error fault
    | @ok found d₁ e₁ halike =>
        cases hline with
        | waits _ _ _ _ _ => exact .ok none halike
        | found hsome hversion hstate' _ hview _ =>
            refine decodeLoop_headers_alike 0 halike hstate' ?_
            rw [HeadWithin, hstate] at hwithin
            rw [hview]
            exact hwithin _ hsome hversion
  · rw [HeadWithin, hstate] at hwithin
    exact decodeLoop_headers_alike 1 h hstate hwithin

end Alike

section Main

variable {d : HttpReqDecoder}

/-- What is asked of a call: it looks at readable bytes only, and so does the
same with any other bytes around them. -/
structure ReadsReceived (d : HttpReqDecoder) : Prop where
  inside : ∀ r ∈ decodeReads d, r.Inside
  alike : ∀ e, Alike d e → SameOutcome (decode d) (decode e)

/-- A call reads received bytes only if and only if there is a readable byte, and
a second one behind a CR, wherever it looks for the end of the headers. -/
theorem readsReceived_iff_headWithin (hd : d.Resumable) :
    d.ReadsReceived ↔ HeadWithin [] d := by
  rw [← decodeReads_inside_iff hd]
  refine ⟨fun h => h.inside, fun h => ⟨h, fun e halike => ?_⟩⟩
  exact decode_alike hd halike ((decodeReads_inside_iff hd).mp h)

/-- A request that is there as a whole. -/
theorem readsReceived_iff_headWithin_whole :
    (init ((BaseBuffer.ofSize 8).append
      (bytes "GET / HTTP/1.1\r\nHost: a\r\n\r\n"))).ReadsReceived :=
  (readsReceived_iff_headWithin (init_resumable
    (BaseBuffer.append_valid (BaseBuffer.ofSize_valid 8) _))).mpr (by decide +kernel)

/-- Only the request line has been received.  The empty line that the vector
holds behind it, of an earlier request perhaps, completes the request, and with
other bytes there it is not complete. -/
theorem readsReceived_iff_headWithin_lineOnly :
    let d := init ⟨bytes "GET / HTTP/1.1\r\n" ++ bytes "\r\n", 0, 16⟩
    let e := init ⟨bytes "GET / HTTP/1.1\r\n" ++ [0, 0], 0, 16⟩
    d.Resumable ∧ Alike d e ∧ (∃ r ∈ decodeReads d, ¬ r.Inside) ∧
      (decode d).toOption.map (fun r => r.1.isSome) = some true ∧
      (decode e).toOption.map (fun r => r.1.isSome) = some false ∧
      ¬ d.ReadsReceived := by
  intro d e
  have houtside : ∃ r ∈ decodeReads d, ¬ r.Inside := by decide +kernel
  refine ⟨init_resumable ⟨by decide, by decide⟩,
    ⟨rfl, rfl, rfl, ⟨by decide, by decide⟩, ⟨by decide, by decide⟩, by decide⟩,
    houtside, by decide +kernel, by decide +kernel, fun h => ?_⟩
  obtain ⟨r, hr, hnot⟩ := houtside
  exact hnot (h.inside r hr)

end Main

end HttpReqDecoder

end Jerry
