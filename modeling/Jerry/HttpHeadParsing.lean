/-
What the parse functions do on a complete and on an incomplete piece of a
well-formed head: one lemma for each function and case, from the bytes of the
readable window alone.
-/
import Jerry.HttpWire

namespace Jerry

open CString Search Window HttpReqDecoder HeaderLine

namespace HttpReqDecoder

variable {d : HttpReqDecoder} {q : RequestHead}

/-- The decoder with `n` more bytes of its buffer consumed. -/
def advance (d : HttpReqDecoder) (n : Nat) : HttpReqDecoder :=
  { d with buffer := { d.buffer with readIdx := d.buffer.readIdx + n } }

/-- The decoder with another request under construction. -/
def withReq (d : HttpReqDecoder) (req : HttpReq) : HttpReqDecoder :=
  { d with req := req }

/-- The decoder once it has taken the request line of `q`. -/
def afterRequestLine (d : HttpReqDecoder) (q : RequestHead) : HttpReqDecoder :=
  { (d.advance q.requestLine.length).withReq
      { d.req with
        method := q.method
        requestUri := q.uri
        version := q.version }
    with state := .expectHeaders }

theorem advance_toStringView (d : HttpReqDecoder) (n : Nat) :
    (d.advance n).buffer.toStringView = d.buffer.toStringView.drop n :=
  slice_add _ _ _ _

theorem advance_valid (hd : d.buffer.Valid) {n : Nat}
    (hn : n ≤ d.buffer.toStringView.length) : (d.advance n).buffer.Valid := by
  have hread := hd.read_le_write
  rw [BaseBuffer.toStringView_length hd, BaseBuffer.readableBytes] at hn
  exact ⟨by simp only [advance]; omega, hd.write_le_size⟩

@[simp] theorem advance_deadBytes (d : HttpReqDecoder) (n : Nat) :
    (d.advance n).buffer.deadBytes = d.buffer.deadBytes := rfl

@[simp] theorem withReq_advance (d : HttpReqDecoder) (req : HttpReq)
    (n : Nat) : (d.withReq req).advance n = (d.advance n).withReq req := rfl

@[simp] theorem advance_advance (d : HttpReqDecoder) (m n : Nat) :
    (d.advance m).advance n = d.advance (m + n) := by
  simp [advance, Nat.add_assoc]

theorem dropBytesUntil_add (d : HttpReqDecoder) (n : Nat) :
    d.buffer.dropBytesUntil (d.buffer.readIdx + n) =
      some (d.advance n).buffer :=
  BaseBuffer.dropBytesUntil_eq (Nat.le_add_right _ _)

/-- Where `ParseRequestLine` finds the pieces of a request line that is readable,
and what they are. -/
theorem requestLine_positions (q : RequestHead) {readable rest : List UInt8}
    (hview : readable = q.requestLine ++ rest) :
    readable.idxOf sp = q.methodStr.length ∧
      (readable.drop (q.methodStr.length + 1)).idxOf sp = q.uri.length ∧
      search crlf (readable.drop (q.methodStr.length + 1 + q.uri.length + 1)) =
        (versionStr q.version).length ∧
      readable.take q.methodStr.length = q.methodStr ∧
      slice readable (q.methodStr.length + 1)
        (q.methodStr.length + 1 + q.uri.length) = q.uri ∧
      slice readable (q.methodStr.length + 1 + q.uri.length + 1)
        (q.methodStr.length + 1 + q.uri.length + 1 +
          (versionStr q.version).length) = versionStr q.version ∧
      q.requestLine.length = q.methodStr.length + 1 + q.uri.length + 1 +
        (versionStr q.version).length + 2 ∧
      readable.length = q.requestLine.length + rest.length := by
  obtain ⟨hsp, _, _⟩ := q.methodStr_short
  have hline : readable = q.methodStr ++ sp :: (q.uri ++ sp ::
      (versionStr q.version ++ (crlf ++ rest))) := by
    simp [hview, RequestHead.requestLine, List.append_assoc]
  have hdrop1 : readable.drop (q.methodStr.length + 1) =
      q.uri ++ sp :: (versionStr q.version ++ (crlf ++ rest)) := by
    rw [hline, drop_succ_append rfl]
  have hdrop2 : readable.drop (q.methodStr.length + 1 + q.uri.length + 1) =
      versionStr q.version ++ (crlf ++ rest) := by
    rw [Nat.add_assoc, ← List.drop_drop, hdrop1, drop_succ_append rfl]
  refine ⟨?_, ?_, ?_, ?_, ?_, ?_, ?_, by rw [hview, List.length_append]⟩
  · rw [hline]
    exact idxOf_append_of_not_mem hsp _
  · rw [hdrop1]
    exact idxOf_append_of_not_mem q.uri_no_space _
  · rw [hdrop2, crlf, search_append_of_not_mem (cr_not_mem_versionStr _),
      search_self_append (by simp), Nat.add_zero]
  · rw [hline, List.take_left' rfl]
  · exact slice_middle (q.methodStr ++ [sp])
      (sp :: (versionStr q.version ++ (crlf ++ rest)))
      (by simp [hline]) (by simp) (by simp)
  · exact slice_middle (q.methodStr ++ sp :: q.uri ++ [sp]) (crlf ++ rest)
      (by simp [hline]) (by simp; omega) (by simp; omega)
  · simp [RequestHead.requestLine, crlf]
    omega

/-- A whole request line is consumed and recorded. -/
theorem parseRequestLine_complete {rest : List UInt8}
    (hview : d.buffer.toStringView = q.requestLine ++ rest) :
    parseRequestLine d = .ok (true, d.afterRequestLine q) := by
  obtain ⟨hsp1, hsp2, heol, hmethod, huri, hversion, hconsumed, hlen⟩ :=
    requestLine_positions q hview
  simp only [parseRequestLine, hsp1, hmethod, q.method_known, hsp2, huri, heol,
    hversion, versionMap_lookup, dropBytesUntil_add]
  rw [if_neg (by omega), if_neg (by omega), if_neg (by omega), ← hconsumed]
  rfl

/-- A proper part of a request line asks for more and changes nothing but the
fields that a later call overwrites, unless it is the one method name that is
taken for garbage. -/
theorem parseRequestLine_incomplete (hd : d.buffer.Valid)
    (hfront : d.buffer.toStringView <+: q.requestLine)
    (hlt : d.buffer.toStringView.length < q.requestLine.length)
    (hmethod : ¬ (q.method = .options ∧ d.buffer.toStringView.length = 7)) :
    ∃ method uri, parseRequestLine d = .ok (false,
      d.withReq { d.req with method := method, requestUri := uri }) := by
  obtain ⟨hsp, hshort, hseven⟩ := q.methodStr_short
  have hreadable := BaseBuffer.toStringView_length hd
  have hcut : d.buffer.toStringView <+: q.methodStr ++ sp :: (q.uri ++ sp ::
      (versionStr q.version ++ crlf)) := by
    simpa [RequestHead.requestLine, List.append_assoc] using hfront
  rcases prefix_append_cons_cases hcut with hin | ⟨l₁, hl₁, hcut₁⟩
  · -- no space has arrived yet
    have hnot : sp ∉ d.buffer.toStringView := fun hmem => hsp (hin.subset hmem)
    have hsp1 := List.idxOf_eq_length_iff.mpr hnot
    have hlen : d.buffer.toStringView.length < 7 := by
      have hle := hin.length_le
      by_contra hge
      have heq : d.buffer.toStringView.length = 7 := by omega
      have hm : q.methodStr.length = 7 := by omega
      exact hmethod ⟨hseven hm, heq⟩
    refine ⟨d.req.method, d.req.requestUri, ?_⟩
    simp only [parseRequestLine, hsp1, if_true, ← hreadable]
    rw [if_neg (by omega)]
    rfl
  · have hsp1 : d.buffer.toStringView.idxOf sp = q.methodStr.length := by
      rw [hl₁]
      exact idxOf_append_of_not_mem hsp _
    have hdrop1 : d.buffer.toStringView.drop (q.methodStr.length + 1) = l₁ := by
      rw [hl₁, drop_succ_append rfl]
    have htake : d.buffer.toStringView.take q.methodStr.length =
        q.methodStr := by
      rw [hl₁, List.take_left']
      rfl
    have hlen : d.buffer.toStringView.length =
        q.methodStr.length + 1 + l₁.length := by
      rw [hl₁]
      simp
      omega
    rcases prefix_append_cons_cases hcut₁ with hin | ⟨l₂, rfl, hcut₂⟩
    · -- the method and a part of the URI
      have hnot : sp ∉ l₁ := fun hmem => q.uri_no_space (hin.subset hmem)
      have hsp2 := List.idxOf_eq_length_iff.mpr hnot
      refine ⟨q.method, d.req.requestUri, ?_⟩
      simp only [parseRequestLine, hsp1, htake, q.method_known, hdrop1, hsp2]
      rw [if_neg (by omega), if_pos (by omega)]
      rfl
    · -- the method, the URI and a part of the version
      have hsp2 : (q.uri ++ sp :: l₂).idxOf sp = q.uri.length :=
        idxOf_append_of_not_mem q.uri_no_space _
      have hdrop2 : d.buffer.toStringView.drop
          (q.methodStr.length + 1 + q.uri.length + 1) = l₂ := by
        rw [Nat.add_assoc, ← List.drop_drop, hdrop1, drop_succ_append rfl]
      have hl₂ : l₂.length < (versionStr q.version).length + 2 := by
        rw [hl₁] at hlt
        simp [RequestHead.requestLine, crlf] at hlt
        omega
      have heol : search crlf l₂ = l₂.length :=
        search_eq_length_of_front (cr_not_mem_versionStr _) hcut₂ hl₂
      simp only [List.length_append, List.length_cons] at hlen
      refine ⟨q.method, slice d.buffer.toStringView (q.methodStr.length + 1)
        (q.methodStr.length + 1 + q.uri.length), ?_⟩
      simp only [parseRequestLine, hsp1, htake, q.method_known, hdrop1, hsp2,
        hdrop2, heol]
      rw [if_neg (by omega), if_neg (by omega), if_pos (by omega)]
      rfl

/-- A whole header line is consumed and added. -/
theorem parseHeader_complete {h : HeaderLine} {rest : List UInt8}
    (hview : d.buffer.toStringView = h.wire ++ rest) :
    parseHeader d = .ok (true, (d.advance h.wire.length).withReq
      { d.req with headers := d.req.headers.emplace h.name h.value }) := by
  have hcolon : colon ∉ h.name := fun hmem => (h.name_clean _ hmem).1 rfl
  have hcr : cr ∉ sp :: h.value := by
    simp only [List.mem_cons, not_or]
    exact ⟨by decide, fun hmem => (h.value_clean _ hmem).1 rfl⟩
  have hline : d.buffer.toStringView =
      h.name ++ colon :: (sp :: h.value ++ (crlf ++ rest)) := by
    simp [hview, HeaderLine.wire, List.append_assoc]
  have hcol : d.buffer.toStringView.idxOf colon = h.name.length := by
    rw [hline]
    exact idxOf_append_of_not_mem hcolon _
  have heol : search crlf (d.buffer.toStringView.drop (h.name.length + 1)) =
      h.value.length + 1 := by
    rw [hline, drop_succ_append rfl, crlf, search_append_of_not_mem hcr,
      search_self_append (by simp), Nat.add_zero, List.length_cons]
  have hname : d.buffer.toStringView.take h.name.length = h.name := by
    rw [hline, List.take_left']
    rfl
  have hspace : d.buffer.toStringView[h.name.length + 1]? = some sp := by
    rw [hline, List.getElem?_append_right (by omega)]
    simp
  have hvalue : slice d.buffer.toStringView (h.name.length + 2)
      (h.name.length + 1 + (h.value.length + 1)) = h.value :=
    slice_middle (h.name ++ [colon, sp]) (crlf ++ rest)
      (by simp [hline]) (by simp) (by simp; omega)
  have hlen : d.buffer.toStringView.length =
      h.name.length + h.value.length + 4 + rest.length := by
    rw [hview, List.length_append, HeaderLine.wire_length]
  have hconsumed : h.wire.length =
      h.name.length + 1 + (h.value.length + 1) + 2 := by
    rw [HeaderLine.wire_length]
    omega
  simp only [parseHeader, hcol, heol, hname, hspace, if_true, hvalue,
    dropBytesUntil_add]
  rw [if_neg (by omega), if_neg (by omega), hconsumed]
  rfl

/-- A proper part of a header line asks for more and changes nothing. -/
theorem parseHeader_incomplete {h : HeaderLine}
    (hfront : d.buffer.toStringView <+: h.wire)
    (hlt : d.buffer.toStringView.length < h.wire.length) :
    parseHeader d = .ok (false, d) := by
  have hcolon : colon ∉ h.name := fun hmem => (h.name_clean _ hmem).1 rfl
  have hcr : cr ∉ sp :: h.value := by
    simp only [List.mem_cons, not_or]
    exact ⟨by decide, fun hmem => (h.value_clean _ hmem).1 rfl⟩
  have hcut : d.buffer.toStringView <+:
      h.name ++ colon :: (sp :: h.value ++ crlf) := by
    simpa [HeaderLine.wire, List.append_assoc] using hfront
  rcases prefix_append_cons_cases hcut with hin | ⟨l, hl, hcut⟩
  · have hnot : colon ∉ d.buffer.toStringView := fun hmem =>
      hcolon (hin.subset hmem)
    simp [parseHeader, List.idxOf_eq_length_iff.mpr hnot]
  · have hcol : d.buffer.toStringView.idxOf colon = h.name.length := by
      rw [hl]
      exact idxOf_append_of_not_mem hcolon _
    have hdrop : d.buffer.toStringView.drop (h.name.length + 1) = l := by
      rw [hl, drop_succ_append rfl]
    have hlen : d.buffer.toStringView.length =
        h.name.length + 1 + l.length := by
      rw [hl]
      simp
      omega
    have heol : search crlf l = l.length := by
      apply search_eq_length_of_front hcr hcut
      rw [HeaderLine.wire_length] at hlt
      simp only [List.length_cons]
      omega
    simp only [parseHeader, hcol, hdrop, heol]
    rw [if_neg (by omega), if_pos (by omega)]

/-- So does a part of the empty line. -/
theorem parseHeader_of_no_colon
    (hnot : colon ∉ d.buffer.toStringView) :
    parseHeader d = .ok (false, d) := by
  simp [parseHeader, List.idxOf_eq_length_iff.mpr hnot]

theorem atEndOfHeaders_of_ne {c : UInt8} (hc : c ≠ cr) (rest : List UInt8) :
    atEndOfHeaders (c :: rest) = some false := by
  simp [atEndOfHeaders, hc]

/-- A line that has begun is not taken for the empty line. -/
theorem atEndOfHeaders_linePart {h : HeaderLine} {l : List UInt8}
    (hfront : l <+: h.wire) (hne : l ≠ []) (rest : List UInt8) :
    atEndOfHeaders (l ++ rest) = some false := by
  obtain ⟨c, l, rfl⟩ := List.exists_cons_of_ne_nil hne
  obtain ⟨suffix, hsuffix⟩ := hfront
  apply atEndOfHeaders_of_ne
  cases hname : h.name with
  | nil =>
      have hc : c = colon := by
        simpa [HeaderLine.wire, hname] using congrArg List.head? hsuffix
      rw [hc]
      decide
  | cons e es =>
      have hc : c = e := by
        simpa [HeaderLine.wire, hname] using congrArg List.head? hsuffix
      rw [hc]
      exact (h.name_clean e (by simp [hname])).2.1

/-- A complete header line is consumed and added in one round. -/
theorem parseHeadersLoop_line {h : HeaderLine} {rest : List UInt8} (fuel : Nat)
    (hd : d.buffer.Valid) (hview : d.buffer.toStringView = h.wire ++ rest) :
    parseHeadersLoop (fuel + 1) d =
      parseHeadersLoop fuel ((d.advance h.wire.length).withReq
        { d.req with headers := d.req.headers.emplace h.name h.value }) := by
  have hmemory : atEndOfHeaders d.buffer.memory = some false := by
    rw [BaseBuffer.memory_eq hd, hview, List.append_assoc]
    exact atEndOfHeaders_linePart List.prefix_rfl (by simp [HeaderLine.wire]) _
  simp only [parseHeadersLoop, hmemory, parseHeader_complete hview]

/-- Without a complete line the loop asks for more. -/
theorem parseHeadersLoop_waits (fuel : Nat)
    (hmemory : atEndOfHeaders d.buffer.memory = some false)
    (hheader : parseHeader d = .ok (false, d)) :
    parseHeadersLoop (fuel + 1) d = .ok (false, d) := by
  simp only [parseHeadersLoop, hmemory, hheader]

/-- A part of the empty line. -/
theorem parseHeadersLoop_emptyLine_incomplete (fuel : Nat) (hd : d.buffer.Valid)
    (hfront : d.buffer.toStringView <+: crlf)
    (hlt : d.buffer.toStringView.length < crlf.length)
    (hline : d.buffer.toStringView = [] →
      atEndOfHeaders d.buffer.deadBytes = some false)
    (hfinal : d.buffer.toStringView = [cr] →
      atEndOfHeaders (cr :: d.buffer.deadBytes) = some false) :
    parseHeadersLoop (fuel + 1) d = .ok (false, d) := by
  have hshort : d.buffer.toStringView = [] ∨
      d.buffer.toStringView = [cr] := by
    have hlen : d.buffer.toStringView.length < 2 := hlt
    have htake := List.prefix_iff_eq_take.mp hfront
    generalize d.buffer.toStringView.length = n at hlen htake
    rcases (by omega : n = 0 ∨ n = 1) with rfl | rfl
    · exact Or.inl htake
    · exact Or.inr htake
  apply parseHeadersLoop_waits
  · rw [BaseBuffer.memory_eq hd]
    rcases hshort with hempty | hcr
    · rw [hempty]
      exact hline hempty
    · rw [hcr]
      exact hfinal hcr
  · apply parseHeader_of_no_colon
    rcases hshort with h | h <;> rw [h] <;> decide

/-- A part of a header line. -/
theorem parseHeadersLoop_line_incomplete {h : HeaderLine} (fuel : Nat)
    (hd : d.buffer.Valid) (hfront : d.buffer.toStringView <+: h.wire)
    (hlt : d.buffer.toStringView.length < h.wire.length)
    (hline : d.buffer.toStringView = [] →
      atEndOfHeaders d.buffer.deadBytes = some false) :
    parseHeadersLoop (fuel + 1) d = .ok (false, d) := by
  apply parseHeadersLoop_waits _ _ (parseHeader_incomplete hfront hlt)
  rw [BaseBuffer.memory_eq hd]
  by_cases hempty : d.buffer.toStringView = []
  · rw [hempty]
    exact hline hempty
  · exact atEndOfHeaders_linePart hfront hempty _

/-- Complete header lines are consumed and added one round each, whatever comes
behind them. -/
theorem parseHeadersLoop_wires {hs : List HeaderLine} {rest : List UInt8}
    (fuel : Nat) (hd : d.buffer.Valid)
    (hview : d.buffer.toStringView = wires hs ++ rest) :
    parseHeadersLoop (fuel + hs.length) d =
      parseHeadersLoop fuel ((d.advance (wires hs).length).withReq
        { d.req with headers := addAll hs d.req.headers }) := by
  induction hs generalizing d with
  | nil => rfl
  | cons h hs ih =>
      have hline : d.buffer.toStringView = h.wire ++ (wires hs ++ rest) := by
        rw [hview, wires_cons, List.append_assoc]
      have hvalid : (d.advance h.wire.length).buffer.Valid :=
        advance_valid hd (by rw [hline, List.length_append]; omega)
      have hnext : (d.advance h.wire.length).buffer.toStringView =
          wires hs ++ rest := by
        rw [advance_toStringView, hline, List.drop_left]
      have hloop := @ih ((d.advance h.wire.length).withReq
        { d.req with headers := d.req.headers.emplace h.name h.value })
        hvalid hnext
      rw [List.length_cons, ← Nat.add_assoc, parseHeadersLoop_line _ hd hline,
        hloop]
      simp only [withReq_advance, advance_advance, wires_cons,
        List.length_append]
      rfl

/-- The whole header block is consumed, down to and with the empty line. -/
theorem parseHeadersLoop_complete {hs : List HeaderLine} {rest : List UInt8}
    {fuel : Nat} (hd : d.buffer.Valid)
    (hview : d.buffer.toStringView = wires hs ++ (crlf ++ rest))
    (hfuel : d.buffer.toStringView.length < fuel) :
    parseHeadersLoop fuel d = .ok (true,
      { d.withReq { d.req with headers := addAll hs d.req.headers } with
        buffer := (d.advance (wires hs).length).buffer.dropBytes 2
        state := .expectBody }) := by
  have hrounds : hs.length < fuel := by
    have hlines := length_le_wires_length hs
    rw [hview, List.length_append] at hfuel
    omega
  obtain ⟨fuel, rfl⟩ := Nat.exists_eq_add_of_lt hrounds
  have hvalid : (d.advance (wires hs).length).buffer.Valid :=
    advance_valid hd (by rw [hview, List.length_append]; omega)
  have hmemory : atEndOfHeaders
      (d.advance (wires hs).length).buffer.memory = some true := by
    rw [BaseBuffer.memory_eq hvalid, advance_toStringView, hview,
      List.drop_left]
    rfl
  have hmemory' : atEndOfHeaders ((d.advance (wires hs).length).withReq
      { d.req with headers := addAll hs d.req.headers }).buffer.memory =
      some true := hmemory
  rw [Nat.add_assoc, Nat.add_comm hs.length,
    parseHeadersLoop_wires _ hd hview, parseHeadersLoop, hmemory']
  rfl

/-- A proper part of the header block: the complete lines are consumed and the
loop asks for more, provided the memory behind the readable bytes does not
pretend to be the rest of the empty line. -/
theorem parseHeadersLoop_incomplete {hs : List HeaderLine} {fuel : Nat}
    (hd : d.buffer.Valid)
    (hfront : d.buffer.toStringView <+: wires hs ++ crlf)
    (hlt : d.buffer.toStringView.length < (wires hs ++ crlf).length)
    (hfuel : d.buffer.toStringView.length < fuel)
    (hline : ∀ done todo, hs = done ++ todo →
      d.buffer.toStringView = wires done →
      atEndOfHeaders d.buffer.deadBytes = some false)
    (hfinal : d.buffer.toStringView = wires hs ++ [cr] →
      atEndOfHeaders (cr :: d.buffer.deadBytes) = some false) :
    ∃ done todo, hs = done ++ todo ∧ wires done <+: d.buffer.toStringView ∧
      parseHeadersLoop fuel d = .ok (false,
        (d.advance (wires done).length).withReq
          { d.req with headers := addAll done d.req.headers }) := by
  obtain ⟨fuel, rfl⟩ := Nat.exists_eq_succ_of_ne_zero (by omega : fuel ≠ 0)
  induction hs generalizing d fuel with
  | nil =>
      exact ⟨[], [], rfl, List.nil_prefix,
        parseHeadersLoop_emptyLine_incomplete fuel hd hfront hlt
          (fun hempty => hline [] [] rfl hempty) hfinal⟩
  | cons h hs ih =>
      rw [wires_cons, List.append_assoc] at hfront hlt
      by_cases hshort : d.buffer.toStringView.length < h.wire.length
      · -- the first line is incomplete
        have hin : d.buffer.toStringView <+: h.wire :=
          List.prefix_of_prefix_length_le hfront (List.prefix_append _ _)
            (Nat.le_of_lt hshort)
        exact ⟨[], h :: hs, rfl, List.nil_prefix,
          parseHeadersLoop_line_incomplete fuel hd hin hshort
            (fun hempty => hline [] (h :: hs) rfl hempty)⟩
      · -- the first line is complete, the rest follows by induction
        obtain ⟨l, hl⟩ := List.prefix_of_prefix_length_le
          (List.prefix_append _ _) hfront (Nat.le_of_not_lt hshort)
        have hvalid : (d.advance h.wire.length).buffer.Valid :=
          advance_valid hd (by omega)
        have hnext : (d.advance h.wire.length).buffer.toStringView = l := by
          rw [advance_toStringView, ← hl, List.drop_left]
        have hl' : l <+: wires hs ++ crlf := by
          rw [← hl] at hfront
          exact (List.prefix_append_right_inj _).mp hfront
        have hlt' : l.length < (wires hs ++ crlf).length := by
          rw [← hl, List.length_append, List.length_append] at hlt
          omega
        have hfuel' : l.length < fuel := by
          have hpos := h.wire_length
          rw [← hl, List.length_append] at hfuel
          omega
        obtain ⟨fuel, rfl⟩ :=
          Nat.exists_eq_succ_of_ne_zero (by omega : fuel ≠ 0)
        obtain ⟨done, todo, rfl, hdone, hloop⟩ := @ih
          ((d.advance h.wire.length).withReq
            { d.req with headers := d.req.headers.emplace h.name h.value })
          hvalid (hnext ▸ hl') (hnext ▸ hlt')
          (fun done todo heq hview => hline (h :: done) todo
            (by rw [heq, List.cons_append])
            (by rw [← hl, wires_cons, ← hview]; exact congrArg _ hnext.symm))
          (fun hview => hfinal
            (by rw [← hl, wires_cons, List.append_assoc, ← hview]
                exact congrArg _ hnext.symm))
          fuel (hnext ▸ hfuel')
        refine ⟨h :: done, todo, rfl, ?_, ?_⟩
        · rw [← hl, wires_cons, List.prefix_append_right_inj]
          exact hnext ▸ hdone
        · rw [parseHeadersLoop_line _ hd hl.symm, hloop]
          simp only [withReq_advance, advance_advance, wires_cons,
            List.length_append]
          rfl

end HttpReqDecoder

end Jerry
