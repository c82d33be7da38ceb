/-
What the decoder takes for a head, whatever the bytes are: each parse function
read backwards, from what it returns to what must have been readable.
-/
import Jerry.HttpTrace

namespace Jerry

open CString Search Window HttpReqDecoder

/-- A header line as `ParseHeaders` finds it: no colon in the name, and no line
end in what is behind the colon. -/
structure FieldLine where
  name : List UInt8
  raw : List UInt8
  name_no_colon : colon ∉ name
  raw_no_crlf : ¬ crlf <:+: raw

namespace FieldLine

/-- Whitespace before the value is ignored. -/
def value (l : FieldLine) : List UInt8 :=
  if l.raw.head? = some sp then l.raw.tail else l.raw

def wire (l : FieldLine) : List UInt8 :=
  l.name ++ colon :: (l.raw ++ crlf)

def wires (ls : List FieldLine) : List UInt8 :=
  ls.flatMap wire

def addAll (ls : List FieldLine) (m : HttpReq.Headers) : HttpReq.Headers :=
  ls.foldl (fun m l => m.emplace l.name l.value) m

theorem wires_nil : wires [] = [] := rfl

theorem wires_cons (l : FieldLine) (ls : List FieldLine) :
    wires (l :: ls) = l.wire ++ wires ls := rfl

theorem wires_append (ls ks : List FieldLine) :
    wires (ls ++ ks) = wires ls ++ wires ks :=
  List.flatMap_append

theorem addAll_append (ls ks : List FieldLine) (m : HttpReq.Headers) :
    addAll (ls ++ ks) m = addAll ks (addAll ls m) :=
  List.foldl_append

theorem addAll_eq_foldl (lines : List FieldLine) (m : HttpReq.Headers) :
    addAll lines m = (lines.map fun l => (l.name, l.value)).foldl
      (fun m e => m.emplace e.1 e.2) m := by
  simp [addAll, List.foldl_map]

theorem wire_length (l : FieldLine) :
    l.wire.length = l.name.length + l.raw.length + 3 := by
  simp only [wire, crlf, List.length_append, List.length_cons, List.length_nil]
  omega

theorem length_le_wires_length (ls : List FieldLine) :
    ls.length ≤ (wires ls).length := by
  induction ls with
  | nil => exact Nat.le_refl _
  | cons l ls ih =>
      have hwire := l.wire_length
      rw [wires_cons, List.length_append, List.length_cons]
      omega

end FieldLine

namespace HttpReqDecoder

variable {d d' : HttpReqDecoder}

theorem versionMap_eq {name : List UInt8} {version : HttpReq.HttpVersion}
    (h : versionMap.lookup name = some version) : name = versionStr version := by
  obtain ⟨before, after, heq, _⟩ := List.lookup_eq_some_iff.mp h
  have hall : ∀ entry ∈ versionMap, entry.1 = versionStr entry.2 := by decide
  exact hall (name, version) (by rw [heq]; simp)

/-- The pieces that `ParseRequestLine` cuts, when it finds all of them. -/
theorem requestLine_split {readable : List UInt8} {sp1 sp2 eol : Nat}
    (hsp1 : sp1 = readable.idxOf sp) (hne1 : sp1 ≠ readable.length)
    (hsp2 : sp2 = sp1 + 1 + (readable.drop (sp1 + 1)).idxOf sp)
    (hne2 : sp2 ≠ readable.length)
    (heol : eol = sp2 + 1 + search crlf (readable.drop (sp2 + 1)))
    (hne3 : eol ≠ readable.length) :
    ∃ name uri version rest,
      readable = name ++ sp :: (uri ++ sp :: (version ++ (crlf ++ rest))) ∧
      sp ∉ uri ∧ readable.take sp1 = name ∧
      slice readable (sp1 + 1) sp2 = uri ∧
      slice readable (sp2 + 1) eol = version ∧
      readable.drop (eol + 2) = rest := by
  obtain ⟨name, l₁, hl, hname, hlen1⟩ :=
    exists_of_idxOf_ne (hsp1 ▸ hne1 : readable.idxOf sp ≠ readable.length)
  subst hl
  have hlen : sp1 = name.length := by omega
  subst hlen
  rw [drop_succ_append rfl] at hsp2
  simp only [List.length_append, List.length_cons] at hne2 hne3
  obtain ⟨uri, l₂, rfl, huri, hlen2⟩ :=
    exists_of_idxOf_ne (by omega : l₁.idxOf sp ≠ l₁.length)
  have hlen : sp2 = name.length + 1 + uri.length := by omega
  subst hlen
  have hdrop : (name ++ sp :: (uri ++ sp :: l₂)).drop
      (name.length + 1 + uri.length + 1) = l₂ := by
    rw [Nat.add_assoc, ← List.drop_drop, drop_succ_append rfl,
      drop_succ_append rfl]
  rw [hdrop] at heol
  simp only [List.length_append, List.length_cons] at hne3
  obtain ⟨version, rest, rfl, _, hlen3⟩ := exists_of_search_ne
    (by simp [crlf]) (by omega : search crlf l₂ ≠ l₂.length)
  have hlen : eol = name.length + 1 + uri.length + 1 + version.length := by omega
  subst hlen
  refine ⟨name, uri, version, rest, rfl, huri, List.take_left' rfl, ?_, ?_, ?_⟩
  · exact slice_middle (name ++ [sp]) (sp :: (version ++ (crlf ++ rest)))
      (by simp) (by simp) (by simp)
  · exact slice_middle (name ++ sp :: uri ++ [sp]) (crlf ++ rest)
      (by simp) (by simp; omega) (by simp; omega)
  · have hwhole : name ++ sp :: (uri ++ sp :: (version ++ (crlf ++ rest))) =
        (name ++ sp :: uri ++ sp :: version ++ crlf) ++ rest := by simp
    rw [hwhole, List.drop_left']
    simp [crlf]
    omega

/-- A request line that was found was readable, and it has been taken. -/
theorem parseRequestLine_sound (h : parseRequestLine d = .ok (true, d')) :
    ∃ (q : RequestHead) (rest : List UInt8),
      d.buffer.toStringView = q.requestLine ++ rest ∧
      d' = d.afterRequestLine q := by
  have hparse := h
  unfold parseRequestLine at h
  simp only at h
  split at h
  · split at h <;> cases h
  · rename_i hne1
    split at h
    · cases h
    · rename_i method hmethod
      split at h
      · cases h
      · rename_i hne2
        split at h
        · cases h
        · rename_i hne3
          split at h
          · cases h
          · rename_i version hversion
            obtain ⟨name, uri, text, rest, hview, huri, hname, _, htext, _⟩ :=
              requestLine_split rfl hne1 rfl hne2 rfl hne3
            rw [hname] at hmethod
            rw [htext] at hversion
            let q : RequestHead :=
              { methodStr := name
                method := method
                uri := uri
                version := version
                headers := []
                method_known := hmethod
                uri_no_space := huri }
            have hq : d.buffer.toStringView = q.requestLine ++ rest := by
              rw [hview, versionMap_eq hversion]
              simp [q, RequestHead.requestLine]
            have hcomplete := parseRequestLine_complete hq
            rw [hparse] at hcomplete
            exact ⟨q, rest, hq, (Prod.mk.inj (Except.ok.inj hcomplete)).2⟩

/-- The pieces that `ParseHeaders` cuts. -/
theorem header_split {readable : List UInt8} {col eol : Nat}
    (hcol : col = readable.idxOf colon) (hne1 : col ≠ readable.length)
    (heol : eol = col + 1 + search crlf (readable.drop (col + 1)))
    (hne2 : eol ≠ readable.length) :
    ∃ (l : FieldLine) (rest : List UInt8), readable = l.wire ++ rest ∧
      readable.take col = l.name ∧ eol + 2 = l.wire.length ∧
      slice readable (if readable[col + 1]? = some sp then col + 2 else col + 1)
        eol = l.value := by
  obtain ⟨name, l₁, hl, hname, hlen1⟩ := exists_of_idxOf_ne
    (hcol ▸ hne1 : readable.idxOf colon ≠ readable.length)
  subst hl
  have hlen : col = name.length := by omega
  subst hlen
  rw [drop_succ_append rfl] at heol
  simp only [List.length_append, List.length_cons] at hne2
  obtain ⟨raw, rest, rfl, hraw, hlen2⟩ := exists_of_search_ne
    (by simp [crlf]) (by omega : search crlf l₁ ≠ l₁.length)
  have hlen : eol = name.length + 1 + raw.length := by omega
  subst hlen
  have hnext : (name ++ colon :: (raw ++ (crlf ++ rest)))[name.length + 1]? =
      (raw ++ (crlf ++ rest)).head? := by
    rw [List.getElem?_append_right (by omega), Nat.add_sub_cancel_left,
      List.getElem?_cons_succ, List.head?_eq_getElem?]
  refine ⟨⟨name, raw, hname, hraw⟩, rest, ?_, List.take_left' rfl, ?_, ?_⟩
  · simp [FieldLine.wire]
  · rw [FieldLine.wire_length]
    simp only
    omega
  · rw [hnext]
    cases raw with
    | nil =>
        have hcr : (([] : List UInt8) ++ (crlf ++ rest)).head? ≠ some sp := by
          simp only [crlf, List.nil_append, List.cons_append, List.head?_cons]
          decide
        rw [if_neg hcr]
        exact slice_self _ _
    | cons c raw =>
        simp only [List.cons_append, List.head?_cons, Option.some.injEq,
          FieldLine.value, List.tail_cons]
        split
        · exact slice_middle (name ++ [colon, c]) (crlf ++ rest)
            (by simp) (by simp) (by simp; omega)
        · exact slice_middle (name ++ [colon]) (crlf ++ rest)
            (by simp) (by simp) (by simp)

/-- So was a header line. -/
theorem parseHeader_sound (h : parseHeader d = .ok (true, d')) :
    ∃ (l : FieldLine) (rest : List UInt8),
      d.buffer.toStringView = l.wire ++ rest ∧
      d' = (d.advance l.wire.length).withReq
        { d.req with headers := d.req.headers.emplace l.name l.value } := by
  unfold parseHeader at h
  simp only at h
  split at h
  · cases h
  · rename_i hne1
    split at h
    · cases h
    · rename_i hne2
      obtain ⟨l, rest, hview, hname, hend, hvalue⟩ :=
        header_split rfl hne1 rfl hne2
      rw [hend, hname, hvalue, dropBytesUntil_add] at h
      exact ⟨l, rest, hview, (Prod.mk.inj (Except.ok.inj h)).2.symm⟩

theorem parseHeader_waits (h : parseHeader d = .ok (false, d')) :
    d' = d ∧ (d.buffer.toStringView.idxOf colon = d.buffer.toStringView.length ∨
      d.buffer.toStringView.idxOf colon + 1 +
        search crlf (d.buffer.toStringView.drop
          (d.buffer.toStringView.idxOf colon + 1)) =
        d.buffer.toStringView.length) := by
  unfold parseHeader at h
  simp only at h
  split at h
  · rename_i hcol
    exact ⟨(Prod.mk.inj (Except.ok.inj h)).2.symm, Or.inl hcol⟩
  · split at h
    · rename_i heol
      exact ⟨(Prod.mk.inj (Except.ok.inj h)).2.symm, Or.inr heol⟩
    · split at h <;> cases h

theorem atEndOfHeaders_iff {memory : List UInt8} {b : Bool}
    (h : atEndOfHeaders memory = some b) : b = true ↔ crlf <+: memory := by
  rcases memory with _ | ⟨c, _ | ⟨e, memory⟩⟩
  · cases h
  · simp only [atEndOfHeaders, List.head?_nil, Option.map_none] at h
    split at h
    · cases h
    · obtain rfl := Option.some.inj h
      refine ⟨fun hb => absurd hb (by decide), fun hfront => ?_⟩
      exact absurd hfront.length_le (by simp [crlf])
  · simp only [atEndOfHeaders, List.head?_cons, Option.map_some] at h
    simp only [crlf, List.cons_prefix_cons, List.nil_prefix, and_true]
    split at h
    · rename_i hc
      obtain rfl := Option.some.inj h
      simp [hc, eq_comm]
    · rename_i hc
      obtain rfl := Option.some.inj h
      simp [hc, eq_comm]

/-- No CR and no LF. -/
def Clean (l : List UInt8) : Prop :=
  ∀ c ∈ l, c ≠ cr ∧ c ≠ lf

instance (l : List UInt8) : Decidable (Clean l) :=
  inferInstanceAs (Decidable (∀ _ ∈ _, _))

/-- Of what is readable, every line up to the empty one has its colon before any
CR or LF, and it is not `dead` that completes the empty line. -/
def LinesApart (dead : List UInt8) : Nat → List UInt8 → Prop
  | 0, _ => True
  | fuel + 1, readable =>
      if crlf <+: readable then True
      else if crlf <+: readable ++ dead then False
      else
        let col := readable.idxOf colon
        let eol := col + 1 + search crlf (readable.drop (col + 1))
        if col = readable.length ∨ eol = readable.length then True
        else Clean (readable.take col) ∧
          LinesApart dead fuel (readable.drop (eol + 2))

instance decidableLinesApart (dead : List UInt8) :
    ∀ fuel readable, Decidable (LinesApart dead fuel readable)
  | 0, _ => isTrue trivial
  | fuel + 1, readable =>
      have := decidableLinesApart dead fuel (readable.drop
        (readable.idxOf colon + 1 +
          search crlf (readable.drop (readable.idxOf colon + 1)) + 2))
      inferInstanceAs (Decidable (ite _ _ (ite _ _ (ite _ _ (_ ∧ _)))))

/-- Where `ParseHeaders` finds the pieces of a line that is readable. -/
theorem fieldLine_positions {l : FieldLine} {readable rest : List UInt8}
    (h : readable = l.wire ++ rest) :
    readable.idxOf colon = l.name.length ∧
      search crlf (readable.drop (l.name.length + 1)) = l.raw.length ∧
      l.name.length ≠ readable.length ∧
      l.name.length + 1 + l.raw.length ≠ readable.length := by
  have hlength : readable.length =
      l.name.length + l.raw.length + 3 + rest.length := by
    rw [h, List.length_append, l.wire_length]
  have hline : readable = l.name ++ colon :: (l.raw ++ (crlf ++ rest)) := by
    rw [h]
    simp [FieldLine.wire]
  refine ⟨?_, ?_, by omega, by omega⟩
  · rw [hline]
    exact idxOf_append_of_not_mem l.name_no_colon _
  · rw [hline, drop_succ_append rfl]
    exact search_append_of_not_infix (by decide) l.raw_no_crlf rest

/-- A complete line in front of the others. -/
theorem linesApart_wire (dead : List UInt8) (fuel : Nat) (l : FieldLine)
    {rest : List UInt8} (hfront : ¬ crlf <+: l.wire ++ rest ++ dead) :
    LinesApart dead (fuel + 1) (l.wire ++ rest) ↔
      Clean l.name ∧ LinesApart dead fuel rest := by
  have hreadable : ¬ crlf <+: l.wire ++ rest := fun hreadable =>
    hfront (hreadable.trans (List.prefix_append _ _))
  obtain ⟨hcol, heol, hne1, hne2⟩ :=
    fieldLine_positions (rfl : l.wire ++ rest = l.wire ++ rest)
  have hlength := l.wire_length
  have hname : (l.wire ++ rest).take l.name.length = l.name := by
    rw [FieldLine.wire, List.append_assoc, List.take_left' rfl]
  have hdrop : (l.wire ++ rest).drop (l.name.length + 1 + l.raw.length + 2) =
      rest := List.drop_left' (by omega)
  rw [LinesApart, if_neg hreadable, if_neg hfront]
  simp only [hcol, heol, if_neg (not_or.mpr ⟨hne1, hne2⟩), hname, hdrop]

/-- The empty line ends the head, if all of it is readable. -/
theorem linesApart_end {dead readable : List UInt8} (fuel : Nat)
    (hfront : crlf <+: readable ++ dead) :
    LinesApart dead (fuel + 1) readable ↔ crlf <+: readable := by
  rw [LinesApart]
  by_cases hreadable : crlf <+: readable
  · rw [if_pos hreadable]
    exact iff_of_true trivial hreadable
  · rw [if_neg hreadable, if_pos hfront]
    exact iff_of_false id hreadable

/-- Nothing is asked of a line that is not complete. -/
theorem linesApart_waits {dead readable : List UInt8} (fuel : Nat)
    (hfront : ¬ crlf <+: readable ++ dead)
    (hwaits : readable.idxOf colon = readable.length ∨
      readable.idxOf colon + 1 +
        search crlf (readable.drop (readable.idxOf colon + 1)) =
          readable.length) : LinesApart dead (fuel + 1) readable := by
  have hreadable : ¬ crlf <+: readable := fun hreadable =>
    hfront (hreadable.trans (List.prefix_append _ _))
  rw [LinesApart, if_neg hreadable, if_neg hfront]
  simp only [if_pos hwaits]

/-- The lines that the loop found, and what it left behind them: nothing is
taken of it, or the empty line, or as much of that as there is. -/
theorem parseHeadersLoop_sound {fuel : Nat} {found : Bool}
    (hd : d.buffer.Valid) (h : parseHeadersLoop fuel d = .ok (found, d')) :
    ∃ lines tail, d.buffer.toStringView = FieldLine.wires lines ++ tail ∧
      d'.req = { d.req with
        headers := FieldLine.addAll lines d.req.headers } ∧
      d'.buffer.Valid ∧
      d'.buffer.toStringView = (if found then tail.drop 2 else tail) ∧
      (found = true → crlf <+: tail ++ d.buffer.deadBytes) ∧
      (LinesApart d.buffer.deadBytes fuel d.buffer.toStringView ↔
        (∀ l ∈ lines, Clean l.name) ∧ (found = true → crlf <+: tail)) := by
  induction fuel generalizing d with
  | zero => cases h
  | succ fuel ih =>
      rw [parseHeadersLoop, BaseBuffer.memory_eq hd] at h
      split at h
      · cases h
      · -- the end of the headers, or what looks like it
        rename_i hend
        have hfront := (atEndOfHeaders_iff hend).mp rfl
        obtain ⟨rfl, rfl⟩ := Prod.mk.inj (Except.ok.inj h)
        refine ⟨[], d.buffer.toStringView, rfl, rfl,
          BaseBuffer.dropBytes_valid hd 2, ?_, fun _ => hfront, ?_⟩
        · exact BaseBuffer.dropBytes_toStringView hd 2
        · rw [linesApart_end fuel hfront]
          simp
      · rename_i hend
        have hfront : ¬ crlf <+: d.buffer.toStringView ++ d.buffer.deadBytes :=
          fun hfront => absurd ((atEndOfHeaders_iff hend).mpr hfront) (by decide)
        split at h
        · cases h
        · -- the next line is not complete
          rename_i d₁ hheader
          obtain ⟨rfl, hwaits⟩ := parseHeader_waits hheader
          obtain ⟨rfl, rfl⟩ := Prod.mk.inj (Except.ok.inj h)
          refine ⟨[], d₁.buffer.toStringView, rfl, rfl, hd, rfl,
            fun hfound => absurd hfound (by decide), ?_⟩
          refine iff_of_true (linesApart_waits fuel hfront hwaits) ⟨?_, ?_⟩
          · exact List.forall_mem_nil _
          · exact fun hfound => absurd hfound (by decide)
        · rename_i d₁ hheader
          obtain ⟨l, rest, hview, rfl⟩ := parseHeader_sound hheader
          have hvalid : (d.advance l.wire.length).buffer.Valid :=
            advance_valid hd (by rw [hview, List.length_append]; omega)
          have hnext : (d.advance l.wire.length).buffer.toStringView = rest := by
            rw [advance_toStringView, hview, List.drop_left]
          obtain ⟨lines, tail, htail, hreq, hvalid', hview', hend', hiff⟩ :=
            @ih ((d.advance l.wire.length).withReq { d.req with
              headers := d.req.headers.emplace l.name l.value }) hvalid h
          have hrest : rest = FieldLine.wires lines ++ tail := hnext ▸ htail
          refine ⟨l :: lines, tail, ?_, hreq, hvalid', hview', hend', ?_⟩
          · rw [hview, hrest, FieldLine.wires_cons, List.append_assoc]
          · have hiff' : LinesApart d.buffer.deadBytes fuel rest ↔
                (∀ l ∈ lines, Clean l.name) ∧ (found = true → crlf <+: tail) :=
              hnext ▸ hiff
            rw [hview, linesApart_wire _ _ _ (hview ▸ hfront), hiff',
              List.forall_mem_cons, and_assoc]

theorem methodStr_clean (q : RequestHead) : Clean q.methodStr := by
  have hall : ∀ entry ∈ methodMap, Clean entry.1 := by decide +kernel
  exact hall _ q.methodStr_mem

theorem versionStr_clean (version : HttpReq.HttpVersion) :
    Clean (versionStr version) := by
  cases version <;> decide +kernel

/-- What comes before a separator is determined by it. -/
theorem append_cons_cancel {c : UInt8} {xs ys zs ws : List UInt8}
    (hxs : c ∉ xs) (hys : c ∉ ys) (h : xs ++ c :: zs = ys ++ c :: ws) :
    xs = ys ∧ zs = ws := by
  have hlength := congrArg (List.idxOf c) h
  rw [idxOf_append_of_not_mem hxs, idxOf_append_of_not_mem hys] at hlength
  obtain ⟨hfront, hrest⟩ := List.append_inj h hlength
  exact ⟨hfront, (List.cons.inj hrest).2⟩

theorem append_crlf_cancel {xs ys zs ws : List UInt8} (hxs : ¬ crlf <:+: xs)
    (hys : ¬ crlf <:+: ys) (h : xs ++ (crlf ++ zs) = ys ++ (crlf ++ ws)) :
    xs = ys ∧ zs = ws := by
  have hne : cr ≠ lf := by decide
  have hlength := congrArg (search crlf) h
  have hleft := search_append_of_not_infix hne hxs zs
  have hright := search_append_of_not_infix hne hys ws
  rw [← crlf] at hleft hright
  rw [hleft, hright] at hlength
  obtain ⟨hfront, hrest⟩ := List.append_inj h hlength
  exact ⟨hfront, List.append_cancel_left hrest⟩

theorem clean_no_crlf {l : List UInt8} (h : Clean l) : ¬ crlf <:+: l := by
  intro hin
  exact (h cr (hin.subset (by simp [crlf]))).1 rfl

/-- A head has one request line, and one rest. -/
theorem requestLine_cancel {q q' : RequestHead} {rest rest' : List UInt8}
    (h : q.requestLine ++ rest = q'.requestLine ++ rest') :
    q.methodStr = q'.methodStr ∧ q.uri = q'.uri ∧
      versionStr q.version = versionStr q'.version ∧ rest = rest' := by
  simp only [RequestHead.requestLine, List.append_assoc, List.cons_append] at h
  obtain ⟨hmethod, h⟩ :=
    append_cons_cancel q.methodStr_short.1 q'.methodStr_short.1 h
  obtain ⟨huri, h⟩ := append_cons_cancel q.uri_no_space q'.uri_no_space h
  obtain ⟨hversion, h⟩ := append_crlf_cancel
    (clean_no_crlf (versionStr_clean _)) (clean_no_crlf (versionStr_clean _)) h
  exact ⟨hmethod, huri, hversion, h⟩

/-- A header line is determined by what begins with it. -/
theorem fieldLine_cancel {l l' : FieldLine} {rest rest' : List UInt8}
    (h : l.wire ++ rest = l'.wire ++ rest') : l = l' ∧ rest = rest' := by
  simp only [FieldLine.wire, List.append_assoc, List.cons_append] at h
  obtain ⟨hname, h⟩ := append_cons_cancel l.name_no_colon l'.name_no_colon h
  obtain ⟨hraw, h⟩ := append_crlf_cancel l.raw_no_crlf l'.raw_no_crlf h
  refine ⟨?_, h⟩
  obtain ⟨name, raw, _, _⟩ := l
  obtain ⟨name', raw', _, _⟩ := l'
  simp only at hname hraw
  subst hname hraw
  rfl

/-- A header line that is readable is consumed and added. -/
theorem parseHeader_fieldLine {l : FieldLine} {rest : List UInt8}
    (hview : d.buffer.toStringView = l.wire ++ rest) :
    parseHeader d = .ok (true, (d.advance l.wire.length).withReq
      { d.req with headers := d.req.headers.emplace l.name l.value }) := by
  obtain ⟨hcol, heol, hne1, hne2⟩ := fieldLine_positions hview
  rw [← hcol] at heol hne1 hne2
  rw [← heol] at hne2
  obtain ⟨l', rest', hview', hname, hend, hvalue⟩ :=
    header_split rfl hne1 rfl hne2
  obtain ⟨rfl, rfl⟩ := fieldLine_cancel (hview.symm.trans hview')
  simp only [parseHeader, hname, hend, hvalue, dropBytesUntil_add]
  rw [if_neg hne1, if_neg hne2]
  rfl

theorem atEndOfHeaders_line {l : FieldLine} (h : ¬ crlf <+: l.name)
    (rest : List UInt8) : atEndOfHeaders (l.wire ++ rest) = some false := by
  rw [FieldLine.wire]
  match hname : l.name with
  | [] => exact atEndOfHeaders_of_ne (by decide) _
  | [c] =>
      -- behind a name that is a CR stands the colon
      simp only [List.cons_append, List.nil_append, atEndOfHeaders,
        List.head?_cons, Option.map_some]
      split <;> rfl
  | c :: e :: name =>
      rw [hname, crlf] at h
      simp only [List.cons_prefix_cons, List.nil_prefix, and_true] at h
      simp only [List.cons_append, atEndOfHeaders, List.head?_cons,
        Option.map_some, Option.some.injEq, ite_eq_right_iff,
        decide_eq_false_iff_not]
      intro hc he
      exact h ⟨hc.symm, he.symm⟩

theorem no_crlf_front {name : List UInt8} (h : name.head? ≠ some cr) :
    ¬ crlf <+: name := by
  rintro ⟨rest, rfl⟩
  exact h rfl

theorem atEndOfHeaders_fieldLine {l : FieldLine} (h : l.name.head? ≠ some cr)
    (rest : List UInt8) : atEndOfHeaders (l.wire ++ rest) = some false :=
  atEndOfHeaders_line (no_crlf_front h) rest

/-- All lines and the empty line behind them, when no line begins like the
empty one: what is behind it is left. -/
theorem parseHeadersLoop_lines {lines : List FieldLine}
    {rest : List UInt8} (fuel : Nat) (hd : d.buffer.Valid)
    (hbegin : ∀ l ∈ lines, ¬ crlf <+: l.name)
    (hview : d.buffer.toStringView = FieldLine.wires lines ++ (crlf ++ rest)) :
    ∃ d', parseHeadersLoop (fuel + lines.length + 1) d = .ok (true, d') ∧
      d'.state = .expectBody ∧
      d'.req = { d.req with
        headers := FieldLine.addAll lines d.req.headers } ∧
      d'.buffer.Valid ∧ d'.buffer.toStringView = rest ∧
      d'.bodyMaxBytes = d.bodyMaxBytes := by
  induction lines generalizing d with
  | nil =>
      refine ⟨{ d with buffer := d.buffer.dropBytes 2, state := .expectBody },
        ?_, rfl, rfl, BaseBuffer.dropBytes_valid hd 2, ?_, rfl⟩
      · have hend : atEndOfHeaders d.buffer.memory = some true := by
          rw [BaseBuffer.memory_eq hd, hview]
          rfl
        simp only [parseHeadersLoop, hend]
      · rw [BaseBuffer.dropBytes_toStringView hd, hview]
        rfl
  | cons l lines ih =>
      rw [FieldLine.wires_cons, List.append_assoc] at hview
      have hgoes : atEndOfHeaders d.buffer.memory = some false := by
        rw [BaseBuffer.memory_eq hd, hview, List.append_assoc]
        exact atEndOfHeaders_line (hbegin l List.mem_cons_self) _
      have hvalid : (d.advance l.wire.length).buffer.Valid :=
        advance_valid hd (by rw [hview, List.length_append]; omega)
      have hnext : (d.advance l.wire.length).buffer.toStringView =
          FieldLine.wires lines ++ (crlf ++ rest) := by
        rw [advance_toStringView, hview, List.drop_left]
      obtain ⟨d', hloop, hstate, hreq, hrest⟩ := @ih
        ((d.advance l.wire.length).withReq
          { d.req with headers := d.req.headers.emplace l.name l.value }) hvalid
        (fun l hl => hbegin l (List.mem_cons_of_mem _ hl)) hnext
      refine ⟨d', ?_, hstate, hreq, hrest⟩
      rw [List.length_cons, ← Nat.add_assoc]
      simp only [parseHeadersLoop, hgoes, parseHeader_fieldLine hview]
      exact hloop

/-- The fuel of `ParseHeaders` is enough for the lines. -/
theorem parseHeaders_lines {lines : List FieldLine} {rest : List UInt8}
    (hd : d.buffer.Valid) (hbegin : ∀ l ∈ lines, ¬ crlf <+: l.name)
    (hview : d.buffer.toStringView = FieldLine.wires lines ++ (crlf ++ rest)) :
    ∃ d', parseHeaders d = .ok (true, d') ∧ d'.state = .expectBody ∧
      d'.req = { d.req with
        headers := FieldLine.addAll lines d.req.headers } ∧
      d'.buffer.Valid ∧ d'.buffer.toStringView = rest ∧
      d'.bodyMaxBytes = d.bodyMaxBytes := by
  have hfuel : lines.length ≤ d.buffer.readableBytes := by
    rw [← BaseBuffer.toStringView_length hd, hview, List.length_append]
    exact Nat.le_trans (FieldLine.length_le_wires_length lines)
      (Nat.le_add_right _ _)
  obtain ⟨fuel, hfuel⟩ := Nat.exists_eq_add_of_le' hfuel
  rw [parseHeaders, hfuel]
  exact parseHeadersLoop_lines fuel hd hbegin hview

/-- What one call makes of any bytes: it finds no request line, or a request line
and a part of the lines, or a request. -/
inductive Decoded (d d' : HttpReqDecoder) : Option HttpReq → Prop
  | nothing {d₁ : HttpReqDecoder} : parseRequestLine d = .ok (false, d₁) →
      d'.buffer.Valid → d'.buffer.toStringView <:+ d.buffer.toStringView →
      Decoded d d' none
  | part {q : RequestHead} {rest : List UInt8} :
      d.buffer.toStringView = q.requestLine ++ rest → d'.buffer.Valid →
      d'.buffer.toStringView <:+ rest → Decoded d d' none
  | whole {req : HttpReq} {q : RequestHead} {lines : List FieldLine}
      {tail : List UInt8} :
      d.buffer.toStringView =
        q.requestLine ++ (FieldLine.wires lines ++ tail) →
      crlf <+: tail ++ d.buffer.deadBytes → req.method = q.method →
      req.requestUri = q.uri → req.version = q.version →
      req.headers = FieldLine.addAll lines .empty → Decoded d d' (some req)

theorem decode_sound {out : Option HttpReq} (hstate : d.state = .expectRequestLine)
    (hheaders : d.req.headers = .empty) (hbody : d.req.body = [])
    (hd : d.buffer.Valid) (h : decode d = .ok (out, d')) : Decoded d d' out := by
  change decodeLoop (3 + 1) d = _ at h
  rw [decodeLoop_requestLine 3 hstate hheaders hbody] at h
  split at h
  · cases h
  · rename_i d₁ hline
    obtain ⟨rfl, rfl⟩ := Prod.mk.inj (Except.ok.inj h)
    rcases parseRequestLine_trace hline with
      ⟨_, _, _, _, hbuffer | hbuffer⟩ | ⟨hfound, _⟩
    · exact .nothing hline (hbuffer ▸ hd) (hbuffer ▸ List.suffix_refl _)
    · apply Decoded.nothing hline
      · rw [hbuffer]
        exact d.buffer.dropAllBytes_valid
      · rw [hbuffer, BaseBuffer.dropAllBytes_toStringView]
        exact List.nil_suffix
    · cases hfound
  · rename_i d₁ hline
    obtain ⟨q, rest, hview, rfl⟩ := parseRequestLine_sound hline
    obtain ⟨hvalid', hview'⟩ := afterRequestLine_view hd hview
    have hstate' : (d.afterRequestLine q).state = .expectHeaders := rfl
    change decodeLoop (2 + 1) _ = _ at h
    rw [decodeLoop_headers 2 hstate'] at h
    split at h
    · cases h
    · rename_i d₂ hloop
      obtain ⟨rfl, rfl⟩ := Prod.mk.inj (Except.ok.inj h)
      obtain ⟨lines, tail, hrest, _, hvalid'', hview'', _⟩ :=
        parseHeadersLoop_sound hvalid' hloop
      refine .part hview hvalid'' ?_
      rw [← hview', hrest, hview'']
      exact List.suffix_append _ _
    · rename_i d₂ hloop
      obtain ⟨lines, tail, hrest, hreq, _, _, hend, _⟩ :=
        parseHeadersLoop_sound hvalid' hloop
      obtain ⟨_, hstate''⟩ := parseHeadersLoop_trace hloop
      rw [decodeLoop_body 0 hstate''] at h
      obtain ⟨rfl, rfl⟩ := Prod.mk.inj (Except.ok.inj h)
      have hbytes : d.buffer.toStringView =
          q.requestLine ++ (FieldLine.wires lines ++ tail) := by
        rw [hview, ← hrest, hview']
      have hempty : (d.afterRequestLine q).req.headers = .empty := hheaders
      apply Decoded.whole hbytes (hend rfl)
      · simp only [parseBody, hreq]
        rfl
      · simp only [parseBody, hreq]
        rfl
      · simp only [parseBody, hreq]
        rfl
      · simp only [parseBody, hreq, hempty]

/-- A request line, header lines, the empty line and a body. -/
theorem decode_lines {q : RequestHead} {lines : List FieldLine}
    {body : List UInt8} (hstate : d.state = .expectRequestLine)
    (hheaders : d.req.headers = .empty) (hbody : d.req.body = [])
    (hd : d.buffer.Valid) (hbegin : ∀ l ∈ lines, ¬ crlf <+: l.name)
    (hview : d.buffer.toStringView =
      q.requestLine ++ (FieldLine.wires lines ++ (crlf ++ body))) :
    ∃ d', decode d = .ok (some
        { q.toReq (body.take d.bodyMaxBytes) d.req.isBodyTruncated with
          headers := FieldLine.addAll lines .empty }, d') ∧
      d'.Idle ∧ d'.bodyMaxBytes = d.bodyMaxBytes ∧
      d'.req.isBodyTruncated = d.req.isBodyTruncated := by
  obtain ⟨hvalid, hrest⟩ := afterRequestLine_view hd hview
  obtain ⟨d', hparse, hstate', hreq, hvalid', hleft, hmax⟩ :=
    parseHeaders_lines hvalid hbegin hrest
  have hsame : (parseBody d').req =
      { q.toReq (body.take d.bodyMaxBytes) d.req.isBodyTruncated with
        headers := FieldLine.addAll lines .empty } := by
    rw [parseBody_req hvalid', hreq, hleft, hmax]
    simp only [afterRequestLine, withReq, advance, hheaders, RequestHead.toReq]
  refine ⟨d'.finished (parseBody d').req, ?_, finished_idle _ _, hmax, ?_⟩
  · change decodeLoop (3 + 1) d = _
    rw [decodeLoop_requestLine 3 hstate hheaders hbody,
      parseRequestLine_complete hview]
    change decodeLoop (2 + 1) (d.afterRequestLine q) = _
    rw [decodeLoop_headers 2 rfl, hparse]
    change decodeLoop (0 + 2) d' = _
    rw [decodeLoop_body 0 hstate', ← hsame]
  · rw [hsame]
    rfl

/-- A request line, well-formed header lines, with or without whitespace before
their values, and the empty line: the request is handed out. -/
theorem decode_fieldLines {q : RequestHead} {lines : List FieldLine}
    (hstate : d.state = .expectRequestLine) (hheaders : d.req.headers = .empty)
    (hbody : d.req.body = []) (hd : d.buffer.Valid)
    (hbegin : ∀ l ∈ lines, l.name.head? ≠ some cr)
    (hadd : FieldLine.addAll lines .empty = HeaderLine.addAll q.headers .empty)
    (hview : d.buffer.toStringView =
      q.requestLine ++ (FieldLine.wires lines ++ crlf)) :
    ∃ body truncated d', decode d = .ok (some (q.toReq body truncated), d') := by
  have hview' : d.buffer.toStringView =
      q.requestLine ++ (FieldLine.wires lines ++ (crlf ++ [])) :=
    hview.trans (by rw [List.append_nil])
  obtain ⟨d', hdecode, _⟩ := decode_lines hstate hheaders hbody hd
    (fun l hl => no_crlf_front (hbegin l hl)) hview'
  rw [hadd] at hdecode
  exact ⟨_, _, d', hdecode⟩

end HttpReqDecoder

end Jerry
