/-
The response writer against the header parser: what `ToString` writes is read
back by the loop of `ParseHeaders`.
-/
import Jerry.HttpGrammar
import Jerry.HttpRespCalls
import Mathlib.Data.List.Find

namespace Jerry

open CString HttpReqDecoder

namespace HttpResp

/-- A name without colon, CR, LF and NUL, and a value without CR and LF. -/
structure CleanField (f : Field) : Prop where
  name : Clean f.1
  no_colon : colon ∉ f.1
  no_nul : 0 ∉ f.1
  value : Clean f.2

instance (f : Field) : Decidable (CleanField f) :=
  decidable_of_iff (Clean f.1 ∧ colon ∉ f.1 ∧ 0 ∉ f.1 ∧ Clean f.2)
    ⟨fun ⟨hname, hcolon, hnul, hvalue⟩ => ⟨hname, hcolon, hnul, hvalue⟩,
      fun h => ⟨h.name, h.no_colon, h.no_nul, h.value⟩⟩

/-- The fields that are sent. -/
def fields (resp : HttpResp) (date : List UInt8) : List Field :=
  resp.headers ++ [(bytes "Content-Length", toDecimal resp.body.length),
    (bytes "Date", date)]

/-- `HTTP-Version SP Status-Code SP Reason-Phrase CRLF`. -/
def statusLine (resp : HttpResp) (reason : List UInt8) : List UInt8 :=
  bytes "HTTP/1.1 " ++ toDecimal resp.statusCode.toNat ++ bytes " " ++ reason ++
    crlf

def fieldWire (f : Field) : List UInt8 :=
  f.1 ++ bytes ": " ++ f.2 ++ crlf

/-- The fields and the empty line, then the body. -/
def block (resp : HttpResp) (date : List UInt8) : List UInt8 :=
  (resp.fields date).flatMap fieldWire ++ (crlf ++ resp.body)

/-- The entries are the fields that are the first of their names, in any case. -/
def Recovers (fields : List Field) (headers : HttpReq.Headers) : Prop :=
  ∀ f, f ∈ headers.entries ↔
    fields.find? (fun g => decide (EqualFold g.1 f.1)) = some f

theorem toString_eq {resp : HttpResp} {reason : List UInt8}
    (hstatus : statusMap.lookup resp.statusCode = some reason)
    (date : List UInt8) :
    resp.toString date = .ok (resp.statusLine reason ++ resp.block date) := by
  have hlength : bytes "Content-Length: " = bytes "Content-Length" ++ bytes ": " :=
    rfl
  have hdate : bytes "Date: " = bytes "Date" ++ bytes ": " := rfl
  have hwire : fieldWire = fun f => f.1 ++ bytes ": " ++ f.2 ++ crlf := rfl
  rw [toString, hstatus, hlength, hdate]
  simp only [statusLine, block, fields, getContentLength, hwire, List.flatMap_append,
    List.flatMap_cons, List.flatMap_nil, List.append_assoc, List.append_nil]

section Clean

variable {resp : HttpResp}

/-- Digits are no line ends. -/
theorem toDecimal_clean (n : Nat) : Clean (toDecimal n) := by
  intro c hc
  have hrange := toDecimal_digit hc
  constructor
  · rintro rfl
    simp [cr] at hrange
  · rintro rfl
    simp [lf] at hrange

theorem fields_clean (hresp : ∀ f ∈ resp.headers, CleanField f)
    {date : List UInt8} (hdate : Clean date) :
    ∀ f ∈ resp.fields date, CleanField f := by
  have hlength : Clean (bytes "Content-Length") ∧
      colon ∉ bytes "Content-Length" ∧ 0 ∉ bytes "Content-Length" := by
    decide +kernel
  have hname : Clean (bytes "Date") ∧ colon ∉ bytes "Date" ∧
      0 ∉ bytes "Date" := by
    decide +kernel
  refine List.forall_mem_append.mpr ⟨hresp, ?_⟩
  refine List.forall_mem_cons.mpr ⟨?_, List.forall_mem_singleton.mpr ?_⟩
  · exact ⟨hlength.1, hlength.2.1, hlength.2.2, toDecimal_clean _⟩
  · exact ⟨hname.1, hname.2.1, hname.2.2, hdate⟩

end Clean

/-- Clean fields are written as header lines of the decoder's grammar. -/
theorem exists_lines {fs : List Field} (hclean : ∀ f ∈ fs, CleanField f) :
    ∃ lines : List FieldLine,
      (lines.map fun l => (l.name, l.value)) = fs ∧
      FieldLine.wires lines = fs.flatMap fieldWire ∧
      ∀ l ∈ lines, ¬ crlf <+: l.name := by
  induction fs with
  | nil => exact ⟨[], rfl, rfl, List.forall_mem_nil _⟩
  | cons f fs ih =>
      obtain ⟨hf, hfs⟩ := List.forall_mem_cons.mp hclean
      obtain ⟨lines, hmap, hwires, hbegin⟩ := ih hfs
      have hraw : Clean (sp :: f.2) :=
        List.forall_mem_cons.mpr ⟨by decide, hf.value⟩
      let l : FieldLine := ⟨f.1, sp :: f.2, hf.no_colon, clean_no_crlf hraw⟩
      have hname : ¬ crlf <+: l.name := fun hpre =>
        clean_no_crlf hf.name hpre.isInfix
      refine ⟨l :: lines, ?_, ?_, List.forall_mem_cons.mpr ⟨hname, hbegin⟩⟩
      · rw [List.map_cons, hmap]
        rfl
      · rw [FieldLine.wires_cons, hwires, List.flatMap_cons]
        have hsep : bytes ": " = [colon, sp] := rfl
        simp only [FieldLine.wire, fieldWire, l, hsep, List.append_assoc,
          List.cons_append, List.nil_append]

/-- The map of clean fields has the first of each name. -/
theorem recovers_addAll {fs : List Field} {lines : List FieldLine}
    (hclean : ∀ f ∈ fs, CleanField f)
    (hmap : (lines.map fun l => (l.name, l.value)) = fs) :
    Recovers fs (FieldLine.addAll lines .empty) := by
  intro f
  rw [FieldLine.addAll_eq_foldl, hmap, OrderedMap.mem_foldl_emplace_iff]
  -- without a NUL in it, the name that is found has the same letters
  have hcongr (hf : f ∈ fs) :
      fs.find? (fun g => decide
        (OrderedMap.Equivalent CaseInsensitiveComparator g.1 f.1)) =
      fs.find? fun g => decide (EqualFold g.1 f.1) := by
    apply List.find?_congr
    intro g hg
    have hiff := CaseInsensitiveComparator.equivalent_iff (hclean g hg).no_nul
      (hclean f hf).no_nul
    simp only [hiff]
  constructor
  · intro hfind
    exact (hcongr (List.mem_of_find?_eq_some hfind)).symm.trans hfind
  · intro hfind
    exact (hcongr (List.mem_of_find?_eq_some hfind)).trans hfind

/-- What the peer is to recover: what the calls add up to, and behind it the length
of their body and the date. -/
def sent (calls : List Setter) (date : List UInt8) : List Field :=
  written calls ++ [(bytes "Content-Length", toDecimal (writtenBody calls).length),
    (bytes "Date", date)]

/-- What `ToString` writes is a status line and a block, and wherever the block
is all that is readable, `ParseHeaders` recovers from it what the calls add up to,
stops at the empty line and leaves the body. -/
theorem toString_recovered {calls : List Setter}
    (hheaders : ∀ f ∈ written calls, CleanField f)
    (hstatus : (statusMap.lookup (writtenStatus calls)).isSome)
    {date : List UInt8} (hdate : Clean date) :
    ∃ reason block,
      statusMap.lookup (writtenStatus calls) = some reason ∧
      (build calls).toString date =
        .ok (bytes "HTTP/1.1 " ++ toDecimal (writtenStatus calls).toNat ++ bytes " " ++
          reason ++ crlf ++ block) ∧
      ∀ d : HttpReqDecoder, d.buffer.Valid → d.req.headers = .empty →
        d.buffer.toStringView = block →
        ∃ d', parseHeaders d = .ok (true, d') ∧ d'.state = .expectBody ∧
          Recovers (sent calls date) d'.req.headers ∧
          d'.buffer.toStringView = writtenBody calls := by
  obtain ⟨reason, hreason⟩ := Option.isSome_iff_exists.mp hstatus
  rw [build_eq]
  refine ⟨reason, _, hreason, toString_eq hreason date, ?_⟩
  intro d hd hempty hview
  have hclean : ∀ f ∈ sent calls date, CleanField f :=
    @fields_clean ⟨written calls, writtenStatus calls, writtenBody calls⟩ hheaders
      date hdate
  obtain ⟨lines, hmap, hwires, hbegin⟩ := exists_lines hclean
  have hblock : d.buffer.toStringView =
      FieldLine.wires lines ++ (crlf ++ writtenBody calls) := by
    rw [hwires]
    exact hview
  obtain ⟨d', hparse, hstate, hreq, _, hrest, _⟩ :=
    parseHeaders_lines hd hbegin hblock
  refine ⟨d', hparse, hstate, ?_, hrest⟩
  rw [hreq]
  simp only [hempty]
  exact recovers_addAll hclean hmap

/-- A page that was moved, with two tags in different case and a body that looks
like the end of a header block. -/
def moved : List Setter :=
  [.setRedirect (bytes "/a b") 301, .addEtag (bytes " 1"),
    .addHeader (.ofString (bytes "etag")) (bytes "2") true,
    .setBody (bytes "\r\n\r\n")]

theorem toString_recovered_moved :
    written moved = [(bytes "Etag", bytes " 1"), (bytes "Location", bytes "/a b"),
      (bytes "etag", bytes "2")] ∧
    ∃ block, (build moved).toString (bytes "now") =
        .ok (bytes "HTTP/1.1 301 Moved Permanently\r\n" ++ block) ∧
      ∃ d', parseHeaders
          (HttpReqDecoder.init ((BaseBuffer.ofSize 64).append block)) =
            .ok (true, d') ∧
        Recovers (sent moved (bytes "now")) d'.req.headers ∧
        d'.buffer.toStringView = bytes "\r\n\r\n" := by
  have hheaders : written moved = [(bytes "Etag", bytes " 1"),
      (bytes "Location", bytes "/a b"), (bytes "etag", bytes "2")] := by
    decide +kernel
  have hclean : ∀ f ∈ written moved, CleanField f := by
    rw [hheaders]
    decide +kernel
  obtain ⟨reason, block, hreason, htext, hblock⟩ :=
    @toString_recovered moved hclean (by decide +kernel) (bytes "now")
      (by decide +kernel)
  have hmoved : statusMap.lookup (writtenStatus moved) =
      some (bytes "Moved Permanently") := by
    decide +kernel
  obtain rfl := Option.some_inj.mp (hreason.symm.trans hmoved)
  have hvalid := BaseBuffer.ofSize_valid 64
  have hview : ((BaseBuffer.ofSize 64).append block).toStringView = block := by
    rw [BaseBuffer.append_toStringView hvalid, BaseBuffer.ofSize_toStringView,
      List.nil_append]
  obtain ⟨d', hparse, _, hrecovers, hrest⟩ := hblock
    (HttpReqDecoder.init ((BaseBuffer.ofSize 64).append block))
    (BaseBuffer.append_valid hvalid block) rfl hview
  exact ⟨hheaders, block, htext, d', hparse, hrecovers, hrest⟩

end HttpResp

end Jerry
