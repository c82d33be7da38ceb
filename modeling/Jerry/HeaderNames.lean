/-
Header names: which of them `CaseInsensitiveComparator` takes for one, and what
that makes of the header lines of a decoded request.
-/
import Jerry.HttpBodyLimit
import Jerry.HttpSoundness
import Mathlib.Data.List.Find

namespace Jerry

open CString HttpReqDecoder

/-- The names are not taken for one because of what stands before a NUL. -/
def Apart (a b : List UInt8) : Prop :=
  EqualFold (cStr a) (cStr b) → EqualFold a b

instance (a b : List UInt8) : Decidable (Apart a b) :=
  inferInstanceAs (Decidable (_ → _))

theorem apart_iff (a b : List UInt8) :
    (OrderedMap.Equivalent CaseInsensitiveComparator a b ↔ EqualFold a b) ↔
      Apart a b := by
  rw [CaseInsensitiveComparator.equivalent_iff_cStr]
  exact ⟨fun h => h.mp, fun h => ⟨h, EqualFold.cStr⟩⟩

namespace FieldLine

/-- The first line with the name of `l`, in any case, is in the request. -/
def KeptIn (lines : List FieldLine) (req : HttpReq) (l : FieldLine) : Prop :=
  ∃ first, lines.find? (fun l' => decide (EqualFold l'.name l.name)) =
      some first ∧
    (first.name, first.value) ∈ req.headers.entries

/-- Of two lines with different names neither hides the other, and what is found
for `name` comes from a line with that name. -/
structure WholeNames (lines : List FieldLine) (name : List UInt8)
    (req : HttpReq) : Prop where
  kept : ∀ l ∈ lines, ∀ l' ∈ lines, ¬ EqualFold l.name l'.name →
    l.KeptIn lines req ∧ l'.KeptIn lines req
  found : ∀ value, req.getHeader (.ofString name) = some value →
    ∃ l ∈ lines, EqualFold l.name name ∧ l.value = value

/-- The entry with a key is the first line that is equivalent to it. -/
theorem findEntry_addAll (lines : List FieldLine) (key : List UInt8) :
    ((addAll lines .empty).entries.find? fun e => decide
        (OrderedMap.Equivalent CaseInsensitiveComparator e.1 key)) =
      (lines.find? fun l => decide (EqualFold (cStr l.name) (cStr key))).map
        fun l => (l.name, l.value) := by
  have hnone : (OrderedMap.empty : HttpReq.Headers).entries = [] := rfl
  rw [addAll_eq_foldl, OrderedMap.findEntry_foldl_emplace, hnone,
    List.find?_nil, Option.none_or, List.find?_map]
  simp only [Function.comp_def, CaseInsensitiveComparator.equivalent_iff_cStr]

theorem cStr_ofString (name : List UInt8) :
    cStr (StringView.ofString name).data = cStr name :=
  cStr_append_zeros name 1

variable {lines : List FieldLine} {name : List UInt8} {req : HttpReq}

theorem getHeader_eq (hheaders : req.headers = addAll lines .empty)
    (name : List UInt8) :
    req.getHeader (.ofString name) =
      (lines.find? fun l => decide (EqualFold (cStr l.name) (cStr name))).map
        value := by
  have hidem : cStr (cStr name) = cStr name :=
    cStr_eq_self fun hzero => mem_cStr_ne_zero hzero rfl
  rw [HttpReq.getHeader, cStr_ofString, hheaders, OrderedMap.find?,
    findEntry_addAll, hidem, Option.map_map]
  rfl

/-- Lines that are both in the request do not have equivalent names. -/
theorem KeptIn.apart {l l' : FieldLine} (h : l.KeptIn lines req)
    (h' : l'.KeptIn lines req) : Apart l.name l'.name := by
  obtain ⟨first, hfirst, hmem⟩ := h
  obtain ⟨first', hfirst', hmem'⟩ := h'
  intro hkey
  have hname : EqualFold first.name l.name := by
    simpa using List.find?_some hfirst
  have hname' : EqualFold first'.name l'.name := by
    simpa using List.find?_some hfirst'
  have hequiv : OrderedMap.Equivalent CaseInsensitiveComparator first.name
      first'.name := by
    rw [CaseInsensitiveComparator.equivalent_iff_cStr]
    exact hname.cStr.trans (hkey.trans hname'.cStr.symm)
  have hsame := OrderedMap.eq_of_equivalent hmem hmem' hequiv
  rw [(Prod.mk.inj hsame).1] at hname
  exact hname.symm.trans hname'

theorem keptIn_of_apart (hheaders : req.headers = addAll lines .empty)
    (hapart : ∀ l ∈ lines, ∀ l' ∈ lines, Apart l.name l'.name)
    {l : FieldLine} (hl : l ∈ lines) : l.KeptIn lines req := by
  have hself : EqualFold l.name l.name := rfl
  obtain ⟨first, _, hfirst, _⟩ := @OrderedMap.exists_find?_eq_some _
    (fun l' => decide (EqualFold l'.name l.name)) _ _ hl (decide_eq_true hself)
  -- among these lines, the first with an equivalent name has the whole name
  have hcongr : lines.find? (fun l' =>
      decide (EqualFold (cStr l'.name) (cStr l.name))) = some first := by
    rw [← hfirst]
    apply List.find?_congr
    intro l' hl'
    have hiff : EqualFold (cStr l'.name) (cStr l.name) ↔
        EqualFold l'.name l.name := ⟨hapart l' hl' l hl, EqualFold.cStr⟩
    simp only [hiff]
  have hentry := findEntry_addAll lines l.name
  rw [hcongr, Option.map_some, ← hheaders] at hentry
  exact ⟨first, hfirst, List.mem_of_find?_eq_some hentry⟩

/-- The names of the lines and the name that is looked up are compared as a
whole exactly when no two of them differ behind a NUL only. -/
theorem wholeNames_iff (hheaders : req.headers = addAll lines .empty)
    (name : List UInt8) :
    WholeNames lines name req ↔
      ∀ a ∈ name :: lines.map FieldLine.name,
        ∀ b ∈ name :: lines.map FieldLine.name, Apart a b := by
  constructor
  · intro h
    have hlines : ∀ l ∈ lines, ∀ l' ∈ lines, Apart l.name l'.name := by
      intro l hl l' hl'
      by_cases hname : EqualFold l.name l'.name
      · exact fun _ => hname
      · obtain ⟨hkept, hkept'⟩ := h.kept l hl l' hl' hname
        exact hkept.apart hkept'
    have hfound : ∀ l ∈ lines, Apart l.name name := by
      intro l hl hkey
      obtain ⟨first, _, hfirst, _⟩ := @OrderedMap.exists_find?_eq_some _
        (fun l' => decide (EqualFold (cStr l'.name) (cStr name))) _ _ hl
        (decide_eq_true hkey)
      have hget := getHeader_eq hheaders name
      rw [hfirst, Option.map_some] at hget
      obtain ⟨l', hl', hname, _⟩ := h.found _ hget
      exact (hlines l hl l' hl' (hkey.trans hname.cStr.symm)).trans hname
    simp only [List.forall_mem_cons, List.forall_mem_map]
    refine ⟨⟨fun _ => rfl, fun l hl hkey => ?_⟩,
      fun l hl => ⟨hfound l hl, hlines l hl⟩⟩
    exact (hfound l hl hkey.symm).symm
  · intro hapart
    simp only [List.forall_mem_cons, List.forall_mem_map] at hapart
    obtain ⟨_, hlines⟩ := hapart
    have hkept : ∀ l ∈ lines, l.KeptIn lines req := fun l hl =>
      keptIn_of_apart hheaders (fun l hl => (hlines l hl).2) hl
    refine ⟨fun l hl l' hl' _ => ⟨hkept l hl, hkept l' hl'⟩, ?_⟩
    intro value hget
    rw [getHeader_eq hheaders] at hget
    obtain ⟨l, hfind, rfl⟩ := Option.map_eq_some_iff.mp hget
    have hl := List.mem_of_find?_eq_some hfind
    have hkey : EqualFold (cStr l.name) (cStr name) := by
      simpa using List.find?_some hfind
    exact ⟨l, hl, (hlines l hl).1 hkey, rfl⟩

end FieldLine

namespace HttpReqDecoder

variable {d d' : HttpReqDecoder} {head : List UInt8} {clean : Prop}
  {req : HttpReq} {segments : List (List UInt8)}

/-- The head that was taken is a request line, these lines and what was taken
for their end, and the request has them. -/
def TakenFrom (head : List UInt8) (req : HttpReq) (lines : List FieldLine) :
    Prop :=
  ∃ q : RequestHead, ∃ last, head = q.requestLine ++ FieldLine.wires lines ++ last ∧
    last.length ≤ 2 ∧ req.headers = FieldLine.addAll lines .empty

/-- The call that returns the request. -/
theorem SoFar.decode_lines (h : SoFar head clean d)
    (hdecode : HttpReqDecoder.decode d = .ok (some req, d')) :
    ∃ lines, TakenFrom (head ++ headTaken d) req lines := by
  rcases h.decode_cases hdecode with ⟨hnone, _⟩ |
    ⟨head', clean', d₁, fuel, hsofar, hstate, hloop, hhead, _⟩
  · cases hnone
  · obtain ⟨_, q, lines, last, hsplit, hlast, _, _, _, hheaders, _⟩ :=
      hsofar.decodeLoop_some fuel hstate hloop
    exact ⟨lines, q, last, hhead.trans hsplit, hlast, hheaders⟩

/-- The comparator is a strict weak order, and it compares two names as a whole
exactly when they are apart.  So it is for the lines of every returned request,
however its bytes came, and the name that is looked up in it. -/
theorem namesCompared_iff {n : Nat} (hd : d.Waiting)
    (hfeed : feedAll d segments = .ok (List.replicate n none ++ [some req], d'))
    (name : List UInt8) :
    IsStrictWeakOrder (List UInt8) CaseInsensitiveComparator ∧
      (∀ a b, (OrderedMap.Equivalent CaseInsensitiveComparator a b ↔
        EqualFold a b) ↔ Apart a b) ∧
      (∃ lines, TakenFrom (headOf d segments) req lines) ∧
      ∀ lines, TakenFrom (headOf d segments) req lines →
        (FieldLine.WholeNames lines name req ↔
          ∀ a ∈ name :: lines.map FieldLine.name,
            ∀ b ∈ name :: lines.map FieldLine.name, Apart a b) := by
  have hsofar : SoFar [] True d := .requestLine hd rfl trivial
  obtain ⟨head', _, d₁, hlast, hdecode, hhead, _⟩ := hsofar.feedAll_last hfeed
  obtain ⟨lines, hlines⟩ := hlast.decode_lines hdecode
  rw [List.nil_append] at hhead
  rw [← hhead] at hlines
  refine ⟨inferInstance, apart_iff, ⟨lines, hlines⟩, ?_⟩
  rintro lines' ⟨_, _, _, _, hheaders⟩
  exact FieldLine.wholeNames_iff hheaders name

/-- A `GET` with these lines. -/
def getLines (lines : List FieldLine) (begins : ∀ l ∈ lines, ¬ crlf <+: l.name) :
    SentRequest :=
  ⟨.get (bytes "/") [] sp_not_mem_slash, lines, [], begins⟩

theorem feedAll_one (r : SentRequest) :
    ∃ req d', feedAll (init (.ofSize 64)) [r.wire] = .ok ([some req], d') ∧
      req.headers = FieldLine.addAll r.lines .empty := by
  have hidle : (init (.ofSize 64)).Idle := init_idle (BaseBuffer.ofSize_valid 64)
    (BaseBuffer.ofSize_toStringView 64)
  obtain ⟨reqs, d', hfeed, hreqs⟩ := feedAll_sent hidle rfl [r]
  cases hreqs with
  | cons hreq hnil =>
      cases hnil
      exact ⟨_, d', hfeed, hreq.headers⟩

/-- Three lines with two names. -/
def hostRequest : SentRequest :=
  getLines [⟨bytes "Host", bytes " a", by decide, by decide +kernel⟩,
    ⟨bytes "host", bytes "b", by decide, by decide +kernel⟩,
    ⟨bytes "Hosts", bytes "c", by decide, by decide +kernel⟩] (by decide +kernel)

theorem namesCompared_host :
    ∃ req d', feedAll (init (.ofSize 64)) [hostRequest.wire] =
        .ok ([some req], d') ∧
      FieldLine.WholeNames hostRequest.lines (bytes "HOST") req := by
  obtain ⟨req, d', hfeed, hheaders⟩ := feedAll_one hostRequest
  obtain ⟨_, _, _, hiff⟩ := namesCompared_iff (n := 0)
    (init_waiting (BaseBuffer.ofSize_valid 64)) hfeed (bytes "HOST")
  have htaken : TakenFrom (headOf (init (.ofSize 64)) [hostRequest.wire]) req
      hostRequest.lines :=
    ⟨hostRequest.head, crlf, by decide +kernel, by decide, hheaders⟩
  exact ⟨req, d', hfeed, (hiff _ htaken).mpr (by decide +kernel)⟩

/-- Two names that differ behind a NUL. -/
def nulRequest : SentRequest :=
  getLines [⟨[97, 0, 98], bytes "1", by decide, by decide +kernel⟩,
    ⟨[97, 0, 99], bytes "2", by decide, by decide +kernel⟩] (by decide +kernel)

/-- The second line is dropped, and the first is found for its name. -/
theorem namesCompared_nul :
    ¬ (OrderedMap.Equivalent CaseInsensitiveComparator [97, 0, 98] [97, 0, 99] ↔
      EqualFold [97, 0, 98] [97, 0, 99]) ∧
    ∃ req d', feedAll (init (.ofSize 64)) [nulRequest.wire] =
        .ok ([some req], d') ∧
      ¬ FieldLine.WholeNames nulRequest.lines [97, 0, 99] req := by
  refine ⟨by decide +kernel, ?_⟩
  obtain ⟨req, d', hfeed, hheaders⟩ := feedAll_one nulRequest
  refine ⟨req, d', hfeed, ?_⟩
  rw [FieldLine.wholeNames_iff hheaders]
  decide

end HttpReqDecoder

end Jerry
