/-
`proto/http/HttpReq`: a decoded request and the lookup of its headers.
-/
import Jerry.CString
import Jerry.OrderedMap

namespace Jerry

open CString

/-- `CaseInsensitiveComparator`. -/
def CaseInsensitiveComparator (lhs rhs : List UInt8) : Prop :=
  strcasecmp lhs rhs < 0

instance : DecidableRel CaseInsensitiveComparator := fun lhs rhs =>
  inferInstanceAs (Decidable (strcasecmp lhs rhs < 0))

instance : IsStrictWeakOrder (List UInt8) CaseInsensitiveComparator :=
  isStrictWeakOrder_of_key foldKey strcasecmp_neg_iff

instance : IsTrans (List UInt8) CaseInsensitiveComparator where
  trans _ _ _ := IsTrans.trans _ _ _

/-- Names without a NUL are equivalent when they differ in ASCII case only. -/
theorem CaseInsensitiveComparator.equivalent_iff {a b : List UInt8}
    (ha : 0 ∉ a) (hb : 0 ∉ b) :
    OrderedMap.Equivalent CaseInsensitiveComparator a b ↔ EqualFold a b := by
  rw [← foldKey_eq_iff ha hb, OrderedMap.Equivalent]
  simp only [CaseInsensitiveComparator, strcasecmp_neg_iff, not_lt]
  exact ⟨fun h => le_antisymm h.2 h.1, fun h => ⟨h.ge, h.le⟩⟩

/-- Two names are equivalent when what stands before their first NULs differs in
ASCII case only. -/
theorem CaseInsensitiveComparator.equivalent_iff_cStr (a b : List UInt8) :
    OrderedMap.Equivalent CaseInsensitiveComparator a b ↔
      EqualFold (cStr a) (cStr b) := by
  have ha : 0 ∉ cStr a := fun h => mem_cStr_ne_zero h rfl
  have hb : 0 ∉ cStr b := fun h => mem_cStr_ne_zero h rfl
  rw [← equivalent_iff ha hb]
  simp only [OrderedMap.Equivalent, CaseInsensitiveComparator, strcasecmp,
    cStr_eq_self ha, cStr_eq_self hb]

namespace HttpReq

inductive Method where
  | options | get | head | post | put | delete | trace | connect
deriving DecidableEq, Repr

inductive HttpVersion where
  | http10 | http11
deriving DecidableEq, Repr

abbrev Headers :=
  OrderedMap (List UInt8) (List UInt8) CaseInsensitiveComparator

end HttpReq

structure HttpReq where
  body : List UInt8
  requestUri : List UInt8
  headers : HttpReq.Headers
  method : HttpReq.Method
  version : HttpReq.HttpVersion
  isBodyTruncated : Bool
deriving DecidableEq

namespace HttpReq

/-- The names of the methods, the other way round than in the decoder. -/
def methodMap : List (Method × List UInt8) :=
  [(.get, bytes "GET"), (.post, bytes "POST"), (.head, bytes "HEAD"),
    (.head, bytes "HEAD"), (.head, bytes "HEAD"), (.delete, bytes "DELETE"),
    (.options, bytes "OPTIONS"), (.trace, bytes "TRACE")]

def versionMap : List (HttpVersion × List UInt8) :=
  [(.http10, bytes "HTTP/1.0"), (.http11, bytes "HTTP/1.1")]

/-- `HttpReq req{}`. -/
def init : HttpReq :=
  ⟨[], [], .empty, .options, .http10, false⟩

/-- What `std::move(req)` leaves behind: empty strings and an empty map, the
other members as they are. -/
def movedFrom (req : HttpReq) : HttpReq :=
  { req with body := [], requestUri := [], headers := .empty }

/-- The key is built from `name.data()`, so it ends at the first NUL. -/
def getHeader (req : HttpReq) (name : StringView) : Option (List UInt8) :=
  req.headers.find? (cStr name.data)

def getRequestUri (req : HttpReq) : List UInt8 := req.requestUri

def getBody (req : HttpReq) : List UInt8 := req.body

def getMethod (req : HttpReq) : Method := req.method

def getVersion (req : HttpReq) : HttpVersion := req.version

/-- Without a result `map::at` throws. -/
def getMethodString (req : HttpReq) : Option (List UInt8) :=
  methodMap.lookup req.method

def getVersionString (req : HttpReq) : Option (List UInt8) :=
  versionMap.lookup req.version

def toString (req : HttpReq) : Option (List UInt8) :=
  match req.getMethodString, req.getVersionString with
  | some method, some version => some
      (method ++ bytes " " ++ req.getRequestUri ++ bytes " " ++ version ++
        bytes "\n" ++
        (req.headers.entries.flatMap fun entry =>
          entry.1 ++ bytes ": " ++ entry.2 ++ bytes "\n") ++
        bytes "\n" ++ req.getBody)
  | _, _ => none

end HttpReq

end Jerry
