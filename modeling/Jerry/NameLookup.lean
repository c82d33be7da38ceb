/-
Lookups by `std::string_view`.  The names and keys that are stored have the
length of their view, those that are searched for end at the first NUL behind
its pointer, so that the memory behind a view can change what is found.
-/
import Jerry.HttpRespFields
import Jerry.TcpContext

namespace Jerry

open CString

namespace NameLookup

/-- The two views find the same in every request, response and context, and
make `AddHeader` replace the same field. -/
structure SameResults (a b : StringView) : Prop where
  request (req : HttpReq) : req.getHeader a = req.getHeader b
  response (resp : HttpResp) : resp.getHeader a = resp.getHeader b
  replaced (resp : HttpResp) (value : List UInt8) :
    resp.addHeader a value false = resp.addHeader b value false
  context (context : TcpContext Nat) : context.get a = context.get b

/-- What is stored through `a` is there for `b`. -/
structure FoundAgain (a b : StringView) : Prop where
  request (req : HttpReq) (value : List UInt8) :
    (({ req with headers := req.headers.emplace a.chars value } :
      HttpReq).getHeader b).isSome
  response (resp : HttpResp) (value : List UInt8) (multiple : Bool) :
    ((resp.addHeader a value multiple).getHeader b).isSome
  context (context : TcpContext Nat) (value : Nat) :
    ((context.set a value).get b).isSome

/-- The view ends where the string that its pointer points to ends. -/
def Terminated (view : StringView) : Prop :=
  cStr view.data = view.chars

instance (view : StringView) : Decidable (Terminated view) :=
  inferInstanceAs (Decidable (_ = _))

theorem sameResults_of_cStr_eq {a b : StringView} (hchars : a.chars = b.chars)
    (hkey : cStr a.data = cStr b.data) : SameResults a b where
  request req := by rw [HttpReq.getHeader, HttpReq.getHeader, hkey]
  response resp := by rw [HttpResp.getHeader, HttpResp.getHeader, hkey]
  replaced resp value := by
    rw [HttpResp.addHeader, HttpResp.addHeader, hkey, hchars]
  context context := by rw [TcpContext.get, TcpContext.get, hkey]

theorem cStr_eq_of_sameResults {a b : StringView} (h : SameResults a b) :
    cStr a.data = cStr b.data := by
  have hget := h.context (TcpContext.set .empty ⟨cStr a.data, []⟩ 0)
  rw [TcpContext.get_set, TcpContext.get_set] at hget
  by_contra hkey
  simp [TcpContext.get, hkey] at hget

theorem isSome_getHeader (resp : HttpResp) (name : StringView) :
    (resp.getHeader name).isSome ↔
      cStr name.data ∈ resp.headers.map Prod.fst := by
  rw [HttpResp.getHeader, Option.isSome_map, List.find?_isSome]
  simp

/-- A field that was added, or replaced, has the name that it was added for. -/
theorem mem_names_addHeader (resp : HttpResp) (name : StringView)
    (value : List UInt8) (multiple : Bool) (hname : Terminated name) :
    name.chars ∈ (resp.addHeader name value multiple).headers.map Prod.fst := by
  simp only [HttpResp.addHeader]
  split
  · rename_i hfound
    rw [HttpResp.map_fst_overwriteValue, ← hname]
    simp only [Bool.and_eq_true, List.any_eq_true, decide_eq_true_eq] at hfound
    obtain ⟨_, entry, hentry, hkey⟩ := hfound
    exact List.mem_map.mpr ⟨entry, hentry, hkey⟩
  · exact List.mem_map.mpr ⟨(name.chars, value),
      (HttpResp.mem_emplace name.chars value).mpr (.inl rfl), rfl⟩

theorem foundAgain_of_terminated {a b : StringView} (hchars : a.chars = b.chars)
    (ha : Terminated a) (hb : Terminated b) : FoundAgain a b where
  request req value := by
    simp only [HttpReq.getHeader]
    rw [OrderedMap.find?_emplace, hb, hchars, if_pos ⟨irrefl _, irrefl _⟩]
    cases req.headers.find? b.chars <;> rfl
  response resp value multiple := by
    rw [isSome_getHeader, hb, ← hchars]
    exact mem_names_addHeader resp a value multiple ha
  context context value := by
    rw [TcpContext.get_set, hb, if_pos hchars]
    cases context.get b <;> rfl

theorem terminated_of_foundAgain {a b : StringView} (hchars : a.chars = b.chars)
    (h : FoundAgain a b) : Terminated b := by
  have hget := h.context .empty 0
  rw [TcpContext.get_set] at hget
  by_contra hkey
  rw [if_neg (fun heq => hkey (heq.symm.trans hchars))] at hget
  simp [TcpContext.get] at hget

/-- Two views with the same characters find the same, and find what was stored
through the other, exactly when a terminator stands behind both. -/
theorem lookups_agree_iff (a b : StringView) (hchars : a.chars = b.chars) :
    SameResults a b ∧ FoundAgain a b ↔ Terminated a ∧ Terminated b := by
  constructor
  · rintro ⟨hsame, hfound⟩
    have hb := terminated_of_foundAgain hchars hfound
    have ha : Terminated a := by
      rw [Terminated, cStr_eq_of_sameResults hsame, hb, hchars]
    exact ⟨ha, hb⟩
  · rintro ⟨ha, hb⟩
    refine ⟨sameResults_of_cStr_eq hchars ?_,
      foundAgain_of_terminated hchars ha hb⟩
    rw [ha, hb, hchars]

/-- A literal, and a string that was filled up with NULs. -/
theorem lookups_agree_padded :
    SameResults (.ofString (bytes "Host")) ⟨bytes "Host", [0, 0, 0, 0]⟩ ∧
      FoundAgain (.ofString (bytes "Host")) ⟨bytes "Host", [0, 0, 0, 0]⟩ :=
  (lookups_agree_iff (.ofString (bytes "Host")) ⟨bytes "Host", [0, 0, 0, 0]⟩
    rfl).mpr (by decide)

/-- The first characters of `"identity"` look for `"identity"`. -/
theorem lookups_differ_piece :
    ¬ ∀ a b : StringView, a.chars = b.chars →
      SameResults a b ∧ FoundAgain a b := by
  intro h
  obtain ⟨_, hfound⟩ := h (.ofString (bytes "id"))
    ⟨bytes "id", bytes "entity" ++ [0]⟩ rfl
  have hget := hfound.context .empty 1
  revert hget
  decide

end NameLookup

end Jerry
