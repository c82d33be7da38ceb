/-
The fields of a response: where `AddHeader` puts a field, which one it gives a
new value, and when that is the one its caller names.
-/
import Jerry.HttpResp
import Mathlib.Data.List.Basic

namespace Jerry

open CString

namespace HttpResp

abbrev Field := List UInt8 × List UInt8

/-- The order of the multimap. -/
def Sorted (fields : List Field) : Prop :=
  fields.Pairwise fun f g => ¬ g.1 < f.1

section Fields

variable {fields : List Field} {f : Field}

/-- The field goes behind those that do not come after it, before the first that
does. -/
theorem emplace_split (name value : List UInt8) (fields : List Field) :
    ∃ before behind, fields = before ++ behind ∧
      emplace name value fields = before ++ (name, value) :: behind ∧
      (∀ f ∈ before, ¬ name < f.1) ∧ ∀ f ∈ behind.head?, name < f.1 := by
  induction fields with
  | nil => exact ⟨[], [], rfl, rfl, by simp, by simp⟩
  | cons f fields ih =>
      simp only [emplace]
      split
      · rename_i hlt
        exact ⟨[], f :: fields, rfl, rfl, by simp, by simpa using hlt⟩
      · rename_i hlt
        obtain ⟨before, behind, rfl, hemplace, hbefore, hbehind⟩ := ih
        refine ⟨f :: before, behind, rfl, by rw [hemplace]; rfl, ?_, hbehind⟩
        exact List.forall_mem_cons.mpr ⟨hlt, hbefore⟩

theorem mem_emplace (name value : List UInt8) :
    f ∈ emplace name value fields ↔ f = (name, value) ∨ f ∈ fields := by
  obtain ⟨before, behind, rfl, hemplace, _⟩ := emplace_split name value fields
  rw [hemplace, List.mem_append, List.mem_cons, List.mem_append]
  tauto

/-- Where the order was kept, all fields behind the new one come after it. -/
theorem lt_of_mem_behind {name : List UInt8} {behind : List Field}
    (hsorted : Sorted behind) (hhead : ∀ f ∈ behind.head?, name < f.1) :
    ∀ f ∈ behind, name < f.1 := by
  cases behind with
  | nil => simp
  | cons g behind =>
      have hg : name < g.1 := hhead g rfl
      refine List.forall_mem_cons.mpr ⟨hg, fun f hf => ?_⟩
      exact lt_of_lt_of_not_lt hg ((List.pairwise_cons.mp hsorted).1 f hf)

theorem emplace_sorted (hsorted : Sorted fields) (name value : List UInt8) :
    Sorted (emplace name value fields) := by
  obtain ⟨before, behind, rfl, hemplace, hbefore, hhead⟩ :=
    emplace_split name value fields
  obtain ⟨hleft, hright, hcross⟩ := List.pairwise_append.mp hsorted
  have hbehind := lt_of_mem_behind hright hhead
  rw [hemplace, Sorted, List.pairwise_append, List.pairwise_cons]
  refine ⟨hleft, ⟨fun f hf => asymm (hbehind f hf), hright⟩, ?_⟩
  intro f hf g hg
  rcases List.mem_cons.mp hg with rfl | hg
  · exact hbefore f hf
  · exact hcross f hf g hg

/-- The first field with the key gets the value. -/
theorem overwriteValue_split {key : List UInt8} (value : List UInt8)
    (hfound : ∃ f ∈ fields, f.1 = key) :
    ∃ before old behind, fields = before ++ (key, old) :: behind ∧
      overwriteValue key value fields = before ++ (key, value) :: behind ∧
      ∀ f ∈ before, f.1 ≠ key := by
  induction fields with
  | nil => simp at hfound
  | cons f fields ih =>
      simp only [overwriteValue]
      split
      · rename_i hkey
        exact ⟨[], f.2, fields, by rw [← hkey]; rfl, by rw [hkey]; rfl,
          by simp⟩
      · rename_i hkey
        obtain ⟨before, old, behind, rfl, hover, hbefore⟩ := ih (by
          simpa [hkey] using hfound)
        refine ⟨f :: before, old, behind, rfl, by rw [hover]; rfl, ?_⟩
        exact List.forall_mem_cons.mpr ⟨hkey, hbefore⟩

theorem map_fst_overwriteValue (key value : List UInt8) (fields : List Field) :
    (overwriteValue key value fields).map Prod.fst = fields.map Prod.fst := by
  induction fields with
  | nil => rfl
  | cons f fields ih =>
      simp only [overwriteValue]
      split
      · rfl
      · rw [List.map_cons, List.map_cons, ih]

theorem overwriteValue_sorted (hsorted : Sorted fields)
    (key value : List UInt8) : Sorted (overwriteValue key value fields) := by
  have hnames : (fields.map Prod.fst).Pairwise fun a b => ¬ b < a :=
    List.pairwise_map.mpr hsorted
  rw [← map_fst_overwriteValue key value] at hnames
  exact List.pairwise_map.mp hnames

end Fields

/-- The call of `AddHeader` that a setter makes, if any. -/
def Setter.field? : Setter → Option (StringView × List UInt8 × Bool)
  | .setContentType contentType =>
      some (.ofString (bytes "Content-Type"), contentType, false)
  | .setServer serverName => some (.ofString (bytes "Server"), serverName, false)
  | .setKeepAlive =>
      some (.ofString (bytes "Connection"), bytes "keep-Alive", false)
  | .addEtag etag => some (.ofString (bytes "Etag"), etag, true)
  | .addHeader name value multiple => some (name, value, multiple)
  | .setRedirect location _ =>
      some (.ofString (bytes "Location"), location, false)
  | .setStatus _ | .setBody _ | .appendBody _ => none

theorem Setter.exec_headers (resp : HttpResp) (call : Setter) :
    (call.exec resp).headers =
      match call.field? with
      | none => resp.headers
      | some (name, value, multiple) =>
          (resp.addHeader name value multiple).headers := by
  cases call <;> rfl

theorem addHeader_sorted {resp : HttpResp} (hsorted : Sorted resp.headers)
    (name : StringView) (value : List UInt8) (multiple : Bool) :
    Sorted (resp.addHeader name value multiple).headers := by
  simp only [addHeader]
  split
  · exact overwriteValue_sorted hsorted _ _
  · exact emplace_sorted hsorted _ _

theorem Setter.exec_sorted {resp : HttpResp} (hsorted : Sorted resp.headers)
    (call : Setter) : Sorted (call.exec resp).headers := by
  rw [call.exec_headers]
  split
  · exact hsorted
  · exact addHeader_sorted hsorted _ _ _

theorem build_append (calls : List Setter) (call : Setter) :
    build (calls ++ [call]) = call.exec (build calls) := by
  simp [build]

theorem build_sorted (calls : List Setter) : Sorted (build calls).headers := by
  induction calls using List.reverseRecOn with
  | nil => exact .nil
  | append_singleton calls call ih =>
      rw [build_append]
      exact call.exec_sorted ih

/-- A name without a NUL that is not there yet. -/
theorem addHeader_new {resp : HttpResp} {name : List UInt8} (hzero : 0 ∉ name)
    (hnew : ∀ f ∈ resp.headers, f.1 ≠ name) (value : List UInt8) :
    (resp.addHeader (.ofString name) value false).headers =
      emplace name value resp.headers := by
  have hkey : cStr (StringView.ofString name).data = name :=
    cStr_of_not_mem hzero []
  have hfound : (resp.headers.any fun entry => decide (entry.1 = name)) = false := by
    rw [List.any_eq_false]
    intro f hf
    rw [decide_eq_true_iff]
    exact hnew f hf
  simp only [addHeader, hkey, hfound, Bool.and_false]
  rfl

def hasName (name : List UInt8) (f : Field) : Bool :=
  decide (EqualFold f.1 name)

/-- Exactly one field has the name, in any case, and its value is the new one;
the other fields are as they were. -/
def Replaces (name value : List UInt8) (fields after : List Field) : Prop :=
  (∃ name', after.filter (hasName name) = [(name', value)]) ∧
    after.filter (fun f => !hasName name f) =
      fields.filter fun f => !hasName name f

/-- The field was added, behind all values of its name. -/
def Adds (name value : List UInt8) (fields after : List Field) : Prop :=
  ∃ before behind, fields = before ++ behind ∧
    after = before ++ (name, value) :: behind ∧
    ∀ f ∈ behind, ¬ EqualFold f.1 name

/-- There is no field of the name, or one, and that one is found for it; or it
has the value, and so has the field that is found in its place. -/
def Replaceable (resp : HttpResp) (name : StringView) (value : List UInt8) :
    Prop :=
  match resp.getHeader name with
  | none => ∀ f ∈ resp.headers, ¬ EqualFold f.1 name.chars
  | some old => ∃ f, resp.headers.filter (hasName name.chars) = [f] ∧
      (f.1 = cStr name.data ∨ f.2 = value ∧ old = value)

/-- No value of the name is sorted behind the place of the new one. -/
def Addable (resp : HttpResp) (name : StringView) : Prop :=
  ∀ f ∈ resp.headers, EqualFold f.1 name.chars → ¬ name.chars < f.1

section AddHeader

variable (resp : HttpResp) (name : StringView) (value : List UInt8)

theorem adds_iff (hsorted : Sorted resp.headers) :
    Adds name.chars value resp.headers
        (resp.addHeader name value true).headers ↔
      resp.Addable name := by
  have hafter : (resp.addHeader name value true).headers =
      emplace name.chars value resp.headers := rfl
  constructor
  · rintro ⟨before, behind, hsplit, hadded, hbehind⟩ f hf hname
    have hsorted' := emplace_sorted hsorted name.chars value
    rw [← hafter, hadded, Sorted, List.pairwise_append] at hsorted'
    rw [hsplit] at hf
    rcases List.mem_append.mp hf with hf | hf
    · exact hsorted'.2.2 f hf _ List.mem_cons_self
    · exact absurd hname (hbehind f hf)
  · intro hlast
    obtain ⟨before, behind, hsplit, hemplace, _, hhead⟩ :=
      emplace_split name.chars value resp.headers
    refine ⟨before, behind, hsplit, hafter.trans hemplace, fun f hf hname => ?_⟩
    rw [hsplit] at hsorted
    have hlt := lt_of_mem_behind (List.pairwise_append.mp hsorted).2.1 hhead f hf
    exact hlast f (hsplit ▸ List.mem_append_right before hf) hname hlt

/-- An element that passes is the only one. -/
theorem filter_eq_singleton_iff {α : Type} {p : α → Bool} {before behind : List α}
    {x y : α} (hx : p x = true) :
    (before ++ x :: behind).filter p = [y] ↔
      x = y ∧ ∀ z ∈ before ++ behind, p z = false := by
  rw [List.filter_append, List.filter_cons_of_pos hx,
    List.append_eq_singleton_iff]
  simp only [List.cons.injEq, reduceCtorEq, and_false, or_false,
    List.filter_eq_nil_iff, List.forall_mem_append, Bool.not_eq_true]
  tauto

variable {before behind : List Field} {key old : List UInt8}

/-- A field with the name and the value must be the only one of that name. -/
theorem only_iff (hkey : hasName name.chars (key, value) = true) :
    (∃ name', (before ++ (key, value) :: behind).filter (hasName name.chars) =
      [(name', value)]) ↔
      ∀ f ∈ before ++ behind, hasName name.chars f = false := by
  simp only [filter_eq_singleton_iff hkey]
  constructor
  · rintro ⟨_, _, hothers⟩
    exact hothers
  · intro hothers
    exact ⟨key, rfl, hothers⟩

/-- The field is added. -/
theorem replaces_added :
    Replaces name.chars value (before ++ behind)
        (before ++ (name.chars, value) :: behind) ↔
      ∀ f ∈ before ++ behind, ¬ EqualFold f.1 name.chars := by
  have hkey : hasName name.chars (name.chars, value) = true := decide_eq_true rfl
  have hothers : (before ++ (name.chars, value) :: behind).filter
        (fun f => !hasName name.chars f) =
      (before ++ behind).filter fun f => !hasName name.chars f := by
    simp [List.filter_append, hkey]
  rw [Replaces, only_iff name value hkey, and_iff_left hothers]
  simp only [hasName, decide_eq_false_iff_not]

/-- The field that gets the value has the name. -/
theorem replaces_same (hkey : EqualFold key name.chars) :
    Replaces name.chars value (before ++ (key, old) :: behind)
        (before ++ (key, value) :: behind) ↔
      ∃ f, (before ++ (key, old) :: behind).filter (hasName name.chars) = [f] ∧
        (f.1 = key ∨ f.2 = value ∧ old = value) := by
  have hnew : hasName name.chars (key, value) = true := decide_eq_true hkey
  have hold : hasName name.chars (key, old) = true := decide_eq_true hkey
  rw [Replaces, only_iff name value hnew]
  simp only [filter_eq_singleton_iff hold]
  constructor
  · rintro ⟨hothers, _⟩
    exact ⟨(key, old), ⟨rfl, hothers⟩, Or.inl rfl⟩
  · rintro ⟨_, ⟨_, hothers⟩, _⟩
    exact ⟨hothers, by simp [List.filter_append, hnew, hold]⟩

/-- The field that gets the value has another name, so it must have had it. -/
theorem replaces_other (hkey : ¬ EqualFold key name.chars) :
    Replaces name.chars value (before ++ (key, old) :: behind)
        (before ++ (key, value) :: behind) ↔
      ∃ f, (before ++ (key, old) :: behind).filter (hasName name.chars) = [f] ∧
        (f.1 = key ∨ f.2 = value ∧ old = value) := by
  have hnew : hasName name.chars (key, value) = false := decide_eq_false hkey
  have hold : hasName name.chars (key, old) = false := decide_eq_false hkey
  have hothers : (before ++ (key, value) :: behind).filter
        (fun f => !hasName name.chars f) =
      (before ++ (key, old) :: behind).filter (fun f => !hasName name.chars f) ↔
      old = value := by
    simp [List.filter_append, hnew, hold, eq_comm]
  have hfilter : (before ++ (key, value) :: behind).filter (hasName name.chars) =
      (before ++ (key, old) :: behind).filter (hasName name.chars) := by
    simp [List.filter_append, hnew, hold]
  rw [Replaces, hothers, hfilter]
  constructor
  · rintro ⟨⟨name', hone⟩, hvalue⟩
    exact ⟨_, hone, Or.inr ⟨rfl, hvalue⟩⟩
  · rintro ⟨f, hone, hcase⟩
    have hf : hasName name.chars f = true :=
      (List.mem_filter.mp (hone ▸ List.mem_singleton_self f)).2
    rcases hcase with rfl | ⟨rfl, hvalue⟩
    · exact absurd (of_decide_eq_true hf) hkey
    · exact ⟨⟨f.1, hone⟩, hvalue⟩

theorem replaces_iff :
    Replaces name.chars value resp.headers
        (resp.addHeader name value false).headers ↔
      resp.Replaceable name value := by
  by_cases hfound : ∃ f ∈ resp.headers, f.1 = cStr name.data
  · obtain ⟨before, old, behind, hsplit, hover, hbefore⟩ :=
      overwriteValue_split value hfound
    have hany : (resp.headers.any fun f => decide (f.1 = cStr name.data)) =
        true := by
      simpa using hfound
    have hafter : (resp.addHeader name value false).headers =
        before ++ (cStr name.data, value) :: behind := by
      simp only [addHeader, hany, Bool.not_false, Bool.and_true, if_true, hover]
    have hget : resp.getHeader name = some old := by
      have hnone : before.find? (fun f => decide (f.1 = cStr name.data)) =
          none := by
        rw [List.find?_eq_none]
        exact fun f hf => by simpa using hbefore f hf
      simp [getHeader, hsplit, List.find?_append, hnone]
    rw [Replaceable, hget, hafter, hsplit]
    by_cases hkey : EqualFold (cStr name.data) name.chars
    · exact replaces_same name value hkey
    · exact replaces_other name value hkey
  · have hany : (resp.headers.any fun f => decide (f.1 = cStr name.data)) =
        false := by
      rw [List.any_eq_false]
      exact fun f hf hkey => hfound ⟨f, hf, of_decide_eq_true hkey⟩
    have hafter : (resp.addHeader name value false).headers =
        emplace name.chars value resp.headers := by
      simp only [addHeader, hany, Bool.and_false, Bool.false_eq_true, if_false]
    have hget : resp.getHeader name = none := by
      rw [getHeader, Option.map_eq_none_iff, List.find?_eq_none]
      intro f hf hkey
      exact hfound ⟨f, hf, of_decide_eq_true hkey⟩
    obtain ⟨before, behind, hsplit, hemplace, _⟩ :=
      emplace_split name.chars value resp.headers
    rw [Replaceable, hget, hafter, hemplace, hsplit]
    exact replaces_added name value

end AddHeader

/-- What a setter owes the fields. -/
def Setter.Obeys (resp : HttpResp) (call : Setter) : Prop :=
  match call.field? with
  | none => (call.exec resp).headers = resp.headers
  | some (name, value, true) =>
      Adds name.chars value resp.headers (call.exec resp).headers
  | some (name, value, false) =>
      Replaces name.chars value resp.headers (call.exec resp).headers

/-- When it can. -/
def Setter.Fits (resp : HttpResp) (call : Setter) : Prop :=
  match call.field? with
  | none => True
  | some (name, _, true) => resp.Addable name
  | some (name, value, false) => resp.Replaceable name value

theorem Setter.obeys_iff {resp : HttpResp} (hsorted : Sorted resp.headers)
    (call : Setter) : call.Obeys resp ↔ call.Fits resp := by
  rw [Setter.Obeys, Setter.Fits, call.exec_headers]
  match call.field? with
  | none => simp
  | some (name, value, true) => exact adds_iff resp name value hsorted
  | some (name, value, false) => exact replaces_iff resp name value

/-- What holds of every call and the response it finds. -/
def EveryCall (P : HttpResp → Setter → Prop) (calls : List Setter) : Prop :=
  ∀ before call behind, calls = before ++ call :: behind →
    P (build before) call

/-- In a sequence of calls, every single-valued field replaces what was there,
and every other field comes behind its values, exactly when each call finds at
most the one field that its name finds, and no value that is sorted behind. -/
theorem obeys_every_iff (calls : List Setter) :
    EveryCall (fun resp call => call.Obeys resp) calls ↔
      EveryCall (fun resp call => call.Fits resp) calls := by
  constructor
  · intro h before call behind hsplit
    exact (call.obeys_iff (build_sorted before)).mp (h before call behind hsplit)
  · intro h before call behind hsplit
    exact (call.obeys_iff (build_sorted before)).mpr (h before call behind hsplit)

/-- The type of the content in two spellings: both fields are sent. -/
theorem obeys_every_twice :
    ¬ EveryCall (fun resp call => call.Obeys resp)
      [.addHeader (.ofString (bytes "content-type")) (bytes "text/plain") false,
        .setContentType (bytes "text/html")] := by
  intro h
  obtain ⟨⟨_, hone⟩, _⟩ := h [_] _ [] rfl
  have hlength := (congrArg List.length hone).trans List.length_singleton
  revert hlength
  decide

end HttpResp

end Jerry
