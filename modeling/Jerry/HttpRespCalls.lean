/-
What the calls on a response add up to, said without the multimap: the fields in
the order in which they are added, sorted by name at the end.
-/
import Jerry.HttpRespFields
import Mathlib.Data.List.Sort

namespace Jerry

open CString

namespace HttpResp

/-- Fields of one name stay in the order they have. -/
def NotBehind (f g : Field) : Prop :=
  ¬ g.1 < f.1

instance : DecidableRel NotBehind :=
  fun _ _ => inferInstanceAs (Decidable (¬ _))

/-- A field of its own, or a new value for the first field that has the key. -/
def Setter.write (fields : List Field) (call : Setter) : List Field :=
  match call.field? with
  | none => fields
  | some (name, value, multiple) =>
      let key := cStr name.data
      if multiple = true ∨ ∀ f ∈ fields, f.1 ≠ key then
        fields ++ [(name.chars, value)]
      else fields.set (fields.findIdx fun f => decide (f.1 = key)) (key, value)

/-- The fields, sorted by name. -/
def written (calls : List Setter) : List Field :=
  (calls.foldl Setter.write []).insertionSort NotBehind

/-- The last status. -/
def writtenStatus (calls : List Setter) : UInt16 :=
  calls.foldl (fun statusCode call => match call with
    | .setStatus statusCode => statusCode
    | .setRedirect _ statusCode => statusCode
    | _ => statusCode) 200

/-- The last body that was set, and what was appended to it. -/
def writtenBody (calls : List Setter) : List UInt8 :=
  calls.foldl (fun body call => match call with
    | .setBody body => body
    | .appendBody more => body ++ more
    | _ => body) []

section Sorting

variable {key name value : List UInt8} {f : Field} {fields : List Field}

/-- A field that goes before its equals and one that goes behind them. -/
theorem orderedInsert_emplace (f : Field) (name value : List UInt8)
    (fields : List Field) :
    (emplace name value fields).orderedInsert NotBehind f =
      emplace name value (fields.orderedInsert NotBehind f) := by
  induction fields with
  | nil =>
      simp only [emplace, List.orderedInsert_nil, List.orderedInsert_cons, NotBehind]
      by_cases hlt : name < f.1
      · rw [if_neg (not_not.mpr hlt), if_pos hlt]
      · rw [if_pos hlt, if_neg hlt]
  | cons g fields ih =>
      by_cases hnew : name < g.1
      · rw [emplace, if_pos hnew]
        by_cases hbehind : g.1 < f.1
        · have hlt : name < f.1 := lt_of_lt_of_not_lt hnew (asymm hbehind)
          simp only [List.orderedInsert_cons, NotBehind, hlt, hbehind, emplace, hnew,
            not_true, if_true, if_false]
        · by_cases hlt : name < f.1
          · simp only [List.orderedInsert_cons, NotBehind, hlt, hbehind, emplace,
              not_true, not_false_eq_true, if_true, if_false]
          · simp only [List.orderedInsert_cons, NotBehind, hlt, hbehind, emplace, hnew,
              not_false_eq_true, if_true, if_false]
      · rw [emplace, if_neg hnew]
        by_cases hbehind : g.1 < f.1
        · simp only [List.orderedInsert_cons, NotBehind, hbehind, emplace, hnew,
            not_true, if_false, ih]
        · have hlt : ¬ name < f.1 := fun hlt =>
            hnew (lt_of_lt_of_not_lt hlt hbehind)
          simp only [List.orderedInsert_cons, NotBehind, hlt, hbehind, emplace, hnew,
            not_false_eq_true, if_true, if_false]

theorem emplace_insertionSort (name value : List UInt8) (fields : List Field) :
    emplace name value (fields.insertionSort NotBehind) =
      (fields ++ [(name, value)]).insertionSort NotBehind := by
  induction fields with
  | nil => rfl
  | cons f fields ih =>
      rw [List.cons_append, List.insertionSort_cons, List.insertionSort_cons, ← ih,
        orderedInsert_emplace]

/-- The field goes before the others of its name, so it is the first of them. -/
theorem overwriteValue_orderedInsert (hkey : f.1 = key) :
    overwriteValue key value (fields.orderedInsert NotBehind f) =
      fields.orderedInsert NotBehind (key, value) := by
  induction fields with
  | nil => simp only [List.orderedInsert_nil, overwriteValue, hkey, if_true]
  | cons g fields ih =>
      by_cases hbehind : g.1 < key
      · have hne : g.1 ≠ key := ne_of_irrefl hbehind
        simp only [List.orderedInsert_cons, NotBehind, hkey, hbehind, overwriteValue,
          hne, not_true, if_false, ih]
      · simp only [List.orderedInsert_cons, NotBehind, hkey, hbehind, overwriteValue,
          not_false_eq_true, if_true]

/-- The field has another name. -/
theorem overwriteValue_orderedInsert_of_ne (hkey : f.1 ≠ key) :
    overwriteValue key value (fields.orderedInsert NotBehind f) =
      (overwriteValue key value fields).orderedInsert NotBehind f := by
  induction fields with
  | nil => simp only [List.orderedInsert_nil, overwriteValue, hkey, if_false]
  | cons g fields ih =>
      by_cases hbehind : g.1 < f.1
      · by_cases hsame : g.1 = key
        · rw [hsame] at hbehind
          simp only [List.orderedInsert_cons, NotBehind, hbehind, overwriteValue, hsame,
            not_true, if_true, if_false]
        · simp only [List.orderedInsert_cons, NotBehind, hbehind, overwriteValue, hsame,
            not_true, if_false, ih]
      · by_cases hsame : g.1 = key
        · rw [hsame] at hbehind
          simp only [List.orderedInsert_cons, NotBehind, hbehind, overwriteValue, hsame,
            hkey, not_false_eq_true, if_true, if_false]
        · simp only [List.orderedInsert_cons, NotBehind, hbehind, overwriteValue, hsame,
            hkey, not_false_eq_true, if_true, if_false]

/-- The first field with the key is the first in the order of the names too. -/
theorem overwriteValue_insertionSort (key value : List UInt8) (fields : List Field) :
    overwriteValue key value (fields.insertionSort NotBehind) =
      (fields.set (fields.findIdx fun f => decide (f.1 = key))
        (key, value)).insertionSort NotBehind := by
  induction fields with
  | nil => rfl
  | cons f fields ih =>
      by_cases hkey : f.1 = key
      · rw [List.findIdx_cons, decide_eq_true hkey, cond_true, List.set_cons_zero,
          List.insertionSort_cons, List.insertionSort_cons,
          overwriteValue_orderedInsert hkey]
      · rw [List.findIdx_cons, decide_eq_false hkey, cond_false, List.set_cons_succ,
          List.insertionSort_cons, List.insertionSort_cons, ← ih,
          overwriteValue_orderedInsert_of_ne hkey]

end Sorting

/-- The step lemma. -/
theorem Setter.exec_write {resp : HttpResp} {fields : List Field}
    (h : resp.headers = fields.insertionSort NotBehind) (call : Setter) :
    (call.exec resp).headers =
      (Setter.write fields call).insertionSort NotBehind := by
  rw [call.exec_headers, Setter.write]
  cases call.field? with
  | none => exact h
  | some field =>
      obtain ⟨name, value, multiple⟩ := field
      have hany : (resp.headers.any fun f => decide (f.1 = cStr name.data)) = false ↔
          ∀ f ∈ fields, f.1 ≠ cStr name.data := by
        have hmem (f : Field) : f ∈ resp.headers ↔ f ∈ fields := by
          rw [h]
          exact (List.perm_insertionSort NotBehind fields).mem_iff
        simp only [List.any_eq_false, hmem, decide_eq_true_eq, ne_eq]
      have hheaders : (resp.addHeader name value multiple).headers =
          if !multiple && resp.headers.any fun f => decide (f.1 = cStr name.data) then
            overwriteValue (cStr name.data) value resp.headers
          else emplace name.chars value resp.headers := rfl
      simp only [hheaders]
      by_cases hnew : multiple = true ∨ ∀ f ∈ fields, f.1 ≠ cStr name.data
      · have hno : (!multiple && resp.headers.any
            fun f => decide (f.1 = cStr name.data)) = false := by
          rcases hnew with hnew | hnew
          · rw [hnew, Bool.not_true, Bool.false_and]
          · rw [hany.mpr hnew, Bool.and_false]
        simp only [hno, hnew, Bool.false_eq_true, if_true, if_false]
        rw [h, emplace_insertionSort]
      · obtain ⟨hone, hfound⟩ := not_or.mp hnew
        have hyes : (!multiple && resp.headers.any
            fun f => decide (f.1 = cStr name.data)) = true := by
          rw [Bool.eq_false_iff.mpr hone, Bool.not_false, Bool.true_and]
          exact Bool.ne_false_iff.mp fun hnone => hfound (hany.mp hnone)
        simp only [hyes, hnew, if_true, if_false]
        rw [h, overwriteValue_insertionSort]

/-- The run lemma: what a handler leaves behind. -/
theorem build_eq (calls : List Setter) :
    build calls = ⟨written calls, writtenStatus calls, writtenBody calls⟩ := by
  induction calls using List.reverseRecOn with
  | nil => rfl
  | append_singleton calls call ih =>
      have hheaders : (call.exec (build calls)).headers = written (calls ++ [call]) := by
        rw [written, List.foldl_append]
        exact Setter.exec_write (congrArg HttpResp.headers ih) call
      have hstatus : (call.exec (build calls)).statusCode =
          writtenStatus (calls ++ [call]) := by
        rw [writtenStatus, List.foldl_append, ← writtenStatus, ih]
        cases call <;> rfl
      have hbody : (call.exec (build calls)).body = writtenBody (calls ++ [call]) := by
        rw [writtenBody, List.foldl_append, ← writtenBody, ih]
        cases call <;> rfl
      rw [build_append, ← hheaders, ← hstatus, ← hbody]

end HttpResp

end Jerry
