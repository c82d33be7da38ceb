/-
Responses one after the other on a connection.  Their texts are a prefix-free
code, so a client that reads what `HttpServer` writes can tell them apart.
-/
import Jerry.HttpExchange
import Jerry.PrefixCode
import Jerry.Printf

namespace Jerry

open CString HttpReqDecoder

namespace HttpReqDecoder

section Lines

variable {l m x y : List UInt8} {ls ms : List (List UInt8)}

theorem Clean.takeWhile (h : Clean l) (x : List UInt8) :
    (l ++ (crlf ++ x)).takeWhile (· != cr) = l := by
  rw [List.takeWhile_append_of_pos fun c hc => bne_iff_ne.mpr (h c hc).1]
  exact List.append_nil l

theorem Clean.append (hl : Clean l) (hm : Clean m) : Clean (l ++ m) :=
  List.forall_mem_append.mpr ⟨hl, hm⟩

/-- A line ends at the first CRLF. -/
theorem Clean.cancel (hl : Clean l) (hm : Clean m)
    (heq : l ++ (crlf ++ x) = m ++ (crlf ++ y)) : l = m ∧ x = y := by
  have hsame : l = m := by
    rw [← hl.takeWhile x, heq, hm.takeWhile]
  subst hsame
  exact ⟨rfl, List.append_cancel_left (List.append_cancel_left heq)⟩

/-- Lines that are not empty end at the first empty one. -/
theorem lines_cancel (hls : ∀ l ∈ ls, Clean l ∧ l ≠ []) (hms : ∀ m ∈ ms, Clean m ∧ m ≠ [])
    (heq : ls.flatMap (· ++ crlf) ++ (crlf ++ x) =
      ms.flatMap (· ++ crlf) ++ (crlf ++ y)) : ls = ms ∧ x = y := by
  have hempty : Clean ([] : List UInt8) := List.forall_mem_nil _
  induction ls generalizing ms with
  | nil =>
      cases ms with
      | nil => exact ⟨rfl, (hempty.cancel hempty heq).2⟩
      | cons m ms =>
          obtain ⟨hm, hne⟩ := hms m List.mem_cons_self
          rw [List.flatMap_cons, List.append_assoc, List.append_assoc] at heq
          exact absurd (hempty.cancel hm heq).1.symm hne
  | cons l ls ih =>
      obtain ⟨hl, hne⟩ := hls l List.mem_cons_self
      rw [List.flatMap_cons, List.append_assoc, List.append_assoc] at heq
      cases ms with
      | nil => exact absurd (hl.cancel hempty heq).1 hne
      | cons m ms =>
          obtain ⟨hm, -⟩ := hms m List.mem_cons_self
          rw [List.flatMap_cons, List.append_assoc, List.append_assoc] at heq
          obtain ⟨rfl, hbehind⟩ := hl.cancel hm heq
          obtain ⟨rfl, rfl⟩ := ih (fun l' hl' => hls l' (List.mem_cons_of_mem _ hl'))
            (fun m' hm' => hms m' (List.mem_cons_of_mem _ hm')) hbehind
          exact ⟨rfl, rfl⟩

end Lines

end HttpReqDecoder

theorem toDecimal_injective : Function.Injective toDecimal :=
  Function.LeftInverse.injective Printf.value_toDecimal

namespace HttpResp

/-- What `ToString` can return for a response with clean fields. -/
def Texts : Set (List UInt8) :=
  { text | ∃ calls date, (∀ f ∈ (build calls).headers, CleanField f) ∧ Clean date ∧
    (build calls).toString date = .ok text }

/-- The lines of the head. -/
def lines (resp : HttpResp) (reason date : List UInt8) : List (List UInt8) :=
  (bytes "HTTP/1.1 " ++ toDecimal resp.statusCode.toNat ++ bytes " " ++ reason) ::
    (resp.fields date).map fun f => f.1 ++ bytes ": " ++ f.2

theorem text_lines (resp : HttpResp) (reason date : List UInt8) :
    resp.statusLine reason ++ resp.block date =
      (resp.lines reason date).flatMap (· ++ crlf) ++ (crlf ++ resp.body) := by
  have hwire : fieldWire = fun f => f.1 ++ bytes ": " ++ f.2 ++ crlf := rfl
  rw [lines, List.flatMap_cons, List.flatMap_map, statusLine, block, hwire]
  simp only [List.append_assoc]

theorem reason_clean {statusCode : UInt16} {reason : List UInt8}
    (hstatus : statusMap.lookup statusCode = some reason) : Clean reason := by
  have hall : (statusMap.all fun entry => entry.2.all fun c => c != cr && c != lf) = true := by
    decide +kernel
  obtain ⟨front, rest, hsplit, -⟩ := List.lookup_eq_some_iff.mp hstatus
  have hmem : (statusCode, reason) ∈ statusMap :=
    hsplit ▸ List.mem_append_right _ List.mem_cons_self
  intro c hc
  have hboth := List.all_eq_true.mp (List.all_eq_true.mp hall _ hmem) c hc
  rw [Bool.and_eq_true, bne_iff_ne, bne_iff_ne] at hboth
  exact hboth

theorem lines_clean {resp : HttpResp} {reason date : List UInt8}
    (hstatus : statusMap.lookup resp.statusCode = some reason)
    (hheaders : ∀ f ∈ resp.headers, CleanField f) (hdate : Clean date) :
    ∀ l ∈ resp.lines reason date, Clean l ∧ l ≠ [] := by
  have hfront : Clean (bytes "HTTP/1.1 ") ∧ Clean (bytes " ") := by
    decide +kernel
  have hcolon : Clean (bytes ": ") ∧ bytes ": " ≠ [] := by
    decide +kernel
  refine List.forall_mem_cons.mpr ⟨⟨?_, nofun⟩, fun l hl => ?_⟩
  · exact ((hfront.1.append (toDecimal_clean _)).append hfront.2).append
      (reason_clean hstatus)
  · obtain ⟨f, hf, rfl⟩ := List.mem_map.mp hl
    have hclean := fields_clean hheaders hdate f hf
    refine ⟨(hclean.name.append hcolon.1).append hclean.value, fun hnil => ?_⟩
    exact hcolon.2 (List.append_eq_nil_iff.mp (List.append_eq_nil_iff.mp hnil).1).2

/-- The head says how long the body is. -/
theorem lines_body {resp resp' : HttpResp} {reason reason' date date' : List UInt8}
    (heq : resp.lines reason date = resp'.lines reason' date') :
    resp.body.length = resp'.body.length := by
  have hfields := List.tail_eq_of_cons_eq heq
  rw [fields, fields, List.map_append, List.map_append] at hfields
  have hlast := List.append_inj_right' hfields rfl
  have hline := List.head_eq_of_cons_eq hlast
  exact toDecimal_injective (List.append_cancel_left hline)

/-- A text of a clean response is a list of lines and a body. -/
theorem exists_text_lines {resp : HttpResp} {date text : List UInt8}
    (hheaders : ∀ f ∈ resp.headers, CleanField f) (hdate : Clean date)
    (htext : resp.toString date = .ok text) :
    ∃ reason, text = (resp.lines reason date).flatMap (· ++ crlf) ++
        (crlf ++ resp.body) ∧
      ∀ l ∈ resp.lines reason date, Clean l ∧ l ≠ [] := by
  cases hstatus : statusMap.lookup resp.statusCode with
  | none =>
      rw [toString, hstatus] at htext
      cases htext
  | some reason =>
      rw [toString_eq hstatus, text_lines] at htext
      exact ⟨reason, (Except.ok.inj htext).symm, lines_clean hstatus hheaders hdate⟩

/-- No text is the front of another one. -/
theorem texts_prefixFree : PrefixFree Texts := by
  rintro text ⟨calls, date, hheaders, hdate, htext⟩ text' ⟨calls', date', hheaders',
    hdate', htext'⟩ ⟨rest, hprefix⟩
  obtain ⟨reason, rfl, hlines⟩ := exists_text_lines hheaders hdate htext
  obtain ⟨reason', rfl, hlines'⟩ := exists_text_lines hheaders' hdate' htext'
  rw [List.append_assoc, List.append_assoc] at hprefix
  obtain ⟨hsame, hbody⟩ := lines_cancel hlines hlines' hprefix
  -- the two heads announce the same length, so nothing is left
  have hlength := congrArg List.length hbody
  rw [List.length_append, lines_body hsame] at hlength
  have hrest : rest = [] := List.length_eq_zero_iff.mp (by omega)
  rw [hsame, ← hbody, hrest, List.append_nil]

theorem nil_notMem_texts : [] ∉ Texts := by
  rintro ⟨calls, date, hheaders, hdate, htext⟩
  obtain ⟨reason, hnil, -⟩ := exists_text_lines hheaders hdate htext
  have hcrlf := (List.append_eq_nil_iff.mp hnil.symm).2
  cases hcrlf

end HttpResp

namespace HttpSession

open HttpResp

/-- The handler adds clean fields, and the date is one line. -/
def Op.RepliesClean : Op → Prop
  | .handleEvent _ _ calls date =>
      (∀ f ∈ (build calls).headers, CleanField f) ∧ Clean date
  | _ => True

instance : ∀ op : Op, Decidable op.RepliesClean
  | .handleEvent _ _ _ _ => inferInstanceAs (Decidable (_ ∧ _))
  | .shutdown _ | .forceClose => isTrue trivial

variable {s : HttpSession} {op : Op} {calls : List Setter} {date : List UInt8}

theorem onTcpReceivedData_texts (h : ∀ a ∈ s.answers, a.text ∈ Texts)
    (hheaders : ∀ f ∈ (build calls).headers, CleanField f) (hdate : Clean date) :
    ∀ a ∈ (s.onTcpReceivedData calls date).answers, a.text ∈ Texts := by
  rw [onTcpReceivedData]
  split
  · exact h
  · exact h
  · simp only
    split
    · exact h
    · rename_i htext
      exact List.forall_mem_append.mpr ⟨h, List.forall_mem_singleton.mpr
        ⟨calls, date, hheaders, hdate, htext⟩⟩

theorem exec_texts (h : ∀ a ∈ s.answers, a.text ∈ Texts) (hop : op.RepliesClean) :
    ∀ a ∈ (s.exec op).answers, a.text ∈ Texts := by
  cases op with
  | handleEvent events o calls date =>
      rw [exec]
      simp only
      split
      · exact onTcpReceivedData_texts h hop.1 hop.2
      · exact h
  | shutdown o => exact h
  | forceClose => exact h

end HttpSession

namespace HttpExchange

open HttpSession

instance (x : HttpExchange) (op : Op) :
    Decidable ((httpExchangeMachine.guard fun x op =>
      x.Orderly op ∧ op.RepliesClean).enabled x op) :=
  inferInstanceAs (Decidable (op.connOp.Enabled x.server.conn ∧
    x.Orderly op ∧ op.RepliesClean))

end HttpExchange

end Jerry
