/-
`logger/Logger`: the time at the front of a log message.  The text up to the
second is kept from one call to the next.
-/
import Jerry.DateTime
import Jerry.Machine

namespace Jerry

open Calendar CString DateTime Printf

/-- `struct timeval`, a reading of `gettimeofday`. -/
structure Timeval where
  tvSec : Int
  tvUsec : Int
deriving DecidableEq, Repr

/-- The static variables of `FormatNowString`. -/
structure NowString where
  lastSecond : Int
  prefixOfTime : List UInt8
  size : prefixOfTime.length = 21
deriving DecidableEq, Repr

namespace NowString

def init : NowString :=
  { lastSecond := 0
    prefixOfTime := List.replicate 21 0
    size := List.length_replicate }

/-- Format when seconds changed. -/
def refresh (s : NowString) (tv : Timeval) : NowString :=
  if s.lastSecond ≠ tv.tvSec then
    { lastSecond := tv.tvSec
      prefixOfTime :=
        snprintf s.prefixOfTime 21 (secondsText (gmtime tv.tvSec))
      size := (snprintf_length _ _ _).trans s.size }
  else s

/-- `FormatNowString` on the memory at `buffer`. -/
def formatNowString (s : NowString) (tv : Timeval) (buffer : List UInt8) :
    NowString × List UInt8 :=
  let s := s.refresh tv
  let buffer := snprintf buffer 27
    (cStr s.prefixOfTime ++ field zero 6 (unsigned (tv.tvUsec.tdiv 1000)))
  (s, Window.overwrite buffer 26 (bytes " "))

end NowString

/-- A call of `FormatNowString`: what the clock shows, and the memory it gets. -/
structure NowCall where
  tv : Timeval
  buffer : List UInt8
deriving DecidableEq, Repr

namespace NowCall

/-- The clock shows a time from 1970 to 9999, and the message has its slot. -/
structure Enabled (call : NowCall) : Prop where
  epoch : 0 ≤ call.tv.tvSec
  year : (CivilTime.ofSeconds call.tv.tvSec).date.year ≤ 9999
  usec_nonneg : 0 ≤ call.tv.tvUsec
  usec_lt : call.tv.tvUsec < 1000000
  slot : 27 ≤ call.buffer.length

instance (call : NowCall) : Decidable call.Enabled :=
  decidable_of_iff
    ((0 ≤ call.tv.tvSec ∧
      (CivilTime.ofSeconds call.tv.tvSec).date.year ≤ 9999) ∧
      (0 ≤ call.tv.tvUsec ∧ call.tv.tvUsec < 1000000) ∧
      27 ≤ call.buffer.length)
    ⟨fun h => ⟨h.1.1, h.1.2, h.2.1.1, h.2.1.2, h.2.2⟩,
      fun h => ⟨⟨h.epoch, h.year⟩, ⟨h.usec_nonneg, h.usec_lt⟩, h.slot⟩⟩

/-- The instant of the call, in whole milliseconds. -/
def instant (call : NowCall) : Int :=
  call.tv.tvSec * 1000000 + call.tv.tvUsec / 1000 * 1000

/-- The message begins with the text of that instant and a space, and is
otherwise as it was. -/
def Agrees (s : NowString) (call : NowCall) : Prop :=
  let after := (s.formatNowString call.tv call.buffer).2
  after.take 26 = DateTime.toString call.instant ∧ after[26]? = some space ∧
    after.drop 27 = call.buffer.drop 27

instance (s : NowString) (call : NowCall) : Decidable (call.Agrees s) :=
  inferInstanceAs (Decidable (_ ∧ _ ∧ _))

end NowCall

/-- `FormatNowString`, called again and again. -/
def nowMachine : Machine NowString NowCall where
  enabled _ call := call.Enabled
  next s call := (s.formatNowString call.tv call.buffer).1

namespace NowString

variable {s : NowString} {call : NowCall} {calls : List NowCall}

/-- The prefix is that of the last second. -/
def Filled (s : NowString) : Prop :=
  cStr s.prefixOfTime = secondsText (gmtime s.lastSecond)

theorem refresh_filled (hcall : call.Enabled)
    (h : s.Filled ∨ call.tv.tvSec ≠ s.lastSecond) :
    (s.refresh call.tv).Filled ∧ (s.refresh call.tv).lastSecond = call.tv.tvSec := by
  unfold refresh
  split
  · refine ⟨?_, rfl⟩
    rw [Filled, cStr_snprintf (by decide) (Nat.le_of_eq s.size.symm)
        (zero_not_mem_secondsText _),
      List.take_of_length_le
        (Nat.le_of_eq (secondsText_length hcall.epoch hcall.year))]
  · rename_i hsame
    have heq := Decidable.not_not.mp hsame
    exact ⟨h.resolve_right fun hne => hne heq.symm, heq⟩

/-- The message behind a call whose text fits into its slot. -/
theorem formatNowString_snd (s : NowString) (hslot : 27 ≤ call.buffer.length)
    {text : List UInt8}
    (htext : cStr (s.refresh call.tv).prefixOfTime ++
      field zero 6 (unsigned (call.tv.tvUsec.tdiv 1000)) = text)
    (hlength : text.length ≤ 26) :
    let after := (s.formatNowString call.tv call.buffer).2
    after.take 26 = (text ++ 0 :: call.buffer.drop (text.length + 1)).take 26 ∧
      after[26]? = some space ∧ after.drop 27 = call.buffer.drop 27 := by
  intro after
  have hbuffer : snprintf call.buffer 27 text =
      text ++ 0 :: call.buffer.drop (text.length + 1) := by
    rw [snprintf_eq (by decide) hslot, List.take_of_length_le hlength]
  have hsize : 26 + (bytes " ").length ≤ (snprintf call.buffer 27 text).length := by
    rw [snprintf_length]
    exact hslot
  have hrest : (snprintf call.buffer 27 text).drop 27 = call.buffer.drop 27 := by
    rw [hbuffer, List.drop_append, List.drop_of_length_le (by omega),
      List.nil_append, show 27 - text.length = (26 - text.length) + 1 by omega,
      List.drop_succ_cons, List.drop_drop]
    congr 1
    omega
  have hafter : after = Window.overwrite (snprintf call.buffer 27 text) 26
      (bytes " ") := by
    rw [← htext]
    rfl
  have hdrop : after.drop 26 = space :: call.buffer.drop 27 := by
    rw [hafter, Window.drop_overwrite hsize]
    exact congrArg (space :: ·) hrest
  refine ⟨?_, ?_, ?_⟩
  · rw [hafter, Window.take_overwrite (Nat.le_of_lt hsize), hbuffer]
  · have hhead := congrArg List.head? hdrop
    rwa [List.head?_drop] at hhead
  · have htail := congrArg List.tail hdrop
    rwa [List.tail_drop] at htail

/-- A filled prefix: everything agrees but the fraction, which is printed as a
number of milliseconds in six digits. -/
theorem agrees_filled_iff (hcall : call.Enabled)
    (h : s.Filled ∨ call.tv.tvSec ≠ s.lastSecond) :
    call.Agrees s ↔ call.tv.tvUsec < 1000 := by
  obtain ⟨hfilled, hlast⟩ := refresh_filled hcall h
  have hlow := hcall.usec_nonneg
  have hhigh := hcall.usec_lt
  have hepoch := hcall.epoch
  have hms : unsigned (call.tv.tvUsec.tdiv 1000) =
      (call.tv.tvUsec / 1000).toNat := by
    rw [Int.tdiv_eq_ediv_of_nonneg hlow]
    unfold unsigned
    omega
  have hinstant : 0 ≤ call.instant := by
    unfold NowCall.instant
    omega
  have hsec : call.instant / 1000000 = call.tv.tvSec := by
    unfold NowCall.instant
    omega
  have hus : (call.instant % 1000000).toNat =
      (call.tv.tvUsec / 1000).toNat * 1000 := by
    unfold NowCall.instant
    omega
  have htext : cStr (s.refresh call.tv).prefixOfTime ++
      field zero 6 (unsigned (call.tv.tvUsec.tdiv 1000)) =
      secondsText (gmtime call.tv.tvSec) ++
        field zero 6 (call.tv.tvUsec / 1000).toNat := by
    rw [hfilled, hlast, hms]
  have hlength : (secondsText (gmtime call.tv.tvSec) ++
      field zero 6 (call.tv.tvUsec / 1000).toNat).length = 26 := by
    rw [List.length_append, secondsText_length hepoch hcall.year,
      field_length] <;> omega
  obtain ⟨htake, hspace, hrest⟩ := formatNowString_snd s hcall.slot htext
    (Nat.le_of_eq hlength)
  have hplain : DateTime.toString call.instant =
      secondsText (gmtime call.tv.tvSec) ++
        field zero 6 ((call.tv.tvUsec / 1000).toNat * 1000) := by
    rw [toString_eq hinstant (by rw [hsec]; exact hcall.year), hsec, hus]
  rw [NowCall.Agrees]
  simp only [htake, hspace, hrest, and_true, hplain, List.take_left' hlength,
    List.append_cancel_left_eq]
  rw [(field_injective 6).eq_iff]
  omega

/-- At the start the prefix of second 0 is taken to be there, and is empty. -/
theorem not_agrees_init (hcall : call.Enabled) (hzero : call.tv.tvSec = 0) :
    ¬ call.Agrees init := by
  have hlow := hcall.usec_nonneg
  have hhigh := hcall.usec_lt
  have hms : unsigned (call.tv.tvUsec.tdiv 1000) < 10 ^ 6 := by
    rw [Int.tdiv_eq_ediv_of_nonneg hlow]
    unfold unsigned
    omega
  have hsame : init.refresh call.tv = init := by
    have hlast : init.lastSecond = call.tv.tvSec := hzero.symm
    rw [refresh, if_neg (Decidable.not_not.mpr hlast)]
  have htext : cStr (init.refresh call.tv).prefixOfTime ++
      field zero 6 (unsigned (call.tv.tvUsec.tdiv 1000)) =
      field zero 6 (unsigned (call.tv.tvUsec.tdiv 1000)) := by
    rw [hsame]
    rfl
  have hlength := field_length zero (by decide : 0 < 6) hms
  obtain ⟨htake, -, -⟩ := formatNowString_snd init hcall.slot htext
    (by rw [hlength]; decide)
  rintro ⟨hagrees, -, -⟩
  rw [htake] at hagrees
  -- the terminator stays in the slot
  have hnul : (0 : UInt8) ∈ DateTime.toString call.instant := by
    rw [← hagrees, List.take_append, hlength]
    exact List.mem_append_right _ List.mem_cons_self
  exact mem_cStr_ne_zero hnul rfl

theorem next_filled (hcall : call.Enabled)
    (h : s.Filled ∨ call.tv.tvSec ≠ s.lastSecond) :
    (s.formatNowString call.tv call.buffer).1.Filled :=
  (refresh_filled hcall h).1

/-- Once the prefix is filled it stays so, whichever way the clock jumps. -/
theorem run_agrees_iff {s t : NowString} (hrun : nowMachine.Run s calls t)
    (h : s.Filled) :
    (nowMachine.guard NowCall.Agrees).Run s calls t ↔
      ∀ call ∈ calls, call.tv.tvUsec < 1000 := by
  induction hrun with
  | nil s => exact iff_of_true (.nil s) (List.forall_mem_nil _)
  | @cons s t call calls hcall _ ih =>
      have hfilled := next_filled hcall (Or.inl h)
      rw [List.forall_mem_cons, ← agrees_filled_iff hcall (Or.inl h),
        ← ih hfilled]
      constructor
      · intro hguard
        cases hguard with
        | cons hboth hrest => exact ⟨hboth.2, hrest⟩
      · rintro ⟨hagrees, hrest⟩
        exact .cons ⟨hcall, hagrees⟩ hrest

/-- All calls of a sequence agree with `ToString` exactly if every reading is in
the first millisecond of its second and the first one is not in second 0. -/
theorem formatNowString_agrees_iff (hrun : nowMachine.Run init calls s) :
    (nowMachine.guard NowCall.Agrees).Run init calls s ↔
      (∀ call ∈ calls, call.tv.tvUsec < 1000) ∧
        ∀ call ∈ calls.head?, call.tv.tvSec ≠ 0 := by
  cases hrun with
  | nil => exact iff_of_true (.nil _) ⟨List.forall_mem_nil _, nofun⟩
  | @cons _ _ call calls hcall hrest =>
      by_cases hzero : call.tv.tvSec = 0
      · apply iff_of_false
        · intro hguard
          cases hguard with
          | cons hboth _ => exact not_agrees_init hcall hzero hboth.2
        · exact fun h => h.2 call rfl hzero
      · have hne : init.Filled ∨ call.tv.tvSec ≠ init.lastSecond := Or.inr hzero
        have hfilled := next_filled hcall hne
        rw [List.forall_mem_cons, ← agrees_filled_iff hcall hne,
          ← run_agrees_iff hrest hfilled]
        constructor
        · intro hguard
          cases hguard with
          | cons hboth hrest => exact ⟨⟨hboth.2, hrest⟩, fun c hc => by
              cases hc
              exact hzero⟩
        · rintro ⟨⟨hagrees, hrest⟩, _⟩
          exact .cons ⟨hcall, hagrees⟩ hrest

/-- The second is read again, then one of a leap day, then the first second. -/
theorem formatNowString_agrees_iff_jumps :
    let msg := bytes "0000-00-00 00:00:00.000000 [INFO] ready"
    let calls : List NowCall :=
      [⟨⟨1632039625, 17⟩, msg⟩, ⟨⟨1632039625, 999⟩, msg⟩,
        ⟨⟨951786000, 0⟩, msg⟩, ⟨⟨0, 5⟩, msg⟩]
    (nowMachine.guard NowCall.Agrees).Run init calls
      (calls.foldl nowMachine.next init) := by
  intro msg calls
  have hrun : nowMachine.Run init calls (calls.foldl nowMachine.next init) :=
    .cons (by decide +kernel : NowCall.Enabled _)
    (.cons (by decide +kernel : NowCall.Enabled _)
    (.cons (by decide +kernel : NowCall.Enabled _)
    (.cons (by decide +kernel : NowCall.Enabled _) (.nil _))))
  exact (formatNowString_agrees_iff hrun).mpr
    ⟨by decide +kernel, by decide +kernel⟩

/-- The milliseconds of a reading are printed where the microseconds belong, and
the first reading of second 0 leaves a NUL in the middle of the time. -/
theorem formatNowString_agrees_iff_milliseconds :
    (init.formatNowString ⟨1632039625, 944865⟩
        (bytes "0000-00-00 00:00:00.000000 [INFO] ready")).2 =
      bytes "2021-09-19 16:20:25.000944 [INFO] ready" ∧
    DateTime.toString 1632039625944000 = bytes "2021-09-19 16:20:25.944000" ∧
    (init.formatNowString ⟨0, 5⟩
        (bytes "0000-00-00 00:00:00.000000 [INFO] ready")).2 =
      bytes "000000" ++ 0 :: bytes "-00 00:00:00.000000 [INFO] ready" ∧
    ¬ ∀ (calls : List NowCall) (s : NowString), nowMachine.Run init calls s →
        (nowMachine.guard NowCall.Agrees).Run init calls s := by
  refine ⟨by decide +kernel, by decide +kernel, by decide +kernel, fun h => ?_⟩
  let call : NowCall := ⟨⟨1632039625, 944865⟩,
    bytes "0000-00-00 00:00:00.000000 [INFO] ready"⟩
  have hcall : call.Enabled := by decide +kernel
  have hguard := h [call] _ (.cons hcall (.nil _))
  cases hguard with
  | cons hboth _ => exact absurd hboth.2 (by decide +kernel)

end NowString

end Jerry
