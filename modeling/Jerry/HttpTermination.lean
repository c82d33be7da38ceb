/-
`Decode` comes to an end: the passes of its two loops one after the other, and
the positions that are handed to `DropBytesUntil`.
-/
import Jerry.HttpBounds
import Jerry.Loop

namespace Jerry

open CString Search Window HttpReqDecoder Loop

/-- The order in which a call goes through the states. -/
def HttpReqDecoder.State.rank : State → Nat
  | .expectRequestLine => 0
  | .expectHeaders => 1
  | .expectBody => 2
  | .parseFinished => 3

namespace HttpReqDecoder

/-- The decoder at the beginning of the next pass of the loop in `Decode`, unless
the call returns or fails in this one. -/
def nextRound (d : HttpReqDecoder) : Option HttpReqDecoder :=
  match d.state with
  | .expectRequestLine =>
      if d.req.headers.entries ≠ [] ∨ d.req.body ≠ [] then none
      else
        match parseRequestLine d with
        | .ok (true, d) => some d
        | _ => none
  | .expectHeaders =>
      match parseHeaders d with
      | .ok (true, d) => some d
      | _ => none
  | .expectBody => some (parseBody d)
  | .parseFinished => none

/-- The same for the loop in `ParseHeaders`. -/
def nextPass (d : HttpReqDecoder) : Option HttpReqDecoder :=
  match atEndOfHeaders d.buffer.memory with
  | some false =>
      match parseHeader d with
      | .ok (true, d) => some d
      | _ => none
  | _ => none

/-- The position that `ParseRequestLine` hands to `DropBytesUntil`. -/
def requestLineDrop (d : HttpReqDecoder) : Option Nat :=
  let readable := d.buffer.toStringView
  let sp1 := readable.idxOf sp
  if sp1 = readable.length then none
  else
    match methodMap.lookup (readable.take sp1) with
    | none => none
    | some _ =>
        let sp2 := sp1 + 1 + (readable.drop (sp1 + 1)).idxOf sp
        if sp2 = readable.length then none
        else
          let eol := sp2 + 1 + search crlf (readable.drop (sp2 + 1))
          if eol = readable.length then none
          else
            match versionMap.lookup (slice readable (sp2 + 1) eol) with
            | none => none
            | some _ => some (d.buffer.readIdx + (eol + 2))

/-- The position that a pass of `ParseHeaders` hands to it. -/
def headerDrop (d : HttpReqDecoder) : Option Nat :=
  let readable := d.buffer.toStringView
  let col := readable.idxOf colon
  if col = readable.length then none
  else
    let eol := col + 1 + search crlf (readable.drop (col + 1))
    if eol = readable.length then none
    else some (d.buffer.readIdx + (eol + 2))

variable {d d' : HttpReqDecoder}

section Adequacy

/-- How a round goes on. -/
theorem nextRound_cases (h : nextRound d = some d') :
    (d.state = .expectRequestLine ∧
      ¬ (d.req.headers.entries ≠ [] ∨ d.req.body ≠ []) ∧
      parseRequestLine d = .ok (true, d')) ∨
    (d.state = .expectHeaders ∧ parseHeaders d = .ok (true, d')) ∨
    (d.state = .expectBody ∧ d' = parseBody d) := by
  unfold nextRound at h
  split at h
  · rename_i hstate
    split at h
    · cases h
    · rename_i hclear
      split at h
      · rename_i hline
        cases h
        exact Or.inl ⟨hstate, hclear, hline⟩
      · cases h
  · rename_i hstate
    split at h
    · rename_i hheaders
      cases h
      exact Or.inr (Or.inl ⟨hstate, hheaders⟩)
    · cases h
  · rename_i hstate
    cases h
    exact Or.inr (Or.inr ⟨hstate, rfl⟩)
  · cases h

/-- How a pass goes on. -/
theorem nextPass_cases (h : nextPass d = some d') :
    atEndOfHeaders d.buffer.memory = some false ∧
      parseHeader d = .ok (true, d') := by
  unfold nextPass at h
  split at h
  · rename_i hend
    split at h
    · rename_i hheader
      cases h
      exact ⟨hend, hheader⟩
    · cases h
  · cases h

/-- The loop of `Decode` in terms of its passes. -/
theorem decodeLoop_of_nextRound (fuel : Nat) (h : nextRound d = some d') :
    decodeLoop (fuel + 1) d = decodeLoop fuel d' := by
  rw [decodeLoop]
  rcases nextRound_cases h with
    ⟨hstate, hclear, hline⟩ | ⟨hstate, hheaders⟩ | ⟨hstate, rfl⟩
  · simp only [hstate, if_neg hclear, hline]
  · simp only [hstate, hheaders]
  · simp only [hstate]

/-- The loop of `ParseHeaders` in terms of its passes. -/
theorem parseHeadersLoop_of_nextPass (fuel : Nat) (h : nextPass d = some d') :
    parseHeadersLoop (fuel + 1) d = parseHeadersLoop fuel d' := by
  obtain ⟨hend, hheader⟩ := nextPass_cases h
  simp only [parseHeadersLoop, hend, hheader]

/-- A request line that is taken is dropped up to that position, and nothing else
is handed to `DropBytesUntil`. -/
theorem parseRequestLine_of_drop {pos : Nat} (h : requestLineDrop d = some pos) :
    ∃ req, parseRequestLine d =
      match d.buffer.dropBytesUntil pos with
      | none => .error .endless
      | some buffer => .ok (true,
          { d with req := req, state := .expectHeaders, buffer := buffer }) := by
  unfold requestLineDrop at h
  unfold parseRequestLine
  simp only at h ⊢
  split at h
  · cases h
  · rename_i hsp1
    rw [if_neg hsp1]
    generalize methodMap.lookup _ = method at h ⊢
    cases method with
    | none => cases h
    | some method =>
        simp only at h ⊢
        split at h
        · cases h
        · rename_i hsp2
          rw [if_neg hsp2]
          split at h
          · cases h
          · rename_i heol
            rw [if_neg heol]
            generalize versionMap.lookup _ = version at h ⊢
            cases version with
            | none => cases h
            | some version =>
                cases h
                exact ⟨_, rfl⟩

theorem parseRequestLine_of_no_drop (h : requestLineDrop d = none) :
    parseRequestLine d = .error .outOfRange ∨
      ∃ d', parseRequestLine d = .ok (false, d') := by
  unfold requestLineDrop at h
  unfold parseRequestLine
  simp only at h ⊢
  split at h
  · rename_i hsp1
    rw [if_pos hsp1]
    right
    split
    · exact ⟨_, rfl⟩
    · exact ⟨_, rfl⟩
  · rename_i hsp1
    rw [if_neg hsp1]
    generalize methodMap.lookup _ = method at h ⊢
    cases method with
    | none => exact Or.inr ⟨_, rfl⟩
    | some method =>
        simp only at h ⊢
        split at h
        · rename_i hsp2
          rw [if_pos hsp2]
          exact Or.inr ⟨_, rfl⟩
        · rename_i hsp2
          rw [if_neg hsp2]
          split at h
          · rename_i heol
            rw [if_pos heol]
            exact Or.inr ⟨_, rfl⟩
          · rename_i heol
            rw [if_neg heol]
            generalize versionMap.lookup _ = version at h ⊢
            cases version with
            | none => exact Or.inl rfl
            | some version => cases h

theorem parseHeader_of_drop {pos : Nat} (h : headerDrop d = some pos) :
    ∃ req, parseHeader d =
      match d.buffer.dropBytesUntil pos with
      | none => .error .endless
      | some buffer => .ok (true, { d with req := req, buffer := buffer }) := by
  unfold headerDrop at h
  unfold parseHeader
  simp only at h ⊢
  split at h
  · cases h
  · rename_i hcol
    rw [if_neg hcol]
    split at h
    · cases h
    · rename_i heol
      rw [if_neg heol]
      cases h
      exact ⟨_, rfl⟩

theorem parseHeader_of_no_drop (h : headerDrop d = none) :
    parseHeader d = .ok (false, d) := by
  unfold headerDrop at h
  unfold parseHeader
  simp only at h ⊢
  split at h
  · rename_i hcol
    rw [if_pos hcol]
  · rename_i hcol
    rw [if_neg hcol]
    split at h
    · rename_i heol
      rw [if_pos heol]
    · cases h

end Adequacy

section Bounds

/-- `DropBytesUntil` meets the position: it lies between `read_idx` and
`write_idx`. -/
def Between (b : BaseBuffer) (pos : Nat) : Prop :=
  b.readIdx ≤ pos ∧ pos ≤ b.writeIdx

instance (b : BaseBuffer) (pos : Nat) : Decidable (Between b pos) :=
  inferInstanceAs (Decidable (_ ∧ _))

theorem between_add {b : BaseBuffer} (hb : b.Valid) {n : Nat}
    (hn : n ≤ b.toStringView.length) : Between b (b.readIdx + n) := by
  have hread := hb.read_le_write
  rw [BaseBuffer.toStringView_length hb, BaseBuffer.readableBytes] at hn
  exact ⟨Nat.le_add_right _ _, by omega⟩

theorem requestLineDrop_between (hd : d.buffer.Valid) :
    ∀ pos ∈ requestLineDrop d, Between d.buffer pos := by
  intro pos hpos
  unfold requestLineDrop at hpos
  simp only at hpos
  split at hpos
  · cases hpos
  · rename_i hsp1
    split at hpos
    · cases hpos
    · split at hpos
      · cases hpos
      · rename_i hsp2
        split at hpos
        · cases hpos
        · rename_i heol
          obtain ⟨_, _, hend⟩ := requestLine_within rfl hsp1 rfl hsp2 rfl heol
          split at hpos
          · cases hpos
          · cases hpos
            exact between_add hd hend

/-- A header line that is dropped has a colon and a CRLF at least. -/
theorem headerDrop_between (hd : d.buffer.Valid) :
    ∀ pos ∈ headerDrop d, Between d.buffer pos ∧ d.buffer.readIdx + 3 ≤ pos := by
  have hcolon : d.buffer.toStringView.idxOf colon ≤
      d.buffer.toStringView.length := List.idxOf_le_length
  intro pos hpos
  unfold headerDrop at hpos
  simp only at hpos
  split at hpos
  · cases hpos
  · rename_i hcol
    split at hpos
    · cases hpos
    · rename_i heol
      have hend : _ + 2 ≤ d.buffer.toStringView.length :=
        search_drop_le (by decide : crlf ≠ []) (by omega) heol
      cases hpos
      exact ⟨between_add hd hend, by omega⟩

theorem Between.dropBytesUntil {b : BaseBuffer} {pos : Nat} (h : Between b pos) :
    b.dropBytesUntil pos = some { b with readIdx := pos } :=
  BaseBuffer.dropBytesUntil_eq h.1

theorem Between.valid {b : BaseBuffer} {pos : Nat} (h : Between b pos)
    (hb : b.Valid) : BaseBuffer.Valid { b with readIdx := pos } :=
  ⟨h.2, hb.write_le_size⟩

end Bounds

section Passes

/-- What a pass of `ParseHeaders` that goes on leaves. -/
theorem nextPass_step (hd : d.buffer.Valid) (h : nextPass d = some d') :
    d'.buffer.Valid ∧ d'.buffer.readableBytes < d.buffer.readableBytes := by
  obtain ⟨_, hheader⟩ := nextPass_cases h
  cases hdrop : headerDrop d with
  | none =>
      rw [parseHeader_of_no_drop hdrop] at hheader
      cases hheader
  | some pos =>
      obtain ⟨hbetween, hthree⟩ := headerDrop_between hd pos hdrop
      obtain ⟨req, hparse⟩ := parseHeader_of_drop hdrop
      rw [hbetween.dropBytesUntil, hheader] at hparse
      cases hparse
      have hwrite := hbetween.2
      refine ⟨hbetween.valid hd, ?_⟩
      simp only [BaseBuffer.readableBytes]
      omega

/-- A pass that does not go on leaves the loop. -/
theorem parseHeadersLoop_last (fuel : Nat) (hd : d.buffer.Valid)
    (h : nextPass d = none) : parseHeadersLoop (fuel + 1) d ≠ .error .endless := by
  rw [parseHeadersLoop]
  cases hend : atEndOfHeaders d.buffer.memory with
  | none =>
      intro h
      cases h
  | some found =>
      cases found with
      | true =>
          intro h
          cases h
      | false =>
          simp only
          cases hdrop : headerDrop d with
          | none =>
              rw [parseHeader_of_no_drop hdrop]
              intro h
              cases h
          | some pos =>
              obtain ⟨hbetween, _⟩ := headerDrop_between hd pos hdrop
              obtain ⟨req, hparse⟩ := parseHeader_of_drop hdrop
              rw [hbetween.dropBytesUntil] at hparse
              simp only [nextPass, hend, hparse] at h
              cases h

theorem parseHeadersLoop_ne_endless {fuel : Nat} (hd : d.buffer.Valid)
    (hfuel : d.buffer.readableBytes < fuel) :
    parseHeadersLoop fuel d ≠ .error .endless := by
  induction fuel generalizing d with
  | zero => exact absurd hfuel (Nat.not_lt_zero _)
  | succ fuel ih =>
      cases hnext : nextPass d with
      | none => exact parseHeadersLoop_last fuel hd hnext
      | some d' =>
          obtain ⟨hd', hlt⟩ := nextPass_step hd hnext
          rw [parseHeadersLoop_of_nextPass fuel hnext]
          exact ih hd' (by omega)

end Passes

section Rounds

theorem parseRequestLine_ne_endless (hd : d.buffer.Valid) :
    parseRequestLine d ≠ .error .endless := by
  cases hdrop : requestLineDrop d with
  | none =>
      rcases parseRequestLine_of_no_drop hdrop with heq | ⟨d', heq⟩
      · rw [heq]
        intro h
        cases h
      · rw [heq]
        intro h
        cases h
  | some pos =>
      obtain ⟨req, hparse⟩ := parseRequestLine_of_drop hdrop
      rw [(requestLineDrop_between hd pos hdrop).dropBytesUntil] at hparse
      rw [hparse]
      intro h
      cases h

theorem parseHeaders_ne_endless (hd : d.buffer.Valid) :
    parseHeaders d ≠ .error .endless :=
  parseHeadersLoop_ne_endless hd (Nat.lt_succ_self _)

/-- A round that goes on leads to a later state. -/
theorem nextRound_step (hd : d.buffer.Valid) (h : nextRound d = some d') :
    d'.buffer.Valid ∧ d.state.rank < d'.state.rank := by
  rcases nextRound_cases h with
    ⟨hstate, _, hline⟩ | ⟨hstate, hheaders⟩ | ⟨hstate, rfl⟩
  · have houtcome := parseRequestLine_outcome hd
    rw [hline] at houtcome
    cases houtcome with
    | found _ _ hstate' hvalid _ _ =>
        rw [hstate, hstate']
        exact ⟨hvalid, by decide⟩
  · have houtcome := parseHeadersLoop_outcome hd (Nat.lt_succ_self _)
    rw [BaseBuffer.toStringView_length hd] at houtcome
    rw [parseHeaders] at hheaders
    rw [hheaders] at houtcome
    cases houtcome with
    | ended _ hstate' hvalid =>
        rw [hstate, hstate']
        exact ⟨hvalid, by decide⟩
  · rw [hstate]
    exact ⟨d.buffer.dropAllBytes_valid, Nat.lt_succ_self 2⟩

/-- A round that does not go on returns, throws or aborts. -/
theorem decodeLoop_last (fuel : Nat) (hd : d.buffer.Valid)
    (h : nextRound d = none) : decodeLoop (fuel + 1) d ≠ .error .endless := by
  rw [decodeLoop]
  cases hstate : d.state with
  | expectRequestLine =>
      simp only
      split
      · intro h
        cases h
      · rename_i hclear
        simp only [nextRound, hstate, if_neg hclear] at h
        cases hline : parseRequestLine d with
        | error fault =>
            simp only
            intro heq
            cases heq
            exact parseRequestLine_ne_endless hd hline
        | ok result =>
            obtain ⟨goesOn, d₁⟩ := result
            cases goesOn with
            | false =>
                intro h
                cases h
            | true =>
                simp only [hline] at h
                cases h
  | expectHeaders =>
      simp only [nextRound, hstate] at h
      cases hheaders : parseHeaders d with
      | error fault =>
          simp only
          intro heq
          cases heq
          exact parseHeaders_ne_endless hd hheaders
      | ok result =>
          obtain ⟨goesOn, d₁⟩ := result
          cases goesOn with
          | false =>
              intro h
              cases h
          | true =>
              simp only [hheaders] at h
              cases h
  | expectBody =>
      simp only [nextRound, hstate] at h
      cases h
  | parseFinished =>
      intro h
      cases h

theorem rank_lt_four (state : State) : state.rank < 4 := by
  cases state <;> decide

theorem decodeLoop_ne_endless {fuel : Nat} (hd : d.buffer.Valid)
    (hfuel : 4 ≤ fuel + d.state.rank) : decodeLoop fuel d ≠ .error .endless := by
  induction fuel generalizing d with
  | zero =>
      have hrank := rank_lt_four d.state
      omega
  | succ fuel ih =>
      cases hnext : nextRound d with
      | none => exact decodeLoop_last fuel hd hnext
      | some d' =>
          obtain ⟨hd', hlt⟩ := nextRound_step hd hnext
          rw [decodeLoop_of_nextRound fuel hnext]
          exact ih hd' (by omega)

end Rounds

/-- A call of `Decode` ends: each of its rounds is in a later state than those
before it, so that there are four at most; each pass over a header line has fewer
readable bytes than those before it; and both parse functions drop up to a
position of the readable window. -/
structure Terminates (d : HttpReqDecoder) : Prop where
  ends : decode d ≠ .error .endless
  advances : ∀ fuel, (passes nextRound fuel d).Pairwise fun r r' =>
    r.state.rank < r'.state.rank
  rounds_le : ∀ fuel, (passes nextRound fuel d).length ≤ 4
  decreases : ∀ fuel fuel', ∀ r ∈ passes nextRound fuel d,
    (passes nextPass fuel' r).Pairwise fun p p' =>
      p'.buffer.readableBytes < p.buffer.readableBytes
  passes_le : ∀ fuel fuel', ∀ r ∈ passes nextRound fuel d,
    (passes nextPass fuel' r).length ≤ r.buffer.readableBytes + 1
  dropsLine : ∀ fuel, ∀ r ∈ passes nextRound fuel d,
    ∀ pos ∈ requestLineDrop r, Between r.buffer pos
  dropsHeader : ∀ fuel fuel', ∀ r ∈ passes nextRound fuel d,
    ∀ p ∈ passes nextPass fuel' r, ∀ pos ∈ headerDrop p, Between p.buffer pos

theorem rounds_length_le (fuel : Nat) (hd : d.buffer.Valid) :
    (passes nextRound fuel d).length ≤ 4 := by
  have hle := passes_length_le (P := fun d => d.buffer.Valid)
    (fun r : HttpReqDecoder => 3 - r.state.rank) fuel hd fun r r' hr hnext => by
      obtain ⟨hr', hlt⟩ := nextRound_step hr hnext
      have hrank := rank_lt_four r'.state
      exact ⟨hr', by omega⟩
  omega

/-- In every state and on every buffer. -/
theorem decode_terminates (hd : d.buffer.Valid) : d.Terminates := by
  have hrounds (fuel : Nat) : ∀ r ∈ passes nextRound fuel d, r.buffer.Valid :=
    passes_invariant (P := fun d => d.buffer.Valid) fuel hd
      fun _ _ hd hnext => (nextRound_step hd hnext).1
  constructor
  · exact decodeLoop_ne_endless hd (Nat.le_add_right _ _)
  · exact fun fuel => passes_pairwise (P := fun d => d.buffer.Valid) fuel hd
      (fun _ _ hd hnext => nextRound_step hd hnext) fun _ _ _ => Nat.lt_trans
  · exact fun fuel => rounds_length_le fuel hd
  · intro fuel fuel' r hr
    exact passes_pairwise (P := fun d => d.buffer.Valid) fuel' (hrounds fuel r hr)
      (fun _ _ hd hnext => nextPass_step hd hnext)
      fun _ _ _ hab hbc => Nat.lt_trans hbc hab
  · intro fuel fuel' r hr
    exact passes_length_le (P := fun d => d.buffer.Valid)
      (fun p : HttpReqDecoder => p.buffer.readableBytes) fuel' (hrounds fuel r hr)
      fun _ _ hd hnext => nextPass_step hd hnext
  · intro fuel r hr
    exact requestLineDrop_between (hrounds fuel r hr)
  · intro fuel fuel' r hr p hp pos hpos
    have hp' : p.buffer.Valid :=
      passes_invariant (P := fun d => d.buffer.Valid) fuel' (hrounds fuel r hr)
        (fun _ _ hd hnext => (nextPass_step hd hnext).1) p hp
    exact (headerDrop_between hp' pos hpos).1

/-- A request with two headers: four rounds, and three passes in the second one
of them. -/
theorem decode_terminates_two :
    let d := init ((BaseBuffer.ofSize 64).append
      (bytes "GET / HTTP/1.1\r\nA: 1\r\nB: 2\r\n\r\n"))
    (passes nextRound 9 d).map (fun r => r.state.rank) = [0, 1, 2, 3] ∧
    ((passes nextRound 9 d).drop 1).head?.map (fun r =>
      (passes nextPass 9 r).map fun p => p.buffer.readableBytes) =
        some [14, 8, 2] ∧
    d.Terminates := by
  intro d
  exact ⟨by decide +kernel, by decide +kernel, decode_terminates (by decide)⟩

end HttpReqDecoder

end Jerry
