/-
A stream of client frames cut into segments: which cuts let `Decode` return
these frames and no others.  Behind the last byte it reads a head once more.
-/
import Jerry.WsFeeding
import Jerry.WsHandshake

namespace Jerry

open ClientFrame WsFrame ByteOrder

namespace WebsocketCodec

/-- The first `n` bytes of the frames end behind a complete head and before the
last byte of its payload. -/
def InsidePayload : List ClientFrame → Nat → Prop
  | [], _ => False
  | f :: frames, n =>
      if n < f.wire.length then f.head.length ≤ n
      else InsidePayload frames (n - f.wire.length)

instance decidableInsidePayload :
    ∀ frames n, Decidable (InsidePayload frames n)
  | [], _ => isFalse id
  | f :: frames, n =>
      have := decidableInsidePayload frames (n - f.wire.length)
      inferInstanceAs (Decidable (ite _ _ _))

/-- Whenever one more segment arrives, what came before ends inside a payload.
`n` bytes have come so far. -/
def CutsInPayload (frames : List ClientFrame) :
    Nat → List (List UInt8) → Prop
  | _, [] => True
  | n, segment :: segments =>
      InsidePayload frames n ∧
        CutsInPayload frames (n + segment.length) segments

instance decidableCutsInPayload (frames : List ClientFrame) :
    ∀ n segments, Decidable (CutsInPayload frames n segments)
  | _, [] => isTrue trivial
  | n, segment :: segments =>
      have := decidableCutsInPayload frames (n + segment.length) segments
      inferInstanceAs (Decidable (_ ∧ _))

/-- The bytes of `l`, cut where the segments are. -/
def cutAlike : List (List UInt8) → List UInt8 → List (List UInt8)
  | [], _ => []
  | segment :: segments, l =>
      l.take segment.length :: cutAlike segments (l.drop segment.length)

section Probe

variable {env : HandshakeEnv} {calls : List ConnCall} {c : WebsocketCodec}
  {b : BaseBuffer} {done rest : List UInt8} {f : ClientFrame}
  {frames : List ClientFrame} {segments : List (List UInt8)}

/-- The payload of a head that was not received: it is still asked for, or a
request is returned that was not received. -/
theorem decode_not_received (env : HandshakeEnv)
    (hstate : c.state = .exceptPayload) (hreceived : c.headReceived = false) :
    ∃ out c', decode env c = .ok (out, c') ∧ c'.headReceived = false ∧
      (out = none → c'.state = .exceptPayload) := by
  obtain ⟨finished, c', hpayload, _, hnext, hkeep, _⟩ :=
    decodePayload_cases c
  rw [decode_payload hstate, hpayload]
  cases finished with
  | false => exact ⟨none, c', rfl, hkeep.trans hreceived,
      fun _ => hnext.trans hstate⟩
  | true => exact ⟨some c'.req, _, rfl, hkeep.trans hreceived,
      fun hout => absurd hout (by simp)⟩

theorem not_yields_of_payload (hstate : c.state = .exceptPayload)
    (hreceived : c.headReceived = false) (hframes : frames ≠ []) :
    ¬ Yields env calls c frames segments := by
  induction segments generalizing c with
  | nil =>
      obtain ⟨out, c', hdecode, hkeep, hwait⟩ :=
        decode_not_received env hstate hreceived
      cases out with
      | some req => exact not_yields_of_some hdecode hkeep
      | none =>
          rw [yields_of_none hdecode, delivers_nil_iff]
          exact fun h => hframes h.1
  | cons segment segments ih =>
      obtain ⟨out, c', hdecode, hkeep, hwait⟩ :=
        decode_not_received env hstate hreceived
      cases out with
      | some req => exact not_yields_of_some hdecode hkeep
      | none =>
          rw [yields_of_none hdecode, delivers_cons_iff]
          exact ih (c := c'.receive segment) (hwait rfl) hkeep

/-- Only the front of a head is readable. -/
theorem AtHead.not_yields (h : c.AtHead b done rest)
    (hfront : rest <+: f.head) (hshort : rest.length < f.head.length)
    (hcalls : c.calls = calls) :
    ¬ Yields env calls c (f :: frames) segments := by
  have hdecode := @decode_head c env h.state
  rcases decodeFrameHead_cases c with
    ⟨fault, hhead, _⟩ | ⟨c', hhead, hclose, _⟩ |
    ⟨b₀, b₁, stream, c', n, hmemory, hn, hhead, hstate, _, _, hreceived, _⟩
  · rw [hhead] at hdecode
    exact not_yields_of_error hdecode
  · rw [hhead] at hdecode
    rw [yields_of_none hdecode]
    exact not_delivers_of_calls (hcalls ▸ hclose)
  · rw [hhead] at hdecode
    rw [yields_congr hdecode]
    apply not_yields_of_payload hstate
    · rw [hreceived, hn,
        decide_eq_false (h.not_received hfront hshort hmemory)]
    · exact List.cons_ne_nil _ _

/-- Behind the last frame, one more head is read from whatever memory holds. -/
theorem AtHead.yields_nil_iff (h : c.AtHead b done [])
    (hcalls : c.calls = calls) :
    Yields env calls c [] [] ↔ Harmless c.recvBuffer.memory := by
  have hdecode := @decode_head c env h.state
  rcases decodeFrameHead_cases c with
    ⟨fault, hhead, hnot⟩ | ⟨c', hhead, hclose, hnot⟩ |
    ⟨_, _, _, c', n, _, _, hhead, hstate, hsame, hbuffer, _, hiff⟩
  · rw [hhead] at hdecode
    exact ⟨fun hyields => absurd hyields (not_yields_of_error hdecode),
      fun hharmless => absurd hharmless hnot⟩
  · rw [hhead] at hdecode
    rw [yields_of_none hdecode]
    exact ⟨fun hdelivers => absurd hdelivers
        (not_delivers_of_calls (hcalls ▸ hclose)),
      fun hharmless => absurd hharmless hnot⟩
  · rw [hhead] at hdecode
    rw [yields_congr hdecode, hiff]
    have hvalid : c.recvBuffer.Valid := by
      rw [h.buffer]
      exact BaseBuffer.consumed_valid h.empty done []
    have hview : c'.recvBuffer.toStringView = [] := by
      rw [hbuffer, BaseBuffer.dropBytes_toStringView hvalid, h.buffer,
        BaseBuffer.consumed_toStringView h.empty, List.drop_nil]
    have hreadable : c'.recvBuffer.readableBytes = 0 := by
      have hlength := BaseBuffer.toStringView_length
        (hbuffer ▸ BaseBuffer.dropBytes_valid hvalid n)
      rw [← hlength, hview, List.length_nil]
    -- nothing is readable, so only an empty payload is complete
    obtain ⟨finished, c'', hpayload, hfinished, _, _, hcalls'⟩ :=
      decodePayload_cases c'
    rw [hreadable, Nat.le_zero] at hfinished
    have hdecode' := @decode_payload c' env hstate
    rw [hpayload] at hdecode'
    cases finished with
    | true =>
        exact ⟨fun hyields => absurd hyields (not_yields_nil_of_some hdecode'),
          fun hne => absurd (hfinished.mp rfl) hne⟩
    | false =>
        rw [yields_of_none hdecode', delivers_nil_iff, hcalls', hsame]
        exact ⟨fun _ hzero => Bool.false_ne_true (hfinished.mpr hzero),
          fun _ => ⟨rfl, hcalls⟩⟩

end Probe

section Cuts

variable {b : BaseBuffer} {done rest plain : List UInt8} {f : ClientFrame}
  {frames : List ClientFrame} {n : Nat} {segment : List UInt8}
  {segments : List (List UInt8)}

/-- `done` and `rest` have come last into `b`, `n` bytes of the frames have been
read and `plain` is what the others are unmasked: every further cut is inside a
payload, and memory behind the last byte is harmless. -/
structure Sound (b : BaseBuffer) (done rest plain : List UInt8)
    (frames : List ClientFrame) (n : Nat) (segments : List (List UInt8)) :
    Prop where
  cuts : CutsInPayload frames (n + rest.length) segments
  harmless : Harmless (b.leftover ((done ++ plain.take rest.length) ::
    cutAlike segments (plain.drop rest.length))).memory

/-- Reading on does not change what is to come. -/
theorem sound_append {front unmasked : List UInt8}
    (hlength : front.length = unmasked.length) :
    Sound b done (front ++ rest) (unmasked ++ plain) frames n segments ↔
      Sound b (done ++ unmasked) rest plain frames (n + front.length)
        segments := by
  have htake : (unmasked ++ plain).take (front ++ rest).length =
      unmasked ++ plain.take rest.length := by
    rw [List.length_append, hlength, List.take_length_add_append]
  have hdrop : (unmasked ++ plain).drop (front ++ rest).length =
      plain.drop rest.length := by
    rw [List.length_append, hlength, List.drop_length_add_append]
  have hn : n + (front ++ rest).length = n + front.length + rest.length := by
    rw [List.length_append, Nat.add_assoc]
  constructor
  · intro h
    have hcuts := h.cuts
    have hharmless := h.harmless
    rw [hn] at hcuts
    rw [htake, hdrop, ← List.append_assoc] at hharmless
    exact ⟨hcuts, hharmless⟩
  · intro h
    refine ⟨hn ▸ h.cuts, ?_⟩
    rw [htake, hdrop, ← List.append_assoc]
    exact h.harmless

/-- Behind a frame, only the others matter. -/
theorem cutsInPayload_wire_add (n : Nat) :
    CutsInPayload (f :: frames) (f.wire.length + n) segments ↔
      CutsInPayload frames n segments := by
  induction segments generalizing n with
  | nil => rfl
  | cons segment segments ih =>
      have hlt : ¬ f.wire.length + n < f.wire.length := by omega
      rw [CutsInPayload, CutsInPayload, InsidePayload, if_neg hlt,
        Nat.add_sub_cancel_left, Nat.add_assoc, ih]

theorem sound_wire :
    Sound b done rest plain (f :: frames) f.wire.length segments ↔
      Sound b done rest plain frames 0 segments := by
  constructor
  · intro h
    refine ⟨?_, h.harmless⟩
    rw [Nat.zero_add]
    exact (cutsInPayload_wire_add _).mp h.cuts
  · intro h
    refine ⟨(cutsInPayload_wire_add _).mpr ?_, h.harmless⟩
    rw [← Nat.zero_add rest.length]
    exact h.cuts

/-- A cut in a head is not inside a payload. -/
theorem not_sound_of_lt (hshort : rest.length < f.head.length)
    (hsegments : segments ≠ []) :
    ¬ Sound b done rest plain (f :: frames) 0 segments := by
  intro h
  obtain ⟨segment, segments, rfl⟩ := List.exists_cons_of_ne_nil hsegments
  have hinside := h.cuts.1
  rw [InsidePayload, Nat.zero_add, f.wire_length, if_pos (by omega)] at hinside
  exact absurd hshort (Nat.not_lt.mpr hinside)

/-- The next segment comes into a buffer that has been read to its end. -/
theorem sound_cons (hinside : InsidePayload frames (n + rest.length)) :
    Sound b done rest plain frames n (segment :: segments) ↔
      Sound (b.append (done ++ plain.take rest.length)).dropAllBytes []
        segment (plain.drop rest.length) frames (n + rest.length)
        segments := by
  constructor
  · intro h
    exact ⟨h.cuts.2, h.harmless⟩
  · intro h
    exact ⟨⟨hinside, h.cuts⟩, h.harmless⟩

end Cuts

section Main

variable {env : HandshakeEnv} {calls : List ConnCall} {f : ClientFrame}
  {frames : List ClientFrame} {segments : List (List UInt8)}

/-- At the head of the next of the frames, the segments yield them if and only
if the cuts are sound. -/
def HeadIff (env : HandshakeEnv) (calls : List ConnCall)
    (frames : List ClientFrame) (segments : List (List UInt8)) : Prop :=
  ∀ c b done rest, AtHead c b done rest → c.calls = calls →
    rest ++ segments.flatten = wires frames →
    (Yields env calls c frames segments ↔
      Sound b done rest (plains frames) frames 0 segments)

/-- The same in the payload of `f`. -/
def PayloadIff (env : HandshakeEnv) (calls : List ConnCall) (f : ClientFrame)
    (frames : List ClientFrame) (segments : List (List UInt8)) : Prop :=
  ∀ c b done rest k, InPayload c b done rest f k → c.calls = calls →
    rest ++ segments.flatten = f.masked.drop k ++ wires frames →
    (Yields env calls c (f :: frames) segments ↔
      Sound b done rest (f.payload.drop k ++ plains frames) (f :: frames)
        (f.head.length + k) segments)

theorem headIff_nil (hne : ∀ segment ∈ segments, segment ≠ []) :
    HeadIff env calls [] segments := by
  intro c b done rest h hcalls hwire
  obtain ⟨hrest, hflat⟩ := List.append_eq_nil_iff.mp hwire
  have hsegments : segments = [] := by
    cases segments with
    | nil => rfl
    | cons segment segments =>
        rw [List.flatten_cons, List.append_eq_nil_iff] at hflat
        exact absurd hflat.1 (hne segment (by simp))
  subst hrest hsegments
  have hmemory : c.recvBuffer = b.leftover [done ++ []] := by
    rw [h.buffer, BaseBuffer.consumed_nil h.empty, List.append_nil]
    rfl
  rw [h.yields_nil_iff hcalls, hmemory]
  constructor
  · intro hharmless
    exact ⟨trivial, hharmless⟩
  · intro hsound
    exact hsound.harmless

theorem headIff_cons (h : PayloadIff env calls f frames segments) :
    HeadIff env calls (f :: frames) segments := by
  intro c b done rest hc hcalls hwire
  rw [wires_cons] at hwire
  rcases Nat.lt_or_ge rest.length f.head.length with hshort | hlong
  · -- what came last ends inside the head
    have hfront : rest <+: f.head := List.prefix_of_prefix_length_le
      (hwire ▸ List.prefix_append rest _) (List.prefix_append _ _)
      (Nat.le_of_lt hshort)
    have hsegments : segments ≠ [] := by
      rintro rfl
      have hlength := congrArg List.length hwire
      rw [List.flatten_nil, List.append_nil, List.length_append] at hlength
      omega
    constructor
    · intro hyields
      exact absurd hyields (hc.not_yields hfront hshort hcalls)
    · intro hsound
      exact absurd hsound (not_sound_of_lt hshort hsegments)
  · obtain ⟨rest', rfl⟩ : f.head <+: rest := List.prefix_of_prefix_length_le
      (List.prefix_append _ _) (hwire ▸ List.prefix_append rest _) hlong
    obtain ⟨c', hhead, hin, hcalls'⟩ := hc.decodeFrameHead
    have hdecode := @decode_head c env hc.state
    rw [hhead] at hdecode
    rw [List.append_assoc, List.append_cancel_left_eq] at hwire
    have hiff := h c' b (done ++ f.head) rest' 0 hin (hcalls'.trans hcalls)
      (by rwa [List.drop_zero])
    rw [yields_congr hdecode, hiff, List.drop_zero, plains_cons,
      sound_append rfl, Nat.zero_add, Nat.add_zero]

/-- The payload ends in what came last. -/
theorem InPayload.yields_iff_of_complete (h : HeadIff env calls frames segments)
    {c : WebsocketCodec} {b : BaseBuffer} {done rest : List UInt8} {k : Nat}
    (hc : c.InPayload b done (f.masked.drop k ++ rest) f k)
    (hcalls : c.calls = calls)
    (hwire : rest ++ segments.flatten = wires frames) :
    Yields env calls c (f :: frames) segments ↔
      Sound b done (f.masked.drop k ++ rest)
        (f.payload.drop k ++ plains frames) (f :: frames)
        (f.head.length + k) segments := by
  obtain ⟨req, c', hdecode, htype, hpayload, hat, hreceived, hcalls'⟩ :=
    @InPayload.decode_complete c b done rest f k env hc
  have hlength : (f.masked.drop k).length = (f.payload.drop k).length := by
    rw [List.length_drop, List.length_drop, masked_length]
  have hend : f.head.length + k + (f.masked.drop k).length =
      f.wire.length := by
    rw [List.length_drop, masked_length, wire_length, Nat.add_assoc,
      Nat.add_sub_cancel' hc.le]
  have hproduced : Produced (req, c'.headReceived) f :=
    ⟨htype, hpayload, hreceived⟩
  rw [yields_of_some hdecode, sound_append hlength, hend, sound_wire,
    ← h c' b _ rest hat (hcalls'.trans hcalls) hwire]
  exact and_iff_right hproduced

/-- The payload does not end in what came last. -/
theorem InPayload.yields_iff_of_incomplete {c : WebsocketCodec}
    {b : BaseBuffer} {done rest segment : List UInt8} {k : Nat}
    (h : PayloadIff env calls f frames segments)
    (hc : c.InPayload b done rest f k) (hcalls : c.calls = calls)
    (hrest : rest <+: f.masked.drop k)
    (hshort : rest.length < f.payload.length - k) (hsegment : segment ≠ [])
    (hwire : rest ++ (segment ++ segments.flatten) =
      f.masked.drop k ++ wires frames) :
    Yields env calls c (f :: frames) (segment :: segments) ↔
      Sound b done rest (f.payload.drop k ++ plains frames) (f :: frames)
        (f.head.length + k) (segment :: segments) := by
  obtain ⟨c', hdecode, hin, hcalls'⟩ :=
    @InPayload.decode_incomplete c b done rest f k env hc hrest hshort
  have hk := hc.le
  have hinside : InsidePayload (f :: frames)
      (f.head.length + k + rest.length) := by
    rw [InsidePayload, wire_length, if_pos (by omega)]
    omega
  obtain ⟨more, hmore⟩ := hrest
  rw [← hmore, List.append_assoc, List.append_cancel_left_eq] at hwire
  have hmore' : more = f.masked.drop (k + rest.length) := by
    rw [← List.drop_drop, ← hmore, List.drop_left]
  have hle : rest.length ≤ (f.payload.drop k).length := by
    rw [List.length_drop]
    exact Nat.le_of_lt hshort
  rw [yields_of_none hdecode, delivers_cons_iff, sound_cons hinside,
    List.take_append_of_le_length hle, List.drop_append_of_le_length hle,
    List.drop_drop, Nat.add_assoc]
  exact h _ _ [] segment _ (hin.receive hsegment) (hcalls'.trans hcalls)
    (hmore' ▸ hwire)

theorem payloadIff_of_headIff (hne : ∀ segment ∈ segments, segment ≠ [])
    (h : HeadIff env calls frames segments)
    (hnext : ∀ segment segments', segments = segment :: segments' →
      PayloadIff env calls f frames segments') :
    PayloadIff env calls f frames segments := by
  intro c b done rest k hc hcalls hwire
  have hlength : (f.masked.drop k).length = f.payload.length - k := by
    rw [List.length_drop, masked_length]
  rcases Nat.lt_or_ge rest.length (f.masked.drop k).length with hlt | hge
  · have hrest : rest <+: f.masked.drop k := List.prefix_of_prefix_length_le
      (hwire ▸ List.prefix_append rest _) (List.prefix_append _ _)
      (Nat.le_of_lt hlt)
    cases segments with
    | nil =>
        have hshort := congrArg List.length hwire
        rw [List.flatten_nil, List.append_nil, List.length_append] at hshort
        omega
    | cons segment segments =>
        exact hc.yields_iff_of_incomplete (hnext segment segments rfl) hcalls
          hrest (hlength ▸ hlt) (hne segment (by simp)) hwire
  · obtain ⟨rest', rfl⟩ : f.masked.drop k <+: rest :=
      List.prefix_of_prefix_length_le (List.prefix_append _ _)
        (hwire ▸ List.prefix_append rest _) hge
    rw [List.append_assoc, List.append_cancel_left_eq] at hwire
    exact hc.yields_iff_of_complete h hcalls hwire

/-- One frame after the other, with the same segments to come. -/
theorem headIff_and_payloadIff (hne : ∀ segment ∈ segments, segment ≠ [])
    (hnext : ∀ f frames segment segments', segments = segment :: segments' →
      PayloadIff env calls f frames segments') (frames : List ClientFrame) :
    HeadIff env calls frames segments ∧
      ∀ f, PayloadIff env calls f frames segments := by
  induction frames with
  | nil =>
      have hhead := @headIff_nil env calls segments hne
      exact ⟨hhead, fun f => payloadIff_of_headIff hne hhead (hnext f [])⟩
  | cons g frames ih =>
      have hhead := headIff_cons (ih.2 g)
      exact ⟨hhead, fun f =>
        payloadIff_of_headIff hne hhead (hnext f (g :: frames))⟩

theorem payloadIff (env : HandshakeEnv) (calls : List ConnCall)
    (hne : ∀ segment ∈ segments, segment ≠ []) (f : ClientFrame)
    (frames : List ClientFrame) : PayloadIff env calls f frames segments := by
  induction segments generalizing f frames with
  | nil =>
      have hnext : ∀ f frames segment segments',
          [] = segment :: segments' →
            PayloadIff env calls f frames segments' := by
        intro f frames segment segments' h
        cases h
      exact (headIff_and_payloadIff hne hnext frames).2 f
  | cons segment segments ih =>
      have hrest (s) (hs : s ∈ segments) := hne s (List.mem_cons_of_mem _ hs)
      have hnext : ∀ f frames segment' segments',
          segment :: segments = segment' :: segments' →
            PayloadIff env calls f frames segments' := by
        intro f frames segment' segments' h
        rw [← (List.cons.inj h).2]
        exact ih hrest f frames
      exact (headIff_and_payloadIff hne hnext frames).2 f

theorem headIff (env : HandshakeEnv) (calls : List ConnCall)
    (hne : ∀ segment ∈ segments, segment ≠ [])
    (frames : List ClientFrame) : HeadIff env calls frames segments := by
  cases frames with
  | nil => exact headIff_nil hne
  | cons f frames => exact headIff_cons (payloadIff env calls hne f frames)

end Main

/-- Every segment but the last ends inside a payload.  The last one, its payloads
unmasked, and what older segments left behind it begin with a head that does no
harm. -/
def SoundCuts (b : BaseBuffer) (frames : List ClientFrame) :
    List (List UInt8) → Prop
  | [] => True
  | segment :: segments =>
      CutsInPayload frames segment.length segments ∧
        Harmless (b.leftover
          (cutAlike (segment :: segments) (plains frames))).memory

instance (b : BaseBuffer) (frames : List ClientFrame) :
    ∀ segments, Decidable (SoundCuts b frames segments)
  | [] => isTrue trivial
  | _ :: _ => inferInstanceAs (Decidable (_ ∧ _))

section Segments

variable {env : HandshakeEnv} {c : WebsocketCodec} {frames : List ClientFrame}
  {segments : List (List UInt8)}

theorem Ready.receive {segment : List UInt8} (h : c.Ready)
    (hsegment : segment ≠ []) :
    (c.receive segment).AtHead c.recvBuffer [] segment where
  empty := h.empty
  state := h.state
  buffer := (BaseBuffer.consumed_start h.empty hsegment).symm
  payload := h.payload
  lastReadIdx := h.lastReadIdx

/-- No bytes are no frames. -/
theorem wires_eq_nil (h : wires frames = []) : frames = [] := by
  cases frames with
  | nil => rfl
  | cons f frames =>
      rw [wires_cons, List.append_eq_nil_iff] at h
      have hlength := f.head_length
      rw [h.1, List.length_nil] at hlength
      omega

theorem delivers_iff_soundCuts (env : HandshakeEnv) (hc : c.Ready)
    (hne : ∀ segment ∈ segments, segment ≠ [])
    (hwire : segments.flatten = wires frames) :
    Delivers env c.calls c frames segments ↔
      SoundCuts c.recvBuffer frames segments := by
  cases segments with
  | nil =>
      rw [delivers_nil_iff]
      exact iff_of_true ⟨wires_eq_nil hwire.symm, rfl⟩ trivial
  | cons segment segments =>
      have hrest (s) (hs : s ∈ segments) := hne s (List.mem_cons_of_mem _ hs)
      have hhead := headIff env c.calls hrest frames (c.receive segment)
        c.recvBuffer [] segment (hc.receive (hne segment (by simp))) rfl hwire
      rw [delivers_cons_iff, hhead]
      constructor
      · intro h
        exact ⟨Nat.zero_add segment.length ▸ h.cuts, h.harmless⟩
      · intro h
        exact ⟨(Nat.zero_add segment.length).symm ▸ h.1, h.2⟩

/-- A cut outside the payloads, whatever the vector holds. -/
theorem Ready.not_delivers {segment : List UInt8} (hc : c.Ready)
    (hne : ∀ s ∈ segment :: segments, s ≠ [])
    (hwire : (segment :: segments).flatten = wires frames)
    (hcuts : ¬ CutsInPayload frames segment.length segments) :
    ¬ Delivers env c.calls c frames (segment :: segments) := by
  have hrest (s) (hs : s ∈ segments) := hne s (List.mem_cons_of_mem _ hs)
  have hhead := headIff env c.calls hrest frames (c.receive segment)
    c.recvBuffer [] segment (hc.receive (hne segment (by simp))) rfl hwire
  rw [delivers_cons_iff, hhead]
  intro h
  exact hcuts (Nat.zero_add segment.length ▸ h.cuts)

/-- A binary frame of four bytes and a text, with keys. -/
def exampleFrames : List ClientFrame :=
  [{ fin := true, rsv1 := false, rsv2 := false, rsv3 := false
     type := .kBinary, form := .short, key := [1, 2, 3, 4]
     payload := [0x10, 0x20, 0x82, 0x85]
     type_ne := by decide, key_length := by decide, fits := by decide },
   { fin := true, rsv1 := false, rsv2 := false, rsv3 := false
     type := .kText, form := .extended126, key := [5, 6, 7, 8]
     payload := CString.bytes "hi"
     type_ne := by decide, key_length := by decide, fits := by decide }]

def exampleEnv : HandshakeEnv :=
  ⟨fun _ => CString.bytes "s3pPLMBiTxaQ9kYGzzhZRbK+xOo=", []⟩

/-- The first request of a connection. -/
def exampleUpgrade : List UInt8 :=
  CString.bytes ("GET / HTTP/1.1\r\nHost:a\r\nUpgrade:websocket\r\n" ++
    "Connection:Upgrade\r\nSec-WebSocket-Version:13\r\n" ++
    "Sec-WebSocket-Key:dGhlIHNhbXBsZSBub25jZQ==\r\n\r\n")

/-- What is cut off the first payload looks like a head itself. -/
theorem delivers_iff_soundCuts_payload :
    ∃ c : WebsocketCodec, c.Ready ∧
      Delivers exampleEnv c.calls c exampleFrames
        [(wires exampleFrames).take 8, (wires exampleFrames).drop 8] := by
  let c : WebsocketCodec :=
    { init (BaseBuffer.ofSize 32) with state := .exceptFrameHead }
  have hc : c.Ready := ⟨rfl, ⟨by decide, by decide⟩, rfl, rfl⟩
  refine ⟨c, hc, (delivers_iff_soundCuts exampleEnv hc ?_ ?_).mpr ?_⟩
  · decide +kernel
  · decide +kernel
  · decide +kernel

/-- Each frame in a segment of its own. -/
theorem delivers_iff_soundCuts_boundary :
    ∃ c, decode exampleEnv ((init (BaseBuffer.ofSize 1024)).receive
        exampleUpgrade) = .ok (none, c) ∧ c.Ready ∧
      (exampleFrames.map wire).flatten = wires exampleFrames ∧
      (∀ segment ∈ exampleFrames.map wire, segment ≠ []) ∧
      ¬ Delivers exampleEnv c.calls c exampleFrames
        (exampleFrames.map wire) := by
  have hdone : ((decode exampleEnv ((init (BaseBuffer.ofSize 1024)).receive
      exampleUpgrade)).toOption.map fun r => (r.1, r.2.state)) =
        some (none, .exceptFrameHead) := by decide +kernel
  have hne : ∀ segment ∈ exampleFrames.map wire, segment ≠ [] := by
    decide +kernel
  have hwire : (exampleFrames.map wire).flatten = wires exampleFrames := by
    decide +kernel
  cases hdecode : decode exampleEnv ((init (BaseBuffer.ofSize 1024)).receive
      exampleUpgrade) with
  | error fault =>
      rw [hdecode] at hdone
      cases hdone
  | ok r =>
      obtain ⟨out, c⟩ := r
      rw [hdecode] at hdone
      obtain ⟨rfl, hstate⟩ := Prod.mk.inj (Option.some.inj hdone)
      have hc : c.Ready := decode_ready rfl rfl rfl hdecode hstate
      exact ⟨c, rfl, hc, hwire, hne,
        hc.not_delivers hne hwire (by decide +kernel)⟩

end Segments

end WebsocketCodec

end Jerry
