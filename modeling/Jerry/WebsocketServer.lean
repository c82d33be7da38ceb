/-
`proto/ws/WebsocketServer` on one connection: every readable event brings a
segment, and `Decode` is called once.
-/
import Jerry.WsStreaming

namespace Jerry

open ClientFrame

/-- The codec of a connection, and the requests `OnRequest` has been called
with.  With each of them goes whether its head had been received. -/
structure WebsocketServer where
  codec : WebsocketCodec
  requests : List (WsReq × Bool)
deriving DecidableEq, Repr

namespace WebsocketServer

/-- `onRequest` is the payload of the response. -/
def onTcpReceivedData (env : HandshakeEnv) (onRequest : WsReq → List UInt8)
    (s : WebsocketServer) : Except Fault WebsocketServer :=
  match s.codec.decode env with
  | .error fault => .error fault
  | .ok (none, codec) => .ok { s with codec := codec }
  | .ok (some req, codec) =>
      let payload := onRequest req
      .ok
        { codec := { codec with
            calls := codec.calls ++
              [.send (WebsocketCodec.encodeFrameHead payload .kText),
                .send payload] }
          requests := s.requests ++ [(req, codec.headReceived)] }

/-- Nothing is read once the connection has been shut down. -/
def onChannelReadable (env : HandshakeEnv) (onRequest : WsReq → List UInt8)
    (s : WebsocketServer) (segment : List UInt8) :
    Except Fault WebsocketServer :=
  if .shutdown ∈ s.codec.calls then .ok s
  else onTcpReceivedData env onRequest
    { s with codec := s.codec.receive segment }

end WebsocketServer

/-- The frames that end within the first `n` bytes. -/
def ClientFrame.completed : List ClientFrame → Nat → List ClientFrame
  | [], _ => []
  | f :: frames, n =>
      if f.wire.length ≤ n then f :: completed frames (n - f.wire.length)
      else []

namespace WebsocketServer

/-- After each event `OnRequest` has been called for the frames that are
complete.  `n` bytes have come before. -/
def Answers (env : HandshakeEnv) (onRequest : WsReq → List UInt8)
    (frames : List ClientFrame) :
    WebsocketServer → Nat → List (List UInt8) → Prop
  | _, _, [] => True
  | s, n, segment :: segments =>
      ∃ s', s.onChannelReadable env onRequest segment = .ok s' ∧
        List.Forall₂ WebsocketCodec.Produced s'.requests
          (completed frames (n + segment.length)) ∧
        Answers env onRequest frames s' (n + segment.length) segments

/-- Each segment brings the end of one frame, or of none and does not end inside
a head. -/
def OneByOne (frames : List ClientFrame) : Nat → List (List UInt8) → Prop
  | _, [] => True
  | n, segment :: segments =>
      let before := (completed frames n).length
      let after := (completed frames (n + segment.length)).length
      (after = before + 1 ∨ after = before ∧
        ¬ WebsocketCodec.InsideHead frames (n + segment.length)) ∧
      OneByOne frames (n + segment.length) segments

instance decidableOneByOne (frames : List ClientFrame) :
    ∀ n segments, Decidable (OneByOne frames n segments)
  | _, [] => isTrue trivial
  | n, segment :: segments =>
      have := decidableOneByOne frames (n + segment.length) segments
      inferInstanceAs (Decidable (_ ∧ _))

section Completed

theorem wires_append (done frames : List ClientFrame) :
    wires (done ++ frames) = wires done ++ wires frames :=
  List.flatMap_append

theorem wires_cons_length (f : ClientFrame) (frames : List ClientFrame) :
    (wires (f :: frames)).length = f.wire.length + (wires frames).length := by
  rw [wires, List.flatMap_cons, List.length_append]
  rfl

theorem completed_wires_add (done frames : List ClientFrame) (m : Nat) :
    completed (done ++ frames) ((wires done).length + m) =
      done ++ completed frames m := by
  induction done with
  | nil =>
      rw [wires, List.flatMap_nil, List.length_nil, Nat.zero_add]
      rfl
  | cons f done ih =>
      rw [List.cons_append, completed, wires_cons_length, Nat.add_assoc,
        if_pos (Nat.le_add_right _ _), Nat.add_sub_cancel_left, ih,
        List.cons_append]

theorem completed_wires (frames : List ClientFrame) :
    completed frames (wires frames).length = frames := by
  have hall := completed_wires_add frames [] 0
  rwa [List.append_nil, Nat.add_zero, completed, List.append_nil] at hall

theorem insideHead_wires_add (done frames : List ClientFrame) (m : Nat) :
    WebsocketCodec.InsideHead (done ++ frames) ((wires done).length + m) ↔
      WebsocketCodec.InsideHead frames m := by
  induction done with
  | nil =>
      rw [wires, List.flatMap_nil, List.length_nil, Nat.zero_add]
      rfl
  | cons f done ih =>
      rw [List.cons_append, wires_cons_length, Nat.add_assoc,
        WebsocketCodec.insideHead_wire_add, ih]

end Completed

section Stuck

variable {env : HandshakeEnv} {onRequest : WsReq → List UInt8}
  {s s' : WebsocketServer} {frames : List ClientFrame} {n : Nat}
  {segment : List UInt8} {segments : List (List UInt8)}

/-- The connection has been shut down, or a head was read that had not been
received. -/
def Stuck (s : WebsocketServer) : Prop :=
  .shutdown ∈ s.codec.calls ∨
    s.codec.state = .exceptPayload ∧ s.codec.headReceived = false

theorem not_produced {requests : List (WsReq × Bool)} {req : WsReq}
    (h : List.Forall₂ WebsocketCodec.Produced (requests ++ [(req, false)])
      frames) : False := by
  have hlength := h.length_eq
  rw [List.length_append, List.length_singleton] at hlength
  have hlast := h.get (i := requests.length) (by simp) (by omega)
  rw [List.get_eq_getElem, List.getElem_concat_length rfl] at hlast
  exact Bool.false_ne_true hlast.received

/-- It stays so, unless a request is made of what was not received. -/
theorem Stuck.onChannelReadable (h : s.Stuck)
    (hread : s.onChannelReadable env onRequest segment = .ok s') :
    (s'.Stuck ∧ s'.requests = s.requests) ∨
      ∃ req, s'.requests = s.requests ++ [(req, false)] := by
  rw [WebsocketServer.onChannelReadable] at hread
  split at hread
  · obtain rfl := Except.ok.inj hread
    exact Or.inl ⟨h, rfl⟩
  · rename_i hconnected
    obtain ⟨hstate, hreceived⟩ := h.resolve_left hconnected
    obtain ⟨out, c', hdecode, hkeep, hwait⟩ :=
      WebsocketCodec.decode_not_received (c := s.codec.receive segment) env
        hstate hreceived
    simp only [onTcpReceivedData, hdecode] at hread
    cases out with
    | none =>
        obtain rfl := Except.ok.inj hread
        exact Or.inl ⟨Or.inr ⟨hwait rfl, hkeep⟩, rfl⟩
    | some req =>
        obtain rfl := Except.ok.inj hread
        exact Or.inr ⟨req, by simp only [hkeep]⟩

/-- The frames that are still to come are not answered. -/
theorem Stuck.not_answers (h : s.Stuck)
    (hrequests : List.Forall₂ WebsocketCodec.Produced s.requests
      (completed frames n))
    (hless : s.requests.length < frames.length)
    (hwire : n + segments.flatten.length = (wires frames).length) :
    ¬ Answers env onRequest frames s n segments := by
  induction segments generalizing s n with
  | nil =>
      have hall := hrequests.length_eq
      rw [List.flatten_nil, List.length_nil, Nat.add_zero] at hwire
      rw [hwire, completed_wires] at hall
      omega
  | cons segment segments ih =>
      rintro ⟨s', hread, hrequests', hanswers⟩
      rcases h.onChannelReadable hread with ⟨hstuck, hsame⟩ | ⟨req, hreq⟩
      · rw [List.flatten_cons, List.length_append] at hwire
        exact ih hstuck hrequests' (hsame ▸ hless) (by omega) hanswers
      · rw [hreq] at hrequests'
        exact not_produced hrequests'

end Stuck

section Events

open WebsocketCodec (Reading Reads Produced InsideHead)

variable {env : HandshakeEnv} {onRequest : WsReq → List UInt8}
  {s s' : WebsocketServer} {rest future segment : List UInt8}
  {done frames : List ClientFrame} {f : ClientFrame} {m : Nat}
  {segments : List (List UInt8)}

/-- `done` has been answered.  Of `frames`, `m` bytes have been read, `rest` is
readable and no frame is complete. -/
structure Caught (s : WebsocketServer) (done frames : List ClientFrame) (m : Nat)
    (rest : List UInt8) : Prop where
  reading : s.codec.Reading rest frames m
  requests : List.Forall₂ Produced s.requests done
  none : completed frames (m + rest.length) = []
  connected : .shutdown ∉ s.codec.calls

theorem reading_calls {c : WebsocketCodec} (h : c.Reading rest frames m)
    (calls : List ConnCall) :
    ({ c with calls := calls } : WebsocketCodec).Reading rest frames m := by
  cases h with
  | ready h hrest => exact .ready ⟨h.state, h.empty, h.payload, h.lastReadIdx⟩ hrest
  | head h => exact .head ⟨h.empty, h.state, h.buffer, h.payload, h.lastReadIdx⟩
  | payload h hk =>
      exact .payload ⟨h.empty, h.state, h.buffer, h.type, h.payload, h.key,
        h.remains, h.lastReadIdx, h.le, h.received⟩ hk

variable (env onRequest) in
/-- The event brings the end of the first frame: it is answered, and no other. -/
theorem Caught.complete (h : s.Caught done (f :: frames) m rest)
    (hsegment : segment ≠ [])
    (hahead : rest ++ segment ++ future = (wires (f :: frames)).drop m)
    (hend : f.wire.length ≤ m + (rest ++ segment).length) :
    ∃ s' rest', s.onChannelReadable env onRequest segment = .ok s' ∧
      List.Forall₂ Produced s'.requests (done ++ [f]) ∧
      s'.codec.Reading rest' frames 0 ∧ .shutdown ∉ s'.codec.calls ∧
      m + (rest ++ segment).length = f.wire.length + rest'.length ∧
      rest' ++ future = wires frames := by
  have hreads : Reads env _ _ _ _ _ := (h.reading.receive segment).reads
    (List.append_ne_nil_of_right_ne_nil _ hsegment)
    (hahead ▸ List.prefix_append _ _)
    (Nat.le_trans (by rw [wire_length]; omega) hend)
  rw [onChannelReadable, if_neg h.connected, onTcpReceivedData]
  cases hreads with
  | @complete front rest' req c' hsplit hlength hdecode hproduced hnext hcalls =>
      have hrest := congrArg (List.drop front.length) hahead
      rw [hsplit, List.append_assoc, List.drop_left, List.drop_drop, hlength,
        WebsocketCodec.drop_wire] at hrest
      simp only [hdecode]
      refine ⟨_, rest', rfl, ?_, reading_calls hnext _, ?_, ?_, hrest⟩
      · exact List.rel_append h.requests (.cons hproduced .nil)
      · simp only [hcalls]
        intro hmem
        rcases List.mem_append.mp hmem with hmem | hmem
        · exact h.connected hmem
        · simp at hmem
      · rw [hsplit, List.length_append]
        omega
  | incomplete hshort _ _ _ => omega

variable (env onRequest) in
/-- The event brings no end, and the head is readable. -/
theorem Caught.incomplete (h : s.Caught done (f :: frames) m rest)
    (hsegment : segment ≠ [])
    (hahead : rest ++ segment ++ future = (wires (f :: frames)).drop m)
    (hhead : f.head.length ≤ m + (rest ++ segment).length)
    (hshort : m + (rest ++ segment).length < f.wire.length) :
    ∃ s', s.onChannelReadable env onRequest segment = .ok s' ∧
      s'.Caught done (f :: frames) (m + (rest ++ segment).length) [] ∧
      future = (wires (f :: frames)).drop (m + (rest ++ segment).length) := by
  have hreads : Reads env _ _ _ _ _ := (h.reading.receive segment).reads
    (List.append_ne_nil_of_right_ne_nil _ hsegment)
    (hahead ▸ List.prefix_append _ _) hhead
  rw [onChannelReadable, if_neg h.connected, onTcpReceivedData]
  cases hreads with
  | @complete front rest' req c' hsplit hlength _ _ _ _ =>
      rw [hsplit, List.length_append] at hshort
      omega
  | @incomplete c' _ hdecode hnext hcalls =>
      have hrest := congrArg (List.drop (rest ++ segment).length) hahead
      rw [List.drop_left, List.drop_drop] at hrest
      simp only [hdecode]
      refine ⟨_, rfl, ⟨hnext, h.requests, ?_, ?_⟩, hrest⟩
      · rw [List.length_nil, Nat.add_zero, completed, if_neg (by omega)]
      · rw [hcalls]
        exact h.connected

/-- The event ends inside the head of the first frame: the codec crashes, or the
frame is lost. -/
theorem Caught.inside (h : s.Caught done (f :: frames) m rest)
    (hsegment : segment ≠ [])
    (hahead : rest ++ segment ++ future = (wires (f :: frames)).drop m)
    (hshort : m + (rest ++ segment).length < f.head.length)
    (hread : s.onChannelReadable env onRequest segment = .ok s') :
    (s'.Stuck ∧ s'.requests = s.requests) ∨
      ∃ req, s'.requests = s.requests ++ [(req, false)] := by
  have hreceived := h.reading.receive segment
  rw [onChannelReadable, if_neg h.connected, onTcpReceivedData] at hread
  generalize hc : s.codec.receive segment = c at hread hreceived
  have hcalls : c.calls = s.codec.calls := by rw [← hc]; rfl
  cases hreceived with
  | ready _ hnil =>
      exact absurd hnil (List.append_ne_nil_of_right_ne_nil _ hsegment)
  | payload _ _ => omega
  | head hat =>
      have hfront : rest ++ segment <+: f.head := by
        rw [List.drop_zero, wires_cons] at hahead
        apply List.prefix_of_prefix_length_le (hahead ▸ List.prefix_append _ _)
          (List.prefix_append _ _)
        omega
      have hdecode := @WebsocketCodec.decode_head c env hat.state
      rcases WebsocketCodec.decodeFrameHead_cases c with
        ⟨fault, hhead, _⟩ | ⟨c', hhead, hclose, _⟩ |
        ⟨b₀, b₁, stream, c', n, hmemory, hn, hhead, hstate, hsame, _, hrecv, _⟩
      · simp only [hdecode, hhead] at hread
        cases hread
      · simp only [hdecode, hhead] at hread
        obtain rfl := Except.ok.inj hread
        exact Or.inl ⟨Or.inl (by rw [hclose]; simp), rfl⟩
      · have hnot : c'.headReceived = false := by
          rw [hrecv, hn, decide_eq_false
            (hat.not_received hfront (by omega) hmemory)]
        obtain ⟨out, c'', hout, hkeep, hwait⟩ :=
          WebsocketCodec.decode_not_received env hstate hnot
        simp only [hdecode, hhead, hout] at hread
        cases out with
        | none =>
            obtain rfl := Except.ok.inj hread
            exact Or.inl ⟨Or.inr ⟨hwait rfl, hkeep⟩, rfl⟩
        | some req =>
            obtain rfl := Except.ok.inj hread
            exact Or.inr ⟨req, by simp only [hkeep]⟩

/-- With what is still to come, the frames are answered if and only if the events
bring their ends one by one. -/
def EventsIff (env : HandshakeEnv) (onRequest : WsReq → List UInt8)
    (segments : List (List UInt8)) : Prop :=
  ∀ s done frames m rest, Caught s done frames m rest →
    rest ++ segments.flatten = (wires frames).drop m →
    (Answers env onRequest (done ++ frames) s
        ((wires done).length + (m + rest.length)) segments ↔
      OneByOne (done ++ frames) ((wires done).length + (m + rest.length))
        segments)

/-- How far the stream is behind one more segment. -/
theorem position_add (done : List ClientFrame) (m : Nat)
    (rest segment : List UInt8) :
    (wires done).length + (m + rest.length) + segment.length =
      (wires done).length + (m + (rest ++ segment).length) := by
  rw [List.length_append, Nat.add_assoc, Nat.add_assoc]

/-- A head is cut: both sides fail. -/
theorem Caught.iff_of_inside (h : s.Caught done (f :: frames) m rest)
    (hsegment : segment ≠ [])
    (hwire : rest ++ segment ++ segments.flatten = (wires (f :: frames)).drop m)
    (hinside : m + (rest ++ segment).length < f.head.length) :
    Answers env onRequest (done ++ f :: frames) s
        ((wires done).length + (m + rest.length)) (segment :: segments) ↔
      OneByOne (done ++ f :: frames)
        ((wires done).length + (m + rest.length)) (segment :: segments) := by
  have hpos := List.length_pos_of_ne_nil hsegment
  have hshort : m + (rest ++ segment).length < f.wire.length := by
    rw [wire_length]
    omega
  have hopen : completed (f :: frames) (m + (rest ++ segment).length) = [] := by
    rw [completed, if_neg (by omega)]
  have htotal := congrArg List.length hwire
  rw [List.length_append, List.length_drop] at htotal
  rw [Answers, OneByOne, position_add, completed_wires_add, completed_wires_add,
    insideHead_wires_add, h.none, hopen, List.append_nil]
  apply iff_of_false
  · rintro ⟨s', hread, hrequests, hanswers⟩
    rcases h.inside hsegment hwire hinside hread with
      ⟨hstuck, hsame⟩ | ⟨req, hreq⟩
    · refine absurd hanswers (hstuck.not_answers ?_ ?_ ?_)
      · rw [completed_wires_add, hopen, List.append_nil]
        exact hrequests
      · rw [hsame, h.requests.length_eq, List.length_append, List.length_cons]
        omega
      · simp only [wires_append, List.length_append] at htotal ⊢
        omega
    · rw [hreq] at hrequests
      exact not_produced hrequests
  · rintro ⟨hafter | ⟨_, houtside⟩, _⟩
    · omega
    · apply houtside
      rw [InsideHead, if_pos hshort]
      refine ⟨?_, hinside⟩
      rw [List.length_append]
      omega

/-- No frame ends: both sides depend on the other events. -/
theorem Caught.iff_of_incomplete (ih : EventsIff env onRequest segments)
    (h : s.Caught done (f :: frames) m rest) (hsegment : segment ≠ [])
    (hwire : rest ++ segment ++ segments.flatten = (wires (f :: frames)).drop m)
    (hhead : f.head.length ≤ m + (rest ++ segment).length)
    (hshort : m + (rest ++ segment).length < f.wire.length) :
    Answers env onRequest (done ++ f :: frames) s
        ((wires done).length + (m + rest.length)) (segment :: segments) ↔
      OneByOne (done ++ f :: frames)
        ((wires done).length + (m + rest.length)) (segment :: segments) := by
  obtain ⟨s', hread, hcaught, hfuture⟩ := h.incomplete env onRequest
    hsegment hwire hhead hshort
  have hiff := ih s' done (f :: frames) _ [] hcaught hfuture
  have hopen : completed (f :: frames) (m + (rest ++ segment).length) = [] := by
    rw [completed, if_neg (by omega)]
  have houtside : ¬ InsideHead (f :: frames) (m + (rest ++ segment).length) := by
    rw [InsideHead, if_pos hshort]
    omega
  rw [List.length_nil, Nat.add_zero] at hiff
  rw [Answers, OneByOne, position_add, completed_wires_add, completed_wires_add,
    insideHead_wires_add, h.none, hopen, List.append_nil]
  constructor
  · rintro ⟨s'', hread', _, hanswers⟩
    obtain rfl := Except.ok.inj (hread.symm.trans hread')
    exact ⟨Or.inr ⟨rfl, houtside⟩, hiff.mp hanswers⟩
  · rintro ⟨_, hcuts⟩
    exact ⟨s', hread, hcaught.requests, hiff.mpr hcuts⟩

/-- The first frame ends: both sides fail if the next one does, too. -/
theorem Caught.iff_of_complete (ih : EventsIff env onRequest segments)
    (h : s.Caught done (f :: frames) m rest) (hsegment : segment ≠ [])
    (hwire : rest ++ segment ++ segments.flatten = (wires (f :: frames)).drop m)
    (hend : f.wire.length ≤ m + (rest ++ segment).length) :
    Answers env onRequest (done ++ f :: frames) s
        ((wires done).length + (m + rest.length)) (segment :: segments) ↔
      OneByOne (done ++ f :: frames)
        ((wires done).length + (m + rest.length)) (segment :: segments) := by
  obtain ⟨s', rest', hread, hrequests, hreading, hconnected, hlength, hfuture⟩ :=
    h.complete env onRequest hsegment hwire hend
  rw [Answers, OneByOne, position_add, completed_wires_add, completed_wires_add,
    h.none, List.append_nil, completed, if_pos hend, hlength,
    Nat.add_sub_cancel_left]
  by_cases hnone : completed frames rest'.length = []
  · have hcaught : s'.Caught (done ++ [f]) frames 0 rest' :=
      ⟨hreading, hrequests, by rwa [Nat.zero_add], hconnected⟩
    have hiff := ih s' (done ++ [f]) frames 0 rest' hcaught hfuture
    have hposition : (wires (done ++ [f])).length + (0 + rest'.length) =
        (wires done).length + (f.wire.length + rest'.length) := by
      have hnil : (wires []).length = 0 := rfl
      rw [wires_append, List.length_append, wires_cons_length, hnil,
        Nat.zero_add, Nat.add_zero, Nat.add_assoc]
    rw [List.append_assoc, List.singleton_append, hposition] at hiff
    rw [hnone]
    constructor
    · rintro ⟨s'', hread', _, hanswers⟩
      obtain rfl := Except.ok.inj (hread.symm.trans hread')
      exact ⟨Or.inl (by simp), hiff.mp hanswers⟩
    · rintro ⟨_, hcuts⟩
      exact ⟨s', hread, hrequests, hiff.mpr hcuts⟩
  · have hmore := List.length_pos_of_ne_nil hnone
    apply iff_of_false
    · rintro ⟨s'', hread', hrequests', _⟩
      obtain rfl := Except.ok.inj (hread.symm.trans hread')
      have hless := hrequests.length_eq.symm.trans hrequests'.length_eq
      simp only [List.length_append, List.length_cons, List.length_nil] at hless
      omega
    · rintro ⟨hafter, _⟩
      simp only [List.length_append, List.length_cons] at hafter
      omega

theorem eventsIff (env : HandshakeEnv) (onRequest : WsReq → List UInt8)
    (hne : ∀ segment ∈ segments, segment ≠ []) :
    EventsIff env onRequest segments := by
  induction segments with
  | nil => exact fun _ _ _ _ _ _ _ => Iff.rfl
  | cons segment segments ih =>
      intro s done frames m rest h hwire
      have hsegment := hne segment (by simp)
      replace ih := ih fun s hs => hne s (List.mem_cons_of_mem _ hs)
      rw [List.flatten_cons, ← List.append_assoc] at hwire
      cases frames with
      | nil =>
          rw [wires, List.flatMap_nil, List.drop_nil] at hwire
          exact absurd (List.append_eq_nil_iff.mp
            (List.append_eq_nil_iff.mp hwire).1).2 hsegment
      | cons f frames =>
          rcases Nat.lt_or_ge (m + (rest ++ segment).length) f.wire.length with
            hshort | hend
          · rcases Nat.lt_or_ge (m + (rest ++ segment).length) f.head.length with
              hinside | hhead
            · exact h.iff_of_inside hsegment hwire hinside
            · exact h.iff_of_incomplete ih hsegment hwire hhead hshort
          · exact h.iff_of_complete ih hsegment hwire hend

end Events

/-- Every frame is answered in the event that brings its end exactly when no
event brings the end of two, and none that brings no end ends inside a head. -/
theorem answers_iff_oneByOne (env : HandshakeEnv)
    (onRequest : WsReq → List UInt8) {c : WebsocketCodec}
    {frames : List ClientFrame} {segments : List (List UInt8)} (hc : c.Ready)
    (hconnected : .shutdown ∉ c.calls)
    (hne : ∀ segment ∈ segments, segment ≠ [])
    (hwire : segments.flatten = wires frames) :
    Answers env onRequest frames ⟨c, []⟩ 0 segments ↔
      OneByOne frames 0 segments := by
  have hcaught : Caught ⟨c, []⟩ [] frames 0 [] := by
    refine ⟨.ready hc rfl, .nil, ?_, hconnected⟩
    cases frames with
    | nil => rfl
    | cons f frames =>
        have hhead := f.head_length
        rw [completed, if_neg]
        rw [wire_length, List.length_nil]
        omega
  exact eventsIff env onRequest hne _ [] frames 0 [] hcaught hwire

/-- The second frame arrives with the front of its head in the first event. -/
theorem answers_iff_oneByOne_split :
    ∃ c : WebsocketCodec, c.Ready ∧
      Answers WebsocketCodec.exampleEnv WsReq.payload
        WebsocketCodec.exampleFrames ⟨c, []⟩ 0
        [(wires WebsocketCodec.exampleFrames).take 8,
          ((wires WebsocketCodec.exampleFrames).drop 8).take 3,
          (wires WebsocketCodec.exampleFrames).drop 11] := by
  let c : WebsocketCodec :=
    { WebsocketCodec.init (BaseBuffer.ofSize 32) with state := .exceptFrameHead }
  have hc : c.Ready := ⟨rfl, ⟨by decide, by decide⟩, rfl, rfl⟩
  refine ⟨c, hc, (answers_iff_oneByOne WebsocketCodec.exampleEnv WsReq.payload hc
    ?_ ?_ ?_).mpr ?_⟩
  · exact List.not_mem_nil
  · decide +kernel
  · decide +kernel
  · decide +kernel

/-- Both frames arrive in one event behind the handshake: the second one waits. -/
theorem answers_iff_oneByOne_coalesced :
    ∃ c s', WebsocketCodec.decode WebsocketCodec.exampleEnv
        ((WebsocketCodec.init (BaseBuffer.ofSize 1024)).receive
          WebsocketCodec.exampleUpgrade) = .ok (none, c) ∧
      c.state = .exceptFrameHead ∧
      onChannelReadable WebsocketCodec.exampleEnv WsReq.payload ⟨c, []⟩
        (wires WebsocketCodec.exampleFrames) = .ok s' ∧
      s'.requests.length = 1 ∧ WebsocketCodec.exampleFrames.length = 2 ∧
      ¬ Answers WebsocketCodec.exampleEnv WsReq.payload
        WebsocketCodec.exampleFrames ⟨c, []⟩ 0
        [wires WebsocketCodec.exampleFrames] := by
  let c₀ := (WebsocketCodec.init (BaseBuffer.ofSize 1024)).receive
    WebsocketCodec.exampleUpgrade
  have hrun : ((WebsocketCodec.decode WebsocketCodec.exampleEnv c₀).toOption.bind
      fun r => (onChannelReadable WebsocketCodec.exampleEnv WsReq.payload
        ⟨r.2, []⟩ (wires WebsocketCodec.exampleFrames)).toOption.map fun s =>
          (r.1, r.2.state, s.requests.length)) =
        some (none, .exceptFrameHead, 1) := by decide +kernel
  cases hdecode : WebsocketCodec.decode WebsocketCodec.exampleEnv c₀ with
  | error fault =>
      rw [hdecode] at hrun
      cases hrun
  | ok r =>
      obtain ⟨out, c⟩ := r
      cases hread : onChannelReadable WebsocketCodec.exampleEnv WsReq.payload
          ⟨c, []⟩ (wires WebsocketCodec.exampleFrames) with
      | error fault =>
          simp only [hdecode, Except.toOption, Option.bind_some, hread] at hrun
          cases hrun
      | ok s' =>
          simp only [hdecode, Except.toOption, Option.bind_some, hread,
            Option.map_some, Option.some.injEq, Prod.mk.injEq] at hrun
          obtain ⟨rfl, hstate, hone⟩ := hrun
          refine ⟨c, s', rfl, hstate, hread, hone, rfl, ?_⟩
          rintro ⟨s'', hread', hrequests, _⟩
          obtain rfl := Except.ok.inj (hread.symm.trans hread')
          have htwo := hrequests.length_eq
          rw [Nat.zero_add, completed_wires, hone] at htwo
          cases htwo

end WebsocketServer

end Jerry
