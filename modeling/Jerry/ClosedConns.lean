/-
Nothing is done with a connection that was closed in the same iteration of the
loop.  A function that closes a connection must be the last one that uses it: what
the loop comes back to is the list of connections that are pending.
-/
import Jerry.IOWorker
import Mathlib.Data.List.Nodup

namespace Jerry

namespace IOWorker

theorem ActiveChannel.conn?_eq_some {channel : ActiveChannel} {i : Nat}
    (h : channel.conn? = some i) : channel = .conn i := by
  cases channel with
  | conn j => rw [Option.some.inj h]
  | wakeup | acceptor | timer => cases h

namespace Loop

variable {l : Loop} {i : Nat} {op : Operation}

@[simp] theorem touch_activeChannels (l : Loop) (i : Nat) (op : Operation) :
    (l.touch i op).activeChannels = l.activeChannels := by
  rw [touch]
  split <;> rfl

@[simp] theorem touch_stack (l : Loop) (i : Nat) (op : Operation) :
    (l.touch i op).stack = l.stack := by
  rw [touch]
  split <;> rfl

@[simp] theorem touch_closed (l : Loop) (i : Nat) (op : Operation) :
    (l.touch i op).closed = l.closed := by
  rw [touch]
  split <;> rfl

theorem touch_of_not_mem (h : i ∉ l.closed) : l.touch i op = l :=
  if_neg h

theorem touch_late (l : Loop) (i : Nat) (op : Operation) :
    l.late <+: (l.touch i op).late := by
  rw [touch]
  split
  · exact List.prefix_append _ _
  · exact List.prefix_rfl

theorem touch_late_ne_nil (h : i ∈ l.closed) : (l.touch i op).late ≠ [] := by
  rw [touch, if_pos h]
  exact List.append_ne_nil_of_right_ne_nil _ (List.cons_ne_nil _ _)

theorem pending_cons {frame : Frame} {stack : List Frame}
    (h : l.stack = frame :: stack) :
    l.pending = frame.conn?.toList ++ { l with stack := stack }.pending := by
  rw [pending, pending, h]
  cases hconn : frame.conn? <;> simp [hconn]

/-- Nothing was done with a closed connection. -/
def Untouched (l : Loop) : Prop :=
  l.late = []

instance (l : Loop) : Decidable l.Untouched :=
  inferInstanceAs (Decidable (_ = _))

/-- Something was done with a closed connection, or it will be before the
iteration is over: the loop comes back to one that is closed already, or to one
that an unfinished `OnChannelClose` is about to close. -/
inductive Doomed (l : Loop) : Prop
  | late : ¬ l.Untouched → Doomed l
  | closed (i : Nat) : i ∈ l.closed → i ∈ l.pending → Doomed l
  | closing (i : Nat) (inner outer : List Frame) :
      l.stack = inner ++ .onChannelClose i :: outer →
      i ∈ outer.filterMap Frame.conn? ++
        l.activeChannels.filterMap Active.conn? → Doomed l

theorem Doomed.not_untouched (h : l.Doomed) (hidle : l.Idle) :
    ¬ l.Untouched := by
  obtain ⟨hchannels, hstack⟩ := hidle
  cases h with
  | late h => exact h
  | closed i _ hpending =>
      rw [pending, hchannels, hstack] at hpending
      exact absurd hpending List.not_mem_nil
  | closing i inner outer heq _ =>
      rw [hstack] at heq
      simp at heq

end Loop

/-- What a function did to the loop while it worked on connection `i`: it has
called back inside of `frames`. -/
structure Effect (i : Nat) (frames : List Frame) (w w' : IOWorker) : Prop where
  conns : w'.conns.length = w.conns.length
  activeChannels : w'.loop.activeChannels = w.loop.activeChannels
  stack : w'.loop.stack = frames ++ w.loop.stack
  closed : w'.loop.closed = w.loop.closed
  late : w.loop.late <+: w'.loop.late
  untouched : i ∉ w.loop.closed → w'.loop.late = w.loop.late

/-- The frames of `ForceClose`. -/
def closing (i : Nat) : List Frame :=
  [.handler, .onChannelClose i]

section Effects

variable {w w₁ w₂ w' : IOWorker} {i : Nat} {frames inner : List Frame}
  {o : Outside}

theorem Effect.refl (i : Nat) (w : IOWorker) : Effect i [] w w :=
  ⟨rfl, rfl, rfl, rfl, List.prefix_rfl, fun _ => rfl⟩

theorem Effect.trans (hfirst : Effect i frames w w₁)
    (hsecond : Effect i inner w₁ w₂) : Effect i (inner ++ frames) w w₂ where
  conns := hsecond.conns.trans hfirst.conns
  activeChannels := hsecond.activeChannels.trans hfirst.activeChannels
  stack := by rw [hsecond.stack, hfirst.stack, List.append_assoc]
  closed := hsecond.closed.trans hfirst.closed
  late := hfirst.late.trans hsecond.late
  untouched := by
    intro hi
    rw [hsecond.untouched (hfirst.closed.symm ▸ hi), hfirst.untouched hi]

theorem on_effect (w : IOWorker) (i : Nat) (op : Operation)
    (f : TcpConn → TcpConn) : Effect i [] w (w.on i op f) where
  conns := List.length_modify _ _ _
  activeChannels := w.loop.touch_activeChannels i op
  stack := w.loop.touch_stack i op
  closed := w.loop.touch_closed i op
  late := w.loop.touch_late i op
  untouched hi := by rw [on, Loop.touch_of_not_mem hi]

theorem on_id_conns (w : IOWorker) (i : Nat) (op : Operation) :
    (w.on i op id).conns = w.conns :=
  List.modify_id _ _

theorem push_effect (w : IOWorker) (i : Nat) (frames : List Frame) :
    Effect i frames w (w.push frames) :=
  ⟨rfl, rfl, rfl, rfl, List.prefix_rfl, fun _ => rfl⟩

/-- Something is done with the connection before. -/
theorem Effect.after_on {op : Operation} {f : TcpConn → TcpConn}
    (h : Effect i frames (w.on i op f) w') : Effect i frames w w' := by
  have htrans := (on_effect w i op f).trans h
  rwa [List.append_nil] at htrans

theorem Effect.late_nil (h : Effect i frames w w')
    (huntouched : w'.loop.Untouched) : w.loop.Untouched :=
  List.prefix_nil.mp (huntouched ▸ h.late)

theorem onChannelClose_effect (w : IOWorker) (i : Nat) :
    Effect i (closing i) w (w.onChannelClose i) :=
  (push_effect _ i (closing i)).after_on

theorem shutdown_effect (w : IOWorker) (i : Nat) (o : Outside) :
    Effect i (if o.shutdownFails then closing i else []) w
      (w.shutdown i o) := by
  simp only [shutdown]
  split
  · exact (onChannelClose_effect _ i).after_on
  · exact on_effect w i _ _

theorem onConnected_effect (w : IOWorker) (i : Nat) (o : Outside) :
    Effect i (if o.limited then if o.shutdownFails then closing i else []
      else [.handler]) w (w.onConnected i o) := by
  simp only [onConnected]
  split
  · exact (shutdown_effect _ i o).after_on
  · exact (push_effect _ i [.handler]).after_on

theorem handleNext_eq {e : Active} {rest : List Active}
    (h : w.loop.activeChannels = e :: rest) (o : Outside) (accepted : Bool) :
    w.handleNext o accepted =
      { w with loop := { w.loop with activeChannels := rest } }.handleEvent e o
        accepted := by
  rw [handleNext, h]

theorem resume_eq {frame : Frame} {stack : List Frame}
    (h : w.loop.stack = frame :: stack) :
    w.resume =
      { w with loop := { w.loop with stack := stack } }.finish frame := by
  rw [resume, h]

/-- A function that comes back to its connection at most once. -/
def Returns (i : Nat) (w w' : IOWorker) : Prop :=
  ∃ frames, Effect i frames w w' ∧ (frames.filterMap Frame.conn?).Sublist [i]

theorem Returns.refl (i : Nat) (w : IOWorker) : Returns i w w :=
  ⟨[], .refl i w, List.nil_sublist _⟩

theorem Returns.after_on {op : Operation} {f : TcpConn → TcpConn}
    (h : Returns i (w.on i op f) w') : Returns i w w' := by
  obtain ⟨frames, heffect, honce⟩ := h
  exact ⟨frames, heffect.after_on, honce⟩

theorem push_handler_returns (w : IOWorker) (i : Nat) :
    Returns i w (w.push [.handler]) :=
  ⟨_, push_effect w i _, List.nil_sublist _⟩

theorem onChannelClose_returns (w : IOWorker) (i : Nat) :
    Returns i w (w.onChannelClose i) :=
  ⟨_, onChannelClose_effect w i, List.Sublist.refl _⟩

theorem shutdown_returns (w : IOWorker) (i : Nat) (o : Outside) :
    Returns i w (w.shutdown i o) := by
  refine ⟨_, shutdown_effect w i o, ?_⟩
  split
  · exact List.Sublist.refl _
  · exact List.nil_sublist _

theorem onDataReceived_returns (w : IOWorker) (i : Nat) (o : Outside) :
    Returns i w (w.onDataReceived i o) := by
  simp only [onDataReceived]
  split
  · exact shutdown_returns w i o
  · exact (push_handler_returns _ i).after_on

theorem onChannelReadable_returns (w : IOWorker) (i : Nat) (o : Outside) :
    Returns i w (w.onChannelReadable i o) := by
  simp only [onChannelReadable]
  split
  · exact .refl i w
  · split
    · split
      · apply Returns.after_on
        split
        · exact shutdown_returns _ i o
        · split
          · split
            · exact .refl i _
            · exact onChannelClose_returns _ i
          · exact onDataReceived_returns _ i o
      · split
        · exact (onChannelClose_returns _ i).after_on
        · exact (onDataReceived_returns _ i o).after_on
    · exact .refl i w

/-- A write to an encrypted connection that does not take anything. -/
def WriteFails (c : TcpConn) (o : Outside) : Prop :=
  c.isConnected = true ∧ c.isEncrypted = true ∧ o.write.toInt ≤ 0

instance (c : TcpConn) (o : Outside) : Decidable (WriteFails c o) :=
  inferInstanceAs (Decidable (_ ∧ _ ∧ _))

variable {c : TcpConn}

theorem onChannelWritable_returns (hc : w.conns[i]? = some c)
    (h : ¬ WriteFails c o) : Returns i w (w.onChannelWritable i o) := by
  simp only [onChannelWritable, hc]
  split
  · rename_i hconnected
    split
    · rename_i hencrypted
      have htakes : ¬ (c.sendBuffer.writeBytesToSsl o.write).2 ≤ 0 :=
        fun hfails => h ⟨hconnected, hencrypted, hfails⟩
      rw [if_neg htakes]
      exact ⟨_, (on_effect _ i _ _).after_on, List.nil_sublist _⟩
    · split
      · exact (push_handler_returns _ i).after_on.after_on
      · exact ⟨_, (on_effect _ i _ _).after_on, List.nil_sublist _⟩
  · exact .refl i w

theorem onChannelWritable_fails (hc : w.conns[i]? = some c)
    (h : WriteFails c o) :
    Effect i (closing i ++ [.onChannelWritable i]) w
      (w.onChannelWritable i o) := by
  obtain ⟨hconnected, hencrypted, hfails⟩ := h
  have hwritten : (c.sendBuffer.writeBytesToSsl o.write).2 ≤ 0 := hfails
  simp only [onChannelWritable, hc, hconnected, hencrypted, if_true, hwritten]
  exact ((push_effect _ i [.onChannelWritable i]).trans
    (onChannelClose_effect _ i)).after_on

/-- Only a failed write comes back to the connection that it has closed. -/
theorem channelCallback_returns {callback : ChannelCallback}
    (hc : w.conns[i]? = some c)
    (h : ¬ (callback = .onWritable ∧ WriteFails c o)) :
    Returns i w (w.channelCallback i o callback) := by
  cases callback with
  | onReadable => exact onChannelReadable_returns w i o
  | onWritable => exact onChannelWritable_returns hc fun hfails => h ⟨rfl, hfails⟩
  | onPeerClose => exact onChannelClose_returns w i
  | onError => exact onChannelClose_returns w i

namespace Call

/-- The call closes its connection. -/
def Closes : Call → Prop
  | .shutdown _ o => o.shutdownFails = true
  | .forceClose _ => True
  | _ => False

/-- `Send` is the one call that looks at the state of its connection. -/
def LooksFirst : Call → Prop
  | .send _ _ => True
  | _ => False

instance : ∀ call : Call, Decidable call.Closes
  | .shutdown _ _ => inferInstanceAs (Decidable (_ = _))
  | .forceClose _ => inferInstanceAs (Decidable True)
  | .send _ _ | .recvBuffer _ _ | .sendBuffer _ _ | .channel _ _ =>
      inferInstanceAs (Decidable False)

instance : ∀ call : Call, Decidable call.LooksFirst
  | .send _ _ => inferInstanceAs (Decidable True)
  | .shutdown _ _ | .forceClose _ | .recvBuffer _ _ | .sendBuffer _ _
  | .channel _ _ => inferInstanceAs (Decidable False)

theorem exec_closes {call : Call} (h : call.Closes) :
    Effect call.conn (closing call.conn) w (call.exec w) := by
  cases call with
  | shutdown i o =>
      have hfails : o.shutdownFails = true := h
      have heffect := shutdown_effect w i o
      rwa [if_pos hfails] at heffect
  | forceClose i => exact onChannelClose_effect w i
  | send => exact h.elim
  | recvBuffer => exact h.elim
  | sendBuffer => exact h.elim
  | channel => exact h.elim

theorem exec_not_closes {call : Call} (h : ¬ call.Closes) :
    Effect call.conn [] w (call.exec w) := by
  cases call with
  | shutdown i o =>
      have hworks : ¬ o.shutdownFails = true := h
      have heffect := shutdown_effect w i o
      rwa [if_neg hworks] at heffect
  | forceClose i => exact absurd trivial h
  | send i data =>
      exact ⟨List.length_modify _ _ _, rfl, rfl, rfl, List.prefix_rfl,
        fun _ => rfl⟩
  | recvBuffer i op => exact on_effect w i _ _
  | sendBuffer i op => exact on_effect w i _ _
  | channel i op => exact on_effect w i _ _

/-- A call on a closed connection is noticed. -/
theorem exec_touches {call : Call} (hlooks : ¬ call.LooksFirst)
    (h : call.conn ∈ w.loop.closed) : ¬ (call.exec w).loop.Untouched := by
  have hon (op : Operation) (f : TcpConn → TcpConn) :
      ¬ (w.on call.conn op f).loop.Untouched := Loop.touch_late_ne_nil h
  cases call with
  | send => exact absurd trivial hlooks
  | shutdown i o =>
      simp only [exec, IOWorker.shutdown]
      split
      · exact fun hnil => hon _ _
          ((onChannelClose_effect _ i).late_nil hnil)
      · exact hon _ _
  | forceClose i =>
      exact fun hnil => hon _ _ ((push_effect _ i (closing i)).late_nil hnil)
  | recvBuffer i op => exact hon _ _
  | sendBuffer i op => exact hon _ _
  | channel i op => exact hon _ _

end Call

end Effects

section Sound

variable {w w' : IOWorker} {i : Nat} {frames : List Frame} {op : Op}

/-- No connection the loop comes back to is closed, and it comes back to each of
them once. -/
structure Sound (w : IOWorker) : Prop where
  late : w.loop.Untouched
  nodup : w.loop.pending.Nodup
  closed : ∀ i ∈ w.loop.closed, i ∉ w.loop.pending
  known : ∀ i, i ∈ w.loop.closed ∨ i ∈ w.loop.pending → i < w.conns.length

/-- A connection that is in use and free to be closed. -/
structure Free (w : IOWorker) (i : Nat) : Prop where
  closed : i ∉ w.loop.closed
  pending : i ∉ w.loop.pending
  known : i < w.conns.length

theorem Effect.pending (h : Effect i frames w w') :
    w'.loop.pending = frames.filterMap Frame.conn? ++ w.loop.pending := by
  rw [Loop.pending, h.stack, h.activeChannels, List.filterMap_append,
    List.append_assoc]
  rfl

/-- A function that comes back to nothing keeps the loop sound. -/
theorem Effect.sound_of_nil (h : Effect i frames w w') (hsound : w.Sound)
    (hi : i ∉ w.loop.closed) (hframes : frames.filterMap Frame.conn? = []) :
    w'.Sound := by
  have hpending := h.pending
  rw [hframes, List.nil_append] at hpending
  refine ⟨(h.untouched hi).trans hsound.late, ?_, ?_, ?_⟩
  · rw [hpending]
    exact hsound.nodup
  · rw [hpending, h.closed]
    exact hsound.closed
  · rw [hpending, h.closed, h.conns]
    exact hsound.known

/-- So does one that comes back to a connection that is free. -/
theorem Effect.sound_of_free (h : Effect i frames w w') (hsound : w.Sound)
    (hi : w.Free i) (hframes : frames.filterMap Frame.conn? = [i]) :
    w'.Sound := by
  have hpending := h.pending
  rw [hframes, List.singleton_append] at hpending
  refine ⟨(h.untouched hi.closed).trans hsound.late, ?_, ?_, ?_⟩
  · rw [hpending]
    exact List.nodup_cons.mpr ⟨hi.pending, hsound.nodup⟩
  · rw [hpending, h.closed]
    intro j hj hmem
    rcases List.mem_cons.mp hmem with rfl | hmem
    · exact hi.closed hj
    · exact hsound.closed j hj hmem
  · rw [hpending, h.closed, h.conns]
    rintro j (hj | hj)
    · exact hsound.known j (Or.inl hj)
    · rcases List.mem_cons.mp hj with rfl | hj
      · exact hi.known
      · exact hsound.known j (Or.inr hj)

theorem Returns.sound (h : Returns i w w') (hsound : w.Sound) (hi : w.Free i) :
    w'.Sound := by
  obtain ⟨frames, heffect, honce⟩ := h
  rcases List.sublist_singleton.mp honce with hframes | hframes
  · exact heffect.sound_of_nil hsound hi.closed hframes
  · exact heffect.sound_of_free hsound hi hframes

/-- The loop takes up what it had left to do: a channel or a frame. -/
theorem Sound.take {loop : Loop} {j? : Option Nat} (h : w.Sound)
    (hpending : w.loop.pending.Perm (j?.toList ++ loop.pending))
    (hlate : loop.late = w.loop.late) (hclosed : loop.closed = w.loop.closed) :
    { w with loop := loop }.Sound ∧
      ∀ i ∈ j?, { w with loop := loop }.Free i := by
  have hnodup := hpending.nodup_iff.mp h.nodup
  have hmem {i : Nat} (hi : i ∈ loop.pending) : i ∈ w.loop.pending :=
    hpending.mem_iff.mpr (List.mem_append_right _ hi)
  refine ⟨⟨hlate.trans h.late, (List.nodup_append.mp hnodup).2.1, ?_, ?_⟩, ?_⟩
  · intro i hi hin
    exact h.closed i (hclosed ▸ hi) (hmem hin)
  · rintro i (hi | hi)
    · exact h.known i (Or.inl (hclosed ▸ hi))
    · exact h.known i (Or.inr (hmem hi))
  · intro i hi
    obtain rfl : j? = some i := hi
    have hin : i ∈ w.loop.pending :=
      hpending.mem_iff.mpr (List.mem_append_left _ (by simp))
    refine ⟨fun hcl => h.closed i (hclosed ▸ hcl) hin, ?_,
      h.known i (Or.inr hin)⟩
    exact (List.nodup_cons.mp hnodup).1

theorem Sound.of_loop (h : w.Sound) (hloop : w'.loop = w.loop)
    (hconns : w.conns.length ≤ w'.conns.length) : w'.Sound := by
  refine ⟨hloop ▸ h.late, hloop ▸ h.nodup, hloop ▸ h.closed, ?_⟩
  rw [hloop]
  exact fun i hi => Nat.lt_of_lt_of_le (h.known i hi) hconns

/-- The number that the next connection will have is not in use. -/
theorem Sound.next_not_closed (h : w.Sound) : w.conns.length ∉ w.loop.closed :=
  fun hmem => Nat.lt_irrefl _ (h.known _ (Or.inl hmem))

theorem Sound.next_not_pending (h : w.Sound) :
    w.conns.length ∉ w.loop.pending :=
  fun hmem => Nat.lt_irrefl _ (h.known _ (Or.inr hmem))

theorem Sound.push_handler (h : w.Sound) : (w.push [.handler]).Sound :=
  (push_effect w w.conns.length _).sound_of_nil h h.next_not_closed rfl

/-- What may happen when the event of a channel is handled. -/
def AllowsEvent (w : IOWorker) (e : Active) (o : Outside) (accepted : Bool) :
    Prop :=
  match e.channel with
  | .conn i =>
      e.events.callback = .onWritable → ∀ c ∈ w.conns[i]?, ¬ WriteFails c o
  | .acceptor =>
      e.events.callback = .onReadable ∧ accepted = true →
        ¬ (o.limited = true ∧ o.shutdownFails = true)
  | .timer | .wakeup => True

/-- When a step leaves no use of a closed connection behind: no write to an
encrypted connection fails, no client that is refused fails to shut down, and a
handler closes no connection that the loop comes back to and calls nothing but
`Send` on one that was closed. -/
def Allows (w : IOWorker) : Op → Prop
  | .poll _ | .resume => True
  | .handleNext o accepted =>
      ∀ e ∈ w.loop.activeChannels.head?, w.AllowsEvent e o accepted
  | .call call =>
      (call.LooksFirst ∨ call.conn ∉ w.loop.closed) ∧
        (call.Closes → call.conn ∉ w.loop.pending)

theorem Sound.onPeerConnect {o : Outside} (h : w.Sound)
    (hallows : ¬ (o.limited = true ∧ o.shutdownFails = true)) :
    (w.onPeerConnect o).Sound := by
  let w₁ : IOWorker :=
    { w with conns := w.conns ++ [TcpConn.ofClient w.useSsl] }
  have hlength : w₁.conns.length = w.conns.length + 1 := by
    rw [List.length_append, List.length_singleton]
  have hsound : w₁.Sound := h.of_loop rfl (hlength ▸ Nat.le_succ _)
  have hfree : w₁.Free w.conns.length :=
    ⟨h.next_not_closed, h.next_not_pending, hlength ▸ Nat.lt_succ_self _⟩
  have hpushed := (push_effect w₁ w.conns.length
    [.onPeerConnect w.conns.length]).sound_of_free hsound hfree rfl
  refine (onConnected_effect _ w.conns.length o).sound_of_nil hpushed hfree.closed ?_
  split
  · rename_i hlimited
    rw [if_neg fun hfails => hallows ⟨hlimited, hfails⟩]
    rfl
  · rfl

theorem Sound.handleEvent {e : Active} {o : Outside} {accepted : Bool}
    (h : w.Sound) (hfree : ∀ i ∈ e.conn?, w.Free i)
    (hallows : w.AllowsEvent e o accepted) :
    (w.handleEvent e o accepted).Sound := by
  obtain ⟨channel, events⟩ := e
  cases channel with
  | wakeup => exact h
  | timer =>
      simp only [IOWorker.handleEvent]
      split
      · exact h.push_handler
      · exact h
  | acceptor =>
      simp only [IOWorker.handleEvent]
      split
      · rename_i hevent
        exact h.onPeerConnect (hallows hevent)
      · exact h
  | conn i =>
      have hi : w.Free i := hfree i rfl
      obtain ⟨c, hc⟩ : ∃ c, w.conns[i]? = some c :=
        ⟨_, List.getElem?_eq_getElem hi.known⟩
      have hsame : (w.on i .handleEvent id).conns[i]? = some c := by
        rw [on_id_conns, hc]
      have hreturns := channelCallback_returns (o := o) hsame
        fun hevent => hallows hevent.1 c hc hevent.2
      exact hreturns.after_on.sound h hi

theorem Sound.removeFromIOWorker (h : w.Sound) (hi : w.Free i) :
    (w.removeFromIOWorker i).Sound := by
  have heffect := on_effect w i .removeFromIOWorker .removeFromIOWorker
  have hsound := heffect.sound_of_nil h hi.closed rfl
  have hpending := heffect.pending
  rw [List.filterMap_nil, List.nil_append] at hpending
  refine ⟨hsound.late, hsound.nodup, ?_, ?_⟩
  · intro j hj hmem
    rcases List.mem_cons.mp hj with rfl | hj
    · exact hi.pending (hpending ▸ hmem)
    · exact hsound.closed j hj hmem
  · rintro j (hj | hj)
    · rcases List.mem_cons.mp hj with rfl | hj
      · exact heffect.conns.symm ▸ hi.known
      · exact hsound.known j (Or.inl hj)
    · exact hsound.known j (Or.inr hj)

theorem Sound.poll {batch : List Active} (h : w.Sound)
    (hstack : w.loop.stack = []) (hnodup : (batch.map Active.channel).Nodup)
    (hpolls : ∀ e ∈ batch, w.Polls e.channel) :
    { w with loop :=
      { w.loop with activeChannels := batch, closed := [] } }.Sound := by
  have hpending : ({ w.loop with activeChannels := batch, closed := [] } :
      Loop).pending = batch.filterMap Active.conn? := by
    rw [Loop.pending, hstack]
    rfl
  refine ⟨h.late, ?_, List.forall_mem_nil _, ?_⟩
  · have hinj : ∀ channel channel' : ActiveChannel, ∀ i ∈ channel.conn?,
        i ∈ channel'.conn? → channel = channel' := by
      intro channel channel' i h h'
      rw [ActiveChannel.conn?_eq_some h, ActiveChannel.conn?_eq_some h']
    have hconns : (batch.map Active.channel).filterMap ActiveChannel.conn? =
        batch.filterMap Active.conn? := List.filterMap_map
    rw [hpending, ← hconns]
    exact hnodup.filterMap hinj
  · rintro i (hi | hi)
    · exact absurd hi List.not_mem_nil
    · have hi' : i ∈ batch.filterMap Active.conn? := hpending ▸ hi
      obtain ⟨e, he, hconn⟩ := List.mem_filterMap.mp hi'
      have hknown := hpolls e he
      rw [ActiveChannel.conn?_eq_some hconn] at hknown
      obtain ⟨c, hc, _⟩ := hknown
      exact (List.getElem?_eq_some_iff.mp hc).1

theorem Sound.exec (h : w.Sound) (henabled : op.Enabled w)
    (hallows : w.Allows op) : (op.exec w).Sound := by
  cases op with
  | poll batch =>
      obtain ⟨⟨_, hstack⟩, hnodup, hpolls⟩ := henabled
      exact h.poll hstack hnodup hpolls
  | handleNext o accepted =>
      obtain ⟨hstack, e, he, _⟩ := henabled
      obtain ⟨rest, hbatch⟩ := List.head?_eq_some_iff.mp he
      have hperm : w.loop.pending.Perm
          (e.conn?.toList ++
            Loop.pending ⟨rest, w.loop.stack, w.loop.closed, w.loop.late⟩) := by
        rw [Loop.pending, Loop.pending, hstack, hbatch]
        cases hconn : e.conn? <;> simp [hconn]
      obtain ⟨hsound, hfree⟩ := h.take hperm rfl rfl
      have hevent := hallows e he
      change (w.handleNext o accepted).Sound
      rw [handleNext_eq hbatch]
      exact hsound.handleEvent hfree hevent
  | call call =>
      obtain ⟨hclosed, hpending⟩ := hallows
      by_cases hcloses : call.Closes
      · have hnot : ¬ call.LooksFirst := by
          cases call <;> simp_all [Call.Closes, Call.LooksFirst]
        exact (Call.exec_closes hcloses).sound_of_free h
          ⟨hclosed.resolve_left hnot, hpending hcloses, henabled.2⟩ rfl
      · by_cases hlooks : call.LooksFirst
        · cases call with
          | send i data =>
              exact h.of_loop rfl (Nat.le_of_eq (List.length_modify _ _ _).symm)
          | shutdown | forceClose | recvBuffer | sendBuffer | channel =>
              exact hlooks.elim
        · exact (Call.exec_not_closes hcloses).sound_of_nil h
            (hclosed.resolve_left hlooks) rfl
  | resume =>
      obtain ⟨frame, stack, hstack⟩ := List.exists_cons_of_ne_nil henabled
      obtain ⟨hsound, hfree⟩ :=
        h.take (List.Perm.of_eq (Loop.pending_cons hstack)) rfl rfl
      change w.resume.Sound
      rw [resume_eq hstack]
      cases frame with
      | handler => exact hsound
      | onChannelClose i => exact hsound.removeFromIOWorker (hfree i rfl)
      | onChannelWritable i =>
          exact (on_effect _ i _ _).sound_of_nil hsound (hfree i rfl).closed rfl
      | onPeerConnect i =>
          exact (on_effect _ i _ _).sound_of_nil hsound (hfree i rfl).closed rfl

end Sound

section Doomed

variable {w w' : IOWorker} {i : Nat} {frames : List Frame} {op : Op}

theorem Effect.doomed (h : Effect i frames w w') (hdoomed : w.loop.Doomed) :
    w'.loop.Doomed := by
  cases hdoomed with
  | late hlate => exact .late fun hnil => hlate (h.late_nil hnil)
  | closed j hj hpending =>
      refine .closed j (h.closed.symm ▸ hj) ?_
      rw [h.pending]
      exact List.mem_append_right _ hpending
  | closing j inner outer hstack hmem =>
      refine .closing j (frames ++ inner) outer ?_ (h.activeChannels.symm ▸ hmem)
      rw [h.stack, hstack, List.append_assoc]

theorem channelCallback_effect (w : IOWorker) (i : Nat) (o : Outside)
    (callback : ChannelCallback) :
    ∃ frames, Effect i frames w (w.channelCallback i o callback) := by
  cases hc : w.conns[i]? with
  | none =>
      cases callback with
      | onReadable =>
          simp only [channelCallback, onChannelReadable, hc]
          exact ⟨_, .refl i w⟩
      | onWritable =>
          simp only [channelCallback, onChannelWritable, hc]
          exact ⟨_, .refl i w⟩
      | onPeerClose => exact ⟨_, onChannelClose_effect w i⟩
      | onError => exact ⟨_, onChannelClose_effect w i⟩
  | some c =>
      by_cases hfails : callback = .onWritable ∧ WriteFails c o
      · obtain ⟨rfl, hfails⟩ := hfails
        exact ⟨_, onChannelWritable_fails hc hfails⟩
      · obtain ⟨frames, heffect, _⟩ := channelCallback_returns hc hfails
        exact ⟨frames, heffect⟩

theorem onPeerConnect_effect (w : IOWorker) (o : Outside) :
    ∃ w₁ : IOWorker, w₁.loop = w.loop ∧
      Effect w.conns.length ((if o.limited then
        if o.shutdownFails then closing w.conns.length else []
        else [.handler]) ++ [.onPeerConnect w.conns.length]) w₁
        (w.onPeerConnect o) :=
  ⟨{ w with conns := w.conns ++ [TcpConn.ofClient w.useSsl] }, rfl,
    (push_effect _ _ [.onPeerConnect w.conns.length]).trans
      (onConnected_effect _ _ o)⟩

theorem handleEvent_doomed (h : w.loop.Doomed) (e : Active) (o : Outside)
    (accepted : Bool) : (w.handleEvent e o accepted).loop.Doomed := by
  obtain ⟨channel, events⟩ := e
  cases channel with
  | wakeup => exact h
  | timer =>
      simp only [handleEvent]
      split
      · exact (push_effect w 0 [.handler]).doomed h
      · exact h
  | acceptor =>
      simp only [handleEvent]
      split
      · obtain ⟨w₁, hloop, heffect⟩ := onPeerConnect_effect w o
        exact heffect.doomed (hloop.symm ▸ h)
      · exact h
  | conn i =>
      obtain ⟨frames, heffect⟩ :=
        channelCallback_effect (w.on i .handleEvent id) i o events.callback
      exact heffect.doomed ((on_effect w i .handleEvent id).doomed h)

/-- The event of a closed connection is noticed. -/
theorem handleEvent_touches {e : Active} {o : Outside} {accepted : Bool}
    (h : ∃ i ∈ e.conn?, i ∈ w.loop.closed) :
    ¬ (w.handleEvent e o accepted).loop.Untouched := by
  obtain ⟨i, hconn, hclosed⟩ := h
  obtain ⟨channel, events⟩ := e
  obtain rfl : channel = .conn i := ActiveChannel.conn?_eq_some hconn
  obtain ⟨frames, heffect⟩ :=
    channelCallback_effect (w.on i .handleEvent id) i o events.callback
  exact fun hnil => Loop.touch_late_ne_nil hclosed (heffect.late_nil hnil)

theorem removeFromIOWorker_doomed (h : w.loop.Doomed) (i : Nat) :
    (w.removeFromIOWorker i).loop.Doomed := by
  have hon := (on_effect w i .removeFromIOWorker .removeFromIOWorker).doomed h
  cases hon with
  | late hlate => exact .late hlate
  | closed j hj hpending => exact .closed j (List.mem_cons_of_mem _ hj) hpending
  | closing j inner outer hstack hmem => exact .closing j inner outer hstack hmem

theorem finish_doomed (h : w.loop.Doomed) (frame : Frame) :
    (w.finish frame).loop.Doomed := by
  cases frame with
  | handler => exact h
  | onChannelClose i => exact removeFromIOWorker_doomed h i
  | onChannelWritable i => exact (on_effect w i _ _).doomed h
  | onPeerConnect i => exact (on_effect w i _ _).doomed h

theorem finish_touches {frame : Frame}
    (h : ∃ i ∈ frame.conn?, i ∈ w.loop.closed) :
    ¬ (w.finish frame).loop.Untouched := by
  obtain ⟨i, hconn, hclosed⟩ := h
  have hon (op : Operation) (f : TcpConn → TcpConn) :
      ¬ (w.on i op f).loop.Untouched := Loop.touch_late_ne_nil hclosed
  cases frame with
  | handler => cases hconn
  | onChannelClose j | onChannelWritable j | onPeerConnect j =>
      obtain rfl : j = i := Option.some.inj hconn
      exact hon _ _

/-- To close a connection that the loop comes back to is fatal. -/
theorem Effect.doomed_of_pending (h : Effect i (closing i ++ frames) w w')
    (hi : i ∈ frames.filterMap Frame.conn? ++ w.loop.pending) :
    w'.loop.Doomed := by
  refine .closing i [.handler] (frames ++ w.loop.stack) ?_ ?_
  · rw [h.stack, closing, List.append_assoc]
    rfl
  · rwa [h.activeChannels, List.filterMap_append, List.append_assoc]

/-- What the loop comes back to is handled now, or it is still there. -/
theorem doomed_exec (h : w.loop.Doomed) (henabled : op.Enabled w) :
    (op.exec w).loop.Doomed := by
  cases op with
  | poll batch => exact .late (h.not_untouched henabled.1)
  | handleNext o accepted =>
      obtain ⟨hstack, e, he, _⟩ := henabled
      obtain ⟨rest, hbatch⟩ := List.head?_eq_some_iff.mp he
      change (w.handleNext o accepted).loop.Doomed
      rw [handleNext_eq hbatch]
      cases h with
      | late hlate =>
          apply handleEvent_doomed
          exact .late hlate
      | closing i inner outer heq _ =>
          rw [hstack] at heq
          simp at heq
      | closed i hclosed hpending =>
          rw [Loop.pending, hstack, hbatch] at hpending
          obtain ⟨e', he', hconn⟩ := List.mem_filterMap.mp hpending
          rcases List.mem_cons.mp he' with rfl | he'
          · exact .late (handleEvent_touches ⟨i, hconn, hclosed⟩)
          · apply handleEvent_doomed
            exact .closed i hclosed (List.mem_append_right _
              (List.mem_filterMap.mpr ⟨e', he', hconn⟩))
  | call call =>
      by_cases hcloses : call.Closes
      · exact (Call.exec_closes hcloses).doomed h
      · exact (Call.exec_not_closes hcloses).doomed h
  | resume =>
      obtain ⟨frame, stack, hstack⟩ := List.exists_cons_of_ne_nil henabled
      change w.resume.loop.Doomed
      rw [resume_eq hstack]
      cases h with
      | late hlate =>
          apply finish_doomed
          exact .late hlate
      | closed i hclosed hpending =>
          rw [Loop.pending_cons hstack] at hpending
          rcases List.mem_append.mp hpending with hconn | hrest
          · exact .late (finish_touches ⟨i, Option.mem_toList.mp hconn, hclosed⟩)
          · apply finish_doomed
            exact .closed i hclosed hrest
      | closing i inner outer heq hmem =>
          rw [hstack] at heq
          cases inner with
          | nil =>
              obtain ⟨rfl, rfl⟩ := List.cons.inj heq
              have hon := on_effect { w with loop := { w.loop with stack := stack } }
                i .removeFromIOWorker .removeFromIOWorker
              exact .closed i List.mem_cons_self (hon.pending ▸ hmem)
          | cons frame' inner =>
              obtain ⟨rfl, rfl⟩ := List.cons.inj heq
              apply finish_doomed
              exact .closing i inner outer rfl hmem

theorem onPeerConnect_doomed {o : Outside} (hlimited : o.limited = true)
    (hfails : o.shutdownFails = true) : (w.onPeerConnect o).loop.Doomed := by
  obtain ⟨w₁, _, heffect⟩ := onPeerConnect_effect w o
  rw [if_pos hlimited, if_pos hfails] at heffect
  exact heffect.doomed_of_pending (List.mem_append_left _ List.mem_cons_self)

theorem handleEvent_not_allowed {e : Active} {o : Outside} {accepted : Bool}
    (hnot : ¬ w.AllowsEvent e o accepted) :
    (w.handleEvent e o accepted).loop.Doomed := by
  obtain ⟨channel, events⟩ := e
  cases channel with
  | wakeup => exact absurd trivial hnot
  | timer => exact absurd trivial hnot
  | acceptor =>
      obtain ⟨hreads, hrefused⟩ := Classical.not_imp.mp hnot
      obtain ⟨hlimited, hfails⟩ := not_not.mp hrefused
      have haccepts : w.handleEvent ⟨.acceptor, events⟩ o accepted =
          w.onPeerConnect o := if_pos hreads
      rw [haccepts]
      exact onPeerConnect_doomed hlimited hfails
  | conn i =>
      obtain ⟨hwrites, hsome⟩ := Classical.not_imp.mp hnot
      rw [not_forall₂] at hsome
      obtain ⟨c, hc, hfails⟩ := hsome
      have hsame : (w.on i .handleEvent id).conns[i]? = some c := by
        rw [on_id_conns, hc]
      have hcallback : w.handleEvent ⟨.conn i, events⟩ o accepted =
          (w.on i .handleEvent id).onChannelWritable i o :=
        congrArg ((w.on i .handleEvent id).channelCallback i o) hwrites
      rw [hcallback]
      exact (onChannelWritable_fails hsame (not_not.mp hfails)).doomed_of_pending
        (List.mem_append_left _ List.mem_cons_self)

/-- A step that is not allowed leaves the use of a closed connection behind. -/
theorem doomed_of_not_allows (henabled : op.Enabled w)
    (hnot : ¬ w.Allows op) : (op.exec w).loop.Doomed := by
  cases op with
  | poll batch => exact absurd trivial hnot
  | resume => exact absurd trivial hnot
  | call call =>
      by_cases hclosed : call.LooksFirst ∨ call.conn ∉ w.loop.closed
      · have hpending : ¬ (call.Closes → call.conn ∉ w.loop.pending) :=
          fun hpending => hnot ⟨hclosed, hpending⟩
        obtain ⟨hcloses, hmem⟩ := Classical.not_imp.mp hpending
        exact (Call.exec_closes hcloses).doomed_of_pending (not_not.mp hmem)
      · rw [not_or, not_not] at hclosed
        exact .late (Call.exec_touches hclosed.1 hclosed.2)
  | handleNext o accepted =>
      obtain ⟨hstack, e, he, _⟩ := henabled
      obtain ⟨rest, hbatch⟩ := List.head?_eq_some_iff.mp he
      have hevent : ¬ w.AllowsEvent e o accepted := by
        intro hevent
        apply hnot
        intro e' he'
        rwa [Option.some.inj (he'.symm.trans he)]
      change (w.handleNext o accepted).loop.Doomed
      rw [handleNext_eq hbatch]
      apply handleEvent_not_allowed
      exact hevent

end Doomed

theorem init_sound (useSsl : Bool) : (init useSsl).Sound :=
  ⟨rfl, List.nodup_nil, List.forall_mem_nil _,
    fun i hi => by simp [init, Loop.pending] at hi⟩

instance (w : IOWorker) (e : Active) (o : Outside) (accepted : Bool) :
    Decidable (w.AllowsEvent e o accepted) := by
  unfold AllowsEvent
  split <;> infer_instance

instance (w : IOWorker) : ∀ op, Decidable (w.Allows op)
  | .poll _ | .resume => inferInstanceAs (Decidable True)
  | .handleNext _ _ => inferInstanceAs (Decidable (∀ e ∈ _, _))
  | .call _ => inferInstanceAs (Decidable (_ ∧ _))

instance (w : IOWorker) (op : Op) :
    Decidable ((ioWorkerMachine.guard Allows).enabled w op) :=
  inferInstanceAs (Decidable (_ ∧ _))

/-- In a run whose steps are all allowed nothing is done with a connection that
was closed in the same iteration.  If nothing is done with one in a run of whole
iterations, all steps of the run are allowed. -/
theorem untouched_iff_allows {useSsl : Bool} {ops : List Op} {w : IOWorker}
    (hrun : ioWorkerMachine.Run (init useSsl) ops w) :
    ((ioWorkerMachine.guard Allows).Run (init useSsl) ops w →
      ioWorkerMachine.Always (fun w => w.loop.Untouched) (init useSsl) ops) ∧
    (w.loop.Idle →
      ioWorkerMachine.Always (fun w => w.loop.Untouched) (init useSsl) ops →
      (ioWorkerMachine.guard Allows).Run (init useSsl) ops w) := by
  constructor
  · intro hguard
    exact hguard.always_of_guard (init_sound useSsl) (fun _ h => h.late)
      fun _ _ h henabled hallows => h.exec henabled hallows
  · intro hidle halways
    exact hrun.guard_of_trap (init_sound useSsl)
      (fun _ _ h henabled hallows => h.exec henabled hallows)
      (fun _ _ _ henabled hnot => doomed_of_not_allows henabled hnot)
      (fun _ _ h henabled => doomed_exec h henabled)
      fun hdoomed => hdoomed.not_untouched hidle (halways.last hrun)

/-- The steps of an iteration that accepts a client. -/
def exampleAccept : List Op :=
  [.poll [⟨.acceptor, ⟨false, true, false⟩⟩], .handleNext .quiet true]

/-- Two clients; the handler of the first closes its own connection and writes
to the second, whose event is handled behind it. -/
theorem untouched_iff_allows_own :
    let ops : List Op := exampleAccept ++ [.resume, .resume] ++ exampleAccept ++
      [.resume, .resume,
        .poll [⟨.conn 0, ⟨false, true, false⟩⟩, ⟨.conn 1, ⟨false, true, false⟩⟩],
        .handleNext { Outside.quiet with read := .stored [97] } false,
        .call (.forceClose 0), .resume, .resume, .call (.send 1 [98]), .resume,
        .handleNext { Outside.quiet with read := .stored [99] } false, .resume]
    ioWorkerMachine.Always (fun w => w.loop.Untouched) (init false) ops := by
  intro ops
  have hguard : (ioWorkerMachine.guard Allows).Run (init false) ops
      (ops.foldl ioWorkerMachine.next (init false)) :=
    Machine.run_iff.mpr ⟨by decide +kernel, rfl⟩
  exact (untouched_iff_allows hguard.of_guard).1 hguard

/-- The handler of the first of two clients closes the second, whose event is
still handled; and a write to an encrypted connection fails, and the last check
follows behind the end of the connection. -/
theorem untouched_iff_allows_other :
    let batch : List Op := exampleAccept ++ [.resume, .resume] ++ exampleAccept ++
      [.resume, .resume,
        .poll [⟨.conn 0, ⟨false, true, false⟩⟩, ⟨.conn 1, ⟨false, true, false⟩⟩],
        .handleNext { Outside.quiet with read := .stored [97] } false,
        .call (.forceClose 1), .resume, .resume, .resume,
        .handleNext .quiet false]
    let write : List Op := exampleAccept ++
      [.call (.send 0 [97]), .resume, .resume,
        .poll [⟨.conn 0, ⟨false, false, true⟩⟩], .handleNext .quiet false,
        .resume, .resume, .resume]
    ((∃ w, ioWorkerMachine.Run (init false) batch w ∧
        w.loop.late = [(1, .handleEvent)]) ∧
      ¬ ioWorkerMachine.Always (fun w => w.loop.Untouched) (init false) batch) ∧
    ((∃ w, ioWorkerMachine.Run (init true) write w ∧
        w.loop.late = [(0, .onChannelWritable)]) ∧
      ¬ ioWorkerMachine.Always (fun w => w.loop.Untouched) (init true) write) := by
  have hlate {useSsl : Bool} {ops : List Op} {late : List (Nat × Operation)}
      (henabled : ioWorkerMachine.EnabledFrom (init useSsl) ops)
      (h : (ops.foldl ioWorkerMachine.next (init useSsl)).loop.late = late)
      (hne : late ≠ []) :
      (∃ w, ioWorkerMachine.Run (init useSsl) ops w ∧ w.loop.late = late) ∧
        ¬ ioWorkerMachine.Always (fun w => w.loop.Untouched) (init useSsl)
          ops := by
    have hrun := Machine.run_iff.mpr ⟨henabled, rfl⟩
    exact ⟨⟨_, hrun, h⟩, fun halways => hne (h.symm.trans (halways.last hrun))⟩
  intro batch write
  exact ⟨hlate (by decide +kernel) (by decide +kernel) (by decide),
    hlate (by decide +kernel) (by decide +kernel) (by decide)⟩

end IOWorker

end Jerry
