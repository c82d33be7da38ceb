/-
`net/TcpRateLimiter` on one worker: a new connection is in the set of its worker
when the limiter counts, and a refused one stays there until it is closed.
-/
import Jerry.IOWorker
import Mathlib.Data.List.Forall2

namespace Jerry

/-- The part of `TcpRateLimiterConfig` that is looked at. -/
structure TcpRateLimiter where
  maxConnsPerIoWorker : Nat
deriving DecidableEq, Repr

/-- A connection does not come back to its worker, and it stays refused. -/
structure TcpConn.StaysOut (c c' : TcpConn) : Prop where
  held : c'.inIOWorker = true → c.inIOWorker = true
  refused : c.history.refused = true → c'.history.refused = true

namespace IOWorker

/-- `tcp_conns.Size()`. -/
def getConnNums (w : IOWorker) : Nat :=
  w.conns.countP fun c => c.inIOWorker

/-- `Acceptor::OnPeerConnect` up to the poller. -/
def addTcpConn (w : IOWorker) : IOWorker :=
  { w with conns := w.conns ++ [TcpConn.ofClient w.useSsl] }

end IOWorker

namespace TcpRateLimiter

def reachConnectionLimits (limiter : TcpRateLimiter) (w : IOWorker) : Bool :=
  w.getConnNums ≥ limiter.maxConnsPerIoWorker

def reachQpsLimits (_ : TcpRateLimiter) (_ : IOWorker) : Bool :=
  false

end TcpRateLimiter

namespace IOWorker

variable {w w' : IOWorker} {i : Nat} {o : Outside} {op : Op} {N : Nat}

/-- The next event is that a client has been accepted. -/
def Accepts (w : IOWorker) : Op → Prop
  | .handleNext _ accepted => accepted = true ∧
      ∃ e ∈ w.loop.activeChannels.head?, e.channel = .acceptor ∧
        e.events.callback = .onReadable
  | _ => False

instance (w : IOWorker) : ∀ op, Decidable (w.Accepts op)
  | .handleNext _ _ => inferInstanceAs (Decidable (_ ∧ ∃ e ∈ _, _ ∧ _))
  | .poll _ | .call _ | .resume => inferInstanceAs (Decidable False)

/-- A callback that is limited is so because the limiter said it.  `OnConnected`
asks with the new connection already in the set. -/
def AsksLimiter (limiter : TcpRateLimiter) (w : IOWorker) : Op → Prop
  | .handleNext o accepted => o.limited =
      if w.Accepts (.handleNext o accepted) then
        limiter.reachConnectionLimits w.addTcpConn
      else limiter.reachQpsLimits w
  | _ => True

instance (limiter : TcpRateLimiter) (w : IOWorker) :
    ∀ op, Decidable (w.AsksLimiter limiter op)
  | .handleNext _ _ => inferInstanceAs (Decidable (_ = _))
  | .poll _ | .call _ | .resume => inferInstanceAs (Decidable True)

/-- The client that the step accepts is refused. -/
def Refuses (w : IOWorker) (op : Op) : Prop :=
  ∃ c ∈ (op.exec w).conns[w.conns.length]?, c.history.refused = true

/-- A client is refused if and only if `N` connections are held already. -/
def AdmitsUpTo (N : Nat) (w : IOWorker) (op : Op) : Prop :=
  w.Accepts op → (w.Refuses op ↔ N ≤ w.getConnNums)

/-- No client is accepted while one connection less than `N` is held. -/
def OffLimit (N : Nat) (w : IOWorker) (op : Op) : Prop :=
  w.Accepts op → w.getConnNums + 1 ≠ N

instance (N : Nat) (w : IOWorker) (op : Op) : Decidable (w.OffLimit N op) :=
  inferInstanceAs (Decidable (_ → _))

/-- The clients that the server serves: those it holds and has not refused. -/
def served (w : IOWorker) : Nat :=
  w.conns.countP fun c => c.inIOWorker && !c.history.refused

/-- Every connection of the worker is kept, in its place. -/
def Keeps (w w' : IOWorker) : Prop :=
  List.Forall₂ TcpConn.StaysOut w.conns w'.conns

section Keeps

theorem Keeps.refl (w : IOWorker) : w.Keeps w :=
  List.forall₂_same.mpr fun _ _ => ⟨id, id⟩

theorem Keeps.trans {w'' : IOWorker} (h : w.Keeps w') (h' : w'.Keeps w'') :
    w.Keeps w'' := by
  rw [Keeps] at h h' ⊢
  generalize w.conns = conns at h
  generalize w'.conns = conns' at h h'
  generalize w''.conns = conns'' at h'
  induction h generalizing conns'' with
  | nil =>
      cases h'
      exact .nil
  | cons hhead _ ih =>
      cases h' with
      | cons hhead' htail =>
          exact .cons ⟨hhead.held ∘ hhead'.held, hhead'.refused ∘ hhead.refused⟩
            (ih _ htail)

theorem Keeps.push (h : w.Keeps w') (frames : List Frame) :
    w.Keeps (w'.push frames) := h

/-- What is done with a connection keeps it. -/
theorem on_keeps (w : IOWorker) (i : Nat) (op : Operation)
    {f : TcpConn → TcpConn}
    (hf : ∀ c : TcpConn, w.conns[i]? = some c → c.StaysOut (f c)) :
    w.Keeps (w.on i op f) := by
  change List.Forall₂ _ w.conns (w.conns.modify i f)
  generalize w.conns = conns at hf
  induction conns generalizing i with
  | nil =>
      rw [List.modify_nil]
      exact .nil
  | cons c conns ih =>
      cases i with
      | zero => exact .cons (hf c rfl) (List.forall₂_same.mpr fun _ _ => ⟨id, id⟩)
      | succ i => exact .cons ⟨id, id⟩ (ih i hf)

/-- Something that keeps the connection is done first. -/
theorem Keeps.after_on {op : Operation} {f : TcpConn → TcpConn}
    (h : (w.on i op f).Keeps w')
    (hf : ∀ c : TcpConn, w.conns[i]? = some c → c.StaysOut (f c)) : w.Keeps w' :=
  (on_keeps w i op hf).trans h

theorem onChannelClose_keeps (w : IOWorker) (i : Nat) :
    w.Keeps (w.onChannelClose i) := by
  refine Keeps.push (on_keeps w i .onChannelClose ?_) _
  exact fun _ _ => ⟨id, id⟩

theorem shutdown_keeps (w : IOWorker) (i : Nat) (o : Outside) :
    w.Keeps (w.shutdown i o) := by
  simp only [shutdown]
  split
  · exact (onChannelClose_keeps _ i).after_on fun _ _ => ⟨id, id⟩
  · exact on_keeps w i _ fun _ _ => ⟨id, id⟩

theorem onDataReceived_keeps (w : IOWorker) (i : Nat) (o : Outside) :
    w.Keeps (w.onDataReceived i o) := by
  simp only [onDataReceived]
  split
  · exact shutdown_keeps w i o
  · refine Keeps.push (on_keeps w i .callback ?_) _
    exact fun _ _ => ⟨id, id⟩

theorem onChannelReadable_keeps (w : IOWorker) (i : Nat) (o : Outside) :
    w.Keeps (w.onChannelReadable i o) := by
  simp only [onChannelReadable]
  split
  · exact .refl w
  · split
    · split
      · split
        · exact (shutdown_keeps _ i o).after_on fun _ _ => ⟨id, id⟩
        · split
          · split
            · exact on_keeps w i _ fun _ _ => ⟨id, id⟩
            · exact (onChannelClose_keeps _ i).after_on fun _ _ => ⟨id, id⟩
          · exact (onDataReceived_keeps _ i o).after_on fun _ _ => ⟨id, id⟩
      · split
        · exact (onChannelClose_keeps _ i).after_on fun _ _ => ⟨id, id⟩
        · exact (onDataReceived_keeps _ i o).after_on fun _ _ => ⟨id, id⟩
    · exact .refl w

theorem deactivateIfDone_keeps (w : IOWorker) (i : Nat) :
    w.Keeps (w.deactivateIfDone i) := by
  refine on_keeps w i _ fun c _ => ?_
  rw [TcpConn.deactivateIfDone]
  split
  · exact ⟨id, id⟩
  · exact ⟨id, id⟩

theorem onChannelWritable_keeps (w : IOWorker) (i : Nat) (o : Outside) :
    w.Keeps (w.onChannelWritable i o) := by
  simp only [onChannelWritable]
  split
  · exact .refl w
  · rename_i c hc
    have hwritten (b : BaseBuffer) (op : Operation) :
        w.Keeps (w.on i op fun c' => { c' with
          sendBuffer := b
          history := { c.history with
            written := c.history.written ++ c.taken o.write } }) := by
      refine on_keeps w i op fun c' hc' => ?_
      obtain rfl := Option.some.inj (hc.symm.trans hc')
      exact ⟨id, id⟩
    split
    · split
      · split
        · exact ((hwritten _ _).push _).trans (onChannelClose_keeps _ i)
        · exact (hwritten _ _).trans (deactivateIfDone_keeps _ i)
      · split
        · refine (hwritten _ _).trans (Keeps.push (on_keeps _ i .callback ?_) _)
          exact fun _ _ => ⟨id, id⟩
        · exact (hwritten _ _).trans (deactivateIfDone_keeps _ i)
    · exact .refl w

theorem onConnected_keeps (w : IOWorker) (i : Nat) (o : Outside) :
    w.Keeps (w.onConnected i o) := by
  simp only [onConnected]
  split
  · exact (shutdown_keeps _ i o).after_on fun _ _ => ⟨id, fun _ => rfl⟩
  · refine Keeps.push (on_keeps w i .callback ?_) _
    exact fun _ _ => ⟨id, id⟩

theorem channelCallback_keeps (w : IOWorker) (i : Nat) (o : Outside)
    (callback : ChannelCallback) : w.Keeps (w.channelCallback i o callback) := by
  cases callback with
  | onReadable => exact onChannelReadable_keeps w i o
  | onWritable => exact onChannelWritable_keeps w i o
  | onPeerClose => exact onChannelClose_keeps w i
  | onError => exact onChannelClose_keeps w i

theorem Call.exec_keeps (w : IOWorker) (call : Call) : w.Keeps (call.exec w) := by
  cases call with
  | send i data =>
      refine on_keeps w i .buffer fun c _ => ?_
      rw [TcpConn.send]
      split
      · exact ⟨id, id⟩
      · exact ⟨id, id⟩
  | shutdown i o => exact shutdown_keeps w i o
  | forceClose i => exact onChannelClose_keeps w i
  | recvBuffer i op => exact on_keeps w i _ fun _ _ => ⟨id, id⟩
  | sendBuffer i op => exact on_keeps w i _ fun _ _ => ⟨id, id⟩
  | channel i op => exact on_keeps w i _ fun _ _ => ⟨id, id⟩

theorem finish_keeps (w : IOWorker) (frame : Frame) : w.Keeps (w.finish frame) := by
  cases frame with
  | handler => exact .refl w
  | onChannelClose i =>
      refine on_keeps w i .removeFromIOWorker fun c _ => ⟨fun hheld => ?_, id⟩
      exact absurd hheld (by simp [TcpConn.removeFromIOWorker])
  | onChannelWritable i => exact deactivateIfDone_keeps w i
  | onPeerConnect i => exact on_keeps w i _ fun _ _ => ⟨id, id⟩

/-- Only an accepted client adds to the connections. -/
theorem exec_keeps (haccepts : ¬ w.Accepts op) : w.Keeps (op.exec w) := by
  cases op with
  | poll batch => exact .refl w
  | call c => exact Call.exec_keeps w c
  | resume =>
      simp only [Op.exec, resume]
      split
      · exact .refl w
      · rename_i frame stack _
        have hfinish := finish_keeps
          { w with loop := { w.loop with stack := stack } } frame
        exact hfinish
  | handleNext o accepted =>
      simp only [Op.exec, handleNext]
      split
      · exact .refl w
      · rename_i e rest hchannels
        rw [handleEvent]
        split
        · rename_i i _
          have hevent := on_keeps
            { w with loop := { w.loop with activeChannels := rest } } i
            .handleEvent fun _ _ => ⟨id, id⟩
          exact hevent.trans (channelCallback_keeps _ i o _)
        · rename_i hacceptor
          rw [if_neg ?_]
          · exact .refl w
          · rintro ⟨hcallback, rfl⟩
            exact haccepts ⟨rfl, e, by rw [hchannels]; rfl, hacceptor, hcallback⟩
        · split
          · exact (Keeps.refl w).push [.handler]
          · exact .refl w
        · exact .refl w

theorem Keeps.getElem? {c : TcpConn} (h : w.Keeps w') (hc : w.conns[i]? = some c) :
    ∃ c', w'.conns[i]? = some c' ∧ c.StaysOut c' := by
  rw [Keeps] at h
  generalize w.conns = conns at h hc
  generalize w'.conns = conns' at h
  induction h generalizing i with
  | nil => cases hc
  | @cons d d' conns conns' hhead _ ih =>
      cases i with
      | zero =>
          obtain rfl : d = c := Option.some.inj hc
          exact ⟨d', rfl, hhead⟩
      | succ i => exact ih hc

/-- No client is served that was not before. -/
theorem Keeps.served_le (h : w.Keeps w') : w'.served ≤ w.served := by
  rw [Keeps] at h
  rw [served, served]
  generalize w.conns = conns at h
  generalize w'.conns = conns' at h
  induction h with
  | nil => exact Nat.le_refl _
  | @cons c c' conns conns' hhead _ ih =>
      have hcount : (if (c'.inIOWorker && !c'.history.refused) = true then 1 else 0)
          ≤ if (c.inIOWorker && !c.history.refused) = true then 1 else 0 := by
        split
        · rename_i hserved
          rw [Bool.and_eq_true, Bool.not_eq_true'] at hserved
          have hkept : c.history.refused = false := by
            rw [← Bool.not_eq_true]
            intro hrefused
            rw [hhead.refused hrefused] at hserved
            exact absurd hserved.2 (by decide)
          rw [hhead.held hserved.1, hkept]
          exact Nat.le_refl _
        · exact Nat.zero_le _
      rw [List.countP_cons, List.countP_cons]
      exact Nat.add_le_add ih hcount

end Keeps

section Accepting

theorem getConnNums_addTcpConn (w : IOWorker) :
    w.addTcpConn.getConnNums = w.getConnNums + 1 := by
  rw [getConnNums, addTcpConn, List.countP_append]
  rfl

theorem served_le_getConnNums (w : IOWorker) : w.served ≤ w.getConnNums :=
  List.countP_mono_left fun _ _ hserved => (Bool.and_eq_true_iff.mp hserved).1

/-- What happens to the client that a step accepts. -/
theorem exec_accepts (haccepts : w.Accepts op) :
    ∃ o accepted, op = .handleNext o accepted ∧ ∃ w₁ : IOWorker,
      w₁.conns = w.addTcpConn.conns ∧
        op.exec w = w₁.onConnected w.conns.length o := by
  cases op with
  | handleNext o accepted =>
      obtain ⟨rfl, e, he, hacceptor, hcallback⟩ := haccepts
      refine ⟨o, true, rfl, ?_⟩
      obtain ⟨rest, hchannels⟩ : ∃ rest, w.loop.activeChannels = e :: rest :=
        List.head?_eq_some_iff.mp he
      refine ⟨IOWorker.push { w.addTcpConn with
        loop := { w.loop with activeChannels := rest } }
        [.onPeerConnect w.conns.length], rfl, ?_⟩
      simp only [Op.exec, handleNext, hchannels, handleEvent, hacceptor, hcallback,
        true_and, if_true]
      rfl
  | poll batch => exact haccepts.elim
  | call c => exact haccepts.elim
  | resume => exact haccepts.elim

theorem conns_on_new {w₁ : IOWorker} (hconns : w₁.conns = w.addTcpConn.conns)
    (op : Operation) (f : TcpConn → TcpConn) :
    (w₁.on w.conns.length op f).conns =
      w.conns ++ [f (TcpConn.ofClient w.useSsl)] := by
  rw [on, hconns, addTcpConn]
  exact List.modifyTailIdx_add (List.modifyHead f) 0 w.conns _

theorem getElem?_new (c : TcpConn) :
    (w.conns ++ [c])[w.conns.length]? = some c := by
  rw [List.getElem?_append_right (Nat.le_refl _), Nat.sub_self]
  rfl

/-- A client that is refused adds nothing to those that are served. -/
theorem onConnected_limited {w₁ : IOWorker}
    (hconns : w₁.conns = w.addTcpConn.conns) (hlimited : o.limited = true) :
    (∃ c ∈ (w₁.onConnected w.conns.length o).conns[w.conns.length]?,
        c.history.refused = true) ∧
      (w₁.onConnected w.conns.length o).served ≤ w.served := by
  have hbefore := conns_on_new hconns .callback fun c =>
    { c with history := { c.history with refused := true } }
  simp only [onConnected, hlimited, if_true]
  generalize w₁.on w.conns.length .callback (fun c =>
    { c with history := { c.history with refused := true } }) = w₂ at hbefore ⊢
  have hkeeps := shutdown_keeps w₂ w.conns.length o
  have hserved : w₂.served = w.served := by
    rw [served, hbefore, List.countP_append]
    rfl
  have hnew : ∃ c, w₂.conns[w.conns.length]? = some c ∧
      c.history.refused = true := by
    rw [hbefore]
    exact ⟨_, getElem?_new _, rfl⟩
  obtain ⟨c, hc, hrefused⟩ := hnew
  obtain ⟨c', hc', hkept⟩ := hkeeps.getElem? hc
  exact ⟨⟨c', hc', hkept.refused hrefused⟩, hserved ▸ hkeeps.served_le⟩

theorem onConnected_admitted {w₁ : IOWorker}
    (hconns : w₁.conns = w.addTcpConn.conns) (hlimited : o.limited = false) :
    ∃ c, (w₁.onConnected w.conns.length o).conns[w.conns.length]? = some c ∧
      c.history.refused = false := by
  have hafter := conns_on_new hconns .callback fun c => c.call .onTcpConnected
  simp only [onConnected, hlimited, Bool.false_eq_true, if_false]
  refine ⟨(TcpConn.ofClient w.useSsl).call .onTcpConnected, ?_, rfl⟩
  rw [push, hafter]
  exact getElem?_new _

variable {limiter : TcpRateLimiter}

/-- The limiter counts the client that it is asked about. -/
theorem limited_iff (haccepts : w.Accepts (.handleNext o true))
    (hasks : w.AsksLimiter limiter (.handleNext o true)) :
    o.limited = true ↔ limiter.maxConnsPerIoWorker ≤ w.getConnNums + 1 := by
  rw [AsksLimiter, if_pos haccepts] at hasks
  rw [hasks, TcpRateLimiter.reachConnectionLimits, getConnNums_addTcpConn,
    decide_eq_true_eq]

theorem refuses_iff (haccepts : w.Accepts op)
    (hasks : w.AsksLimiter limiter op) :
    w.Refuses op ↔ limiter.maxConnsPerIoWorker ≤ w.getConnNums + 1 := by
  obtain ⟨o, accepted, rfl, w₁, hconns, hexec⟩ := exec_accepts haccepts
  obtain rfl : accepted = true := haccepts.1
  rw [← limited_iff haccepts hasks, Refuses, hexec]
  cases hlimited : o.limited with
  | true =>
      exact iff_of_true (onConnected_limited hconns hlimited).1 rfl
  | false =>
      obtain ⟨c, hc, hkept⟩ := onConnected_admitted hconns hlimited
      refine iff_of_false ?_ (by decide)
      rintro ⟨c', hc', hrefused⟩
      obtain rfl : c = c' := Option.some.inj (hc.symm.trans hc')
      rw [hkept] at hrefused
      cases hrefused

theorem admitsUpTo_iff (hasks : w.AsksLimiter ⟨N⟩ op) :
    w.AdmitsUpTo N op ↔ w.OffLimit N op := by
  refine forall_congr' fun haccepts => ?_
  rw [refuses_iff haccepts hasks]
  change (N ≤ w.getConnNums + 1 ↔ N ≤ w.getConnNums) ↔ _
  omega

/-- Fewer than `N` clients are served before a step, so behind it, too. -/
theorem served_exec_lt (hserved : w.served < N)
    (hasks : w.AsksLimiter ⟨N⟩ op) : (op.exec w).served < N := by
  by_cases haccepts : w.Accepts op
  · obtain ⟨o, accepted, rfl, w₁, hconns, hexec⟩ := exec_accepts haccepts
    obtain rfl : accepted = true := haccepts.1
    rw [hexec]
    have hlimit := limited_iff haccepts hasks
    cases hlimited : o.limited with
    | true =>
        exact Nat.lt_of_le_of_lt (onConnected_limited hconns hlimited).2 hserved
    | false =>
        have hroom : w.getConnNums + 1 < N := by
          rw [hlimited] at hlimit
          exact Nat.lt_of_not_le fun hle => absurd (hlimit.mpr hle) (by decide)
        have hnums : w₁.getConnNums = w.getConnNums + 1 := by
          rw [← getConnNums_addTcpConn, getConnNums, getConnNums, hconns]
        have hkeeps := (onConnected_keeps w₁ w.conns.length o).served_le
        have hheld := served_le_getConnNums w₁
        omega
  · exact Nat.lt_of_le_of_lt (exec_keeps haccepts).served_le hserved

end Accepting

end IOWorker

/-- A worker of a server with a limiter. -/
def limitedMachine (limiter : TcpRateLimiter) : Machine IOWorker IOWorker.Op :=
  ioWorkerMachine.guard (IOWorker.AsksLimiter limiter)

instance (limiter : TcpRateLimiter) (w : IOWorker) (op : IOWorker.Op) :
    Decidable ((limitedMachine limiter).enabled w op) :=
  inferInstanceAs (Decidable (_ ∧ _))

namespace IOWorker

variable {w : IOWorker} {N : Nat}

/-- With a limit of `N`, in any run of a worker, every client is refused when `N`
others are held and admitted when fewer are, if and only if none comes while
`N - 1` are held; and `N` clients are never served at the same time. -/
theorem admitsUpTo_always_iff {useSsl : Bool} {labels : List Op} (hN : 1 ≤ N)
    (hrun : (limitedMachine ⟨N⟩).Run (init useSsl) labels w) :
    (((limitedMachine ⟨N⟩).guard (AdmitsUpTo N)).Run (init useSsl) labels w ↔
      ((limitedMachine ⟨N⟩).guard (OffLimit N)).Run (init useSsl) labels w) ∧
    ioWorkerMachine.Always (fun w => w.served < N) (init useSsl) labels := by
  refine ⟨⟨fun hadmits => ?_, fun hoff => ?_⟩, ?_⟩
  · exact hadmits.guard_congr fun _ _ henabled =>
      (admitsUpTo_iff henabled.2).mp
  · exact hoff.guard_congr fun _ _ henabled => (admitsUpTo_iff henabled.2).mpr
  · exact hrun.always_of_guard (I := fun w => w.served < N) hN (fun _ h => h)
      fun _ _ hserved _ hasks => served_exec_lt hserved hasks

instance (limiter : TcpRateLimiter) (w : IOWorker) (op : Op) :
    Decidable (((limitedMachine limiter).guard (OffLimit N)).enabled w op) :=
  inferInstanceAs (Decidable (_ ∧ _))

/-- A limit of two: one client is held and served, goes, and another comes. -/
theorem admitsUpTo_always_iff_two :
    let accept : List Op :=
      [.poll [⟨.acceptor, ⟨false, true, false⟩⟩], .handleNext .quiet true, .resume,
        .resume]
    let close : List Op :=
      [.poll [⟨.conn 0, ⟨true, false, false⟩⟩], .handleNext .quiet false, .resume,
        .resume]
    ∃ w, ((limitedMachine ⟨2⟩).guard (AdmitsUpTo 2)).Run (init false)
        (accept ++ close ++ accept) w ∧ w.getConnNums = 1 ∧
      ioWorkerMachine.Always (fun w => w.served < 2) (init false)
        (accept ++ close ++ accept) := by
  intro accept close
  have hoff : ((limitedMachine ⟨2⟩).guard (OffLimit 2)).Run (init false)
      (accept ++ close ++ accept)
      ((accept ++ close ++ accept).foldl ioWorkerMachine.next (init false)) :=
    Machine.run_iff.mpr ⟨by decide +kernel, rfl⟩
  have hboth := admitsUpTo_always_iff (by decide) hoff.of_guard
  exact ⟨_, hboth.1.mpr hoff, by decide +kernel, hboth.2⟩

/-- A limit of one: the first client of all is refused. -/
theorem admitsUpTo_always_iff_one :
    ∃ w op, (limitedMachine ⟨1⟩).Run (init false)
        [.poll [⟨.acceptor, ⟨false, true, false⟩⟩]] w ∧
      (limitedMachine ⟨1⟩).enabled w op ∧ w.Accepts op ∧ w.getConnNums = 0 ∧
      w.Refuses op ∧ ¬ w.AdmitsUpTo 1 op := by
  let w := Op.exec (init false) (.poll [⟨.acceptor, ⟨false, true, false⟩⟩])
  let op : Op := .handleNext { Outside.quiet with limited := true } true
  have hrun : (limitedMachine ⟨1⟩).Run (init false)
      [.poll [⟨.acceptor, ⟨false, true, false⟩⟩]] w :=
    Machine.run_iff.mpr ⟨by decide +kernel, rfl⟩
  have hop : (limitedMachine ⟨1⟩).enabled w op := by decide +kernel
  have haccepts : w.Accepts op := by decide +kernel
  have hrefuses : w.Refuses op := (refuses_iff haccepts hop.2).mpr (by decide)
  refine ⟨w, op, hrun, hop, haccepts, rfl, hrefuses, fun hadmits => ?_⟩
  exact absurd ((hadmits haccepts).mp hrefuses) (by decide)

end IOWorker

end Jerry
