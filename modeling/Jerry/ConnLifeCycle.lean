/-
The order of the user callbacks of a connection.  Every operation on it comes to
one of five outcomes, and the order is kept by all of them but in the states
where the source fails to check what has happened before.
-/
import Jerry.TcpConn

namespace Jerry

/-- What the callbacks are about: the state and what is known from before. -/
structure Life where
  state : TcpConn.State
  callbacks : List TcpCallback
  closed : Bool
  refused : Bool
  peerGone : Bool
deriving DecidableEq, Repr

def TcpConn.life (c : TcpConn) : Life :=
  { state := c.state
    callbacks := c.history.callbacks
    closed := c.history.closed
    refused := c.history.refused
    peerGone := c.history.peerGone }

/-- What an operation on a connection comes to. -/
inductive Outcome where
  | quiet | announces | shutsDown | closes | losesPeer
deriving DecidableEq, Repr

namespace Outcome

def apply (life : Life) : Outcome → Life
  | .quiet => life
  | .announces =>
      { life with callbacks := life.callbacks ++ [.onTcpReceivedData] }
  | .shutsDown => { life with state := .shutdown }
  | .closes =>
      { life with
        state := .disconnected
        callbacks := life.callbacks ++ [.onTcpDisconnected]
        closed := true }
  | .losesPeer =>
      { life with
        callbacks := life.callbacks ++ [.onTcpDisconnected]
        peerGone := true }

@[simp] theorem apply_refused (life : Life) (outcome : Outcome) :
    (outcome.apply life).refused = life.refused := by
  cases outcome <;> rfl

/-- `Shutdown`, by the result of shutdown(2). -/
def ofShutdown (o : Outside) : Outcome :=
  if o.shutdownFails then .closes else .shutsDown

/-- A readable event of a connected connection. -/
def ofRead (isEncrypted : Bool) (o : Outside) : Outcome :=
  match o.read with
  | .failed =>
      if isEncrypted ∧ o.sslError = .wantRead then .quiet else .closes
  | .stored [] => if isEncrypted then ofShutdown o else .closes
  | .stored (_ :: _) => if o.limited then ofShutdown o else .announces

/-- A writable event of a connected connection. -/
def ofWrite (isEncrypted : Bool) (o : Outside) : Outcome :=
  match o.write with
  | .wrote n => if isEncrypted ∧ n = 0 then .closes else .quiet
  | .failed =>
      if isEncrypted then .closes
      else if o.errno = .epipe ∨ o.errno = .econnreset then .losesPeer
      else .quiet

end Outcome

/-- What an operation comes to, before it is executed. -/
def ConnOp.outcome (c : TcpConn) : ConnOp → Outcome
  | .handleEvent events o =>
      if events.close then .closes
      else if events.read then
        if c.isConnected then .ofRead c.isEncrypted o else .quiet
      else if events.write then
        if c.isConnected then .ofWrite c.isEncrypted o else .quiet
      else .closes
  | .send _ => .quiet
  | .shutdown o => .ofShutdown o
  | .forceClose => .closes

namespace TcpConn

open Outcome BaseBuffer

variable {c : TcpConn}

@[simp] theorem onChannelClose_life (c : TcpConn) :
    c.onChannelClose.life = Outcome.closes.apply c.life := by
  simp [onChannelClose, exchangeState, call, life, apply]

@[simp] theorem shutdown_life (c : TcpConn) (o : Outside) :
    (c.shutdown o).life = (ofShutdown o).apply c.life := by
  simp only [shutdown, ofShutdown, forceClose]
  split
  · rw [onChannelClose_life]
    rfl
  · simp [exchangeState, life, apply]

theorem onDataReceived_life (c : TcpConn) (o : Outside) :
    (c.onDataReceived o).life =
      (if o.limited then ofShutdown o else .announces).apply c.life := by
  simp only [onDataReceived]
  split
  · exact shutdown_life c o
  · rfl

theorem onConnected_life (c : TcpConn) (o : Outside) :
    (c.onConnected o).life =
      if o.limited then (ofShutdown o).apply { c.life with refused := true }
      else
        { c.life with callbacks := c.life.callbacks ++ [.onTcpConnected] } := by
  simp only [onConnected]
  split
  · exact shutdown_life _ o
  · rfl

theorem send_life (c : TcpConn) (data : List UInt8) :
    (c.send data).life = c.life := by
  simp only [send]
  split <;> rfl

theorem deactivateIfDone_life (c : TcpConn) :
    c.deactivateIfDone.life = c.life := by
  simp only [deactivateIfDone]
  split <;> rfl

theorem onChannelReadable_life (hc : c.isConnected = true) (o : Outside) :
    (c.onChannelReadable o).life =
      (ofRead c.isEncrypted o).apply c.life := by
  have hssl := readBytesFromSsl_snd c.recvBuffer o.read
  have hfd := readBytesFromFd_snd c.recvBuffer o.read
  simp only [onChannelReadable, hc, if_true]
  generalize c.recvBuffer.readBytesFromSsl o.read = ssl at hssl
  generalize c.recvBuffer.readBytesFromFd o.read = fd at hfd
  obtain ⟨sslBuffer, n⟩ := ssl
  obtain ⟨fdBuffer, m⟩ := fd
  obtain rfl : n = o.read.toInt := hssl
  obtain rfl : m = o.read.toInt := hfd
  cases hread : o.read with
  | failed =>
      cases hencrypted : c.isEncrypted with
      | true =>
          simp only [ofRead, hread, ReadResult.toInt, forceClose]
          by_cases hretry : o.sslError = .wantRead
          · simp [hretry]
            rfl
          · simp [hretry]
            rfl
      | false =>
          simp [ofRead, hread, ReadResult.toInt, forceClose]
          rfl
  | stored data =>
      cases data with
      | nil =>
          cases hencrypted : c.isEncrypted with
          | true =>
              simp [ofRead, hread, ReadResult.toInt]
              rfl
          | false =>
              simp [ofRead, hread, ReadResult.toInt, forceClose]
              rfl
      | cons b data =>
          have hzero : ¬ (data.length : Int) + 1 = 0 := by omega
          have hneg : ¬ (data.length : Int) + 1 < 0 := by omega
          have hpos : ¬ (data.length : Int) + 1 ≤ 0 := by omega
          cases hencrypted : c.isEncrypted with
          | true =>
              simp [ofRead, hread, ReadResult.toInt, hzero, hneg,
                onDataReceived_life]
              rfl
          | false =>
              simp [ofRead, hread, ReadResult.toInt, hpos, onDataReceived_life]
              rfl

theorem onChannelWritable_life (hc : c.isConnected = true) (o : Outside)
    (hplain : c.isEncrypted = false →
      (BufferOp.writeBytesToFd o.write).Enabled c.sendBuffer) :
    (c.onChannelWritable o).life =
      (ofWrite c.isEncrypted o).apply c.life := by
  simp only [onChannelWritable, hc, if_true]
  cases hwrite : o.write with
  | failed =>
      cases hencrypted : c.isEncrypted with
      | true =>
          simp [ofWrite, hwrite, forceClose, deactivateIfDone_life]
          rfl
      | false =>
          by_cases hgone : o.errno = .epipe ∨ o.errno = .econnreset
          · simp [ofWrite, hwrite, hgone]
            rfl
          · simp [ofWrite, hwrite, hgone, deactivateIfDone_life]
            rfl
  | wrote n =>
      cases hencrypted : c.isEncrypted with
      | true =>
          rw [writeBytesToSsl_wrote]
          by_cases hzero : n = 0
          · simp [ofWrite, hwrite, hzero, forceClose, deactivateIfDone_life]
            rfl
          · simp [ofWrite, hwrite, hzero, deactivateIfDone_life]
            rfl
      | false =>
          have henabled := hplain hencrypted
          rw [hwrite] at henabled
          have hn : n < 2 ^ 31 := by
            simp only [BufferOp.Enabled, BufferOp.maxRwCount] at henabled
            omega
          have hneg : ¬ (n : Int) < 0 := by omega
          rw [writeBytesToFd_wrote _ hn]
          simp [ofWrite, hwrite, hneg, deactivateIfDone_life]
          rfl

end TcpConn

/-- The source acts on the life of a connection as the outcome says. -/
theorem ConnOp.exec_life {c : TcpConn} {op : ConnOp} (h : op.Enabled c) :
    (op.exec c).life = (op.outcome c).apply c.life := by
  cases op with
  | send data => exact c.send_life data
  | shutdown o => exact c.shutdown_life o
  | forceClose => exact c.onChannelClose_life
  | handleEvent events o =>
      simp only [exec, TcpConn.handleEvent, outcome]
      split
      · exact c.onChannelClose_life
      · split
        · split
          · rename_i hconnected
            exact TcpConn.onChannelReadable_life hconnected o
          · rename_i hconnected
            rw [TcpConn.onChannelReadable, if_neg hconnected]
            rfl
        · split
          · split
            · rename_i hconnected
              apply TcpConn.onChannelWritable_life hconnected o
              intro hplain
              rw [Enabled, hplain] at h
              exact h.2
            · rename_i hconnected
              rw [TcpConn.onChannelWritable, if_neg hconnected]
              rfl
          · exact c.onChannelClose_life

/-- One `OnTcpConnected`, then `OnTcpReceivedData` as often as data comes, then
one `OnTcpDisconnected`, or the beginning of it. -/
def LifeCycle (callbacks : List TcpCallback) : Prop :=
  ∃ n, callbacks <+: .onTcpConnected ::
    (List.replicate n .onTcpReceivedData ++ [.onTcpDisconnected])

namespace Life

variable {life : Life}

/-- The callbacks are in order, and a closed connection is disconnected. -/
structure Good (life : Life) : Prop where
  callbacks : LifeCycle life.callbacks
  closed : life.closed = true → life.state = .disconnected

/-- The callbacks a connection has had, as far as the flags tell. -/
structure Tracked (life : Life) : Prop where
  callbacks : if life.refused then life.callbacks = [] else
    ∃ n, life.callbacks = .onTcpConnected ::
      (List.replicate n .onTcpReceivedData ++
        if life.peerGone ∨ life.closed then [.onTcpDisconnected] else [])
  closed : life.state = .disconnected ↔ life.closed = true
  refused : life.refused = true →
    life.state = .shutdown ∧ life.peerGone = false ∧ life.closed = false

/-- When an outcome keeps the order. -/
def Allows (life : Life) : Outcome → Prop
  | .quiet => True
  | .announces => life.peerGone = false
  | .shutsDown => life.state ≠ .disconnected
  | .closes => life.refused = false ∧ life.peerGone = false ∧
      life.state ≠ .disconnected
  | .losesPeer => life.peerGone = false

instance (life : Life) : ∀ outcome, Decidable (life.Allows outcome)
  | .quiet => isTrue trivial
  | .announces => inferInstanceAs (Decidable (_ = _))
  | .shutsDown => inferInstanceAs (Decidable (_ ≠ _))
  | .closes => inferInstanceAs (Decidable (_ ∧ _ ∧ _))
  | .losesPeer => inferInstanceAs (Decidable (_ = _))

theorem Tracked.good (h : life.Tracked) : life.Good := by
  constructor
  · have hcallbacks := h.callbacks
    split at hcallbacks
    · rw [hcallbacks]
      exact ⟨0, List.nil_prefix⟩
    · obtain ⟨n, hcallbacks⟩ := hcallbacks
      refine ⟨n, ?_⟩
      rw [hcallbacks]
      split
      · exact List.prefix_refl _
      · rw [List.append_nil]
        exact List.cons_prefix_cons.mpr ⟨rfl, List.prefix_append _ _⟩
  · exact h.closed.mpr

/-- Nothing follows `OnTcpDisconnected`. -/
theorem not_mem_of_lifeCycle {callbacks : List TcpCallback} {callback : TcpCallback}
    (h : LifeCycle (callbacks ++ [callback])) :
    .onTcpDisconnected ∉ callbacks := by
  obtain ⟨n, hfront⟩ := h
  rw [← List.cons_append] at hfront
  have hlength := hfront.length_le
  simp only [List.length_append, List.length_singleton] at hlength
  have hbefore : callbacks <+:
      .onTcpConnected :: List.replicate n .onTcpReceivedData :=
    List.prefix_of_prefix_length_le
      ((List.prefix_append _ _).trans hfront) (List.prefix_append _ _)
      (Nat.le_of_add_le_add_right hlength)
  intro hmem
  have hin := hbefore.subset hmem
  simp at hin

theorem not_lifeCycle_disconnected : ¬ LifeCycle [.onTcpDisconnected] := by
  rintro ⟨n, hfront⟩
  exact absurd (List.cons_prefix_cons.mp hfront).1 (by decide)

theorem Tracked.mem (h : life.Tracked) (hrefused : life.refused = false)
    (hdone : life.peerGone = true ∨ life.closed = true) :
    .onTcpDisconnected ∈ life.callbacks := by
  have hcallbacks := h.callbacks
  rw [hrefused] at hcallbacks
  obtain ⟨n, hcallbacks⟩ := hcallbacks
  rw [hcallbacks, if_pos hdone]
  simp

theorem Tracked.not_refused (h : life.Tracked)
    (hstate : life.state = .connected) : life.refused = false := by
  cases hrefused : life.refused with
  | false => rfl
  | true =>
      have hshutdown := (h.refused hrefused).1
      rw [hstate] at hshutdown
      cases hshutdown

/-- The next callback of a connection that is not done. -/
theorem Tracked.open_callbacks (h : life.Tracked)
    (hrefused : life.refused = false) (hpeer : life.peerGone = false)
    (hclosed : life.closed = false) :
    ∃ n, life.callbacks =
      .onTcpConnected :: List.replicate n .onTcpReceivedData := by
  have hcallbacks := h.callbacks
  rw [hrefused] at hcallbacks
  obtain ⟨n, hcallbacks⟩ := hcallbacks
  refine ⟨n, ?_⟩
  rw [hcallbacks, hpeer, hclosed, if_neg (by decide), List.append_nil]

theorem Tracked.not_closed (h : life.Tracked)
    (hstate : life.state ≠ .disconnected) : life.closed = false := by
  cases hclosed : life.closed with
  | false => rfl
  | true => exact absurd (h.closed.mpr hclosed) hstate

/-- An allowed outcome keeps track of the callbacks. -/
theorem Tracked.apply (h : life.Tracked) {outcome : Outcome}
    (hneeds : outcome = .announces ∨ outcome = .losesPeer →
      life.state = .connected) (hallows : life.Allows outcome) :
    (outcome.apply life).Tracked := by
  cases outcome with
  | quiet => exact h
  | shutsDown =>
      have hclosed := h.not_closed hallows
      refine ⟨h.callbacks, ?_, fun hr => ⟨rfl, (h.refused hr).2⟩⟩
      simp [Outcome.apply, hclosed]
  | announces =>
      have hstate := hneeds (Or.inl rfl)
      have hrefused := h.not_refused hstate
      have hclosed := h.not_closed (by rw [hstate]; decide)
      have hpeer : life.peerGone = false := hallows
      obtain ⟨n, hcallbacks⟩ := h.open_callbacks hrefused hpeer hclosed
      refine ⟨?_, h.closed, fun hr => absurd hr (by simp [hrefused])⟩
      simp only [Outcome.apply, hrefused, hpeer, hclosed]
      refine ⟨n + 1, ?_⟩
      rw [hcallbacks, List.replicate_succ']
      simp
  | losesPeer =>
      have hstate := hneeds (Or.inr rfl)
      have hrefused := h.not_refused hstate
      have hclosed := h.not_closed (by rw [hstate]; decide)
      obtain ⟨n, hcallbacks⟩ := h.open_callbacks hrefused hallows hclosed
      refine ⟨?_, h.closed, fun hr => absurd hr (by simp [hrefused])⟩
      simp only [Outcome.apply, hrefused]
      refine ⟨n, ?_⟩
      simp [hcallbacks]
  | closes =>
      obtain ⟨hrefused, hpeer, hstate⟩ := hallows
      have hclosed := h.not_closed hstate
      obtain ⟨n, hcallbacks⟩ := h.open_callbacks hrefused hpeer hclosed
      refine ⟨?_, by simp [Outcome.apply], fun hr =>
        absurd hr (by simp [hrefused])⟩
      simp only [Outcome.apply, hrefused]
      refine ⟨n, ?_⟩
      simp [hcallbacks]

/-- Any other outcome breaks the order. -/
theorem Tracked.not_good (h : life.Tracked) {outcome : Outcome}
    (hneeds : outcome = .announces ∨ outcome = .losesPeer →
      life.state = .connected) (hnot : ¬ life.Allows outcome) :
    ¬ (outcome.apply life).Good := by
  intro hgood
  cases outcome with
  | quiet => exact hnot trivial
  | shutsDown =>
      have hstate : life.state = .disconnected := not_not.mp hnot
      have hclosed := hgood.closed (h.closed.mp hstate)
      cases hclosed
  | announces =>
      have hpeer : life.peerGone = true := eq_true_of_ne_false hnot
      exact not_mem_of_lifeCycle hgood.callbacks
        (h.mem (h.not_refused (hneeds (Or.inl rfl))) (Or.inl hpeer))
  | losesPeer =>
      have hpeer : life.peerGone = true := eq_true_of_ne_false hnot
      exact not_mem_of_lifeCycle hgood.callbacks
        (h.mem (h.not_refused (hneeds (Or.inr rfl))) (Or.inl hpeer))
  | closes =>
      cases hrefused : life.refused with
      | true =>
          have hcallbacks := h.callbacks
          rw [hrefused, if_pos rfl] at hcallbacks
          have hlife := hgood.callbacks
          simp only [Outcome.apply, hcallbacks, List.nil_append] at hlife
          exact not_lifeCycle_disconnected hlife
      | false =>
          have hdone : life.peerGone = true ∨ life.closed = true := by
            by_contra hnone
            rw [not_or] at hnone
            apply hnot
            refine ⟨hrefused, eq_false_of_ne_true hnone.1, ?_⟩
            intro hstate
            exact hnone.2 (h.closed.mp hstate)
          exact not_mem_of_lifeCycle hgood.callbacks (h.mem hrefused hdone)

end Life

/-- Data is announced, and a peer lost, on a connected connection only. -/
theorem ConnOp.outcome_connected (c : TcpConn) (op : ConnOp)
    (h : op.outcome c = .announces ∨ op.outcome c = .losesPeer) :
    c.life.state = .connected := by
  cases op with
  | handleEvent events o =>
      by_cases hconnected : c.isConnected = true
      · exact of_decide_eq_true hconnected
      · simp only [outcome, hconnected] at h
        split at h
        · simp at h
        · split at h
          · simp at h
          · split at h
            · simp at h
            · simp at h
  | send data => simp [outcome] at h
  | shutdown o =>
      simp only [outcome, Outcome.ofShutdown] at h
      split at h <;> simp at h
  | forceClose => simp [outcome] at h

namespace TcpServer

variable {s : TcpServer} {op : Op}

/-- The callbacks of every connection are in order, and none has left
`kDisconnected`. -/
def Good (s : TcpServer) : Prop :=
  ∀ c ∈ s.conns, c.life.Good

def Tracked (s : TcpServer) : Prop :=
  ∀ c ∈ s.conns, c.life.Tracked

/-- When a step keeps the order: a client that is refused is shut down without
an error, and an operation on a connection has an allowed outcome. -/
def Allows (s : TcpServer) : Op → Prop
  | .onPeerConnect o => ¬ (o.limited = true ∧ o.shutdownFails = true)
  | .conn i op => ∀ c ∈ s.conns[i]?, c.life.Allows (op.outcome c)

instance (s : TcpServer) : ∀ op, Decidable (s.Allows op)
  | .onPeerConnect _ => inferInstanceAs (Decidable (¬ _))
  | .conn _ _ => inferInstanceAs (Decidable (∀ c ∈ _, _))

/-- The life of a connection begins. -/
def newLife (o : Outside) : Life :=
  if o.limited then
    (Outcome.ofShutdown o).apply ⟨.connected, [], false, true, false⟩
  else ⟨.connected, [.onTcpConnected], false, false, false⟩

theorem onPeerConnect_conns (s : TcpServer) (o : Outside) :
    ∃ c : TcpConn, (s.onPeerConnect o).conns = s.conns ++ [c] ∧
      c.life = newLife o := by
  refine ⟨_, rfl, ?_⟩
  rw [TcpConn.onConnected_life]
  rfl

theorem newLife_tracked {o : Outside}
    (h : ¬ (o.limited = true ∧ o.shutdownFails = true)) :
    (newLife o).Tracked := by
  simp only [newLife, Outcome.ofShutdown]
  split
  · rename_i hlimited
    rw [if_neg fun hfails => h ⟨hlimited, hfails⟩]
    exact ⟨rfl, by decide, fun _ => ⟨rfl, rfl, rfl⟩⟩
  · exact ⟨⟨0, rfl⟩, by decide, fun h => absurd h (by decide)⟩

/-- A client that is refused and cannot be shut down is disconnected without
having been connected. -/
theorem newLife_not_good {o : Outside}
    (h : o.limited = true ∧ o.shutdownFails = true) : ¬ (newLife o).Good := by
  rw [newLife, if_pos h.1, Outcome.ofShutdown, if_pos h.2]
  intro hgood
  exact Life.not_lifeCycle_disconnected hgood.callbacks

/-- The operation is one on the life of the connection at its position. -/
theorem conn_conns {i : Nat} {connOp : ConnOp} {c : TcpConn}
    (hc : s.conns[i]? = some c) (henabled : connOp.Enabled c) :
    (s.exec (.conn i connOp)).conns = s.conns.set i (connOp.exec c) ∧
      (connOp.exec c).life = (connOp.outcome c).apply c.life := by
  refine ⟨?_, connOp.exec_life henabled⟩
  have : Inhabited TcpConn := ⟨c⟩
  rw [exec, List.modify_eq_set, hc]
  rfl

/-- A step that is allowed keeps track of all connections. -/
theorem tracked_exec (h : s.Tracked) (henabled : op.Enabled s)
    (hallows : s.Allows op) : (s.exec op).Tracked := by
  cases op with
  | onPeerConnect o =>
      obtain ⟨c, hconns, hlife⟩ := s.onPeerConnect_conns o
      intro c' hc'
      rw [exec, hconns, List.mem_append, List.mem_singleton] at hc'
      rcases hc' with hold | rfl
      · exact h c' hold
      · rw [hlife]
        exact newLife_tracked hallows
  | conn i connOp =>
      obtain ⟨c, hc, hop⟩ := henabled
      obtain ⟨hconns, hlife⟩ := conn_conns hc hop
      intro c' hc'
      rw [hconns] at hc'
      rcases List.mem_or_eq_of_mem_set hc' with hold | rfl
      · exact h c' hold
      · rw [hlife]
        exact (h c (List.mem_of_getElem? hc)).apply
          (connOp.outcome_connected c) (hallows c hc)

/-- Any other step breaks the order of the callbacks of a connection. -/
theorem not_good_exec (h : s.Tracked) (henabled : op.Enabled s)
    (hnot : ¬ s.Allows op) : ¬ (s.exec op).Good := by
  intro hgood
  cases op with
  | onPeerConnect o =>
      obtain ⟨c, hconns, hlife⟩ := s.onPeerConnect_conns o
      have hc : c ∈ (s.exec (.onPeerConnect o)).conns := by
        rw [exec, hconns]
        simp
      have hlast := hgood c hc
      rw [hlife] at hlast
      exact newLife_not_good (not_not.mp hnot) hlast
  | conn i connOp =>
      obtain ⟨c, hc, hop⟩ := henabled
      obtain ⟨hconns, hlife⟩ := conn_conns hc hop
      have hlt : i < s.conns.length := (List.getElem?_eq_some_iff.mp hc).1
      have hmem : connOp.exec c ∈ (s.exec (.conn i connOp)).conns := by
        rw [hconns]
        exact List.mem_set hlt _
      have hnext := hgood _ hmem
      rw [hlife] at hnext
      apply (h c (List.mem_of_getElem? hc)).not_good
        (connOp.outcome_connected c) ?_ hnext
      intro hallows
      apply hnot
      intro c' hc'
      obtain rfl := Option.some.inj (hc.symm.trans hc')
      exact hallows

theorem tracked_good (h : s.Tracked) : s.Good :=
  fun c hc => (h c hc).good

/-- The callbacks of all connections are in order in every state of a run, if
and only if each of its steps keeps the order. -/
theorem good_always_iff {useSsl : Bool} {ops : List Op}
    (hrun : serverMachine.Run ⟨useSsl, []⟩ ops s) :
    serverMachine.Always Good ⟨useSsl, []⟩ ops ↔
      (serverMachine.guard Allows).Run ⟨useSsl, []⟩ ops s := by
  apply hrun.always_iff_guard (I := Tracked)
  · exact List.forall_mem_nil _
  · exact List.forall_mem_nil _
  · intro s op htracked _ henabled hgood
    apply tracked_exec htracked henabled
    by_contra hnot
    exact not_good_exec htracked henabled hnot hgood
  · intro s op htracked _ henabled
    constructor
    · intro hgood
      by_contra hnot
      exact not_good_exec htracked henabled hnot hgood
    · intro hallows
      exact tracked_good (tracked_exec htracked henabled hallows)

instance (s : TcpServer) (op : Op) :
    Decidable ((serverMachine.guard Allows).enabled s op) :=
  inferInstanceAs (Decidable (_ ∧ _))

/-- Two clients, the second of them refused; the first sends data and gets an
answer before it closes. -/
theorem good_always_iff_two :
    let ops : List Op :=
      [.onPeerConnect .quiet,
        .onPeerConnect { Outside.quiet with limited := true },
        .conn 0 (.handleEvent ⟨false, true, false⟩
          { Outside.quiet with read := .stored [104, 105] }),
        .conn 0 (.send [111, 107]),
        .conn 0 (.handleEvent ⟨false, false, true⟩
          { Outside.quiet with write := .wrote 2 }),
        .conn 0 (.handleEvent ⟨true, true, false⟩ .quiet)]
    serverMachine.Always Good ⟨false, []⟩ ops := by
  intro ops
  have hguard : (serverMachine.guard Allows).Run ⟨false, []⟩ ops
      (ops.foldl serverMachine.next ⟨false, []⟩) :=
    Machine.run_iff.mpr ⟨by decide +kernel, rfl⟩
  exact (good_always_iff hguard.of_guard).mpr hguard

/-- A write finds the peer gone, and then the channel reports it too. -/
theorem good_always_iff_epipe :
    let ops : List Op :=
      [.onPeerConnect .quiet, .conn 0 (.send [97]),
        .conn 0 (.handleEvent ⟨false, false, true⟩
          { Outside.quiet with errno := .epipe }),
        .conn 0 (.handleEvent ⟨true, false, false⟩ .quiet)]
    (∃ s, serverMachine.Run ⟨false, []⟩ ops s ∧
      s.conns.map (fun c => c.history.callbacks) =
        [[.onTcpConnected, .onTcpDisconnected, .onTcpDisconnected]]) ∧
    ¬ serverMachine.Always Good ⟨false, []⟩ ops := by
  intro ops
  have hcallbacks : (ops.foldl serverMachine.next ⟨false, []⟩).conns.map
      (fun c => c.history.callbacks) =
        [[.onTcpConnected, .onTcpDisconnected, .onTcpDisconnected]] := by
    decide +kernel
  constructor
  · exact ⟨_, Machine.run_iff.mpr ⟨by decide +kernel, rfl⟩, hcallbacks⟩
  · rintro ⟨_, _, _, _, hgood⟩
    obtain ⟨c, hc, hlog⟩ := List.mem_map.mp
      (hcallbacks.symm ▸ List.mem_singleton.mpr rfl)
    have hlife := (hgood c hc).callbacks
    rw [show c.life.callbacks = c.history.callbacks from rfl, hlog] at hlife
    exact @Life.not_mem_of_lifeCycle [.onTcpConnected, .onTcpDisconnected]
      .onTcpDisconnected hlife (by decide)

end TcpServer

end Jerry
