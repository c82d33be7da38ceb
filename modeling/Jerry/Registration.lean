/-
What the poller knows of the connections of a worker.  Whatever the handlers do,
a connection is held by its worker and watched by the poller until it is closed,
and not any longer.
-/
import Jerry.ClosedConns
import Jerry.TcpRateLimiter
import Mathlib.Logic.Relation

namespace Jerry

namespace BaseBuffer

theorem dropBytes_le (b : BaseBuffer) (n : Nat) :
    (b.dropBytes n).readableBytes ≤ b.readableBytes := by
  simp only [dropBytes]
  split
  · exact Nat.zero_le _
  · simp only [readableBytes]
    omega

theorem writeBytesToFd_le (b : BaseBuffer) (w : WriteResult) :
    (b.writeBytesToFd w).1.readableBytes ≤ b.readableBytes := by
  simp only [writeBytesToFd]
  split
  · exact b.dropBytes_le _
  · exact Nat.le_refl _

theorem writeBytesToSsl_le (b : BaseBuffer) (w : WriteResult) :
    (b.writeBytesToSsl w).1.readableBytes ≤ b.readableBytes := by
  simp only [writeBytesToSsl]
  split
  · exact b.dropBytes_le _
  · exact Nat.le_refl _

end BaseBuffer

namespace TcpConn

/-- What is done to a connection, one thing at a time.  `direct` says that a
handler works on the channel or the send buffer itself. -/
inductive Change (direct : Prop) (c : TcpConn) : TcpConn → Prop
  | history (history : ConnHistory) (hclosed : history.closed = c.history.closed)
      (haccepted : history.accepted = c.history.accepted)
      (hwritten : history.written = c.history.written) :
      Change direct c { c with history := history }
  | recvBuffer (b : BaseBuffer) : Change direct c { c with recvBuffer := b }
  | written (b : BaseBuffer) (bytes : List UInt8) (hconnected : c.isConnected = true)
      (hle : b.readableBytes ≤ c.sendBuffer.readableBytes)
      (hfront : c.sendBuffer.Valid →
        b.Valid ∧ c.sendBuffer.toStringView = bytes ++ b.toStringView) :
      Change direct c { c with
        sendBuffer := b
        history := { c.history with written := c.history.written ++ bytes } }
  | send (data : List UInt8) : Change direct c (c.send data)
  | deactivateIfDone : Change direct c c.deactivateIfDone
  | stopWriting : Change direct c c.stopWriting
  | disconnect : Change direct c c.disconnect
  | removed (hclosed : c.history.closed = true) : Change direct c c.removeFromIOWorker
  | sendBuffer (b : BaseBuffer) (hdirect : direct) :
      Change direct c { c with sendBuffer := b }
  | channel (op : Channel.Op) (hdirect : direct) :
      Change direct c { c with channel := op.exec c.channel }

/-- What one callback and the handler in it do. -/
abbrev Changes (direct : Prop) : TcpConn → TcpConn → Prop :=
  Relation.ReflTransGen (Change direct)

variable {direct : Prop} {c c' : TcpConn}

/-- A write takes its bytes from the front of the send buffer. -/
theorem taken_spec {op : BufferOp} {w : WriteResult}
    (hop : op = .writeBytesToFd w ∨ op = .writeBytesToSsl w)
    (henabled : op.Enabled c.sendBuffer) (hvalid : c.sendBuffer.Valid) :
    (op.exec c.sendBuffer).1.Valid ∧ c.sendBuffer.toStringView =
      c.taken w ++ (op.exec c.sendBuffer).1.toStringView := by
  refine ⟨BufferOp.exec_valid hvalid henabled, ?_⟩
  rw [BufferOp.exec_toStringView hvalid henabled]
  cases w with
  | failed => rcases hop with rfl | rfl <;> rfl
  | wrote n =>
      have hsplit := (List.take_append_drop n c.sendBuffer.toStringView).symm
      rcases hop with rfl | rfl
      · exact hsplit
      · exact hsplit

theorem send_history_closed (c : TcpConn) (data : List UInt8) :
    (c.send data).history.closed = c.history.closed ∧
      (c.send data).inIOWorker = c.inIOWorker := by
  rw [send]
  split <;> exact ⟨rfl, rfl⟩

theorem deactivateIfDone_history (c : TcpConn) :
    c.deactivateIfDone.history = c.history ∧
      c.deactivateIfDone.inIOWorker = c.inIOWorker := by
  rw [deactivateIfDone]
  split <;> exact ⟨rfl, rfl⟩

/-- A connection that has been closed stays closed, and out of its worker. -/
theorem Change.forward (h : Change direct c c') :
    (c.history.closed = true → c'.history.closed = true) ∧
      (c'.inIOWorker = true → c.inIOWorker = true) := by
  cases h with
  | history _ hclosed _ _ => exact ⟨fun h => hclosed.trans h, id⟩
  | send data =>
      obtain ⟨hclosed, hheld⟩ := c.send_history_closed data
      exact ⟨fun h => hclosed.trans h, fun h => hheld.symm.trans h⟩
  | deactivateIfDone =>
      obtain ⟨hhistory, hheld⟩ := c.deactivateIfDone_history
      exact ⟨fun h => hhistory ▸ h, fun h => hheld.symm.trans h⟩
  | stopWriting => exact ⟨fun h => (Bool.or_false _).trans h, id⟩
  | disconnect => exact ⟨fun _ => Bool.or_true _, id⟩
  | removed => exact ⟨id, fun h => absurd h Bool.false_ne_true⟩
  | recvBuffer | written | sendBuffer | channel => exact ⟨id, id⟩

theorem Changes.forward (h : Changes direct c c') :
    (c.history.closed = true → c'.history.closed = true) ∧
      (c'.inIOWorker = true → c.inIOWorker = true) := by
  induction h with
  | refl => exact ⟨id, id⟩
  | tail _ hchange ih =>
      exact ⟨fun h => hchange.forward.1 (ih.1 h), fun h => ih.2 (hchange.forward.2 h)⟩

end TcpConn

namespace IOWorker

/-- A property of connections that the changes keep. -/
def Kept (direct : Prop) (P : TcpConn → Prop) : Prop :=
  ∀ c c', P c → TcpConn.Change direct c c' → P c'

theorem Kept.changes {direct : Prop} {P : TcpConn → Prop} (h : Kept direct P)
    {c c' : TcpConn} (hc : P c) (hchanges : TcpConn.Changes direct c c') : P c' := by
  induction hchanges with
  | refl => exact hc
  | tail _ hchange ih => exact h _ _ ih hchange

/-- Every connection has the property, and of those that are closed the ones that
are still held are the ones that a running `OnChannelClose` will remove. -/
structure Tracked (P : TcpConn → Prop) (w : IOWorker) : Prop where
  conns : ∀ c ∈ w.conns, P c
  known : ∀ i ∈ w.loop.pending, i < w.conns.length
  closing : ∀ i c, .onChannelClose i ∈ w.loop.stack → w.conns[i]? = some c →
    c.history.closed = true
  removing : ∀ i c, w.conns[i]? = some c → c.history.closed = true →
    c.inIOWorker = true → .onChannelClose i ∈ w.loop.stack

section Tracked

variable {direct : Prop} {P : TcpConn → Prop} {w : IOWorker} {i : Nat}
  {o : Outside} (hP : Kept direct P)
include hP

/-- What neither closes nor calls back. -/
theorem Tracked.modify (h : w.Tracked P) {f : TcpConn → TcpConn}
    (hchanges : ∀ c, w.conns[i]? = some c → TcpConn.Changes direct c (f c))
    (hopen : ∀ c, w.conns[i]? = some c → (f c).history.closed = true →
      c.history.closed = true) {w' : IOWorker} (hconns : w'.conns = w.conns.modify i f)
    (hstack : w'.loop.stack = w.loop.stack)
    (hactive : w'.loop.activeChannels = w.loop.activeChannels) : w'.Tracked P := by
  have hget {j : Nat} {c' : TcpConn} (hc : w'.conns[j]? = some c') :
      ∃ c, w.conns[j]? = some c ∧ TcpConn.Changes direct c c' ∧
        (c'.history.closed = true → c.history.closed = true) := by
    rw [hconns, List.getElem?_modify] at hc
    obtain ⟨c, hj, heq⟩ := Option.map_eq_some_iff.mp hc
    by_cases hij : i = j
    · subst hij
      rw [if_pos rfl] at heq
      exact ⟨c, hj, heq ▸ hchanges c hj, heq ▸ hopen c hj⟩
    · rw [if_neg hij] at heq
      exact ⟨c, hj, heq ▸ .refl, heq ▸ id⟩
  refine ⟨fun c' hc' => ?_, ?_, fun j c' hframe hc' => ?_,
    fun j c' hc' hclosed hheld => ?_⟩
  · obtain ⟨j, hj⟩ := List.getElem?_of_mem hc'
    obtain ⟨c, hc, hchange, -⟩ := hget hj
    exact hP.changes (h.conns c (List.mem_of_getElem? hc)) hchange
  · rw [Loop.pending, hstack, hactive, hconns, List.length_modify]
    exact h.known
  · obtain ⟨c, hc, hchange, -⟩ := hget hc'
    exact hchange.forward.1 (h.closing j c (hstack ▸ hframe) hc)
  · obtain ⟨c, hc, hchange, hwas⟩ := hget hc'
    rw [hstack]
    exact h.removing j c hc (hwas hclosed) (hchange.forward.2 hheld)

theorem Tracked.on (h : w.Tracked P) {f : TcpConn → TcpConn}
    (hchanges : ∀ c, w.conns[i]? = some c → TcpConn.Changes direct c (f c))
    (hopen : ∀ c, w.conns[i]? = some c → (f c).history.closed = true →
      c.history.closed = true) (op : Operation) : (w.on i op f).Tracked P :=
  h.modify hP hchanges hopen rfl (on_effect w i op f).stack
    (on_effect w i op f).activeChannels

omit hP in
/-- Calling back, but not from `OnChannelClose`. -/
theorem Tracked.push (h : w.Tracked P) (frames : List Frame)
    (hframes : ∀ j, .onChannelClose j ∉ frames)
    (hknown : ∀ j ∈ frames.filterMap Frame.conn?, j < w.conns.length) :
    (w.push frames).Tracked P := by
  refine ⟨h.conns, ?_, fun j c hframe hc => ?_, fun j c hc hclosed hheld => ?_⟩
  · rw [(push_effect w 0 frames).pending]
    exact List.forall_mem_append.mpr ⟨hknown, h.known⟩
  · rcases List.mem_append.mp hframe with hframe | hframe
    · exact absurd hframe (hframes j)
    · exact h.closing j c hframe hc
  · exact List.mem_append_right _ (h.removing j c hc hclosed hheld)

omit hP in
theorem Tracked.push_handler (h : w.Tracked P) : (w.push [.handler]).Tracked P :=
  h.push _ (fun j hmem => by cases List.mem_singleton.mp hmem) (List.forall_mem_nil _)

theorem Tracked.onChannelClose (h : w.Tracked P) (hi : i < w.conns.length) :
    (w.onChannelClose i).Tracked P := by
  have hget {j : Nat} {c' : TcpConn} (hc : (w.onChannelClose i).conns[j]? = some c') :
      ∃ c, w.conns[j]? = some c ∧ TcpConn.Changes direct c c' ∧
        (i = j → c'.history.closed = true) ∧ (i ≠ j → c' = c) := by
    change (w.conns.modify i _)[j]? = some c' at hc
    rw [List.getElem?_modify] at hc
    obtain ⟨c, hj, heq⟩ := Option.map_eq_some_iff.mp hc
    by_cases hij : i = j
    · rw [if_pos hij] at heq
      refine ⟨c, hj, ?_, fun _ => ?_, fun hne => absurd hij hne⟩
      · rw [← heq]
        exact .tail (.single .disconnect) (.history _ rfl rfl rfl)
      · rw [← heq]
        exact Bool.or_true _
    · rw [if_neg hij] at heq
      exact ⟨c, hj, heq ▸ .refl, fun hsame => absurd hsame hij, fun _ => heq.symm⟩
  have hstack : (w.onChannelClose i).loop.stack =
      [.handler, .onChannelClose i] ++ w.loop.stack := by
    rw [IOWorker.onChannelClose, IOWorker.push, Loop.push, on_stack]
  have heffect := onChannelClose_effect w i
  refine ⟨fun c' hc' => ?_, ?_, fun j c' hframe hc' => ?_,
    fun j c' hc' hclosed hheld => ?_⟩
  · obtain ⟨j, hj⟩ := List.getElem?_of_mem hc'
    obtain ⟨c, hc, hchange, -⟩ := hget hj
    exact hP.changes (h.conns c (List.mem_of_getElem? hc)) hchange
  · rw [heffect.pending, heffect.conns]
    exact List.forall_mem_cons.mpr ⟨hi, h.known⟩
  · obtain ⟨c, hc, hchange, hsame, -⟩ := hget hc'
    by_cases hij : i = j
    · exact hsame hij
    · rw [hstack] at hframe
      rcases List.mem_append.mp hframe with hframe | hframe
      · simp only [List.mem_cons, reduceCtorEq, Frame.onChannelClose.injEq,
          List.not_mem_nil, or_false, false_or] at hframe
        exact absurd hframe.symm hij
      · exact hchange.forward.1 (h.closing j c hframe hc)
  · obtain ⟨c, hc, hchange, -, hother⟩ := hget hc'
    rw [hstack]
    by_cases hij : i = j
    · rw [hij]
      exact List.mem_append_left _ (List.mem_cons_of_mem _ List.mem_cons_self)
    · rw [hother hij] at hclosed hheld
      exact List.mem_append_right _ (h.removing j c hc hclosed hheld)

theorem Tracked.shutdown (h : w.Tracked P) (hi : i < w.conns.length) (o : Outside) :
    (w.shutdown i o).Tracked P := by
  have hstopped := h.on hP (i := i) (f := .stopWriting)
    (fun c _ => .single .stopWriting)
    (fun c _ hclosed => (Bool.or_false _).symm.trans hclosed) .shutdown
  simp only [IOWorker.shutdown]
  split
  · exact hstopped.onChannelClose hP ((on_effect w i _ _).conns ▸ hi)
  · exact hstopped

/-- Only what is recorded of the connection changes. -/
theorem Tracked.recorded (h : w.Tracked P) {f : TcpConn → TcpConn}
    (hf : ∀ c, TcpConn.Change direct c (f c) ∧
      (f c).history.closed = c.history.closed) (i : Nat) (op : Operation) :
    (w.on i op f).Tracked P :=
  h.on hP (fun c _ => .single (hf c).1)
    (fun c _ hclosed => (hf c).2 ▸ hclosed) op

theorem Tracked.call (h : w.Tracked P) (i : Nat) (callback : TcpCallback) :
    (w.on i .callback fun c => c.call callback).Tracked P :=
  h.recorded hP (f := fun c => c.call callback) (fun _ => ⟨.history _ rfl rfl rfl, rfl⟩) i
    .callback

theorem Tracked.onConnected (h : w.Tracked P) (hi : i < w.conns.length) (o : Outside) :
    (w.onConnected i o).Tracked P := by
  simp only [IOWorker.onConnected]
  split
  · have hrefused := h.recorded hP
      (f := fun c => { c with history := { c.history with refused := true } })
      (fun _ => ⟨.history _ rfl rfl rfl, rfl⟩) i .callback
    exact hrefused.shutdown hP ((on_effect w i _ _).conns ▸ hi) o
  · exact (h.call hP i _).push_handler

theorem Tracked.onDataReceived (h : w.Tracked P) (hi : i < w.conns.length)
    (o : Outside) :
    (w.onDataReceived i o).Tracked P := by
  simp only [IOWorker.onDataReceived]
  split
  · exact h.shutdown hP hi o
  · exact (h.call hP i _).push_handler

theorem Tracked.onChannelReadable (h : w.Tracked P) (hi : i < w.conns.length)
    (o : Outside) : (w.onChannelReadable i o).Tracked P := by
  have hi' (b : BaseBuffer) : i < (w.on i .onChannelReadable
      fun c => { c with recvBuffer := b }).conns.length :=
    (on_effect w i _ _).conns ▸ hi
  have hread (b : BaseBuffer) : (w.on i .onChannelReadable
      fun c => { c with recvBuffer := b }).Tracked P :=
    h.on hP (fun _ _ => .single (.recvBuffer b)) (fun _ _ h => h) _
  simp only [IOWorker.onChannelReadable]
  split
  · exact h
  · split
    · split
      · split
        · exact (hread _).shutdown hP (hi' _) o
        · split
          · split
            · exact hread _
            · exact (hread _).onChannelClose hP (hi' _)
          · exact (hread _).onDataReceived hP (hi' _) o
      · split
        · exact (hread _).onChannelClose hP (hi' _)
        · exact (hread _).onDataReceived hP (hi' _) o
    · exact h

theorem Tracked.deactivateIfDone (h : w.Tracked P) (i : Nat) :
    (w.deactivateIfDone i).Tracked P :=
  h.on hP (fun _ _ => .single .deactivateIfDone)
    (fun c _ hclosed => c.deactivateIfDone_history.1 ▸ hclosed) _

theorem Tracked.onChannelWritable (h : w.Tracked P) (hi : i < w.conns.length)
    {events : TcpConn.Events}
    (hfits : ∀ c ∈ w.conns[i]?, (ConnOp.handleEvent events o).Enabled c) :
    (w.onChannelWritable i o).Tracked P := by
  simp only [IOWorker.onChannelWritable]
  split
  · exact h
  · rename_i c hc
    split
    · rename_i hconnected
      have hwrite {op : BufferOp}
          (hop : op = .writeBytesToFd o.write ∨ op = .writeBytesToSsl o.write)
          (henabled : op.Enabled c.sendBuffer)
          (hle : (op.exec c.sendBuffer).1.readableBytes ≤ c.sendBuffer.readableBytes) :
          (w.on i .onChannelWritable fun c' => { c' with
            sendBuffer := (op.exec c.sendBuffer).1
            history := { c.history with
              written := c.history.written ++ c.taken o.write } }).Tracked P := by
        refine h.on hP (fun c' hc' => ?_) (fun c' hc' hclosed => ?_) _
        · have heq : c = c' := Option.some_inj.mp (hc.symm.trans hc')
          subst heq
          exact .single (.written _ _ hconnected hle (TcpConn.taken_spec hop henabled))
        · have heq : c = c' := Option.some_inj.mp (hc.symm.trans hc')
          exact heq ▸ hclosed
      have henabled := hfits c hc
      rw [ConnOp.Enabled] at henabled
      split
      · rename_i hencrypted
        rw [if_pos hencrypted] at henabled
        have hssl := hwrite (Or.inr rfl) henabled.2
          (c.sendBuffer.writeBytesToSsl_le o.write)
        split
        · have hi' := (on_effect w i .onChannelWritable fun c' => { c' with
            sendBuffer := (c.sendBuffer.writeBytesToSsl o.write).1
            history := { c.history with
              written := c.history.written ++ c.taken o.write } }).conns ▸ hi
          have hpushed := hssl.push [.onChannelWritable i]
            (fun j hmem => absurd (List.mem_singleton.mp hmem) (by simp))
            (List.forall_mem_singleton.mpr hi')
          exact hpushed.onChannelClose hP hi'
        · exact hssl.deactivateIfDone hP i
      · rename_i hplain
        rw [if_neg hplain] at henabled
        have hfd := hwrite (Or.inl rfl) henabled.2
          (c.sendBuffer.writeBytesToFd_le o.write)
        split
        · have hgone := hfd.recorded hP (f := fun c => { c with
              history := { c.history with peerGone := true } }.call
              .onTcpDisconnected) (fun c => ⟨.history { c.history with
                peerGone := true
                callbacks := c.history.callbacks ++ [.onTcpDisconnected] } rfl rfl rfl,
              rfl⟩) i .callback
          exact hgone.push_handler
        · exact hfd.deactivateIfDone hP i
    · exact h

theorem Tracked.channelCallback (h : w.Tracked P) (hi : i < w.conns.length)
    (events : TcpConn.Events)
    (hfits : ∀ c ∈ w.conns[i]?, (ConnOp.handleEvent events o).Enabled c)
    (callback : ChannelCallback) : (w.channelCallback i o callback).Tracked P := by
  cases callback with
  | onReadable => exact h.onChannelReadable hP hi o
  | onWritable => exact h.onChannelWritable hP hi hfits
  | onPeerClose => exact h.onChannelClose hP hi
  | onError => exact h.onChannelClose hP hi

omit hP in
theorem Tracked.addTcpConn (h : w.Tracked P) (hnew : P (TcpConn.ofClient w.useSsl)) :
    w.addTcpConn.Tracked P := by
  have hlength : w.addTcpConn.conns.length = w.conns.length + 1 :=
    List.length_append
  refine ⟨fun c hc => ?_, fun j hj => ?_, fun j c hframe hc => ?_,
    fun j c hc hclosed hheld => ?_⟩
  · rcases List.mem_append.mp hc with hc | hc
    · exact h.conns c hc
    · rw [List.mem_singleton.mp hc]
      exact hnew
  · rw [hlength]
    exact Nat.lt_succ_of_lt (h.known j hj)
  · have hj := h.known j (List.mem_append_left _ (List.mem_filterMap.mpr
      ⟨_, hframe, rfl⟩))
    refine h.closing j c hframe ?_
    rwa [IOWorker.addTcpConn, List.getElem?_append_left hj] at hc
  · refine h.removing j c ?_ hclosed hheld
    rw [IOWorker.addTcpConn] at hc
    by_cases hj : j < w.conns.length
    · rwa [List.getElem?_append_left hj] at hc
    · rw [List.getElem?_append_right (Nat.le_of_not_lt hj)] at hc
      rw [List.mem_singleton.mp (List.mem_of_getElem? hc)] at hclosed
      cases hclosed

theorem Tracked.onPeerConnect (h : w.Tracked P) (hnew : P (TcpConn.ofClient w.useSsl))
    (o : Outside) : (w.onPeerConnect o).Tracked P := by
  have hi : w.conns.length < w.addTcpConn.conns.length := by
    rw [IOWorker.addTcpConn, List.length_append]
    exact Nat.lt_succ_self _
  have hpushed := (h.addTcpConn hnew).push [.onPeerConnect w.conns.length]
    (fun j hmem => absurd (List.mem_singleton.mp hmem) (by simp))
    (List.forall_mem_singleton.mpr hi)
  exact hpushed.onConnected hP hi o

theorem Tracked.handleEvent (h : w.Tracked P) (hnew : ∀ useSsl, P (TcpConn.ofClient useSsl))
    {e : Active} (he : ∀ i ∈ e.conn?, i < w.conns.length) (hfits : w.Fits e o)
    (accepted : Bool) : (w.handleEvent e o accepted).Tracked P := by
  obtain ⟨channel, events⟩ := e
  cases channel with
  | wakeup => exact h
  | timer =>
      simp only [IOWorker.handleEvent]
      split
      · exact h.push_handler
      · exact h
  | acceptor =>
      simp only [IOWorker.handleEvent]
      split
      · exact h.onPeerConnect hP (hnew _) o
      · exact h
  | conn i =>
      have hon := h.on hP (i := i) (f := id) (fun _ _ => .refl) (fun _ _ h => h)
        .handleEvent
      refine hon.channelCallback hP ((on_effect w i _ _).conns ▸ he i rfl) events
        (fun c hc => hfits i rfl c ?_) _
      rwa [IOWorker.on, List.modify_id] at hc

/-- A handler or a timer task works on a channel or a send buffer itself. -/
def Op.Direct : Op → Prop
  | .call (.sendBuffer _ _) | .call (.channel _ _) => True
  | _ => False

instance : ∀ op : Op, Decidable op.Direct
  | .call (.sendBuffer _ _) | .call (.channel _ _) => isTrue trivial
  | .call (.send _ _) | .call (.shutdown _ _) | .call (.forceClose _)
  | .call (.recvBuffer _ _) | .poll _ | .handleNext _ _ | .resume => isFalse id

theorem Tracked.exec_call (h : w.Tracked P) {call : Call}
    (hknown : call.conn < w.conns.length) (hdirect : (Op.call call).Direct → direct) :
    (call.exec w).Tracked P := by
  cases call with
  | send i data =>
      exact h.modify hP (fun c _ => .single (.send data))
        (fun c _ hclosed => (c.send_history_closed data).1 ▸ hclosed) rfl rfl rfl
  | shutdown i o => exact h.shutdown hP hknown o
  | forceClose i => exact h.onChannelClose hP hknown
  | recvBuffer i op =>
      exact h.on hP (f := fun c => { c with recvBuffer := (op.exec c.recvBuffer).1 })
        (fun c _ => .single (.recvBuffer (op.exec c.recvBuffer).1)) (fun _ _ h => h) _
  | sendBuffer i op =>
      exact h.on hP (f := fun c => { c with sendBuffer := (op.exec c.sendBuffer).1 })
        (fun c _ => .single (.sendBuffer (op.exec c.sendBuffer).1 (hdirect trivial)))
        (fun _ _ h => h) _
  | channel i op =>
      exact h.on hP (fun _ _ => .single (.channel op (hdirect trivial)))
        (fun _ _ h => h) _

omit hP in
/-- A frame that does not close a connection is left. -/
theorem Tracked.pop {frame : Frame} {stack : List Frame} (h : w.Tracked P)
    (hstack : w.loop.stack = frame :: stack)
    (hframe : ∀ j, frame ≠ .onChannelClose j) :
    IOWorker.Tracked P { w with loop := { w.loop with stack := stack } } := by
  refine ⟨h.conns, fun j hj => h.known j ?_, fun j c hmem hc => h.closing j c ?_ hc,
    fun j c hc hclosed hheld => ?_⟩
  · rw [Loop.pending_cons hstack]
    exact List.mem_append_right _ hj
  · rw [hstack]
    exact List.mem_cons_of_mem _ hmem
  · have hmem := h.removing j c hc hclosed hheld
    rw [hstack] at hmem
    rcases List.mem_cons.mp hmem with heq | hmem
    · exact absurd heq.symm (hframe j)
    · exact hmem

/-- The end of `OnChannelClose`. -/
theorem Tracked.remove {stack : List Frame} (h : w.Tracked P)
    (hstack : w.loop.stack = .onChannelClose i :: stack) :
    (IOWorker.removeFromIOWorker { w with loop := { w.loop with stack := stack } }
      i).Tracked P := by
  let w₁ : IOWorker := { w with loop := { w.loop with stack := stack } }
  have heffect := on_effect w₁ i .removeFromIOWorker .removeFromIOWorker
  have hget {j : Nat} {c' : TcpConn}
      (hc : (w₁.removeFromIOWorker i).conns[j]? = some c') :
      ∃ c, w.conns[j]? = some c ∧ c'.history = c.history ∧
        TcpConn.Changes direct c c' ∧ (i = j → c'.inIOWorker = false) := by
    change (w.conns.modify i _)[j]? = some c' at hc
    rw [List.getElem?_modify] at hc
    obtain ⟨c, hj, heq⟩ := Option.map_eq_some_iff.mp hc
    by_cases hij : i = j
    · rw [if_pos hij] at heq
      subst hij
      have hclosed := h.closing i c (hstack ▸ List.mem_cons_self) hj
      exact ⟨c, hj, heq ▸ rfl, heq ▸ .single (.removed hclosed), fun _ => heq ▸ rfl⟩
    · rw [if_neg hij] at heq
      exact ⟨c, hj, heq ▸ rfl, heq ▸ .refl, fun hsame => absurd hsame hij⟩
  have hstack' : (w₁.removeFromIOWorker i).loop.stack = stack := heffect.stack
  refine ⟨fun c' hc' => ?_, fun j hj => ?_, fun j c' hframe hc' => ?_,
    fun j c' hc' hclosed hheld => ?_⟩
  · obtain ⟨j, hj⟩ := List.getElem?_of_mem hc'
    obtain ⟨c, hc, -, hchange, -⟩ := hget hj
    exact hP.changes (h.conns c (List.mem_of_getElem? hc)) hchange
  · have hpending : (w₁.removeFromIOWorker i).loop.pending = w₁.loop.pending :=
      heffect.pending
    have hlength : (w₁.removeFromIOWorker i).conns.length = w.conns.length :=
      heffect.conns
    rw [hpending] at hj
    rw [hlength]
    refine h.known j ?_
    rw [Loop.pending_cons hstack]
    exact List.mem_append_right _ hj
  · obtain ⟨c, hc, hhistory, -⟩ := hget hc'
    rw [hstack'] at hframe
    rw [hhistory]
    exact h.closing j c (hstack ▸ List.mem_cons_of_mem _ hframe) hc
  · obtain ⟨c, hc, hhistory, hchange, hout⟩ := hget hc'
    rw [hstack']
    have hmem := h.removing j c hc (hhistory ▸ hclosed) (hchange.forward.2 hheld)
    rw [hstack] at hmem
    rcases List.mem_cons.mp hmem with heq | hmem
    · rw [hout (Frame.onChannelClose.inj heq).symm] at hheld
      cases hheld
    · exact hmem

theorem Tracked.resume (h : w.Tracked P) : w.resume.Tracked P := by
  cases hstack : w.loop.stack with
  | nil =>
      rw [IOWorker.resume, hstack]
      exact h
  | cons frame stack =>
      rw [resume_eq hstack]
      cases frame with
      | handler => exact h.pop hstack fun j heq => by cases heq
      | onChannelClose i => exact h.remove hP hstack
      | onChannelWritable i =>
          exact (h.pop hstack fun j heq => by cases heq).deactivateIfDone hP i
      | onPeerConnect i =>
          exact (h.pop hstack fun j heq => by cases heq).on hP (fun _ _ => .refl)
            (fun _ _ h => h) _

/-- The step lemma. -/
theorem Tracked.exec (h : w.Tracked P)
    (hnew : ∀ useSsl, P (TcpConn.ofClient useSsl)) {op : Op}
    (henabled : op.Enabled w) (hdirect : op.Direct → direct) :
    (op.exec w).Tracked P := by
  cases op with
  | poll batch =>
      obtain ⟨⟨-, hstack⟩, -, hpolls⟩ := henabled
      refine ⟨h.conns, fun i hi => ?_, h.closing, h.removing⟩
      have hbatch : i ∈ batch.filterMap Active.conn? := by
        change i ∈ w.loop.stack.filterMap Frame.conn? ++ _ at hi
        rwa [hstack] at hi
      obtain ⟨e, he, hconn⟩ := List.mem_filterMap.mp hbatch
      have hknown := hpolls e he
      rw [ActiveChannel.conn?_eq_some hconn] at hknown
      obtain ⟨c, hc, -⟩ := hknown
      exact (List.getElem?_eq_some_iff.mp hc).1
  | handleNext o accepted =>
      obtain ⟨hstack, e, he, hfits⟩ := henabled
      obtain ⟨rest, hbatch⟩ := List.head?_eq_some_iff.mp he
      have hpending : w.loop.pending =
          e.conn?.toList ++ rest.filterMap Active.conn? := by
        rw [Loop.pending, hstack, hbatch, List.filterMap_nil, List.nil_append]
        cases hconn : e.conn? <;> simp [hconn]
      have htaken : IOWorker.Tracked P
          { w with loop := { w.loop with activeChannels := rest } } := by
        refine ⟨h.conns, fun i hi => h.known i ?_, h.closing, h.removing⟩
        change i ∈ w.loop.stack.filterMap Frame.conn? ++ _ at hi
        rw [hstack] at hi
        rw [hpending]
        exact List.mem_append_right _ hi
      change (w.handleNext o accepted).Tracked P
      rw [handleNext_eq hbatch]
      refine htaken.handleEvent hP hnew (fun i hi => h.known i ?_) hfits accepted
      rw [hpending, hi]
      exact List.mem_append_left _ (List.mem_singleton_self i)
  | call call => exact h.exec_call hP henabled.2 hdirect
  | resume => exact h.resume hP

omit hP in
theorem init_tracked (P : TcpConn → Prop) (useSsl : Bool) :
    (init useSsl).Tracked P :=
  ⟨List.forall_mem_nil _, List.forall_mem_nil _,
    fun _ _ hframe => absurd hframe List.not_mem_nil, fun i c hc => by
      rw [init, List.getElem?_nil] at hc
      cases hc⟩

end Tracked

end IOWorker

namespace Channel

/-- What the poller watches a channel for is what the channel is interested in. -/
def Watched (c : Channel) : Prop :=
  ∀ interest ∈ c.polled, interest = (c.reading, c.writing)

theorem updateChannel_watched (c : Channel) : c.updateChannel.Watched := by
  intro interest hinterest
  obtain ⟨_, -, heq⟩ := Option.map_eq_some_iff.mp hinterest
  exact heq.symm

/-- An interest that changes is passed on, and the poller learns of no channel. -/
theorem Watched.update {c c' : Channel} (hpolled : c'.polled = c.polled) :
    c'.updateChannel.Watched ∧ c'.updateChannel.polled.isSome = c.polled.isSome :=
  ⟨updateChannel_watched c', Option.isSome_map.trans (congrArg _ hpolled)⟩

theorem Op.exec_watched {c : Channel} (h : c.Watched) (op : Op) :
    (op.exec c).Watched ∧ (op.exec c).polled.isSome = c.polled.isSome := by
  cases op with
  | activateReading =>
      rw [exec, Channel.activateReading]
      split
      · exact ⟨h, rfl⟩
      · exact Watched.update rfl
  | deactivateReading =>
      rw [exec, Channel.deactivateReading]
      split
      · exact Watched.update rfl
      · exact ⟨h, rfl⟩
  | activateWriting =>
      rw [exec, Channel.activateWriting]
      split
      · exact ⟨h, rfl⟩
      · exact Watched.update rfl
  | deactivateWriting =>
      rw [exec, Channel.deactivateWriting]
      split
      · exact Watched.update rfl
      · exact ⟨h, rfl⟩
  | activateRW =>
      rw [exec, Channel.activateRW]
      split
      · exact Watched.update rfl
      · exact ⟨h, rfl⟩
  | deactivateRW =>
      rw [exec, Channel.deactivateRW]
      split
      · exact Watched.update rfl
      · exact ⟨h, rfl⟩

end Channel

namespace TcpConn

/-- The poller knows the connection, and the worker holds it, until it is closed. -/
structure Registered (c : TcpConn) : Prop where
  known : c.channel.polled.isSome = !c.history.closed
  watched : c.channel.Watched
  held : c.history.closed = false → c.inIOWorker = true

theorem ofClient_registered (isEncrypted : Bool) : (ofClient isEncrypted).Registered where
  known := rfl
  watched := Channel.updateChannel_watched _
  held _ := rfl

theorem Registered.channel {c : TcpConn} (h : c.Registered) {channel : Channel}
    (hchannel : channel.Watched ∧ channel.polled.isSome = c.channel.polled.isSome) :
    Registered { c with channel := channel } :=
  ⟨hchannel.2.trans h.known, hchannel.1, h.held⟩

theorem registered_kept : IOWorker.Kept True Registered := by
  intro c c' h hchange
  cases hchange with
  | history history hclosed _ _ =>
      exact ⟨h.known.trans (congrArg _ hclosed.symm), h.watched,
        fun hopen => h.held (hclosed.symm.trans hopen)⟩
  | recvBuffer b => exact ⟨h.known, h.watched, h.held⟩
  | written b bytes _ hle _ => exact ⟨h.known, h.watched, h.held⟩
  | sendBuffer b => exact ⟨h.known, h.watched, h.held⟩
  | channel op => exact h.channel (Channel.Op.exec_watched h.watched op)
  | send data =>
      rw [TcpConn.send]
      split
      · obtain ⟨hwatched, hpolled⟩ := Channel.Op.exec_watched h.watched .activateWriting
        exact ⟨hpolled.trans h.known, hwatched, h.held⟩
      · exact h
  | deactivateIfDone =>
      rw [TcpConn.deactivateIfDone]
      split
      · exact h.channel (Channel.Op.exec_watched h.watched .deactivateWriting)
      · exact h
  | stopWriting =>
      obtain ⟨hwatched, hpolled⟩ := Channel.Op.exec_watched h.watched .deactivateWriting
      have hclosed : c.stopWriting.history.closed = c.history.closed := Bool.or_false _
      exact ⟨hpolled.trans (h.known.trans (congrArg _ hclosed.symm)), hwatched,
        fun hopen => h.held (hclosed.symm.trans hopen)⟩
  | disconnect =>
      have hclosed : c.disconnect.history.closed = true := Bool.or_true _
      refine ⟨by rw [hclosed]; rfl, ?_, fun hopen => ?_⟩
      · intro interest hinterest
        cases hinterest
      · rw [hclosed] at hopen
        cases hopen
  | removed hclosed =>
      refine ⟨h.known, h.watched, fun hopen => ?_⟩
      exact absurd (hclosed.symm.trans hopen) Bool.true_eq_false.mp

/-- What the poller is to watch an open connection for, as long as handlers leave
its channel and its send buffer alone. -/
structure Attentive (c : TcpConn) : Prop where
  hears : c.history.closed = false → c.channel.reading = true
  sends : c.isConnected = true → 0 < c.sendBuffer.readableBytes →
    c.channel.writing = true

theorem deactivateWriting_reading (c : Channel) :
    c.deactivateWriting.reading = c.reading := by
  rw [Channel.deactivateWriting]
  split <;> rfl

theorem activateWriting_eq (c : Channel) :
    c.activateWriting.reading = c.reading ∧ c.activateWriting.writing = true := by
  rw [Channel.activateWriting]
  split
  · rename_i hwriting
    exact ⟨rfl, hwriting⟩
  · exact ⟨rfl, rfl⟩

theorem attentive_kept : IOWorker.Kept False Attentive := by
  intro c c' h hchange
  cases hchange with
  | history history hclosed _ _ =>
      exact ⟨fun hopen => h.hears (hclosed.symm.trans hopen), h.sends⟩
  | recvBuffer b => exact ⟨h.hears, h.sends⟩
  | written b bytes _ hle _ =>
      exact ⟨h.hears, fun hconnected hsome => h.sends hconnected (Nat.lt_of_lt_of_le hsome hle)⟩
  | send data =>
      rw [TcpConn.send]
      split
      · obtain ⟨hreading, hwriting⟩ := activateWriting_eq c.channel
        exact ⟨fun hopen => hreading.trans (h.hears hopen), fun _ _ => hwriting⟩
      · exact h
  | deactivateIfDone =>
      rw [TcpConn.deactivateIfDone]
      split
      · rename_i hnone
        refine ⟨fun hopen => (deactivateWriting_reading _).trans (h.hears hopen),
          fun _ hsome => ?_⟩
        exact absurd hnone (Nat.ne_of_gt hsome)
      · exact h
  | stopWriting =>
      have hclosed : c.stopWriting.history.closed = c.history.closed := Bool.or_false _
      refine ⟨fun hopen => (deactivateWriting_reading _).trans
        (h.hears (hclosed.symm.trans hopen)), fun hconnected => ?_⟩
      cases hconnected
  | disconnect =>
      have hclosed : c.disconnect.history.closed = true := Bool.or_true _
      refine ⟨fun hopen => ?_, fun hconnected => ?_⟩
      · rw [hclosed] at hopen
        cases hopen
      · cases hconnected
  | removed hclosed => exact ⟨h.hears, h.sends⟩
  | sendBuffer b hdirect => exact hdirect.elim
  | channel op hdirect => exact hdirect.elim

end TcpConn

namespace IOWorker

variable {useSsl : Bool} {ops : List Op} {w : IOWorker}

theorem tracked_registered (hrun : ioWorkerMachine.Run (init useSsl) ops w) :
    w.Tracked TcpConn.Registered :=
  hrun.invariant (init_tracked _ useSsl) fun _ _ h henabled =>
    h.exec TcpConn.registered_kept TcpConn.ofClient_registered henabled
      fun _ => trivial

theorem polled_eq {i : Nat} {c : TcpConn} (h : w.Tracked TcpConn.Registered)
    (hc : w.conns[i]? = some c) :
    c.channel.polled = (if c.history.closed then none
      else some (c.channel.reading, c.channel.writing)) := by
  have hregistered := h.conns c (List.mem_of_getElem? hc)
  cases hclosed : c.history.closed with
  | true =>
      have hnone := hregistered.known
      rw [hclosed] at hnone
      exact Option.isNone_iff_eq_none.mp (by simpa using hnone)
  | false =>
      have hsome := hregistered.known
      rw [hclosed] at hsome
      obtain ⟨interest, heq⟩ := Option.isSome_iff_exists.mp hsome
      rw [heq, hregistered.watched interest heq]
      rfl

/-- Between two events the worker holds a connection exactly if the poller watches
it. -/
theorem inIOWorker_iff_polled {c : TcpConn} (h : w.Tracked TcpConn.Registered)
    (hidle : w.loop.Idle) (hmem : c ∈ w.conns) :
    c.inIOWorker = true ↔ c.channel.polled.isSome = true := by
  obtain ⟨i, hi⟩ := List.getElem?_of_mem hmem
  have hregistered := h.conns c hmem
  rw [hregistered.known]
  constructor
  · intro hheld
    by_contra hclosed
    have hframe := h.removing i c hi (by simpa using hclosed) hheld
    rw [hidle.2] at hframe
    exact List.not_mem_nil hframe
  · intro hopen
    exact hregistered.held (by simpa using hopen)

/-- In every state of a run, whatever the handlers call, the poller watches exactly
the open connections, each for what its channel is interested in.  The worker
holds them, and a closed one only until `OnChannelClose` has come to its end. -/
theorem registered_always (hrun : ioWorkerMachine.Run (init useSsl) ops w) :
    (∀ i c, w.conns[i]? = some c →
      c.channel.polled = (if c.history.closed then none
        else some (c.channel.reading, c.channel.writing)) ∧
      (c.history.closed = false → c.inIOWorker = true) ∧
      (c.history.closed = true → c.inIOWorker = true →
        .onChannelClose i ∈ w.loop.stack)) ∧
    (w.loop.Idle →
      w.getConnNums = w.conns.countP fun c => c.channel.polled.isSome) := by
  have h := tracked_registered hrun
  refine ⟨fun i c hc => ?_, fun hidle => ?_⟩
  · have hregistered := h.conns c (List.mem_of_getElem? hc)
    exact ⟨polled_eq h hc, hregistered.held, h.removing i c hc⟩
  · exact List.countP_congr fun c hmem => inIOWorker_iff_polled h hidle hmem

/-- A client whose handler has just closed the connection. -/
theorem registered_always_closing :
    let ops : List Op := exampleAccept ++ [.call (.forceClose 0)]
    let w := ops.foldl ioWorkerMachine.next (init false)
    ∀ c, w.conns[0]? = some c →
      c.channel.polled = (if c.history.closed then none
        else some (c.channel.reading, c.channel.writing)) ∧
      (c.history.closed = true → c.inIOWorker = true →
        Frame.onChannelClose 0 ∈ w.loop.stack) := by
  intro ops w c hc
  have hrun : ioWorkerMachine.Run (init false) ops w :=
    Machine.run_iff.mpr ⟨by decide +kernel, rfl⟩
  obtain ⟨hpolled, -, hremoving⟩ := (registered_always hrun).1 0 c hc
  exact ⟨hpolled, hremoving⟩

/-- As long as no handler works on a channel or a send buffer itself, the poller
hears every open connection, and it knows of every connected one that has data to
send. -/
theorem attentive_always
    (hrun : (ioWorkerMachine.guard fun _ op => ¬ op.Direct).Run (init useSsl) ops w) :
    ∀ c ∈ w.conns, c.history.closed = false →
      c.channel.polled = some (true, c.channel.writing) ∧
      (c.isConnected = true → 0 < c.sendBuffer.readableBytes →
        c.channel.polled = some (true, true)) := by
  have h : w.Tracked TcpConn.Attentive := hrun.invariant (init_tracked _ useSsl)
    fun _ _ h henabled => h.exec TcpConn.attentive_kept
      (fun _ => ⟨fun _ => rfl, fun _ hnone => absurd hnone (Nat.lt_irrefl 0)⟩)
      henabled.1 henabled.2
  intro c hc hopen
  obtain ⟨i, hi⟩ := List.getElem?_of_mem hc
  have hattentive := h.conns c hc
  have hpolled := polled_eq (tracked_registered hrun.of_guard) hi
  rw [hopen, hattentive.hears hopen] at hpolled
  refine ⟨hpolled, fun hconnected hsome => ?_⟩
  rw [hpolled, hattentive.sends hconnected hsome]
  rfl

instance (w : IOWorker) (op : Op) :
    Decidable ((ioWorkerMachine.guard fun _ op => ¬ op.Direct).enabled w op) :=
  inferInstanceAs (Decidable (ioWorkerMachine.enabled w op ∧ ¬ op.Direct))

/-- A client is accepted, and its handler sends a byte. -/
theorem attentive_always_sending :
    let ops : List Op := exampleAccept ++ [.call (.send 0 [97]), .resume, .resume]
    let w := ops.foldl ioWorkerMachine.next (init false)
    ∀ c ∈ w.conns, c.history.closed = false → c.isConnected = true →
      0 < c.sendBuffer.readableBytes → c.channel.polled = some (true, true) := by
  intro ops w c hc hopen hconnected hsome
  have hrun : (ioWorkerMachine.guard fun _ op => ¬ op.Direct).Run (init false) ops w :=
    Machine.run_iff.mpr ⟨by decide +kernel, rfl⟩
  exact (attentive_always hrun c hc hopen).2 hconnected hsome

end IOWorker

end Jerry
