/-
`net/IOWorker` in its loop: the batch of one `epoll_wait` and the functions whose
callbacks are running.  A handler calls what it likes on any connection, one call
a step; a function that still uses its connection behind a callback is a frame of
the stack.
-/
import Jerry.TcpConn
import Jerry.Machine

namespace Jerry

namespace Channel

def deactivateReading (c : Channel) : Channel :=
  if c.reading then { c with reading := false }.updateChannel else c

def activateRW (c : Channel) : Channel :=
  if !c.reading || !c.writing then
    { c with reading := true, writing := true }.updateChannel
  else c

def deactivateRW (c : Channel) : Channel :=
  if c.reading || c.writing then
    { c with reading := false, writing := false }.updateChannel
  else c

/-- What a handler can call on the channel of a connection. -/
inductive Op where
  | activateReading | deactivateReading | activateWriting | deactivateWriting
  | activateRW | deactivateRW
deriving DecidableEq, Repr

def Op.exec (c : Channel) : Op → Channel
  | .activateReading => c.activateReading
  | .deactivateReading => c.deactivateReading
  | .activateWriting => c.activateWriting
  | .deactivateWriting => c.deactivateWriting
  | .activateRW => c.activateRW
  | .deactivateRW => c.deactivateRW

end Channel

/-- The callbacks of a channel. -/
inductive ChannelCallback where
  | onWritable | onReadable | onPeerClose | onError
deriving DecidableEq, Repr

namespace TcpConn

/-- The one callback `Channel::HandleEvent` calls. -/
def Events.callback (events : Events) : ChannelCallback :=
  if events.close then .onPeerClose
  else if events.read then .onReadable
  else if events.write then .onWritable
  else .onError

/-- `OnChannelClose` up to its callback. -/
def disconnect (c : TcpConn) : TcpConn :=
  let c := c.exchangeState .disconnected
  { c with
    channel := c.channel.removeFromPoller
    sendBuffer := c.sendBuffer.release
    recvBuffer := c.recvBuffer.release }

def removeFromIOWorker (c : TcpConn) : TcpConn :=
  { c with inIOWorker := false }

theorem onChannelClose_eq (c : TcpConn) :
    c.onChannelClose =
      (c.disconnect.call .onTcpDisconnected).removeFromIOWorker := rfl

/-- `Shutdown` up to shutdown(2). -/
def stopWriting (c : TcpConn) : TcpConn :=
  let c := c.exchangeState .shutdown
  { c with channel := c.channel.deactivateWriting }

theorem shutdown_eq (c : TcpConn) (o : Outside) :
    c.shutdown o =
      if o.shutdownFails then c.stopWriting.forceClose else c.stopWriting := rfl

end TcpConn

namespace IOWorker

/-- The channels of a worker.  A connection is known by the number of those
accepted before it. -/
inductive ActiveChannel where
  | wakeup | acceptor | timer
  | conn (i : Nat)
deriving DecidableEq, Repr

def ActiveChannel.conn? : ActiveChannel → Option Nat
  | .conn i => some i
  | .wakeup | .acceptor | .timer => none

/-- An entry of `active_channels`, with its `triggered_events`. -/
structure Active where
  channel : ActiveChannel
  events : TcpConn.Events
deriving DecidableEq, Repr

def Active.conn? (e : Active) : Option Nat :=
  e.channel.conn?

/-- A function that has called back: a handler or a timer task is running, or
there is something left to do with a connection. -/
inductive Frame where
  | handler
  | onChannelClose (i : Nat)
  | onChannelWritable (i : Nat)
  | onPeerConnect (i : Nat)
deriving DecidableEq, Repr

def Frame.conn? : Frame → Option Nat
  | .handler => none
  | .onChannelClose i | .onChannelWritable i | .onPeerConnect i => some i

/-- What is done with a connection. -/
inductive Operation where
  | handleEvent | onChannelReadable | onChannelWritable | onChannelClose
  | removeFromIOWorker | shutdown | initSsl | callback | buffer | channel
deriving DecidableEq, Repr

/-- Where the loop is.  `closed` holds the connections that have been removed
from their worker in this iteration, and `late` what has been done with them
since; neither is in the source. -/
structure Loop where
  activeChannels : List Active
  stack : List Frame
  closed : List Nat
  late : List (Nat × Operation)
deriving DecidableEq, Repr

namespace Loop

def touch (l : Loop) (i : Nat) (op : Operation) : Loop :=
  if i ∈ l.closed then { l with late := l.late ++ [(i, op)] } else l

def push (l : Loop) (frames : List Frame) : Loop :=
  { l with stack := frames ++ l.stack }

/-- No channel is left to handle and no function is running. -/
def Idle (l : Loop) : Prop :=
  l.activeChannels = [] ∧ l.stack = []

/-- The connections the loop comes back to: those of the running functions and
of the channels still to be handled. -/
def pending (l : Loop) : List Nat :=
  l.stack.filterMap Frame.conn? ++ l.activeChannels.filterMap Active.conn?

instance (l : Loop) : Decidable l.Idle :=
  inferInstanceAs (Decidable (_ ∧ _))

end Loop

end IOWorker

/-- A worker with the connections it has accepted, in this order. -/
structure IOWorker where
  useSsl : Bool
  conns : List TcpConn
  loop : IOWorker.Loop
deriving DecidableEq, Repr

namespace IOWorker

def init (useSsl : Bool) : IOWorker :=
  ⟨useSsl, [], ⟨[], [], [], []⟩⟩

/-- Something is done with a connection. -/
def on (w : IOWorker) (i : Nat) (op : Operation) (f : TcpConn → TcpConn) :
    IOWorker :=
  { w with conns := w.conns.modify i f, loop := w.loop.touch i op }

def push (w : IOWorker) (frames : List Frame) : IOWorker :=
  { w with loop := w.loop.push frames }

/-- Up to `OnDisconnected`. -/
def onChannelClose (w : IOWorker) (i : Nat) : IOWorker :=
  let w := w.on i .onChannelClose fun c => c.disconnect.call .onTcpDisconnected
  w.push [.handler, .onChannelClose i]

/-- The end of `OnChannelClose`. -/
def removeFromIOWorker (w : IOWorker) (i : Nat) : IOWorker :=
  let w := w.on i .removeFromIOWorker .removeFromIOWorker
  { w with loop := { w.loop with closed := i :: w.loop.closed } }

def forceClose (w : IOWorker) (i : Nat) : IOWorker :=
  w.onChannelClose i

def shutdown (w : IOWorker) (i : Nat) (o : Outside) : IOWorker :=
  let w := w.on i .shutdown .stopWriting
  if o.shutdownFails then w.forceClose i else w

/-- `callback.OnConnected`. -/
def onConnected (w : IOWorker) (i : Nat) (o : Outside) : IOWorker :=
  if o.limited then
    let w := w.on i .callback fun c =>
      { c with history := { c.history with refused := true } }
    w.shutdown i o
  else
    let w := w.on i .callback fun c => c.call .onTcpConnected
    w.push [.handler]

/-- `callback.OnDataReceived`. -/
def onDataReceived (w : IOWorker) (i : Nat) (o : Outside) : IOWorker :=
  if o.limited then w.shutdown i o
  else
    let w := w.on i .callback fun c => c.call .onTcpReceivedData
    w.push [.handler]

def onChannelReadable (w : IOWorker) (i : Nat) (o : Outside) : IOWorker :=
  match w.conns[i]? with
  | none => w
  | some c =>
      if c.isConnected then
        if c.isEncrypted then
          let (recvBuffer, n) := c.recvBuffer.readBytesFromSsl o.read
          let w := w.on i .onChannelReadable fun c =>
            { c with recvBuffer := recvBuffer }
          if n = 0 then w.shutdown i o
          else if n < 0 then
            if o.sslError = .wantRead then w else w.forceClose i
          else w.onDataReceived i o
        else
          let (recvBuffer, n) := c.recvBuffer.readBytesFromFd o.read
          let w := w.on i .onChannelReadable fun c =>
            { c with recvBuffer := recvBuffer }
          if n ≤ 0 then w.forceClose i else w.onDataReceived i o
      else w

/-- The last check of `OnChannelWritable`. -/
def deactivateIfDone (w : IOWorker) (i : Nat) : IOWorker :=
  w.on i .onChannelWritable .deactivateIfDone

/-- On an encrypted connection the last check still follows behind the
callback of `ForceClose`. -/
def onChannelWritable (w : IOWorker) (i : Nat) (o : Outside) : IOWorker :=
  match w.conns[i]? with
  | none => w
  | some c =>
      if c.isConnected then
        let history := { c.history with
          written := c.history.written ++ c.taken o.write }
        if c.isEncrypted then
          let (sendBuffer, n) := c.sendBuffer.writeBytesToSsl o.write
          let w := w.on i .onChannelWritable fun c =>
            { c with sendBuffer := sendBuffer, history := history }
          if n ≤ 0 then (w.push [.onChannelWritable i]).forceClose i
          else w.deactivateIfDone i
        else
          let (sendBuffer, n) := c.sendBuffer.writeBytesToFd o.write
          let w := w.on i .onChannelWritable fun c =>
            { c with sendBuffer := sendBuffer, history := history }
          if n < 0 ∧ (o.errno = .epipe ∨ o.errno = .econnreset) then
            let w := w.on i .callback fun c =>
              { c with history := { c.history with peerGone := true } }.call
                .onTcpDisconnected
            w.push [.handler]
          else w.deactivateIfDone i
      else w

/-- The end of `Acceptor::OnPeerConnect`.  What SSL keeps of its own is not part
of the connection here. -/
def initSsl (w : IOWorker) (i : Nat) : IOWorker :=
  w.on i .initSsl id

/-- `Acceptor::OnPeerConnect` up to `OnConnected`, when a client was accepted. -/
def onPeerConnect (w : IOWorker) (o : Outside) : IOWorker :=
  let i := w.conns.length
  let w := { w with conns := w.conns ++ [TcpConn.ofClient w.useSsl] }
  (w.push [.onPeerConnect i]).onConnected i o

/-- `TimerQueue::OnTimeout`, whose tasks are the user's. -/
def onTimeout (w : IOWorker) : IOWorker :=
  w.push [.handler]

/-- The callbacks that `TcpConn::SetCallback` gives to the channel. -/
def channelCallback (w : IOWorker) (i : Nat) (o : Outside) :
    ChannelCallback → IOWorker
  | .onReadable => w.onChannelReadable i o
  | .onWritable => w.onChannelWritable i o
  | .onPeerClose | .onError => w.onChannelClose i

/-- `Channel::HandleEvent`.  The worker's own channels have `OnReadable` only,
and the one that wakes it up reads a counter and nothing else. -/
def handleEvent (w : IOWorker) (e : Active) (o : Outside) (accepted : Bool) :
    IOWorker :=
  match e.channel with
  | .conn i => (w.on i .handleEvent id).channelCallback i o e.events.callback
  | .acceptor =>
      if e.events.callback = .onReadable ∧ accepted then w.onPeerConnect o else w
  | .timer => if e.events.callback = .onReadable then w.onTimeout else w
  | .wakeup => w

/-- A call from a handler or a timer task. -/
inductive Call where
  | send (i : Nat) (data : List UInt8)
  | shutdown (i : Nat) (o : Outside)
  | forceClose (i : Nat)
  | recvBuffer (i : Nat) (op : BufferOp)
  | sendBuffer (i : Nat) (op : BufferOp)
  | channel (i : Nat) (op : Channel.Op)
deriving DecidableEq, Repr

namespace Call

def conn : Call → Nat
  | .send i _ | .shutdown i _ | .forceClose i
  | .recvBuffer i _ | .sendBuffer i _ | .channel i _ => i

/-- `Send` looks at the state and leaves a connection that is not connected. -/
def exec (w : IOWorker) : Call → IOWorker
  | .send i data => { w with conns := w.conns.modify i fun c => c.send data }
  | .shutdown i o => w.shutdown i o
  | .forceClose i => w.forceClose i
  | .recvBuffer i op => w.on i .buffer fun c =>
      { c with recvBuffer := (op.exec c.recvBuffer).1 }
  | .sendBuffer i op => w.on i .buffer fun c =>
      { c with sendBuffer := (op.exec c.sendBuffer).1 }
  | .channel i op => w.on i .channel fun c =>
      { c with channel := op.exec c.channel }

end Call

/-- What a function does behind its callback. -/
def finish (w : IOWorker) : Frame → IOWorker
  | .handler => w
  | .onChannelClose i => w.removeFromIOWorker i
  | .onChannelWritable i => w.deactivateIfDone i
  | .onPeerConnect i => w.initSsl i

/-- The innermost function goes on to its end. -/
def resume (w : IOWorker) : IOWorker :=
  match w.loop.stack with
  | [] => w
  | frame :: stack =>
      { w with loop := { w.loop with stack := stack } }.finish frame

/-- The next channel of the batch. -/
def handleNext (w : IOWorker) (o : Outside) (accepted : Bool) : IOWorker :=
  match w.loop.activeChannels with
  | [] => w
  | e :: rest =>
      { w with loop := { w.loop with activeChannels := rest } }.handleEvent e o
        accepted

/-- The steps of `IOWorker::Loop`. -/
inductive Op where
  | poll (batch : List Active)
  | handleNext (o : Outside) (accepted : Bool)
  | call (c : Call)
  | resume
deriving DecidableEq, Repr

/-- The poller reports channels it knows, each of them once. -/
def Polls (w : IOWorker) : ActiveChannel → Prop
  | .conn i => ∃ c ∈ w.conns[i]?, c.channel.polled.isSome = true
  | _ => True

/-- What is read and written fits the connection. -/
def Fits (w : IOWorker) (e : Active) (o : Outside) : Prop :=
  ∀ i ∈ e.conn?, ∀ c ∈ w.conns[i]?, (ConnOp.handleEvent e.events o).Enabled c

namespace Op

def Enabled (w : IOWorker) : Op → Prop
  | .poll batch =>
      w.loop.Idle ∧ (batch.map Active.channel).Nodup ∧
        ∀ e ∈ batch, w.Polls e.channel
  | .handleNext o _ =>
      w.loop.stack = [] ∧ ∃ e ∈ w.loop.activeChannels.head?, w.Fits e o
  | .call c => w.loop.stack.head? = some .handler ∧ c.conn < w.conns.length
  | .resume => w.loop.stack ≠ []

/-- A new iteration forgets what was closed in the one before. -/
def exec (w : IOWorker) : Op → IOWorker
  | .poll batch =>
      { w with loop := { w.loop with activeChannels := batch, closed := [] } }
  | .handleNext o accepted => w.handleNext o accepted
  | .call c => c.exec w
  | .resume => w.resume

end Op

end IOWorker

namespace IOWorker

section Settle

variable {w : IOWorker} {i : Nat} {c : TcpConn} {o : Outside}

/-- All handlers return at once. -/
def settle (w : IOWorker) : IOWorker :=
  resume^[w.loop.stack.length] w

/-- What the rest of a function does to the connections. -/
def Frame.rest (conns : List TcpConn) : Frame → List TcpConn
  | .handler => conns
  | .onChannelClose i => conns.modify i .removeFromIOWorker
  | .onChannelWritable i => conns.modify i .deactivateIfDone
  | .onPeerConnect i => conns.modify i id

theorem finish_stack (w : IOWorker) (frame : Frame) :
    (w.finish frame).loop.stack = w.loop.stack := by
  have htouch (i : Nat) (op : Operation) :
      (w.loop.touch i op).stack = w.loop.stack := by
    rw [Loop.touch]
    split <;> rfl
  cases frame with
  | handler => rfl
  | onChannelClose i => exact htouch i _
  | onChannelWritable i => exact htouch i _
  | onPeerConnect i => exact htouch i _

theorem finish_conns (w : IOWorker) (frame : Frame) :
    (w.finish frame).conns = frame.rest w.conns := by
  cases frame <;> rfl

theorem settle_conns (w : IOWorker) :
    w.settle.conns = w.loop.stack.foldl Frame.rest w.conns := by
  generalize hstack : w.loop.stack = stack
  induction stack generalizing w with
  | nil =>
      rw [settle, hstack]
      rfl
  | cons frame stack ih =>
      have hresume : w.resume =
          { w with loop := { w.loop with stack := stack } }.finish frame := by
        rw [resume, hstack]
      have hrest : w.resume.loop.stack = stack := by
        rw [hresume, finish_stack]
      have hsettle : w.settle = w.resume.settle := by
        rw [settle, hstack, List.length_cons, Function.iterate_succ_apply, settle,
          hrest]
      rw [hsettle, ih _ hrest, hresume, finish_conns]
      rfl

/-- A function that, with the rest of it, does `f` to connection `i`. -/
def Completes (i : Nat) (w w' : IOWorker) (f : TcpConn → TcpConn) : Prop :=
  ∃ frames : List Frame, w'.loop.stack = frames ++ w.loop.stack ∧
    frames.foldl Frame.rest w'.conns = w.conns.modify i f

variable {w' : IOWorker} {f g : TcpConn → TcpConn}

theorem Completes.settle_conns (h : Completes i w w' f)
    (hstack : w.loop.stack = []) : w'.settle.conns = w.conns.modify i f := by
  obtain ⟨frames, hframes, hconns⟩ := h
  rw [IOWorker.settle_conns, hframes, hstack, List.append_nil, hconns]

/-- Only what is done to the one connection matters. -/
theorem Completes.congr (h : Completes i w w' f) (hc : w.conns[i]? = some c)
    (heq : f c = g c) : Completes i w w' g := by
  obtain ⟨frames, hframes, hconns⟩ := h
  refine ⟨frames, hframes, hconns.trans ?_⟩
  apply List.ext_getElem?
  intro j
  rw [List.getElem?_modify, List.getElem?_modify]
  split
  · rename_i hij
    rw [← hij, hc]
    exact congrArg some heq
  · rfl

theorem on_stack (w : IOWorker) (i : Nat) (op : Operation)
    (f : TcpConn → TcpConn) : (w.on i op f).loop.stack = w.loop.stack := by
  rw [on, Loop.touch]
  split <;> rfl

theorem completes_self (w : IOWorker) (i : Nat) : Completes i w w id :=
  ⟨[], rfl, (List.modify_id _ _).symm⟩

theorem completes_push_handler (w : IOWorker) (i : Nat) :
    Completes i w (w.push [.handler]) id :=
  ⟨[.handler], rfl, (List.modify_id _ _).symm⟩

theorem Completes.after_on {op : Operation}
    (h : Completes i (w.on i op g) w' f) : Completes i w w' (f ∘ g) := by
  obtain ⟨frames, hframes, hconns⟩ := h
  refine ⟨frames, hframes.trans (by rw [on_stack]), hconns.trans ?_⟩
  exact List.modify_modify_eq g f i w.conns

theorem on_completes (w : IOWorker) (i : Nat) (op : Operation)
    (f : TcpConn → TcpConn) : Completes i w (w.on i op f) f :=
  (completes_self (w.on i op f) i).after_on

theorem onChannelClose_completes (w : IOWorker) (i : Nat) :
    Completes i w (w.onChannelClose i) .onChannelClose := by
  refine ⟨[.handler, .onChannelClose i], ?_, ?_⟩
  · rw [onChannelClose, push, Loop.push, on_stack]
  · have hsplit : TcpConn.onChannelClose = TcpConn.removeFromIOWorker ∘
        fun c => c.disconnect.call .onTcpDisconnected :=
      funext TcpConn.onChannelClose_eq
    rw [hsplit]
    exact List.modify_modify_eq _ _ i w.conns

theorem shutdown_completes (w : IOWorker) (i : Nat) (o : Outside) :
    Completes i w (w.shutdown i o) fun c => c.shutdown o := by
  simp only [shutdown, TcpConn.shutdown_eq]
  split
  · exact (onChannelClose_completes _ i).after_on
  · exact on_completes w i _ _

theorem onConnected_completes (w : IOWorker) (i : Nat) (o : Outside) :
    Completes i w (w.onConnected i o) fun c => c.onConnected o := by
  simp only [onConnected, TcpConn.onConnected]
  split
  · exact (shutdown_completes _ i o).after_on
  · exact (completes_push_handler _ i).after_on

theorem onDataReceived_completes (w : IOWorker) (i : Nat) (o : Outside) :
    Completes i w (w.onDataReceived i o) fun c => c.onDataReceived o := by
  simp only [onDataReceived, TcpConn.onDataReceived]
  split
  · exact shutdown_completes w i o
  · exact (completes_push_handler _ i).after_on

theorem onChannelReadable_completes (hc : w.conns[i]? = some c)
    (o : Outside) :
    Completes i w (w.onChannelReadable i o) fun c => c.onChannelReadable o := by
  simp only [onChannelReadable, hc]
  split
  · rename_i hconnected
    split
    · rename_i hencrypted
      split
      · rename_i hzero
        refine (shutdown_completes _ i o).after_on.congr hc ?_
        simp [TcpConn.onChannelReadable, hconnected, hencrypted, hzero]
      · rename_i hzero
        split
        · rename_i hneg
          split
          · rename_i hretry
            refine (on_completes _ i _ _).congr hc ?_
            simp [TcpConn.onChannelReadable, hconnected, hencrypted, hzero, hneg,
              hretry]
          · rename_i hretry
            refine (onChannelClose_completes _ i).after_on.congr hc ?_
            simp [TcpConn.onChannelReadable, hconnected, hencrypted, hzero, hneg,
              hretry, TcpConn.forceClose]
        · rename_i hneg
          refine (onDataReceived_completes _ i o).after_on.congr hc ?_
          simp [TcpConn.onChannelReadable, hconnected, hencrypted, hzero, hneg]
    · rename_i hplain
      split
      · rename_i hnone
        refine (onChannelClose_completes _ i).after_on.congr hc ?_
        simp [TcpConn.onChannelReadable, hconnected, hplain, hnone,
          TcpConn.forceClose]
      · rename_i hnone
        refine (onDataReceived_completes _ i o).after_on.congr hc ?_
        simp [TcpConn.onChannelReadable, hconnected, hplain, hnone]
  · rename_i hconnected
    refine (completes_self w i).congr hc ?_
    simp [TcpConn.onChannelReadable, hconnected]

/-- `ForceClose` inside of `OnChannelWritable`. -/
theorem forceClose_completes (w : IOWorker) (i : Nat) :
    Completes i w ((w.push [.onChannelWritable i]).forceClose i)
      (TcpConn.deactivateIfDone ∘ TcpConn.onChannelClose) := by
  refine ⟨[.handler, .onChannelClose i, .onChannelWritable i], ?_, ?_⟩
  · rw [forceClose, onChannelClose, push, Loop.push, on_stack]
    rfl
  · simp only [List.foldl_cons, List.foldl_nil, Frame.rest, forceClose,
      onChannelClose, push, on, List.modify_modify_eq]
    rfl

theorem onChannelWritable_completes (hc : w.conns[i]? = some c)
    (o : Outside) :
    Completes i w (w.onChannelWritable i o) fun c => c.onChannelWritable o := by
  simp only [onChannelWritable, hc]
  split
  · rename_i hconnected
    split
    · rename_i hencrypted
      split
      · rename_i hfails
        refine (forceClose_completes _ i).after_on.congr hc ?_
        simp [TcpConn.onChannelWritable, hconnected, hencrypted, hfails,
          TcpConn.forceClose]
      · rename_i hfails
        refine (on_completes _ i _ _).after_on.congr hc ?_
        simp [TcpConn.onChannelWritable, hconnected, hencrypted, hfails]
    · rename_i hplain
      split
      · rename_i hgone
        refine (completes_push_handler _ i).after_on.after_on.congr hc ?_
        simp [TcpConn.onChannelWritable, hconnected, hplain, hgone]
      · rename_i hgone
        refine (on_completes _ i _ _).after_on.congr hc ?_
        simp [TcpConn.onChannelWritable, hconnected, hplain, hgone]
  · rename_i hconnected
    refine (completes_self w i).congr hc ?_
    simp [TcpConn.onChannelWritable, hconnected]

theorem channelCallback_completes (hc : w.conns[i]? = some c)
    (events : TcpConn.Events) (o : Outside) :
    Completes i w (w.channelCallback i o events.callback)
      fun c => c.handleEvent events o := by
  simp only [TcpConn.Events.callback, TcpConn.handleEvent]
  split
  · exact onChannelClose_completes w i
  · split
    · exact onChannelReadable_completes hc o
    · split
      · exact onChannelWritable_completes hc o
      · exact onChannelClose_completes w i

/-- With handlers that return at once, an event does to its connection what it
does in one piece. -/
theorem settle_handleEvent {events : TcpConn.Events} {accepted : Bool}
    (hstack : w.loop.stack = []) (hc : w.conns[i]? = some c) :
    (w.handleEvent ⟨.conn i, events⟩ o accepted).settle.conns =
      w.conns.modify i fun c => c.handleEvent events o := by
  have hsame : (w.on i .handleEvent id).conns[i]? = some c := by
    rw [on, List.modify_id, hc]
  exact (channelCallback_completes hsame events o).after_on.settle_conns hstack

/-- So does a client that is accepted. -/
theorem settle_onPeerConnect (hstack : w.loop.stack = []) (o : Outside) :
    (w.onPeerConnect o).settle.conns =
      w.conns ++ [(TcpConn.ofClient w.useSsl).onConnected o] := by
  obtain ⟨frames, hframes, hconns⟩ := onConnected_completes
    ({ w with conns := w.conns ++ [TcpConn.ofClient w.useSsl] }.push
      [.onPeerConnect w.conns.length]) w.conns.length o
  have hlast : (w.onPeerConnect o).loop.stack =
      frames ++ [.onPeerConnect w.conns.length] := by
    rw [onPeerConnect, hframes, push, Loop.push, hstack]
    rfl
  have hnew : (w.conns ++ [TcpConn.ofClient w.useSsl]).modify w.conns.length
      (fun c => c.onConnected o) =
        w.conns ++ [(TcpConn.ofClient w.useSsl).onConnected o] :=
    List.modifyTailIdx_add (List.modifyHead fun c => TcpConn.onConnected c o) 0 w.conns
      [TcpConn.ofClient w.useSsl]
  rw [settle_conns, hlast, List.foldl_append, onPeerConnect, hconns]
  exact (List.modify_id _ _).trans hnew

end Settle

end IOWorker

/-- One worker with its handlers. -/
def ioWorkerMachine : Machine IOWorker IOWorker.Op where
  enabled w op := op.Enabled w
  next w op := op.exec w

namespace IOWorker

instance (w : IOWorker) : ∀ channel, Decidable (w.Polls channel)
  | .conn _ => inferInstanceAs (Decidable (∃ c ∈ _, _))
  | .wakeup | .acceptor | .timer => inferInstanceAs (Decidable True)

instance (w : IOWorker) (e : Active) (o : Outside) : Decidable (w.Fits e o) :=
  inferInstanceAs (Decidable (∀ i ∈ _, ∀ c ∈ _, _))

instance (w : IOWorker) : ∀ op : Op, Decidable (op.Enabled w)
  | .poll _ => inferInstanceAs (Decidable (_ ∧ _ ∧ _))
  | .handleNext _ _ => inferInstanceAs (Decidable (_ ∧ ∃ e ∈ _, _))
  | .call _ => inferInstanceAs (Decidable (_ ∧ _))
  | .resume => inferInstanceAs (Decidable (_ ≠ _))

instance (w : IOWorker) (op : Op) : Decidable (ioWorkerMachine.enabled w op) :=
  inferInstanceAs (Decidable (op.Enabled w))

end IOWorker

end Jerry
