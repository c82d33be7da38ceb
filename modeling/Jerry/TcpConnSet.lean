/-
The end of `IOWorker::Loop`: every established connection is to be closed in one
pass over `tcp_conns`, whose callback erases from the set it is called on.
-/
import Jerry.Registration
import Jerry.SetIteration

namespace Jerry

/-- A connection's address, by which the set is ordered. -/
abbrev TcpConnPtr := Nat

structure TcpConnSet where
  connSet : Finset TcpConnPtr
deriving DecidableEq

namespace TcpConnSet

def empty (s : TcpConnSet) : Bool :=
  s.connSet = ∅

def add (s : TcpConnSet) (conn : TcpConnPtr) : TcpConnSet :=
  ⟨insert conn s.connSet⟩

def remove (s : TcpConnSet) (conn : TcpConnPtr) : TcpConnSet :=
  ⟨s.connSet.erase conn⟩

end TcpConnSet

namespace IOWorker

/-- A worker that has left its event loop: its set of connections and the
connections themselves. -/
structure Stopping where
  tcpConns : TcpConnSet
  conn : TcpConnPtr → TcpConn

namespace Stopping

def modify (w : Stopping) (p : TcpConnPtr) (f : TcpConn → TcpConn) : Stopping :=
  { w with conn := Function.update w.conn p (f (w.conn p)) }

def removeTcpConn (w : Stopping) (p : TcpConnPtr) : Stopping :=
  { w with tcpConns := w.tcpConns.remove p }

/-- `TcpConn::RemoveFromIOWorker`. -/
def removeFromIOWorker (w : Stopping) (p : TcpConnPtr) : Stopping :=
  (w.modify p .removeFromIOWorker).removeTcpConn p

/-- What the handler of the user does to the worker it is called in. -/
abbrev OnDisconnected := TcpConnPtr → Stopping → Stopping

def onChannelClose (onDisconnected : OnDisconnected) (p : TcpConnPtr)
    (w : Stopping) : Stopping :=
  let w := w.modify p fun c => c.disconnect.call .onTcpDisconnected
  let w := onDisconnected p w
  w.removeFromIOWorker p

def forceClose (onDisconnected : OnDisconnected) (p : TcpConnPtr)
    (w : Stopping) : Stopping :=
  w.onChannelClose onDisconnected p

def elements (w : Stopping) : Finset TcpConnPtr :=
  w.tcpConns.connSet

def lockForEach (func : TcpConnPtr → Stopping → Stopping) (fuel : Nat)
    (w : Stopping) : SetIteration.Outcome TcpConnPtr Stopping :=
  SetIteration.forEach elements func fuel w

/-- `LockForEach` calls its function once on each connection, and the loop that
waits until the set is empty ends. -/
def EachOnce (func : TcpConnPtr → Stopping → Stopping) (w : Stopping) : Prop :=
  SetIteration.VisitsEachOnce elements func (fun w => w.tcpConns.empty) w

/-- A function that leaves the set alone is called once on each connection. -/
theorem lockForEach_of_keeps {func : TcpConnPtr → Stopping → Stopping}
    (hkeeps : ∀ p w, (func p w).tcpConns = w.tcpConns) (w : Stopping) :
    ∃ fuel visited t, w.lockForEach func fuel = .finished visited t ∧
      visited.Nodup ∧ ∀ p, p ∈ visited ↔ p ∈ w.elements := by
  have hvisits : SetIteration.VisitsEachOnce elements func (fun _ => True) w :=
    SetIteration.visitsEachOnce_of_keeps
      fun p w => congrArg TcpConnSet.connSet (hkeeps p w)
  obtain ⟨fuel, visited, t, hpass, hnodup, hall, -⟩ := hvisits
  exact ⟨fuel, visited, t, hpass, hnodup, hall⟩

variable (onDisconnected : OnDisconnected)

/-- Whatever the handler does, the connection is out of the set when
`ForceClose` returns. -/
theorem forceClose_erases (p : TcpConnPtr) (w : Stopping) :
    p ∉ (w.forceClose onDisconnected p).elements :=
  Finset.notMem_erase p _

/-- The pass at the end of `Loop` closes the connection with the least address
and then advances from an element that is no longer there. -/
theorem lockForEach_forceClose {w : Stopping} {p : TcpConnPtr}
    (hmin : w.elements.min = WithTop.some p) (fuel : Nat) :
    w.lockForEach (forceClose onDisconnected) (fuel + 1) =
      .invalidIterator [p] (w.forceClose onDisconnected p) :=
  SetIteration.forEach_of_erases hmin (forceClose_erases onDisconnected p w)
    fuel

theorem not_eachOnce_of_nonempty {w : Stopping} (hsome : w.elements.Nonempty) :
    ¬ w.EachOnce (forceClose onDisconnected) := by
  obtain ⟨p, hmin⟩ := Finset.min_of_nonempty hsome
  rintro ⟨fuel, visited, t, hpass, -, -, -⟩
  cases fuel with
  | zero =>
      rw [SetIteration.forEach, hmin] at hpass
      exact absurd hpass (by simp [SetIteration.visitFrom])
  | succ fuel =>
      have hinvalid := lockForEach_forceClose onDisconnected hmin fuel
      rw [lockForEach, hpass] at hinvalid
      exact absurd hinvalid (by simp)

theorem eachOnce_of_empty {w : Stopping} (hnone : w.elements = ∅) :
    w.EachOnce (forceClose onDisconnected) := by
  refine ⟨0, [], w, ?_, List.nodup_nil, by simp [hnone], ?_⟩
  · rw [SetIteration.forEach, hnone, Finset.min_empty]
    rfl
  · exact decide_eq_true hnone

/-- Only an empty set is closed as it should be. -/
theorem closesEachOnce_iff (w : Stopping) :
    w.EachOnce (forceClose onDisconnected) ↔ w.elements = ∅ := by
  constructor
  · intro heach
    by_contra hsome
    exact not_eachOnce_of_nonempty onDisconnected
      (Finset.nonempty_iff_ne_empty.mpr hsome) heach
  · exact eachOnce_of_empty onDisconnected

/-- One established connection, and a handler that does nothing. -/
theorem closesEachOnce_one :
    ¬ Stopping.EachOnce (forceClose fun _ w => w)
      ⟨TcpConnSet.add ⟨∅⟩ 0, fun _ => TcpConn.ofClient false⟩ :=
  not_eachOnce_of_nonempty _ ⟨0, Finset.mem_insert_self 0 ∅⟩

end Stopping

section Leaving

variable {useSsl : Bool} {ops : List Op} {w : IOWorker} {p : TcpConnPtr}

/-- The worker when it leaves its loop. -/
def stopping (w : IOWorker) : Stopping where
  tcpConns := ⟨(Finset.range w.conns.length).filter fun p =>
    ∃ c ∈ w.conns[p]?, c.inIOWorker = true⟩
  conn p := w.conns.getD p (.ofClient false)

theorem mem_stopping : p ∈ w.stopping.elements ↔
    ∃ c, w.conns[p]? = some c ∧ c.inIOWorker = true := by
  rw [Stopping.elements, stopping, Finset.mem_filter, Finset.mem_range]
  constructor
  · exact fun h => h.2
  · rintro ⟨c, hc, hin⟩
    exact ⟨(List.getElem?_eq_some_iff.mp hc).1, c, hc, hin⟩

/-- `ForceClose`, with a handler that returns at once, does to the set and the
connections what it does in the loop. -/
theorem stopping_forceClose (hstack : w.loop.stack = [])
    (hp : p < w.conns.length) :
    (w.forceClose p).settle.stopping = w.stopping.forceClose (fun _ w => w) p := by
  have hconns : (w.forceClose p).settle.conns = w.conns.modify p .onChannelClose :=
    (onChannelClose_completes w p).settle_conns hstack
  have hset : (w.forceClose p).settle.stopping.elements = w.stopping.elements.erase p := by
    ext q
    rw [Finset.mem_erase, mem_stopping, mem_stopping, hconns]
    by_cases heq : p = q
    · subst heq
      refine iff_of_false ?_ fun h => h.1 rfl
      rintro ⟨c, hc, hin⟩
      rw [List.getElem?_modify_eq] at hc
      obtain ⟨c', _, rfl⟩ := Option.map_eq_some_iff.mp hc
      cases hin
    · rw [List.getElem?_modify_ne _ _ heq]
      exact ⟨fun h => ⟨Ne.symm heq, h⟩, fun h => h.2⟩
  have hconn (q : TcpConnPtr) : (w.forceClose p).settle.stopping.conn q =
      (w.stopping.forceClose (fun _ w => w) p).conn q := by
    have hsame : (w.stopping.forceClose (fun _ w => w) p).conn =
        Function.update w.stopping.conn p (w.stopping.conn p).onChannelClose := by
      simp only [Stopping.forceClose, Stopping.onChannelClose,
        Stopping.removeFromIOWorker, Stopping.removeTcpConn, Stopping.modify,
        Function.update_self, Function.update_idem, TcpConn.onChannelClose_eq]
    rw [hsame]
    simp only [stopping, hconns, List.getD_eq_getElem?_getD]
    by_cases heq : p = q
    · subst heq
      rw [Function.update_self, List.getElem?_modify_eq,
        List.getElem?_eq_getElem hp]
      rfl
    · rw [Function.update_of_ne (Ne.symm heq), List.getElem?_modify_ne _ _ heq]
  have htcpConns : (w.forceClose p).settle.stopping.tcpConns =
      (w.stopping.forceClose (fun _ w => w) p).tcpConns :=
    congrArg TcpConnSet.mk hset
  exact congrArg₂ Stopping.mk htcpConns (funext hconn)

/-- A worker that leaves its loop between two events closes each connection once
only if the poller watches none. -/
theorem stopping_eachOnce_iff (hrun : ioWorkerMachine.Run (init useSsl) ops w)
    (hidle : w.loop.Idle) (onDisconnected : Stopping.OnDisconnected) :
    w.stopping.EachOnce (Stopping.forceClose onDisconnected) ↔
      ∀ c ∈ w.conns, c.channel.polled = none := by
  have hheld {c : TcpConn} (hmem : c ∈ w.conns) :
      c.inIOWorker = true ↔ c.channel.polled.isSome = true :=
    inIOWorker_iff_polled (tracked_registered hrun) hidle hmem
  constructor
  · intro heach c hmem
    obtain ⟨p, hc⟩ := List.getElem?_of_mem hmem
    by_contra hpolled
    exact Stopping.not_eachOnce_of_nonempty onDisconnected
      ⟨p, mem_stopping.mpr
        ⟨c, hc, (hheld hmem).mpr (Option.isSome_iff_ne_none.mpr hpolled)⟩⟩ heach
  · intro hnone
    apply Stopping.eachOnce_of_empty
    rw [Finset.eq_empty_iff_forall_notMem]
    intro p hp
    obtain ⟨c, hc, hin⟩ := mem_stopping.mp hp
    have hmem := List.mem_of_getElem? hc
    exact Option.isSome_iff_ne_none.mp ((hheld hmem).mp hin) (hnone c hmem)

end Leaving

end IOWorker

end Jerry
