/-
`net/Acceptor::OnPeerConnect` when the descriptors of the process have run out.
The acceptors of all workers and the other threads share the descriptor table;
each system call is one step, and anything can happen between two of them.
-/
import Jerry.FdTable
import Jerry.Machine
import Mathlib.Logic.Basic

namespace Jerry

/-- Whose a descriptor is: an acceptor's `reserved_fd`, a connection's, or
anything else's. -/
inductive FdOwner where
  | reserved (acceptor : Nat)
  | connection
  | other
deriving DecidableEq, Repr

/-- How `accept4` ends if there is a free descriptor and a client waits: it takes
the client, finds that the client is gone, or fails for another reason. -/
inductive AcceptOutcome where
  | taken | aborted | failed
deriving DecidableEq, Repr

/-- Where an acceptor is in `OnPeerConnect`: not in it, before the first `close`,
before the second `Accept`, before the second `close`, or before `open`. -/
inductive AcceptPoint where
  | idle | exhausted | closed | accepted | reopening
deriving DecidableEq, Repr

/-- An acceptor.  `reservedFd` is none for -1, and stands for nothing at the
points where it has been closed.  The last four fields count the clients that
came, and those that got a connection, were turned away, or went by themselves;
they are not in the source. -/
structure Acceptor where
  reservedFd : Option Nat
  point : AcceptPoint
  backlog : Nat
  came : Nat
  served : Nat
  refused : Nat
  gone : Nat
deriving DecidableEq, Repr

structure AcceptorGroup where
  table : FdTable FdOwner
  acceptors : List Acceptor
deriving DecidableEq, Repr

namespace AcceptorGroup

/-- A process that may have so many descriptors. -/
def start (limit : Nat) : AcceptorGroup :=
  ⟨⟨List.replicate limit none⟩, []⟩

def acceptor? (s : AcceptorGroup) (i : Nat) : Option Acceptor :=
  s.acceptors[i]?

def put (s : AcceptorGroup) (i : Nat) (a : Acceptor) : AcceptorGroup :=
  { s with acceptors := s.acceptors.set i a }

/-- `accept4` looks for a descriptor before it looks for a client.  The result is
the descriptor and what is left of the backlog and of who has gone; none says that
the table is full. -/
def accept (s : AcceptorGroup) (a : Acceptor) (o : FdOwner) (outcome : AcceptOutcome) :
    Option (Option Nat × FdTable FdOwner × Acceptor) :=
  s.table.free?.map fun fd =>
    match a.backlog, outcome with
    | 0, _ | _, .failed => (none, s.table, a)
    | backlog + 1, .aborted =>
        (none, s.table, { a with backlog := backlog, gone := a.gone + 1 })
    | backlog + 1, .taken => (some fd, s.table.give fd o, { a with backlog := backlog })

/-- The first `Accept`: a client, `EMFILE`, or an error that is only logged. -/
def onPeerConnect (s : AcceptorGroup) (i : Nat) (a : Acceptor)
    (outcome : AcceptOutcome) : AcceptorGroup :=
  match s.accept a .connection outcome with
  | none => s.put i { a with point := .exhausted }
  | some (none, table, a) => { s with table := table }.put i a
  | some (some _, table, a) =>
      { s with table := table }.put i { a with served := a.served + 1 }

/-- `close(reserved_fd)`, which does nothing for -1. -/
def closeReserved (s : AcceptorGroup) (a : Acceptor) : FdTable FdOwner :=
  match a.reservedFd with
  | none => s.table
  | some fd => s.table.close fd

/-- The next system call of the recovery. -/
def next (s : AcceptorGroup) (i : Nat) (a : Acceptor) (outcome : AcceptOutcome) :
    AcceptorGroup :=
  match a.point with
  | .idle => s
  | .exhausted =>
      { s with table := s.closeReserved a }.put i { a with point := .closed }
  | .closed =>
      match s.accept a (.reserved i) outcome with
      | none => s.put i { a with reservedFd := none, point := .accepted }
      | some (fd, table, a) =>
          { s with table := table }.put i
            { a with reservedFd := fd, point := .accepted }
  | .accepted =>
      { s with table := s.closeReserved a }.put i
        { a with
          point := .reopening
          refused := if a.reservedFd.isSome then a.refused + 1 else a.refused }
  | .reopening =>
      match s.table.free? with
      | none => s.put i { a with reservedFd := none, point := .idle }
      | some fd =>
          { s with table := s.table.give fd (.reserved i) }.put i
            { a with reservedFd := some fd, point := .idle }

inductive Op where
  | create
  | connect (i : Nat)
  | onPeerConnect (i : Nat) (outcome : AcceptOutcome)
  | next (i : Nat) (outcome : AcceptOutcome)
  | openOther (o : FdOwner)
  | closeOther (fd : Nat)
deriving DecidableEq, Repr

/-- An acceptor is at one of these points. -/
def At (s : AcceptorGroup) (i : Nat) (p : AcceptPoint → Prop) : Prop :=
  ∃ a ∈ s.acceptor? i, p a.point

instance (s : AcceptorGroup) (i : Nat) (p : AcceptPoint → Prop) [DecidablePred p] :
    Decidable (s.At i p) :=
  inferInstanceAs (Decidable (∃ a ∈ s.acceptor? i, p a.point))

/-- The constructor asserts that it gets a descriptor above 0.  Other threads open
descriptors for themselves and close their own, and connections close theirs. -/
def Op.Enabled (s : AcceptorGroup) : Op → Prop
  | .create => ∃ fd ∈ s.table.free?, 0 < fd
  | .connect i => (s.acceptor? i).isSome = true
  | .onPeerConnect i _ => s.At i (· = .idle)
  | .next i _ => s.At i (· ≠ .idle)
  | .openOther o => o = .connection ∨ o = .other
  | .closeOther fd => s.table.owner? fd = some .connection ∨ s.table.owner? fd = some .other

instance (s : AcceptorGroup) : ∀ op : Op, Decidable (op.Enabled s)
  | .create => inferInstanceAs (Decidable (∃ fd ∈ s.table.free?, 0 < fd))
  | .connect _ => inferInstanceAs (Decidable (_ = _))
  | .onPeerConnect i _ => inferInstanceAs (Decidable (s.At i (· = .idle)))
  | .next i _ => inferInstanceAs (Decidable (s.At i (· ≠ .idle)))
  | .openOther _ | .closeOther _ => inferInstanceAs (Decidable (_ ∨ _))

def Op.exec (s : AcceptorGroup) : Op → AcceptorGroup
  | .create =>
      match s.table.free? with
      | none => s
      | some fd =>
          { table := s.table.give fd (.reserved s.acceptors.length)
            acceptors := s.acceptors ++ [⟨some fd, .idle, 0, 0, 0, 0, 0⟩] }
  | .connect i =>
      { s with acceptors := s.acceptors.modify i fun a =>
          { a with backlog := a.backlog + 1, came := a.came + 1 } }
  | .onPeerConnect i outcome =>
      match s.acceptor? i with
      | none => s
      | some a => s.onPeerConnect i a outcome
  | .next i outcome =>
      match s.acceptor? i with
      | none => s
      | some a => s.next i a outcome
  | .openOther o =>
      match s.table.free? with
      | none => s
      | some fd => { s with table := s.table.give fd o }
  | .closeOther fd => { s with table := s.table.close fd }

end AcceptorGroup

/-- The acceptors of a process among its other threads. -/
def acceptorMachine : Machine AcceptorGroup AcceptorGroup.Op where
  enabled s op := op.Enabled s
  next s op := op.exec s

instance (s : AcceptorGroup) (op : AcceptorGroup.Op) :
    Decidable (acceptorMachine.enabled s op) :=
  inferInstanceAs (Decidable (op.Enabled s))

end Jerry
