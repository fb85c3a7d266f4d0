import Am437x.Lib.Loops

/-!
# The shutdown of the echo server (`wait_for_children`)

Each client is served by a child process. At the end of `main` the server polls `waitpid` for the children
that have exited.
-/

namespace Am437x.Echo

open Loops

def shutdownTimeout : Nat := 5

def eChild : Int := 10

abbrev Pid := Nat

/-- What happens while the server waits; the calls of `waitpid` are numbered from 0. -/
structure Schedule where
  /-- The children at the start of `wait_for_children`, none of them reaped. -/
  children : List Pid
  nodup : children.Nodup
  /-- The first call of `waitpid` at which the child has exited, if it ever does. -/
  exitsBy : Pid → Option Nat
  /-- The seconds that have elapsed since the start when a call returns. -/
  clock : Nat → Nat
  /-- An error that makes a call fail, other than having no child. -/
  errno : Nat → Option Int
  errno_ne : ∀ call, errno call ≠ some eChild
  /-- Selects the child that a call reaps from those that have exited. -/
  pick : Nat → Nat

def Schedule.exited (sch : Schedule) (call : Nat) (pid : Pid) : Bool :=
  (sch.exitsBy pid).any (· ≤ call)

/-- What `waitpid` returns: 0, a child, or -1 with an error number. -/
inductive WaitResult where
  | zero
  | child (pid : Pid)
  | error (errno : Int)
  deriving DecidableEq, Repr

structure Waiting where
  /-- The number of calls made. -/
  calls : Nat
  /-- The children that are not reaped. -/
  live : List Pid
  reaped : List Pid
  deriving DecidableEq, Repr

/-- `waitpid(-1, &status, WNOHANG)` -/
def waitpid (sch : Schedule) (s : Waiting) : WaitResult × Waiting :=
  let t := { s with calls := s.calls + 1 }
  match sch.errno s.calls with
  | some errno => (.error errno, t)
  | none =>
    match s.live.filter (sch.exited s.calls ·) with
    | [] => (if s.live = [] then .error eChild else .zero, t)
    | pid :: pids =>
      let pid := (pid :: pids).getD (sch.pick s.calls % (pids.length + 1)) pid
      (.child pid, { t with live := s.live.erase pid, reaped := s.reaped ++ [pid] })

/-- Why the loop of `wait_for_children` ends: its condition, or one of its `break` statements. -/
inductive Reason where
  | condition
  | noChildren
  | failed
  | timeout
  deriving DecidableEq, Repr

structure Shutdown where
  reason : Reason
  /-- The last call made. -/
  call : Nat
  reaped : List Pid
  deriving DecidableEq, Repr

def waitForChildrenBody (sch : Schedule) (s : Waiting) (_ : Unit) : Turn Waiting Shutdown :=
  let (pid, t) := waitpid sch s
  let stop (reason : Reason) : Shutdown := { reason := reason, call := s.calls, reaped := t.reaped }
  if pid = .zero then .left (stop .condition)
  else
    match pid with
    | .error errno => .left (stop (if errno = eChild then .noChildren else .failed))
    | .zero => -- behind the loop condition
      if shutdownTimeout < sch.clock s.calls then .left (stop .timeout) else .again t
    | .child _ => .again t

/-- `wait_for_children`; one call more than there are children is enough. -/
def waitForChildren (sch : Schedule) : Turn Waiting Shutdown :=
  loop (waitForChildrenBody sch) { calls := 0, live := sch.children, reaped := [] }
    (List.replicate (sch.children.length + 1) ())

/-! ## What the shutdown is for -/

structure Graceful (sch : Schedule) (out : Shutdown) : Prop where
  waited : (out.reason = .noChildren ∧ ∀ pid ∈ sch.children, pid ∈ out.reaped) ∨
    out.reason = .failed ∨ shutdownTimeout < sch.clock out.call
  nodup : out.reaped.Nodup
  reaped : ∀ pid ∈ out.reaped, pid ∈ sch.children ∧ sch.exited out.call pid = true
  all_reaped : out.reason ≠ .failed →
    ∀ pid ∈ sch.children, sch.exited out.call pid = true → pid ∈ out.reaped

/-- How many children have exited at a call. -/
def Schedule.exitedBy (sch : Schedule) (call : Nat) : Nat := sch.children.countP (sch.exited call ·)

/-- At the first call that finds all children reaped that have exited, no child is left, the time is
over, or an error has occurred. -/
def Schedule.NeverIdle (sch : Schedule) : Prop :=
  ∀ call, sch.exitedBy call ≤ call → (∀ earlier < call, earlier < sch.exitedBy earlier) →
    (∃ earlier ≤ call, (sch.errno earlier).isSome = true) ∨ sch.children.length ≤ call ∨
      shutdownTimeout < sch.clock call

end Am437x.Echo
