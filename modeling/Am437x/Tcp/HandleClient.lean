import Mathlib.Data.Seq.Basic
import Am437x.Lib.Loops
import Am437x.Tcp.Echo

/-!
# The loop of the echo server (`handle_client`)

The whole `do` loop of `s.c` on the results of its calls, one turn for each `SSL_read`.
-/

namespace Am437x.Echo

open Loops Tcp

/-- What the calls of one turn return, and the flag `running` at its end. -/
structure TurnIo where
  read : SslRead
  writeOk : Bool
  running : Bool
  deriving DecidableEq, Repr

structure Handling where
  /-- The bytes written back so far. -/
  written : List UInt8
  /-- How often `SSL_read` was called. -/
  reads : Nat
  deriving DecidableEq, Repr

def handleClientBody (h : Handling) (io : TurnIo) : Turn Handling Handling :=
  let (echo, goesOn) := handleClientTurn io.read io.writeOk io.running
  let h := { written := h.written ++ echo, reads := h.reads + 1 }
  if goesOn then .again h else .left h

def handleClient (ios : List TurnIo) : Turn Handling Handling :=
  loop handleClientBody { written := [], reads := 0 } ios

/-- The loop when every `SSL_write` succeeds and no signal arrives. -/
def handleReads (reads : List SslRead) : Turn Handling Handling :=
  handleClient (reads.map fun r => { read := r, writeOk := true, running := true })

/-! ## What the session is for -/

/-- The close of the connection or a fatal error. -/
def IsEnd (r : SslRead) : Prop := r.ret ≤ 0 ∧ r.isWant = false

instance : DecidablePred IsEnd := fun r => inferInstanceAs (Decidable (r.ret ≤ 0 ∧ r.isWant = false))

def beforeEnd (reads : List SslRead) : List SslRead := reads.takeWhile (¬ IsEnd ·)

/-- The session is the echo of all data up to the first real end: it goes on until there, and its last
read is this end. -/
structure ExactEcho (reads : List SslRead) : Prop where
  written : (handleReads reads).state.written = (beforeEnd reads).flatMap SslRead.bytes
  left_iff : (handleReads reads).isLeft = true ↔ ∃ r ∈ reads, IsEnd r
  last_read : (handleReads reads).isLeft = true →
    (handleReads reads).state.reads = (beforeEnd reads).length + 1

/-- The first read without data, if there is one, is not to be retried. -/
def NoRetryBeforeEnd (reads : List SslRead) : Prop :=
  FirstHas (fun r => r.ret ≤ 0) (fun r => r.isWant = false) reads

end Am437x.Echo
