import Mathlib.Data.Stream.Init
import Am437x.Lib.Loops
import Am437x.Udp.Broadcast

/-!
# The broadcast loop of the UDP server

The loop of `normel_s.c` on its own, with the replies that reach its socket. The message typed and the
reply received share one buffer.
-/

namespace Am437x.Udp

open CString Loops

/-- The state after `fgets`, whose result is ignored: at the end of the input the buffer is as it was. -/
def Server.refill (s : Server) : Server :=
  match fgets bufferSize s.stdin with
  | none => s
  | some (line, rest) => { s with stdin := rest, buffer := writeAt s.buffer 0 (line ++ [0]) }

/-- What the calls of one turn return: whether `sendto` succeeds, and the datagram that `recvfrom`
returns, unless it times out. -/
structure Round where
  sendOk : Bool
  datagram : Option (List UInt8)
  deriving DecidableEq, Repr

/-- The server with the datagrams it has broadcast. -/
structure Serving where
  server : Server
  broadcast : List (List UInt8)
  deriving DecidableEq, Repr

/-- One turn of `while (1)`. -/
def Serving.turn (s : Serving) (r : Round) : Turn Serving Serving :=
  let (server, sent) := s.server.prompt r.sendOk
  let t : Serving := { server := server, broadcast := s.broadcast ++ sent.toList }
  match server.phase with
  | .stopped => .left t
  | .waiting => .again { t with server := (server.receive r.datagram).1 }
  | .prompt => .again t -- `continue`, the broadcast failed

def Serving.start (stdin buffer : List UInt8) : Serving where
  server := { stdin := stdin, buffer := buffer, phase := .prompt, round := 0 }
  broadcast := []

/-! ## What the loop is for -/

/-- An input whose lines can be read by one `fgets` each. -/
structure Input where
  bytes : List UInt8
  short : ∀ line ∈ lines bytes, line.length + 2 ≤ bufferSize
  zero_notMem : ∀ line ∈ lines bytes, 0 ∉ line

/-- The datagram received in each round, unless `recvfrom` times out. -/
abbrev Replies := Stream' (Option { payload : List UInt8 // payload.length < bufferSize })

/-- The first `n` turns, in which every `sendto` succeeds. -/
def rounds (replies : Replies) (n : Nat) : List Round :=
  (replies.take n).map fun reply => { sendOk := true, datagram := reply.map Subtype.val }

/-- The loop ends, and has broadcast the messages after those before. -/
def BroadcastsThenStops (s : Serving) (replies : Replies) (messages : List (List UInt8)) : Prop :=
  ∃ n t, loop Serving.turn s (rounds replies n) = .left t ∧ t.broadcast = s.broadcast ++ messages

/-- The messages of an input. -/
def messages (stdin : List UInt8) : List (List UInt8) := (lines stdin).takeWhile (· ≠ exit)

/-- The input has the line `exit`; or the buffer reads so when the input is used up, by the reply to the
last line or, with no input at all, from the start. -/
def EndsWithExit (stdin buffer : List UInt8) (replies : Replies) : Prop :=
  exit ∈ lines stdin ∨
    if lines stdin = [] then lineOf buffer = exit
    else ∃ reply, replies.get ((lines stdin).length - 1) = some reply ∧ lineOf reply = exit

end Am437x.Udp
