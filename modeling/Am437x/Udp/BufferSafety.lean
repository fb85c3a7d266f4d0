import Am437x.Lib.Runs
import Am437x.Udp.ServerLoop

/-!
# The buffer accesses of the UDP server

What `normel_s.c` writes to `buffer`, and the strings it takes from it. `fgets` keeps a place for the
NUL, `recvfrom` does not.
-/

namespace Am437x.Udp

open CString

/-- The array when `main` is entered. -/
abbrev Buffer := { buffer : List UInt8 // buffer.length = bufferSize }

inductive Access where
  /-- `n` bytes are written from index `i` on. -/
  | write (i n : Nat)
  /-- The content is passed to a function that takes a string. -/
  | str (buffer : List UInt8)
  deriving DecidableEq, Repr

def Access.Safe : Access → Prop
  | .write i n => i + n ≤ bufferSize
  | .str buffer => 0 ∈ buffer

/-- The accesses of `Server.prompt`. -/
def Server.promptAccesses (s : Server) (sendOk : Bool) : List Access :=
  let filled := match fgets bufferSize s.stdin with
    | none => []
    | some (line, _) => [.write 0 (line.length + 1)]
  let t := s.readLine
  -- the newline removal and `strcmp`
  filled ++ [.write (strcspn s.refill.buffer newline) 1, .str t.buffer] ++
    if cstr t.buffer = exit then []
    else
      -- `strlen`, and `printf` of the message sent
      .str t.buffer :: if sendOk then [.str t.buffer] else []

/-- The accesses of `Server.receive`. -/
def Server.receiveAccesses (s : Server) (datagram : Option (List UInt8)) : List Access :=
  match datagram with
  | some payload =>
    let bytes := payload.take bufferSize
    .write 0 bytes.length ::
      if 0 < bytes.length then [.write bytes.length 1, .str (s.receive datagram).1.buffer] else []
  | none => []

/-- From the start of a turn to `sendto`, or from `recvfrom` to its end. -/
inductive Call where
  | prompt (sendOk : Bool)
  | recvfrom (datagram : Option (List UInt8))
  deriving DecidableEq, Repr

def Server.step (s : Server) : Call → Option Server
  | .prompt sendOk => if s.phase = .prompt then some (s.prompt sendOk).1 else none
  | .recvfrom datagram => if s.phase = .waiting then some (s.receive datagram).1 else none

def Server.accesses (s : Server) : Call → List Access
  | .prompt sendOk => s.promptAccesses sendOk
  | .recvfrom datagram => s.receiveAccesses datagram

def Server.start (stdin : List UInt8) (buffer : Buffer) : Server where
  stdin := stdin
  buffer := buffer.val
  phase := .prompt
  round := 0

/-! ## What is to be shown of the accesses -/

def AccessesSafe (s : Server) (call : Call) (_ : Server) : Prop := ∀ a ∈ s.accesses call, a.Safe

/-- There is a line to read, or the buffer holds a string or a line. -/
def Server.Filled (s : Server) : Prop := s.stdin ≠ [] ∨ 0 ∈ s.buffer ∨ newline ∈ s.buffer

/-- What is received leaves a place for the terminator. -/
def CallFits (s : Server) (call : Call) (_ : Server) : Prop :=
  match call with
  | .prompt _ => s.Filled
  | .recvfrom datagram => ∀ payload ∈ datagram, payload.length < bufferSize

end Am437x.Udp
