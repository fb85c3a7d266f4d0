import Am437x.Lib.CString
import Am437x.Lib.Runs

/-!
# The UDP broadcast with acknowledgements (`udp`)

The broadcast loop of `normel_s.c`, the receive loop of its clients, and a network that loses, delays
and reorders datagrams. Every message that is broadcast starts a round. A reply carries no message
identity: the rounds recorded below are seen by neither program.
-/

namespace Am437x.Udp

open CString

def bufferSize : Nat := 1024

def exit : List UInt8 := [0x65, 0x78, 0x69, 0x74]

def ackMsg : List UInt8 := [0x41, 0x43, 0x4b]

variable {ι : Type*}

/-- A broadcast datagram on its way to one client. -/
structure Datagram (ι : Type*) where
  client : ι
  round : Nat
  payload : List UInt8
  deriving DecidableEq, Repr

/-- A reply of a client, to the message of the round `round`. -/
structure Reply (ι : Type*) where
  client : ι
  round : Nat
  payload : List UInt8
  deriving DecidableEq, Repr

/-- A line `Received ACK from client`, printed in the round `round` for the reply read. -/
structure Ack (ι : Type*) where
  round : Nat
  reply : Reply ι
  deriving DecidableEq, Repr

inductive Phase where
  | prompt
  | waiting
  | stopped
  deriving DecidableEq, Repr

structure Server where
  stdin : List UInt8
  buffer : List UInt8
  phase : Phase
  round : Nat
  deriving DecidableEq, Repr

/-! ## The server -/

/-- `fgets(buffer, BUFFER_SIZE, stdin)` with its result ignored, then
`buffer[strcspn(buffer, "\n")] = '\0'`. -/
def Server.readLine (s : Server) : Server :=
  let (stdin, buffer) :=
    match fgets bufferSize s.stdin with
    | none => (s.stdin, s.buffer)
    | some (line, rest) => (rest, writeAt s.buffer 0 (line ++ [0]))
  { s with stdin := stdin, buffer := buffer.set (strcspn buffer newline) 0 }

/-- From the prompt to `sendto`: the message broadcast, if any. -/
def Server.prompt (s : Server) (sendOk : Bool) : Server × Option (List UInt8) :=
  let s := s.readLine
  if cstr s.buffer = exit then ({ s with phase := .stopped }, none)
  else if sendOk then ({ s with phase := .waiting, round := s.round + 1 }, some (cstr s.buffer))
  else (s, none)

/-- From `recvfrom`, which returns a datagram or times out, back to the prompt. The flag says whether
`Received ACK` was printed. -/
def Server.receive (s : Server) (datagram : Option (List UInt8)) : Server × Bool :=
  match datagram with
  | some payload =>
    let bytes := payload.take bufferSize
    let buffer := writeAt s.buffer 0 bytes
    if 0 < bytes.length then
      ({ s with buffer := buffer.set bytes.length 0, phase := .prompt }, true)
    else ({ s with buffer := buffer, phase := .prompt }, false)
  | none => ({ s with phase := .prompt }, false)

/-! ## The client -/

/-- One turn of the client's loop: the reply to a message received. -/
def clientTurn (payload : List UInt8) : Option (List UInt8) :=
  if 0 < (payload.take (bufferSize - 1)).length then some ackMsg else none

/-! ## The network -/

structure Net (ι : Type*) where
  server : Server
  toClients : List (Datagram ι)
  toServer : List (Reply ι)
  /-- Replies queued on the server's socket. -/
  queue : List (Reply ι)
  /-- Which client has received the message of which round. -/
  received : List (ι × Nat)
  acks : List (Ack ι)
  deriving DecidableEq, Repr

def Net.start (stdin buffer : List UInt8) : Net ι where
  server := { stdin := stdin, buffer := buffer, phase := .prompt, round := 0 }
  toClients := []
  toServer := []
  queue := []
  received := []
  acks := []

inductive Event where
  /-- The server reads a line and broadcasts it, if `sendto` succeeds. -/
  | prompt (sendOk : Bool)
  | loseDatagram (i : Nat)
  | loseReply (i : Nat)
  | deliver (i : Nat)
  | arrive (i : Nat)
  /-- The server's `recvfrom` takes a queued reply, or times out. -/
  | recvfrom (i : Nat)
  | timeout
  deriving DecidableEq, Repr

/-- One step of the network with the given clients; `none` when the event cannot happen. -/
def step (clients : List ι) (s : Net ι) : Event → Option (Net ι)
  | .prompt sendOk =>
    if s.server.phase = .prompt then
      let (server, sent) := s.server.prompt sendOk
      let copies := match sent with
        | some payload =>
          clients.map fun c => { client := c, round := server.round, payload := payload }
        | none => []
      some { s with server := server, toClients := s.toClients ++ copies }
    else none
  | .loseDatagram i => some { s with toClients := s.toClients.eraseIdx i }
  | .loseReply i => some { s with toServer := s.toServer.eraseIdx i }
  | .deliver i =>
    s.toClients[i]?.map fun d =>
      { s with
        toClients := s.toClients.eraseIdx i
        received := s.received ++ [(d.client, d.round)]
        toServer := s.toServer ++ ((clientTurn d.payload).map fun payload =>
          { client := d.client, round := d.round, payload := payload }).toList }
  | .arrive i =>
    s.toServer[i]?.map fun r =>
      { s with toServer := s.toServer.eraseIdx i, queue := s.queue ++ [r] }
  | .recvfrom i =>
    if s.server.phase = .waiting then
      s.queue[i]?.map fun r =>
        let (server, printed) := s.server.receive (some r.payload)
        { s with
          server := server
          queue := s.queue.eraseIdx i
          acks := if printed then s.acks ++ [{ round := s.server.round, reply := r }] else s.acks }
    else none
  | .timeout =>
    if s.server.phase = .waiting then some { s with server := (s.server.receive none).1 } else none

/-! ## What the protocol is for -/

/-- The acknowledgement reports a reply to the message of its own round, from a client that received
this message. -/
def Ack.Genuine (a : Ack ι) (s : Net ι) : Prop :=
  a.reply.round = a.round ∧ (a.reply.client, a.round) ∈ s.received

/-- Both events are the same call with the same kind of result: `recvfrom` may take any reply that is
queued. -/
def SameCall : Event → Event → Prop
  | .recvfrom _, .recvfrom _ => True
  | e, e' => e = e'

/-- What the step reports is genuine, whichever of the queued replies `recvfrom` takes. -/
def AckGenuine (clients : List ι) (s : Net ι) (e : Event) (_ : Net ι) : Prop :=
  ∀ e' t, SameCall e e' → step clients s e' = some t →
    ∀ a, t.acks = s.acks ++ [a] → a.Genuine t

/-- When `recvfrom` takes a reply, no reply to an earlier message is queued. -/
def NoStaleReply (s : Net ι) (e : Event) (_ : Net ι) : Prop :=
  ∀ i, e = .recvfrom i → ∀ r ∈ s.queue, r.round = s.server.round

end Am437x.Udp
