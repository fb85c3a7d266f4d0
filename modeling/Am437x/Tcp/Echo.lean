import Am437x.Lib.CString
import Am437x.Lib.Runs
import Am437x.Tcp.Ssl

/-!
# The TLS echo session (`tcp/ex2`)

The message loop of `c.c` and `handle_client` of `s.c`, joined by two FIFO channels. A step of the
session is one stretch of either program up to its next `SSL_read`; the event says what the calls of
that stretch return.
-/

namespace Am437x.Echo

open CString Tcp

def bufferSize : Nat := 4096

/-- `"quit"` -/
def quit : List UInt8 := [0x71, 0x75, 0x69, 0x74]

/-- A message on its way. `seq` counts the messages of the client; neither program sees it. -/
structure Message where
  seq : Nat
  text : List UInt8
  deriving DecidableEq, Repr

/-- Where the client is in its loop. -/
inductive ClientPhase where
  | prompt
  | reading
  | closed
  deriving DecidableEq, Repr

/-- Whether `handle_client` is in its loop. -/
inductive ServerPhase where
  | serving
  | closed
  deriving DecidableEq, Repr

structure Session where
  /-- What is left of the client's standard input. -/
  stdin : List UInt8
  /-- The client's `buffer`. -/
  buffer : List UInt8
  client : ClientPhase
  server : ServerPhase
  /-- The server's `running` flag. -/
  running : Bool
  toServer : List Message
  toClient : List Message
  /-- The texts sent by the client so far. -/
  sent : List (List UInt8)
  /-- The `Server response` lines printed so far, with the message that each answers. -/
  printed : List Message
  deriving DecidableEq, Repr

/-- A session at its start. -/
def Session.start (stdin buffer : List UInt8) : Session where
  stdin := stdin
  buffer := buffer
  client := .prompt
  server := .serving
  running := true
  toServer := []
  toClient := []
  sent := []
  printed := []

/-! ## The client -/

/-- `buffer[strcspn(buffer, "\n")] = '\0'` after `fgets` has stored a line. -/
def storeLine (buffer line : List UInt8) : List UInt8 :=
  let buffer := writeAt buffer 0 (line ++ [0])
  buffer.set (strcspn buffer newline) 0

/-- From the prompt to `SSL_write`. `ioError` makes `fgets` fail before the end of the input; `writeOk`
is false when `SSL_write` fails, as it always does on an empty message. -/
def Session.input (s : Session) (ioError writeOk : Bool) : Session :=
  if ioError then s
  else
    match fgets bufferSize s.stdin with
    | none => { s with client := .closed }
    | some (line, rest) =>
      let buffer := storeLine s.buffer line
      let s := { s with stdin := rest, buffer := buffer }
      if cstr buffer = quit then { s with client := .closed }
      else if writeOk = true ∧ 0 < strlen buffer then
        { s with
          client := .reading
          sent := s.sent ++ [cstr buffer]
          toServer := s.toServer ++ [{ seq := s.sent.length + 1, text := cstr buffer }] }
      else { s with client := .closed }

/-- The client after its `SSL_read`: a response is printed, the close of the connection or a fatal error
ends the loop. `SSL_ERROR_WANT_READ` and `SSL_ERROR_WANT_WRITE` `continue` the loop, at its prompt.
`seq` is the message that a response answers. -/
def Session.clientRead (s : Session) (r : SslRead) (seq : Nat) : Session :=
  if r.ret > 0 then
    let buffer := writeAt s.buffer 0 (r.bytes ++ [0])
    { s with
      buffer := buffer
      client := .prompt
      printed := s.printed ++ [{ seq := seq, text := cstr buffer }] }
  else if r.ret = 0 then { s with client := .closed }
  else if r.isWant then { s with client := .prompt }
  else { s with client := .closed }

/-! ## The server -/

/-- One turn of the loop of `handle_client`: the bytes written back, and whether the loop goes on. After
`continue` the loop condition sees a value that is not positive, and the loop ends. -/
def handleClientTurn (r : SslRead) (writeOk running : Bool) : List UInt8 × Bool :=
  if r.ret > 0 then
    if writeOk then (r.bytes, running) else ([], false)
  else ([], false)

/-! ## The session -/

inductive Event where
  /-- The client takes a line from the prompt to `SSL_write`. -/
  | input (ioError writeOk : Bool)
  /-- The client's `SSL_read` delivers the oldest response. -/
  | response
  /-- The client's `SSL_read` returns no data. -/
  | noResponse (r : SslRead)
  /-- The server's `SSL_read` delivers the oldest message. -/
  | serve (writeOk : Bool)
  /-- The server's `SSL_read` returns no data. -/
  | noMessage (r : SslRead)
  /-- A signal clears `running`. -/
  | signal
  deriving DecidableEq, Repr

/-- One step of the session; `none` when the event cannot happen. -/
def step (s : Session) : Event → Option Session
  | .input ioError writeOk =>
    if s.client = .prompt then some (s.input ioError writeOk) else none
  | .response =>
    match s.client, s.toClient with
    | .reading, m :: rest => some ({ s with toClient := rest }.clientRead (.data m.text) m.seq)
    | _, _ => none
  | .noResponse r =>
    if s.client = .reading ∧ r.ret ≤ 0 then some (s.clientRead r 0) else none
  | .serve writeOk =>
    match s.server, s.toServer with
    | .serving, m :: rest =>
      let (echo, goesOn) := handleClientTurn (.data m.text) writeOk s.running
      some { s with
        server := if goesOn then .serving else .closed
        toServer := rest
        toClient := if echo = [] then s.toClient else s.toClient ++ [{ seq := m.seq, text := echo }] }
    | _, _ => none
  | .noMessage r =>
    if s.server = .serving ∧ r.ret ≤ 0 then
      let (_, goesOn) := handleClientTurn r true s.running
      some { s with server := if goesOn then .serving else .closed }
    else none
  | .signal => some { s with running := false }

/-! ## What the session is for -/

/-- The responses that are still to come: those on their way, and those to the messages that the server
has still to read. -/
def Session.pending (s : Session) : List Message :=
  s.toClient ++ if s.server = .serving then s.toServer else []

/-- A response to an earlier message is outstanding. -/
def Session.Outstanding (s : Session) : Prop := s.pending ≠ []

instance (s : Session) : Decidable s.Outstanding := inferInstanceAs (Decidable (_ ≠ _))

/-- A response that a step prints answers the message sent last, with its text, and no response is
outstanding when the client is at its prompt. -/
def Paired (s : Session) (_ : Event) (s' : Session) : Prop :=
  (∀ p, s'.printed = s.printed ++ [p] → p.seq = s.sent.length ∧ s.sent.getLast? = some p.text) ∧
    (s'.client = .prompt → ¬ s'.Outstanding)

/-- The step is not a read that reports `SSL_ERROR_WANT_READ` or `SSL_ERROR_WANT_WRITE` to the client
while it waits for an outstanding response. -/
def NoRetryWhileOutstanding (s : Session) (e : Event) (_ : Session) : Prop :=
  ∀ r, e = .noResponse r → r.isWant = true → ¬ s.Outstanding

end Am437x.Echo
