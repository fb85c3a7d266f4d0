import Am437x.Lib.Loops
import Am437x.Tcp.Echo

/-!
# Lines typed at the echo client

The message loop of `c.c` against a server that echoes every message. A line longer than the buffer is
read in several turns, each of which takes its part of the line for a message.
-/

namespace Am437x.Echo

open CString Loops Tcp

/-- How many characters `fgets` reads at most. -/
def fragmentSize : Nat := bufferSize - 1

/-- One turn of the loop: `SSL_write` succeeds on a message that is not empty, and `SSL_read` returns
its echo. -/
def Session.exchange (s : Session) : Turn Session Session :=
  let t := s.input false true
  if t.client = .reading then
    .again ({ t with toServer := s.toServer }.clientRead (.data (cstr t.buffer)) t.sent.length)
  else .left t

def exchanges (n : Nat) (s : Session) : Turn Session Session :=
  loop (fun s (_ : Unit) => s.exchange) s (List.replicate n ())

abbrev Line := { line : List UInt8 // newline ∉ line }

/-- The client at its prompt, with the line typed before the rest of the input. -/
def Session.typed (s : Session) (line rest : List UInt8) : Session :=
  { s with stdin := line ++ newline :: rest, client := .prompt }

/-! ## What the client is for -/

/-- The turns that consume the line send messages that make it up, and leave the session open. -/
def Transmits (s : Session) (line : Line) (rest : List UInt8) : Prop :=
  ∃ n t texts, exchanges n (s.typed line rest) = .again t ∧ t.stdin = rest ∧
    t.sent = s.sent ++ texts ∧ texts.flatten = line

/-- No NUL is in the line, and its last fragment is neither empty nor the word that ends the session. -/
def Transmittable (line : List UInt8) : Prop :=
  0 ∉ line ∧ line.length % fragmentSize ≠ 0 ∧
    line.drop (line.length - line.length % fragmentSize) ≠ quit

instance (line : List UInt8) : Decidable (Transmittable line) :=
  inferInstanceAs (Decidable (_ ∧ _ ∧ _))

end Am437x.Echo
