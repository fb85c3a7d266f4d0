import Mathlib.Tactic

/-!
# The TLS calls of the socket programs

What the programs see of one `SSL_read`: the bytes it puts in the buffer, the value it returns and,
for a negative value, the class that `SSL_get_error` gives.
-/

namespace Am437x.Tcp

inductive SslRead where
  /-- The bytes put in the buffer; the return value is their number. -/
  | data (bytes : List UInt8)
  /-- The peer closed the connection: the return value is 0. -/
  | closed
  /-- A negative value that `SSL_get_error` classifies as `SSL_ERROR_WANT_READ`. -/
  | wantRead
  /-- A negative value that `SSL_get_error` classifies as `SSL_ERROR_WANT_WRITE`. -/
  | wantWrite
  | fatal
  deriving DecidableEq, Repr

def SslRead.ret : SslRead → Int
  | .data bytes => bytes.length
  | .closed => 0
  | .wantRead => -1
  | .wantWrite => -1
  | .fatal => -1

def SslRead.bytes : SslRead → List UInt8
  | .data bytes => bytes
  | _ => []

/-- `err == SSL_ERROR_WANT_READ || err == SSL_ERROR_WANT_WRITE`. -/
def SslRead.isWant : SslRead → Bool
  | .wantRead => true
  | .wantWrite => true
  | _ => false

end Am437x.Tcp
