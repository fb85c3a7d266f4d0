import Am437x.Lib.Memory
import Am437x.Tcp.Ssl

/-!
# The TLS file transfer (`tcp/ex1`)

`server.c` writes the file in pieces of `BUFFER_SIZE` bytes, then its SHA-256 digest. `client.c` has no
framing to go by: it takes the first `SSL_read` of at most `SHA256_DIGEST_LENGTH` bytes for the digest.

The memory of the client is addressed relative to its `buffer`. The bytes below address 0 belong to the
rest of the stack frame, and the client reads them when its last read is shorter than a digest.
-/

namespace Am437x.FileTransfer

open Flat Tcp

def bufferSize : Nat := 1024

def sha256DigestLength : Nat := 32

/-- A digest function, standing for SHA-256. -/
abbrev Sha256 := List UInt8 → { digest : List UInt8 // digest.length = sha256DigestLength }

/-- `fread(buffer, 1, BUFFER_SIZE, file)`: the bytes read and what is left of the file. -/
def fread (file : List UInt8) : List UInt8 × List UInt8 :=
  (file.take bufferSize, file.drop bufferSize)

/-- `while ((bytesRead = fread(buffer, 1, BUFFER_SIZE, file)) > 0) body`, the loop of `send_file` and of
`calculate_sha256`. -/
def freadLoop {σ : Type*} (body : σ → List UInt8 → σ) (s : σ) (file : List UInt8) : σ :=
  if 0 < (fread file).1.length then
    freadLoop body (body s (fread file).1) (fread file).2
  else s
termination_by file.length
decreasing_by
  simp only [fread, List.length_take, List.length_drop, bufferSize] at *
  omega

/-- `calculate_sha256`: `SHA256_Init`, one `SHA256_Update` for each piece read, `SHA256_Final`. The
context is the bytes it has absorbed. -/
def calculateSha256 (sha256 : Sha256) (file : List UInt8) : List UInt8 :=
  sha256 (freadLoop (fun ctx piece => ctx ++ piece) [] file)

/-- `send_file`: the blocks it hands to `SSL_write`, in order. -/
def sendFile (sha256 : Sha256) (file : List UInt8) : List (List UInt8) :=
  freadLoop (fun sent piece => sent ++ [piece]) [] file ++ [calculateSha256 sha256 file]

/-- The conversion of the `int` that `SSL_read` returns to `size_t`. -/
def toSizeT (ret : Int) : Nat := (ret % 2 ^ 64).toNat

/-- The variables of `main` of `client.c` at its receive loop: memory relative to `buffer`, the content
of `received_file.txt`, and the sizes its `fwrite` calls were given. -/
structure Client where
  mem : Memory UInt8
  file : List UInt8
  fwrites : List Nat

def Client.sslRead (c : Client) (r : SslRead) : Client :=
  { c with mem := store c.mem 0 r.bytes }

def Client.fwrite (c : Client) (bytesRead : Nat) : Client :=
  { c with file := c.file ++ load c.mem 0 bytesRead, fwrites := c.fwrites ++ [bytesRead] }

/-- The receive loop: the value of `bytesRead` that ends it, and the variables then. It is `none` when
the reads are used up, and the loop waits in `SSL_read`. -/
def receiveLoop (c : Client) : List SslRead → Option (Nat × Client)
  | [] => none
  | r :: reads =>
    if toSizeT r.ret > sha256DigestLength then
      receiveLoop ((c.sslRead r).fwrite (toSizeT r.ret)) reads
    else some (toSizeT r.ret, c.sslRead r)

inductive Answer where
  | ack
  | nack
  deriving DecidableEq, Repr

def Answer.bytes : Answer → List UInt8
  | .ack => [0x41, 0x43, 0x4b, 0x00]
  | .nack => [0x4e, 0x41, 0x43, 0x4b]

/-- `(memcmp(received_hash, calculated_hash, SHA256_DIGEST_LENGTH) == 0) ? "ACK" : "NACK"`. -/
def Answer.compare (receivedHash calculatedHash : List UInt8) : Answer :=
  if receivedHash = calculatedHash then .ack else .nack

/-- What a transfer leaves behind: `received_file.txt` and the answer. -/
structure Outcome where
  receivedFile : List UInt8
  answer : Answer
  deriving DecidableEq, Repr

/-- `memcpy(received_hash, buffer + (bytesRead - SHA256_DIGEST_LENGTH), SHA256_DIGEST_LENGTH)`. -/
def Client.receivedHash (c : Client) (bytesRead : Nat) : List UInt8 :=
  load c.mem ((bytesRead : Int) - sha256DigestLength) sha256DigestLength

/-- `main` of `client.c` after `SSL_connect`. -/
def clientMain (sha256 : Sha256) (mem : Memory UInt8) (reads : List SslRead) : Option Outcome := do
  let (bytesRead, c) ← receiveLoop { mem := mem, file := [], fwrites := [] } reads
  let calculatedHash := calculateSha256 sha256 c.file
  return { receivedFile := c.file, answer := .compare (c.receivedHash bytesRead) calculatedHash }

/-- A transfer in which every `SSL_write` succeeds and is delivered as one `SSL_read`. -/
def transfer (sha256 : Sha256) (mem : Memory UInt8) (file : List UInt8) : Option Outcome :=
  clientMain sha256 mem ((sendFile sha256 file).map .data)

/-- A way of cutting a byte stream into the results of successive reads. -/
structure Segmentation (stream : List UInt8) where
  pieces : List (List UInt8)
  flatten_pieces : pieces.flatten = stream
  pos_of_mem : ∀ p ∈ pieces, 0 < p.length
  le_of_mem : ∀ p ∈ pieces, p.length ≤ bufferSize

/-- The client on a segmented stream, followed by the close of the connection. -/
def receive (sha256 : Sha256) (mem : Memory UInt8) {stream : List UInt8}
    (seg : Segmentation stream) : Option Outcome :=
  clientMain sha256 mem (seg.pieces.map .data ++ [.closed])

/-! ## What the client takes for the end of the file -/

/-- A read of this many bytes keeps the receive loop going. -/
def IsLong (piece : List UInt8) : Prop := sha256DigestLength < piece.length

instance : DecidablePred IsLong := fun piece => inferInstanceAs (Decidable (_ < piece.length))

/-- The bytes received before the first read that is not long. -/
def beforeShort (pieces : List (List UInt8)) : List UInt8 :=
  (pieces.takeWhile (IsLong ·)).flatten

/-- The first read that is not long; empty when the connection closes first. -/
def firstShort (pieces : List (List UInt8)) : List UInt8 :=
  (pieces.dropWhile (IsLong ·)).headD []

/-- The position in the stream of the first read that is not long. -/
def Segmentation.markAt {stream : List UInt8} (seg : Segmentation stream) : Nat :=
  (beforeShort seg.pieces).length

/-- The length of the first read that is not long, 0 at the close of the connection. -/
def Segmentation.markLength {stream : List UInt8} (seg : Segmentation stream) : Nat :=
  (firstShort seg.pieces).length

/-- The 32 bytes that the client compares with the digest when the short read has `len` bytes at
position `pos` of the stream: bytes that its stack holds below the buffer, then the read. -/
def hashWindow (mem : Memory UInt8) (stream : List UInt8) (pos len : Nat) : List UInt8 :=
  load mem ((len : Int) - sha256DigestLength) (sha256DigestLength - len) ++ (stream.drop pos).take len

/-- The short read completes the digest of the bytes before it. -/
def DigestMatches (sha256 : Sha256) (mem : Memory UInt8) (stream : List UInt8) (pos len : Nat) : Prop :=
  hashWindow mem stream pos len = (sha256 (stream.take pos)).val

instance (sha256 : Sha256) (mem : Memory UInt8) (stream : List UInt8) (pos len : Nat) :
    Decidable (DigestMatches sha256 mem stream pos len) :=
  inferInstanceAs (Decidable (_ = _))

/-- The last piece of the file is not taken for the digest: it is full, or more than a digest long. -/
def LastPieceLong (file : List UInt8) : Prop :=
  file.length % bufferSize = 0 ∨ sha256DigestLength < file.length % bufferSize

instance (file : List UInt8) : Decidable (LastPieceLong file) :=
  inferInstanceAs (Decidable (_ ∨ _))

end Am437x.FileTransfer
