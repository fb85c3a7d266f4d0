import Mathlib.Data.Seq.Basic
import Am437x.Lib.Loops
import Am437x.Tcp.FileTransfer

/-!
# The receive loop of the file client as a loop over its reads

The loop of `client.c` while the connection may fail: what its `fwrite` calls and the copy of the digest
touch, after any number of reads.
-/

namespace Am437x.FileTransfer

open Loops Tcp

/-- What `SSL_read(ssl, buffer, BUFFER_SIZE)` can return. -/
abbrev ClientRead := { r : SslRead // r.ret ≤ bufferSize }

def Client.start (mem : Flat.Memory UInt8) : Client := { mem := mem, file := [], fwrites := [] }

/-- One turn of the loop; it is left with the value of `bytesRead`. -/
def receiveBody (c : Client) (r : SslRead) : Turn Client (Nat × Client) :=
  let bytesRead := toSizeT r.ret
  let c := c.sslRead r
  if bytesRead > sha256DigestLength then .again (c.fwrite bytesRead) else .left (bytesRead, c)

def receiveReads (mem : Flat.Memory UInt8) (reads : List ClientRead) : Turn Client (Nat × Client) :=
  loop receiveBody (.start mem) (reads.map Subtype.val)

def fwritesOf : Turn Client (Nat × Client) → List Nat
  | .again c => c.fwrites
  | .left (_, c) => c.fwrites

/-- The range that `memcpy` copies as the received digest lies in the buffer. -/
def DigestInBuffer (bytesRead : Nat) : Prop :=
  0 ≤ (bytesRead : Int) - sha256DigestLength ∧
    (bytesRead : Int) - sha256DigestLength + sha256DigestLength ≤ bufferSize

/-! ## Safety -/

/-- What the loop and the copy behind it are to respect, after the reads made so far. -/
structure Safe (mem : Flat.Memory UInt8) (reads : List ClientRead) : Prop where
  leaves : (∃ r ∈ reads, r.val.ret ≤ 0) → (receiveReads mem reads).isLeft = true
  fwrite_le : ∀ n ∈ fwritesOf (receiveReads mem reads), n ≤ bufferSize
  digest_inside : ∀ bytesRead c, receiveReads mem reads = .left (bytesRead, c) →
    DigestInBuffer bytesRead

/-- The first result of at most `SHA256_DIGEST_LENGTH`, if there is one, is this length. -/
def FirstShortIsDigest (reads : List ClientRead) : Prop :=
  FirstHas (fun r : ClientRead => r.val.ret ≤ sha256DigestLength)
    (fun r => r.val.ret = sha256DigestLength) reads

end Am437x.FileTransfer
