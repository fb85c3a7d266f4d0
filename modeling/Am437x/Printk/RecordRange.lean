import Am437x.Lib.LastFit
import Am437x.Printk.MsgText

/-!
# The youngest records that fit into a buffer

`syslog_print_all` and `kmsg_dump_get_buffer` look for the first record that fits, including all following
records, into the buffer of their caller: a first loop computes the length of all texts, a second one moves
the first record forward. They keep the length in variables of 32 bits, one signed and one not; the length
of the texts of a large log buffer wraps around in them.
-/

namespace Am437x.Printk

/-- The variable of the length: `int len` in `syslog_print_all`, `size_t l` in `kmsg_dump_get_buffer`. -/
inductive LenType where
  | int
  | sizeT
  deriving DecidableEq, Repr

/-- What a variable of the type holds when this value is assigned to it. -/
def LenType.assign : LenType → Int → Int
  | .int, x => x.bmod (2 ^ 32)
  | .sizeT, x => x % 2 ^ 32

/-- The length of the texts of `n` records from an index on, added to `len`. -/
def textSizes (ty : LenType) (logBuf : Flat.Memory UInt8) (time : Bool) : Nat → Int → Nat → Int
  | 0, len, _ => len
  | n + 1, len, idx =>
    textSizes ty logBuf time n
      (ty.assign (len + msgPrintSize (msgAt logBuf (logFromIdx logBuf idx)) true time)) (logNext logBuf idx)

/-- The first of `n` records, whose texts have this length, is moved forward until the length is below the
limit: how many records are left, and the index of the first one. -/
def moveFirst (ty : LenType) (logBuf : Flat.Memory UInt8) (time : Bool) (limit : Nat) :
    Nat → Int → Nat → Nat × Nat
  | 0, _, idx => (0, idx)
  | n + 1, len, idx =>
    if limit ≤ len then
      moveFirst ty logBuf time limit n
        (ty.assign (len - msgPrintSize (msgAt logBuf (logFromIdx logBuf idx)) true time)) (logNext logBuf idx)
    else (n + 1, idx)

/-- How many of `n` records fit, and the index of the first of them. -/
def firstThatFits (ty : LenType) (logBuf : Flat.Memory UInt8) (time : Bool) (limit n idx : Nat) : Nat × Nat :=
  moveFirst ty logBuf time limit n (textSizes ty logBuf time n 0 idx) idx

/-- What a reader finds from an index on. -/
def RecordsAt (logBuf : Flat.Memory UInt8) : Nat → List Msg → Prop
  | _, [] => True
  | idx, m :: ms =>
    msgAt logBuf (logFromIdx logBuf idx) = m ∧ RecordsAt logBuf (logNext logBuf idx) ms

/-- The length of the text that a read gives for a record. -/
def Msg.syslogSize (time : Bool) (m : Msg) : Nat := msgPrintSize m true time

/-- The texts of a log buffer of at most this size have a length that a variable of the type holds. -/
def LenType.maxLogBufLen : LenType → Nat
  | .int => 2 ^ 26
  | .sizeT => 2 ^ 27

end Am437x.Printk
