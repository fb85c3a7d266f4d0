import Am437x.Printk.MsgText

/-!
# The extended format (`msg_print_ext_header`, `msg_print_ext_body`)

A reader of `/dev/kmsg` gets a record as a header, its text and the lines of its dictionary. Bytes that are
not printable are escaped.
-/

namespace Am437x.Printk

def hexDigit (n : UInt8) : UInt8 := if n < 10 then 48 + n else 87 + n

/-- "\x%02x" -/
def escaped (c : UInt8) : List UInt8 := [92, 120, hexDigit (c / 16), hexDigit (c % 16)]

/-- `append_char` in a buffer of this size. -/
def appendChar (size : Nat) (out : List UInt8) (c : UInt8) : List UInt8 :=
  if out.length < size then out ++ [c] else out

/-- A byte of a text; `scnprintf` keeps the last byte of the buffer for a zero. -/
def appendByte (size : Nat) (out : List UInt8) (c : UInt8) : List UInt8 :=
  if c < 32 ∨ 127 ≤ c ∨ c = 92 then out ++ (escaped c).take (size - out.length - 1)
  else appendChar size out c

/-- The loop over the dictionary; `line` is set at the start of a line. -/
def appendDict (size : Nat) : Bool → List UInt8 → List UInt8 → List UInt8
  | _, [], out => out
  | line, c :: dict, out =>
    let out := if line then appendChar size out 32 else out
    if c = 0 then appendDict size true dict (appendChar size out newline)
    else appendDict size false dict (appendByte size out c)

def msgPrintExtBody (size : Nat) (dict text : List UInt8) : List UInt8 :=
  let out := appendChar size (text.foldl (appendByte size) []) newline
  if dict = [] then out else appendChar size (appendDict size true dict out) newline

def Msg.priority (m : Msg) : Nat := m.facility.toNat <<< 3 ||| m.level.toNat

/-- `LOG_CONT` is bit 3. -/
def Msg.isCont (m : Msg) : Bool := m.flags.getLsbD 3

/-- "%u,%llu,%llu,%c;" -/
def extHeader (m : Msg) (seq : Nat) : List UInt8 :=
  decimal m.priority ++ ascii ',' :: (decimal seq ++ ascii ',' :: (decimal (m.tsNsec.toNat / 1000) ++
    ascii ',' :: (if m.isCont then ascii 'c' else ascii '-') :: [ascii ';']))

def msgPrintExtHeader (size : Nat) (m : Msg) (seq : Nat) : List UInt8 := (extHeader m seq).take (size - 1)

/-- A record in the extended format, in a buffer of this size. -/
def msgPrintExt (size : Nat) (m : Msg) (seq : Nat) : List UInt8 :=
  let header := msgPrintExtHeader size m seq
  header ++ msgPrintExtBody (size - header.length) m.dict m.text

/-! ## The format without a limit -/

def extByte (c : UInt8) : List UInt8 := if c < 32 ∨ 127 ≤ c ∨ c = 92 then escaped c else [c]

def extDict : Bool → List UInt8 → List UInt8
  | _, [] => []
  | line, c :: dict =>
    (if line then [32] else []) ++
      if c = 0 then newline :: extDict true dict else extByte c ++ extDict false dict

def extBody (dict text : List UInt8) : List UInt8 :=
  text.flatMap extByte ++ newline :: if dict = [] then [] else extDict true dict ++ [newline]

def Msg.ext (m : Msg) (seq : Nat) : List UInt8 := extHeader m seq ++ extBody m.dict m.text

/-! ## What a reader makes of it -/

/-- What the extended format says of a record. -/
structure ExtMsg where
  priority : Nat
  seq : Nat
  usec : Nat
  cont : Bool
  text : List UInt8
  dict : List UInt8
  deriving DecidableEq, Repr

def hexValue (c : UInt8) : UInt8 := if c < 58 then c - 48 else c - 87

def unescape : List UInt8 → List UInt8
  | c :: x :: a :: b :: rest =>
    if c = 92 ∧ x = 120 then (hexValue a * 16 + hexValue b) :: unescape rest
    else c :: unescape (x :: a :: b :: rest)
  | rest => rest

def readDecimal (bytes : List UInt8) : Nat :=
  Nat.ofDigitChars 10 (bytes.map fun b => Char.ofNat b.toNat) 0

/-- The header up to the first semicolon, and the lines behind it; each line of the dictionary begins with a
blank, and is an entry. -/
def readExt (bytes : List UInt8) : Option ExtMsg :=
  let header := bytes.takeWhile (· ≠ ascii ';')
  let lines := (bytes.drop (header.length + 1)).splitOn newline
  match header.splitOn (ascii ',') with
  | [priority, seq, usec, flag] =>
    some
      { priority := readDecimal priority
        seq := readDecimal seq
        usec := readDecimal usec
        cont := flag = [ascii 'c']
        text := unescape (lines.headD [])
        dict := [(0 : UInt8)].intercalate (lines.tail.dropLast.map fun line => unescape (line.drop 1)) }
  | _ => none

/-- What a reader should get. -/
def Msg.extMsg (m : Msg) (seq : Nat) : ExtMsg where
  priority := m.priority
  seq := seq
  usec := m.tsNsec.toNat / 1000
  cont := m.isCont
  text := m.text
  dict := m.dict

end Am437x.Printk
