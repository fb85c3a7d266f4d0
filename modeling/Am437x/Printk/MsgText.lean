import Am437x.Printk.LogBuffer

/-!
# The text of a record (`msg_print_text`)

A record is printed with a prefix in front of each of its lines.
-/

namespace Am437x.Printk

/-- `PREFIX_MAX`, without `CONFIG_PRINTK_CALLER`. -/
def prefixMax : Nat := 32

def logLineMax : Nat := 1024 - prefixMax

def ascii (c : Char) : UInt8 := UInt8.ofNat c.toNat

def newline : UInt8 := 10

/-- The digits of a number. -/
def decimal (n : Nat) : List UInt8 := (Nat.toDigits 10 n).map ascii

/-- "<%u>" -/
def printSyslog (level : Nat) : List UInt8 := [ascii '<'] ++ decimal level ++ [ascii '>']

/-- "[%5lu.%06lu]"; an `unsigned long` has 32 bits. -/
def printTime (ts : BitVec 64) : List UInt8 :=
  let sec := ts.toNat / 1000000000 % 2 ^ 32
  let remNsec := ts.toNat % 1000000000
  [ascii '['] ++ (decimal sec).leftpad 5 (ascii ' ') ++ [ascii '.'] ++
    (decimal (remNsec / 1000)).leftpad 6 (ascii '0') ++ [ascii ']']

def printPrefix (m : Msg) (syslog time : Bool) : List UInt8 :=
  (if syslog then printSyslog (m.facility.toNat <<< 3 ||| m.level.toNat) else []) ++
    (if time then printTime m.tsNsec ++ [ascii ' '] else [])

/-- The lines of a text; `memchr` finds where they end. -/
def Msg.lines (m : Msg) : List (List UInt8) := m.text.splitOn newline

/-- The loop of `msg_print_text` into a buffer of this size, behind `len` bytes. It stops at the first line
that does not fit. -/
def printLines (linePrefix : List UInt8) (size : Nat) : Nat → List (List UInt8) → List UInt8
  | _, [] => []
  | len, line :: rest =>
    if size - len ≤ linePrefix.length + line.length + 1 then []
    else linePrefix ++ line ++ [newline] ++
      printLines linePrefix size (len + (linePrefix.length + line.length + 1)) rest

def msgPrintText (m : Msg) (syslog time : Bool) (size : Nat) : List UInt8 :=
  printLines (printPrefix m syslog time) size 0 m.lines

/-- `msg_print_text` without a buffer: the length only. -/
def msgPrintSize (m : Msg) (syslog time : Bool) : Nat :=
  (m.lines.map fun line => (printPrefix m syslog time).length + line.length + 1).sum

/-- All lines of a record. -/
def Msg.print (m : Msg) (syslog time : Bool) : List UInt8 :=
  m.lines.flatMap fun line => printPrefix m syslog time ++ line ++ [newline]

/-! ## Sizes -/

theorem length_print (m : Msg) (syslog time : Bool) :
    (m.print syslog time).length = msgPrintSize m syslog time := by
  simp [Msg.print, msgPrintSize, List.length_flatMap, Nat.add_assoc]

theorem printLines_of_lt {linePrefix : List UInt8} {size len : Nat} {lines : List (List UInt8)}
    (h : len + (lines.map fun line => linePrefix.length + line.length + 1).sum < size) :
    printLines linePrefix size len lines =
      lines.flatMap fun line => linePrefix ++ line ++ [newline] := by
  induction lines generalizing len with
  | nil => rfl
  | cons line lines ih =>
    rw [List.map_cons, List.sum_cons] at h
    rw [printLines, if_neg (by omega), ih (by omega)]
    rfl

/-- The size computed without a buffer is that of the text, and a larger buffer takes all of it. -/
theorem msgPrintText_of_lt {m : Msg} {syslog time : Bool} {size : Nat}
    (h : msgPrintSize m syslog time < size) : msgPrintText m syslog time size = m.print syslog time :=
  printLines_of_lt (by rw [Nat.zero_add]; exact h)

/-- A text without the syslog prefixes is not longer. -/
theorem msgPrintSize_le (m : Msg) (syslog time : Bool) :
    msgPrintSize m syslog time ≤ msgPrintSize m true time := by
  refine List.sum_le_sum fun line _ => ?_
  have hprefix : (printPrefix m syslog time).length ≤ (printPrefix m true time).length := by
    unfold printPrefix
    rw [List.length_append, List.length_append]
    refine Nat.add_le_add_right ?_ _
    cases syslog
    · exact Nat.zero_le _
    · exact le_rfl
  omega

end Am437x.Printk
