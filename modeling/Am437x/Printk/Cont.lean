import Am437x.Printk.MsgText

/-!
# Continuation lines (`log_output`)

A text without a newline at its end is buffered, and the next one of the same caller is added to it when it
says that it is a continuation. The line is stored in the log when it is complete, or when another text
forces it.
-/

namespace Am437x.Printk

/-- `enum log_flags` -/
structure LogFlags where
  newline : Bool
  cont : Bool
  deriving DecidableEq, Repr

/-- `LOG_NEWLINE` is 2, and `LOG_CONT` is 8. -/
def LogFlags.value (f : LogFlags) : Nat := f.newline.toNat * 2 + f.cont.toNat * 8

/-- The arguments of `log_output`, with its caller and what `local_clock` returns in it. -/
structure Fragment where
  callerId : Nat
  facility : Nat
  level : Nat
  lflags : LogFlags
  dict : List UInt8
  text : List UInt8
  clock : BitVec 64
  deriving DecidableEq, Repr

/-- `struct cont`; no text means that the buffer is unused. -/
structure Cont where
  text : List UInt8
  callerId : Nat
  tsNsec : BitVec 64
  level : Nat
  facility : Nat
  flags : LogFlags
  deriving DecidableEq, Repr

/-- What the printing functions change. -/
structure Printer where
  log : LogSystem
  cont : Cont

/-- The record in which the buffered line is stored. -/
def Cont.entry (c : Cont) (clock : BitVec 64) : LogEntry where
  facility := c.facility
  level := c.level
  flags := c.flags.value
  tsNsec := c.tsNsec
  dict := []
  text := c.text
  clock := clock

/-- The record of a text that is not buffered. -/
def Fragment.entry (f : Fragment) : LogEntry where
  facility := f.facility
  level := f.level
  flags := f.lflags.value
  tsNsec := 0
  dict := f.dict
  text := f.text
  clock := f.clock

def LogSystem.store (cfg : LogConfig) (s : LogSystem) (e : LogEntry) : LogSystem where
  log := (logStore cfg s.log e).2
  stored := s.stored ++ (makeRoom cfg s.log e).1.toList

/-- `cont_flush` -/
def contFlush (cfg : LogConfig) (clock : BitVec 64) (s : Printer) : Printer :=
  if s.cont.text = [] then s
  else { log := s.log.store cfg (s.cont.entry clock), cont := { s.cont with text := [] } }

/-- The head of a line is set when the buffer is unused. -/
def Cont.begin (c : Cont) (f : Fragment) : Cont :=
  if c.text = [] then
    { text := []
      callerId := f.callerId
      tsNsec := f.clock
      level := f.level
      facility := f.facility
      flags := f.lflags }
  else c

/-- `cont_add` -/
def contAdd (cfg : LogConfig) (f : Fragment) (s : Printer) : Bool × Printer :=
  if logLineMax < s.cont.text.length + f.text.length then (false, contFlush cfg f.clock s)
  else
    let c := s.cont.begin f
    let c := { c with text := c.text ++ f.text }
    if f.lflags.newline then
      (true, contFlush cfg f.clock { s with cont := { c with flags := { c.flags with newline := true } } })
    else (true, { s with cont := c })

/-- The first part of `log_output`: the text is added to the line of an earlier one, or that is flushed. -/
def contJoin (cfg : LogConfig) (f : Fragment) (s : Printer) : Bool × Printer :=
  if s.cont.text = [] then (false, s)
  else if s.cont.callerId = f.callerId ∧ f.lflags.cont = true then
    match contAdd cfg f s with
    | (true, s) => (true, s)
    | (false, s) => (false, contFlush cfg f.clock s)
  else (false, contFlush cfg f.clock s)

/-- `log_output`: the length printed, and the state. -/
def logOutput (cfg : LogConfig) (f : Fragment) (s : Printer) : Nat × Printer :=
  match contJoin cfg f s with
  | (true, s) => (f.text.length, s)
  | (false, s) =>
    -- an empty continuation that could not be added only flushes
    if f.text = [] ∧ f.lflags.cont = true then (0, s)
    else
      match if f.lflags.newline then (false, s) else contAdd cfg f s with
      | (true, s) => (f.text.length, s)
      | (false, s) =>
        ((logStore cfg s.log.log f.entry).1, { s with log := s.log.store cfg f.entry })

/-! ## `vprintk_store` -/

/-- `printk_get_level`: the level at the start of a text, which has two bytes then, or 0. -/
structure LevelParser where
  printkGetLevel : List UInt8 → UInt8
  two_le : ∀ text, printkGetLevel text ≠ 0 → 2 ≤ text.length

/-- A call of `vprintk_store` with its formatted text; no level stands for `LOGLEVEL_DEFAULT`. -/
structure VprintkCall where
  callerId : Nat
  facility : Nat
  level : Option Nat
  dict : Option (List UInt8)
  text : List UInt8
  clock : BitVec 64
  deriving DecidableEq, Repr

/-- The loop that strips the levels at the start of the text; each of them takes two bytes. -/
def stripLevels (parser : LevelParser) :
    Nat → Option Nat → LogFlags → List UInt8 → Option Nat × LogFlags × List UInt8
  | 0, level, lflags, text => (level, lflags, text)
  | n + 1, level, lflags, text =>
    let kernLevel := parser.printkGetLevel text
    if kernLevel = 0 then (level, lflags, text)
    else if ascii '0' ≤ kernLevel ∧ kernLevel ≤ ascii '7' then
      stripLevels parser n (some (level.getD (kernLevel - ascii '0').toNat)) lflags (text.drop 2)
    else if kernLevel = ascii 'c' then
      stripLevels parser n level { lflags with cont := true } (text.drop 2)
    else stripLevels parser n level lflags (text.drop 2)

/-- What `vprintk_store` gives to `log_output`. -/
def vprintkStore (parser : LevelParser) (defaultMessageLoglevel : Nat) (c : VprintkCall) : Fragment :=
  let ended := c.text.getLast? = some newline
  let text := if ended then c.text.dropLast else c.text
  let lflags := { newline := ended, cont := false }
  let (level, lflags, text) :=
    if c.facility = 0 then stripLevels parser text.length c.level lflags text
    else (c.level, lflags, text)
  { callerId := c.callerId
    facility := c.facility
    level := level.getD defaultMessageLoglevel
    lflags := if c.dict.isSome then { lflags with newline := true } else lflags
    dict := c.dict.getD []
    text := text
    clock := c.clock }

/-! ## The system -/

structure PrintkSystem extends Printer where
  /-- The calls made. -/
  calls : List VprintkCall

/-- `vscnprintf` leaves less than `LOG_LINE_MAX` bytes; a dictionary has no more of them either. -/
def VprintkCall.Short (c : VprintkCall) : Prop :=
  c.text.length < logLineMax ∧ (c.dict.getD []).length ≤ logLineMax

instance : DecidablePred VprintkCall.Short := fun _ => inferInstanceAs (Decidable (_ ∧ _))

abbrev ShortCall := { c : VprintkCall // c.Short }

def printkStep (cfg : LogConfig) (parser : LevelParser) (defaultMessageLoglevel : Nat) (s : PrintkSystem)
    (c : ShortCall) : Option PrintkSystem :=
  let f := vprintkStore parser defaultMessageLoglevel c.val
  some { (logOutput cfg f s.toPrinter).2 with calls := s.calls ++ [c.val] }

def PrintkSystem.start (logBuf : Flat.Memory UInt8) : PrintkSystem where
  log := .start logBuf
  cont :=
    { text := []
      callerId := 0
      tsNsec := 0
      level := 0
      facility := 0
      flags := { newline := false, cont := false } }
  calls := []

/-! ## What a call prints -/

/-- A text that starts with these levels, and the rest of it, which starts with none. -/
inductive LevelParser.Levels (parser : LevelParser) : List UInt8 → List UInt8 → List UInt8 → Prop where
  | done {text : List UInt8} (h : parser.printkGetLevel text = 0) : Levels parser text [] text
  | level {a b kernLevel : UInt8} {text levels rest : List UInt8}
      (h : parser.printkGetLevel (a :: b :: text) = kernLevel) (hne : kernLevel ≠ 0)
      (hrest : Levels parser text levels rest) : Levels parser (a :: b :: text) (kernLevel :: levels) rest

/-- The log level that the levels at the start of a text give: the first digit. -/
def firstDigit (levels : List UInt8) : Option Nat :=
  (levels.find? fun k => ascii '0' ≤ k ∧ k ≤ ascii '7').map fun k => (k - ascii '0').toNat

/-- The text of a call: levels unless the call has a facility, what is printed, and a newline if it is
ended. -/
structure VprintkCall.HasText (parser : LevelParser) (c : VprintkCall) (levels text : List UInt8)
    (ended : Bool) : Prop where
  isEnded : ended = true ↔ c.text.getLast? = some newline
  parts : ∃ body, c.text = body ++ (if ended then [newline] else []) ∧
    if c.facility = 0 then parser.Levels body levels text else levels = [] ∧ text = body

/-- A call prints its text without the levels and the newline; its level is the first one of its argument, the
levels at the start and the default that there is, and a dictionary ends the line as a newline does. -/
def VprintkCall.Prints (parser : LevelParser) (defaultMessageLoglevel : Nat) (c : VprintkCall)
    (f : Fragment) : Prop :=
  ∃ levels text ended, c.HasText parser levels text ended ∧
    f = { callerId := c.callerId
          facility := c.facility
          level := (c.level.or (firstDigit levels)).getD defaultMessageLoglevel
          lflags := { newline := ended || c.dict.isSome, cont := levels.contains (ascii 'c') }
          dict := c.dict.getD []
          text := text
          clock := c.clock }

/-! ## What continuation lines are -/

/-- The texts that make up a line. -/
structure Line where
  first : Fragment
  rest : List Fragment

namespace Line

def fragments (l : Line) : List Fragment := l.first :: l.rest

def text (l : Line) : List UInt8 := l.fragments.flatMap Fragment.text

def last (l : Line) : Fragment := l.rest.getLastD l.first

/-- Whether a text goes on with the line. -/
def Joins (l : Line) (f : Fragment) : Prop :=
  l.text ≠ [] ∧ l.last.lflags.newline = false ∧ f.lflags.cont = true ∧ f.callerId = l.first.callerId ∧
    l.text.length + f.text.length ≤ logLineMax

instance (l : Line) (f : Fragment) : Decidable (l.Joins f) :=
  inferInstanceAs (Decidable (_ ∧ _ ∧ _ ∧ _ ∧ _))

/-- An empty text leaves no record when it does not end a line, or is a continuation of none. -/
def Skipped (l : Line) : Prop :=
  l.rest = [] ∧ l.first.text = [] ∧ (l.first.lflags.cont = true ∨ l.first.lflags.newline = false)

instance (l : Line) : Decidable l.Skipped := inferInstanceAs (Decidable (_ ∧ _ ∧ _))

/-- The texts behind the first one go on with it, from the same caller. -/
structure WellFormed (l : Line) : Prop where
  cont : ∀ f ∈ l.rest, f.lflags.cont = true ∧ f.callerId = l.first.callerId
  newline : ∀ f ∈ l.fragments.dropLast, f.lflags.newline = false
  length : l.rest = [] ∨ l.text.length ≤ logLineMax

/-- The record of a line: what the first text says of it, with the time of that. -/
structure Record (m : Msg) (l : Line) : Prop where
  text : m.text = l.text
  dict : m.dict = if l.rest = [] then l.first.dict else []
  facility : m.facility = BitVec.ofNat 8 l.first.facility
  level : m.level = BitVec.ofNat 3 l.first.level
  flags : m.flags = BitVec.ofNat 5
    ({ newline := l.last.lflags.newline, cont := l.first.lflags.cont } : LogFlags).value
  time : m.tsNsec = l.first.clock ∨ l.first.clock = 0

end Line

/-- All that the calls print, cut into lines as long as possible; the log has a record of each, in their
order, and the last one may still be in the buffer. -/
structure PrintkSystem.Cut (parser : LevelParser) (defaultMessageLoglevel : Nat) (s : PrintkSystem)
    (lines : List Line) (pending : Option Line) : Prop where
  printed : List.Forall₂ (VprintkCall.Prints parser defaultMessageLoglevel) s.calls
    ((lines ++ pending.toList).flatMap Line.fragments)
  wellFormed : ∀ l ∈ lines ++ pending.toList, l.WellFormed
  longest : List.IsChain (fun l l' : Line => ¬ l.Joins l'.first) (lines ++ pending.toList)
  records : List.Forall₂ Line.Record s.log.stored (lines.filter fun l => ¬ l.Skipped)
  pending : s.cont.text = (pending.map Line.text).getD [] ∧ ∀ l ∈ pending, l.text ≠ []

end Am437x.Printk
