import Am437x.Printk.RecordRange

/-!
# Dumping the log (`kmsg_dump`)

A dumper reads the log while it is called back: `kmsg_dump_get_line` reads the records from the oldest one
on, `kmsg_dump_get_buffer` reads blocks of them from the youngest one on. Between two of its calls, other
processors store records and clear the log.
-/

namespace Am437x.Printk

/-- The iterator of a dumper. -/
structure KmsgDumper where
  active : Bool
  curSeq : Nat
  curIdx : Nat
  nextSeq : Nat
  nextIdx : Nat
  deriving DecidableEq, Repr

/-- `syslog_clear`, and the end of `syslog_print_all` for a reader that clears. -/
def syslogClear (log : LogBuf) : LogBuf :=
  { log with clearSeq := log.logNextSeq, clearIdx := log.logNextIdx }

/-- `kmsg_dump_rewind_nolock` -/
def kmsgDumpRewind (log : LogBuf) (d : KmsgDumper) : KmsgDumper :=
  { d with
    curSeq := log.clearSeq
    curIdx := log.clearIdx
    nextSeq := log.logNextSeq
    nextIdx := log.logNextIdx }

/-- When messages are gone, the dumper moves to the first available one. -/
def KmsgDumper.catchUp (d : KmsgDumper) (log : LogBuf) : KmsgDumper :=
  if d.curSeq < log.logFirstSeq then { d with curSeq := log.logFirstSeq, curIdx := log.logFirstIdx } else d

/-- `kmsg_dump_get_line_nolock`: the result, the line, and the dumper. -/
def kmsgDumpGetLine (printkTime : Bool) (log : LogBuf) (d : KmsgDumper) (syslog : Bool) (size : Nat) :
    Bool × List UInt8 × KmsgDumper :=
  if d.active then
    let d := d.catchUp log
    if log.logNextSeq ≤ d.curSeq then (false, [], d)
    else
      (true, msgPrintText (msgAt log.logBuf (logFromIdx log.logBuf d.curIdx)) syslog printkTime size,
        { d with curIdx := logNext log.logBuf d.curIdx, curSeq := d.curSeq + 1 })
  else (false, [], d)

/-- The last loop of `kmsg_dump_get_buffer`, behind `len` bytes. -/
def dumpTexts (logBuf : Flat.Memory UInt8) (syslog time : Bool) (size : Nat) :
    Nat → Nat → Nat → List UInt8
  | 0, _, _ => []
  | n + 1, len, idx =>
    let text := msgPrintText (msgAt logBuf (logFromIdx logBuf idx)) syslog time (size - len)
    text ++ dumpTexts logBuf syslog time size n (len + text.length) (logNext logBuf idx)

/-- `kmsg_dump_get_buffer`: the result, the lines, and the dumper. -/
def kmsgDumpGetBuffer (printkTime : Bool) (log : LogBuf) (d : KmsgDumper) (syslog : Bool) (size : Nat) :
    Bool × List UInt8 × KmsgDumper :=
  if d.active then
    let d := d.catchUp log
    if d.nextSeq ≤ d.curSeq then (false, [], d)
    else
      let first := firstThatFits .sizeT log.logBuf printkTime size (d.nextSeq - d.curSeq) d.curIdx
      (true, dumpTexts log.logBuf syslog printkTime size first.1 0 first.2,
        { d with nextSeq := d.nextSeq - first.1, nextIdx := first.2 })
  else (false, [], d)

/-! ## The system -/

/-- How a record has been printed: with the syslog prefix, with the time. -/
structure PrintMode where
  syslog : Bool
  time : Bool
  deriving DecidableEq, Repr

structure DumpSystem where
  log : LogSystem
  dumper : KmsgDumper
  /-- The blocks read since the dumper was rewound, the later ones in front. -/
  text : List UInt8
  /-- How the records of the blocks were printed. -/
  modes : List PrintMode
  /-- What the last call has returned. -/
  result : Bool × List UInt8

inductive DumpEvent (cfg : LogConfig) where
  | store (e : SizedEntry cfg)
  | clear
  /-- `kmsg_dump` calls the dumper. -/
  | dump
  | rewind
  | getLine (printkTime syslog : Bool) (size : Nat)
  | getBuffer (printkTime syslog : Bool) (size : Nat)
  /-- The dumper returns. -/
  | done

/-- The dumper starts again. -/
def DumpSystem.restart (s : DumpSystem) (d : KmsgDumper) : DumpSystem :=
  { s with dumper := kmsgDumpRewind s.log.log d, text := [], modes := [] }

def dumpStep (cfg : LogConfig) (s : DumpSystem) : DumpEvent cfg → Option DumpSystem
  | .store e => (logStep cfg s.log e).map fun log => { s with log := log }
  | .clear => some { s with log := { s.log with log := syslogClear s.log.log } }
  | .dump => some (s.restart { s.dumper with active := true })
  | .rewind => some (s.restart s.dumper)
  | .getLine printkTime syslog size =>
    let r := kmsgDumpGetLine printkTime s.log.log s.dumper syslog size
    some { s with dumper := r.2.2, result := (r.1, r.2.1) }
  | .getBuffer printkTime syslog size =>
    let r := kmsgDumpGetBuffer printkTime s.log.log s.dumper syslog size
    some
      { s with
        dumper := r.2.2
        result := (r.1, r.2.1)
        text := r.2.1 ++ s.text
        modes :=
          List.replicate (s.dumper.nextSeq - r.2.2.nextSeq) { syslog := syslog, time := printkTime } ++
            s.modes }
  | .done => some { s with dumper := { s.dumper with active := false } }

def DumpSystem.start (logBuf : Flat.Memory UInt8) : DumpSystem where
  log := .start logBuf
  dumper := { active := false, curSeq := 0, curIdx := 0, nextSeq := 0, nextIdx := 0 }
  text := []
  modes := []
  result := (false, [])

/-! ## What the dumps are for -/

def Msg.printAs (m : Msg) (mode : PrintMode) : List UInt8 := m.print mode.syslog mode.time

/-- The records that a call of `kmsg_dump_get_buffer` may read. -/
def DumpSystem.available (s : DumpSystem) : List Msg :=
  let first := max s.dumper.curSeq s.log.log.logFirstSeq
  (s.log.stored.drop first).take (s.dumper.nextSeq - first)

/-- The blocks read are the texts of the records from the next one to be read on, each once and in order. -/
def DumpSystem.Exact (s : DumpSystem) : Prop :=
  s.dumper.nextSeq + s.modes.length ≤ s.log.stored.length ∧
    s.text = (List.zipWith Msg.printAs (s.log.stored.drop s.dumper.nextSeq) s.modes).flatten

/-- A call reads the youngest of the available records whose texts, with the syslog prefix, are shorter than
the buffer, and all their lines. It fails when none is available. -/
structure DumpSystem.GetsBuffer (s : DumpSystem) (printkTime syslog : Bool) (size : Nat) (s' : DumpSystem) :
    Prop where
  result : s'.result.1 = true ↔ s.dumper.active = true ∧ s.available ≠ []
  text : s.dumper.active = true → ∃ block,
    LastFit.IsLastFit (Msg.syslogSize printkTime) size s.available block ∧
      s'.result.2 = block.flatMap (·.print syslog printkTime) ∧ s'.result.2.length ≤ size ∧
        s'.dumper.nextSeq + block.length = s.dumper.nextSeq

end Am437x.Printk
