import Am437x.Printk.KmsgDump
import Am437x.Printk.Syslog

/-!
# Reading all of the log (`syslog_print_all`)

The call looks for the youngest records that fit into the buffer of its caller, and copies their texts. While
it copies a text it does not hold the lock of the log buffer, so that records are stored and dropped between
the turns of its loop.
-/

namespace Am437x.Printk

/-- The loop that copies the texts. -/
structure PrintAllLoop where
  time : Bool
  clear : Bool
  seq : Nat
  idx : Nat
  nextSeq : Nat
  deriving DecidableEq, Repr

/-- The first record that fits, including all following ones, is looked for: `len > size` moves it forward. -/
def PrintAllLoop.first (log : LogBuf) (size : Nat) (time clear : Bool) : PrintAllLoop :=
  let first := firstThatFits .int log.logBuf time (size + 1) (log.logNextSeq - log.clearSeq) log.clearIdx
  { time := time
    clear := clear
    seq := log.logNextSeq - first.1
    idx := first.2
    nextSeq := log.logNextSeq }

/-- When messages are gone, the loop moves to the next one. -/
def PrintAllLoop.catchUp (c : PrintAllLoop) (log : LogBuf) : PrintAllLoop :=
  if c.seq < log.logFirstSeq then { c with seq := log.logFirstSeq, idx := log.logFirstIdx } else c

/-- The record that a turn prints, and the loop behind it; `none` at the end. -/
def PrintAllLoop.turn (c : PrintAllLoop) (log : LogBuf) : Option (PrintAllLoop × Msg) :=
  if c.seq < c.nextSeq then
    some ({ c with idx := logNext log.logBuf c.idx, seq := c.seq + 1 },
      msgAt log.logBuf (logFromIdx log.logBuf c.idx))
  else none

/-! ## The system -/

/-- What a call was made for. -/
structure PrintAllGoal where
  size : Nat
  time : Bool
  /-- The records since the last clear. -/
  since : List Msg
  /-- The first record that fits. -/
  firstSeq : Nat

structure PrintAllSystem where
  log : LogSystem
  /-- The call in progress, and the record whose text it copies. -/
  call : Option (PrintAllLoop × Msg)
  goal : PrintAllGoal
  /-- What the last call has copied to user space. -/
  out : List UInt8
  copied : List Msg
  /-- What it has returned. -/
  result : Int

inductive PrintAllEvent (cfg : LogConfig) where
  | store (e : SizedEntry cfg)
  | call (size : Nat) (time clear : Bool)
  /-- The text of a record has been copied, or could not be. -/
  | copied (fault : Bool)

/-- The head of the loop, and the end of the call. -/
def PrintAllSystem.enter (s : PrintAllSystem) (c : PrintAllLoop) (fault : Bool) : PrintAllSystem :=
  match if fault then none else c.turn s.log.log with
  | some turn => { s with call := some turn }
  | none =>
    { s with
      call := none
      log := if c.clear then { s.log with log := syslogClear s.log.log } else s.log
      result := if fault then -eFault else s.out.length }

def printAllStep (cfg : LogConfig) (s : PrintAllSystem) : PrintAllEvent cfg → Option PrintAllSystem
  | .store e => (logStep cfg s.log e).map fun log => { s with log := log }
  | .call size time clear =>
    if s.call = none then
      let c := PrintAllLoop.first s.log.log size time clear
      let goal :=
        { size := size
          time := time
          since := s.log.stored.drop s.log.log.clearSeq
          firstSeq := c.seq }
      some (PrintAllSystem.enter { s with goal := goal, out := [], copied := [] } c false)
    else none
  | .copied fault => s.call.map fun (c, m) =>
    let s := if fault then s else { s with out := s.out ++ m.syslogText c.time, copied := s.copied ++ [m] }
    s.enter (c.catchUp s.log.log) fault

def PrintAllSystem.start (logBuf : Flat.Memory UInt8) : PrintAllSystem where
  log := .start logBuf
  call := none
  goal := { size := 0, time := false, since := [], firstSeq := 0 }
  out := []
  copied := []
  result := 0

/-! ## What the calls are for -/

/-- A call never copies more than its buffer takes. What it copies are texts of records of the longest block
that fits, in their order; they are all of them when no record of the block has been dropped. -/
structure PrintAllSystem.Prints (s : PrintAllSystem) : Prop where
  inside : s.out.length ≤ s.goal.size
  texts : s.out = s.copied.flatMap (·.syslogText s.goal.time)
  block : ∃ block, LastFit.IsLastFit (Msg.syslogSize s.goal.time) (s.goal.size + 1) s.goal.since block ∧
    s.copied.Sublist block ∧
      (s.call = none → 0 ≤ s.result → s.log.log.logFirstSeq ≤ s.goal.firstSeq → s.copied = block)

end Am437x.Printk
