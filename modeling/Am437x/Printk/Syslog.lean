import Am437x.Lib.Loops
import Am437x.Printk.MsgText

/-!
# Reading the log (`syslog_print`)

The syslog reader copies the texts of the records to user space. A read may stop in the middle of a
record; the next one goes on there. In each turn of its loop a read takes the lock of the log buffer, so
that records are stored between the turns.
-/

namespace Am437x.Printk

open Loops

def eFault : Int := 14

/-- The next record to read, and how much of it has been read. -/
structure SyslogReader where
  syslogSeq : Nat
  syslogIdx : Nat
  syslogPartial : Nat
  syslogTime : Bool
  deriving DecidableEq, Repr

/-- A call of `syslog_print`: what is left of the buffer, and the bytes copied so far. -/
structure SyslogCall where
  size : Nat
  len : Nat
  deriving DecidableEq, Repr

/-- The text that a read gives for a record. -/
def Msg.syslogText (m : Msg) (time : Bool) : List UInt8 :=
  msgPrintText m true time (logLineMax + prefixMax)

/-- When messages are gone, the reader moves to the first one. -/
def SyslogReader.catchUp (r : SyslogReader) (log : LogBuf) : SyslogReader :=
  if r.syslogSeq < log.logFirstSeq then
    { r with syslogSeq := log.logFirstSeq, syslogIdx := log.logFirstIdx, syslogPartial := 0 }
  else r

/-- A record is printed with its time when `printk_time` was set at its start. -/
def SyslogReader.selectTime (r : SyslogReader) (printkTime : Bool) : SyslogReader :=
  if r.syslogPartial = 0 then { r with syslogTime := printkTime } else r

/-- The difference of two numbers of type `size_t`. -/
def sizeSub (n k : Nat) : Nat := (n + 2 ^ 32 - k) % 2 ^ 32

/-- How much a call reads of a text of this length, and the reader behind it: all that is left when it fits
into the buffer, else a part for the first record of the call only. -/
def SyslogReader.advance (r : SyslogReader) (log : LogBuf) (c : SyslogCall) (length : Nat) :
    SyslogReader × Nat :=
  if sizeSub length r.syslogPartial ≤ c.size then
    ({ r with
      syslogIdx := logNext log.logBuf r.syslogIdx
      syslogSeq := r.syslogSeq + 1
      syslogPartial := 0 }, sizeSub length r.syslogPartial)
  else if c.len = 0 then ({ r with syslogPartial := r.syslogPartial + c.size }, c.size)
  else (r, 0)

/-- What a turn copies of a text, the reader being behind it. `copy_to_user` fails when `fault` is set. -/
def SyslogCall.copy (c : SyslogCall) (fault : Bool) (text : List UInt8) (next : SyslogReader × Nat) :
    SyslogReader × List UInt8 × Turn SyslogCall Int :=
  if next.2 = 0 then (next.1, [], .left c.len)
  else if fault then (next.1, [], .left (if c.len = 0 then -eFault else c.len))
  else (next.1, text.take next.2, .again { size := c.size - next.2, len := c.len + next.2 })

/-- One turn of the loop: the reader, the bytes copied, and whether the loop goes on or what the call
returns. -/
def syslogTurn (printkTime fault : Bool) (log : LogBuf) (r : SyslogReader) (c : SyslogCall) :
    SyslogReader × List UInt8 × Turn SyslogCall Int :=
  if c.size = 0 then (r, [], .left c.len)
  else
    let r := r.catchUp log
    if r.syslogSeq = log.logNextSeq then (r, [], .left c.len)
    else
      let r := r.selectTime printkTime
      let text := (msgAt log.logBuf (logFromIdx log.logBuf r.syslogIdx)).syslogText r.syslogTime
      c.copy fault (text.drop r.syslogPartial) (r.advance log c text.length)

/-! ## The system -/

structure SyslogSystem where
  log : LogSystem
  reader : SyslogReader
  call : Option SyslogCall
  /-- What the last call has returned. -/
  result : Option Int
  /-- What the reads have copied to user space. -/
  out : List UInt8
  /-- The value of `printk_time` in the turn that began a record, for each record begun. -/
  times : List Bool
  /-- The size of the buffer of the last call. -/
  asked : Nat
  /-- How much had been copied before the last call. -/
  before : Nat

inductive SyslogEvent (cfg : LogConfig) where
  | store (e : SizedEntry cfg)
  /-- A call with a buffer of this size. -/
  | read (size : Nat)
  /-- A turn of the call, with this value of `printk_time`. -/
  | turn (printkTime fault : Bool)

/-- How many records a reader has begun. -/
def SyslogReader.begun (r : SyslogReader) : Nat :=
  if r.syslogPartial = 0 then r.syslogSeq else r.syslogSeq + 1

/-- The state after a turn that gives this. -/
def SyslogSystem.turned (s : SyslogSystem) (printkTime : Bool) :
    SyslogReader × List UInt8 × Turn SyslogCall Int → SyslogSystem
  | (r, bytes, turn) => { s with
    reader := r
    call := match turn with
      | .again c => some c
      | .left _ => none
    result := match turn with
      | .again _ => none
      | .left n => some n
    out := s.out ++ bytes
    times := if r.begun = s.reader.begun then s.times else s.times ++ [printkTime] }

def syslogStep (cfg : LogConfig) (s : SyslogSystem) : SyslogEvent cfg → Option SyslogSystem
  | .store e => (logStep cfg s.log e).map fun log => { s with log := log }
  | .read size =>
    if s.call = none then
      some { s with
        call := some { size := size, len := 0 }
        result := none
        asked := size
        before := s.out.length }
    else none
  | .turn printkTime fault =>
    s.call.map fun c => s.turned printkTime (syslogTurn printkTime fault s.log.log s.reader c)

def SyslogSystem.start (logBuf : Flat.Memory UInt8) : SyslogSystem where
  log := .start logBuf
  reader := { syslogSeq := 0, syslogIdx := 0, syslogPartial := 0, syslogTime := false }
  call := none
  result := none
  out := []
  times := []
  asked := 0
  before := 0

/-! ## What the reads are for -/

/-- What the reader has read of the record that it is at. -/
def SyslogSystem.current (s : SyslogSystem) : List UInt8 :=
  match s.log.stored[s.reader.syslogSeq]?, s.times[s.reader.syslogSeq]? with
  | some m, some time => (m.syslogText time).take s.reader.syslogPartial
  | _, _ => []

/-- The bytes read are the texts of the records, one behind the other from the first one ever stored, and
what has been read of the current one; each has its time when `printk_time` was set as it was begun. -/
structure SyslogSystem.Exact (s : SyslogSystem) : Prop where
  times : s.times.length = s.reader.begun
  stored : s.reader.begun ≤ s.log.stored.length
  out : s.out =
    (List.zipWith Msg.syslogText s.log.stored (s.times.take s.reader.syslogSeq)).flatten ++ s.current

/-- How much the last call has copied. -/
def SyslogSystem.copied (s : SyslogSystem) : Nat := s.out.length - s.before

/-- Why a call ends with a turn. -/
inductive ReadEnds (printkTime : Bool) (s s' : SyslogSystem) : Prop where
  /-- Its buffer is full. -/
  | full (h : s'.copied = s'.asked)
  /-- No record is left. -/
  | allRead (h : s'.reader.syslogSeq = s'.log.stored.length)
  /-- The next record does not fit behind what the call has copied. -/
  | later (m : Msg) (hm : s'.log.stored[s'.reader.syslogSeq]? = some m) (hbegun : s'.reader.syslogPartial = 0)
      (hcopied : 0 < s'.copied) (hfit : s'.asked < s'.copied + (m.syslogText printkTime).length)
  /-- The record read in the turn has no text. -/
  | empty (m : Msg) (hm : s'.log.stored[s.reader.syslogSeq]? = some m)
      (hread : s'.reader.syslogSeq = s.reader.syslogSeq + 1) (hnil : m.syslogText printkTime = [])

/-- A turn that the call goes on after has copied something; a call that ends returns how much it has
copied, and ends for one of the reasons. -/
def SyslogSystem.Answers (printkTime : Bool) (s s' : SyslogSystem) : Prop :=
  match s'.call with
  | some _ => s.copied < s'.copied
  | none => s'.result = some (s'.copied : Int) ∧ ReadEnds printkTime s s'

/-- A turn finds its record still in the buffer, and copies it. -/
def KeepsUp (cfg : LogConfig) (s : SyslogSystem) : SyslogEvent cfg → SyslogSystem → Prop
  | .turn _ fault, _ => fault = false ∧ s.log.log.logFirstSeq ≤ s.reader.syslogSeq
  | _, _ => True

instance (cfg : LogConfig) (s : SyslogSystem) :
    ∀ (e : SyslogEvent cfg) (s' : SyslogSystem), Decidable (KeepsUp cfg s e s')
  | .turn _ _, _ => inferInstanceAs (Decidable (_ ∧ _))
  | .store _, _ | .read _, _ => inferInstanceAs (Decidable True)

end Am437x.Printk
