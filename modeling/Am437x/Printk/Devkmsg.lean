import Am437x.Printk.Ext
import Am437x.Printk.KmsgDump
import Am437x.Printk.Syslog

/-!
# Reading `/dev/kmsg` (`devkmsg_read`)

Each read gives one record in the extended format. A reader whose next record has been dropped gets an error
once, and goes on with the first record that is left.
-/

namespace Am437x.Printk

def eAgain : Int := 11

def eInval : Int := 22

def ePipe : Int := 32

def eSPipe : Int := 29

/-- `struct devkmsg_user`: the next record to read. -/
structure DevkmsgUser where
  seq : Nat
  idx : Nat
  deriving DecidableEq, Repr

/-- `devkmsg_read` of a file that does not block, with `count` bytes at `buf`. The record is printed into a
buffer of `consoleExtLogMax` bytes; `copy_to_user` fails when `fault` is set. -/
def devkmsgRead (consoleExtLogMax : Nat) (log : LogBuf) (user : DevkmsgUser) (count : Nat) (fault : Bool) :
    DevkmsgUser × List UInt8 × Int :=
  if user.seq = log.logNextSeq then (user, [], -eAgain)
  else if user.seq < log.logFirstSeq then
    -- our last seen message is gone, return error and reset
    ({ seq := log.logFirstSeq, idx := log.logFirstIdx }, [], -ePipe)
  else
    let text := msgPrintExt consoleExtLogMax (msgAt log.logBuf (logFromIdx log.logBuf user.idx)) user.seq
    let user := { seq := user.seq + 1, idx := logNext log.logBuf user.idx }
    if count < text.length then (user, [], -eInval)
    else if fault then (user, [], -eFault)
    else (user, text, text.length)

inductive Whence where
  | seekSet
  | seekData
  | seekEnd
  | other
  deriving DecidableEq, Repr

/-- `devkmsg_llseek` -/
def devkmsgLlseek (log : LogBuf) (user : DevkmsgUser) (offset : Int) (whence : Whence) :
    DevkmsgUser × Int :=
  if offset ≠ 0 then (user, -eSPipe)
  else
    match whence with
    | .seekSet => ({ seq := log.logFirstSeq, idx := log.logFirstIdx }, 0)
    | .seekData => ({ seq := log.clearSeq, idx := log.clearIdx }, 0)
    | .seekEnd => ({ seq := log.logNextSeq, idx := log.logNextIdx }, 0)
    | .other => (user, -eInval)

/-- `devkmsg_poll`: whether there is something to read, and whether messages are gone. -/
def devkmsgPoll (log : LogBuf) (user : DevkmsgUser) : Bool × Bool :=
  if user.seq < log.logNextSeq then (true, user.seq < log.logFirstSeq) else (false, false)

/-! ## The system -/

/-- What has become of records. -/
inductive Outcome where
  /-- A read has given a record. -/
  | read (bytes : List UInt8)
  /-- A read has failed for a record. -/
  | failed (error : Int)
  /-- A read has reported that this many records are gone. -/
  | gone (n : Nat)
  deriving DecidableEq, Repr

structure DevkmsgSystem where
  log : LogSystem
  user : DevkmsgUser
  /-- Where the reader was after the last seek, and what its reads have given since. -/
  startSeq : Nat
  outcomes : List Outcome

inductive DevkmsgEvent (cfg : LogConfig) where
  | store (e : SizedEntry cfg)
  | clear
  | seek (offset : Int) (whence : Whence)
  | read (count : Nat) (fault : Bool)

/-- The outcome of a read, by the state before it. -/
def outcomeOf (log : LogBuf) (seq : Nat) (bytes : List UInt8) (result : Int) : List Outcome :=
  if result = -eAgain then []
  else if result = -ePipe then [.gone (log.logFirstSeq - seq)]
  else if result < 0 then [.failed result]
  else [.read bytes]

def devkmsgStep (cfg : LogConfig) (consoleExtLogMax : Nat) (s : DevkmsgSystem) :
    DevkmsgEvent cfg → Option DevkmsgSystem
  | .store e => (logStep cfg s.log e).map fun log => { s with log := log }
  | .clear => some { s with log := { s.log with log := syslogClear s.log.log } }
  | .seek offset whence =>
    let r := devkmsgLlseek s.log.log s.user offset whence
    if r.2 = 0 then some { s with user := r.1, startSeq := r.1.seq, outcomes := [] } else some s
  | .read count fault =>
    let r := devkmsgRead consoleExtLogMax s.log.log s.user count fault
    some { s with user := r.1, outcomes := s.outcomes ++ outcomeOf s.log.log s.user.seq r.2.1 r.2.2 }

/-- `devkmsg_open` puts the reader at the first record. -/
def DevkmsgSystem.start (logBuf : Flat.Memory UInt8) : DevkmsgSystem where
  log := .start logBuf
  user := { seq := 0, idx := 0 }
  startSeq := 0
  outcomes := []

/-! ## What a reader is told -/

/-- The outcomes tell of each record from one sequence number to another: it is read as it is, refused with an
error, or reported as gone. -/
def Tells (consoleExtLogMax : Nat) (stored : List Msg) : Nat → List Outcome → Nat → Prop
  | seq, [], endSeq => seq = endSeq
  | seq, .read bytes :: rest, endSeq =>
    (∃ m, stored[seq]? = some m ∧ bytes = msgPrintExt consoleExtLogMax m seq) ∧
      Tells consoleExtLogMax stored (seq + 1) rest endSeq
  | seq, .failed _ :: rest, endSeq =>
    seq < stored.length ∧ Tells consoleExtLogMax stored (seq + 1) rest endSeq
  | seq, .gone n :: rest, endSeq => 0 < n ∧ Tells consoleExtLogMax stored (seq + n) rest endSeq

/-- A read of a reader whose record is there gives it, unless the caller's buffer is too small or faults. One
whose record is gone is told so, and one that has read everything is told to try again. A poll says which
of these comes. -/
structure DevkmsgSystem.Reads (consoleExtLogMax : Nat) (s : DevkmsgSystem) (count : Nat) (fault : Bool)
    (s' : DevkmsgSystem) : Prop where
  again : devkmsgPoll s.log.log s.user = (false, false) → s' = s
  gone : devkmsgPoll s.log.log s.user = (true, true) →
    s'.outcomes = s.outcomes ++ [.gone (s.log.log.logFirstSeq - s.user.seq)] ∧
      s'.user.seq = s.log.log.logFirstSeq
  there : devkmsgPoll s.log.log s.user = (true, false) → ∃ m, s.log.stored[s.user.seq]? = some m ∧
    s'.user.seq = s.user.seq + 1 ∧
      ((msgPrintExt consoleExtLogMax m s.user.seq).length ≤ count → fault = false →
        s'.outcomes = s.outcomes ++ [.read (msgPrintExt consoleExtLogMax m s.user.seq)])

end Am437x.Printk
