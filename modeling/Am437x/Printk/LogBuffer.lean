import Am437x.Lib.Ring
import Am437x.Lib.Runs
import Am437x.Lib.Words

/-!
# The log buffer of the kernel (`printk.c`)

The log buffer is a chain of records of different lengths. A record is a header, its text and its
dictionary; the header says how long the record is, and a header without a length says that the chain goes
on at the start of the buffer. Sequence numbers of 64 bits do not wrap around, and indices of 32 bits
neither, since the buffer has at most 2^31 bytes.
-/

namespace Am437x.Printk

open Flat Words

/-! ## Records -/

/-- `sizeof(struct printk_log)`, without `CONFIG_PRINTK_CALLER`. -/
def sizeofPrintkLog : Nat := 16

/-- `MAX_LOG_TAKE_PART` -/
def maxLogTakePart : Nat := 4

/-- "<truncated>" -/
def truncMsg : List UInt8 := [60, 116, 114, 117, 110, 99, 97, 116, 101, 100, 62]

structure LogConfig where
  logBufLen : Nat
  sizeof_le : sizeofPrintkLog ≤ logBufLen
  /-- `LOG_BUF_LEN_MAX` -/
  logBufLen_le : logBufLen ≤ 2 ^ 31
  /-- `LOG_ALIGN` is a power of two, and divides the size of a header. -/
  alignShift : Nat
  alignShift_le : alignShift ≤ 4

def LogConfig.logAlign (cfg : LogConfig) : Nat := 2 ^ cfg.alignShift

/-- `struct printk_log` -/
structure PrintkLog where
  tsNsec : BitVec 64
  len : Nat
  textLen : Nat
  dictLen : Nat
  facility : BitVec 8
  flags : BitVec 5
  level : BitVec 3
  deriving DecidableEq, Repr

/-- The header as it lies in memory; the three lengths have 16 bits. -/
def PrintkLog.bytes (h : PrintkLog) : List UInt8 :=
  leBytes 8 h.tsNsec.toNat ++ leBytes 2 h.len ++ leBytes 2 h.textLen ++ leBytes 2 h.dictLen ++
    leBytes 1 h.facility.toNat ++ leBytes 1 (h.flags.toNat + 32 * h.level.toNat)

def printkLogAt (logBuf : Memory UInt8) (idx : Nat) : PrintkLog where
  tsNsec := BitVec.ofNat 64 (leValue (load logBuf idx 8))
  len := leValue (load logBuf (idx + 8) 2)
  textLen := leValue (load logBuf (idx + 10) 2)
  dictLen := leValue (load logBuf (idx + 12) 2)
  facility := BitVec.ofNat 8 (leValue (load logBuf (idx + 14) 1))
  flags := BitVec.ofNat 5 (leValue (load logBuf (idx + 15) 1))
  level := BitVec.ofNat 3 (leValue (load logBuf (idx + 15) 1) / 32)

/-- A record as its readers see it. -/
structure Msg where
  tsNsec : BitVec 64
  facility : BitVec 8
  flags : BitVec 5
  level : BitVec 3
  text : List UInt8
  dict : List UInt8
  deriving DecidableEq, Repr

/-- The record of the header at an index, with `log_text` and `log_dict`. -/
def msgAt (logBuf : Memory UInt8) (idx : Nat) : Msg :=
  let h := printkLogAt logBuf idx
  { tsNsec := h.tsNsec
    facility := h.facility
    flags := h.flags
    level := h.level
    text := load logBuf (idx + sizeofPrintkLog) h.textLen
    dict := load logBuf (idx + sizeofPrintkLog + h.textLen) h.dictLen }

/-- `msg_used_size`: the size of a record, and how much of it is padding. -/
def msgUsedSize (cfg : LogConfig) (textLen dictLen : Nat) : Nat × Nat :=
  let size := sizeofPrintkLog + textLen + dictLen
  let padLen := (2 ^ 32 - size) &&& (cfg.logAlign - 1)
  (size + padLen, padLen)

/-! ## The buffer -/

structure LogBuf where
  logBuf : Memory UInt8
  logFirstSeq : Nat
  logFirstIdx : Nat
  logNextSeq : Nat
  logNextIdx : Nat
  clearSeq : Nat
  clearIdx : Nat

def logFromIdx (logBuf : Memory UInt8) (idx : Nat) : Nat :=
  if (printkLogAt logBuf idx).len = 0 then 0 else idx

def logNext (logBuf : Memory UInt8) (idx : Nat) : Nat :=
  if (printkLogAt logBuf idx).len = 0 then (printkLogAt logBuf 0).len
  else idx + (printkLogAt logBuf idx).len

def LogbufHasSpace (cfg : LogConfig) (s : LogBuf) (msgSize : Nat) (empty : Prop) : Prop :=
  (s.logFirstIdx < s.logNextIdx ∨ empty) ∧
      msgSize + sizeofPrintkLog ≤ max (cfg.logBufLen - s.logNextIdx) s.logFirstIdx ∨
    ¬ (s.logFirstIdx < s.logNextIdx ∨ empty) ∧
      msgSize + sizeofPrintkLog ≤ s.logFirstIdx - s.logNextIdx

instance (cfg : LogConfig) (s : LogBuf) (msgSize : Nat) (empty : Prop) [Decidable empty] :
    Decidable (LogbufHasSpace cfg s msgSize empty) :=
  inferInstanceAs (Decidable (_ ∧ _ ∨ _ ∧ _))

/-- The loop of `log_make_free_space`; it makes at most `log_next_seq - log_first_seq` turns. -/
def dropOld (cfg : LogConfig) (msgSize : Nat) : Nat → LogBuf → LogBuf
  | 0, s => s
  | n + 1, s =>
    if s.logFirstSeq < s.logNextSeq ∧ ¬ LogbufHasSpace cfg s msgSize False then
      dropOld cfg msgSize n { s with
        logFirstIdx := logNext s.logBuf s.logFirstIdx
        logFirstSeq := s.logFirstSeq + 1 }
    else s

/-- The records that are gone are no longer behind the last `clear`. -/
def LogBuf.advanceClear (s : LogBuf) : LogBuf :=
  if s.clearSeq < s.logFirstSeq then { s with clearSeq := s.logFirstSeq, clearIdx := s.logFirstIdx }
  else s

/-- Whether there is room, and the buffer. -/
def logMakeFreeSpace (cfg : LogConfig) (msgSize : Nat) (s : LogBuf) : Bool × LogBuf :=
  let s := (dropOld cfg msgSize (s.logNextSeq - s.logFirstSeq) s).advanceClear
  (LogbufHasSpace cfg s msgSize (s.logFirstSeq = s.logNextSeq), s)

/-- The arguments of `log_store`, and what `local_clock` returns in it. -/
structure LogEntry where
  facility : Nat
  level : Nat
  flags : Nat
  tsNsec : BitVec 64
  dict : List UInt8
  text : List UInt8
  clock : BitVec 64
  deriving DecidableEq, Repr

/-- The record of an entry, with what is kept of its text and dictionary. -/
def LogEntry.msg (e : LogEntry) (text dict : List UInt8) : Msg where
  tsNsec := if 0 < e.tsNsec then e.tsNsec else e.clock
  facility := BitVec.ofNat 8 e.facility
  flags := BitVec.ofNat 5 e.flags
  level := BitVec.ofNat 3 e.level
  text := text
  dict := dict

def LogEntry.full (e : LogEntry) : Msg := e.msg e.text e.dict

/-- `truncate_msg`: the start of the text with a warning, and no dictionary. -/
def LogEntry.truncated (cfg : LogConfig) (e : LogEntry) : Msg :=
  e.msg (e.text.take (cfg.logBufLen / maxLogTakePart) ++ truncMsg) []

def Msg.size (cfg : LogConfig) (m : Msg) : Nat := (msgUsedSize cfg m.text.length m.dict.length).1

/-- The header of a record. -/
def Msg.header (cfg : LogConfig) (m : Msg) : PrintkLog where
  tsNsec := m.tsNsec
  len := m.size cfg
  textLen := m.text.length
  dictLen := m.dict.length
  facility := m.facility
  flags := m.flags
  level := m.level

/-- A record as it lies in memory. -/
def Msg.bytes (cfg : LogConfig) (m : Msg) : List UInt8 :=
  (m.header cfg).bytes ++ m.text ++ m.dict ++
    List.replicate (msgUsedSize cfg m.text.length m.dict.length).2 0

/-- The first part of `log_store`: room is made for the record, or else for the truncated one. -/
def makeRoom (cfg : LogConfig) (s : LogBuf) (e : LogEntry) : Option Msg × LogBuf :=
  let (ok, s) := logMakeFreeSpace cfg (e.full.size cfg) s
  if ok then (some e.full, s)
  else
    let (ok, s) := logMakeFreeSpace cfg ((e.truncated cfg).size cfg) s
    (if ok then some (e.truncated cfg) else none, s)

/-- The second part of `log_store`: the record is written at the end of the chain. -/
def fillMsg (cfg : LogConfig) (m : Msg) (s : LogBuf) : LogBuf :=
  let s :=
    if cfg.logBufLen < s.logNextIdx + m.size cfg + sizeofPrintkLog then
      { s with
        logBuf := store s.logBuf s.logNextIdx (List.replicate sizeofPrintkLog 0)
        logNextIdx := 0 }
    else s
  { s with
    logBuf := store s.logBuf s.logNextIdx (m.bytes cfg)
    logNextIdx := s.logNextIdx + m.size cfg
    logNextSeq := s.logNextSeq + 1 }

/-- `log_store`: the length of the text stored, and the buffer. -/
def logStore (cfg : LogConfig) (s : LogBuf) (e : LogEntry) : Nat × LogBuf :=
  match makeRoom cfg s e with
  | (some m, s) => (m.text.length, fillMsg cfg m s)
  | (none, s) => (0, s)

/-- The buffer before the first message, with any content of the memory. -/
def LogBuf.start (logBuf : Memory UInt8) : LogBuf where
  logBuf := logBuf
  logFirstSeq := 0
  logFirstIdx := 0
  logNextSeq := 0
  logNextIdx := 0
  clearSeq := 0
  clearIdx := 0

/-! ## What the buffer is for -/

/-- The indices of `n` records from an index on. -/
def recordsFrom (logBuf : Memory UInt8) : Nat → Nat → List Nat
  | 0, _ => []
  | n + 1, idx => logFromIdx logBuf idx :: recordsFrom logBuf n (logNext logBuf idx)

/-- The records in the buffer, as a reader finds them. -/
def LogBuf.contents (s : LogBuf) : List Msg :=
  (recordsFrom s.logBuf (s.logNextSeq - s.logFirstSeq) s.logFirstIdx).map (msgAt s.logBuf)

/-- The index at which a reader finds the record with a sequence number. -/
def LogBuf.indexOfSeq (s : LogBuf) (seq : Nat) : Nat :=
  (logNext s.logBuf)^[seq - s.logFirstSeq] s.logFirstIdx

/-- The buffer has this many bytes in one piece that are not of the records from an index on. -/
def LogBuf.HasRoom (cfg : LogConfig) (s : LogBuf) (first size : Nat) : Prop :=
  if first < s.logNextIdx then size ≤ cfg.logBufLen - s.logNextIdx ∨ size ≤ first
  else size ≤ first - s.logNextIdx

/-- The 16 bits of `len` hold the size of the record, also when it is truncated. -/
def LogEntry.Sized (cfg : LogConfig) (e : LogEntry) : Prop :=
  e.full.size cfg < 2 ^ 16 ∧ (e.truncated cfg).size cfg < 2 ^ 16

instance (cfg : LogConfig) : DecidablePred (LogEntry.Sized cfg) := fun _ =>
  inferInstanceAs (Decidable (_ ∧ _))

/-- The entries of the callers of `log_store`, which pass at most `LOG_LINE_MAX` bytes of text. -/
abbrev SizedEntry (cfg : LogConfig) := { e : LogEntry // e.Sized cfg }

structure LogSystem where
  log : LogBuf
  /-- The records stored so far; the sequence number of a record is its place. -/
  stored : List Msg

def LogSystem.start (logBuf : Memory UInt8) : LogSystem where
  log := .start logBuf
  stored := []

def logStep (cfg : LogConfig) (s : LogSystem) (e : SizedEntry cfg) : Option LogSystem :=
  some { log := (logStore cfg s.log e.val).2, stored := s.stored ++ (makeRoom cfg s.log e.val).1.toList }

/-- The buffer holds the last of the records stored. Each lies inside it, at an aligned index. -/
structure LogSystem.KeepsLast (cfg : LogConfig) (s : LogSystem) : Prop where
  contents : s.log.contents = s.stored.drop s.log.logFirstSeq
  first_le : s.log.logFirstSeq ≤ s.log.logNextSeq
  next_eq : s.log.logNextSeq = s.stored.length
  inside : ∀ idx ∈ recordsFrom s.log.logBuf (s.log.logNextSeq - s.log.logFirstSeq) s.log.logFirstIdx,
    cfg.logAlign ∣ idx ∧ idx + (msgAt s.log.logBuf idx).size cfg ≤ cfg.logBufLen

/-- A record is dropped only for an entry that has no room while the record is in the buffer: its own record and
an empty header behind it. -/
def LogSystem.DropsFor (cfg : LogConfig) (s : LogSystem) (e : LogEntry) (s' : LogSystem) : Prop :=
  s.log.logFirstSeq ≤ s'.log.logFirstSeq ∧ ∀ seq, s.log.logFirstSeq ≤ seq → seq < s'.log.logFirstSeq →
    ¬ s.log.HasRoom cfg (s.log.indexOfSeq seq) (e.full.size cfg + sizeofPrintkLog)

/-- An entry is stored as it is when its record with an empty header behind it takes at most half of the buffer.
Other ones may be truncated, but leave a record as long as the buffer is not tiny. The new record is in the
buffer, and nothing outside the buffer is written. -/
structure LogSystem.Stores (cfg : LogConfig) (s : LogSystem) (e : LogEntry) (s' : LogSystem) : Prop where
  full : 2 * (e.full.size cfg + sizeofPrintkLog) ≤ cfg.logBufLen → s'.stored = s.stored ++ [e.full]
  record : 256 ≤ cfg.logBufLen →
    s'.stored = s.stored ++ [e.full] ∨ s'.stored = s.stored ++ [e.truncated cfg]
  newest : s'.stored = s.stored ∨ s'.log.contents.getLast? = s'.stored.getLast?
  frame : ∀ x : Int, x < 0 ∨ cfg.logBufLen ≤ x → s'.log.logBuf x = s.log.logBuf x

end Am437x.Printk
