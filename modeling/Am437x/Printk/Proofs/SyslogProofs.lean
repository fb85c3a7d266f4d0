import Am437x.Printk.Syslog
import Am437x.Printk.Proofs.RecordRangeProofs

/-!
# A reader that keeps up reads everything

However the reads are cut, and whatever is stored between their turns, the bytes read are the texts of
the records in their order, as long as no record is dropped before it has been read.
-/

namespace Am437x.Printk

open Loops Runs

variable {cfg : LogConfig} {log : LogBuf} {m : Msg} {r : SyslogReader} {c : SyslogCall}

theorem printLines_length_le (linePrefix : List UInt8) (size len : Nat) (lines : List (List UInt8)) :
    (printLines linePrefix size len lines).length ≤ size - len := by
  induction lines generalizing len with
  | nil => exact Nat.zero_le _
  | cons line lines ih =>
    rw [printLines]
    split
    · exact Nat.zero_le _
    · have hrest := ih (len + (linePrefix.length + line.length + 1))
      simp only [List.length_append, List.length_singleton]
      omega

theorem syslogText_length_lt (m : Msg) (time : Bool) : (m.syslogText time).length < 2 ^ 32 :=
  (printLines_length_le _ _ _ _).trans_lt (by norm_num [logLineMax, prefixMax])

theorem sizeSub_of_le {n k : Nat} (hn : n < 2 ^ 32) (hk : k ≤ n) : sizeSub n k = n - k := by
  unfold sizeSub
  omega

/-! ## One turn -/

/-- What a turn does at a record with the text `text`, which has been read up to `syslogPartial`. -/
inductive TurnReads (log : LogBuf) (r : SyslogReader) (c : SyslogCall) (time : Bool) (text : List UInt8) :
    SyslogReader → List UInt8 → Turn SyslogCall Int → Prop where
  /-- The rest of the text fits into the buffer. -/
  | rest (hlt : r.syslogPartial < text.length) (hfit : text.length - r.syslogPartial ≤ c.size) :
    TurnReads log r c time text
      { syslogSeq := r.syslogSeq + 1, syslogIdx := logNext log.logBuf r.syslogIdx, syslogPartial := 0,
        syslogTime := time }
      (text.drop r.syslogPartial)
      (.again { size := c.size - (text.length - r.syslogPartial), len := c.len + (text.length - r.syslogPartial) })
  /-- There is nothing left of the text. -/
  | empty (hle : text.length ≤ r.syslogPartial) : TurnReads log r c time text
      { syslogSeq := r.syslogSeq + 1, syslogIdx := logNext log.logBuf r.syslogIdx, syslogPartial := 0,
        syslogTime := time }
      [] (.left c.len)
  /-- The first record of a call fills the buffer. -/
  | part (hlt : r.syslogPartial + c.size < text.length) (hlen : c.len = 0) : TurnReads log r c time text
      { r with syslogPartial := r.syslogPartial + c.size, syslogTime := time }
      ((text.drop r.syslogPartial).take c.size) (.again { size := 0, len := c.size })
  /-- A later record that does not fit is left for the next call. -/
  | later (hlt : r.syslogPartial + c.size < text.length) (hlen : c.len ≠ 0) :
    TurnReads log r c time text { r with syslogTime := time } [] (.left c.len)

/-- The value of `syslog_time` for the record. -/
def SyslogReader.timeFor (r : SyslogReader) (printkTime : Bool) : Bool :=
  if r.syslogPartial = 0 then printkTime else r.syslogTime

theorem selectTime_eq (r : SyslogReader) (printkTime : Bool) :
    r.selectTime printkTime = { r with syslogTime := r.timeFor printkTime } := by
  unfold SyslogReader.selectTime SyslogReader.timeFor
  split <;> rfl

theorem copy_zero (c : SyslogCall) (fault : Bool) (text : List UInt8) (r : SyslogReader) :
    c.copy fault text (r, 0) = (r, [], .left c.len) :=
  if_pos rfl

theorem copy_pos (c : SyslogCall) (text : List UInt8) (r : SyslogReader) {n : Nat} (hn : n ≠ 0) :
    c.copy false text (r, n) = (r, text.take n, .again { size := c.size - n, len := c.len + n }) :=
  if_neg hn

theorem advance_reads (log : LogBuf) (time : Bool) {text : List UInt8} (hsize : c.size ≠ 0)
    (hlt : text.length < 2 ^ 32) (hread : r.syslogPartial ≤ text.length)
    {next : SyslogReader × List UInt8 × Turn SyslogCall Int}
    (hnext : next = c.copy false (text.drop r.syslogPartial)
      (SyslogReader.advance { r with syslogTime := time } log c text.length)) :
    TurnReads log r c time text next.1 next.2.1 next.2.2 := by
  rw [hnext]
  unfold SyslogReader.advance
  dsimp only
  rw [sizeSub_of_le hlt hread]
  split
  case isTrue hfit =>
    by_cases hzero : text.length - r.syslogPartial = 0
    · rw [hzero, copy_zero]
      exact .empty (Nat.sub_eq_zero_iff_le.mp hzero)
    · rw [copy_pos _ _ _ hzero, ← List.length_drop, List.take_length, List.length_drop]
      exact .rest (by omega) hfit
  case isFalse hfit =>
    split
    case isTrue hlen =>
      rw [copy_pos _ _ _ hsize, Nat.sub_self, hlen, Nat.zero_add]
      exact .part (by omega) hlen
    case isFalse hlen =>
      rw [copy_zero]
      exact .later (by omega) hlen

theorem syslogTurn_reads {printkTime : Bool} (hsize : c.size ≠ 0) (hup : log.logFirstSeq ≤ r.syslogSeq)
    (hseq : r.syslogSeq ≠ log.logNextSeq)
    (hmsg : msgAt log.logBuf (logFromIdx log.logBuf r.syslogIdx) = m)
    (hread : r.syslogPartial ≤ (m.syslogText (r.timeFor printkTime)).length) :
    TurnReads log r c (r.timeFor printkTime) (m.syslogText (r.timeFor printkTime))
      (syslogTurn printkTime false log r c).1 (syslogTurn printkTime false log r c).2.1
      (syslogTurn printkTime false log r c).2.2 := by
  refine advance_reads log (r.timeFor printkTime) hsize (syslogText_length_lt m (r.timeFor printkTime)) hread ?_
  have hcatch : r.catchUp log = r := if_neg (not_lt.mpr hup)
  unfold syslogTurn
  rw [if_neg hsize, hcatch]
  dsimp only
  rw [if_neg hseq, selectTime_eq]
  dsimp only
  rw [hmsg]

/-! ## The invariant -/

/-- What has been copied since the call began is what the call has counted. -/
structure CallInv (s : SyslogSystem) : Prop where
  before_le : s.before ≤ s.out.length
  copied_le : s.copied ≤ s.asked
  call : ∀ c, s.call = some c → c.len = s.copied ∧ c.len + c.size = s.asked ∧
    (c.len ≠ 0 → c.size ≠ 0 → s.reader.syslogPartial = 0)

/-- The reader is at a record in the buffer unless it has been dropped, and all bytes before are read. -/
structure SyslogInv (cfg : LogConfig) (s : SyslogSystem) : Prop where
  log : LogInv cfg s.log
  idx : s.log.log.logFirstSeq ≤ s.reader.syslogSeq →
    s.reader.syslogIdx = s.log.log.indexOfSeq s.reader.syslogSeq
  partial_lt : s.reader.syslogPartial ≠ 0 → ∃ m, s.log.stored[s.reader.syslogSeq]? = some m ∧
    s.times[s.reader.syslogSeq]? = some s.reader.syslogTime ∧
    s.reader.syslogPartial < (m.syslogText s.reader.syslogTime).length
  exact : s.Exact
  call : CallInv s

section System

variable {s s' : SyslogSystem}

theorem SyslogReader.seq_le_begun (r : SyslogReader) : r.syslogSeq ≤ r.begun := by
  unfold SyslogReader.begun
  split
  · exact le_rfl
  · exact Nat.le_succ _

theorem syslogInv_start (cfg : LogConfig) (logBuf : Flat.Memory UInt8) :
    SyslogInv cfg (.start logBuf) where
  log := logInv_start cfg logBuf
  idx _ := rfl
  partial_lt h := absurd rfl h
  exact := ⟨rfl, le_rfl, rfl⟩
  call := ⟨le_rfl, le_rfl, fun _ => nofun⟩

theorem current_of_zero (h : s.reader.syslogPartial = 0) : s.current = [] := by
  unfold SyslogSystem.current
  rw [h]
  split
  · exact List.take_zero
  · rfl

theorem current_of_some {time : Bool} (hm : s.log.stored[s.reader.syslogSeq]? = some m)
    (htime : s.times[s.reader.syslogSeq]? = some time) :
    s.current = (m.syslogText time).take s.reader.syslogPartial := by
  unfold SyslogSystem.current
  rw [hm, htime]

/-- Storing a record changes nothing of what has been read. -/
theorem SyslogInv.store (h : SyslogInv cfg s) {e : SizedEntry cfg} {log : LogSystem}
    (hstep : logStep cfg s.log e = some log) : SyslogInv cfg { s with log := log } := by
  have hlog := logInv_step h.log hstep
  obtain ⟨k, hst⟩ := logStore_stored h.log.buf e.property
  have hnext := h.log.nextSeq_eq
  have hseq := (s.reader.seq_le_begun).trans h.exact.stored
  have hstored : log.stored = s.log.stored ++ (makeRoom cfg s.log.log e.val).1.toList := by
    obtain rfl := Option.some.inj hstep
    rfl
  have hbuf : log.log = (logStore cfg s.log.log e.val).2 := by
    obtain rfl := Option.some.inj hstep
    rfl
  have hkeep {m : Msg} (hm : s.log.stored[s.reader.syslogSeq]? = some m) :
      log.stored[s.reader.syslogSeq]? = some m := by
    rw [hstored, List.getElem?_append_left (List.getElem?_eq_some_iff.mp hm).1]
    exact hm
  have hcurrent : ({ s with log := log } : SyslogSystem).current = s.current := by
    by_cases hzero : s.reader.syslogPartial = 0
    · rw [current_of_zero hzero]
      exact current_of_zero hzero
    · obtain ⟨m, hm, htime, -⟩ := h.partial_lt hzero
      rw [current_of_some hm htime]
      exact current_of_some (hkeep hm) htime
  refine ⟨hlog, fun hfirst => ?_, fun hread => ?_, ⟨h.exact.times, ?_, ?_⟩,
    ⟨h.call.before_le, h.call.copied_le, h.call.call⟩⟩
  · show s.reader.syslogIdx = log.log.indexOfSeq s.reader.syslogSeq
    change log.log.logFirstSeq ≤ s.reader.syslogSeq at hfirst
    rw [hbuf, hst.firstSeq] at hfirst
    rw [hbuf, hst.indices _ hfirst (by omega)]
    exact h.idx (by omega)
  · obtain ⟨m, hm, hrest⟩ := h.partial_lt hread
    exact ⟨m, hkeep hm, hrest⟩
  · show s.reader.begun ≤ log.stored.length
    rw [hstored, List.length_append]
    exact h.exact.stored.trans (Nat.le_add_right _ _)
  · rw [hcurrent]
    show s.out = (List.zipWith Msg.syslogText log.stored (s.times.take s.reader.syslogSeq)).flatten ++ s.current
    rw [hstored, zipWith_append_left _ _ ((List.length_take_le _ _).trans hseq)]
    exact h.exact.out

/-- A call begins. -/
theorem SyslogInv.read (h : SyslogInv cfg s) (size : Nat) :
    SyslogInv cfg { s with
      call := some { size := size, len := 0 }, result := none, asked := size, before := s.out.length } := by
  have hcopied : s.out.length - s.out.length = 0 := Nat.sub_self _
  refine ⟨h.log, h.idx, h.partial_lt, ⟨h.exact.times, h.exact.stored, h.exact.out⟩, le_rfl, ?_, fun c hc => ?_⟩
  · exact hcopied.le.trans (Nat.zero_le _)
  · obtain rfl := Option.some.inj hc
    exact ⟨hcopied.symm, Nat.zero_add _, fun hne => absurd rfl hne⟩

/-! ## A turn of a reader that keeps up -/

/-- The text that a turn reads from, and what has been read of it. -/
theorem SyslogInv.current_eq (h : SyslogInv cfg s) (hm : s.log.stored[s.reader.syslogSeq]? = some m)
    (printkTime : Bool) :
    s.current = (m.syslogText (s.reader.timeFor printkTime)).take s.reader.syslogPartial ∧
      (s.reader.syslogPartial ≠ 0 →
        s.reader.syslogPartial < (m.syslogText (s.reader.timeFor printkTime)).length) := by
  unfold SyslogReader.timeFor
  split
  case isTrue hzero =>
    rw [current_of_zero hzero, hzero]
    exact ⟨List.take_zero.symm, fun hne => absurd rfl hne⟩
  case isFalse hne =>
    obtain ⟨m', hm', htime, hlt⟩ := h.partial_lt hne
    obtain rfl := Option.some.inj (hm.symm.trans hm')
    exact ⟨current_of_some hm htime, fun _ => hlt⟩

/-- After a turn that has begun the record or goes on with it, the record has its time. -/
theorem SyslogInv.times_turned (h : SyslogInv cfg s) (printkTime : Bool)
    {next : SyslogReader × List UInt8 × Turn SyslogCall Int} (hbegun : next.1.begun = s.reader.syslogSeq + 1) :
    (s.turned printkTime next).times =
      s.times.take s.reader.syslogSeq ++ [s.reader.timeFor printkTime] := by
  show (if next.1.begun = s.reader.begun then s.times else s.times ++ [printkTime]) = _
  have htimes := h.exact.times
  unfold SyslogReader.begun at htimes
  unfold SyslogReader.timeFor
  rw [hbegun]
  unfold SyslogReader.begun
  by_cases hzero : s.reader.syslogPartial = 0
  · rw [if_pos hzero] at htimes ⊢
    rw [if_neg (Nat.succ_ne_self _), if_pos hzero, ← htimes, List.take_length]
  · rw [if_neg hzero] at htimes ⊢
    obtain ⟨m, -, htime, -⟩ := h.partial_lt hzero
    rw [if_pos rfl, if_neg hzero]
    calc s.times
      _ = s.times.take (s.reader.syslogSeq + 1) := by rw [← htimes, List.take_length]
      _ = s.times.take s.reader.syslogSeq ++ [s.reader.syslogTime] := by rw [List.take_add_one, htime]; rfl

theorem length_take_times (h : SyslogInv cfg s) :
    (s.times.take s.reader.syslogSeq).length = s.reader.syslogSeq := by
  rw [List.length_take, h.exact.times]
  exact min_eq_left s.reader.seq_le_begun

/-- A turn reads the rest of the text of the record that the reader is at. -/
theorem SyslogInv.exact_rest (h : SyslogInv cfg s) (hm : s.log.stored[s.reader.syslogSeq]? = some m)
    (printkTime : Bool) {next : SyslogReader × List UInt8 × Turn SyslogCall Int}
    (hseq : next.1.syslogSeq = s.reader.syslogSeq + 1) (hamount : next.1.syslogPartial = 0)
    (hbytes : next.2.1 = (m.syslogText (s.reader.timeFor printkTime)).drop s.reader.syslogPartial) :
    (s.turned printkTime next).Exact := by
  have hbegun : next.1.begun = s.reader.syslogSeq + 1 := by
    rw [SyslogReader.begun, if_pos hamount, hseq]
  have htimes := h.times_turned printkTime hbegun
  have hlength : (s.turned printkTime next).times.length = s.reader.syslogSeq + 1 := by
    rw [htimes, List.length_append, length_take_times h, List.length_singleton]
  refine ⟨hlength.trans hbegun.symm, ?_, ?_⟩
  · show next.1.begun ≤ s.log.stored.length
    rw [hbegun]
    exact (List.getElem?_eq_some_iff.mp hm).1
  · rw [current_of_zero hamount, List.append_nil]
    show s.out ++ next.2.1 = (List.zipWith Msg.syslogText s.log.stored
      ((s.turned printkTime next).times.take next.1.syslogSeq)).flatten
    rw [hseq, ← hlength, List.take_length, htimes,
      zipWith_append_singleton _ (by rw [length_take_times h, hm]), List.flatten_append, List.flatten_singleton,
      h.exact.out, (h.current_eq hm printkTime).1, hbytes, List.append_assoc, List.take_append_drop]

/-- A turn reads a part of the text, and the reader stays at the record. -/
theorem SyslogInv.exact_part (h : SyslogInv cfg s) (hm : s.log.stored[s.reader.syslogSeq]? = some m)
    (printkTime : Bool) (next : SyslogReader × List UInt8 × Turn SyslogCall Int) {n : Nat} (hn : n ≠ 0)
    (hseq : next.1.syslogSeq = s.reader.syslogSeq)
    (hamount : next.1.syslogPartial = s.reader.syslogPartial + n)
    (hbytes : next.2.1 =
      ((m.syslogText (s.reader.timeFor printkTime)).drop s.reader.syslogPartial).take n) :
    (s.turned printkTime next).Exact ∧
      (s.turned printkTime next).times[s.reader.syslogSeq]? = some (s.reader.timeFor printkTime) := by
  have hbegun : next.1.begun = s.reader.syslogSeq + 1 := by
    rw [SyslogReader.begun, if_neg (by omega), hseq]
  have htimes := h.times_turned printkTime hbegun
  have htake := length_take_times h
  have htime : (s.turned printkTime next).times[s.reader.syslogSeq]? = some (s.reader.timeFor printkTime) := by
    rw [htimes, List.getElem?_append_right htake.le, htake, Nat.sub_self]
    rfl
  refine ⟨⟨?_, ?_, ?_⟩, htime⟩
  · show (s.turned printkTime next).times.length = next.1.begun
    rw [htimes, hbegun, List.length_append, htake, List.length_singleton]
  · show next.1.begun ≤ s.log.stored.length
    rw [hbegun]
    exact (List.getElem?_eq_some_iff.mp hm).1
  · have hcurrent : (s.turned printkTime next).current =
        (m.syslogText (s.reader.timeFor printkTime)).take (s.reader.syslogPartial + n) := by
      rw [← hamount]
      exact current_of_some ((congrArg _ hseq).trans hm) ((congrArg _ hseq).trans htime)
    rw [hcurrent]
    show s.out ++ next.2.1 = (List.zipWith Msg.syslogText s.log.stored
      ((s.turned printkTime next).times.take next.1.syslogSeq)).flatten ++ _
    rw [hseq, htimes, List.take_append_of_le_length htake.ge, List.take_take, Nat.min_self, h.exact.out,
      (h.current_eq hm printkTime).1, hbytes, List.append_assoc, List.take_add]

theorem copied_turned (h : SyslogInv cfg s) (printkTime : Bool)
    (next : SyslogReader × List UInt8 × Turn SyslogCall Int) :
    (s.turned printkTime next).copied = s.copied + next.2.1.length := by
  show (s.out ++ next.2.1).length - s.before = s.out.length - s.before + next.2.1.length
  have hle := h.call.before_le
  rw [List.length_append]
  omega

/-- The count of the call goes on with the bytes copied in the turn. -/
theorem SyslogInv.callInv_turned (h : SyslogInv cfg s) (hc : s.call = some c) (printkTime : Bool)
    {next : SyslogReader × List UInt8 × Turn SyslogCall Int} (hfit : next.2.1.length ≤ c.size)
    (hagain : ∀ c', next.2.2 = .again c' →
      c'.len = c.len + next.2.1.length ∧ c'.size = c.size - next.2.1.length ∧
        (c'.size ≠ 0 → next.1.syslogPartial = 0)) :
    CallInv (s.turned printkTime next) := by
  obtain ⟨hlen, hsize, -⟩ := h.call.call c hc
  have hcopied := copied_turned h printkTime next
  refine ⟨?_, ?_, fun c' hc' => ?_⟩
  · show s.before ≤ (s.out ++ next.2.1).length
    rw [List.length_append]
    exact h.call.before_le.trans (Nat.le_add_right _ _)
  · show _ ≤ s.asked
    omega
  · obtain ⟨hlen', hsize', hzero⟩ := hagain c' (by
      obtain ⟨r, bytes, turn⟩ := next
      cases turn with
      | again t => exact congrArg Turn.again (Option.some.inj hc')
      | left n => nomatch hc')
    refine ⟨by omega, ?_, fun _ => hzero⟩
    show _ = s.asked
    omega

/-- A turn that leaves the loop and copies nothing. -/
theorem SyslogInv.turned_left (h : SyslogInv cfg s) (printkTime : Bool) {time : Bool} (n : Int)
    (htime : s.reader.syslogPartial ≠ 0 → time = s.reader.syslogTime) :
    SyslogInv cfg (s.turned printkTime ({ s.reader with syslogTime := time }, [], .left n)) := by
  have heq : s.turned printkTime ({ s.reader with syslogTime := time }, [], .left n) = { s with
      reader := { s.reader with syslogTime := time }, call := none, result := some n } := by
    simp [SyslogSystem.turned, SyslogReader.begun]
  rw [heq]
  refine ⟨h.log, h.idx, fun hne => ?_, ⟨h.exact.times, h.exact.stored, h.exact.out⟩,
    ⟨h.call.before_le, h.call.copied_le, fun _ => nofun⟩⟩
  obtain rfl := htime hne
  exact h.partial_lt hne

theorem SyslogInv.turned (h : SyslogInv cfg s) (hup : s.log.log.logFirstSeq ≤ s.reader.syslogSeq)
    (hm : s.log.stored[s.reader.syslogSeq]? = some m) (hc : s.call = some c) (hsize : c.size ≠ 0)
    (printkTime : Bool) {next : SyslogReader × List UInt8 × Turn SyslogCall Int}
    (hreads : TurnReads s.log.log s.reader c (s.reader.timeFor printkTime)
      (m.syslogText (s.reader.timeFor printkTime)) next.1 next.2.1 next.2.2) :
    SyslogInv cfg (s.turned printkTime next) ∧ s.Answers printkTime (s.turned printkTime next) := by
  obtain ⟨r, bytes, turn⟩ := next
  dsimp only at hreads
  obtain ⟨hlen, hasked, hnew⟩ := h.call.call c hc
  have hcopied := copied_turned h printkTime (r, bytes, turn)
  have hnextIdx : logNext s.log.log.logBuf s.reader.syslogIdx = s.log.log.indexOfSeq (s.reader.syslogSeq + 1) := by
    rw [h.idx hup, logNext_indexOfSeq hup]
  cases hreads with
  | rest hlt hfit =>
    have hbytes : ((m.syslogText (s.reader.timeFor printkTime)).drop s.reader.syslogPartial).length =
        (m.syslogText (s.reader.timeFor printkTime)).length - s.reader.syslogPartial := List.length_drop
    refine ⟨⟨h.log, fun _ => hnextIdx, fun hne => absurd rfl hne, h.exact_rest hm printkTime rfl rfl rfl,
      h.callInv_turned hc printkTime (hbytes.le.trans hfit) ?_⟩, ?_⟩
    · rintro c' ⟨⟩
      exact ⟨congrArg (c.len + ·) hbytes.symm, congrArg (c.size - ·) hbytes.symm, fun _ => rfl⟩
    · show s.copied < _
      rw [hcopied]
      show s.copied < s.copied + (List.drop _ _).length
      omega
  | empty hle =>
    have hzero : s.reader.syslogPartial = 0 := by
      by_contra hne
      exact absurd ((h.current_eq hm printkTime).2 hne) (not_lt.mpr hle)
    rw [SyslogReader.timeFor, if_pos hzero] at hle
    have hnil : m.syslogText printkTime = [] := List.length_eq_zero_iff.mp (Nat.le_zero.mp (hle.trans hzero.le))
    refine ⟨⟨h.log, fun _ => hnextIdx, fun hne => absurd rfl hne, h.exact_rest hm printkTime rfl rfl ?_,
      h.callInv_turned hc printkTime (Nat.zero_le _) fun _ => nofun⟩, ?_, .empty m hm rfl hnil⟩
    · rw [SyslogReader.timeFor, if_pos hzero, hnil]
      exact List.drop_nil.symm
    · rw [hcopied]
      exact congrArg (some ∘ Nat.cast) hlen
  | part hlt hlenZero =>
    have hbytes : (((m.syslogText (s.reader.timeFor printkTime)).drop s.reader.syslogPartial).take c.size).length =
        c.size := by
      rw [List.length_take, List.length_drop]
      omega
    obtain ⟨hexact, htime⟩ := h.exact_part hm printkTime
      ({ s.reader with
        syslogPartial := s.reader.syslogPartial + c.size
        syslogTime := s.reader.timeFor printkTime }, _, .again { size := 0, len := c.size }) hsize rfl rfl rfl
    refine ⟨⟨h.log, h.idx, fun _ => ⟨m, hm, htime, hlt⟩, hexact,
      h.callInv_turned hc printkTime hbytes.le ?_⟩, ?_⟩
    · rintro c' ⟨⟩
      dsimp only
      rw [hbytes, hlenZero, Nat.zero_add, Nat.sub_self]
      exact ⟨rfl, rfl, fun hne => absurd rfl hne⟩
    · show s.copied < _
      rw [hcopied]
      dsimp only
      rw [hbytes]
      omega
  | later hlt hlenNe =>
    have hzero := hnew hlenNe hsize
    rw [hzero, Nat.zero_add, SyslogReader.timeFor, if_pos hzero] at hlt
    refine ⟨h.turned_left printkTime c.len fun hne => absurd hzero hne, ?_,
      .later m hm hzero ?_ ?_⟩
    · rw [hcopied]
      exact congrArg (some ∘ Nat.cast) hlen
    · rw [hcopied]
      exact Nat.pos_of_ne_zero (hlen ▸ hlenNe)
    · rw [hcopied]
      show s.asked < s.copied + 0 + _
      omega

/-- A turn that is left before it comes to a record. -/
theorem SyslogInv.stopped (h : SyslogInv cfg s) (hc : s.call = some c) (printkTime : Bool)
    (hends : c.size = 0 ∨ s.reader.syslogSeq = s.log.stored.length) :
    SyslogInv cfg (s.turned printkTime (s.reader, [], .left c.len)) ∧
      s.Answers printkTime (s.turned printkTime (s.reader, [], .left c.len)) := by
  obtain ⟨hlen, hasked, -⟩ := h.call.call c hc
  have hcopied := copied_turned h printkTime (s.reader, [], .left c.len)
  refine ⟨h.turned_left printkTime c.len fun _ => rfl, ?_, ?_⟩
  · rw [hcopied]
    exact congrArg (some ∘ Nat.cast) hlen
  · cases hends with
    | inl hfull =>
      refine .full ?_
      rw [hcopied]
      show s.copied + 0 = s.asked
      omega
    | inr hall => exact .allRead hall

/-- What a step of the system guarantees. -/
def SyslogGuarantee (cfg : LogConfig) (s : SyslogSystem) (e : SyslogEvent cfg) (s' : SyslogSystem) : Prop :=
  s'.Exact ∧ s'.copied ≤ s'.asked ∧ ∀ printkTime fault, e = .turn printkTime fault → s.Answers printkTime s'

theorem SyslogInv.turn (h : SyslogInv cfg s) (hc : s.call = some c) (printkTime : Bool)
    (hup : s.log.log.logFirstSeq ≤ s.reader.syslogSeq) :
    SyslogInv cfg (s.turned printkTime (syslogTurn printkTime false s.log.log s.reader c)) ∧
      s.Answers printkTime (s.turned printkTime (syslogTurn printkTime false s.log.log s.reader c)) := by
  have hnext := h.log.nextSeq_eq
  have hle := s.reader.seq_le_begun.trans h.exact.stored
  by_cases hsize : c.size = 0
  · rw [syslogTurn, if_pos hsize]
    exact h.stopped hc printkTime (.inl hsize)
  by_cases hseq : s.reader.syslogSeq = s.log.log.logNextSeq
  · have hcatch : s.reader.catchUp s.log.log = s.reader := if_neg (not_lt.mpr hup)
    rw [syslogTurn, if_neg hsize, hcatch]
    dsimp only
    rw [if_pos hseq]
    exact h.stopped hc printkTime (.inr (hseq.trans hnext))
  obtain ⟨m, hm⟩ : ∃ m, s.log.stored[s.reader.syslogSeq]? = some m :=
    ⟨_, List.getElem?_eq_getElem (by omega)⟩
  have hmsg : msgAt s.log.log.logBuf (logFromIdx s.log.log.logBuf s.reader.syslogIdx) = m := by
    rw [h.idx hup]
    refine h.log.buf.msgAt_eq ?_
    rw [List.getElem?_drop, Nat.add_sub_cancel' hup]
    exact hm
  have hread : s.reader.syslogPartial ≤ (m.syslogText (s.reader.timeFor printkTime)).length := by
    by_cases hzero : s.reader.syslogPartial = 0
    · exact hzero.le.trans (Nat.zero_le _)
    · exact ((h.current_eq hm printkTime).2 hzero).le
  exact h.turned hup hm hc hsize printkTime (syslogTurn_reads hsize hup hseq hmsg hread)

theorem syslogInv_step {e : SyslogEvent cfg} (h : SyslogInv cfg s)
    (hstep : syslogStep cfg s e = some s') (hkeeps : KeepsUp cfg s e s') :
    SyslogGuarantee cfg s e s' ∧ SyslogInv cfg s' := by
  have hother (hinv : SyslogInv cfg s') (hne : ∀ printkTime fault, e ≠ .turn printkTime fault) :
      SyslogGuarantee cfg s e s' ∧ SyslogInv cfg s' :=
    ⟨⟨hinv.exact, hinv.call.copied_le, fun _ _ heq => absurd heq (hne _ _)⟩, hinv⟩
  cases e with
  | store e =>
    unfold syslogStep at hstep
    obtain ⟨log, hlog, rfl⟩ := Option.map_eq_some_iff.mp hstep
    exact hother (h.store hlog) fun _ _ => nofun
  | read size =>
    obtain ⟨-, hs⟩ := Option.ite_none_right_eq_some.mp hstep
    obtain rfl := Option.some.inj hs
    exact hother (h.read size) fun _ _ => nofun
  | turn printkTime fault =>
    obtain ⟨c, hc, rfl⟩ := Option.map_eq_some_iff.mp hstep
    obtain ⟨rfl, hup⟩ := hkeeps
    obtain ⟨hinv, hanswers⟩ := h.turn hc printkTime hup
    refine ⟨⟨hinv.exact, hinv.call.copied_le, fun _ _ heq => ?_⟩, hinv⟩
    obtain ⟨rfl, -⟩ := SyslogEvent.turn.inj heq
    exact hanswers

end System

/-- A record of two lines, read by two calls. -/
def syslogEvents : List (SyslogEvent smallLog) :=
  [.store ⟨twoLines, twoLines_sized⟩, .read 4, .turn false false, .turn false false, .read 100, .turn false false]

end Am437x.Printk
