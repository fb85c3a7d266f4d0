import Am437x.Printk.KmsgDump
import Am437x.Printk.Proofs.RecordRangeProofs

/-!
# The blocks of a dump

The blocks that a dumper reads from the end of the log follow on each other without a gap, whatever is
stored and cleared between its calls, and each is as large as its buffer allows.
-/

namespace Am437x.Printk

open LastFit Runs

variable {cfg : LogConfig} {logBuf : Flat.Memory UInt8} {ms : List Msg} {idx : Nat}

/-! ## The texts of a block -/

theorem RecordsAt.dumpTexts_eq (h : RecordsAt logBuf idx ms) (syslog time : Bool) {size len : Nat}
    (hfits : ms ≠ [] → len + weight (Msg.syslogSize time) ms < size) :
    dumpTexts logBuf syslog time size ms.length len idx = ms.flatMap (·.print syslog time) := by
  induction ms generalizing idx len with
  | nil => rfl
  | cons m ms ih =>
    obtain ⟨hm, hms⟩ := h
    have hlt := hfits (List.cons_ne_nil m ms)
    have hsize := msgPrintSize_le m syslog time
    rw [weight_cons, Msg.syslogSize] at hlt
    have htext : msgPrintText m syslog time (size - len) = m.print syslog time :=
      msgPrintText_of_lt (by omega)
    rw [List.length_cons, dumpTexts, hm, htext, List.flatMap_cons]
    refine congrArg _ (ih hms fun _ => ?_)
    rw [length_print]
    omega

theorem length_flatMap_print_le (ms : List Msg) (syslog time : Bool) :
    (ms.flatMap (·.print syslog time)).length ≤ weight (Msg.syslogSize time) ms := by
  rw [List.length_flatMap]
  refine List.sum_le_sum fun m _ => ?_
  rw [length_print]
  exact msgPrintSize_le m syslog time

theorem zipWith_printAs_replicate (ms : List Msg) (mode : PrintMode) :
    (List.zipWith Msg.printAs ms (List.replicate ms.length mode)).flatten =
      ms.flatMap (·.print mode.syslog mode.time) := by
  induction ms with
  | nil => rfl
  | cons m ms ih =>
    rw [List.length_cons, List.replicate_succ, List.zipWith_cons_cons, List.flatten_cons, ih,
      List.flatMap_cons]
    rfl

/-! ## The invariant -/

/-- The dumper's iterator is at a record in the buffer unless it has been dropped. -/
structure DumpInv (cfg : LogConfig) (s : DumpSystem) : Prop where
  log : LogInv cfg s.log
  clear : ClearInv s.log.log
  cur_le : s.dumper.curSeq ≤ s.log.log.logNextSeq
  curIdx : s.log.log.logFirstSeq ≤ s.dumper.curSeq →
    s.dumper.curIdx = s.log.log.indexOfSeq s.dumper.curSeq
  exact : s.Exact

section System

variable {s s' : DumpSystem}

theorem dumpInv_start (cfg : LogConfig) (logBuf : Flat.Memory UInt8) : DumpInv cfg (.start logBuf) where
  log := logInv_start cfg logBuf
  clear := clearInv_start logBuf
  cur_le := le_rfl
  curIdx _ := rfl
  exact := ⟨le_rfl, rfl⟩

theorem DumpInv.nextSeq_le (h : DumpInv cfg s) : s.dumper.nextSeq ≤ s.log.stored.length :=
  (Nat.le_add_right _ _).trans h.exact.1

theorem DumpInv.first_le_next (h : DumpInv cfg s) : s.log.log.logFirstSeq ≤ s.log.log.logNextSeq := by
  rw [h.log.buf.seqs]
  exact Nat.le_add_right _ _

/-- Where the iterator is when messages are gone. -/
theorem DumpInv.catchUp (h : DumpInv cfg s) :
    (s.dumper.catchUp s.log.log).curSeq = max s.dumper.curSeq s.log.log.logFirstSeq ∧
      (s.dumper.catchUp s.log.log).curIdx =
        s.log.log.indexOfSeq (max s.dumper.curSeq s.log.log.logFirstSeq) ∧
      (s.dumper.catchUp s.log.log).nextSeq = s.dumper.nextSeq := by
  unfold KmsgDumper.catchUp
  split
  case isTrue hlt =>
    rw [max_eq_right hlt.le]
    exact ⟨rfl, by simp [LogBuf.indexOfSeq], rfl⟩
  case isFalse hge =>
    rw [max_eq_left (not_lt.mp hge)]
    exact ⟨rfl, h.curIdx (not_lt.mp hge), rfl⟩

theorem DumpInv.length_available (h : DumpInv cfg s) :
    s.available.length = s.dumper.nextSeq - max s.dumper.curSeq s.log.log.logFirstSeq := by
  have hle := h.nextSeq_le
  unfold DumpSystem.available
  rw [List.length_take, List.length_drop]
  omega

theorem DumpInv.recordsAt_available (h : DumpInv cfg s) :
    RecordsAt s.log.log.logBuf (s.dumper.catchUp s.log.log).curIdx s.available := by
  rw [h.catchUp.2.1]
  exact (h.log.recordsAt (le_max_right _ _)).take _

/-- What a call of `kmsg_dump_get_buffer` returns, and the dumper that it leaves. -/
theorem DumpInv.getBuffer (h : DumpInv cfg s) (hlen : cfg.logBufLen ≤ 2 ^ 27) (hactive : s.dumper.active = true)
    (printkTime syslog : Bool) (size : Nat) :
    let r := kmsgDumpGetBuffer printkTime s.log.log s.dumper syslog size
    let block := lastFit (Msg.syslogSize printkTime) size s.available
    (r.1 = true ↔ s.available ≠ []) ∧ r.2.1 = block.flatMap (·.print syslog printkTime) ∧
      r.2.2.nextSeq = s.dumper.nextSeq - block.length ∧
      r.2.2.curSeq = (s.dumper.catchUp s.log.log).curSeq ∧
      r.2.2.curIdx = (s.dumper.catchUp s.log.log).curIdx := by
  intro r block
  have hlength := h.length_available
  obtain ⟨hcur, -, hnext⟩ := h.catchUp
  have hcounted : Counted .sizeT printkTime s.available :=
    h.log.counted .sizeT hlen (le_max_right _ _) (List.take_sublist _ _) printkTime
  obtain ⟨hcount, hrecords⟩ := h.recordsAt_available.firstThatFits_eq printkTime size hcounted
  have hne : s.available ≠ [] ↔ ¬ (s.dumper.catchUp s.log.log).nextSeq ≤ (s.dumper.catchUp s.log.log).curSeq := by
    rw [hnext, hcur, Ne, ← List.length_eq_zero_iff, hlength]
    omega
  by_cases hle : (s.dumper.catchUp s.log.log).nextSeq ≤ (s.dumper.catchUp s.log.log).curSeq
  · have hr : r = (false, [], s.dumper.catchUp s.log.log) := by
      show kmsgDumpGetBuffer _ _ _ _ _ = _
      unfold kmsgDumpGetBuffer
      rw [if_pos hactive]
      exact if_pos hle
    have hnil : s.available = [] := not_not.mp fun hne' => hne.mp hne' hle
    have hblock : block = [] := by
      show lastFit _ _ s.available = []
      rw [hnil]
      rfl
    rw [hr, hblock, hnil]
    exact ⟨by simp, rfl, hnext, rfl, rfl⟩
  · have hr : r = (true, dumpTexts s.log.log.logBuf syslog printkTime size block.length 0
        (firstThatFits .sizeT s.log.log.logBuf printkTime size s.available.length
          (s.dumper.catchUp s.log.log).curIdx).2,
        { s.dumper.catchUp s.log.log with
          nextSeq := (s.dumper.catchUp s.log.log).nextSeq - block.length
          nextIdx := (firstThatFits .sizeT s.log.log.logBuf printkTime size s.available.length
            (s.dumper.catchUp s.log.log).curIdx).2 }) := by
      show kmsgDumpGetBuffer _ _ _ _ _ = _
      unfold kmsgDumpGetBuffer
      rw [if_pos hactive, ← hcount, hlength, ← hcur, ← hnext]
      exact if_neg hle
    rw [hr]
    refine ⟨⟨fun _ => hne.mpr hle, fun _ => rfl⟩, ?_, by rw [hnext], rfl, rfl⟩
    exact hrecords.dumpTexts_eq syslog printkTime fun hblock => by
      rw [Nat.zero_add]
      exact (isLastFit_lastFit size s.available).below hblock

/-- The available records, split at the block that is read, and the records behind them. -/
theorem DumpInv.stored_drop (h : DumpInv cfg s) {block : List Msg} (hblock : block <:+ s.available) :
    block.length ≤ s.dumper.nextSeq ∧ s.log.stored.drop (s.dumper.nextSeq - block.length) =
      block ++ s.log.stored.drop s.dumper.nextSeq := by
  obtain ⟨older, holder⟩ := hblock
  have hlength := h.length_available
  rw [← holder, List.length_append] at hlength
  refine ⟨by omega, ?_⟩
  by_cases hnil : block = []
  · rw [hnil]
    rfl
  have hpos := List.length_pos_iff.mpr hnil
  have hsplit : s.log.stored.drop (max s.dumper.curSeq s.log.log.logFirstSeq) =
      older ++ block ++ s.log.stored.drop s.dumper.nextSeq := by
    have hrest := List.take_append_drop
      (s.dumper.nextSeq - max s.dumper.curSeq s.log.log.logFirstSeq)
      (s.log.stored.drop (max s.dumper.curSeq s.log.log.logFirstSeq))
    rw [List.drop_drop, Nat.add_sub_of_le (by omega)] at hrest
    rw [holder]
    exact hrest.symm
  have hstart : s.dumper.nextSeq - block.length =
      max s.dumper.curSeq s.log.log.logFirstSeq + older.length := by
    omega
  rw [hstart, ← List.drop_drop, hsplit, List.append_assoc, List.drop_left]

/-- Storing records and clearing change nothing of what has been read. -/
theorem DumpInv.of_log (h : DumpInv cfg s) {log : LogSystem} (hlog : LogInv cfg log) (hclear : ClearInv log.log)
    (hnext : s.log.log.logNextSeq ≤ log.log.logNextSeq) (hfirst : s.log.log.logFirstSeq ≤ log.log.logFirstSeq)
    (hidx : ∀ seq, log.log.logFirstSeq ≤ seq → seq ≤ s.log.log.logNextSeq →
      log.log.indexOfSeq seq = s.log.log.indexOfSeq seq)
    (hstored : s.log.stored <+: log.stored) : DumpInv cfg { s with log := log } := by
  obtain ⟨hle, htext⟩ := h.exact
  obtain ⟨new, hnew⟩ := hstored
  refine ⟨hlog, hclear, h.cur_le.trans hnext, fun hcur => ?_, ?_, ?_⟩
  · show s.dumper.curIdx = log.log.indexOfSeq s.dumper.curSeq
    rw [hidx _ hcur h.cur_le]
    exact h.curIdx (hfirst.trans hcur)
  · show s.dumper.nextSeq + s.modes.length ≤ log.stored.length
    rw [← hnew, List.length_append]
    exact hle.trans (Nat.le_add_right _ _)
  · show s.text = (List.zipWith Msg.printAs (log.stored.drop s.dumper.nextSeq) s.modes).flatten
    rw [← hnew, List.drop_append_of_le_length h.nextSeq_le, zipWith_append_left, htext]
    rw [List.length_drop]
    omega

theorem DumpInv.store (h : DumpInv cfg s) {e : SizedEntry cfg} {log : LogSystem}
    (hstep : logStep cfg s.log e = some log) : DumpInv cfg { s with log := log } := by
  have hlog := logInv_step h.log hstep
  obtain ⟨k, hst⟩ := logStore_stored h.log.buf e.property
  have hclear := h.clear.logStore h.log.buf e.property
  obtain rfl := Option.some.inj hstep
  refine h.of_log hlog hclear ?_ ?_ (fun seq hle hseq => hst.indices seq (hst.firstSeq.ge.trans hle) hseq)
    (List.prefix_append _ _)
  · show s.log.log.logNextSeq ≤ (logStore cfg s.log.log e.val).2.logNextSeq
    rw [hst.nextSeq]
    exact Nat.le_add_right _ _
  · show s.log.log.logFirstSeq ≤ (logStore cfg s.log.log e.val).2.logFirstSeq
    rw [hst.firstSeq]
    exact Nat.le_add_right _ _

theorem DumpInv.clearLog (h : DumpInv cfg s) :
    DumpInv cfg { s with log := { s.log with log := syslogClear s.log.log } } :=
  h.of_log ⟨⟨h.log.buf.chain, h.log.buf.seqs, h.log.buf.aligned⟩, h.log.first_le⟩
    (clearInv_syslogClear h.log.buf) le_rfl le_rfl (fun _ _ _ => rfl) (List.prefix_refl _)

theorem DumpInv.restart (h : DumpInv cfg s) (d : KmsgDumper) : DumpInv cfg (s.restart d) where
  log := h.log
  clear := h.clear
  cur_le := h.clear.le_next
  curIdx _ := h.clear.idx
  exact := ⟨h.log.nextSeq_eq.le, by simp [DumpSystem.restart]⟩

theorem DumpInv.getLine (h : DumpInv cfg s) (printkTime syslog : Bool) (size : Nat) (result : Bool × List UInt8) :
    DumpInv cfg { s with
      dumper := (kmsgDumpGetLine printkTime s.log.log s.dumper syslog size).2.2
      result := result } := by
  obtain ⟨hcur, hidx, hnext⟩ := h.catchUp
  have hmax : (s.dumper.catchUp s.log.log).curSeq ≤ s.log.log.logNextSeq := by
    rw [hcur]
    exact max_le h.cur_le h.first_le_next
  unfold kmsgDumpGetLine
  split
  case isFalse => exact ⟨h.log, h.clear, h.cur_le, h.curIdx, h.exact⟩
  case isTrue =>
    dsimp only
    split
    case isTrue =>
      refine ⟨h.log, h.clear, hmax, fun _ => ?_, ?_⟩
      · show (s.dumper.catchUp s.log.log).curIdx = _
        rw [hidx, ← hcur]
      · unfold DumpSystem.Exact
        rw [hnext]
        exact h.exact
    case isFalse hlt =>
      refine ⟨h.log, h.clear, ?_, fun _ => ?_, ?_⟩
      · show (s.dumper.catchUp s.log.log).curSeq + 1 ≤ s.log.log.logNextSeq
        omega
      · show logNext s.log.log.logBuf (s.dumper.catchUp s.log.log).curIdx =
          s.log.log.indexOfSeq ((s.dumper.catchUp s.log.log).curSeq + 1)
        rw [hidx, hcur, logNext_indexOfSeq (le_max_right _ _)]
      · unfold DumpSystem.Exact
        dsimp only
        rw [hnext]
        exact h.exact

theorem DumpInv.getsBuffer (h : DumpInv cfg s) (hlen : cfg.logBufLen ≤ 2 ^ 27) {printkTime syslog : Bool} {size : Nat}
    (hstep : dumpStep cfg s (.getBuffer printkTime syslog size) = some s') :
    s.GetsBuffer printkTime syslog size s' ∧ DumpInv cfg s' := by
  obtain rfl := Option.some.inj hstep
  cases hactive : s.dumper.active with
  | false =>
    have hr : kmsgDumpGetBuffer printkTime s.log.log s.dumper syslog size = (false, [], s.dumper) := by
      unfold kmsgDumpGetBuffer
      rw [if_neg (by rw [hactive]; exact Bool.false_ne_true)]
    rw [hr]
    refine ⟨⟨⟨fun hfalse => absurd hfalse Bool.false_ne_true, fun hand => ?_⟩, fun htrue => ?_⟩, ?_⟩
    · rw [hactive] at hand
      exact absurd hand.1 Bool.false_ne_true
    · rw [hactive] at htrue
      cases htrue
    · simpa using ⟨h.log, h.clear, h.cur_le, h.curIdx, h.exact⟩
  | true =>
    obtain ⟨hresult, htext, hnext, hcur, hidx⟩ := h.getBuffer hlen hactive printkTime syslog size
    have hfit := isLastFit_lastFit (w := Msg.syslogSize printkTime) size s.available
    obtain ⟨hle, hdrop⟩ := h.stored_drop hfit.suffix
    obtain ⟨hmodes, hexact⟩ := h.exact
    generalize kmsgDumpGetBuffer printkTime s.log.log s.dumper syslog size = r at *
    generalize lastFit (Msg.syslogSize printkTime) size s.available = block at *
    have hlength : r.2.1.length ≤ size := by
      rw [htext]
      refine (length_flatMap_print_le block syslog printkTime).trans ?_
      by_cases hnil : block = []
      · rw [hnil]
        exact Nat.zero_le _
      · exact (hfit.below hnil).le
    have hread : s.dumper.nextSeq - r.2.2.nextSeq = block.length := by omega
    refine ⟨⟨?_, fun _ => ⟨block, hfit, htext, hlength, ?_⟩⟩, h.log, h.clear, ?_, fun _ => ?_, ?_, ?_⟩
    · rw [hresult, hactive]
      exact (and_iff_right rfl).symm
    · show r.2.2.nextSeq + block.length = s.dumper.nextSeq
      omega
    · show r.2.2.curSeq ≤ s.log.log.logNextSeq
      rw [hcur, h.catchUp.1]
      exact max_le h.cur_le h.first_le_next
    · show r.2.2.curIdx = s.log.log.indexOfSeq r.2.2.curSeq
      rw [hidx, hcur, h.catchUp.2.1, h.catchUp.1]
    · show r.2.2.nextSeq + (List.replicate _ _ ++ s.modes).length ≤ s.log.stored.length
      rw [List.length_append, List.length_replicate, hread]
      omega
    · show r.2.1 ++ s.text = (List.zipWith Msg.printAs (s.log.stored.drop r.2.2.nextSeq)
        (List.replicate _ _ ++ s.modes)).flatten
      rw [hread, hnext, hdrop, List.zipWith_append (by rw [List.length_replicate]), List.flatten_append,
        zipWith_printAs_replicate, ← hexact, htext]

/-- What a step of the dump guarantees. -/
def DumpGuarantee (cfg : LogConfig) (s : DumpSystem) (e : DumpEvent cfg) (s' : DumpSystem) : Prop :=
  s'.Exact ∧ ∀ printkTime syslog size, e = .getBuffer printkTime syslog size →
    s.GetsBuffer printkTime syslog size s'

theorem dumpInv_step (hlen : cfg.logBufLen ≤ 2 ^ 27) {e : DumpEvent cfg} (h : DumpInv cfg s)
    (hstep : dumpStep cfg s e = some s') :
    DumpGuarantee cfg s e s' ∧ DumpInv cfg s' := by
  have hother (hinv : DumpInv cfg s') (hne : ∀ printkTime syslog size,
      e ≠ .getBuffer printkTime syslog size) : DumpGuarantee cfg s e s' ∧ DumpInv cfg s' :=
    ⟨⟨hinv.exact, fun _ _ _ heq => absurd heq (hne _ _ _)⟩, hinv⟩
  cases e with
  | store e =>
    unfold dumpStep at hstep
    obtain ⟨log, hlog, rfl⟩ := Option.map_eq_some_iff.mp hstep
    exact hother (h.store hlog) fun _ _ _ => nofun
  | clear =>
    obtain rfl := Option.some.inj hstep
    exact hother h.clearLog fun _ _ _ => nofun
  | dump =>
    obtain rfl := Option.some.inj hstep
    exact hother (h.restart _) fun _ _ _ => nofun
  | rewind =>
    obtain rfl := Option.some.inj hstep
    exact hother (h.restart _) fun _ _ _ => nofun
  | getLine printkTime syslog size =>
    obtain rfl := Option.some.inj hstep
    exact hother (h.getLine printkTime syslog size _) fun _ _ _ => nofun
  | getBuffer printkTime syslog size =>
    obtain ⟨hgets, hinv⟩ := h.getsBuffer hlen hstep
    refine ⟨⟨hinv.exact, fun _ _ _ heq => ?_⟩, hinv⟩
    obtain ⟨rfl, rfl, rfl⟩ := DumpEvent.getBuffer.inj heq
    exact hgets
  | done =>
    obtain rfl := Option.some.inj hstep
    exact hother ⟨h.log, h.clear, h.cur_le, h.curIdx, h.exact⟩ fun _ _ _ => nofun

end System

end Am437x.Printk
