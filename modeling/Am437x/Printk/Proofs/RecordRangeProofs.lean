import Am437x.Printk.RecordRange
import Am437x.Printk.Proofs.LogBufferProofs

/-!
# What the loops over the records find

From the index of a sequence number on, a reader finds the records stored from that number on. The index
that `syslog_clear` remembers stays the index of its sequence number.
-/

namespace Am437x.Printk

open Flat LastFit Ring

variable {cfg : LogConfig} {logBuf : Memory UInt8} {s : LogBuf} {m : Msg} {ms : List Msg} {idx : Nat}

/-! ## The length of the texts -/

theorem length_decimal_le {n k : Nat} (hk : 0 < k) (h : n < 10 ^ k) : (decimal n).length ≤ k := by
  rw [decimal, List.length_map]
  exact (Nat.length_toDigits_le_iff (by decide) hk).mpr h

theorem length_printSyslog_le (m : Msg) :
    (printSyslog (m.facility.toNat <<< 3 ||| m.level.toNat)).length ≤ 6 := by
  have hfacility : m.facility.toNat <<< 3 < 2 ^ 11 := by
    rw [Nat.shiftLeft_eq]
    have hlt := m.facility.isLt
    omega
  have hlevel : m.level.toNat < 2 ^ 11 := m.level.isLt.trans (by decide)
  have hlt := Nat.or_lt_two_pow hfacility hlevel
  have hdigits := length_decimal_le (k := 4) (by decide) (hlt.trans (by decide))
  simp only [printSyslog, List.length_append, List.length_singleton]
  omega

theorem length_printTime_le (ts : BitVec 64) : (printTime ts).length ≤ 19 := by
  have hsec : ts.toNat / 1000000000 % 2 ^ 32 < 10 ^ 10 := by omega
  have husec : ts.toNat % 1000000000 / 1000 < 10 ^ 6 := by omega
  have hsecDigits := length_decimal_le (by decide) hsec
  have husecDigits := length_decimal_le (by decide) husec
  simp only [printTime, List.length_append, List.length_singleton, List.length_leftpad]
  omega

theorem length_printPrefix_le (m : Msg) (time : Bool) : (printPrefix m true time).length ≤ 26 := by
  have hsyslog := length_printSyslog_le m
  have htime := length_printTime_le m.tsNsec
  cases time
  · simp only [printPrefix, if_true, Bool.false_eq_true, if_false, List.append_nil]
    omega
  · simp only [printPrefix, if_true, List.length_append, List.length_singleton]
    omega

/-- A text has one newline less than lines. -/
theorem sum_length_splitOn (text : List UInt8) :
    ((text.splitOn newline).map fun line => line.length + 1).sum = text.length + 1 := by
  induction text with
  | nil => rfl
  | cons b text ih =>
    obtain ⟨line, rest, hlines⟩ := List.exists_cons_of_ne_nil (List.splitOn_ne_nil newline text)
    rw [List.splitOn_cons_eq_if_modifyHead]
    rw [hlines] at ih ⊢
    simp only [List.map_cons, List.sum_cons] at ih
    split
    · simp only [List.map_cons, List.sum_cons, List.length_nil, List.length_cons]
      omega
    · simp only [List.modifyHead_cons, List.map_cons, List.sum_cons, List.length_cons]
      omega

/-- A prefix has at most 26 bytes, so that no byte of a record is printed as more than 27. -/
theorem syslogSize_le (cfg : LogConfig) (m : Msg) (time : Bool) : m.syslogSize time ≤ 27 * m.size cfg := by
  have hprefix := length_printPrefix_le m time
  calc m.syslogSize time
    _ ≤ (m.lines.map fun line => 27 * (line.length + 1)).sum :=
        List.sum_le_sum fun line _ => by omega
    _ = 27 * (m.text.length + 1) := by
        rw [List.sum_map_mul_left, Msg.lines, sum_length_splitOn]
    _ ≤ 27 * m.size cfg := by
        rw [size_eq, sizeofPrintkLog]
        omega

/-- The records in the buffer take no more than the buffer. -/
theorem BufInv.total_le (h : BufInv cfg s ms) : total (Msg.size cfg) ms ≤ cfg.logBufLen := by
  obtain ⟨⟨front, back, rfl, hchain⟩, -, -⟩ := h
  rw [total_append]
  by_cases hnil : back = []
  · obtain ⟨hnext, hend⟩ := hchain.straight hnil
    rw [hnil, total_nil]
    omega
  · obtain ⟨hnext, hfirst, hend, -⟩ := hchain.wrapped hnil
    omega

theorem weight_syslogSize_le (cfg : LogConfig) (time : Bool) (ms : List Msg) :
    weight (Msg.syslogSize time) ms ≤ 27 * total (Msg.size cfg) ms := by
  rw [weight, total, ← List.sum_map_mul_left]
  exact List.sum_le_sum fun m _ => syslogSize_le cfg m time

theorem LenType.assign_of_le (ty : LenType) {x : Nat} (h : x ≤ 27 * ty.maxLogBufLen) : ty.assign x = x := by
  cases ty with
  | int =>
    have hlt : x < 2 ^ 31 := h.trans_lt (by norm_num [maxLogBufLen])
    simp only [assign]
    rw [Int.bmod_eq_of_le_mul_two]
    · push_cast
      omega
    · push_cast
      omega
  | sizeT =>
    have hlt : x < 2 ^ 32 := h.trans_lt (by norm_num [maxLogBufLen])
    simp only [assign]
    omega

/-- Texts with a length that a variable of the type holds. -/
def Counted (ty : LenType) (time : Bool) (ms : List Msg) : Prop :=
  weight (Msg.syslogSize time) ms ≤ 27 * ty.maxLogBufLen

/-- The texts of records that are in the buffer, when it is not too large. -/
theorem BufInv.counted (h : BufInv cfg s ms) (ty : LenType) (hlen : cfg.logBufLen ≤ ty.maxLogBufLen)
    {ms' : List Msg} (hsub : ms'.Sublist ms) (time : Bool) : Counted ty time ms' :=
  calc weight (Msg.syslogSize time) ms'
    _ ≤ weight (Msg.syslogSize time) ms := (hsub.map _).sum_le_sum fun _ _ => Nat.zero_le _
    _ ≤ 27 * total (Msg.size cfg) ms := weight_syslogSize_le cfg time ms
    _ ≤ 27 * cfg.logBufLen := Nat.mul_le_mul_left 27 h.total_le
    _ ≤ 27 * ty.maxLogBufLen := Nat.mul_le_mul_left 27 hlen

/-! ## The loops -/

variable {ty : LenType}

theorem RecordsAt.of_append {ms' : List Msg} (h : RecordsAt logBuf idx (ms ++ ms')) :
    RecordsAt logBuf idx ms := by
  induction ms generalizing idx with
  | nil => trivial
  | cons m ms ih => exact ⟨h.1, ih h.2⟩

theorem RecordsAt.take (h : RecordsAt logBuf idx ms) (n : Nat) : RecordsAt logBuf idx (ms.take n) := by
  rw [← List.take_append_drop n ms] at h
  exact h.of_append

theorem RecordsAt.textSizes_eq (h : RecordsAt logBuf idx ms) (time : Bool) {len : Nat}
    (hlen : len + weight (Msg.syslogSize time) ms ≤ 27 * ty.maxLogBufLen) :
    textSizes ty logBuf time ms.length len idx = (len + weight (Msg.syslogSize time) ms : Nat) := by
  induction ms generalizing idx len with
  | nil => rfl
  | cons m ms ih =>
    obtain ⟨hm, hms⟩ := h
    rw [weight_cons, ← Nat.add_assoc] at hlen ⊢
    have hassign : ty.assign (len + msgPrintSize m true time) = (len + m.syslogSize time : Nat) := by
      rw [← ty.assign_of_le ((Nat.le_add_right _ _).trans hlen), Nat.cast_add]
      rfl
    rw [List.length_cons, textSizes, hm, hassign]
    exact ih hms hlen

theorem RecordsAt.moveFirst_eq (h : RecordsAt logBuf idx ms) (time : Bool) (limit : Nat)
    (hcounted : Counted ty time ms) :
    (moveFirst ty logBuf time limit ms.length (weight (Msg.syslogSize time) ms : Nat) idx).1 =
        (lastFit (Msg.syslogSize time) limit ms).length ∧
      RecordsAt logBuf (moveFirst ty logBuf time limit ms.length (weight (Msg.syslogSize time) ms : Nat) idx).2
        (lastFit (Msg.syslogSize time) limit ms) := by
  induction ms generalizing idx with
  | nil => exact ⟨rfl, trivial⟩
  | cons m ms ih =>
    obtain ⟨hm, hms⟩ := h
    rw [Counted, weight_cons] at hcounted
    have hrest : ty.assign ((weight (Msg.syslogSize time) (m :: ms) : Nat) - msgPrintSize m true time) =
        (weight (Msg.syslogSize time) ms : Nat) := by
      rw [← ty.assign_of_le ((Nat.le_add_left _ _).trans hcounted), weight_cons, Nat.cast_add]
      exact congrArg ty.assign (add_sub_cancel_left (m.syslogSize time : Int) _)
    rw [List.length_cons, moveFirst, lastFit, hm, hrest]
    simp only [Nat.cast_le]
    split
    case isTrue => exact ih hms ((Nat.le_add_left _ _).trans hcounted)
    case isFalse => exact ⟨rfl, hm, hms⟩

theorem moveFirst_idx (ty : LenType) (time : Bool) (limit n : Nat) (len : Int) {seq : Nat}
    (hle : s.logFirstSeq ≤ seq) :
    (moveFirst ty s.logBuf time limit n len (s.indexOfSeq seq)).1 ≤ n ∧
      (moveFirst ty s.logBuf time limit n len (s.indexOfSeq seq)).2 =
        s.indexOfSeq (seq + n - (moveFirst ty s.logBuf time limit n len (s.indexOfSeq seq)).1) := by
  induction n generalizing seq len with
  | zero => exact ⟨le_rfl, rfl⟩
  | succ n ih =>
    rw [moveFirst]
    split
    case isTrue =>
      rw [logNext_indexOfSeq hle]
      obtain ⟨hcount, hidx⟩ := ih (ty.assign (len - msgPrintSize _ true time)) (Nat.le_succ_of_le hle)
      refine ⟨Nat.le_succ_of_le hcount, hidx.trans ?_⟩
      rw [Nat.add_right_comm seq 1 n, Nat.add_assoc seq n 1]
    case isFalse => exact ⟨le_rfl, by rw [Nat.add_sub_cancel]⟩

theorem firstThatFits_idx (ty : LenType) (time : Bool) (limit n : Nat) {seq : Nat}
    (hle : s.logFirstSeq ≤ seq) :
    (firstThatFits ty s.logBuf time limit n (s.indexOfSeq seq)).1 ≤ n ∧
      (firstThatFits ty s.logBuf time limit n (s.indexOfSeq seq)).2 =
        s.indexOfSeq (seq + n - (firstThatFits ty s.logBuf time limit n (s.indexOfSeq seq)).1) :=
  moveFirst_idx ty time limit n _ hle

/-- The two loops find the longest suffix of the records that is below the limit. -/
theorem RecordsAt.firstThatFits_eq (h : RecordsAt logBuf idx ms) (time : Bool) (limit : Nat)
    (hcounted : Counted ty time ms) :
    (firstThatFits ty logBuf time limit ms.length idx).1 =
        (lastFit (Msg.syslogSize time) limit ms).length ∧
      RecordsAt logBuf (firstThatFits ty logBuf time limit ms.length idx).2
        (lastFit (Msg.syslogSize time) limit ms) := by
  have hsizes : textSizes ty logBuf time ms.length (0 : Nat) idx =
      (0 + weight (Msg.syslogSize time) ms : Nat) :=
    h.textSizes_eq time ((Nat.zero_add _).trans_le hcounted)
  rw [Nat.zero_add] at hsizes
  unfold firstThatFits
  rw [show (0 : Int) = (0 : Nat) from rfl, hsizes]
  exact h.moveFirst_eq time limit hcounted

theorem BufInv.recordsAt (h : BufInv cfg s ms) {seq : Nat} (hle : s.logFirstSeq ≤ seq) :
    RecordsAt s.logBuf (s.indexOfSeq seq) (ms.drop (seq - s.logFirstSeq)) := by
  induction hrest : ms.drop (seq - s.logFirstSeq) generalizing seq with
  | nil => trivial
  | cons m rest ih =>
    have hget : ms[seq - s.logFirstSeq]? = some m := by
      rw [← List.head?_drop, hrest]
      rfl
    refine ⟨h.msgAt_eq hget, ?_⟩
    rw [logNext_indexOfSeq hle]
    refine ih (Nat.le_succ_of_le hle) ?_
    rw [Nat.succ_sub hle, ← List.tail_drop, hrest]
    rfl

/-- From a sequence number on, the records stored are found. -/
theorem LogInv.recordsAt {s : LogSystem} (h : LogInv cfg s) {seq : Nat} (hle : s.log.logFirstSeq ≤ seq) :
    RecordsAt s.log.logBuf (s.log.indexOfSeq seq) (s.stored.drop seq) := by
  have hfound := h.buf.recordsAt hle
  rwa [List.drop_drop, Nat.add_sub_cancel' hle] at hfound

/-- The texts of records from a number on, as long as these are in the buffer and it is not too large. -/
theorem LogInv.counted {s : LogSystem} (h : LogInv cfg s) (ty : LenType)
    (hlen : cfg.logBufLen ≤ ty.maxLogBufLen) {seq : Nat} (hle : s.log.logFirstSeq ≤ seq) {ms : List Msg} (hsub : ms.Sublist (s.stored.drop seq)) (time : Bool) :
    Counted ty time ms :=
  h.buf.counted ty hlen (hsub.trans (List.drop_sublist_drop_left _ hle)) time

/-! ## Texts printed one behind the other -/

/-- The texts of the records before a record, and that record's. -/
theorem zipWith_append_singleton {α β γ : Type*} (f : α → β → γ) {xs : List α} {ys : List β} {x : α}
    (h : xs[ys.length]? = some x) (y : β) :
    List.zipWith f xs (ys ++ [y]) = List.zipWith f xs ys ++ [f x y] := by
  induction ys generalizing xs with
  | nil =>
    cases xs with
    | nil => simp at h
    | cons a xs =>
      obtain rfl : a = x := by simpa using h
      simp
  | cons b ys ih =>
    cases xs with
    | nil => simp at h
    | cons a xs => simp [ih (show xs[ys.length]? = some x by simpa using h)]

theorem zipWith_append_left {α β γ : Type*} (f : α → β → γ) {xs : List α} (zs : List α) {ys : List β}
    (h : ys.length ≤ xs.length) : List.zipWith f (xs ++ zs) ys = List.zipWith f xs ys := by
  induction ys generalizing xs with
  | nil => simp
  | cons y ys ih =>
    cases xs with
    | nil => simp at h
    | cons x xs => simp [ih (show ys.length ≤ xs.length by simpa using h)]

/-! ## The last clear -/

theorem BufInv.indexOfSeq_next (h : BufInv cfg s ms) : s.indexOfSeq s.logNextSeq = s.logNextIdx := by
  obtain ⟨⟨front, back, rfl, hchain⟩, hseqs, -⟩ := h
  unfold LogBuf.indexOfSeq
  rw [hseqs, Nat.add_sub_cancel_left, hchain.iterate_logNext le_rfl, List.length_append]
  unfold indexOf
  by_cases hnil : back = []
  · subst hnil
    rw [List.length_nil, Nat.add_zero, if_pos le_rfl, List.take_length]
    exact (hchain.straight rfl).1.symm
  · have hpos := List.length_pos_iff.mpr hnil
    rw [if_neg (by omega), Nat.add_sub_cancel_left, List.take_length]
    exact (hchain.wrapped hnil).1.symm

/-- The records since the last clear begin at `clear_idx`. -/
structure ClearInv (s : LogBuf) : Prop where
  first_le : s.logFirstSeq ≤ s.clearSeq
  le_next : s.clearSeq ≤ s.logNextSeq
  idx : s.clearIdx = s.indexOfSeq s.clearSeq

theorem clearInv_start (logBuf : Memory UInt8) : ClearInv (.start logBuf) := ⟨le_rfl, le_rfl, rfl⟩

theorem clearInv_syslogClear (h : BufInv cfg s ms) :
    ClearInv { s with clearSeq := s.logNextSeq, clearIdx := s.logNextIdx } where
  first_le := by
    rw [h.seqs]
    exact Nat.le_add_right _ _
  le_next := le_rfl
  idx := h.indexOfSeq_next.symm

theorem dropOld_clear (cfg : LogConfig) (msgSize n : Nat) (s : LogBuf) :
    (dropOld cfg msgSize n s).clearSeq = s.clearSeq ∧ (dropOld cfg msgSize n s).clearIdx = s.clearIdx := by
  induction n generalizing s with
  | zero => exact ⟨rfl, rfl⟩
  | succ n ih =>
    rw [dropOld]
    split
    · exact ih _
    · exact ⟨rfl, rfl⟩

theorem ClearInv.logMakeFreeSpace (h : ClearInv s) (hbuf : BufInv cfg s ms) (msgSize : Nat) :
    ClearInv (Printk.logMakeFreeSpace cfg msgSize s).2 := by
  obtain ⟨k, hk, hdropped, -⟩ := dropOld_dropped msgSize hbuf
  have hseqs := hbuf.seqs
  have hle := h.le_next
  unfold Printk.logMakeFreeSpace
  dsimp only
  rw [hbuf.turns]
  have hclear := dropOld_clear cfg msgSize ms.length s
  generalize dropOld cfg msgSize ms.length s = t at hdropped hclear ⊢
  have hfirst := hdropped.firstSeq
  have hnext := hdropped.nextSeq
  unfold LogBuf.advanceClear
  split
  case isTrue => exact ⟨le_rfl, by show t.logFirstSeq ≤ t.logNextSeq; omega, by simp [LogBuf.indexOfSeq]⟩
  case isFalse hge =>
    refine ⟨not_lt.mp hge, by omega, ?_⟩
    rw [hclear.2, hclear.1, hdropped.indexOfSeq (by omega)]
    exact h.idx

theorem ClearInv.fillMsg (h : ClearInv s) (hbuf : BufInv cfg s ms)
    (hspace : LogbufHasSpace cfg s (m.size cfg) (ms = [])) (hsize : m.size cfg < 2 ^ 16) :
    ClearInv (Printk.fillMsg cfg m s) := by
  obtain ⟨-, hindices, -⟩ := hbuf.fillMsg hspace hsize
  obtain ⟨hfirst, hnext⟩ := fillMsg_seqs cfg m s
  have hclear : (Printk.fillMsg cfg m s).clearSeq = s.clearSeq ∧
      (Printk.fillMsg cfg m s).clearIdx = s.clearIdx := by
    unfold Printk.fillMsg
    dsimp only
    split <;> exact ⟨rfl, rfl⟩
  refine ⟨?_, ?_, ?_⟩
  · rw [hfirst, hclear.1]
    exact h.first_le
  · rw [hnext, hclear.1]
    exact h.le_next.trans (Nat.le_succ _)
  · rw [hclear.2, hclear.1, hindices _ h.le_next]
    exact h.idx

theorem ClearInv.makeRoom (h : ClearInv s) (hbuf : BufInv cfg s ms) (e : LogEntry) :
    ClearInv (Printk.makeRoom cfg s e).2 := by
  have hfirst := h.logMakeFreeSpace hbuf (e.full.size cfg)
  obtain ⟨k, -, -, hbuf', -⟩ := logMakeFreeSpace_dropped (e.full.size cfg) hbuf
  unfold Printk.makeRoom
  dsimp only
  split
  · exact hfirst
  · exact hfirst.logMakeFreeSpace hbuf' _

theorem ClearInv.logStore (h : ClearInv s) (hbuf : BufInv cfg s ms) {e : LogEntry} (hsized : e.Sized cfg) :
    ClearInv (Printk.logStore cfg s e).2 := by
  have hclear := h.makeRoom hbuf e
  obtain ⟨k, hmade⟩ := makeRoom_made hbuf e
  unfold Printk.logStore
  rcases hroom : Printk.makeRoom cfg s e with ⟨_ | m, t⟩
  · rw [hroom] at hclear
    exact hclear
  · rw [hroom] at hclear hmade
    exact hclear.fillMsg hmade.inv (hmade.hasSpace m rfl) (hmade.size_lt hsized rfl)

end Am437x.Printk
