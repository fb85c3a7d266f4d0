import Am437x.Printk.Devkmsg
import Am437x.Printk.Proofs.RecordRangeProofs

/-!
# A reader of `/dev/kmsg` knows what it has missed

Each record from the place of the last seek on is read, refused or reported as gone, in the order of the
sequence numbers.
-/

namespace Am437x.Printk

open Runs

variable {cfg : LogConfig} {size : Nat} {stored : List Msg} {m : Msg}

/-! ## What the outcomes tell -/

theorem Tells.append {os os' : List Outcome} {seq seq' seq'' : Nat} (h : Tells size stored seq os seq')
    (h' : Tells size stored seq' os' seq'') : Tells size stored seq (os ++ os') seq'' := by
  induction os generalizing seq with
  | nil =>
    obtain rfl := h
    exact h'
  | cons o os ih => cases o with
    | read bytes => exact ⟨h.1, ih h.2⟩
    | failed error => exact ⟨h.1, ih h.2⟩
    | gone n => exact ⟨h.1, ih h.2⟩

/-- Records stored later change nothing of it. -/
theorem Tells.of_prefix {os : List Outcome} {seq seq' : Nat} {new : List Msg}
    (h : Tells size stored seq os seq') : Tells size (stored ++ new) seq os seq' := by
  induction os generalizing seq with
  | nil => exact h
  | cons o os ih => cases o with
    | read bytes =>
      obtain ⟨⟨m, hm, hbytes⟩, hrest⟩ := h
      refine ⟨⟨m, ?_, hbytes⟩, ih hrest⟩
      rw [List.getElem?_append_left (List.getElem?_eq_some_iff.mp hm).1]
      exact hm
    | failed error =>
      obtain ⟨hlt, hrest⟩ := h
      refine ⟨?_, ih hrest⟩
      rw [List.length_append]
      exact hlt.trans_le (Nat.le_add_right _ _)
    | gone n => exact ⟨h.1, ih h.2⟩

/-! ## The invariant -/

/-- The reader is at a record in the buffer unless it has been dropped. -/
structure DevkmsgInv (cfg : LogConfig) (size : Nat) (s : DevkmsgSystem) : Prop where
  log : LogInv cfg s.log
  clear : ClearInv s.log.log
  seq_le : s.user.seq ≤ s.log.log.logNextSeq
  idx : s.log.log.logFirstSeq ≤ s.user.seq → s.user.idx = s.log.log.indexOfSeq s.user.seq
  tells : Tells size s.log.stored s.startSeq s.outcomes s.user.seq

section System

variable {s s' : DevkmsgSystem}

theorem devkmsgInv_start (cfg : LogConfig) (size : Nat) (logBuf : Flat.Memory UInt8) :
    DevkmsgInv cfg size (.start logBuf) where
  log := logInv_start cfg logBuf
  clear := clearInv_start logBuf
  seq_le := le_rfl
  idx _ := rfl
  tells := rfl

theorem DevkmsgInv.store (h : DevkmsgInv cfg size s) {e : SizedEntry cfg} {log : LogSystem}
    (hstep : logStep cfg s.log e = some log) : DevkmsgInv cfg size { s with log := log } := by
  have hlog := logInv_step h.log hstep
  obtain ⟨k, hst⟩ := logStore_stored h.log.buf e.property
  have hclear := h.clear.logStore h.log.buf e.property
  obtain rfl := Option.some.inj hstep
  refine ⟨hlog, hclear, ?_, fun hfirst => ?_, h.tells.of_prefix⟩
  · show s.user.seq ≤ (logStore cfg s.log.log e.val).2.logNextSeq
    rw [hst.nextSeq]
    exact h.seq_le.trans (Nat.le_add_right _ _)
  · show s.user.idx = (logStore cfg s.log.log e.val).2.indexOfSeq s.user.seq
    change (logStore cfg s.log.log e.val).2.logFirstSeq ≤ s.user.seq at hfirst
    rw [hst.firstSeq] at hfirst
    rw [hst.indices _ hfirst h.seq_le]
    exact h.idx ((Nat.le_add_right _ _).trans hfirst)

/-- A seek to a place in the buffer. -/
theorem DevkmsgInv.seek (h : DevkmsgInv cfg size s) {user : DevkmsgUser}
    (hle : user.seq ≤ s.log.log.logNextSeq) (hidx : user.idx = s.log.log.indexOfSeq user.seq) :
    DevkmsgInv cfg size { s with user := user, startSeq := user.seq, outcomes := [] } where
  log := h.log
  clear := h.clear
  seq_le := hle
  idx _ := hidx
  tells := rfl

theorem DevkmsgInv.llseek (h : DevkmsgInv cfg size s) (offset : Int) (whence : Whence) :
    DevkmsgInv cfg size
      (if (devkmsgLlseek s.log.log s.user offset whence).2 = 0 then
        { s with
          user := (devkmsgLlseek s.log.log s.user offset whence).1
          startSeq := (devkmsgLlseek s.log.log s.user offset whence).1.seq
          outcomes := [] }
      else s) := by
  have hfirst : s.log.log.logFirstSeq ≤ s.log.log.logNextSeq := h.clear.first_le.trans h.clear.le_next
  split
  case isFalse => exact h
  case isTrue hok =>
    unfold devkmsgLlseek at hok ⊢
    by_cases hoffset : offset ≠ 0
    · rw [if_pos hoffset] at hok
      cases hok
    · rw [if_neg hoffset] at hok ⊢
      cases whence with
      | seekSet => exact h.seek hfirst (by simp [LogBuf.indexOfSeq])
      | seekData => exact h.seek h.clear.le_next h.clear.idx
      | seekEnd => exact h.seek le_rfl h.log.buf.indexOfSeq_next.symm
      | other => cases hok

/-! ## A read -/

theorem devkmsgRead_there (size : Nat) {log : LogBuf} {user : DevkmsgUser} (hne : user.seq ≠ log.logNextSeq)
    (hge : log.logFirstSeq ≤ user.seq) (hm : msgAt log.logBuf (logFromIdx log.logBuf user.idx) = m)
    (count : Nat) (fault : Bool) :
    (devkmsgRead size log user count fault).1 =
        { seq := user.seq + 1, idx := logNext log.logBuf user.idx } ∧
      ((devkmsgRead size log user count fault).2 =
          (msgPrintExt size m user.seq, ((msgPrintExt size m user.seq).length : Int)) ∧
          (msgPrintExt size m user.seq).length ≤ count ∧ fault = false ∨
        (devkmsgRead size log user count fault).2 = ([], -eInval) ∧
          count < (msgPrintExt size m user.seq).length ∨
        (devkmsgRead size log user count fault).2 = ([], -eFault) ∧ fault = true) := by
  unfold devkmsgRead
  rw [if_neg hne, if_neg (not_lt.mpr hge), hm]
  dsimp only
  generalize msgPrintExt size m user.seq = text
  by_cases hcount : count < text.length
  · rw [if_pos hcount]
    exact ⟨rfl, Or.inr (Or.inl ⟨rfl, hcount⟩)⟩
  · rw [if_neg hcount]
    cases fault
    · exact ⟨rfl, Or.inl ⟨rfl, not_lt.mp hcount, rfl⟩⟩
    · exact ⟨rfl, Or.inr (Or.inr ⟨rfl, rfl⟩)⟩

theorem outcomeOf_read (log : LogBuf) (seq : Nat) (bytes : List UInt8) :
    outcomeOf log seq bytes (bytes.length : Int) = [.read bytes] := by
  have hnonneg : (0 : Int) ≤ bytes.length := Int.natCast_nonneg _
  unfold outcomeOf eAgain ePipe
  rw [if_neg (by omega), if_neg (by omega), if_neg (by omega)]

theorem DevkmsgInv.read (h : DevkmsgInv cfg size s) {count : Nat} {fault : Bool}
    (hstep : devkmsgStep cfg size s (.read count fault) = some s') :
    s.Reads size count fault s' ∧ DevkmsgInv cfg size s' := by
  obtain rfl := Option.some.inj hstep
  have hle := h.seq_le
  have hfirst : s.log.log.logFirstSeq ≤ s.log.log.logNextSeq := h.clear.first_le.trans h.clear.le_next
  by_cases hnext : s.user.seq = s.log.log.logNextSeq
  · -- everything has been read
    have hread : devkmsgRead size s.log.log s.user count fault = (s.user, [], -eAgain) := if_pos hnext
    have hpoll : devkmsgPoll s.log.log s.user = (false, false) := if_neg (not_lt.mpr hnext.ge)
    have hsame : { s with outcomes := s.outcomes ++ outcomeOf s.log.log s.user.seq [] (-eAgain) } = s := by
      show { s with outcomes := s.outcomes ++ [] } = s
      rw [List.append_nil]
    rw [hread]
    dsimp only
    rw [hsame]
    refine ⟨⟨fun _ => rfl, fun hgone => ?_, fun hthere => ?_⟩, h⟩
    · rw [hpoll] at hgone
      cases hgone
    · rw [hpoll] at hthere
      cases hthere
  have hlt : s.user.seq < s.log.log.logNextSeq := lt_of_le_of_ne hle hnext
  by_cases hgone : s.user.seq < s.log.log.logFirstSeq
  · have hread : devkmsgRead size s.log.log s.user count fault =
        ({ seq := s.log.log.logFirstSeq, idx := s.log.log.logFirstIdx }, [], -ePipe) := by
      unfold devkmsgRead
      rw [if_neg hnext, if_pos hgone]
    have hpoll : devkmsgPoll s.log.log s.user = (true, true) := by
      unfold devkmsgPoll
      rw [if_pos hlt, decide_eq_true hgone]
    have hpos : 0 < s.log.log.logFirstSeq - s.user.seq := Nat.sub_pos_of_lt hgone
    rw [hread]
    refine ⟨⟨fun hagain => ?_, fun _ => ⟨rfl, rfl⟩, fun hthere => ?_⟩, h.log, h.clear, hfirst, fun _ => ?_, ?_⟩
    · rw [hpoll] at hagain
      cases hagain
    · rw [hpoll] at hthere
      cases hthere
    · simp [LogBuf.indexOfSeq]
    · refine h.tells.append ⟨hpos, ?_⟩
      exact Nat.add_sub_cancel' hgone.le
  · have hpoll : devkmsgPoll s.log.log s.user = (true, false) := by
      unfold devkmsgPoll
      rw [if_pos hlt, decide_eq_false hgone]
    obtain ⟨m, hm⟩ : ∃ m, s.log.stored[s.user.seq]? = some m := by
      rw [h.log.nextSeq_eq] at hlt
      exact ⟨_, List.getElem?_eq_getElem hlt⟩
    have hge := not_lt.mp hgone
    have hmsg : msgAt s.log.log.logBuf (logFromIdx s.log.log.logBuf s.user.idx) = m := by
      rw [h.idx hge]
      refine h.log.buf.msgAt_eq ?_
      rw [List.getElem?_drop, Nat.add_sub_cancel' hge]
      exact hm
    obtain ⟨huser, hresult⟩ := devkmsgRead_there size hnext hge hmsg count fault
    generalize devkmsgRead size s.log.log s.user count fault = r at *
    obtain ⟨user, result⟩ := r
    obtain rfl : user = _ := huser
    have hinv (o : Outcome) (ho : Tells size s.log.stored s.user.seq [o] (s.user.seq + 1))
        (houtcome : outcomeOf s.log.log s.user.seq result.1 result.2 = [o]) :
        DevkmsgInv cfg size { s with
          user := { seq := s.user.seq + 1, idx := logNext s.log.log.logBuf s.user.idx }
          outcomes := s.outcomes ++ outcomeOf s.log.log s.user.seq result.1 result.2 } := by
      refine ⟨h.log, h.clear, hlt, fun _ => ?_, ?_⟩
      · show logNext s.log.log.logBuf s.user.idx = s.log.log.indexOfSeq (s.user.seq + 1)
        rw [h.idx hge, logNext_indexOfSeq hge]
      · rw [houtcome]
        exact h.tells.append ho
    refine ⟨⟨fun hagain => ?_, fun hgone' => ?_, fun _ => ⟨m, hm, rfl, fun hcount hfault => ?_⟩⟩, ?_⟩
    · rw [hpoll] at hagain
      cases hagain
    · rw [hpoll] at hgone'
      cases hgone'
    · rcases hresult with ⟨rfl, -, -⟩ | ⟨-, hsmall⟩ | ⟨-, htrue⟩
      · exact congrArg (s.outcomes ++ ·) (outcomeOf_read _ _ _)
      · exact absurd hcount (not_le.mpr hsmall)
      · exact absurd (hfault.symm.trans htrue) Bool.false_ne_true
    · rcases hresult with ⟨rfl, -, -⟩ | ⟨rfl, -⟩ | ⟨rfl, -⟩
      · exact hinv (.read _) ⟨⟨m, hm, rfl⟩, rfl⟩ (outcomeOf_read _ _ _)
      · exact hinv (.failed (-eInval)) ⟨(List.getElem?_eq_some_iff.mp hm).1, rfl⟩ rfl
      · exact hinv (.failed (-eFault)) ⟨(List.getElem?_eq_some_iff.mp hm).1, rfl⟩ rfl

theorem devkmsgInv_step {e : DevkmsgEvent cfg} (h : DevkmsgInv cfg size s)
    (hstep : devkmsgStep cfg size s e = some s') :
    DevkmsgInv cfg size s' ∧ ∀ count fault, e = .read count fault → s.Reads size count fault s' := by
  cases e with
  | store e =>
    unfold devkmsgStep at hstep
    obtain ⟨log, hlog, rfl⟩ := Option.map_eq_some_iff.mp hstep
    exact ⟨h.store hlog, fun _ _ => nofun⟩
  | clear =>
    obtain rfl := Option.some.inj hstep
    refine ⟨⟨⟨⟨h.log.buf.chain, h.log.buf.seqs, h.log.buf.aligned⟩, h.log.first_le⟩,
      clearInv_syslogClear h.log.buf, h.seq_le, h.idx, h.tells⟩, fun _ _ => nofun⟩
  | seek offset whence =>
    refine ⟨?_, fun _ _ => nofun⟩
    have hseek := h.llseek offset whence
    unfold devkmsgStep at hstep
    dsimp only at hstep
    rw [← apply_ite some] at hstep
    obtain rfl := Option.some.inj hstep
    exact hseek
  | read count fault =>
    obtain ⟨hreads, hinv⟩ := h.read hstep
    refine ⟨hinv, fun _ _ heq => ?_⟩
    obtain ⟨rfl, rfl⟩ := DevkmsgEvent.read.inj heq
    exact hreads

end System

end Am437x.Printk
