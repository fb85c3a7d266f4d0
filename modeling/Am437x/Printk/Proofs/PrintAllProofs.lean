import Am437x.Printk.PrintAll
import Am437x.Printk.Proofs.SyslogProofs

/-!
# `syslog_print_all` stays inside its buffer

The block that fits is chosen once. Records that are dropped later only make the texts shorter.
-/

namespace Am437x.Printk

open LastFit Runs

variable {cfg : LogConfig} {m : Msg}

theorem printLines_length_le_sum (linePrefix : List UInt8) (size len : Nat) (lines : List (List UInt8)) :
    (printLines linePrefix size len lines).length ≤
      (lines.map fun line => linePrefix.length + line.length + 1).sum := by
  induction lines generalizing len with
  | nil => exact Nat.zero_le _
  | cons line lines ih =>
    rw [printLines]
    split
    · exact Nat.zero_le _
    · have hrest := ih (len + (linePrefix.length + line.length + 1))
      simp only [List.length_append, List.length_singleton, List.map_cons, List.sum_cons]
      omega

theorem syslogText_length_le (m : Msg) (time : Bool) : (m.syslogText time).length ≤ m.syslogSize time :=
  printLines_length_le_sum _ _ _ _

/-- The texts of some records of a block that fits into a buffer fit as well. -/
theorem length_flatMap_syslogText_le {ms block : List Msg} (hsub : ms.Sublist block) (time : Bool) :
    (ms.flatMap (·.syslogText time)).length ≤ weight (Msg.syslogSize time) block := by
  calc (ms.flatMap (·.syslogText time)).length
    _ = (ms.map fun m => (m.syslogText time).length).sum := List.length_flatMap
    _ ≤ weight (Msg.syslogSize time) ms := List.sum_le_sum fun m _ => syslogText_length_le m time
    _ ≤ weight (Msg.syslogSize time) block := (hsub.map _).sum_le_sum fun _ _ => Nat.zero_le _

/-! ## The invariant -/

/-- The block that fits. -/
def PrintAllSystem.block (s : PrintAllSystem) : List Msg :=
  lastFit (Msg.syslogSize s.goal.time) (s.goal.size + 1) s.goal.since

/-- The loop is in front of the record `c.seq`; the records of the block before it have been copied, except
for those that were dropped. -/
structure AtHead (cfg : LogConfig) (s : PrintAllSystem) (c : PrintAllLoop) : Prop where
  log : LogInv cfg s.log
  clear : ClearInv s.log.log
  time : c.time = s.goal.time
  texts : s.out = s.copied.flatMap (·.syslogText s.goal.time)
  firstSeq_le : s.goal.firstSeq ≤ c.seq
  seq_le : c.seq ≤ s.log.log.logNextSeq
  firstSeq_le_next : s.goal.firstSeq ≤ c.nextSeq
  next_le : c.nextSeq ≤ s.log.stored.length
  block_eq : s.block = (s.log.stored.drop s.goal.firstSeq).take (c.nextSeq - s.goal.firstSeq)
  idx : s.log.log.logFirstSeq ≤ c.seq → c.idx = s.log.log.indexOfSeq c.seq
  sublist : s.copied.Sublist (s.block.take (c.seq - s.goal.firstSeq))
  complete : s.log.log.logFirstSeq ≤ s.goal.firstSeq → s.copied = s.block.take (c.seq - s.goal.firstSeq)

/-- The system when the text of a record has been copied. -/
def PrintAllSystem.copy (s : PrintAllSystem) (m : Msg) (time : Bool) : PrintAllSystem :=
  { s with out := s.out ++ m.syslogText time, copied := s.copied ++ [m] }

/-- The invariant of the system. -/
structure PrintAllInv (cfg : LogConfig) (s : PrintAllSystem) : Prop where
  log : LogInv cfg s.log
  clear : ClearInv s.log.log
  prints : s.Prints
  loop : ∀ c m, s.call = some (c, m) → AtHead cfg (s.copy m c.time) c

section System

variable {s s' : PrintAllSystem} {c : PrintAllLoop}

theorem isLastFit_block (s : PrintAllSystem) :
    IsLastFit (Msg.syslogSize s.goal.time) (s.goal.size + 1) s.goal.since s.block :=
  isLastFit_lastFit _ _

theorem weight_block_le (s : PrintAllSystem) : weight (Msg.syslogSize s.goal.time) s.block ≤ s.goal.size := by
  by_cases hnil : s.block = []
  · rw [hnil]
    exact Nat.zero_le _
  · exact Nat.le_of_lt_succ ((isLastFit_block s).below hnil)

theorem printAllInv_start (cfg : LogConfig) (logBuf : Flat.Memory UInt8) :
    PrintAllInv cfg (.start logBuf) where
  log := logInv_start cfg logBuf
  clear := clearInv_start logBuf
  prints := ⟨le_rfl, rfl, [], isLastFit_lastFit _ _, List.Sublist.refl _, fun _ _ _ => rfl⟩
  loop _ _ := nofun

/-- What has been copied at the head of the loop. -/
theorem AtHead.prints (h : AtHead cfg s c)
    (hcomplete : s.call = none → 0 ≤ s.result → s.log.log.logFirstSeq ≤ s.goal.firstSeq → s.copied = s.block) :
    s.Prints := by
  have hsub : s.copied.Sublist s.block := h.sublist.trans (List.take_sublist _ _)
  refine ⟨?_, h.texts, s.block, isLastFit_block s, hsub, hcomplete⟩
  rw [h.texts]
  exact (length_flatMap_syslogText_le hsub _).trans (weight_block_le s)

theorem AtHead.length_block (h : AtHead cfg s c) : s.block.length = c.nextSeq - s.goal.firstSeq := by
  have hnext := h.next_le
  rw [h.block_eq, List.length_take, List.length_drop]
  omega

/-- At the head of the loop, the next record is read. -/
theorem AtHead.turn (h : AtHead cfg s c) (hfirst : s.log.log.logFirstSeq ≤ c.seq) (hlt : c.seq < c.nextSeq) :
    ∃ m c', c.turn s.log.log = some (c', m) ∧ AtHead cfg (s.copy m c'.time) c' := by
  have hle := h.firstSeq_le
  have hlen := h.length_block
  have hnext := h.next_le
  obtain ⟨m, hm⟩ : ∃ m, s.log.stored[c.seq]? = some m :=
    ⟨_, List.getElem?_eq_getElem (hlt.trans_le hnext)⟩
  have hmsg : msgAt s.log.log.logBuf (logFromIdx s.log.log.logBuf c.idx) = m := by
    rw [h.idx hfirst]
    refine h.log.buf.msgAt_eq ?_
    rw [List.getElem?_drop, Nat.add_sub_cancel' hfirst]
    exact hm
  have hget : s.block[c.seq - s.goal.firstSeq]? = some m := by
    rw [h.block_eq, List.getElem?_take_of_lt (by omega), List.getElem?_drop, Nat.add_sub_cancel' hle]
    exact hm
  have htake : s.block.take (c.seq + 1 - s.goal.firstSeq) =
      s.block.take (c.seq - s.goal.firstSeq) ++ [m] := by
    rw [Nat.sub_add_comm hle, List.take_add_one, hget]
    rfl
  refine ⟨m, { c with idx := logNext s.log.log.logBuf c.idx, seq := c.seq + 1 }, ?_, h.log, h.clear, h.time, ?_,
    hle.trans (Nat.le_succ _), ?_, h.firstSeq_le_next, hnext, h.block_eq, fun _ => ?_, ?_, fun hkept => ?_⟩
  · unfold PrintAllLoop.turn
    rw [if_pos hlt, hmsg]
  · show s.out ++ m.syslogText c.time = (s.copied ++ [m]).flatMap (·.syslogText s.goal.time)
    rw [List.flatMap_append, ← h.texts, h.time, List.flatMap_singleton]
  · show c.seq + 1 ≤ s.log.log.logNextSeq
    rw [h.log.nextSeq_eq]
    omega
  · show logNext s.log.log.logBuf c.idx = s.log.log.indexOfSeq (c.seq + 1)
    rw [h.idx hfirst, logNext_indexOfSeq hfirst]
  · show (s.copied ++ [m]).Sublist (s.block.take (c.seq + 1 - s.goal.firstSeq))
    rw [htake]
    exact h.sublist.append (List.Sublist.refl [m])
  · show s.copied ++ [m] = s.block.take (c.seq + 1 - s.goal.firstSeq)
    rw [htake, h.complete hkept]

/-- At the end of the loop. -/
theorem AtHead.over (h : AtHead cfg s c) (hge : c.nextSeq ≤ c.seq) :
    s.log.log.logFirstSeq ≤ s.goal.firstSeq → s.copied = s.block := by
  intro hkept
  have hlen := h.length_block
  rw [h.complete hkept, List.take_of_length_le (by omega)]

theorem AtHead.catchUp (h : AtHead cfg s c) :
    AtHead cfg s (c.catchUp s.log.log) ∧ s.log.log.logFirstSeq ≤ (c.catchUp s.log.log).seq := by
  unfold PrintAllLoop.catchUp
  split
  case isTrue hlt =>
    have hle := h.firstSeq_le
    refine ⟨⟨h.log, h.clear, h.time, h.texts, hle.trans hlt.le, ?_, h.firstSeq_le_next, h.next_le,
      h.block_eq, fun _ => by simp [LogBuf.indexOfSeq], ?_, fun hkept => ?_⟩, le_rfl⟩
    · exact h.clear.first_le.trans h.clear.le_next
    · exact h.sublist.trans (List.take_sublist_take_left (Nat.sub_le_sub_right hlt.le _))
    · exact absurd (hle.trans_lt hlt) (not_lt.mpr hkept)
  case isFalse hge => exact ⟨h, not_lt.mp hge⟩

/-- The end of a call. -/
theorem PrintAllInv.finish (h : PrintAllInv cfg s) (clear : Bool) {result : Int}
    (hcomplete : 0 ≤ result → s.log.log.logFirstSeq ≤ s.goal.firstSeq → s.copied = s.block) :
    PrintAllInv cfg { s with
      call := none
      log := if clear then { s.log with log := syslogClear s.log.log } else s.log
      result := result } := by
  obtain ⟨block, hblock, hsub, -⟩ := h.prints.block
  refine ⟨?_, ?_, ⟨h.prints.inside, h.prints.texts, block, hblock, hsub, fun _ hresult hkept => ?_⟩,
    fun _ _ => nofun⟩
  · cases clear
    · exact h.log
    · exact ⟨⟨h.log.buf.chain, h.log.buf.seqs, h.log.buf.aligned⟩, h.log.first_le⟩
  · cases clear
    · exact h.clear
    · exact clearInv_syslogClear h.log.buf
  · obtain rfl := hblock.unique (isLastFit_block s)
    refine hcomplete hresult ?_
    cases clear
    · exact hkept
    · exact hkept

theorem AtHead.enter (h : AtHead cfg s c) (hfirst : s.log.log.logFirstSeq ≤ c.seq) :
    PrintAllInv cfg (s.enter c false) := by
  unfold PrintAllSystem.enter
  rw [if_neg Bool.false_ne_true]
  by_cases hlt : c.seq < c.nextSeq
  · obtain ⟨m, c', hturn, hhead⟩ := h.turn hfirst hlt
    rw [hturn]
    refine ⟨h.log, h.clear, AtHead.prints (c := c) ⟨h.log, h.clear, h.time, h.texts, h.firstSeq_le, h.seq_le,
      h.firstSeq_le_next, h.next_le, h.block_eq, h.idx, h.sublist, h.complete⟩ nofun, fun c₁ m₁ hcall => ?_⟩
    obtain ⟨rfl, rfl⟩ := Prod.mk.inj (Option.some.inj hcall)
    exact ⟨hhead.log, hhead.clear, hhead.time, hhead.texts, hhead.firstSeq_le, hhead.seq_le,
      hhead.firstSeq_le_next, hhead.next_le, hhead.block_eq, hhead.idx, hhead.sublist, hhead.complete⟩
  · have hturn : c.turn s.log.log = none := if_neg hlt
    rw [hturn]
    have hover := h.over (not_lt.mp hlt)
    have hinv : PrintAllInv cfg { s with call := none } :=
      ⟨h.log, h.clear, AtHead.prints (c := c) ⟨h.log, h.clear, h.time, h.texts, h.firstSeq_le, h.seq_le,
        h.firstSeq_le_next, h.next_le, h.block_eq, h.idx, h.sublist, h.complete⟩ fun _ _ => hover, fun _ _ => nofun⟩
    exact hinv.finish c.clear fun _ => hover

/-- Storing records only drops some of the block. -/
theorem AtHead.store (h : AtHead cfg s c) {e : SizedEntry cfg} {log : LogSystem}
    (hstep : logStep cfg s.log e = some log) : AtHead cfg { s with log := log } c := by
  have hlog := logInv_step h.log hstep
  obtain ⟨k, hst⟩ := logStore_stored h.log.buf e.property
  have hclear := h.clear.logStore h.log.buf e.property
  have hnext := h.log.nextSeq_eq
  have hle := h.firstSeq_le
  have hseqs := h.next_le
  have hlen := h.length_block
  obtain rfl := Option.some.inj hstep
  have hfirst : s.log.log.logFirstSeq ≤ (logStore cfg s.log.log e.val).2.logFirstSeq := by
    rw [hst.firstSeq]
    exact Nat.le_add_right _ _
  refine ⟨hlog, hclear, h.time, h.texts, hle, ?_, h.firstSeq_le_next, ?_, ?_, fun hseq => ?_, h.sublist,
    fun hkept => h.complete (hfirst.trans hkept)⟩
  · show c.seq ≤ (logStore cfg s.log.log e.val).2.logNextSeq
    rw [hst.nextSeq]
    exact h.seq_le.trans (Nat.le_add_right _ _)
  · show c.nextSeq ≤ (s.log.stored ++ _).length
    rw [List.length_append]
    exact h.next_le.trans (Nat.le_add_right _ _)
  · show s.block = ((s.log.stored ++ _).drop s.goal.firstSeq).take (c.nextSeq - s.goal.firstSeq)
    have hlen : c.nextSeq - s.goal.firstSeq ≤ (s.log.stored.drop s.goal.firstSeq).length := by
      rw [List.length_drop]
      exact Nat.sub_le_sub_right h.next_le _
    rw [List.drop_append_of_le_length (h.firstSeq_le_next.trans h.next_le),
      List.take_append_of_le_length hlen]
    exact h.block_eq
  · show c.idx = (logStore cfg s.log.log e.val).2.indexOfSeq c.seq
    rw [hst.indices c.seq (hst.firstSeq.ge.trans hseq) h.seq_le]
    exact h.idx (hfirst.trans hseq)

theorem PrintAllInv.store (h : PrintAllInv cfg s) {e : SizedEntry cfg} {log : LogSystem}
    (hstep : logStep cfg s.log e = some log) : PrintAllInv cfg { s with log := log } := by
  have hclear := h.clear.logStore h.log.buf e.property
  have hlog := logInv_step h.log hstep
  obtain ⟨k, hst⟩ := logStore_stored h.log.buf e.property
  obtain ⟨block, hblock, hsub, hcomplete⟩ := h.prints.block
  refine ⟨hlog, ?_, ⟨h.prints.inside, h.prints.texts, block, hblock, hsub, fun hcall hresult hkept => ?_⟩,
    fun c m hcall => (h.loop c m hcall).store hstep⟩
  · obtain rfl := Option.some.inj hstep
    exact hclear
  · refine hcomplete hcall hresult ?_
    obtain rfl := Option.some.inj hstep
    change (logStore cfg s.log.log e.val).2.logFirstSeq ≤ s.goal.firstSeq at hkept
    rw [hst.firstSeq] at hkept
    exact (Nat.le_add_right _ _).trans hkept

/-- Where the loop begins. -/
theorem PrintAllInv.first (h : PrintAllInv cfg s) (hlen : cfg.logBufLen ≤ 2 ^ 26) (size : Nat)
    (time clear : Bool) :
    let c := PrintAllLoop.first s.log.log size time clear
    c.time = time ∧ c.nextSeq = s.log.log.logNextSeq ∧ s.log.log.clearSeq ≤ c.seq ∧
      c.idx = s.log.log.indexOfSeq c.seq ∧
      c.seq + (lastFit (Msg.syslogSize time) (size + 1) (s.log.stored.drop s.log.log.clearSeq)).length =
        s.log.log.logNextSeq := by
  intro c
  have hfirst := h.clear.first_le
  have hnext := h.clear.le_next
  have hlength : (s.log.stored.drop s.log.log.clearSeq).length = s.log.log.logNextSeq - s.log.log.clearSeq := by
    rw [List.length_drop, h.log.nextSeq_eq]
  have hcounted : Counted .int time (s.log.stored.drop s.log.log.clearSeq) :=
    h.log.counted .int hlen hfirst (List.Sublist.refl _) time
  obtain ⟨hcount, -⟩ := (h.log.recordsAt hfirst).firstThatFits_eq time (size + 1) hcounted
  obtain ⟨hle, hidx⟩ := firstThatFits_idx .int time (size + 1) (s.log.log.logNextSeq - s.log.log.clearSeq) hfirst
  rw [hlength] at hcount
  rw [← h.clear.idx, Nat.add_sub_cancel' hnext] at hidx
  rw [← h.clear.idx] at hle hcount
  have hseq : c.seq = s.log.log.logNextSeq - (firstThatFits .int s.log.log.logBuf time (size + 1)
      (s.log.log.logNextSeq - s.log.log.clearSeq) s.log.log.clearIdx).1 := rfl
  refine ⟨rfl, rfl, by omega, hidx, ?_⟩
  rw [← hcount]
  omega

/-- The state in which a call begins. -/
def PrintAllSystem.begin (s : PrintAllSystem) (size : Nat) (time clear : Bool) : PrintAllSystem :=
  { s with
    goal :=
      { size := size
        time := time
        since := s.log.stored.drop s.log.log.clearSeq
        firstSeq := (PrintAllLoop.first s.log.log size time clear).seq }
    out := []
    copied := [] }

theorem PrintAllInv.begin (h : PrintAllInv cfg s) (hlen : cfg.logBufLen ≤ 2 ^ 26) (size : Nat)
    (time clear : Bool) :
    AtHead cfg (s.begin size time clear) (PrintAllLoop.first s.log.log size time clear) := by
  obtain ⟨htime, hnext, hclear, hidx, hblock⟩ := h.first hlen size time clear
  have hnil : (s.begin size time clear).block.take
      ((PrintAllLoop.first s.log.log size time clear).seq - (s.begin size time clear).goal.firstSeq) = [] := by
    show List.take (_ - (PrintAllLoop.first s.log.log size time clear).seq) _ = []
    rw [Nat.sub_self, List.take_zero]
  have hseq : (PrintAllLoop.first s.log.log size time clear).seq ≤ s.log.log.logNextSeq := by omega
  have hsuffix := (isLastFit_block (s.begin size time clear)).suffix
  refine ⟨h.log, h.clear, htime, rfl, le_rfl, hseq, hseq.trans hnext.ge, ?_, ?_, fun _ => hidx, ?_, fun _ => ?_⟩
  · rw [hnext]
    exact h.log.nextSeq_eq.le
  · obtain ⟨older, holder⟩ := hsuffix
    have hlen : older.length + (s.begin size time clear).block.length =
        s.log.stored.length - s.log.log.clearSeq := by
      rw [← List.length_append, holder]
      exact List.length_drop
    change older ++ _ = s.log.stored.drop s.log.log.clearSeq at holder
    change _ + (s.begin size time clear).block.length = _ at hblock
    have hstored := h.log.nextSeq_eq
    show _ = (s.log.stored.drop (PrintAllLoop.first s.log.log size time clear).seq).take _
    have hstart : (PrintAllLoop.first s.log.log size time clear).seq =
        s.log.log.clearSeq + older.length := by
      omega
    rw [hstart, ← List.drop_drop, ← holder, List.drop_left, List.take_of_length_le]
    show _ ≤ _ - (PrintAllLoop.first s.log.log size time clear).seq
    omega
  · rw [hnil]
    exact List.Sublist.refl _
  · rw [hnil]
    rfl

theorem printAllInv_step (hlen : cfg.logBufLen ≤ 2 ^ 26) {e : PrintAllEvent cfg} (h : PrintAllInv cfg s)
    (hstep : printAllStep cfg s e = some s') : PrintAllInv cfg s' := by
  cases e with
  | store e =>
    unfold printAllStep at hstep
    obtain ⟨log, hlog, rfl⟩ := Option.map_eq_some_iff.mp hstep
    exact h.store hlog
  | call size time clear =>
    obtain ⟨-, hs⟩ := Option.ite_none_right_eq_some.mp hstep
    obtain rfl := Option.some.inj hs
    exact (h.begin hlen size time clear).enter (h.clear.first_le.trans (h.first hlen size time clear).2.2.1)
  | copied fault =>
    obtain ⟨⟨c, m⟩, hcall, rfl⟩ := Option.map_eq_some_iff.mp hstep
    cases fault with
    | true =>
      refine h.finish _ fun hresult => absurd hresult ?_
      show ¬ 0 ≤ -eFault
      decide
    | false =>
      obtain ⟨hhead, hfirst⟩ := (h.loop c m hcall).catchUp
      exact hhead.enter hfirst

end System

end Am437x.Printk
