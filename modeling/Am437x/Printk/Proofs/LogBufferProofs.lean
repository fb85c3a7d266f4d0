import Am437x.Printk.LogBuffer

/-!
# The log buffer keeps the last records

From the first index on, the records lie one behind the other, up to the next index or to a header without
a length; behind that, they go on at the start of the buffer. A record is written where none of the others
lies, since those in its way are dropped before.
-/

namespace Am437x.Printk

open Flat Words Ring Runs

variable {cfg : LogConfig} {logBuf : Memory UInt8} {idx : Nat} {m : Msg} {s : LogBuf}

/-! ## One record -/

theorem logAlign_dvd (cfg : LogConfig) : cfg.logAlign ∣ sizeofPrintkLog :=
  Nat.pow_dvd_pow 2 cfg.alignShift_le

theorem padLen_eq (cfg : LogConfig) (textLen dictLen : Nat) :
    (msgUsedSize cfg textLen dictLen).2 =
      (2 ^ 32 - (sizeofPrintkLog + textLen + dictLen)) % cfg.logAlign :=
  Nat.and_two_pow_sub_one_eq_mod _ _

theorem padLen_lt (cfg : LogConfig) (textLen dictLen : Nat) :
    (msgUsedSize cfg textLen dictLen).2 < sizeofPrintkLog := by
  rw [padLen_eq]
  exact (Nat.mod_lt _ (Nat.two_pow_pos _)).trans_le (Nat.le_of_dvd (by decide) (logAlign_dvd cfg))

theorem size_eq (cfg : LogConfig) (m : Msg) : m.size cfg = sizeofPrintkLog + m.text.length + m.dict.length +
    (msgUsedSize cfg m.text.length m.dict.length).2 := rfl

theorem size_pos (cfg : LogConfig) (m : Msg) : 0 < m.size cfg := by
  rw [size_eq, sizeofPrintkLog]
  omega

/-- The padding brings the next record to an aligned index. -/
theorem logAlign_dvd_size (h : m.size cfg < 2 ^ 16) : cfg.logAlign ∣ m.size cfg := by
  have hword : cfg.logAlign ∣ 2 ^ 32 := Nat.pow_dvd_pow 2 (cfg.alignShift_le.trans (by decide))
  rw [size_eq] at h ⊢
  rw [padLen_eq] at h ⊢
  generalize sizeofPrintkLog + m.text.length + m.dict.length = size at h ⊢
  have hsum : size + (2 ^ 32 - size) = 2 ^ 32 := by omega
  rw [Nat.dvd_iff_mod_eq_zero, Nat.add_mod_mod, hsum]
  exact Nat.mod_eq_zero_of_dvd hword

@[simp] theorem header_bytes_length (h : PrintkLog) : h.bytes.length = sizeofPrintkLog := by
  simp [PrintkLog.bytes, sizeofPrintkLog]

theorem bytes_length (cfg : LogConfig) (m : Msg) : (m.bytes cfg).length = m.size cfg := by
  simp [Msg.bytes, size_eq, Nat.add_assoc]

/-- The record lies at the index. -/
structure StoredAt (cfg : LogConfig) (logBuf : Memory UInt8) (idx : Nat) (m : Msg) : Prop where
  bytes : load logBuf idx (m.size cfg) = m.bytes cfg
  sized : m.size cfg < 2 ^ 16

/-- The header is read as it was written, unless a length has lost bits. -/
theorem printkLogAt_of_load {h : PrintkLog} (hload : load logBuf idx sizeofPrintkLog = h.bytes)
    (hlen : h.len < 2 ^ 16) (htext : h.textLen < 2 ^ 16) (hdict : h.dictLen < 2 ^ 16) :
    printkLogAt logBuf idx = h := by
  -- the fields from the last one to the first
  rw [PrintkLog.bytes] at hload
  obtain ⟨hload, hflags⟩ := load_eq_append hload
  obtain ⟨hload, hfacility⟩ := load_eq_append hload
  obtain ⟨hload, hdict'⟩ := load_eq_append hload
  obtain ⟨hload, htext'⟩ := load_eq_append hload
  obtain ⟨hts, hlen'⟩ := load_eq_append hload
  simp only [List.length_append, leBytes_length, Nat.reduceAdd, Nat.cast_ofNat]
    at hts hlen' htext' hdict' hfacility hflags
  have hflagsLt := h.flags.isLt
  have hlevelLt := h.level.isLt
  unfold printkLogAt
  rw [hts, hlen', htext', hdict', hfacility, hflags, leValue_leBytes_of_lt h.tsNsec.isLt,
    leValue_leBytes_of_lt hlen, leValue_leBytes_of_lt htext, leValue_leBytes_of_lt hdict,
    leValue_leBytes_of_lt h.facility.isLt, leValue_leBytes_of_lt (by omega)]
  have hlevel : (h.flags.toNat + 32 * h.level.toNat) / 32 = h.level.toNat := by omega
  have hflags' : BitVec.ofNat 5 (h.flags.toNat + 32 * h.level.toNat) = h.flags := by
    apply BitVec.eq_of_toNat_eq
    rw [BitVec.toNat_ofNat]
    omega
  rw [hlevel, hflags', BitVec.ofNat_toNat, BitVec.ofNat_toNat, BitVec.ofNat_toNat]
  simp

theorem StoredAt.header (h : StoredAt cfg logBuf idx m) : printkLogAt logBuf idx = m.header cfg := by
  have hbytes := h.bytes
  have hsize := h.sized
  have hsum := size_eq cfg m
  rw [Msg.bytes, List.append_assoc, List.append_assoc] at hbytes
  have hheader := (load_eq_append hbytes).1
  rw [header_bytes_length] at hheader
  exact printkLogAt_of_load hheader hsize (show m.text.length < 2 ^ 16 by omega)
    (show m.dict.length < 2 ^ 16 by omega)

/-- The record is read as it was written. -/
theorem StoredAt.msgAt_eq (h : StoredAt cfg logBuf idx m) : msgAt logBuf idx = m := by
  have hbytes := h.bytes
  rw [Msg.bytes] at hbytes
  obtain ⟨hrest, -⟩ := load_eq_append hbytes
  obtain ⟨hrest, hdict⟩ := load_eq_append hrest
  obtain ⟨-, htext⟩ := load_eq_append hrest
  rw [List.length_append, header_bytes_length, Nat.cast_add, ← add_assoc] at hdict
  rw [header_bytes_length] at htext
  unfold msgAt
  rw [h.header]
  show Msg.mk m.tsNsec m.facility m.flags m.level (load logBuf _ m.text.length)
    (load logBuf (idx + sizeofPrintkLog + m.text.length) m.dict.length) = m
  rw [htext, hdict]

theorem StoredAt.len_eq (h : StoredAt cfg logBuf idx m) : (printkLogAt logBuf idx).len = m.size cfg := by
  rw [h.header]
  rfl

theorem StoredAt.len_ne_zero (h : StoredAt cfg logBuf idx m) : (printkLogAt logBuf idx).len ≠ 0 := by
  rw [h.len_eq]
  exact (size_pos cfg m).ne'

theorem StoredAt.logFromIdx_eq (h : StoredAt cfg logBuf idx m) : logFromIdx logBuf idx = idx :=
  if_neg h.len_ne_zero

theorem StoredAt.logNext_eq (h : StoredAt cfg logBuf idx m) : logNext logBuf idx = idx + m.size cfg := by
  rw [logNext, if_neg h.len_ne_zero, h.len_eq]

/-- A record that a write does not touch. -/
theorem StoredAt.store (h : StoredAt cfg logBuf idx m) {a : Nat} {bs : List UInt8}
    (hother : idx + m.size cfg ≤ a ∨ a + bs.length ≤ idx) :
    StoredAt cfg (store logBuf a bs) idx m := by
  refine ⟨?_, h.sized⟩
  rw [load_store_other logBuf (by omega)]
  exact h.bytes

theorem storedAt_store (logBuf : Memory UInt8) (idx : Nat) (h : m.size cfg < 2 ^ 16) :
    StoredAt cfg (store logBuf idx (m.bytes cfg)) idx m := by
  refine ⟨?_, h⟩
  rw [← bytes_length]
  exact load_store_same _ _ _

/-- A header without a length. -/
def EndMark (logBuf : Memory UInt8) (idx : Nat) : Prop :=
  load logBuf idx sizeofPrintkLog = List.replicate sizeofPrintkLog 0

theorem EndMark.len_eq (h : EndMark logBuf idx) : (printkLogAt logBuf idx).len = 0 := by
  have hzero : PrintkLog.bytes ⟨0, 0, 0, 0, 0, 0, 0⟩ = List.replicate sizeofPrintkLog 0 := by decide
  rw [printkLogAt_of_load (h.trans hzero.symm) (by decide) (by decide) (by decide)]

theorem EndMark.logFromIdx_eq (h : EndMark logBuf idx) : logFromIdx logBuf idx = 0 := if_pos h.len_eq

theorem EndMark.logNext_eq (h : EndMark logBuf idx) :
    logNext logBuf idx = (printkLogAt logBuf 0).len := if_pos h.len_eq

theorem EndMark.store (h : EndMark logBuf idx) {a : Nat} {bs : List UInt8}
    (hother : idx + sizeofPrintkLog ≤ a ∨ a + bs.length ≤ idx) : EndMark (store logBuf a bs) idx := by
  rw [EndMark, load_store_other logBuf (by omega)]
  exact h

theorem endMark_store (logBuf : Memory UInt8) (idx : Nat) :
    EndMark (store logBuf idx (List.replicate sizeofPrintkLog 0)) idx := by
  have hsame := load_store_same logBuf idx (List.replicate sizeofPrintkLog (0 : UInt8))
  rwa [List.length_replicate] at hsame

/-! ## The chain -/

/-- The records from the first index on, and those at the start of the buffer when the chain goes on
there. -/
structure Chain (cfg : LogConfig) (logBuf : Memory UInt8) (first next : Nat) (front back : List Msg) :
    Prop where
  frontQueued : Queued (Msg.size cfg) (StoredAt cfg logBuf) first front
  backQueued : Queued (Msg.size cfg) (StoredAt cfg logBuf) 0 back
  straight : back = [] → next = first + total (Msg.size cfg) front ∧
    next + sizeofPrintkLog ≤ cfg.logBufLen
  wrapped : back ≠ [] → next = total (Msg.size cfg) back ∧ next + sizeofPrintkLog ≤ first ∧
    first + total (Msg.size cfg) front + sizeofPrintkLog ≤ cfg.logBufLen ∧
    EndMark logBuf (first + total (Msg.size cfg) front)

/-- The index behind the first `k` records. -/
def indexOf (cfg : LogConfig) (first : Nat) (front back : List Msg) (k : Nat) : Nat :=
  if k ≤ front.length then first + total (Msg.size cfg) (front.take k)
  else total (Msg.size cfg) (back.take (k - front.length))

section Chains

variable {first next : Nat} {front back : List Msg}

theorem indexOf_zero : indexOf cfg first front back 0 = first := by
  simp [indexOf]

theorem Chain.eq_of_nil (h : Chain cfg logBuf first next [] []) :
    next = first ∧ next + sizeofPrintkLog ≤ cfg.logBufLen := by
  obtain ⟨hnext, hroom⟩ := h.straight rfl
  exact ⟨by simpa using hnext, hroom⟩

/-- What a reader finds at the first index, and the chain behind that. -/
theorem Chain.tail {rest : List Msg} (h : Chain cfg logBuf first next front back)
    (heq : front ++ back = m :: rest) :
    StoredAt cfg logBuf (logFromIdx logBuf first) m ∧
      ∃ front' back', front' ++ back' = rest ∧
        Chain cfg logBuf (logNext logBuf first) next front' back' ∧
        ∀ k ≤ rest.length,
          indexOf cfg (logNext logBuf first) front' back' k = indexOf cfg first front back (k + 1) := by
  cases front with
  | cons a front =>
    obtain ⟨rfl, rfl⟩ := List.cons.inj heq
    obtain ⟨hm, hfront⟩ := h.frontQueued
    rw [hm.logFromIdx_eq, hm.logNext_eq]
    refine ⟨hm, front, back, rfl, ⟨hfront, h.backQueued, fun hnil => ?_, fun hne => ?_⟩, fun k _ => ?_⟩
    · obtain ⟨hnext, hroom⟩ := h.straight hnil
      rw [total_cons] at hnext
      exact ⟨by omega, hroom⟩
    · obtain ⟨hnext, hfirst, hend, hmark⟩ := h.wrapped hne
      rw [total_cons, ← Nat.add_assoc] at hend hmark
      exact ⟨hnext, by omega, hend, hmark⟩
    · simp only [indexOf, List.length_cons, Nat.add_le_add_iff_right, List.take_succ_cons, total_cons,
        Nat.add_sub_add_right, Nat.add_assoc]
  | nil =>
    rw [List.nil_append] at heq
    subst heq
    obtain ⟨hm, hback⟩ := h.backQueued
    obtain ⟨hnext, hfirst, hend, hmark⟩ := h.wrapped (List.cons_ne_nil m rest)
    rw [total_nil, Nat.add_zero] at hmark hend
    rw [total_cons] at hnext
    rw [hmark.logFromIdx_eq, hmark.logNext_eq, hm.len_eq]
    rw [Nat.zero_add] at hback
    refine ⟨hm, rest, [], List.append_nil rest, ⟨hback, trivial, fun _ => ⟨hnext, by omega⟩,
      fun hne => absurd rfl hne⟩, fun k hk => ?_⟩
    simp only [indexOf, List.length_nil, Nat.sub_zero, List.take_succ_cons, total_cons]
    rw [if_neg (Nat.not_succ_le_zero k), if_pos hk]

/-- A record lies inside the buffer, at an aligned index when the first index is one. -/
theorem Chain.inside {rest : List Msg} (h : Chain cfg logBuf first next front back)
    (heq : front ++ back = m :: rest) (haligned : cfg.logAlign ∣ first) :
    cfg.logAlign ∣ logFromIdx logBuf first ∧ logFromIdx logBuf first + m.size cfg ≤ cfg.logBufLen := by
  cases front with
  | cons a front =>
    obtain ⟨rfl, rfl⟩ := List.cons.inj heq
    rw [h.frontQueued.1.logFromIdx_eq]
    refine ⟨haligned, ?_⟩
    by_cases hnil : back = []
    · obtain ⟨hnext, hend⟩ := h.straight hnil
      rw [total_cons] at hnext
      omega
    · obtain ⟨-, -, hend, -⟩ := h.wrapped hnil
      rw [total_cons] at hend
      omega
  | nil =>
    rw [List.nil_append] at heq
    subst heq
    obtain ⟨hnext, hfirst, hend, hmark⟩ := h.wrapped (List.cons_ne_nil m rest)
    rw [total_nil, Nat.add_zero] at hmark hend
    rw [total_cons] at hnext
    rw [hmark.logFromIdx_eq]
    exact ⟨Nat.dvd_zero _, by omega⟩

theorem Chain.aligned_logNext {rest : List Msg} (h : Chain cfg logBuf first next front back)
    (heq : front ++ back = m :: rest) (haligned : cfg.logAlign ∣ first) :
    cfg.logAlign ∣ logNext logBuf first := by
  cases front with
  | cons a front =>
    rw [h.frontQueued.1.logNext_eq]
    exact Nat.dvd_add haligned (logAlign_dvd_size h.frontQueued.1.sized)
  | nil =>
    rw [List.nil_append] at heq
    subst heq
    obtain ⟨-, -, -, hmark⟩ := h.wrapped (List.cons_ne_nil m rest)
    rw [total_nil, Nat.add_zero] at hmark
    rw [hmark.logNext_eq, h.backQueued.1.len_eq]
    exact logAlign_dvd_size h.backQueued.1.sized

theorem total_pos (cfg : LogConfig) (hne : front ≠ []) : 0 < total (Msg.size cfg) front := by
  obtain ⟨m, rest, rfl⟩ := List.exists_cons_of_ne_nil hne
  rw [total_cons]
  exact Nat.add_pos_left (size_pos cfg m) _

/-- Records that a write does not touch. -/
theorem queued_store {pos : Nat} {ms : List Msg}
    (h : Queued (Msg.size cfg) (StoredAt cfg logBuf) pos ms) {a : Nat} {bs : List UInt8}
    (hother : pos + total (Msg.size cfg) ms ≤ a ∨ a + bs.length ≤ pos) :
    Queued (Msg.size cfg) (StoredAt cfg (store logBuf a bs)) pos ms :=
  h.imp fun _ _ hle hend hst => hst.store (by omega)

/-- The new record is the last of the chain, and the indices of the others stay. -/
structure Appended (cfg : LogConfig) (s : LogBuf) (front back : List Msg) (m : Msg) (s' : LogBuf)
    (front' back' : List Msg) : Prop where
  records : front' ++ back' = front ++ back ++ [m]
  chain : Chain cfg s'.logBuf s.logFirstIdx s'.logNextIdx front' back'
  indices : ∀ k ≤ (front ++ back).length,
    indexOf cfg s.logFirstIdx front' back' k = indexOf cfg s.logFirstIdx front back k
  frame : ∀ x : Int, x < 0 ∨ cfg.logBufLen ≤ x → s'.logBuf x = s.logBuf x

/-- The chain goes on at the start of the buffer already. -/
theorem Chain.append_wrapped (h : Chain cfg s.logBuf s.logFirstIdx s.logNextIdx front back)
    (hne : back ≠ []) (hspace : LogbufHasSpace cfg s (m.size cfg) (front ++ back = []))
    (hsize : m.size cfg < 2 ^ 16) :
    Appended cfg s front back m (fillMsg cfg m s) front (back ++ [m]) := by
  obtain ⟨hnext, hfirst, hend, hmark⟩ := h.wrapped hne
  have hroom : s.logNextIdx + m.size cfg + sizeofPrintkLog ≤ s.logFirstIdx := by
    have hfull : front ++ back ≠ [] := by simp [hne]
    rcases hspace with ⟨hlt | hempty, -⟩ | ⟨-, hle⟩
    · omega
    · exact absurd hempty hfull
    · unfold sizeofPrintkLog at *
      omega
  have hlen := bytes_length cfg m
  unfold fillMsg
  dsimp only
  rw [if_neg (by omega)]
  refine ⟨by rw [List.append_assoc], ⟨?_, ?_, fun hnil => absurd hnil (by simp), fun _ => ⟨?_, ?_, hend, ?_⟩⟩,
    fun k hk => ?_, fun x hx => store_outside _ _ _ _ (by omega)⟩
  · exact queued_store h.frontQueued (Or.inr (by omega))
  · refine queued_append.mpr ⟨queued_store h.backQueued (Or.inl (by omega)), ?_, trivial⟩
    rw [Nat.zero_add, ← hnext]
    exact storedAt_store _ _ hsize
  · show s.logNextIdx + m.size cfg = _
    rw [total_append, total_cons, total_nil, hnext]
    rfl
  · exact hroom
  · exact hmark.store (Or.inr (by omega))
  · rw [List.length_append] at hk
    unfold indexOf
    rw [List.take_append_of_le_length (by omega)]

/-- The chain does not go on at the start of the buffer. -/
theorem Chain.append_straight (h : Chain cfg s.logBuf s.logFirstIdx s.logNextIdx front [])
    (hspace : LogbufHasSpace cfg s (m.size cfg) (front ++ [] = [])) (hsize : m.size cfg < 2 ^ 16) :
    ∃ front' back', Appended cfg s front [] m (fillMsg cfg m s) front' back' := by
  obtain ⟨hnext, hend⟩ := h.straight rfl
  have hroom : m.size cfg + sizeofPrintkLog ≤ max (cfg.logBufLen - s.logNextIdx) s.logFirstIdx := by
    rcases hspace with ⟨-, hle⟩ | ⟨hfull, -⟩
    · exact hle
    · have hne : front ≠ [] := fun hnil => hfull (Or.inr (by rw [hnil, List.append_nil]))
      have hpos := total_pos cfg hne
      exact absurd (Or.inl (by omega)) hfull
  have hlen := bytes_length cfg m
  unfold fillMsg
  dsimp only
  by_cases hwrap : cfg.logBufLen < s.logNextIdx + m.size cfg + sizeofPrintkLog
  · -- the record goes to the start of the buffer, and an empty header to the end of the chain
    have hfirst : m.size cfg + sizeofPrintkLog ≤ s.logFirstIdx := by omega
    have hmarkLen : (List.replicate sizeofPrintkLog (0 : UInt8)).length = sizeofPrintkLog :=
      List.length_replicate
    rw [if_pos hwrap]
    dsimp only
    refine ⟨front, [m], by simp, ⟨?_, ⟨?_, trivial⟩, fun hnil => absurd hnil (by simp),
      fun _ => ⟨?_, ?_, ?_, ?_⟩⟩, fun k hk => ?_, fun x hx => ?_⟩
    · exact queued_store (queued_store h.frontQueued (Or.inl hnext.ge)) (Or.inr (by omega))
    · exact storedAt_store _ _ hsize
    · show 0 + m.size cfg = _
      rw [total_cons, total_nil, Nat.zero_add, Nat.add_zero]
    · show 0 + m.size cfg + sizeofPrintkLog ≤ s.logFirstIdx
      rw [Nat.zero_add]
      exact hfirst
    · rw [← hnext]
      exact hend
    · rw [← hnext]
      exact (endMark_store _ _).store (Or.inr (by omega))
    · rw [List.append_nil] at hk
      unfold indexOf
      rw [if_pos hk, if_pos hk]
    · show store (store s.logBuf _ _) _ _ x = s.logBuf x
      rw [store_outside _ _ _ _ (by omega), store_outside _ _ _ _ (by omega)]
  · rw [if_neg hwrap]
    refine ⟨front ++ [m], [], by simp, ⟨?_, trivial, fun _ => ⟨?_, not_lt.mp hwrap⟩,
      fun hne => absurd rfl hne⟩, fun k hk => ?_, fun x hx => store_outside _ _ _ _ (by omega)⟩
    · refine queued_append.mpr ⟨queued_store h.frontQueued (Or.inl hnext.ge), ?_, trivial⟩
      rw [← hnext]
      exact storedAt_store _ _ hsize
    · show s.logNextIdx + m.size cfg = _
      rw [total_append, total_cons, total_nil]
      omega
    · rw [List.append_nil] at hk
      unfold indexOf
      rw [if_pos hk, if_pos (by rw [List.length_append]; omega), List.take_append_of_le_length hk]

theorem Chain.append (h : Chain cfg s.logBuf s.logFirstIdx s.logNextIdx front back)
    (hspace : LogbufHasSpace cfg s (m.size cfg) (front ++ back = [])) (hsize : m.size cfg < 2 ^ 16) :
    ∃ front' back', Appended cfg s front back m (fillMsg cfg m s) front' back' := by
  by_cases hnil : back = []
  · subst hnil
    exact h.append_straight hspace hsize
  · exact ⟨_, _, h.append_wrapped hnil hspace hsize⟩

end Chains

/-! ## The buffer -/

variable {ms : List Msg} {msgSize : Nat}

/-- The buffer holds the records. -/
structure BufInv (cfg : LogConfig) (s : LogBuf) (ms : List Msg) : Prop where
  chain : ∃ front back, front ++ back = ms ∧
    Chain cfg s.logBuf s.logFirstIdx s.logNextIdx front back
  seqs : s.logNextSeq = s.logFirstSeq + ms.length
  aligned : cfg.logAlign ∣ s.logFirstIdx

theorem Chain.iterate_logNext {first next : Nat} {front back : List Msg}
    (h : Chain cfg logBuf first next front back) {k : Nat} (hk : k ≤ (front ++ back).length) :
    (logNext logBuf)^[k] first = indexOf cfg first front back k := by
  induction k generalizing first front back with
  | zero => exact indexOf_zero.symm
  | succ k ih =>
    obtain ⟨m, rest, hms⟩ := List.exists_cons_of_length_pos (Nat.zero_lt_of_lt hk)
    obtain ⟨-, front', back', hrest, hchain, hindices⟩ := h.tail hms
    rw [hms, List.length_cons, Nat.add_le_add_iff_right] at hk
    rw [Function.iterate_succ_apply, ih hchain (hrest ▸ hk), hindices k hk]

theorem bufInv_start (cfg : LogConfig) (logBuf : Memory UInt8) : BufInv cfg (.start logBuf) [] where
  chain := by
    refine ⟨[], [], rfl, trivial, trivial, fun _ => ⟨rfl, ?_⟩, fun hne => absurd rfl hne⟩
    show 0 + sizeofPrintkLog ≤ cfg.logBufLen
    rw [Nat.zero_add]
    exact cfg.sizeof_le
  seqs := rfl
  aligned := Nat.dvd_zero _

theorem BufInv.nil_iff (h : BufInv cfg s ms) : ms = [] ↔ s.logFirstSeq = s.logNextSeq := by
  rw [h.seqs, ← List.length_eq_zero_iff]
  omega

theorem BufInv.tail (h : BufInv cfg s (m :: ms)) :
    BufInv cfg { s with
      logFirstIdx := logNext s.logBuf s.logFirstIdx
      logFirstSeq := s.logFirstSeq + 1 } ms := by
  obtain ⟨⟨front, back, hms, hchain⟩, hseqs, haligned⟩ := h
  obtain ⟨-, front', back', hrest, hchain', -⟩ := hchain.tail hms
  refine ⟨⟨front', back', hrest, hchain'⟩, ?_, hchain.aligned_logNext hms haligned⟩
  rw [List.length_cons] at hseqs
  show s.logNextSeq = s.logFirstSeq + 1 + ms.length
  omega

theorem bufInv_advanceClear : BufInv cfg s.advanceClear ms ↔ BufInv cfg s ms := by
  unfold LogBuf.advanceClear
  split
  · exact ⟨fun h => ⟨h.chain, h.seqs, h.aligned⟩, fun h => ⟨h.chain, h.seqs, h.aligned⟩⟩
  · exact Iff.rfl

/-- The first `k` records are dropped; nothing else of the chain changes. -/
structure Dropped (k : Nat) (s s' : LogBuf) : Prop where
  logBuf : s'.logBuf = s.logBuf
  firstSeq : s'.logFirstSeq = s.logFirstSeq + k
  firstIdx : s'.logFirstIdx = (logNext s.logBuf)^[k] s.logFirstIdx
  nextSeq : s'.logNextSeq = s.logNextSeq
  nextIdx : s'.logNextIdx = s.logNextIdx

theorem Dropped.indexOfSeq {k : Nat} {s s' : LogBuf} (h : Dropped k s s') {seq : Nat}
    (hseq : s.logFirstSeq + k ≤ seq) : s'.indexOfSeq seq = s.indexOfSeq seq := by
  unfold LogBuf.indexOfSeq
  rw [h.logBuf, h.firstSeq, h.firstIdx, ← Function.iterate_add_apply]
  congr 1
  omega

theorem dropped_advanceClear (s : LogBuf) : Dropped 0 s s.advanceClear := by
  unfold LogBuf.advanceClear
  split <;> exact ⟨rfl, rfl, rfl, rfl, rfl⟩

theorem Dropped.trans {j k : Nat} {s t u : LogBuf} (h : Dropped j s t) (h' : Dropped k t u) :
    Dropped (j + k) s u where
  logBuf := h'.logBuf.trans h.logBuf
  firstSeq := by rw [h'.firstSeq, h.firstSeq, Nat.add_assoc]
  firstIdx := by rw [h'.firstIdx, h.firstIdx, h.logBuf, ← Function.iterate_add_apply, Nat.add_comm k]
  nextSeq := h'.nextSeq.trans h.nextSeq
  nextIdx := h'.nextIdx.trans h.nextIdx

theorem logbufHasSpace_of_hasRoom (h : s.HasRoom cfg s.logFirstIdx (msgSize + sizeofPrintkLog)) :
    LogbufHasSpace cfg s msgSize False := by
  unfold LogBuf.HasRoom at h
  split at h
  case isTrue hlt => exact Or.inl ⟨Or.inl hlt, le_max_iff.mpr h⟩
  case isFalse hge => exact Or.inr ⟨fun hor => hge (hor.resolve_right id), h⟩

/-- The first `k` records have no room for a new one with an empty header behind it. -/
def NoRoom (cfg : LogConfig) (s : LogBuf) (msgSize k : Nat) : Prop :=
  ∀ j < k, ¬ s.HasRoom cfg ((logNext s.logBuf)^[j] s.logFirstIdx) (msgSize + sizeofPrintkLog)

theorem noRoom_zero : NoRoom cfg s msgSize 0 := fun j hj => absurd hj (Nat.not_lt_zero j)

/-- Records are dropped until there is room, or none is left. -/
theorem dropOld_dropped (msgSize : Nat) (h : BufInv cfg s ms) :
    ∃ k ≤ ms.length, Dropped k s (dropOld cfg msgSize ms.length s) ∧
      BufInv cfg (dropOld cfg msgSize ms.length s) (ms.drop k) ∧ NoRoom cfg s msgSize k ∧
      (LogbufHasSpace cfg (dropOld cfg msgSize ms.length s) msgSize False ∨ k = ms.length) := by
  induction ms generalizing s with
  | nil => exact ⟨0, le_rfl, ⟨rfl, rfl, rfl, rfl, rfl⟩, h, noRoom_zero, Or.inr rfl⟩
  | cons m ms ih =>
    rw [List.length_cons, dropOld]
    have hlt : s.logFirstSeq < s.logNextSeq := by
      have hseqs := h.seqs
      rw [List.length_cons] at hseqs
      omega
    by_cases hspace : LogbufHasSpace cfg s msgSize False
    · rw [if_neg fun hdrop => hdrop.2 hspace]
      exact ⟨0, Nat.zero_le _, ⟨rfl, rfl, rfl, rfl, rfl⟩, h, noRoom_zero, Or.inl hspace⟩
    · rw [if_pos ⟨hlt, hspace⟩]
      obtain ⟨k, hk, hdropped, hinv, hnoRoom, hstop⟩ := ih h.tail
      refine ⟨k + 1, Nat.succ_le_succ hk, ⟨hdropped.logBuf, ?_, ?_, hdropped.nextSeq, hdropped.nextIdx⟩,
        hinv, fun j hj => ?_, hstop.imp_right (congrArg (· + 1))⟩
      · rw [hdropped.firstSeq, Nat.add_assoc, Nat.add_comm 1]
      · rw [hdropped.firstIdx, Function.iterate_succ_apply]
      · cases j with
        | zero => exact fun hroom => hspace (logbufHasSpace_of_hasRoom hroom)
        | succ j => exact hnoRoom j (Nat.lt_of_succ_lt_succ hj)

theorem LogbufHasSpace.mono (h : LogbufHasSpace cfg s msgSize False) (p : Prop) :
    LogbufHasSpace cfg s msgSize p := by
  unfold LogbufHasSpace at *
  by_cases hp : p
  · refine Or.inl ⟨Or.inr hp, ?_⟩
    rcases h with ⟨-, hle⟩ | ⟨-, hle⟩
    · exact hle
    · exact hle.trans ((Nat.sub_le _ _).trans (le_max_right _ _))
  · simpa [hp] using h

theorem logMakeFreeSpace_dropped (msgSize : Nat) (h : BufInv cfg s ms) :
    ∃ k ≤ ms.length, Dropped k s (logMakeFreeSpace cfg msgSize s).2 ∧
      BufInv cfg (logMakeFreeSpace cfg msgSize s).2 (ms.drop k) ∧ NoRoom cfg s msgSize k ∧
      ((logMakeFreeSpace cfg msgSize s).1 = true ↔
        LogbufHasSpace cfg (logMakeFreeSpace cfg msgSize s).2 msgSize (ms.drop k = [])) ∧
      ((logMakeFreeSpace cfg msgSize s).1 = false → k = ms.length) := by
  have hturns : s.logNextSeq - s.logFirstSeq = ms.length := by
    rw [h.seqs, Nat.add_sub_cancel_left]
  obtain ⟨k, hk, hdropped, hinv, hnoRoom, hstop⟩ := dropOld_dropped msgSize h
  have hclear := dropped_advanceClear (dropOld cfg msgSize ms.length s)
  have hinv' := bufInv_advanceClear.mpr hinv
  unfold logMakeFreeSpace
  dsimp only
  rw [hturns]
  refine ⟨k, hk, hdropped.trans hclear, hinv', hnoRoom, ?_, ?_⟩
  · rw [decide_eq_true_iff, ← hinv'.nil_iff]
  · rw [decide_eq_false_iff_not]
    intro hfull
    refine hstop.resolve_left fun hspace => hfull (LogbufHasSpace.mono ?_ _)
    unfold LogbufHasSpace at hspace ⊢
    rwa [hclear.firstIdx, hclear.nextIdx]

theorem BufInv.length_le (h : BufInv cfg s ms) {seq : Nat} (hle : seq ≤ s.logNextSeq) :
    seq - s.logFirstSeq ≤ ms.length := by
  have hseqs := h.seqs
  omega

/-- The record is added to the buffer, and the readers find the others where they were. -/
theorem BufInv.fillMsg (h : BufInv cfg s ms) (hspace : LogbufHasSpace cfg s (m.size cfg) (ms = []))
    (hsize : m.size cfg < 2 ^ 16) :
    BufInv cfg (fillMsg cfg m s) (ms ++ [m]) ∧
      (∀ seq ≤ s.logNextSeq, (Printk.fillMsg cfg m s).indexOfSeq seq = s.indexOfSeq seq) ∧
      ∀ x : Int, x < 0 ∨ cfg.logBufLen ≤ x → (Printk.fillMsg cfg m s).logBuf x = s.logBuf x := by
  obtain ⟨⟨front, back, rfl, hchain⟩, hseqs, haligned⟩ := h
  obtain ⟨front', back', happended⟩ := hchain.append hspace hsize
  have hfirst : (Printk.fillMsg cfg m s).logFirstIdx = s.logFirstIdx ∧
      (Printk.fillMsg cfg m s).logFirstSeq = s.logFirstSeq ∧
      (Printk.fillMsg cfg m s).logNextSeq = s.logNextSeq + 1 := by
    unfold Printk.fillMsg
    dsimp only
    split <;> exact ⟨rfl, rfl, rfl⟩
  obtain ⟨hidx, hseq, hnext⟩ := hfirst
  refine ⟨⟨⟨front', back', happended.records, ?_⟩, ?_, ?_⟩, fun seq hle => ?_, happended.frame⟩
  · rw [hidx]
    exact happended.chain
  · rw [hnext, hseq, hseqs]
    simp [Nat.add_assoc]
  · rw [hidx]
    exact haligned
  · have hk : seq - s.logFirstSeq ≤ (front ++ back).length := by omega
    have hk' : seq - s.logFirstSeq ≤ (front' ++ back').length := by
      rw [happended.records, List.length_append]
      exact hk.trans (Nat.le_add_right _ _)
    unfold LogBuf.indexOfSeq
    rw [hidx, hseq, hchain.iterate_logNext hk, happended.chain.iterate_logNext hk', happended.indices _ hk]

/-! ## Storing an entry -/

variable {e : LogEntry}

theorem BufInv.hasSpace_of_nil (h : BufInv cfg s []) (hhalf : 2 * (msgSize + sizeofPrintkLog) ≤ cfg.logBufLen)
    {p : Prop} (hp : p) : LogbufHasSpace cfg s msgSize p := by
  obtain ⟨⟨front, back, hms, hchain⟩, -, -⟩ := h
  obtain ⟨rfl, rfl⟩ := List.append_eq_nil_iff.mp hms
  obtain ⟨hnext, -⟩ := hchain.eq_of_nil
  refine Or.inl ⟨Or.inr hp, ?_⟩
  rw [hnext]
  omega

/-- What the first part of `log_store` leaves. -/
structure RoomMade (cfg : LogConfig) (s : LogBuf) (ms : List Msg) (e : LogEntry) (k : Nat)
    (r : Option Msg × LogBuf) : Prop where
  le : k ≤ ms.length
  dropped : Dropped k s r.2
  inv : BufInv cfg r.2 (ms.drop k)
  noRoom : NoRoom cfg s (e.full.size cfg) k
  hasSpace : ∀ m, r.1 = some m → LogbufHasSpace cfg r.2 (m.size cfg) (ms.drop k = [])
  form : ∀ m, r.1 = some m → m = e.full ∨ m = e.truncated cfg
  half : 2 * (e.full.size cfg + sizeofPrintkLog) ≤ cfg.logBufLen → r.1 = some e.full
  halfTruncated : 2 * ((e.truncated cfg).size cfg + sizeofPrintkLog) ≤ cfg.logBufLen → r.1.isSome

theorem RoomMade.size_lt {k : Nat} {r : Option Msg × LogBuf} (h : RoomMade cfg s ms e k r)
    (hsized : e.Sized cfg) (hm : r.1 = some m) : m.size cfg < 2 ^ 16 := by
  rcases h.form m hm with rfl | rfl
  · exact hsized.1
  · exact hsized.2

theorem makeRoom_made (h : BufInv cfg s ms) (e : LogEntry) :
    ∃ k, RoomMade cfg s ms e k (makeRoom cfg s e) := by
  obtain ⟨k, hk, hdropped, hinv, hnoRoom, hok, hfail⟩ := logMakeFreeSpace_dropped (e.full.size cfg) h
  unfold makeRoom
  dsimp only
  cases hfirst : (logMakeFreeSpace cfg (e.full.size cfg) s).1 with
  | true =>
    rw [if_pos rfl]
    refine ⟨k, hk, hdropped, hinv, hnoRoom, ?_, ?_, fun _ => rfl, fun _ => rfl⟩
    · rintro m hm
      obtain rfl := Option.some.inj hm
      exact hok.mp hfirst
    · rintro m hm
      exact Or.inl (Option.some.inj hm).symm
  | false =>
    rw [if_neg Bool.false_ne_true]
    obtain rfl := hfail hfirst
    rw [List.drop_length] at hinv hok
    obtain ⟨j, hj, hdropped', hinv', -, hok', -⟩ :=
      logMakeFreeSpace_dropped ((e.truncated cfg).size cfg) hinv
    obtain rfl : j = 0 := Nat.le_zero.mp hj
    rw [List.drop_nil] at hinv' hok'
    refine ⟨ms.length, le_rfl, hdropped.trans hdropped', ?_, hnoRoom, ?_, ?_, fun hhalf => ?_, fun hhalf => ?_⟩
    · rw [List.drop_length]
      exact hinv'
    · intro m hm
      rw [List.drop_length]
      split at hm
      case isTrue hsecond =>
        obtain rfl := Option.some.inj hm
        exact hok'.mp hsecond
      case isFalse => cases hm
    · intro m hm
      split at hm
      · exact Or.inr (Option.some.inj hm).symm
      · cases hm
    · have hspace := hok.mpr (hinv.hasSpace_of_nil hhalf rfl)
      rw [hfirst] at hspace
      cases hspace
    · rw [if_pos (hok'.mpr (hinv'.hasSpace_of_nil hhalf rfl))]
      rfl

/-- What `log_store` does: some records are dropped, and one is added unless there is no room for it even
when it is truncated. -/
structure Stored (cfg : LogConfig) (s : LogBuf) (ms : List Msg) (e : LogEntry) (k : Nat) (s' : LogBuf) :
    Prop where
  le : k ≤ ms.length
  inv : BufInv cfg s' (ms.drop k ++ (makeRoom cfg s e).1.toList)
  firstSeq : s'.logFirstSeq = s.logFirstSeq + k
  nextSeq : s'.logNextSeq = s.logNextSeq + (makeRoom cfg s e).1.toList.length
  noRoom : NoRoom cfg s (e.full.size cfg) k
  indices : ∀ seq, s.logFirstSeq + k ≤ seq → seq ≤ s.logNextSeq → s'.indexOfSeq seq = s.indexOfSeq seq
  frame : ∀ x : Int, x < 0 ∨ cfg.logBufLen ≤ x → s'.logBuf x = s.logBuf x

theorem fillMsg_seqs (cfg : LogConfig) (m : Msg) (s : LogBuf) :
    (fillMsg cfg m s).logFirstSeq = s.logFirstSeq ∧ (fillMsg cfg m s).logNextSeq = s.logNextSeq + 1 := by
  unfold fillMsg
  dsimp only
  split <;> exact ⟨rfl, rfl⟩

theorem logStore_stored (h : BufInv cfg s ms) (hsized : e.Sized cfg) :
    ∃ k, Stored cfg s ms e k (logStore cfg s e).2 := by
  obtain ⟨k, hmade⟩ := makeRoom_made h e
  refine ⟨k, ?_⟩
  unfold logStore
  rcases hroom : makeRoom cfg s e with ⟨_ | m, t⟩
  · rw [hroom] at hmade
    refine ⟨hmade.le, ?_, hmade.dropped.firstSeq, ?_, hmade.noRoom,
      fun seq hle _ => hmade.dropped.indexOfSeq hle, fun x _ => congrFun hmade.dropped.logBuf x⟩
    · rw [hroom, Option.toList_none, List.append_nil]
      exact hmade.inv
    · rw [hroom]
      exact hmade.dropped.nextSeq
  · rw [hroom] at hmade
    obtain ⟨hinv, hindices, hframe⟩ := hmade.inv.fillMsg (hmade.hasSpace m rfl) (hmade.size_lt hsized rfl)
    obtain ⟨hfirst, hnext⟩ := fillMsg_seqs cfg m t
    refine ⟨hmade.le, ?_, hfirst.trans hmade.dropped.firstSeq, ?_, hmade.noRoom, fun seq hle hseq => ?_,
      fun x hx => ?_⟩
    · rw [hroom]
      exact hinv
    · rw [hroom]
      exact hnext.trans (congrArg (· + 1) hmade.dropped.nextSeq)
    · show (fillMsg cfg m t).indexOfSeq seq = s.indexOfSeq seq
      rw [hindices seq (hseq.trans hmade.dropped.nextSeq.ge), hmade.dropped.indexOfSeq hle]
    · show (fillMsg cfg m t).logBuf x = s.logBuf x
      rw [hframe x hx, hmade.dropped.logBuf]

/-! ## Reading -/

/-- The records are found from the first index on. -/
theorem Chain.recordsFrom {first next : Nat} {front back : List Msg}
    (h : Chain cfg logBuf first next front back) (hms : front ++ back = ms) :
    List.Forall₂ (StoredAt cfg logBuf) (recordsFrom logBuf ms.length first) ms := by
  induction ms generalizing first front back with
  | nil => exact List.Forall₂.nil
  | cons m ms ih =>
    obtain ⟨hm, front', back', hrest, hchain, -⟩ := h.tail hms
    exact List.Forall₂.cons hm (ih hchain hrest)

theorem Chain.recordsFrom_inside {first next : Nat} {front back : List Msg}
    (h : Chain cfg logBuf first next front back) (hms : front ++ back = ms)
    (haligned : cfg.logAlign ∣ first) :
    ∀ idx ∈ Printk.recordsFrom logBuf ms.length first,
      cfg.logAlign ∣ idx ∧ idx + (msgAt logBuf idx).size cfg ≤ cfg.logBufLen := by
  induction ms generalizing first front back with
  | nil => exact fun idx hidx => by cases hidx
  | cons m ms ih =>
    obtain ⟨hm, front', back', hrest, hchain, -⟩ := h.tail hms
    refine List.forall_mem_cons.mpr ⟨?_, ih hchain hrest (h.aligned_logNext hms haligned)⟩
    rw [hm.msgAt_eq]
    exact h.inside hms haligned

theorem BufInv.turns (h : BufInv cfg s ms) : s.logNextSeq - s.logFirstSeq = ms.length := by
  rw [h.seqs, Nat.add_sub_cancel_left]

theorem map_msgAt {idxs : List Nat} (h : List.Forall₂ (StoredAt cfg logBuf) idxs ms) :
    idxs.map (msgAt logBuf) = ms := by
  induction h with
  | nil => rfl
  | cons hm _ ih => rw [List.map_cons, hm.msgAt_eq, ih]

theorem BufInv.contents_eq (h : BufInv cfg s ms) : s.contents = ms := by
  obtain ⟨front, back, hms, hchain⟩ := h.chain
  rw [LogBuf.contents, h.turns]
  exact map_msgAt (hchain.recordsFrom hms)

/-- The record `k` records behind the first one. -/
theorem Chain.storedAt {first next : Nat} {front back : List Msg}
    (h : Chain cfg logBuf first next front back) (hms : front ++ back = ms) {k : Nat}
    (hk : k < ms.length) : StoredAt cfg logBuf (logFromIdx logBuf ((logNext logBuf)^[k] first)) ms[k] := by
  induction k generalizing first front back ms with
  | zero =>
    obtain ⟨m, rest, rfl⟩ := List.exists_cons_of_length_pos hk
    exact (h.tail hms).1
  | succ k ih =>
    obtain ⟨m, rest, rfl⟩ := List.exists_cons_of_length_pos (Nat.zero_lt_of_lt hk)
    obtain ⟨-, front', back', hrest, hchain, -⟩ := h.tail hms
    exact ih hchain hrest (by simpa using hk)

/-- What a reader finds at a sequence number. -/
theorem BufInv.msgAt_eq (h : BufInv cfg s ms) {seq : Nat}
    (hms : ms[seq - s.logFirstSeq]? = some m) :
    msgAt s.logBuf (logFromIdx s.logBuf (s.indexOfSeq seq)) = m := by
  obtain ⟨front, back, hrecords, hchain⟩ := h.chain
  obtain ⟨hk, rfl⟩ := List.getElem?_eq_some_iff.mp hms
  exact (hchain.storedAt hrecords hk).msgAt_eq

theorem logNext_indexOfSeq {seq : Nat} (hle : s.logFirstSeq ≤ seq) :
    logNext s.logBuf (s.indexOfSeq seq) = s.indexOfSeq (seq + 1) := by
  unfold LogBuf.indexOfSeq
  rw [Nat.sub_add_comm hle, Function.iterate_succ_apply']

/-! ## Runs -/

/-- The invariant of the system. -/
structure LogInv (cfg : LogConfig) (s : LogSystem) : Prop where
  buf : BufInv cfg s.log (s.stored.drop s.log.logFirstSeq)
  first_le : s.log.logFirstSeq ≤ s.stored.length

section System

variable {s s' : LogSystem} {e : SizedEntry cfg}

theorem LogInv.nextSeq_eq (h : LogInv cfg s) : s.log.logNextSeq = s.stored.length := by
  have hseqs := h.buf.seqs
  have hle := h.first_le
  rw [List.length_drop] at hseqs
  omega

theorem logInv_start (cfg : LogConfig) (logBuf : Memory UInt8) : LogInv cfg (.start logBuf) :=
  ⟨bufInv_start cfg logBuf, le_rfl⟩

theorem logInv_step (h : LogInv cfg s) (hstep : logStep cfg s e = some s') : LogInv cfg s' := by
  obtain rfl := Option.some.inj hstep
  obtain ⟨k, hst⟩ := logStore_stored h.buf e.property
  have hk := hst.le
  rw [List.length_drop] at hk
  have hfirst := h.first_le
  constructor
  · show BufInv cfg (logStore cfg s.log e.val).2 _
    rw [hst.firstSeq, List.drop_append_of_le_length (by omega), ← List.drop_drop]
    exact hst.inv
  · show (logStore cfg s.log e.val).2.logFirstSeq ≤ _
    rw [hst.firstSeq, List.length_append]
    omega

theorem LogInv.keepsLast (h : LogInv cfg s) : s.KeepsLast cfg := by
  obtain ⟨front, back, hms, hchain⟩ := h.buf.chain
  refine ⟨h.buf.contents_eq, ?_, h.nextSeq_eq, ?_⟩
  · rw [h.nextSeq_eq]
    exact h.first_le
  · rw [h.buf.turns]
    exact hchain.recordsFrom_inside hms h.buf.aligned

theorem LogInv.dropsFor (h : LogInv cfg s) (hstep : logStep cfg s e = some s') : s.DropsFor cfg e.val s' := by
  obtain ⟨k, hst⟩ := logStore_stored h.buf e.property
  obtain rfl := Option.some.inj hstep
  have hfirst : (logStore cfg s.log e.val).2.logFirstSeq = s.log.logFirstSeq + k := hst.firstSeq
  refine ⟨hfirst.ge.trans' (Nat.le_add_right _ _), fun seq hle hlt => ?_⟩
  change seq < (logStore cfg s.log e.val).2.logFirstSeq at hlt
  exact hst.noRoom (seq - s.log.logFirstSeq) (by omega)

/-- A truncated record takes a small part of the buffer. -/
theorem size_truncated_le (hlen : 256 ≤ cfg.logBufLen) (e : LogEntry) :
    2 * ((e.truncated cfg).size cfg + sizeofPrintkLog) ≤ cfg.logBufLen := by
  have hpad := padLen_lt cfg (e.truncated cfg).text.length (e.truncated cfg).dict.length
  have htext : (e.truncated cfg).text.length ≤ cfg.logBufLen / maxLogTakePart + truncMsg.length := by
    show (e.text.take _ ++ truncMsg).length ≤ _
    rw [List.length_append]
    exact Nat.add_le_add_right (List.length_take_le _ _) _
  have hdict : (e.truncated cfg).dict.length = 0 := rfl
  have hwarning : truncMsg.length = 11 := rfl
  rw [size_eq]
  unfold sizeofPrintkLog maxLogTakePart at *
  omega

theorem LogInv.stores (h : LogInv cfg s) (hstep : logStep cfg s e = some s') :
    s.Stores cfg e.val s' := by
  have hinv' := logInv_step h hstep
  obtain ⟨j, hmade⟩ := makeRoom_made h.buf e.val
  obtain ⟨k, hst⟩ := logStore_stored h.buf e.property
  have hk := hst.le
  have hbuf := hst.inv
  obtain rfl := Option.some.inj hstep
  refine ⟨fun hhalf => ?_, fun hlen => ?_, ?_, hst.frame⟩
  · show s.stored ++ (makeRoom cfg s.log e.val).1.toList = _
    rw [hmade.half hhalf]
    rfl
  · obtain ⟨m, hm⟩ := Option.isSome_iff_exists.mp (hmade.halfTruncated (size_truncated_le hlen e.val))
    show s.stored ++ (makeRoom cfg s.log e.val).1.toList = _ ∨ s.stored ++ (makeRoom cfg s.log e.val).1.toList = _
    rw [hm]
    rcases hmade.form m hm with rfl | rfl
    · exact Or.inl rfl
    · exact Or.inr rfl
  · show s.stored ++ (makeRoom cfg s.log e.val).1.toList = s.stored ∨
      (logStore cfg s.log e.val).2.contents.getLast? = _
    cases hroom : (makeRoom cfg s.log e.val).1 with
    | none => exact Or.inl (List.append_nil _)
    | some m =>
      right
      rw [hroom] at hbuf
      rw [hbuf.contents_eq]
      simp

end System

/-! ## Main results -/

/-- In every run of `log_store` the buffer holds the last of the records stored, each as it was stored; no record
is dropped while there is room for the new one. -/
theorem log_buffer_keeps_last (cfg : LogConfig) (logBuf : Memory UInt8)
    (entries : List (SizedEntry cfg)) :
    AllSteps (logStep cfg) (fun s e s' => s'.KeepsLast cfg ∧ s.DropsFor cfg e.val s') (.start logBuf) entries := by
  apply allSteps_of_inv (LogInv cfg)
  · intro s e s' hs hstep
    have hs' := logInv_step hs hstep
    exact ⟨⟨hs'.keepsLast, hs.dropsFor hstep⟩, hs'⟩
  · exact logInv_start cfg logBuf

/-- In every run of `log_store` each entry leaves its record in the buffer. -/
theorem log_store_leaves_record (cfg : LogConfig) (logBuf : Memory UInt8)
    (entries : List (SizedEntry cfg)) :
    AllSteps (logStep cfg) (fun s e s' => s.Stores cfg e.val s') (.start logBuf) entries := by
  apply allSteps_of_inv (LogInv cfg)
  · intro s e s' hs hstep
    exact ⟨hs.stores hstep, logInv_step hs hstep⟩
  · exact logInv_start cfg logBuf

/-! ### A small buffer -/

theorem small_sizeof_le : sizeofPrintkLog ≤ 64 := by decide

theorem small_logBufLen_le : 64 ≤ 2 ^ 31 := by norm_num

theorem small_alignShift_le : 2 ≤ 4 := by decide

def smallLog : LogConfig where
  logBufLen := 64
  sizeof_le := small_sizeof_le
  logBufLen_le := small_logBufLen_le
  alignShift := 2
  alignShift_le := small_alignShift_le

/-- An entry of two lines. -/
def twoLines : LogEntry where
  facility := 1
  level := 6
  flags := 0
  tsNsec := 5
  dict := []
  text := [97, 10, 98]
  clock := 0

theorem twoLines_sized : twoLines.Sized smallLog := by decide

end Am437x.Printk
