import Am437x.Printk.Cont
import Am437x.Printk.Proofs.LogBufferProofs

/-!
# No text is lost on the way to the log

The texts printed are cut into lines by a function of them alone; the buffer holds the last line as long as
it may go on, and the log has the records of the others.
-/

namespace Am437x.Printk

open Runs

variable {cfg : LogConfig} {s : Printer} {f : Fragment} {l : Line} {lines : List Line} {pending : Option Line}

/-! ## Lines -/

namespace Line

/-- The line of one text. -/
def single (f : Fragment) : Line := ⟨f, []⟩

def add (l : Line) (f : Fragment) : Line := { l with rest := l.rest ++ [f] }

@[simp] theorem single_text (f : Fragment) : (single f).text = f.text := by
  simp [single, text, fragments]

@[simp] theorem single_last (f : Fragment) : (single f).last = f := rfl

@[simp] theorem add_fragments (l : Line) (f : Fragment) : (l.add f).fragments = l.fragments ++ [f] := rfl

@[simp] theorem add_text (l : Line) (f : Fragment) : (l.add f).text = l.text ++ f.text := by
  simp [text]

@[simp] theorem add_last (l : Line) (f : Fragment) : (l.add f).last = f := by
  simp [add, last]

theorem fragments_eq (l : Line) : l.fragments = l.fragments.dropLast ++ [l.last] := by
  have hlast : (l.first :: l.rest).getLast (List.cons_ne_nil _ _) = l.last :=
    List.getLast_eq_getLastD _
  rw [← hlast]
  exact (List.dropLast_append_getLast _).symm

theorem wellFormed_single (f : Fragment) : (single f).WellFormed :=
  ⟨nofun, nofun, Or.inl rfl⟩

theorem WellFormed.add (h : l.WellFormed) (hjoins : l.Joins f) : (l.add f).WellFormed := by
  obtain ⟨-, hlast, hcont, hcaller, hlength⟩ := hjoins
  refine ⟨fun g hg => ?_, fun g hg => ?_, Or.inr ?_⟩
  · rcases List.mem_append.mp hg with hg | hg
    · exact h.cont g hg
    · obtain rfl := List.mem_singleton.mp hg
      exact ⟨hcont, hcaller⟩
  · rw [add_fragments, List.dropLast_concat, fragments_eq] at hg
    rcases List.mem_append.mp hg with hg | hg
    · exact h.newline g hg
    · obtain rfl := List.mem_singleton.mp hg
      exact hlast
  · rw [add_text, List.length_append]
    exact hlength

end Line

/-! ## Cutting the texts into lines -/

/-- A text that does not go on with a line. -/
def cutBegin (f : Fragment) (lines : List Line) : List Line × Option Line :=
  if f.lflags.newline = false ∧ f.text ≠ [] ∧ f.text.length ≤ logLineMax then (lines, some (.single f))
  else (lines ++ [.single f], none)

/-- The next text. -/
def cutNext (f : Fragment) : List Line → Option Line → List Line × Option Line
  | lines, none => cutBegin f lines
  | lines, some l =>
    if l.Joins f then
      if f.lflags.newline then (lines ++ [l.add f], none) else (lines, some (l.add f))
    else cutBegin f (lines ++ [l])

/-- The lines are as long as possible. -/
structure IsCut (printed : List Fragment) (lines : List Line) (pending : Option Line) : Prop where
  printed : (lines ++ pending.toList).flatMap Line.fragments = printed
  wellFormed : ∀ l ∈ lines ++ pending.toList, l.WellFormed
  longest : List.IsChain (fun l l' : Line => ¬ l.Joins l'.first) (lines ++ pending.toList)
  /-- Nothing goes on with a line that is not in the buffer any more. -/
  closed : pending = none → ∀ l ∈ lines.getLast?, ∀ f, ¬ l.Joins f

theorem isCut_nil : IsCut [] [] none :=
  ⟨rfl, nofun, List.isChain_nil, nofun⟩

/-- A line of one text is added. -/
theorem cutBegin_isCut {printed : List Fragment}
    (hprinted : lines.flatMap Line.fragments = printed) (hwell : ∀ l ∈ lines, l.WellFormed)
    (hlongest : List.IsChain (fun l l' : Line => ¬ l.Joins l'.first) lines)
    (hlast : ∀ l ∈ lines.getLast?, ¬ l.Joins f) :
    IsCut (printed ++ [f]) (cutBegin f lines).1 (cutBegin f lines).2 := by
  have happend : (lines ++ [Line.single f]).flatMap Line.fragments = printed ++ [f] := by
    rw [List.flatMap_append, hprinted]
    rfl
  have hwell' : ∀ l ∈ lines ++ [Line.single f], l.WellFormed := by
    intro l hl
    rcases List.mem_append.mp hl with hl | hl
    · exact hwell l hl
    · obtain rfl := List.mem_singleton.mp hl
      exact Line.wellFormed_single f
  have hlongest' : List.IsChain (fun l l' : Line => ¬ l.Joins l'.first) (lines ++ [Line.single f]) := by
    refine List.isChain_append.mpr ⟨hlongest, List.isChain_singleton _, fun l hl l' hl' => ?_⟩
    obtain rfl := Option.some.inj hl'
    exact hlast l hl
  unfold cutBegin
  split
  case isTrue => exact ⟨happend, hwell', hlongest', nofun⟩
  case isFalse hclosed =>
    refine ⟨?_, ?_, ?_, fun _ l hl g hjoins => ?_⟩
    · rw [Option.toList_none, List.append_nil]
      exact happend
    · rw [Option.toList_none, List.append_nil]
      exact hwell'
    · rw [Option.toList_none, List.append_nil]
      exact hlongest'
    · rw [List.getLast?_concat] at hl
      obtain rfl := Option.some.inj hl
      obtain ⟨hne, hnewline, -, -, hlength⟩ := hjoins
      rw [Line.single_text] at hne hlength
      exact hclosed ⟨hnewline, hne, (Nat.le_add_right _ _).trans hlength⟩

theorem IsCut.next {printed : List Fragment} (h : IsCut printed lines pending) (f : Fragment) :
    IsCut (printed ++ [f]) (cutNext f lines pending).1 (cutNext f lines pending).2 := by
  obtain ⟨hprinted, hwell, hlongest, hclosed⟩ := h
  cases pending with
  | none =>
    rw [Option.toList_none, List.append_nil] at hprinted hwell hlongest
    exact cutBegin_isCut hprinted hwell hlongest fun l hl => hclosed rfl l hl f
  | some l =>
    rw [Option.toList_some] at hprinted hwell hlongest
    have hl := hwell l (List.mem_append_right _ (List.mem_singleton_self l))
    by_cases hjoins : l.Joins f
    · have happend : (lines ++ [l.add f]).flatMap Line.fragments = printed ++ [f] := by
        rw [← hprinted]
        simp
      have hwell' : ∀ l' ∈ lines ++ [l.add f], l'.WellFormed := by
        intro l' hl'
        rcases List.mem_append.mp hl' with hl' | hl'
        · exact hwell l' (List.mem_append_left _ hl')
        · obtain rfl := List.mem_singleton.mp hl'
          exact hl.add hjoins
      -- the line begins as before, so that nothing goes on with the one in front of it
      have hlongest' : List.IsChain (fun l l' : Line => ¬ l.Joins l'.first) (lines ++ [l.add f]) := by
        obtain ⟨hlines, -, hlast⟩ := List.isChain_append.mp hlongest
        refine List.isChain_append.mpr ⟨hlines, List.isChain_singleton _, fun l₁ hl₁ l₂ hl₂ => ?_⟩
        obtain rfl := Option.some.inj hl₂
        exact hlast l₁ hl₁ l rfl
      rw [cutNext, if_pos hjoins]
      split
      case isTrue hnewline =>
        refine ⟨?_, ?_, ?_, fun _ l' hl' g hgoes => ?_⟩
        · rw [Option.toList_none, List.append_nil]
          exact happend
        · rw [Option.toList_none, List.append_nil]
          exact hwell'
        · rw [Option.toList_none, List.append_nil]
          exact hlongest'
        · rw [List.getLast?_concat] at hl'
          obtain rfl := Option.some.inj hl'
          have hend := hgoes.2.1
          rw [Line.add_last, hnewline] at hend
          cases hend
      case isFalse => exact ⟨happend, hwell', hlongest', nofun⟩
    · rw [cutNext, if_neg hjoins]
      refine cutBegin_isCut hprinted hwell hlongest fun l' hl' => ?_
      rw [List.getLast?_concat] at hl'
      obtain rfl := Option.some.inj hl'
      exact hjoins

/-! ## What the printing functions store -/

/-- What `vprintk_store` gives to `log_output`; a dictionary comes with a complete line. -/
structure Fragment.Short (f : Fragment) : Prop where
  text : f.text.length ≤ logLineMax
  dict : f.dict.length ≤ logLineMax
  complete : f.lflags.newline = false → f.dict = []

/-- Records of texts of this length are stored as they are. -/
theorem LogSystem.store_full {log : LogSystem} (h : LogInv cfg log) (hlen : 4096 ≤ cfg.logBufLen)
    {e : LogEntry} (htext : e.text.length ≤ logLineMax) (hdict : e.dict.length ≤ logLineMax) :
    LogInv cfg (log.store cfg e) ∧ (log.store cfg e).stored = log.stored ++ [e.full] := by
  have hline : logLineMax = 992 := rfl
  have hheader : sizeofPrintkLog = 16 := rfl
  have hwarning : truncMsg.length = 11 := rfl
  have hfull : e.full.size cfg ≤ 2015 := by
    have hpad := padLen_lt cfg e.full.text.length e.full.dict.length
    have htext' : e.full.text.length = e.text.length := rfl
    have hdict' : e.full.dict.length = e.dict.length := rfl
    rw [size_eq]
    omega
  have htruncated : (e.truncated cfg).size cfg ≤ 2015 := by
    have hpad := padLen_lt cfg (e.truncated cfg).text.length (e.truncated cfg).dict.length
    have htext' : (e.truncated cfg).text.length ≤ e.text.length + truncMsg.length := by
      show (e.text.take _ ++ truncMsg).length ≤ _
      rw [List.length_append]
      exact Nat.add_le_add_right (List.length_take_le' _ _) _
    have hdict' : (e.truncated cfg).dict.length = 0 := rfl
    rw [size_eq]
    omega
  have hsized : e.Sized cfg := ⟨by omega, by omega⟩
  have hstep : logStep cfg log ⟨e, hsized⟩ = some (log.store cfg e) := rfl
  exact ⟨logInv_step h hstep, (h.stores hstep).full (show 2 * (e.full.size cfg + _) ≤ _ by omega)⟩

/-- The buffer holds a line. -/
structure Buffered (c : Cont) (l : Line) : Prop where
  text : c.text = l.text
  ne : l.text ≠ []
  length : l.text.length ≤ logLineMax
  callerId : c.callerId = l.first.callerId
  tsNsec : c.tsNsec = l.first.clock
  level : c.level = l.first.level
  facility : c.facility = l.first.facility
  flags : c.flags = { newline := l.last.lflags.newline, cont := l.first.lflags.cont }
  dict : l.first.dict = []

/-- The log has the records of the lines, and the buffer the one that may go on. -/
structure Holds (cfg : LogConfig) (s : Printer) (lines : List Line) (pending : Option Line) : Prop where
  log : LogInv cfg s.log
  records : List.Forall₂ Line.Record s.log.stored (lines.filter fun l => ¬ l.Skipped)
  unused : pending = none → s.cont.text = []
  buffered : ∀ l ∈ pending, Buffered s.cont l ∧ l.last.lflags.newline = false

theorem Buffered.record {c : Cont} (h : Buffered c l) (clock : BitVec 64) :
    Line.Record (c.entry clock).full l where
  text := h.text
  dict := by
    rw [h.dict, ite_self]
    rfl
  facility := congrArg (BitVec.ofNat 8) h.facility
  level := congrArg (BitVec.ofNat 3) h.level
  flags := congrArg (fun flags : LogFlags => BitVec.ofNat 5 flags.value) h.flags
  time := by
    show (if 0 < c.tsNsec then c.tsNsec else clock) = l.first.clock ∨ _
    rw [h.tsNsec]
    split
    case isTrue => exact Or.inl rfl
    case isFalse hzero => exact Or.inr (BitVec.not_lt.mp hzero |> BitVec.le_zero_iff.mp)

theorem record_single (f : Fragment) : Line.Record f.entry.full (.single f) where
  text := (Line.single_text f).symm
  dict := rfl
  facility := rfl
  level := rfl
  flags := rfl
  time := Or.inl rfl

theorem filter_not_skipped_append (hne : l.text ≠ []) :
    (lines ++ [l]).filter (fun l => ¬ l.Skipped) = lines.filter (fun l => ¬ l.Skipped) ++ [l] := by
  have hkept : ¬ l.Skipped := by
    intro hskipped
    apply hne
    obtain ⟨hrest, htext, -⟩ := hskipped
    simp [Line.text, Line.fragments, hrest, htext]
  rw [List.filter_append, List.filter_singleton, decide_eq_true hkept, cond_true]

/-- A line in the buffer is stored. -/
theorem contFlush_buffered (hlen : 4096 ≤ cfg.logBufLen) {log : LogSystem} {c : Cont} (hlog : LogInv cfg log)
    (hrecords : List.Forall₂ Line.Record log.stored (lines.filter fun l => ¬ l.Skipped))
    (hbuf : Buffered c l) (clock : BitVec 64) :
    Holds cfg (contFlush cfg clock ⟨log, c⟩) (lines ++ [l]) none := by
  have hne : c.text ≠ [] := by
    rw [hbuf.text]
    exact hbuf.ne
  have htext : (c.entry clock).text.length ≤ logLineMax := by
    show c.text.length ≤ logLineMax
    rw [hbuf.text]
    exact hbuf.length
  obtain ⟨hlog', hstored⟩ := LogSystem.store_full hlog hlen htext (Nat.zero_le _)
  unfold contFlush
  rw [if_neg hne]
  refine ⟨hlog', ?_, fun _ => rfl, nofun⟩
  rw [hstored, filter_not_skipped_append hbuf.ne]
  exact List.rel_append hrecords (.cons (hbuf.record clock) .nil)

theorem contFlush_unused (clock : BitVec 64) (h : s.cont.text = []) : contFlush cfg clock s = s := if_pos h

theorem Buffered.begin {c : Cont} (h : Buffered c l) (f : Fragment) : c.begin f = c := by
  refine if_neg ?_
  rw [h.text]
  exact h.ne

/-- A text is added to the line in the buffer. -/
theorem Buffered.add {c : Cont} (h : Buffered c l) (hjoins : l.Joins f) :
    Buffered { c.begin f with
      text := (c.begin f).text ++ f.text
      flags := { (c.begin f).flags with newline := f.lflags.newline } } (l.add f) := by
  rw [h.begin]
  refine ⟨?_, ?_, ?_, h.callerId, h.tsNsec, h.level, h.facility, ?_, h.dict⟩
  · rw [Line.add_text, h.text]
  · rw [Line.add_text]
    exact fun hnil => h.ne (List.append_eq_nil_iff.mp hnil).1
  · rw [Line.add_text, List.length_append]
    exact hjoins.2.2.2.2
  · rw [Line.add_last, h.flags]
    rfl

theorem contAdd_joins (hlen : 4096 ≤ cfg.logBufLen) (h : Holds cfg s lines (some l)) (hjoins : l.Joins f) :
    (contAdd cfg f s).1 = true ∧
      Holds cfg (contAdd cfg f s).2 (cutNext f lines (some l)).1 (cutNext f lines (some l)).2 := by
  obtain ⟨hbuf, hlast⟩ := h.buffered l rfl
  have hadd := hbuf.add hjoins
  have hroom : ¬ logLineMax < s.cont.text.length + f.text.length := by
    rw [hbuf.text]
    exact not_lt.mpr hjoins.2.2.2.2
  unfold contAdd
  rw [if_neg hroom, cutNext, if_pos hjoins]
  cases hnewline : f.lflags.newline with
  | true =>
    rw [hnewline] at hadd
    exact ⟨rfl, contFlush_buffered hlen h.log h.records hadd f.clock⟩
  | false =>
    refine ⟨rfl, h.log, h.records, nofun, fun l' hl' => ?_⟩
    obtain rfl := Option.some.inj hl'
    have hflags : { (s.cont.begin f).flags with newline := f.lflags.newline } = (s.cont.begin f).flags := by
      rw [hbuf.begin, hbuf.flags, hlast, hnewline]
    rw [hflags] at hadd
    exact ⟨hadd, (congrArg (·.lflags.newline) (Line.add_last l f)).trans hnewline⟩

/-- A line begins in the unused buffer. -/
theorem contAdd_begin (h : Holds cfg s lines none) (hshort : f.Short) (hnewline : f.lflags.newline = false) :
    (contAdd cfg f s).1 = true ∧
      Holds cfg (contAdd cfg f s).2 (cutBegin f lines).1 (cutBegin f lines).2 := by
  have hunused := h.unused rfl
  have hroom : ¬ logLineMax < s.cont.text.length + f.text.length := by
    rw [hunused, List.length_nil, Nat.zero_add]
    exact not_lt.mpr hshort.text
  have hbegin : s.cont.begin f = ⟨[], f.callerId, f.clock, f.level, f.facility, f.lflags⟩ := if_pos hunused
  have hadd : contAdd cfg f s =
      (true, ⟨s.log, ⟨f.text, f.callerId, f.clock, f.level, f.facility, f.lflags⟩⟩) := by
    unfold contAdd
    rw [if_neg hroom, hbegin, hnewline]
    rfl
  rw [hadd]
  refine ⟨rfl, ?_⟩
  unfold cutBegin
  by_cases htext : f.text = []
  · rw [if_neg fun hand => hand.2.1 htext]
    have hskipped : (Line.single f).Skipped := ⟨rfl, htext, Or.inr hnewline⟩
    refine ⟨h.log, ?_, fun _ => htext, nofun⟩
    rw [List.filter_append, List.filter_singleton, decide_eq_false (not_not.mpr hskipped), cond_false,
      List.append_nil]
    exact h.records
  · rw [if_pos ⟨hnewline, htext, hshort.text⟩]
    refine ⟨h.log, h.records, nofun, fun l hl => ?_⟩
    obtain rfl := Option.some.inj hl
    refine ⟨⟨?_, ?_, ?_, rfl, rfl, rfl, rfl, rfl, hshort.complete hnewline⟩, hnewline⟩
    · exact (Line.single_text f).symm
    · rw [Line.single_text]
      exact htext
    · rw [Line.single_text]
      exact hshort.text

/-- The first part of `log_output` leaves the text to the second one, or has added it. -/
theorem contJoin_holds (hlen : 4096 ≤ cfg.logBufLen) (h : Holds cfg s lines pending) (f : Fragment) :
    ((contJoin cfg f s).1 = true ∧
        Holds cfg (contJoin cfg f s).2 (cutNext f lines pending).1 (cutNext f lines pending).2) ∨
      ((contJoin cfg f s).1 = false ∧ Holds cfg (contJoin cfg f s).2 (lines ++ pending.toList) none ∧
        cutNext f lines pending = cutBegin f (lines ++ pending.toList)) := by
  cases pending with
  | none =>
    right
    unfold contJoin
    rw [if_pos (h.unused rfl), Option.toList_none, List.append_nil]
    exact ⟨rfl, h, rfl⟩
  | some l =>
    obtain ⟨hbuf, hlast⟩ := h.buffered l rfl
    have hne : s.cont.text ≠ [] := by
      rw [hbuf.text]
      exact hbuf.ne
    have hflush := contFlush_buffered hlen h.log h.records hbuf f.clock
    unfold contJoin
    rw [if_neg hne]
    by_cases hcaller : s.cont.callerId = f.callerId ∧ f.lflags.cont = true
    · rw [if_pos hcaller]
      by_cases hroom : logLineMax < s.cont.text.length + f.text.length
      · -- the line is too long: it is flushed in `cont_add` already
        have hjoins : ¬ l.Joins f := by
          intro hjoins
          rw [hbuf.text] at hroom
          exact absurd hjoins.2.2.2.2 (not_le.mpr hroom)
        have hadd : contAdd cfg f s = (false, contFlush cfg f.clock s) := if_pos hroom
        right
        rw [hadd, cutNext, if_neg hjoins]
        refine ⟨rfl, ?_, rfl⟩
        show Holds cfg (contFlush cfg f.clock (contFlush cfg f.clock s)) _ none
        rw [contFlush_unused f.clock (hflush.unused rfl)]
        exact hflush
      · have hjoins : l.Joins f := by
          refine ⟨hbuf.ne, hlast, hcaller.2, ?_, ?_⟩
          · rw [← hcaller.1, hbuf.callerId]
          · rw [← hbuf.text]
            exact not_lt.mp hroom
        obtain ⟨hadd, hholds⟩ := contAdd_joins hlen h hjoins
        left
        rcases hresult : contAdd cfg f s with ⟨added, t⟩
        rw [hresult] at hadd hholds
        obtain rfl : added = true := hadd
        exact ⟨rfl, hholds⟩
    · have hjoins : ¬ l.Joins f := by
        intro hjoins
        refine hcaller ⟨?_, hjoins.2.2.1⟩
        rw [hbuf.callerId, hjoins.2.2.2.1]
      right
      rw [if_neg hcaller, cutNext, if_neg hjoins]
      exact ⟨rfl, hflush, rfl⟩

/-- `log_output` keeps the log and the buffer at the lines into which the texts are cut. -/
theorem logOutput_holds (hlen : 4096 ≤ cfg.logBufLen) (h : Holds cfg s lines pending) (hshort : f.Short) :
    Holds cfg (logOutput cfg f s).2 (cutNext f lines pending).1 (cutNext f lines pending).2 := by
  have hjoin := contJoin_holds hlen h f
  unfold logOutput
  rcases hresult : contJoin cfg f s with ⟨joined, t⟩
  rw [hresult] at hjoin
  rcases hjoin with ⟨rfl, hholds⟩ | ⟨rfl, hholds, hcut⟩
  · exact hholds
  rw [hcut]
  generalize lines ++ pending.toList = lines at *
  dsimp only
  by_cases hempty : f.text = [] ∧ f.lflags.cont = true
  · rw [if_pos hempty, cutBegin, if_neg fun hand => hand.2.1 hempty.1]
    have hskipped : (Line.single f).Skipped := ⟨rfl, hempty.1, Or.inl hempty.2⟩
    refine ⟨hholds.log, ?_, hholds.unused, nofun⟩
    rw [List.filter_append, List.filter_singleton, decide_eq_false (not_not.mpr hskipped), cond_false,
      List.append_nil]
    exact hholds.records
  rw [if_neg hempty]
  cases hnewline : f.lflags.newline with
  | false =>
    obtain ⟨hadd, hbegin⟩ := contAdd_begin hholds hshort hnewline
    rw [if_neg Bool.false_ne_true]
    rcases hresult : contAdd cfg f t with ⟨added, u⟩
    rw [hresult] at hadd hbegin
    obtain rfl : added = true := hadd
    exact hbegin
  | true =>
    rw [if_pos rfl, cutBegin, if_neg fun hand => absurd (hnewline.symm.trans hand.1) (by decide)]
    obtain ⟨hlog, hstored⟩ := LogSystem.store_full hholds.log hlen (e := f.entry) hshort.text hshort.dict
    refine ⟨hlog, ?_, hholds.unused, nofun⟩
    have hkept : ¬ (Line.single f).Skipped := by
      intro hskipped
      rcases hskipped.2.2 with hcont | hfalse
      · exact hempty ⟨hskipped.2.1, hcont⟩
      · exact absurd (hnewline.symm.trans hfalse) (by decide)
    show List.Forall₂ Line.Record (t.log.store cfg f.entry).stored _
    rw [hstored, List.filter_append, List.filter_singleton, decide_eq_true hkept, cond_true]
    exact List.rel_append hholds.records (.cons (record_single f) .nil)

/-! ## `vprintk_store` -/

/-- A text that starts with a level has two bytes. -/
theorem LevelParser.two_le_of_ne (parser : LevelParser) {text : List UInt8} (h : parser.printkGetLevel text ≠ 0) :
    ∃ a b rest, text = a :: b :: rest := by
  have hlength := parser.two_le text h
  match text with
  | a :: b :: rest => exact ⟨a, b, rest, rfl⟩

theorem firstDigit_cons_digit {k : UInt8} (hk : ascii '0' ≤ k ∧ k ≤ ascii '7') (levels : List UInt8) :
    firstDigit (k :: levels) = some (k - ascii '0').toNat := by
  unfold firstDigit
  rw [List.find?_cons_of_pos (by exact decide_eq_true hk)]
  rfl

theorem firstDigit_cons_other {k : UInt8} (hk : ¬ (ascii '0' ≤ k ∧ k ≤ ascii '7')) (levels : List UInt8) :
    firstDigit (k :: levels) = firstDigit levels := by
  unfold firstDigit
  rw [List.find?_cons_of_neg (by rwa [decide_eq_true_iff])]

/-- The loop takes all levels off the text, keeps the first one that is a digit, and marks a continuation. -/
theorem stripLevels_levels (parser : LevelParser) {n : Nat} (level : Option Nat) (lflags : LogFlags)
    {text : List UInt8} (hn : text.length ≤ n) :
    ∃ levels rest, parser.Levels text levels rest ∧ stripLevels parser n level lflags text =
      (level.or (firstDigit levels), { lflags with cont := lflags.cont || levels.contains (ascii 'c') }, rest) := by
  induction n generalizing level lflags text with
  | zero =>
    obtain rfl := List.length_eq_zero_iff.mp (Nat.le_zero.mp hn)
    have hnone : parser.printkGetLevel [] = 0 := by
      by_contra hne
      exact absurd (parser.two_le [] hne) (by decide)
    refine ⟨[], [], .done hnone, ?_⟩
    rw [show firstDigit [] = none from rfl, Option.or_none, List.contains_nil, Bool.or_false]
    rfl
  | succ n ih =>
    unfold stripLevels
    dsimp only
    by_cases hzero : parser.printkGetLevel text = 0
    · refine ⟨[], text, .done hzero, ?_⟩
      rw [if_pos hzero, show firstDigit [] = none from rfl, Option.or_none, List.contains_nil, Bool.or_false]
    rw [if_neg hzero]
    obtain ⟨a, b, tail, rfl⟩ := parser.two_le_of_ne hzero
    have htail : tail.length ≤ n := by
      rw [List.length_cons, List.length_cons] at hn
      omega
    generalize hk : parser.printkGetLevel (a :: b :: tail) = k at hzero ⊢
    rw [List.drop_succ_cons, List.drop_succ_cons, List.drop_zero]
    split_ifs with hdigit hcont
    · obtain ⟨levels, rest, hlevels, hstrip⟩ := ih (some (level.getD (k - ascii '0').toNat)) lflags htail
      have hne : (ascii 'c' == k) = false := by
        rw [beq_eq_false_iff_ne]
        rintro rfl
        exact absurd hdigit.2 (by decide)
      refine ⟨k :: levels, rest, .level hk hzero hlevels, hstrip.trans ?_⟩
      rw [firstDigit_cons_digit hdigit, List.contains_cons, hne, Bool.false_or]
      cases level <;> rfl
    · obtain ⟨levels, rest, hlevels, hstrip⟩ := ih level { lflags with cont := true } htail
      refine ⟨k :: levels, rest, .level hk hzero hlevels, hstrip.trans ?_⟩
      rw [firstDigit_cons_other hdigit, List.contains_cons, hcont, beq_self_eq_true]
      simp only [Bool.true_or, Bool.or_true]
    · obtain ⟨levels, rest, hlevels, hstrip⟩ := ih level lflags htail
      have hne : (ascii 'c' == k) = false := beq_eq_false_iff_ne.mpr fun heq => hcont heq.symm
      refine ⟨k :: levels, rest, .level hk hzero hlevels, hstrip.trans ?_⟩
      rw [firstDigit_cons_other hdigit, List.contains_cons, hne, Bool.false_or]

theorem dropLast_append_newline {text : List UInt8} (h : text.getLast? = some newline) :
    text = text.dropLast ++ [newline] := by
  obtain ⟨body, rfl⟩ := List.getLast?_eq_some_iff.mp h
  rw [List.dropLast_concat]

/-- What is given to `log_output` is what the call prints. -/
theorem vprintkStore_prints (parser : LevelParser) (defaultMessageLoglevel : Nat) (c : VprintkCall) :
    c.Prints parser defaultMessageLoglevel (vprintkStore parser defaultMessageLoglevel c) := by
  obtain ⟨body, hbody, hstore⟩ : ∃ body : List UInt8,
      c.text = body ++ (if decide (c.text.getLast? = some newline) then [newline] else []) ∧
        (if c.text.getLast? = some newline then c.text.dropLast else c.text) = body := by
    by_cases hended : c.text.getLast? = some newline
    · refine ⟨c.text.dropLast, ?_, if_pos hended⟩
      rw [decide_eq_true hended, if_pos rfl]
      exact dropLast_append_newline hended
    · refine ⟨c.text, ?_, if_neg hended⟩
      rw [decide_eq_false hended, if_neg Bool.false_ne_true, List.append_nil]
  unfold vprintkStore
  dsimp only
  rw [hstore]
  by_cases hfacility : c.facility = 0
  · obtain ⟨levels, rest, hlevels, hstrip⟩ := stripLevels_levels parser c.level
      { newline := decide (c.text.getLast? = some newline), cont := false } (le_refl body.length)
    refine ⟨levels, rest, _, ⟨decide_eq_true_iff, body, hbody, ?_⟩, ?_⟩
    · rw [if_pos hfacility]
      exact hlevels
    · rw [if_pos hfacility, hstrip]
      cases c.dict <;> simp
  · refine ⟨[], body, _, ⟨decide_eq_true_iff, body, hbody, ?_⟩, ?_⟩
    · rw [if_neg hfacility]
      exact ⟨rfl, rfl⟩
    · rw [if_neg hfacility]
      cases c.dict <;> simp [firstDigit]

theorem LevelParser.Levels.length_le {parser : LevelParser} {text levels rest : List UInt8}
    (h : parser.Levels text levels rest) : rest.length ≤ text.length := by
  induction h with
  | done => exact le_rfl
  | level _ _ _ ih =>
    simp only [List.length_cons]
    omega

theorem VprintkCall.Prints.short {parser : LevelParser} {defaultMessageLoglevel : Nat} {c : VprintkCall}
    (h : c.Prints parser defaultMessageLoglevel f) (hc : c.Short) : f.Short := by
  obtain ⟨levels, text, ended, ⟨-, body, hbody, hparts⟩, rfl⟩ := h
  have hlength : body.length ≤ c.text.length := by
    rw [hbody, List.length_append]
    exact Nat.le_add_right _ _
  have htext : text.length ≤ body.length := by
    split at hparts
    · exact hparts.length_le
    · exact (congrArg List.length hparts.2).le
  refine ⟨(htext.trans hlength).trans hc.1.le, hc.2, fun hnewline => ?_⟩
  show c.dict.getD [] = []
  have hnone : c.dict.isSome = false := (Bool.or_eq_false_iff.mp hnewline).2
  rw [Option.isSome_eq_false_iff, Option.isNone_iff_eq_none] at hnone
  rw [hnone]
  rfl

variable {parser : LevelParser} {defaultMessageLoglevel : Nat}

/-- What holds of the state in every run. -/
def PrintkInv (cfg : LogConfig) (parser : LevelParser) (defaultMessageLoglevel : Nat) (s : PrintkSystem) :
    Prop :=
  ∃ printed lines pending, List.Forall₂ (VprintkCall.Prints parser defaultMessageLoglevel) s.calls printed ∧
    Holds cfg s.toPrinter lines pending ∧ IsCut printed lines pending

theorem Holds.cut {s : PrintkSystem} (h : Holds cfg s.toPrinter lines pending) {printed : List Fragment}
    (hprinted : List.Forall₂ (VprintkCall.Prints parser defaultMessageLoglevel) s.calls printed)
    (hcut : IsCut printed lines pending) : s.Cut parser defaultMessageLoglevel lines pending where
  printed := by
    rw [hcut.printed]
    exact hprinted
  wellFormed := hcut.wellFormed
  longest := hcut.longest
  records := h.records
  pending := by
    cases pending with
    | none => exact ⟨h.unused rfl, nofun⟩
    | some l =>
      obtain ⟨hbuf, -⟩ := h.buffered l rfl
      refine ⟨hbuf.text, fun l' hl' => ?_⟩
      obtain rfl := Option.some.inj hl'
      exact hbuf.ne

theorem printkInv_start (cfg : LogConfig) (logBuf : Flat.Memory UInt8) :
    PrintkInv cfg parser defaultMessageLoglevel (.start logBuf) :=
  ⟨[], [], none, .nil, ⟨logInv_start cfg logBuf, .nil, fun _ => rfl, nofun⟩, isCut_nil⟩

theorem printkInv_step (hlen : 4096 ≤ cfg.logBufLen) {s s' : PrintkSystem} {c : ShortCall}
    (h : PrintkInv cfg parser defaultMessageLoglevel s)
    (hstep : printkStep cfg parser defaultMessageLoglevel s c = some s') :
    PrintkInv cfg parser defaultMessageLoglevel s' := by
  obtain ⟨printed, lines, pending, hprinted, hholds, hcut⟩ := h
  obtain rfl := Option.some.inj hstep
  have hprints := vprintkStore_prints parser defaultMessageLoglevel c.val
  exact ⟨_, _, _, List.rel_append hprinted (.cons hprints .nil),
    logOutput_holds hlen hholds (hprints.short c.property), hcut.next _⟩

/-- In every run of `vprintk_store` the log and the continuation buffer hold all that the calls print, each
byte once and in order, cut into lines that are as long as the continuations make them. -/
theorem printk_keeps_lines (cfg : LogConfig) (hlen : 4096 ≤ cfg.logBufLen) (parser : LevelParser)
    (defaultMessageLoglevel : Nat) (logBuf : Flat.Memory UInt8) (calls : List ShortCall) :
    AllSteps (printkStep cfg parser defaultMessageLoglevel)
      (fun s c s' => s'.calls = s.calls ++ [c.val] ∧
        ∃ lines pending, s'.Cut parser defaultMessageLoglevel lines pending) (.start logBuf) calls := by
  apply allSteps_of_inv (PrintkInv cfg parser defaultMessageLoglevel)
  · intro s c s' hs hstep
    have hs' := printkInv_step hlen hs hstep
    obtain rfl := Option.some.inj hstep
    obtain ⟨printed, lines, pending, hprinted, hholds, hcut⟩ := hs'
    exact ⟨⟨rfl, lines, pending, hholds.cut hprinted hcut⟩, printed, lines, pending, hprinted, hholds, hcut⟩
  · exact printkInv_start cfg logBuf

theorem page_logBufLen_le : 4096 ≤ 2 ^ 31 := by norm_num

def pageLog : LogConfig where
  logBufLen := 4096
  sizeof_le := by decide
  logBufLen_le := page_logBufLen_le
  alignShift := 2
  alignShift_le := by decide

/-- A level is a byte 1 and a digit or `c`. -/
def kernSoh : LevelParser where
  printkGetLevel
    | 1 :: level :: _ =>
      if ascii '0' ≤ level ∧ level ≤ ascii '7' ∨ level = ascii 'c' then level else 0
    | _ => 0
  two_le text h := by
    rcases text with _ | ⟨a, _ | ⟨b, rest⟩⟩
    · exact absurd rfl h
    · refine absurd ?_ h
      split <;> simp_all
    · simp

/-- A warning in two parts. -/
def printkCalls : List ShortCall :=
  [⟨{ callerId := 1, facility := 0, level := none, dict := none, text := [1, 52, 97], clock := 7 }, by decide⟩,
    ⟨{ callerId := 1, facility := 0, level := none, dict := none, text := [1, 99, 98, 10], clock := 8 }, by decide⟩]

theorem printk_keeps_lines_two_parts :
    AllSteps (printkStep pageLog kernSoh 4)
      (fun s c s' => s'.calls = s.calls ++ [c.val] ∧ ∃ lines pending, s'.Cut kernSoh 4 lines pending)
      (.start fun _ => 0) printkCalls :=
  printk_keeps_lines pageLog le_rfl kernSoh 4 _ _

example : (run (printkStep pageLog kernSoh 4) (.start fun _ => 0) printkCalls).map
    (fun s => s.log.stored.map fun m => (m.text, m.level.toNat, m.flags.toNat)) = some [([97, 98], 4, 2)] := by
  decide +kernel

end Am437x.Printk
