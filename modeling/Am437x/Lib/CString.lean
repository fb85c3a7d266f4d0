import Mathlib.Data.List.TakeWhile
import Mathlib.Tactic

/-!
# NUL-terminated strings and line input

A character buffer is a list of bytes whose length is its capacity; the string it holds ends before the
first NUL. `fgets` is the C library's line input on a stream given by its remaining bytes.
-/

namespace CString

def newline : UInt8 := 0x0a

/-- The string in a buffer: the bytes before the first NUL. -/
def cstr (buf : List UInt8) : List UInt8 := buf.takeWhile (· ≠ 0)

def strlen (buf : List UInt8) : Nat := (cstr buf).length

/-- `strcspn` with a reject set of one character. -/
def strcspn (buf : List UInt8) (c : UInt8) : Nat := ((cstr buf).takeWhile (· ≠ c)).length

/-- Write a block into a buffer from index `i` on. -/
def writeAt (buf : List UInt8) (i : Nat) (block : List UInt8) : List UInt8 :=
  buf.take i ++ block ++ buf.drop (i + block.length)

/-- The loop of `fgets`: at most `n` characters, up to and with the first newline. -/
def getLine : Nat → List UInt8 → List UInt8 × List UInt8
  | 0, stream => ([], stream)
  | _ + 1, [] => ([], [])
  | n + 1, c :: stream =>
    if c = newline then ([c], stream)
    else (c :: (getLine n stream).1, (getLine n stream).2)

/-- `fgets(buf, n, stream)`: the characters stored before the NUL and the rest of the stream, or `none`
at the end of the stream. -/
def fgets (n : Nat) (stream : List UInt8) : Option (List UInt8 × List UInt8) :=
  if stream = [] then none else some (getLine (n - 1) stream)

theorem zero_notMem_cstr (buf : List UInt8) : 0 ∉ cstr buf := by
  intro h
  have hne := List.mem_takeWhile_imp h
  simp at hne

theorem cstr_eq_self_iff {block : List UInt8} : cstr block = block ↔ 0 ∉ block := by
  constructor
  · intro h
    rw [← h]
    exact zero_notMem_cstr block
  · intro h
    refine List.takeWhile_eq_self_iff.mpr fun c hc => ?_
    simp only [ne_eq, decide_eq_true_eq]
    rintro rfl
    exact h hc

theorem cstr_length_le (block : List UInt8) : (cstr block).length ≤ block.length :=
  (List.takeWhile_prefix _).length_le

theorem cstr_cons_of_ne {c : UInt8} (h : c ≠ 0) (block : List UInt8) :
    cstr (c :: block) = c :: cstr block :=
  List.takeWhile_cons_of_pos (by simpa using h)

theorem cstr_append_zero (block rest : List UInt8) : cstr (block ++ 0 :: rest) = cstr block := by
  induction block with
  | nil => simp [cstr]
  | cons c block ih =>
    by_cases hc : c = 0
    · simp [cstr, hc]
    · rw [List.cons_append, cstr_cons_of_ne hc, cstr_cons_of_ne hc, ih]

/-- A block written with a NUL behind it holds the string of the block. -/
theorem cstr_writeAt_string (buf block : List UInt8) :
    cstr (writeAt buf 0 (block ++ [0])) = cstr block := by
  rw [writeAt, List.take_zero, List.nil_append, List.append_assoc]
  exact cstr_append_zero block _

/-- A block without NUL, followed by one, is read back as a string. -/
theorem cstr_writeAt_zero {buf block : List UInt8} (h : 0 ∉ block) :
    cstr (writeAt buf 0 (block ++ [0])) = block := by
  rw [cstr_writeAt_string, cstr_eq_self_iff.mpr h]

/-- `buf[strcspn(buf, c)] = 0` cuts the string before the first `c`. -/
theorem cstr_set_strcspn (buf : List UInt8) (c : UInt8) :
    cstr (buf.set (strcspn buf c) 0) = (cstr buf).takeWhile (· ≠ c) := by
  induction buf with
  | nil => rfl
  | cons x buf ih =>
    by_cases hx : x = 0
    · simp [strcspn, cstr, hx]
    · have hcstr := cstr_cons_of_ne hx buf
      by_cases hxc : x = c
      · have hcspn : strcspn (x :: buf) c = 0 := by
          rw [strcspn, hcstr, List.takeWhile_cons_of_neg (by simpa using hxc)]
          rfl
        rw [hcspn, hcstr, List.takeWhile_cons_of_neg (by simpa using hxc)]
        rfl
      · have hcspn : strcspn (x :: buf) c = strcspn buf c + 1 := by
          simp [strcspn, hcstr, hxc]
        rw [hcspn, List.set_cons_succ, hcstr, List.takeWhile_cons_of_pos (by simpa using hxc), ← ih]
        exact cstr_cons_of_ne hx _

/-- `buf[strcspn(buf, c)]` is in the buffer when `c` or a NUL is. -/
theorem strcspn_lt_iff {buf : List UInt8} {c : UInt8} :
    strcspn buf c < buf.length ↔ 0 ∈ buf ∨ c ∈ buf := by
  induction buf with
  | nil => simp [strcspn, cstr]
  | cons x buf ih =>
    by_cases hx : x = 0
    · simp [strcspn, cstr, hx]
    · by_cases hxc : x = c
      · subst hxc
        simp [strcspn, cstr_cons_of_ne hx]
      · have hcspn : strcspn (x :: buf) c = strcspn buf c + 1 := by
          simp [strcspn, cstr_cons_of_ne hx, hxc]
        rw [hcspn, List.length_cons, Nat.add_lt_add_iff_right, ih, List.mem_cons, List.mem_cons]
        simp [Ne.symm hx, Ne.symm hxc]

theorem length_writeAt {buf block : List UInt8} {i : Nat} (h : i + block.length ≤ buf.length) :
    (writeAt buf i block).length = buf.length := by
  simp only [writeAt, List.length_append, List.length_take, List.length_drop]
  omega

/-- A block written and closed by a NUL behind it. -/
theorem cstr_writeAt_set (buf block : List UInt8) :
    cstr ((writeAt buf 0 block).set block.length 0) = cstr block := by
  rw [writeAt, List.take_zero, List.nil_append, List.set_append_right _ _ le_rfl, Nat.sub_self]
  cases buf.drop (0 + block.length) with
  | nil => rw [List.set_nil, List.append_nil]
  | cons c rest => exact cstr_append_zero block rest

/-! ## Lines -/

/-- A line that fits is read with its newline. -/
theorem getLine_of_lt {line : List UInt8} (h : newline ∉ line) {n : Nat} (hlt : line.length < n)
    (rest : List UInt8) : getLine n (line ++ newline :: rest) = (line ++ [newline], rest) := by
  induction line generalizing n with
  | nil =>
    obtain ⟨n, rfl⟩ := Nat.exists_eq_add_of_lt hlt
    simp [getLine]
  | cons c line ih =>
    obtain ⟨hc, hline⟩ := List.ne_and_not_mem_of_not_mem_cons h
    cases n with
    | zero => cases hlt
    | succ n =>
      have hrest := ih hline (n := n) (by simpa using hlt)
      rw [List.cons_append, getLine, if_neg (Ne.symm hc), hrest]
      rfl

/-- Of a line that does not fit, the characters that do are read. -/
theorem getLine_of_le {line : List UInt8} (h : newline ∉ line) {n : Nat} (hle : n ≤ line.length)
    (rest : List UInt8) : getLine n (line ++ rest) = (line.take n, line.drop n ++ rest) := by
  induction line generalizing n with
  | nil =>
    obtain rfl : n = 0 := Nat.le_zero.mp hle
    rfl
  | cons c line ih =>
    obtain ⟨hc, hline⟩ := List.ne_and_not_mem_of_not_mem_cons h
    cases n with
    | zero => rfl
    | succ n =>
      have hrest := ih hline (n := n) (by simpa using hle)
      rw [List.cons_append, getLine, if_neg (Ne.symm hc), hrest]
      rfl

theorem getLine_length (n : Nat) (stream : List UInt8) :
    (getLine n stream).1.length + (getLine n stream).2.length = stream.length := by
  induction stream generalizing n with
  | nil => cases n <;> rfl
  | cons c stream ih =>
    cases n with
    | zero => simp [getLine]
    | succ n =>
      have hrest := ih n
      rw [getLine]
      split
      · simp [Nat.add_comm]
      · simp only [List.length_cons]
        omega

theorem getLine_length_le (n : Nat) (stream : List UInt8) : (getLine n stream).1.length ≤ n := by
  induction stream generalizing n with
  | nil => cases n <;> simp [getLine]
  | cons c stream ih =>
    cases n with
    | zero => simp [getLine]
    | succ n =>
      have hrest := ih n
      rw [getLine]
      split
      · simp
      · simp only [List.length_cons]
        omega

theorem getLine_pos {n : Nat} (hn : 0 < n) {stream : List UInt8} (h : stream ≠ []) :
    0 < (getLine n stream).1.length := by
  cases n with
  | zero => cases hn
  | succ n =>
    cases stream with
    | nil => exact absurd rfl h
    | cons c stream =>
      rw [getLine]
      split <;> simp

/-- The lines of an input. The last one may lack its newline. -/
def lines : List UInt8 → List (List UInt8)
  | [] => []
  | c :: stream =>
    if c = newline then [] :: lines stream
    else (c :: (lines stream).headD []) :: (lines stream).tail

/-- The string in a buffer up to the first newline. -/
def lineOf (buf : List UInt8) : List UInt8 := (cstr buf).takeWhile (· ≠ newline)

/-- Where the first line fits, `getLine` reads it with the newline that ends it, if there is one. -/
theorem getLine_lines {stream : List UInt8} (h : stream ≠ []) {n : Nat}
    (hn : ((lines stream).headD []).length < n) :
    ∃ line ending, (getLine n stream).1 = line ++ ending ∧
      lines stream = line :: lines (getLine n stream).2 ∧ newline ∉ line ∧
      (ending = [] ∨ ending = [newline]) := by
  induction stream generalizing n with
  | nil => exact absurd rfl h
  | cons c stream ih =>
    cases n with
    | zero => cases hn
    | succ n =>
      by_cases hc : c = newline
      · refine ⟨[], [newline], ?_, ?_, List.not_mem_nil, Or.inr rfl⟩
        · simp [getLine, hc]
        · simp [lines, getLine, hc]
      · rw [lines, if_neg hc] at hn ⊢
        rw [getLine, if_neg hc]
        by_cases hstream : stream = []
        · subst hstream
          have hnil : getLine n [] = ([], []) := by cases n <;> rfl
          refine ⟨[c], [], by simp [hnil], by simp [hnil, lines], ?_, Or.inl rfl⟩
          simpa using Ne.symm hc
        · obtain ⟨line, ending, hread, hlines, hline, hend⟩ := ih hstream (n := n) (by simpa using hn)
          refine ⟨c :: line, ending, by rw [hread]; rfl, ?_, ?_, hend⟩
          · rw [hlines]
            rfl
          · simpa [Ne.symm hc] using hline

/-- `fgets` reads the first line, where it fits with its newline and the NUL. -/
theorem fgets_lines {stream : List UInt8} (h : stream ≠ []) {n : Nat}
    (hn : ∀ line ∈ lines stream, line.length + 2 ≤ n) :
    ∃ line ending rest, fgets n stream = some (line ++ ending, rest) ∧
      lines stream = line :: lines rest ∧ newline ∉ line ∧ (ending = [] ∨ ending = [newline]) := by
  have hhead : ((lines stream).headD []).length < n - 1 := by
    cases stream with
    | nil => exact absurd rfl h
    | cons c stream =>
      have hmem : (lines (c :: stream)).headD [] ∈ lines (c :: stream) := by
        rw [lines]
        split <;> simp
      have hlen := hn _ hmem
      omega
  obtain ⟨line, ending, hread, hlines, hline, hend⟩ := getLine_lines h hhead
  refine ⟨line, ending, (getLine (n - 1) stream).2, ?_, hlines, hline, hend⟩
  rw [fgets, if_neg h, ← hread]

theorem lineOf_eq_cstr {line : List UInt8} (h : newline ∉ line) : lineOf line = cstr line := by
  refine List.takeWhile_eq_self_iff.mpr fun c hc => ?_
  have hmem : c ∈ line := (List.takeWhile_prefix _).mem hc
  simp only [ne_eq, decide_eq_true_eq]
  rintro rfl
  exact h hmem

theorem lineOf_append_newline {line : List UInt8} (h : newline ∉ line) :
    lineOf (line ++ [newline]) = cstr line := by
  induction line with
  | nil => rfl
  | cons c line ih =>
    obtain ⟨hc, hline⟩ := List.ne_and_not_mem_of_not_mem_cons h
    have hrest : (cstr (line ++ [newline])).takeWhile (· ≠ newline) = cstr line := ih hline
    by_cases hzero : c = 0
    · simp [lineOf, cstr, hzero]
    · rw [lineOf, List.cons_append, cstr_cons_of_ne hzero, cstr_cons_of_ne hzero,
        List.takeWhile_cons_of_pos (by simpa using Ne.symm hc), hrest]

theorem lineOf_of_ending {line ending : List UInt8} (hzero : 0 ∉ line) (hline : newline ∉ line)
    (hend : ending = [] ∨ ending = [newline]) : lineOf (line ++ ending) = line := by
  rcases hend with rfl | rfl
  · rw [List.append_nil, lineOf_eq_cstr hline, cstr_eq_self_iff.mpr hzero]
  · rw [lineOf_append_newline hline, cstr_eq_self_iff.mpr hzero]

/-- `fgets` takes something from the stream. -/
theorem fgets_length_lt {n : Nat} (hn : 1 < n) {stream line rest : List UInt8}
    (h : fgets n stream = some (line, rest)) : rest.length < stream.length := by
  unfold fgets at h
  split at h
  · cases h
  next hne =>
  have hread : getLine (n - 1) stream = (line, rest) := Option.some.inj h
  have hlen := getLine_length (n - 1) stream
  have hpos := getLine_pos (n := n - 1) (by omega) hne
  rw [hread] at hlen hpos
  dsimp only at hlen hpos
  omega

/-- `fgets` stores no more than `n` characters with the NUL. -/
theorem fgets_length_le {n : Nat} (hn : 0 < n) {stream line rest : List UInt8}
    (h : fgets n stream = some (line, rest)) : line.length + 1 ≤ n := by
  unfold fgets at h
  split at h
  · cases h
  · have hread : getLine (n - 1) stream = (line, rest) := Option.some.inj h
    have hlen := getLine_length_le (n - 1) stream
    rw [hread] at hlen
    dsimp only at hlen
    omega

end CString
