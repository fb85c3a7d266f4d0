import Am437x.Printk.Ext

/-!
# The extended format can be read back

As long as the buffer is large enough, a reader gets the text and the dictionary of the record byte for
byte, with its priority, its sequence number and its time in microseconds.
-/

namespace Am437x.Printk

variable {size : Nat} {out : List UInt8} {c : UInt8}

/-! ## The buffer -/

theorem appendChar_of_lt (c : UInt8) (h : out.length < size) : appendChar size out c = out ++ [c] := if_pos h

theorem appendByte_of_lt (h : out.length + (extByte c).length < size) :
    appendByte size out c = out ++ extByte c := by
  unfold appendByte extByte at *
  split
  case isTrue hescape =>
    rw [if_pos hescape] at h
    rw [List.take_of_length_le (by omega)]
  case isFalse hplain =>
    rw [if_neg hplain] at h
    exact appendChar_of_lt c ((Nat.le_add_right _ _).trans_lt h)

theorem foldl_appendByte_of_lt {text : List UInt8} (h : out.length + (text.flatMap extByte).length < size) :
    text.foldl (appendByte size) out = out ++ text.flatMap extByte := by
  induction text generalizing out with
  | nil => exact (List.append_nil out).symm
  | cons c text ih =>
    rw [List.flatMap_cons, List.length_append] at h
    rw [List.foldl_cons, appendByte_of_lt (by omega), ih (by rw [List.length_append]; omega),
      List.flatMap_cons, List.append_assoc]

theorem appendDict_of_lt {line : Bool} {dict : List UInt8}
    (h : out.length + (extDict line dict).length < size) :
    appendDict size line dict out = out ++ extDict line dict := by
  induction dict generalizing line out with
  | nil => exact (List.append_nil out).symm
  | cons c dict ih =>
    have hstart : (if line then appendChar size out 32 else out) = out ++ if line then [32] else [] := by
      cases line
      · exact (List.append_nil out).symm
      · exact appendChar_of_lt 32 ((Nat.le_add_right _ _).trans_lt h)
    rw [extDict, List.length_append] at h
    rw [appendDict, hstart, extDict]
    generalize (if line then [32] else [] : List UInt8) = start at h
    by_cases hzero : c = 0
    · rw [if_pos hzero, List.length_cons] at h
      rw [if_pos hzero, if_pos hzero, appendChar_of_lt _ (by rw [List.length_append]; omega),
        ih (by simp only [List.length_append, List.length_singleton]; omega)]
      simp
    · rw [if_neg hzero, List.length_append] at h
      rw [if_neg hzero, if_neg hzero, appendByte_of_lt (by rw [List.length_append]; omega),
        ih (by simp only [List.length_append]; omega)]
      simp

theorem msgPrintExtBody_of_lt {dict text : List UInt8} (h : (extBody dict text).length < size) :
    msgPrintExtBody size dict text = extBody dict text := by
  unfold msgPrintExtBody
  unfold extBody at h ⊢
  rw [List.length_append, List.length_cons] at h
  have htext : text.foldl (appendByte size) [] = text.flatMap extByte := by
    rw [foldl_appendByte_of_lt (by rw [List.length_nil]; omega), List.nil_append]
  dsimp only
  rw [htext, appendChar_of_lt _ (by omega)]
  split
  case isTrue => rfl
  case isFalse hdict =>
    rw [if_neg hdict, List.length_append, List.length_singleton] at h
    have hlines : (text.flatMap extByte ++ [newline]).length + (extDict true dict).length < size := by
      rw [List.length_append, List.length_singleton]
      omega
    rw [appendDict_of_lt hlines, appendChar_of_lt]
    · simp
    · rw [List.length_append, List.length_append, List.length_singleton]
      omega

theorem length_appendChar_le (c : UInt8) (h : out.length ≤ size) : (appendChar size out c).length ≤ size := by
  unfold appendChar
  split
  · rwa [List.length_append, List.length_singleton]
  · exact h

theorem length_appendByte_le (c : UInt8) (h : out.length ≤ size) : (appendByte size out c).length ≤ size := by
  unfold appendByte
  split
  · have htake := List.length_take_le (size - out.length - 1) (escaped c)
    rw [List.length_append]
    omega
  · exact length_appendChar_le c h

theorem length_foldl_appendByte_le (text : List UInt8) (h : out.length ≤ size) :
    (text.foldl (appendByte size) out).length ≤ size := by
  induction text generalizing out with
  | nil => exact h
  | cons c text ih => exact ih (length_appendByte_le c h)

theorem length_appendDict_le (line : Bool) (dict : List UInt8) (h : out.length ≤ size) :
    (appendDict size line dict out).length ≤ size := by
  induction dict generalizing line out with
  | nil => exact h
  | cons c dict ih =>
    have hstart : (if line then appendChar size out 32 else out).length ≤ size := by
      split
      · exact length_appendChar_le 32 h
      · exact h
    rw [appendDict]
    split
    · exact ih true (length_appendChar_le newline hstart)
    · exact ih false (length_appendByte_le c hstart)

theorem length_msgPrintExtBody_le (size : Nat) (dict text : List UInt8) :
    (msgPrintExtBody size dict text).length ≤ size := by
  have hnil : ([] : List UInt8).length ≤ size := Nat.zero_le size
  have htext := length_appendChar_le newline (length_foldl_appendByte_le text hnil)
  unfold msgPrintExtBody
  dsimp only
  split
  · exact htext
  · exact length_appendChar_le newline (length_appendDict_le true dict htext)

theorem length_msgPrintExt_le (size : Nat) (m : Msg) (seq : Nat) : (msgPrintExt size m seq).length ≤ size := by
  have hheader : (msgPrintExtHeader size m seq).length ≤ size :=
    (List.length_take_le _ _).trans (Nat.sub_le _ _)
  have hbody := length_msgPrintExtBody_le (size - (msgPrintExtHeader size m seq).length) m.dict m.text
  unfold msgPrintExt
  rw [List.length_append]
  omega

/-- A buffer that is larger than the text takes all of it. -/
theorem msgPrintExt_of_lt {m : Msg} {seq : Nat} (h : (m.ext seq).length < size) :
    msgPrintExt size m seq = m.ext seq := by
  unfold Msg.ext at h ⊢
  rw [List.length_append] at h
  have hheader : msgPrintExtHeader size m seq = extHeader m seq := List.take_of_length_le (by omega)
  unfold msgPrintExt
  dsimp only
  rw [hheader, msgPrintExtBody_of_lt (by omega)]

/-! ## Escapes -/

theorem hex_value (c : UInt8) :
    hexValue (hexDigit (c / 16)) * 16 + hexValue (hexDigit (c % 16)) = c := by
  have hall : ∀ n < 256, hexValue (hexDigit (UInt8.ofNat n / 16)) * 16 +
      hexValue (hexDigit (UInt8.ofNat n % 16)) = UInt8.ofNat n := by
    decide +kernel
  have hc := hall c.toNat c.toNat_lt
  rwa [UInt8.ofNat_toNat] at hc

theorem unescape_extByte (c : UInt8) (rest : List UInt8) : unescape (extByte c ++ rest) = c :: unescape rest := by
  unfold extByte
  split
  case isTrue =>
    show unescape (92 :: 120 :: hexDigit (c / 16) :: hexDigit (c % 16) :: rest) = _
    rw [unescape, if_pos ⟨rfl, rfl⟩, hex_value]
  case isFalse hplain =>
    have hne : c ≠ 92 := fun heq => hplain (Or.inr (Or.inr heq))
    show unescape (c :: rest) = _
    rcases rest with _ | ⟨x, _ | ⟨a, _ | ⟨b, rest⟩⟩⟩
    · rfl
    · rfl
    · rfl
    · rw [unescape, if_neg fun hand => hne hand.1]

theorem unescape_flatMap_extByte (text : List UInt8) : unescape (text.flatMap extByte) = text := by
  induction text with
  | nil => rfl
  | cons c text ih => rw [List.flatMap_cons, unescape_extByte, ih]

theorem newline_not_mem_extByte (c : UInt8) : newline ∉ extByte c := by
  have hall : ∀ n < 256, newline ∉ extByte (UInt8.ofNat n) := by
    decide +kernel
  have hc := hall c.toNat c.toNat_lt
  rwa [UInt8.ofNat_toNat] at hc

/-! ## Lines -/

theorem splitOn_append_left {sep : UInt8} {xs ys : List UInt8} (hxs : sep ∉ xs) {y : List UInt8}
    {lines : List (List UInt8)} (hys : ys.splitOn sep = y :: lines) :
    (xs ++ ys).splitOn sep = (xs ++ y) :: lines := by
  induction xs with
  | nil => exact hys
  | cons x xs ih =>
    have hne : x ≠ sep := fun heq => hxs (heq ▸ List.mem_cons_self)
    have hrest := ih fun hmem => hxs (List.mem_cons_of_mem x hmem)
    rw [List.cons_append, List.splitOn_cons_eq_if_modifyHead, hrest]
    simp [hne]

theorem splitOn_sep_cons (sep : UInt8) (ys : List UInt8) : (sep :: ys).splitOn sep = [] :: ys.splitOn sep := by
  simp [List.splitOn_cons_eq_if_modifyHead]

theorem splitOn_line {sep : UInt8} {xs : List UInt8} (hxs : sep ∉ xs) (ys : List UInt8) :
    (xs ++ sep :: ys).splitOn sep = xs :: ys.splitOn sep := by
  have hsplit := splitOn_append_left hxs (splitOn_sep_cons sep ys)
  rwa [List.append_nil] at hsplit

/-- The entry of a line of the dictionary. -/
def readEntry (line : List UInt8) : List UInt8 := unescape (line.drop 1)

/-- The lines of a dictionary are its entries. -/
theorem splitOn_extDict (dict : List UInt8) :
    ∃ line lines, (extDict false dict).splitOn newline = line :: lines ∧
      dict.splitOn 0 = unescape line :: lines.map readEntry ∧
      ((extDict true dict).splitOn newline).map readEntry = dict.splitOn 0 := by
  induction dict with
  | nil => exact ⟨[], [], rfl, rfl, rfl⟩
  | cons c dict ih =>
    obtain ⟨line, lines, hsplit, hentries, htrue⟩ := ih
    by_cases hzero : c = 0
    · subst hzero
      have hfalse : extDict false (0 :: dict) = newline :: extDict true dict := rfl
      have hstart : extDict true (0 :: dict) = [32] ++ newline :: extDict true dict := rfl
      have hblank : (newline :: extDict true dict).splitOn newline =
          [] :: (extDict true dict).splitOn newline := splitOn_sep_cons _ _
      refine ⟨[], (extDict true dict).splitOn newline, ?_, ?_, ?_⟩
      · rw [hfalse, hblank]
      · rw [splitOn_sep_cons, htrue]
        rfl
      · rw [hstart, splitOn_append_left (by decide) hblank, List.map_cons, htrue, splitOn_sep_cons]
        rfl
    · have hfalse : extDict false (c :: dict) = extByte c ++ extDict false dict := by
        rw [extDict, if_neg hzero]
        rfl
      have hstart : extDict true (c :: dict) = [32] ++ (extByte c ++ extDict false dict) := by
        rw [extDict, if_neg hzero]
        rfl
      have hline := splitOn_append_left (newline_not_mem_extByte c) hsplit
      have hcons : (c :: dict).splitOn 0 = (c :: unescape line) :: lines.map readEntry := by
        rw [List.splitOn_cons_eq_if_modifyHead, hentries]
        simp [hzero]
      refine ⟨extByte c ++ line, lines, ?_, ?_, ?_⟩
      · rw [hfalse, hline]
      · rw [hcons, unescape_extByte]
      · rw [hstart, splitOn_append_left (by decide) hline, List.map_cons, hcons]
        refine congrArg (· :: lines.map readEntry) ?_
        show unescape (extByte c ++ line) = _
        rw [unescape_extByte]

theorem splitOn_append_sep (sep : UInt8) (xs : List UInt8) :
    (xs ++ [sep]).splitOn sep = xs.splitOn sep ++ [[]] := by
  rw [List.splitOn_append_cons_self]
  rfl

/-- The text and the dictionary, as they are read back. -/
theorem splitOn_extBody (dict text : List UInt8) :
    ∃ lines, (extBody dict text).splitOn newline = text.flatMap extByte :: lines ∧
      [(0 : UInt8)].intercalate (lines.dropLast.map readEntry) = dict := by
  have htext : newline ∉ text.flatMap extByte := by
    intro hmem
    obtain ⟨c, -, hc⟩ := List.mem_flatMap.mp hmem
    exact newline_not_mem_extByte c hc
  unfold extBody
  rw [splitOn_line htext]
  refine ⟨_, rfl, ?_⟩
  split
  case isTrue hnil =>
    rw [hnil]
    rfl
  case isFalse =>
    obtain ⟨line, lines, -, -, hentries⟩ := splitOn_extDict dict
    rw [splitOn_append_sep, List.dropLast_concat, hentries, List.intercalate_splitOn]

/-! ## The header -/

/-- The digits of a number lie between '0' and '9'. -/
theorem digit_bounds {n : Nat} {d : Char} (hd : d ∈ Nat.toDigits 10 n) : 48 ≤ d.toNat ∧ d.toNat ≤ 57 := by
  have hdigit := Nat.isDigit_of_mem_toDigits (by decide) (by decide) hd
  rw [Char.isDigit, Bool.and_eq_true, decide_eq_true_iff, decide_eq_true_iff] at hdigit
  exact hdigit

theorem toNat_ascii_digit {n : Nat} {d : Char} (hd : d ∈ Nat.toDigits 10 n) : (ascii d).toNat = d.toNat := by
  have hle := (digit_bounds hd).2
  exact UInt8.toNat_ofNat_of_lt' (hle.trans_lt (by decide))

theorem readDecimal_decimal (n : Nat) : readDecimal (decimal n) = n := by
  have hchars : (decimal n).map (fun b => Char.ofNat b.toNat) = Nat.toDigits 10 n := by
    unfold decimal
    rw [List.map_map]
    refine (List.map_congr_left fun d hd => ?_).trans (List.map_id _)
    show Char.ofNat (ascii d).toNat = d
    rw [toNat_ascii_digit hd, Char.ofNat_toNat]
  unfold readDecimal
  rw [hchars]
  exact Nat.ofDigitChars_ten_toDigits

theorem not_mem_decimal {c : UInt8} (hc : c.toNat < 48 ∨ 57 < c.toNat) (n : Nat) : c ∉ decimal n := by
  intro hmem
  obtain ⟨d, hd, rfl⟩ := List.mem_map.mp hmem
  have hbounds := digit_bounds hd
  rw [toNat_ascii_digit hd] at hc
  omega

/-- The fields of the header. -/
def extFlag (m : Msg) : UInt8 := if m.isCont then ascii 'c' else ascii '-'

theorem extHeader_eq (m : Msg) (seq : Nat) (rest : List UInt8) :
    extHeader m seq ++ rest =
      (decimal m.priority ++ ascii ',' :: (decimal seq ++ ascii ',' :: (decimal (m.tsNsec.toNat / 1000) ++
        ascii ',' :: [extFlag m]))) ++ ascii ';' :: rest := by
  simp [extHeader, extFlag]

theorem splitOn_header (m : Msg) (seq : Nat) :
    (decimal m.priority ++ ascii ',' :: (decimal seq ++ ascii ',' :: (decimal (m.tsNsec.toNat / 1000) ++
        ascii ',' :: [extFlag m]))).splitOn (ascii ',') =
      [decimal m.priority, decimal seq, decimal (m.tsNsec.toNat / 1000), [extFlag m]] := by
  have hcomma (n : Nat) : ascii ',' ∉ decimal n := not_mem_decimal (Or.inl (by decide)) n
  have hflag : [extFlag m].splitOn (ascii ',') = [[extFlag m]] := by
    refine List.splitOn_eq_singleton fun hmem => ?_
    unfold extFlag at hmem
    split at hmem <;> exact absurd hmem (by decide)
  rw [splitOn_line (hcomma _), splitOn_line (hcomma _), splitOn_line (hcomma _), hflag]

theorem semicolon_not_mem_header (m : Msg) (seq : Nat) :
    ascii ';' ∉ decimal m.priority ++ ascii ',' :: (decimal seq ++ ascii ',' ::
      (decimal (m.tsNsec.toNat / 1000) ++ ascii ',' :: [extFlag m])) := by
  have hsemicolon (n : Nat) : ascii ';' ∉ decimal n := not_mem_decimal (Or.inr (by decide)) n
  have hflag : ascii ';' ≠ extFlag m := by
    unfold extFlag
    split <;> decide
  have hcomma : ascii ';' ≠ ascii ',' := by decide
  simp [hsemicolon, hflag, hcomma]

theorem takeWhile_ne {sep : UInt8} {xs : List UInt8} (hxs : sep ∉ xs) (ys : List UInt8) :
    (xs ++ sep :: ys).takeWhile (· ≠ sep) = xs := by
  rw [List.takeWhile_append_of_pos]
  · simp
  · intro x hx
    exact decide_eq_true fun heq => hxs (heq ▸ hx)

/-- A reader finds what was printed. -/
theorem readExt_ext (m : Msg) (seq : Nat) : readExt (m.ext seq) = some (m.extMsg seq) := by
  obtain ⟨lines, hsplit, hdict⟩ := splitOn_extBody m.dict m.text
  have hcont : decide ([extFlag m] = [ascii 'c']) = m.isCont := by
    unfold extFlag
    cases m.isCont <;> decide
  unfold readExt Msg.ext
  dsimp only
  rw [extHeader_eq, takeWhile_ne (semicolon_not_mem_header m seq), splitOn_header, List.drop_append,
    List.drop_of_length_le (Nat.le_succ _), List.nil_append, Nat.add_sub_cancel_left, List.drop_one,
    List.tail_cons, hsplit]
  dsimp only
  rw [readDecimal_decimal, readDecimal_decimal, readDecimal_decimal, hcont, List.headD_cons, List.tail_cons,
    unescape_flatMap_extByte]
  exact congrArg (fun dict => some { m.extMsg seq with dict := dict }) hdict

/-- The printed record never leaves its buffer, and a reader of `/dev/kmsg` gets it back when the buffer
is larger than it. -/
theorem msg_print_ext_round_trip (m : Msg) (seq size : Nat) :
    (msgPrintExt size m seq).length ≤ size ∧
      ((m.ext seq).length < size → readExt (msgPrintExt size m seq) = some (m.extMsg seq)) := by
  refine ⟨length_msgPrintExt_le size m seq, fun hfits => ?_⟩
  rw [msgPrintExt_of_lt hfits]
  exact readExt_ext m seq

end Am437x.Printk
