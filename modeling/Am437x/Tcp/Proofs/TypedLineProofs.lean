import Am437x.Tcp.Proofs.EchoProofs
import Am437x.Tcp.TypedLine

/-!
# When a typed line is transmitted

A turn sends what its fragment holds before the first NUL. The line is followed fragment by fragment: all
but the last have the full size, and the last may be empty.
-/

namespace Am437x.Echo

open CString Loops Tcp

variable {s t : Session} {line rest : List UInt8}

/-! ## One turn -/

/-- The string that `fgets` and the removal of the newline leave in the buffer. -/
theorem cstr_storeLine (buffer fragment : List UInt8) :
    cstr (storeLine buffer fragment) = lineOf fragment := by
  rw [storeLine, cstr_set_strcspn, cstr_writeAt_string, lineOf]

theorem cstr_storeLine_newline (buffer : List UInt8) (h : newline ∉ line) :
    cstr (storeLine buffer (line ++ [newline])) = cstr line := by
  rw [cstr_storeLine, lineOf_append_newline h]

/-- The text that a turn makes of a fragment: a message, the word that ends the session, or nothing. -/
def IsMessage (text : List UInt8) : Prop := text ≠ [] ∧ text ≠ quit

theorem input_message {fragment : List UInt8}
    (h : fgets bufferSize s.stdin = some (fragment, rest))
    (hmsg : IsMessage (cstr (storeLine s.buffer fragment))) :
    s.input false true = { s with
      stdin := rest
      buffer := storeLine s.buffer fragment
      client := .reading
      sent := s.sent ++ [cstr (storeLine s.buffer fragment)]
      toServer := s.toServer ++
        [{ seq := s.sent.length + 1, text := cstr (storeLine s.buffer fragment) }] } := by
  have hpos : 0 < strlen (storeLine s.buffer fragment) := List.length_pos_iff.mpr hmsg.1
  unfold Session.input
  rw [if_neg Bool.false_ne_true, h]
  dsimp only
  rw [if_neg hmsg.2, if_pos (And.intro rfl hpos)]

theorem input_noMessage {fragment : List UInt8}
    (h : fgets bufferSize s.stdin = some (fragment, rest))
    (hmsg : ¬ IsMessage (cstr (storeLine s.buffer fragment))) :
    (s.input false true).client = .closed := by
  unfold Session.input
  rw [if_neg Bool.false_ne_true, h]
  dsimp only
  by_cases hquit : cstr (storeLine s.buffer fragment) = quit
  · rw [if_pos hquit]
  · have hnil : cstr (storeLine s.buffer fragment) = [] := by
      by_contra hne
      exact hmsg ⟨hne, hquit⟩
    have hlen : ¬ (true = true ∧ 0 < strlen (storeLine s.buffer fragment)) := by
      simp [strlen, hnil]
    rw [if_neg hquit, if_neg hlen]

theorem exchange_message {fragment : List UInt8}
    (h : fgets bufferSize s.stdin = some (fragment, rest))
    (hmsg : IsMessage (cstr (storeLine s.buffer fragment))) :
    ∃ t, s.exchange = .again t ∧ t.stdin = rest ∧
      t.sent = s.sent ++ [cstr (storeLine s.buffer fragment)] := by
  unfold Session.exchange
  rw [input_message h hmsg]
  dsimp only
  rw [if_pos rfl]
  obtain ⟨buffer, hread⟩ := clientRead_data { s with
      stdin := rest
      buffer := storeLine s.buffer fragment
      client := .reading
      sent := s.sent ++ [cstr (storeLine s.buffer fragment)] }
    (s.sent ++ [cstr (storeLine s.buffer fragment)]).length (zero_notMem_cstr _) hmsg.1
  exact ⟨_, congrArg _ hread, rfl, rfl⟩

theorem exchange_of_closed (h : (s.input false true).client = .closed) :
    s.exchange = .left (s.input false true) := by
  refine if_neg fun hreading => ?_
  rw [h] at hreading
  cases hreading

/-- A turn that goes round again has read a fragment and sent its text. -/
theorem message_of_exchange (h : s.exchange = .again t) :
    ∃ fragment rest, fgets bufferSize s.stdin = some (fragment, rest) ∧
      IsMessage (cstr (storeLine s.buffer fragment)) ∧ t.stdin = rest ∧
      t.sent = s.sent ++ [cstr (storeLine s.buffer fragment)] := by
  cases hfgets : fgets bufferSize s.stdin with
  | none =>
    have hclosed : (s.input false true).client = .closed := by
      unfold Session.input
      rw [if_neg Bool.false_ne_true, hfgets]
    rw [exchange_of_closed hclosed] at h
    cases h
  | some lr =>
    obtain ⟨fragment, rest⟩ := lr
    by_cases hmsg : IsMessage (cstr (storeLine s.buffer fragment))
    · obtain ⟨t', ht', hstdin, hsent⟩ := exchange_message hfgets hmsg
      rw [ht'] at h
      obtain rfl := Turn.again.inj h
      exact ⟨fragment, rest, rfl, hmsg, hstdin, hsent⟩
    · rw [exchange_of_closed (input_noMessage hfgets hmsg)] at h
      cases h

/-- With nothing on its way, a turn is what the session does from the prompt to the response. -/
theorem exchange_eq_run (hprompt : s.client = .prompt) (hserver : s.server = .serving)
    (hrunning : s.running = true) (hto : s.toServer = []) (hfrom : s.toClient = [])
    (h : s.exchange = .again t) :
    Runs.run step s [.input false true, .serve true, .response] = some t := by
  obtain ⟨fragment, rest, hfgets, hmsg, -, -⟩ := message_of_exchange h
  have hinput : step s (.input false true) = some (s.input false true) := if_pos hprompt
  have hpos : (SslRead.data (cstr (storeLine s.buffer fragment))).ret > 0 := by
    have hlen := List.length_pos_iff.mpr hmsg.1
    simp only [SslRead.ret]
    omega
  unfold Session.exchange at h
  rw [input_message hfgets hmsg] at h hinput
  obtain rfl := Turn.again.inj h
  rw [Runs.run, hinput]
  simp [Runs.run, step, hserver, hrunning, hto, hfrom, handleClientTurn, hpos, SslRead.bytes, hmsg.1]

/-! ## Several turns -/

theorem exchanges_succ {s' : Session} (h : s.exchange = .again s') (n : Nat) :
    exchanges (n + 1) s = exchanges n s' :=
  loop_cons_again h _

theorem exchanges_succ_left {s' : Session} (h : s.exchange = .left s') (n : Nat) :
    exchanges (n + 1) s = .left s' :=
  loop_cons_left h _

theorem exchanges_stdin {n : Nat} (h : exchanges n s = .again t) :
    t.stdin.length + n ≤ s.stdin.length := by
  induction n generalizing s with
  | zero =>
    obtain rfl := Turn.again.inj h
    exact le_rfl
  | succ n ih =>
    cases hturn : s.exchange with
    | left s' =>
      rw [exchanges_succ_left hturn] at h
      cases h
    | again s' =>
      rw [exchanges_succ hturn] at h
      obtain ⟨fragment, rest, hfgets, -, rfl, -⟩ := message_of_exchange hturn
      have hlt := fgets_length_lt (by decide) hfgets
      have hrest := ih h
      omega

/-! ## The fragments of a line -/

theorem fgets_short (hnl : newline ∉ line) (hlt : line.length < fragmentSize) (rest : List UInt8) :
    fgets bufferSize (line ++ newline :: rest) = some (line ++ [newline], rest) := by
  rw [fgets, if_neg (by simp)]
  exact congrArg some (getLine_of_lt hnl hlt rest)

theorem fgets_long (hnl : newline ∉ line) (hle : fragmentSize ≤ line.length) (rest : List UInt8) :
    fgets bufferSize (line ++ newline :: rest) =
      some (line.take fragmentSize, line.drop fragmentSize ++ newline :: rest) := by
  rw [fgets, if_neg (by simp)]
  exact congrArg some (getLine_of_le hnl hle (newline :: rest))

theorem transmittable_short (hlt : line.length < fragmentSize) :
    Transmittable line ↔ 0 ∉ line ∧ IsMessage line := by
  unfold Transmittable IsMessage
  rw [Nat.mod_eq_of_lt hlt, Nat.sub_self, List.drop_zero, Ne, List.length_eq_zero_iff]

theorem transmittable_long (hle : fragmentSize ≤ line.length) :
    Transmittable line ↔ 0 ∉ line.take fragmentSize ∧ Transmittable (line.drop fragmentSize) := by
  have hlen : (line.drop fragmentSize).length = line.length - fragmentSize := List.length_drop
  have hmod : (line.length - fragmentSize) % fragmentSize = line.length % fragmentSize :=
    (Nat.mod_eq_sub_mod hle).symm
  have hrest : line.length % fragmentSize ≤ line.length - fragmentSize := hmod ▸ Nat.mod_le _ _
  have hlast : fragmentSize + (line.length - fragmentSize - line.length % fragmentSize) =
      line.length - line.length % fragmentSize := by omega
  have hmem : 0 ∉ line ↔ 0 ∉ line.take fragmentSize ∧ 0 ∉ line.drop fragmentSize := by
    conv_lhs => rw [← List.take_append_drop fragmentSize line]
    rw [List.mem_append, not_or]
  unfold Transmittable
  rw [hlen, hmod, List.drop_drop, hlast, hmem, and_assoc]

theorem length_drop_lt (hle : fragmentSize ≤ line.length) :
    (line.drop fragmentSize).length < line.length := by
  rw [List.length_drop]
  unfold fragmentSize bufferSize at *
  omega

theorem isMessage_full (hle : fragmentSize ≤ line.length) : IsMessage (line.take fragmentSize) := by
  have hlen : (line.take fragmentSize).length = fragmentSize := List.length_take_of_le hle
  constructor
  · intro h
    rw [h] at hlen
    cases hlen
  · intro h
    rw [h] at hlen
    cases hlen

theorem cstr_storeLine_long (hnl : newline ∉ line) (buffer : List UInt8) :
    cstr (storeLine buffer (line.take fragmentSize)) = cstr (line.take fragmentSize) := by
  rw [cstr_storeLine, lineOf_eq_cstr fun h => hnl (List.mem_of_mem_take h)]

/-! ## The line -/

/-- The turns of a line without obstacle send it, fragment by fragment. -/
theorem exchanges_of_transmittable (hnl : newline ∉ line) (hline : Transmittable line)
    (hstdin : s.stdin = line ++ newline :: rest) :
    ∃ n t texts, exchanges n s = .again t ∧ t.stdin = rest ∧ t.sent = s.sent ++ texts ∧
      texts.flatten = line := by
  induction h : line.length using Nat.strong_induction_on generalizing s line with
  | _ m ih =>
    subst h
    rcases Nat.lt_or_ge line.length fragmentSize with hlt | hle
    · obtain ⟨h0, hmsg⟩ := (transmittable_short hlt).mp hline
      have htext : cstr (storeLine s.buffer (line ++ [newline])) = line := by
        rw [cstr_storeLine_newline _ hnl, cstr_eq_self_iff.mpr h0]
      have hfgets := fgets_short hnl hlt rest
      rw [← hstdin] at hfgets
      obtain ⟨t, hturn, ht, hsent⟩ := exchange_message hfgets (by rw [htext]; exact hmsg)
      refine ⟨1, t, [line], exchanges_succ hturn 0, ht, ?_, by simp⟩
      rw [hsent, htext]
    · obtain ⟨h0, hrest⟩ := (transmittable_long hle).mp hline
      have htext : cstr (storeLine s.buffer (line.take fragmentSize)) = line.take fragmentSize := by
        rw [cstr_storeLine_long hnl, cstr_eq_self_iff.mpr h0]
      have hfgets := fgets_long hnl hle rest
      rw [← hstdin] at hfgets
      obtain ⟨s', hturn, hs', hsent'⟩ :=
        exchange_message hfgets (by rw [htext]; exact isMessage_full hle)
      have hlen := length_drop_lt hle
      obtain ⟨n, t, texts, hturns, ht, hsent, hflat⟩ :=
        ih _ hlen (fun h => hnl (List.mem_of_mem_drop h)) hrest hs' rfl
      refine ⟨n + 1, t, line.take fragmentSize :: texts, ?_, ht, ?_, ?_⟩
      · rw [exchanges_succ hturn, hturns]
      · rw [hsent, hsent', htext, List.append_assoc]
        rfl
      · rw [List.flatten_cons, hflat, List.take_append_drop]

/-- The turns that consume the line send no more than its characters, and all of them only when nothing
is in the way. -/
theorem transmittable_of_exchanges (hnl : newline ∉ line) {n : Nat}
    (hstdin : s.stdin = line ++ newline :: rest) (h : exchanges n s = .again t)
    (ht : t.stdin = rest) :
    ∃ texts, t.sent = s.sent ++ texts ∧ texts.flatten.length ≤ line.length ∧
      (texts.flatten = line → Transmittable line) := by
  induction hm : line.length using Nat.strong_induction_on generalizing s line n with
  | _ m ih =>
    subst hm
    cases n with
    | zero =>
      obtain rfl := Turn.again.inj h
      rw [ht] at hstdin
      have hlen := congrArg List.length hstdin
      simp only [List.length_append, List.length_cons] at hlen
      omega
    | succ n =>
      cases hturn : s.exchange with
      | left s' =>
        rw [exchanges_succ_left hturn] at h
        cases h
      | again s' =>
        rw [exchanges_succ hturn] at h
        obtain ⟨fragment, rest', hfgets, hmsg, hs', hsent'⟩ := message_of_exchange hturn
        rw [hstdin] at hfgets
        rcases Nat.lt_or_ge line.length fragmentSize with hlt | hle
        · -- the last fragment: no turn is left
          rw [fgets_short hnl hlt] at hfgets
          obtain ⟨rfl, rfl⟩ := Prod.mk.inj (Option.some.inj hfgets)
          have hturns := exchanges_stdin h
          obtain rfl : n = 0 := by
            rw [ht, hs'] at hturns
            omega
          obtain rfl := Turn.again.inj h
          rw [cstr_storeLine_newline _ hnl] at hsent' hmsg
          refine ⟨[cstr line], hsent', by simpa using cstr_length_le line, fun hflat => ?_⟩
          have htext : cstr line = line := by simpa using hflat
          rw [transmittable_short hlt]
          exact ⟨cstr_eq_self_iff.mp htext, htext ▸ hmsg⟩
        · rw [fgets_long hnl hle] at hfgets
          obtain ⟨rfl, rfl⟩ := Prod.mk.inj (Option.some.inj hfgets)
          rw [cstr_storeLine_long hnl] at hsent'
          have hlen := length_drop_lt hle
          obtain ⟨texts, hsent, hbound, hrest⟩ :=
            ih _ hlen (fun h => hnl (List.mem_of_mem_drop h)) hs' h rfl
          have htext := cstr_length_le (line.take fragmentSize)
          have hsum : (line.take fragmentSize).length + (line.drop fragmentSize).length =
              line.length := by
            rw [← List.length_append, List.take_append_drop]
          refine ⟨cstr (line.take fragmentSize) :: texts, ?_, ?_, fun hflat => ?_⟩
          · rw [hsent, hsent', List.append_assoc]
            rfl
          · rw [List.flatten_cons, List.length_append]
            omega
          · -- as long as the line in all, and each no longer than its part
            have hlens := congrArg List.length hflat
            rw [List.flatten_cons, List.length_append] at hlens
            have hparts : cstr (line.take fragmentSize) ++ texts.flatten =
                line.take fragmentSize ++ line.drop fragmentSize := by
              rw [List.take_append_drop]
              exact hflat
            obtain ⟨hfirst, htail⟩ := List.append_inj hparts (by omega)
            rw [transmittable_long hle]
            exact ⟨cstr_eq_self_iff.mp hfirst, hrest htail⟩

/-! ## Main result -/

/-- A line is transmitted just when it has no NUL, and its last fragment is neither empty nor `quit`. -/
theorem line_transmitted_iff (s : Session) (line : Line) (rest : List UInt8) :
    Transmits s line rest ↔ Transmittable line := by
  constructor
  · rintro ⟨n, t, texts, hturns, ht, hsent, hflat⟩
    obtain ⟨texts', hsent', -, hline⟩ := transmittable_of_exchanges line.property rfl hturns ht
    obtain rfl : texts = texts' := List.append_cancel_left (hsent.symm.trans hsent')
    exact hline hflat
  · intro hline
    exact exchanges_of_transmittable line.property hline rfl

/-- An empty line: `SSL_write` fails on the empty message, and the client leaves its loop. -/
theorem empty_line_ends_session :
    (∃ t, exchanges 1 ((Session.start [] []).typed [] []) = .left t ∧ t.client = .closed) ∧
    ¬ Transmits (.start [] []) ⟨[], List.not_mem_nil⟩ [] := by
  refine ⟨⟨_, rfl, rfl⟩, ?_⟩
  rintro ⟨n, t, texts, hturns, ht, hsent, hflat⟩
  cases n with
  | zero =>
    obtain rfl := Turn.again.inj hturns
    cases ht
  | succ n => cases hturns

end Am437x.Echo
