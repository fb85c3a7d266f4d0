import Am437x.Udp.ServerLoop

/-!
# When the broadcast loop ends with its input

Each turn takes one line of the input and broadcasts it. Without input a turn broadcasts what the buffer
holds, so that the loop ends only when this is the word `exit`.
-/

namespace Am437x.Udp

open CString Loops

variable {s t : Serving} {replies : Replies}

/-! ## One line -/

theorem readLine_eq (s : Server) :
    s.readLine = { s.refill with
      buffer := s.refill.buffer.set (strcspn s.refill.buffer newline) 0 } := by
  unfold Server.readLine Server.refill
  cases fgets bufferSize s.stdin with
  | none => rfl
  | some read => rfl

theorem cstr_readLine (s : Server) : cstr s.readLine.buffer = lineOf s.refill.buffer := by
  rw [readLine_eq]
  exact cstr_set_strcspn s.refill.buffer newline

theorem refill_of_nil {s : Server} (h : s.stdin = []) : s.refill = s := by
  rw [Server.refill, h]
  rfl

theorem refill_of_line {s : Server} (hne : s.stdin ≠ [])
    (hshort : ∀ line ∈ lines s.stdin, line.length + 2 ≤ bufferSize)
    (hzero : ∀ line ∈ lines s.stdin, 0 ∉ line) :
    lines s.stdin = lineOf s.refill.buffer :: lines s.refill.stdin := by
  obtain ⟨line, ending, rest, hread, hlines, hline, hend⟩ := fgets_lines hne hshort
  have hmem : line ∈ lines s.stdin := by
    rw [hlines]
    exact List.mem_cons_self
  have hbuffer : lineOf s.refill.buffer = line := by
    rw [Server.refill, hread]
    show lineOf (writeAt s.buffer 0 (line ++ ending ++ [0])) = line
    rw [lineOf, cstr_writeAt_string]
    exact lineOf_of_ending (hzero line hmem) hline hend
  have hstdin : s.refill.stdin = rest := by
    rw [Server.refill, hread]
  rw [hbuffer, hstdin, hlines]

/-! ## One turn -/

/-- What the buffer holds after a turn that broadcast the line. -/
def leftover (line : List UInt8) : Option (List UInt8) → List UInt8
  | some (c :: payload) => lineOf (c :: payload)
  | _ => line

theorem lineOf_of_cstr {buf line : List UInt8} (h : cstr buf = lineOf line) :
    lineOf buf = lineOf line := by
  rw [lineOf, h, lineOf, List.takeWhile_takeWhile]
  simp

theorem lineOf_receive (s : Server) {payload : List UInt8} (h : payload.length < bufferSize)
    (hpos : payload ≠ []) : lineOf (s.receive (some payload)).1.buffer = lineOf payload := by
  have htake : payload.take bufferSize = payload := List.take_of_length_le h.le
  have hlen : 0 < payload.length := List.length_pos_iff.mpr hpos
  have hbuffer : (s.receive (some payload)).1.buffer =
      (writeAt s.buffer 0 payload).set payload.length 0 := by
    simp only [Server.receive, htake, if_pos hlen]
  rw [hbuffer, lineOf, cstr_writeAt_set, lineOf]

theorem turn_exit (h : lineOf s.server.refill.buffer = exit) (r : Round) :
    ∃ t, s.turn r = .left t ∧ t.broadcast = s.broadcast := by
  rw [← cstr_readLine] at h
  simp [Serving.turn, Server.prompt, h]

theorem leftover_of_received {line payload : List UInt8} (h : payload ≠ []) :
    leftover line (some payload) = lineOf payload := by
  cases payload with
  | nil => exact absurd rfl h
  | cons c payload => rfl

theorem lineOf_received {s : Server} {datagram : Option (List UInt8)}
    (hshort : ∀ payload ∈ datagram, payload.length < bufferSize) :
    lineOf (s.receive datagram).1.buffer = leftover (lineOf s.buffer) datagram := by
  cases datagram with
  | none => rfl
  | some payload =>
    by_cases hne : payload = []
    · subst hne
      simp [Server.receive, leftover, writeAt]
    · rw [leftover_of_received hne]
      exact lineOf_receive s (hshort payload rfl) hne

theorem receive_stdin (s : Server) (datagram : Option (List UInt8)) :
    (s.receive datagram).1.stdin = s.stdin := by
  cases datagram with
  | none => rfl
  | some payload =>
    simp only [Server.receive]
    split <;> rfl

theorem turn_message (h : lineOf s.server.refill.buffer ≠ exit) {datagram : Option (List UInt8)}
    (hshort : ∀ payload ∈ datagram, payload.length < bufferSize) :
    ∃ t, s.turn { sendOk := true, datagram := datagram } = .again t ∧
      t.broadcast = s.broadcast ++ [lineOf s.server.refill.buffer] ∧
      t.server.stdin = s.server.refill.stdin ∧
      lineOf t.server.buffer = leftover (lineOf s.server.refill.buffer) datagram := by
  have hcstr := cstr_readLine s.server
  have hne : cstr s.server.readLine.buffer ≠ exit := by
    rw [hcstr]
    exact h
  have hprompt : s.server.prompt true =
      ({ s.server.readLine with phase := .waiting, round := s.server.readLine.round + 1 },
        some (cstr s.server.readLine.buffer)) := by
    simp [Server.prompt, hne]
  have hturn : s.turn { sendOk := true, datagram := datagram } = .again
      { server := (Server.receive { s.server.readLine with
          phase := .waiting, round := s.server.readLine.round + 1 } datagram).1,
        broadcast := s.broadcast ++ [cstr s.server.readLine.buffer] } := by
    simp only [Serving.turn, hprompt]
    rfl
  refine ⟨_, hturn, ?_, ?_, ?_⟩
  · rw [hcstr]
  · rw [receive_stdin, readLine_eq]
  · rw [lineOf_received hshort]
    show leftover (lineOf s.server.readLine.buffer) datagram = _
    rw [lineOf_of_cstr hcstr]

/-! ## The loop -/

theorem rounds_succ (replies : Replies) (n : Nat) :
    rounds replies (n + 1) =
      { sendOk := true, datagram := replies.head.map Subtype.val } :: rounds replies.tail n := rfl

/-- A turn only adds to what has been broadcast. -/
theorem turn_broadcast {r : Round} :
    (∀ t, s.turn r = .again t → ∃ sent, t.broadcast = s.broadcast ++ sent) ∧
      ∀ t, s.turn r = .left t → ∃ sent, t.broadcast = s.broadcast ++ sent := by
  unfold Serving.turn
  dsimp only
  cases (s.server.prompt r.sendOk).1.phase with
  | stopped => exact ⟨by rintro t ⟨⟩, by rintro t ⟨⟩; exact ⟨_, rfl⟩⟩
  | waiting => exact ⟨by rintro t ⟨⟩; exact ⟨_, rfl⟩, by rintro t ⟨⟩⟩
  | prompt => exact ⟨by rintro t ⟨⟩; exact ⟨_, rfl⟩, by rintro t ⟨⟩⟩

theorem loop_broadcast {rs : List Round} (h : loop Serving.turn s rs = .left t) :
    ∃ sent, t.broadcast = s.broadcast ++ sent := by
  let grown (u : Serving) : Prop := ∃ sent, u.broadcast = s.broadcast ++ sent
  have htrans : ∀ u v : Serving, grown u → (∃ sent, v.broadcast = u.broadcast ++ sent) → grown v := by
    rintro u v ⟨sent, hu⟩ ⟨more, hv⟩
    exact ⟨sent ++ more, by rw [hv, hu, List.append_assoc]⟩
  have hagain : ∀ u r v, grown u → Serving.turn u r = .again v → grown v :=
    fun u r v hu hv => htrans u v hu (turn_broadcast.1 v hv)
  have hleft : ∀ u r v, grown u → Serving.turn u r = .left v → grown v :=
    fun u r v hu hv => htrans u v hu (turn_broadcast.2 v hv)
  exact post_of_left hagain hleft ⟨[], (List.append_nil _).symm⟩ h

theorem stops_of_exit (h : lineOf s.server.refill.buffer = exit) :
    BroadcastsThenStops s replies [] := by
  obtain ⟨t, hturn, hbroadcast⟩ := turn_exit h { sendOk := true, datagram := replies.head.map Subtype.val }
  refine ⟨1, t, ?_, ?_⟩
  · rw [rounds_succ, loop_cons_left hturn]
  · rw [hbroadcast, List.append_nil]

/-- A turn that broadcast a line, and the rest of the loop. -/
theorem stops_message (replies : Replies) (h : lineOf s.server.refill.buffer ≠ exit) :
    ∃ t, t.server.stdin = s.server.refill.stdin ∧
      lineOf t.server.buffer =
        leftover (lineOf s.server.refill.buffer) (replies.head.map Subtype.val) ∧
      ∀ ms, BroadcastsThenStops s replies ms ↔
        ∃ ms', ms = lineOf s.server.refill.buffer :: ms' ∧ BroadcastsThenStops t replies.tail ms' := by
  have hshort : ∀ payload ∈ replies.head.map Subtype.val, payload.length < bufferSize := by
    intro payload hpayload
    obtain ⟨reply, -, rfl⟩ := Option.map_eq_some_iff.mp hpayload
    exact reply.2
  obtain ⟨t, hturn, hbroadcast, hstdin, hbuffer⟩ := turn_message h hshort
  refine ⟨t, hstdin, hbuffer, fun ms => ?_⟩
  constructor
  · rintro ⟨n, u, hloop, hu⟩
    cases n with
    | zero => cases hloop
    | succ n =>
      rw [rounds_succ, loop_cons_again hturn] at hloop
      obtain ⟨sent, hsent⟩ := loop_broadcast hloop
      have hms : ms = lineOf s.server.refill.buffer :: sent := by
        rw [hu, hbroadcast, List.append_assoc] at hsent
        exact List.append_cancel_left hsent
      exact ⟨sent, hms, n, u, hloop, hsent⟩
  · rintro ⟨ms', rfl, n, u, hloop, hu⟩
    refine ⟨n + 1, u, ?_, ?_⟩
    · rw [rounds_succ, loop_cons_again hturn]
      exact hloop
    · rw [hu, hbroadcast, List.append_assoc]
      rfl

theorem leftover_eq_exit_iff {line : List UInt8} (h : line ≠ exit)
    {reply : Option { payload : List UInt8 // payload.length < bufferSize }} :
    leftover line (reply.map Subtype.val) = exit ↔ ∃ r, reply = some r ∧ lineOf r = exit := by
  cases reply with
  | none => simpa [leftover] using h
  | some r =>
    obtain ⟨payload, hshort⟩ := r
    cases payload with
    | nil => simpa [leftover, lineOf, cstr, exit] using h
    | cons c payload => simp [leftover]

theorem endsWithExit_cons {line : List UInt8} {rest : List (List UInt8)} {idle : Prop}
    (h : line ≠ exit) :
    (exit ∈ rest ∨ if rest = [] then leftover line (replies.head.map Subtype.val) = exit
      else ∃ reply, replies.tail.get (rest.length - 1) = some reply ∧ lineOf reply = exit) ↔
    exit ∈ line :: rest ∨ if line :: rest = [] then idle
      else ∃ reply, replies.get ((line :: rest).length - 1) = some reply ∧ lineOf reply = exit := by
  rw [List.mem_cons, or_iff_right (Ne.symm h), if_neg (List.cons_ne_nil _ _)]
  apply or_congr_right
  cases rest with
  | nil =>
    rw [if_pos rfl, leftover_eq_exit_iff h]
    rfl
  | cons next rest =>
    rw [if_neg (List.cons_ne_nil _ _)]
    rfl

theorem lines_eq_nil_iff {stdin : List UInt8} : lines stdin = [] ↔ stdin = [] := by
  constructor
  · intro h
    cases stdin with
    | nil => rfl
    | cons c stdin =>
      rw [lines] at h
      split at h <;> cases h
  · rintro rfl
    rfl

/-- Without input the loop ends at once or not at all. -/
theorem stops_idle (h : s.server.stdin = []) :
    BroadcastsThenStops s replies [] ↔ lineOf s.server.buffer = exit := by
  have hrefill := refill_of_nil h
  constructor
  · intro hstops
    by_contra hne
    obtain ⟨t, -, -, hiff⟩ := stops_message (s := s) replies (by rwa [hrefill])
    obtain ⟨ms', hnil, -⟩ := (hiff []).mp hstops
    cases hnil
  · intro hexit
    exact stops_of_exit (by rwa [hrefill])

theorem stops_iff (hshort : ∀ line ∈ lines s.server.stdin, line.length + 2 ≤ bufferSize)
    (hzero : ∀ line ∈ lines s.server.stdin, 0 ∉ line) :
    BroadcastsThenStops s replies (messages s.server.stdin) ↔
      EndsWithExit s.server.stdin s.server.buffer replies := by
  induction hlines : lines s.server.stdin generalizing s replies with
  | nil =>
    rw [messages, EndsWithExit, hlines, List.takeWhile_nil, stops_idle (lines_eq_nil_iff.mp hlines)]
    simp
  | cons line rest ih =>
    have hne : s.server.stdin ≠ [] := by
      rw [ne_eq, ← lines_eq_nil_iff, hlines]
      exact List.cons_ne_nil _ _
    have hrefill := refill_of_line hne hshort hzero
    rw [hlines] at hrefill
    obtain ⟨hline, hrest⟩ := List.cons.inj hrefill
    by_cases hexit : line = exit
    · have hnone : messages s.server.stdin = [] := by
        rw [messages, hlines, hexit]
        rfl
      rw [hnone, EndsWithExit, hlines, hexit]
      exact iff_of_true (stops_of_exit (hline ▸ hexit)) (Or.inl List.mem_cons_self)
    · obtain ⟨t, hstdin, hbuffer, hiff⟩ := stops_message (s := s) replies (hline ▸ hexit)
      rw [← hline] at hbuffer hiff
      have hsub : ∀ l ∈ lines t.server.stdin, l ∈ lines s.server.stdin := by
        rw [hstdin, ← hrest, hlines]
        exact fun l hl => List.mem_cons_of_mem line hl
      have hmessages : messages s.server.stdin = line :: messages t.server.stdin := by
        rw [messages, messages, hlines, hstdin, ← hrest, List.takeWhile_cons_of_pos (by simpa using hexit)]
      have hrec : BroadcastsThenStops t replies.tail (messages t.server.stdin) ↔
          EndsWithExit t.server.stdin t.server.buffer replies.tail :=
        ih (fun l hl => hshort l (hsub l hl)) (fun l hl => hzero l (hsub l hl)) (by rw [hstdin, hrest])
      have hstops : BroadcastsThenStops s replies (messages s.server.stdin) ↔
          BroadcastsThenStops t replies.tail (messages t.server.stdin) := by
        rw [hiff, hmessages]
        simp
      rw [hstops, hrec, EndsWithExit, EndsWithExit, hstdin, hlines, ← hrest, hbuffer]
      exact endsWithExit_cons hexit

/-! ## Main result -/

/-- The loop broadcasts the lines before the first `exit`, each once and in order, and ends, just when
it finds the word `exit`: in the input, or in the buffer when the input is used up. -/
theorem broadcasts_input_iff (input : Input) (buffer : List UInt8) (replies : Replies) :
    BroadcastsThenStops (.start input.bytes buffer) replies (messages input.bytes) ↔
      EndsWithExit input.bytes buffer replies :=
  stops_iff (s := .start input.bytes buffer) input.short input.zero_notMem

/-- The line `a`, and no reply to it. -/
def oneLine : Input where
  bytes := [0x61, 0x0a]
  short := by decide
  zero_notMem := by decide

/-- The input ends after its first line; the second turn broadcasts it again, and the loop never ends. -/
theorem input_end_rebroadcasts :
    (loop Serving.turn (.start oneLine.bytes [])
      (rounds (Stream'.const none) 2)).state.broadcast = [[0x61], [0x61]] ∧
    ¬ BroadcastsThenStops (.start oneLine.bytes []) (Stream'.const none) (messages oneLine.bytes) := by
  refine ⟨by decide, fun h => ?_⟩
  rcases (stops_iff oneLine.short oneLine.zero_notMem).mp h with hmem | hbuffer
  · exact absurd hmem (by decide)
  · rw [if_neg (by decide)] at hbuffer
    obtain ⟨reply, hreply, -⟩ := hbuffer
    cases hreply

end Am437x.Udp
