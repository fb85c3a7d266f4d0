import Am437x.Tcp.Echo

/-!
# Proofs: the echo session

The invariant couples the place of the client in its loop with both channels: no response is pending at
the prompt, and at most the response to the last message is pending while the client reads.
-/

namespace Am437x.Echo

open CString Runs Tcp

/-! ## What one stretch of either program does -/

/-- A pass of the client from its prompt: nothing, the end of the loop, or one message without NUL. -/
theorem input_cases (s : Session) (ioError writeOk : Bool) :
    s.input ioError writeOk = s ∨
    (∃ stdin buffer,
      s.input ioError writeOk = { s with stdin := stdin, buffer := buffer, client := .closed }) ∨
    ∃ stdin buffer text, 0 ∉ text ∧ text ≠ [] ∧
      s.input ioError writeOk = { s with
        stdin := stdin
        buffer := buffer
        client := .reading
        sent := s.sent ++ [text]
        toServer := s.toServer ++ [{ seq := s.sent.length + 1, text := text }] } := by
  unfold Session.input
  split
  · exact Or.inl rfl
  · cases fgets bufferSize s.stdin with
    | none => exact Or.inr (Or.inl ⟨s.stdin, s.buffer, rfl⟩)
    | some lr =>
      obtain ⟨line, rest⟩ := lr
      dsimp only
      split
      · exact Or.inr (Or.inl ⟨rest, storeLine s.buffer line, rfl⟩)
      · split
        · rename_i h
          refine Or.inr (Or.inr ⟨rest, storeLine s.buffer line, cstr (storeLine s.buffer line),
            zero_notMem_cstr _, ?_, rfl⟩)
          exact List.length_pos_iff.mp h.2
        · exact Or.inr (Or.inl ⟨rest, storeLine s.buffer line, rfl⟩)

theorem clientRead_data (s : Session) {text : List UInt8} (seq : Nat) (h0 : 0 ∉ text)
    (hne : text ≠ []) :
    ∃ buffer, s.clientRead (.data text) seq = { s with
      buffer := buffer
      client := .prompt
      printed := s.printed ++ [{ seq := seq, text := text }] } := by
  have hret : (SslRead.data text).ret > 0 := by
    have hpos := List.length_pos_iff.mpr hne
    simp only [SslRead.ret]
    omega
  refine ⟨writeAt s.buffer 0 (text ++ [0]), ?_⟩
  unfold Session.clientRead
  rw [if_pos hret]
  simp only [SslRead.bytes, cstr_writeAt_zero h0]

theorem clientRead_no_data (s : Session) {r : SslRead} (seq : Nat) (hr : r.ret ≤ 0) :
    s.clientRead r seq = { s with client := if r.isWant then .prompt else .closed } := by
  unfold Session.clientRead
  rw [if_neg (by omega)]
  cases r with
  | data bytes =>
    have hret : (SslRead.data bytes).ret = 0 := by
      simp only [SslRead.ret] at *
      omega
    rw [if_pos hret]
    rfl
  | closed => rfl
  | wantRead => rfl
  | wantWrite => rfl
  | fatal => rfl

/-! ## The invariant -/

structure IsLast (s : Session) (m : Message) : Prop where
  seq : m.seq = s.sent.length
  text : s.sent.getLast? = some m.text
  no_nul : 0 ∉ m.text
  ne_nil : m.text ≠ []

structure Inv (s : Session) : Prop where
  prompt : s.client = .prompt → s.pending = []
  reading : s.client = .reading → s.pending = [] ∨ ∃ m, s.pending = [m] ∧ IsLast s m

theorem inv_start (stdin buffer : List UInt8) : Inv (.start stdin buffer) where
  prompt _ := rfl
  reading h := by cases h

theorem inv_of_closed {s : Session} (h : s.client = .closed) : Inv s where
  prompt h' := by rw [h] at h'; cases h'
  reading h' := by rw [h] at h'; cases h'

/-- A step of the server leaves the client alone and adds no response: what is pending afterwards is a
sublist of what was. -/
theorem inv_of_server {s s' : Session} (hi : Inv s) (hclient : s'.client = s.client)
    (hsent : s'.sent = s.sent) (hpend : s'.pending.Sublist s.pending) : Inv s' where
  prompt h := by
    rw [hclient] at h
    exact List.sublist_nil.mp (hi.prompt h ▸ hpend)
  reading h := by
    rw [hclient] at h
    rcases hi.reading h with hnil | ⟨m, hm, hlast⟩
    · exact Or.inl (List.sublist_nil.mp (hnil ▸ hpend))
    · rw [hm] at hpend
      rcases List.sublist_singleton.mp hpend with hnil | hone
      · exact Or.inl hnil
      · exact Or.inr ⟨m, hone, hsent ▸ hlast.seq, hsent ▸ hlast.text, hlast.no_nul, hlast.ne_nil⟩

/-- What is pending after the server has read: its answer takes the place of the message it read. -/
theorem serve_pending {s : Session} {m : Message} {rest : List Message} (hserver : s.server = .serving)
    (hto : s.toServer = m :: rest) (writeOk : Bool) {s' : Session}
    (h : step s (.serve writeOk) = some s') :
    s'.client = s.client ∧ s'.sent = s.sent ∧ s'.printed = s.printed ∧
      s'.pending.Sublist s.pending := by
  simp only [step, hserver, hto, Option.some.injEq] at h
  subst h
  refine ⟨rfl, rfl, rfl, ?_⟩
  unfold Session.pending handleClientTurn
  simp only [hserver, hto, if_true]
  by_cases hret : (SslRead.data m.text).ret > 0
  · have hne : m.text ≠ [] := by
      intro hnil
      simp [SslRead.ret, hnil] at hret
    rw [if_pos hret]
    cases writeOk <;> cases s.running <;> simp [SslRead.bytes, hne]
  · simp [hret]

theorem noMessage_pending {s s' : Session} {r : SslRead} (h : step s (.noMessage r) = some s') :
    s'.client = s.client ∧ s'.sent = s.sent ∧ s'.printed = s.printed ∧
      s'.pending.Sublist s.pending := by
  simp only [step] at h
  split at h
  · obtain rfl := Option.some.inj h
    refine ⟨rfl, rfl, rfl, ?_⟩
    rename_i hr
    simp [Session.pending, handleClientTurn, hr.1, not_lt.mpr hr.2]
  · cases h

/-! ## The steps of the session -/

theorem paired_of_inv {s s' : Session} (e : Event) (hi : Inv s') (hprinted : s'.printed = s.printed) :
    Paired s e s' := by
  constructor
  · intro p hp
    rw [hprinted] at hp
    exact absurd (congrArg List.length hp) (by simp)
  · intro hprompt hout
    exact hout (hi.prompt hprompt)

theorem step_input {s s' : Session} {ioError writeOk : Bool} (hi : Inv s)
    (h : step s (.input ioError writeOk) = some s') : Inv s' ∧ s'.printed = s.printed := by
  simp only [step] at h
  split at h
  · rename_i hprompt
    have hpend := hi.prompt hprompt
    obtain rfl := Option.some.inj h
    rcases input_cases s ioError writeOk with heq | ⟨stdin, buffer, heq⟩ |
      ⟨stdin, buffer, text, h0, hne, heq⟩
    · rw [heq]
      exact ⟨hi, rfl⟩
    · rw [heq]
      exact ⟨inv_of_closed rfl, rfl⟩
    · rw [heq]
      obtain ⟨hclient, hserver⟩ := List.append_eq_nil_iff.mp hpend
      refine ⟨⟨(by intro h'; cases h'), fun _ => ?_⟩, rfl⟩
      -- the new message is the only one pending, when the server is there to read it
      by_cases hs : s.server = .serving
      · rw [if_pos hs] at hserver
        right
        refine ⟨{ seq := s.sent.length + 1, text := text }, ?_, ⟨?_, ?_, h0, hne⟩⟩
        · simp [Session.pending, hclient, hserver, hs]
        · simp
        · simp
      · left
        simp [Session.pending, hclient, hs]
  · cases h

/-- A response that is delivered is the answer to the last message, and then nothing is pending. -/
theorem step_response {s s' : Session} (hi : Inv s) (h : step s .response = some s') :
    Inv s' ∧ Paired s .response s' := by
  simp only [step] at h
  split at h
  · rename_i m rest hclient hto
    obtain ⟨m', hpend, hlast⟩ : ∃ m, s.pending = [m] ∧ IsLast s m := by
      rcases hi.reading hclient with hnil | hone
      · exact absurd hnil (by simp [Session.pending, hto])
      · exact hone
    rw [Session.pending, hto, List.cons_append] at hpend
    obtain ⟨rfl, hrest⟩ := List.cons.inj hpend
    obtain ⟨buffer, heq⟩ :=
      clientRead_data { s with toClient := rest } m.seq hlast.no_nul hlast.ne_nil
    rw [heq, Option.some.injEq] at h
    subst h
    refine ⟨⟨fun _ => hrest, fun h' => by cases h'⟩, ⟨?_, ?_⟩⟩
    · intro p hp
      obtain rfl := List.singleton_injective (List.append_cancel_left hp)
      exact ⟨hlast.seq, hlast.text⟩
    · intro _ hout
      exact hout hrest
  · cases h

theorem step_noResponse {s s' : Session} {r : SslRead} (h : step s (.noResponse r) = some s') :
    s' = { s with client := if r.isWant then .prompt else .closed } := by
  simp only [step] at h
  split at h
  · rename_i hr
    rw [clientRead_no_data s 0 hr.2] at h
    exact (Option.some.inj h).symm
  · cases h

theorem step_server {s s' : Session} {e : Event} (hi : Inv s)
    (he : (∃ writeOk, e = .serve writeOk) ∨ (∃ r, e = .noMessage r) ∨ e = .signal)
    (h : step s e = some s') : Inv s' ∧ s'.printed = s.printed := by
  rcases he with ⟨writeOk, rfl⟩ | ⟨r, rfl⟩ | rfl
  · cases hto : s.toServer with
    | nil => simp [step, hto] at h
    | cons m rest =>
      cases hserver : s.server with
      | closed => simp [step, hserver] at h
      | serving =>
        obtain ⟨hclient, hsent, hprinted, hpend⟩ := serve_pending hserver hto writeOk h
        exact ⟨inv_of_server hi hclient hsent hpend, hprinted⟩
  · obtain ⟨hclient, hsent, hprinted, hpend⟩ := noMessage_pending h
    exact ⟨inv_of_server hi hclient hsent hpend, hprinted⟩
  · obtain rfl := Option.some.inj h
    exact ⟨inv_of_server hi rfl rfl (List.Sublist.refl _), rfl⟩

/-- Under the invariant a step is paired just when it is not a retry with a response outstanding; and
then it keeps the invariant. -/
theorem step_paired_iff {s s' : Session} {e : Event} (hi : Inv s) (h : step s e = some s') :
    (Paired s e s' ↔ NoRetryWhileOutstanding s e s') ∧
      (NoRetryWhileOutstanding s e s' → Inv s') := by
  have hfree : ∀ {e : Event}, (∀ r, e ≠ .noResponse r) → NoRetryWhileOutstanding s e s' := by
    intro e he r hr
    exact absurd hr (he r)
  cases e with
  | input ioError writeOk =>
    obtain ⟨hi', hprinted⟩ := step_input hi h
    exact ⟨iff_of_true (paired_of_inv _ hi' hprinted) (hfree (by simp)), fun _ => hi'⟩
  | response =>
    obtain ⟨hi', hpaired⟩ := step_response hi h
    exact ⟨iff_of_true hpaired (hfree (by simp)), fun _ => hi'⟩
  | noResponse r =>
    obtain rfl := step_noResponse h
    cases hw : r.isWant with
    | false =>
      have hi' : Inv { s with client := if false then .prompt else .closed } := inv_of_closed rfl
      refine ⟨iff_of_true (paired_of_inv _ hi' rfl) ?_, fun _ => hi'⟩
      intro r' hr' hw'
      cases hr'
      rw [hw] at hw'
      cases hw'
    | true =>
      -- back at the prompt with the same channels
      constructor
      · constructor
        · intro hpaired r' _ _
          exact hpaired.2 rfl
        · intro hno
          refine ⟨fun p hp => absurd (congrArg List.length hp) (by simp), fun _ => ?_⟩
          exact hno r rfl hw
      · intro hno
        have hnil : s.pending = [] := not_not.mp (hno r rfl hw)
        exact ⟨fun _ => hnil, fun h' => by cases h'⟩
  | serve writeOk =>
    obtain ⟨hi', hprinted⟩ := step_server hi (Or.inl ⟨writeOk, rfl⟩) h
    exact ⟨iff_of_true (paired_of_inv _ hi' hprinted) (hfree (by simp)), fun _ => hi'⟩
  | noMessage r =>
    obtain ⟨hi', hprinted⟩ := step_server hi (Or.inr (Or.inl ⟨r, rfl⟩)) h
    exact ⟨iff_of_true (paired_of_inv _ hi' hprinted) (hfree (by simp)), fun _ => hi'⟩
  | signal =>
    obtain ⟨hi', hprinted⟩ := step_server hi (Or.inr (Or.inr rfl)) h
    exact ⟨iff_of_true (paired_of_inv _ hi' hprinted) (hfree (by simp)), fun _ => hi'⟩

/-! ## Main result -/

/-- In a run of the session, every response printed answers the message sent last and none is
outstanding at the prompt, just when no read reports that it should be retried while a response is
outstanding. -/
theorem session_paired_iff (stdin buffer : List UInt8) (events : List Event) :
    AllSteps step Paired (.start stdin buffer) events ↔
      AllSteps step NoRetryWhileOutstanding (.start stdin buffer) events := by
  apply allSteps_iff_of_inv Inv
  · intro s e s' hi h
    exact (step_paired_iff hi h).1
  · intro s e s' hi h
    exact (step_paired_iff hi h).2
  · exact inv_start stdin buffer

/-- Input lines `A` and `B`: the read for the response to `A` has to be retried, the client goes back to
its prompt, and the response to `A` is printed for `B`. -/
theorem retry_shifts_responses :
    (run step (.start [0x41, 0x0a, 0x42, 0x0a] [])
      [.input false true, .noResponse .wantRead, .input false true, .serve true, .response]).map
        (fun s => (s.sent, s.printed)) =
      some ([[0x41], [0x42]], [{ seq := 1, text := [0x41] }]) ∧
    ¬ AllSteps step Paired (.start [0x41, 0x0a, 0x42, 0x0a] [])
      [.input false true, .noResponse .wantRead, .input false true, .serve true, .response] := by
  refine ⟨by decide, fun h => ?_⟩
  have hretry := AllSteps.of_run [Event.input false true] h rfl rfl
  exact hretry.2 rfl (by decide)

end Am437x.Echo
