import Am437x.Udp.BufferSafety
import Am437x.Udp.Proofs.ServerLoopProofs

/-!
# When the UDP server stays inside its buffer

`fgets` leaves a string in the buffer and `recvfrom` any bytes. The terminator that follows these is
outside the buffer just when they fill it.
-/

namespace Am437x.Udp

open CString Runs

variable {s t : Server}

/-! ## The length of the buffer -/

theorem fgets_fits {line rest : List UInt8} (hs : s.buffer.length = bufferSize)
    (h : fgets bufferSize s.stdin = some (line, rest)) :
    0 + (line ++ [0]).length ≤ s.buffer.length := by
  have hle := fgets_length_le (by decide) h
  rw [List.length_append, List.length_singleton, hs]
  omega

theorem length_refill (hs : s.buffer.length = bufferSize) :
    s.refill.buffer.length = bufferSize := by
  unfold Server.refill
  cases hread : fgets bufferSize s.stdin with
  | none => exact hs
  | some read =>
    show (writeAt s.buffer 0 (read.1 ++ [0])).length = bufferSize
    rw [length_writeAt (fgets_fits hs hread), hs]

theorem length_readLine (hs : s.buffer.length = bufferSize) :
    s.readLine.buffer.length = bufferSize := by
  rw [readLine_eq]
  show (s.refill.buffer.set _ 0).length = bufferSize
  rw [List.length_set, length_refill hs]

theorem prompt_buffer (s : Server) (sendOk : Bool) :
    (s.prompt sendOk).1.buffer = s.readLine.buffer := by
  simp only [Server.prompt]
  split
  · rfl
  · split <;> rfl

theorem length_receive (hs : s.buffer.length = bufferSize) (datagram : Option (List UInt8)) :
    (s.receive datagram).1.buffer.length = bufferSize := by
  cases datagram with
  | none => exact hs
  | some payload =>
    have hfits : 0 + (payload.take bufferSize).length ≤ s.buffer.length := by
      rw [List.length_take, hs]
      omega
    simp only [Server.receive]
    split
    · rw [List.length_set, length_writeAt hfits, hs]
    · rw [length_writeAt hfits, hs]

/-! ## The accesses of one call -/

/-- The newline removal is inside the buffer. -/
theorem strcspn_refill_lt_iff (hs : s.buffer.length = bufferSize) :
    strcspn s.refill.buffer newline < bufferSize ↔ s.Filled := by
  rw [← length_refill hs, strcspn_lt_iff, Server.Filled]
  by_cases hne : s.stdin = []
  · rw [refill_of_nil hne]
    simp [hne]
  · have hread : fgets bufferSize s.stdin = some (getLine (bufferSize - 1) s.stdin) := if_neg hne
    have hzero : 0 ∈ s.refill.buffer := by
      rw [Server.refill, hread]
      simp [writeAt]
    exact iff_of_true (Or.inl hzero) (Or.inl hne)

theorem zero_mem_readLine (h : strcspn s.refill.buffer newline < s.refill.buffer.length) :
    0 ∈ s.readLine.buffer := by
  rw [readLine_eq]
  exact List.mem_set h 0

theorem promptAccesses_safe_iff (hs : s.buffer.length = bufferSize) (sendOk : Bool) :
    (∀ a ∈ s.promptAccesses sendOk, a.Safe) ↔ s.Filled := by
  rw [← strcspn_refill_lt_iff hs]
  constructor
  · intro h
    exact h (.write (strcspn s.refill.buffer newline) 1) (by simp [Server.promptAccesses])
  · intro hlt
    have hzero : 0 ∈ s.readLine.buffer := zero_mem_readLine (by rwa [length_refill hs])
    have hfilled : ∀ line rest, fgets bufferSize s.stdin = some (line, rest) →
        (Access.write 0 (line.length + 1)).Safe := by
      intro line rest hread
      show 0 + (line.length + 1) ≤ bufferSize
      have hle := fgets_length_le (by decide) hread
      omega
    intro a ha
    simp only [Server.promptAccesses, List.mem_append] at ha
    rcases ha with (ha | ha) | ha
    · cases hread : fgets bufferSize s.stdin with
      | none =>
        rw [hread] at ha
        cases ha
      | some read =>
        rw [hread] at ha
        rw [List.mem_singleton.mp ha]
        exact hfilled read.1 read.2 hread
    · rcases List.mem_pair.mp ha with rfl | rfl
      · exact hlt
      · exact hzero
    · have hstr : a = .str s.readLine.buffer := by
        split at ha
        · cases ha
        · rcases List.mem_cons.mp ha with ha | ha
          · exact ha
          · split at ha
            · exact List.mem_singleton.mp ha
            · cases ha
      rw [hstr]
      exact hzero

theorem receiveAccesses_safe_iff (hs : s.buffer.length = bufferSize)
    (datagram : Option (List UInt8)) :
    (∀ a ∈ s.receiveAccesses datagram, a.Safe) ↔
      ∀ payload ∈ datagram, payload.length < bufferSize := by
  cases datagram with
  | none => simp [Server.receiveAccesses]
  | some payload =>
    constructor
    · intro h p hp
      obtain rfl := Option.some.inj hp
      by_contra hfull
      have hlen : (payload.take bufferSize).length = bufferSize :=
        List.length_take_of_le (Nat.not_lt.mp hfull)
      have hmem : .write bufferSize 1 ∈ s.receiveAccesses (some payload) := by
        simp only [Server.receiveAccesses, hlen]
        rw [if_pos (by decide)]
        exact List.mem_cons_of_mem _ List.mem_cons_self
      have hlt : bufferSize + 1 ≤ bufferSize := h _ hmem
      omega
    · intro h
      have hlt : payload.length < bufferSize := h payload rfl
      have htake : payload.take bufferSize = payload := List.take_of_length_le hlt.le
      intro a ha
      simp only [Server.receiveAccesses, htake] at ha
      rcases List.mem_cons.mp ha with rfl | ha
      · show 0 + payload.length ≤ bufferSize
        omega
      · split at ha
        next hpos =>
          rcases List.mem_pair.mp ha with rfl | rfl
          · exact hlt
          · have hfits : 0 + payload.length ≤ s.buffer.length := by
              rw [hs]
              omega
            have hlast : payload.length < (writeAt s.buffer 0 payload).length := by
              rw [length_writeAt hfits, hs]
              exact hlt
            simp only [Server.receive, htake, if_pos hpos]
            exact List.mem_set hlast 0
        · cases ha

/-! ## Main result -/

theorem accessesSafe_iff {call : Call} (hs : s.buffer.length = bufferSize) :
    AccessesSafe s call t ↔ CallFits s call t := by
  cases call with
  | prompt sendOk => exact promptAccesses_safe_iff hs sendOk
  | recvfrom datagram => exact receiveAccesses_safe_iff hs datagram

theorem step_of_prompt (h : s.phase = .prompt) (sendOk : Bool) :
    s.step (.prompt sendOk) = some (s.prompt sendOk).1 :=
  if_pos h

theorem step_of_waiting (h : s.phase = .waiting) (datagram : Option (List UInt8)) :
    s.step (.recvfrom datagram) = some (s.receive datagram).1 :=
  if_pos h

theorem phase_refill (s : Server) : s.refill.phase = s.phase := by
  unfold Server.refill
  cases fgets bufferSize s.stdin with
  | none => rfl
  | some read => rfl

theorem phase_readLine (s : Server) : s.readLine.phase = s.phase := by
  rw [readLine_eq]
  exact phase_refill s

/-- The calls of one turn of the broadcast loop. -/
def Round.calls (r : Round) : List Call :=
  .prompt r.sendOk :: if r.sendOk then [.recvfrom r.datagram] else []

/-- A turn of the broadcast loop that goes on is made up of its calls. -/
theorem run_calls {u v : Serving} {r : Round} (hphase : u.server.phase = .prompt)
    (h : u.turn r = .again v) : run Server.step u.server r.calls = some v.server := by
  obtain ⟨sendOk, datagram⟩ := r
  have hreadLine := phase_readLine u.server
  by_cases hexit : cstr u.server.readLine.buffer = exit
  · simp [Serving.turn, Server.prompt, hexit] at h
  · cases sendOk with
    | false =>
      simp only [Serving.turn, Server.prompt, if_neg hexit, hreadLine, hphase, Bool.false_eq_true,
        if_false] at h
      obtain rfl := Loops.Turn.again.inj h
      simp [Round.calls, run, Server.step, Server.prompt, hphase, hexit]
    | true =>
      simp only [Serving.turn, Server.prompt, if_neg hexit, if_true] at h
      obtain rfl := Loops.Turn.again.inj h
      simp [Round.calls, run, Server.step, Server.prompt, hphase, hexit]

theorem length_step {call : Call} (hs : s.buffer.length = bufferSize)
    (h : s.step call = some t) : t.buffer.length = bufferSize := by
  cases call with
  | prompt sendOk =>
    simp only [Server.step] at h
    split at h
    · obtain rfl := Option.some.inj h
      rw [prompt_buffer, length_readLine hs]
    · cases h
  | recvfrom datagram =>
    simp only [Server.step] at h
    split at h
    · obtain rfl := Option.some.inj h
      exact length_receive hs datagram
    · cases h

/-- All accesses of a run are inside the buffer just when, at every call of the run, `fgets` reads a line
or the buffer already holds one, and `recvfrom` leaves a place for the terminator. -/
theorem buffer_safe_iff (stdin : List UInt8) (buffer : Buffer) (calls : List Call) :
    AllSteps Server.step AccessesSafe (.start stdin buffer) calls ↔
      AllSteps Server.step CallFits (.start stdin buffer) calls := by
  apply allSteps_iff_of_inv (fun s : Server => s.buffer.length = bufferSize)
  · intro s call t hs _
    exact accessesSafe_iff hs
  · intro s call t hs h _
    exact length_step hs h
  · exact buffer.2

def clearBuffer : Buffer := ⟨List.replicate bufferSize 0, List.length_replicate⟩

def fullReply : List UInt8 := List.replicate bufferSize 0x41

/-- After the line `a` a reply comes that is as long as the buffer. Its terminator is written behind it. -/
theorem full_reply_overruns :
    Access.write bufferSize 1 ∈ (Server.start [0x61, 0x0a] clearBuffer).receiveAccesses (some fullReply) ∧
    ¬ AllSteps Server.step AccessesSafe (.start [0x61, 0x0a] clearBuffer)
      [.prompt true, .recvfrom (some fullReply)] := by
  have hlen : ((Server.start [0x61, 0x0a] clearBuffer).prompt true).1.buffer.length = bufferSize := by
    rw [prompt_buffer, length_readLine clearBuffer.2]
  have hwait : ((Server.start [0x61, 0x0a] clearBuffer).prompt true).1.phase = .waiting := by
    decide +kernel
  refine ⟨by decide +kernel, fun h => ?_⟩
  obtain ⟨-, hrest⟩ := h _ (step_of_prompt rfl true)
  obtain ⟨hsafe, -⟩ := hrest _ (step_of_waiting hwait (some fullReply))
  have hshort : fullReply.length < bufferSize :=
    (receiveAccesses_safe_iff hlen (some fullReply)).mp hsafe fullReply rfl
  rw [fullReply, List.length_replicate] at hshort
  exact absurd hshort (lt_irrefl _)

end Am437x.Udp
