import Am437x.Tcp.HandleClient

/-!
# When the echo server echoes everything

Data keeps the loop of `handle_client` going, and the first read without data ends it, whatever the
reason: `continue` goes to the loop condition, which sees a value that is not positive.
-/

namespace Am437x.Echo

open Loops Tcp

variable {reads : List SslRead}

/-- The calls of a turn in which everything but the read goes well. -/
abbrev TurnIo.ofRead (r : SslRead) : TurnIo := { read := r, writeOk := true, running := true }

theorem handleClientBody_data (h : Handling) {r : SslRead} (hr : 0 < r.ret) :
    handleClientBody h (.ofRead r) =
      .again { written := h.written ++ r.bytes, reads := h.reads + 1 } := by
  have hturn : handleClientTurn r true true = (r.bytes, true) := if_pos hr
  rw [handleClientBody, hturn]
  rfl

theorem handleClientBody_noData (h : Handling) {r : SslRead} (hr : r.ret ≤ 0) :
    handleClientBody h (.ofRead r) = .left { written := h.written, reads := h.reads + 1 } := by
  have hturn : handleClientTurn r true true = ([], false) := if_neg (by omega)
  rw [handleClientBody, hturn]
  simp

theorem loop_data (h : Handling) (hdata : ∀ r ∈ reads, 0 < r.ret) :
    loop handleClientBody h (reads.map .ofRead) =
      .again { written := h.written ++ reads.flatMap SslRead.bytes,
               reads := h.reads + reads.length } := by
  induction reads generalizing h with
  | nil => simp [loop]
  | cons r reads ih =>
    have hr := hdata r List.mem_cons_self
    have hrest : ∀ r' ∈ reads, 0 < r'.ret := fun r' h' => hdata r' (List.mem_cons_of_mem _ h')
    rw [List.map_cons, loop_cons_again (handleClientBody_data h hr), ih _ hrest,
      List.flatMap_cons, List.append_assoc, List.length_cons, Nat.add_assoc, Nat.add_comm 1]

theorem handleReads_data (hdata : ∀ r ∈ reads, 0 < r.ret) :
    handleReads reads = .again { written := reads.flatMap SslRead.bytes, reads := reads.length } := by
  have h := loop_data { written := [], reads := 0 } hdata
  rw [List.nil_append, Nat.zero_add] at h
  exact h

theorem handleReads_noData {r : SslRead} (hdata : ∀ r ∈ reads, 0 < r.ret) (hr : r.ret ≤ 0)
    (rest : List SslRead) :
    handleReads (reads ++ r :: rest) =
      .left { written := reads.flatMap SslRead.bytes, reads := reads.length + 1 } := by
  have h := handleReads_data hdata
  unfold handleReads handleClient at *
  rw [List.map_append, loop_append, h]
  exact loop_cons_left (handleClientBody_noData _ hr) _

theorem not_isEnd_of_data {r : SslRead} (hr : 0 < r.ret) : ¬ IsEnd r := by
  rintro ⟨hle, -⟩
  omega

theorem beforeEnd_data (hdata : ∀ r ∈ reads, 0 < r.ret) (rest : List SslRead) :
    beforeEnd (reads ++ rest) = reads ++ beforeEnd rest := by
  refine List.takeWhile_append_of_pos fun r hr => ?_
  simpa using not_isEnd_of_data (hdata r hr)

theorem exactEcho_iff : ExactEcho reads ↔ NoRetryBeforeEnd reads := by
  rcases none_or_first (fun r : SslRead => r.ret ≤ 0) reads with hnone | ⟨ds, r, rest, rfl, hds, hr⟩
  · -- the session goes on, and no end was read
    have hdata : ∀ r ∈ reads, 0 < r.ret := fun r hr => not_le.mp (hnone r hr)
    refine iff_of_true ⟨?_, ?_, ?_⟩ (firstHas_of_none hnone)
    · have hbefore := beforeEnd_data hdata []
      rw [List.append_nil] at hbefore
      rw [handleReads_data hdata, hbefore]
      simp [Turn.state, beforeEnd]
    · rw [handleReads_data hdata]
      refine iff_of_false Bool.false_ne_true ?_
      rintro ⟨r, hr, hend⟩
      exact not_isEnd_of_data (hdata r hr) hend
    · rw [handleReads_data hdata]
      intro h
      cases h
  · have hdata : ∀ d ∈ ds, 0 < d.ret := fun d hd => not_le.mp (hds d hd)
    have hleft := handleReads_noData hdata hr rest
    have hbefore := beforeEnd_data hdata (r :: rest)
    have hcond : NoRetryBeforeEnd (ds ++ r :: rest) ↔ r.isWant = false := firstHas_append_cons hds hr
    rw [hcond]
    constructor
    · -- otherwise the session ends at a read that is not an end
      intro hexact
      by_contra hw
      have hnot : ¬ IsEnd r := fun hend => hw hend.2
      have hcons : beforeEnd (r :: rest) = r :: beforeEnd rest :=
        List.takeWhile_cons_of_pos (by simpa using hnot)
      have hlast := hexact.last_read
      rw [hleft, hbefore, hcons, List.length_append, List.length_cons] at hlast
      have hlen := hlast rfl
      simp only [Turn.state] at hlen
      omega
    · intro hw
      have hend : IsEnd r := ⟨hr, hw⟩
      have hnil : beforeEnd (r :: rest) = [] := List.takeWhile_cons_of_neg (by simpa using hend)
      rw [hnil, List.append_nil] at hbefore
      refine ⟨?_, ?_, ?_⟩
      · rw [hleft, hbefore]
        rfl
      · rw [hleft]
        exact iff_of_true rfl ⟨r, by simp, hend⟩
      · rw [hleft, hbefore]
        exact fun _ => rfl

/-! ## Main result -/

/-- For every sequence of reads, finite or endless: the session is the exact echo at every point just
when the first read without data is not one to be retried. -/
theorem handle_client_exact_iff (reads : Stream'.Seq SslRead) :
    (∀ n, ExactEcho (reads.take n)) ↔ ∀ n, NoRetryBeforeEnd (reads.take n) :=
  forall_congr' fun _ => exactEcho_iff

/-- The read after `A` has to be retried: the session ends, and `B` is not echoed. -/
theorem retry_ends_session :
    handleReads [.data [0x41], .wantRead, .data [0x42], .closed] =
      .left { written := [0x41], reads := 2 } ∧
    ¬ ∀ n, ExactEcho ((Stream'.Seq.ofList [.data [0x41], .wantRead, .data [0x42], .closed]).take n) := by
  refine ⟨by decide, fun h => ?_⟩
  have hexact := (h 4).written
  exact absurd hexact (by decide)

end Am437x.Echo
