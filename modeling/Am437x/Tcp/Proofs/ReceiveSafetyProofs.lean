import Am437x.Tcp.ReceiveSafety
import Am437x.Tcp.Proofs.FileTransferProofs

/-!
# When the receive loop is safe

A result above the length of a digest is written to the file. The first one that is not ends the loop,
unless it is negative: as a `size_t` it is larger than any buffer, and it is written, too.
-/

namespace Am437x.FileTransfer

open Loops Tcp

variable {mem : Flat.Memory UInt8} {reads : List ClientRead}

theorem receiveBody_long (c : Client) {r : SslRead} (hlong : sha256DigestLength < toSizeT r.ret) :
    receiveBody c r = .again ((c.sslRead r).fwrite (toSizeT r.ret)) := if_pos hlong

theorem receiveBody_short (c : Client) {r : SslRead} (hshort : toSizeT r.ret ≤ sha256DigestLength) :
    receiveBody c r = .left (toSizeT r.ret, c.sslRead r) := if_neg (by omega)

/-- The loop over its reads is the receive loop of a transfer. -/
theorem receiveLoop_eq_some_iff {c : Client} {rs : List SslRead} {out : Nat × Client} :
    receiveLoop c rs = some out ↔ loop receiveBody c rs = .left out := by
  induction rs generalizing c with
  | nil => simp [receiveLoop, loop]
  | cons r rs ih =>
    rw [receiveLoop]
    by_cases hlong : toSizeT r.ret > sha256DigestLength
    · rw [if_pos hlong, loop_cons_again (receiveBody_long c hlong)]
      exact ih
    · rw [if_neg hlong, loop_cons_left (receiveBody_short c (by omega))]
      simp

theorem toSizeT_fatal {r : SslRead} (h : r.ret < 0) : toSizeT r.ret = 2 ^ 64 - 1 := by
  cases r with
  | data bytes =>
    have hpos : 0 ≤ (SslRead.data bytes).ret := Int.natCast_nonneg _
    omega
  | closed => cases h
  | wantRead => rfl
  | wantWrite => rfl
  | fatal => rfl

theorem toSizeT_nonneg {r : SslRead} (h : 0 ≤ r.ret) (hle : r.ret ≤ bufferSize) :
    (toSizeT r.ret : Int) = r.ret := by
  simp only [toSizeT, bufferSize] at *
  omega

/-- The sizes of `fwrite` calls only become more. -/
theorem mem_fwrites_of_loop {c : Client} {rs : List SslRead} {n : Nat} (h : n ∈ c.fwrites) :
    n ∈ fwritesOf (loop receiveBody c rs) := by
  have hstep : ∀ (c : Client) r c', n ∈ c.fwrites → receiveBody c r = .again c' → n ∈ c'.fwrites := by
    intro c r c' hmem hb
    simp only [receiveBody] at hb
    split at hb
    · obtain rfl := Turn.again.inj hb
      exact List.mem_append_left _ hmem
    · cases hb
  have hleft : ∀ (c : Client) r out, n ∈ c.fwrites → receiveBody c r = .left out →
      n ∈ out.2.fwrites := by
    intro c r out hmem hb
    simp only [receiveBody] at hb
    split at hb
    · cases hb
    · obtain rfl := Turn.left.inj hb
      exact hmem
  cases hloop : loop receiveBody c rs with
  | again c' => exact inv_of_again hstep h hloop
  | left out => exact post_of_left hstep hleft h hloop

/-- Long reads keep the loop going, with `fwrite` calls within the buffer. -/
theorem loop_long {c : Client} (hlong : ∀ r ∈ reads, (sha256DigestLength : Int) < r.val.ret)
    (hc : ∀ n ∈ c.fwrites, n ≤ bufferSize) :
    ∃ c', loop receiveBody c (reads.map Subtype.val) = .again c' ∧
      ∀ n ∈ c'.fwrites, n ≤ bufferSize := by
  induction reads generalizing c with
  | nil => exact ⟨c, rfl, hc⟩
  | cons r reads ih =>
    have hr := hlong r List.mem_cons_self
    have hrest : ∀ r' ∈ reads, (sha256DigestLength : Int) < r'.val.ret :=
      fun r' h' => hlong r' (List.mem_cons_of_mem _ h')
    have hsize := toSizeT_nonneg (by omega) r.property
    have hfit := r.property
    rw [List.map_cons, loop_cons_again (receiveBody_long c (by omega))]
    refine ih hrest fun n hn => ?_
    rcases List.mem_append.mp hn with hn | hn
    · exact hc n hn
    · rw [List.mem_singleton.mp hn]
      omega

theorem safe_iff : Safe mem reads ↔ FirstShortIsDigest reads := by
  have hstart : ∀ n ∈ (Client.start mem).fwrites, n ≤ bufferSize := by
    intro n hn
    cases hn
  rcases none_or_first (fun r : ClientRead => r.val.ret ≤ sha256DigestLength) reads with
    hnone | ⟨ls, r, rest, rfl, hls, hr⟩
  · -- the loop goes on
    have hlong : ∀ r ∈ reads, (sha256DigestLength : Int) < r.val.ret :=
      fun r hr => not_le.mp (hnone r hr)
    obtain ⟨c', hloop, hfwrites⟩ := loop_long hlong hstart
    have hreads : receiveReads mem reads = .again c' := hloop
    refine iff_of_true ⟨?_, ?_, ?_⟩ (firstHas_of_none hnone)
    · rintro ⟨r, hr, hle⟩
      have hpos := hlong r hr
      omega
    · rw [hreads]
      exact hfwrites
    · rw [hreads]
      intro bytesRead c h
      cases h
  · have hlong : ∀ l ∈ ls, (sha256DigestLength : Int) < l.val.ret := fun l hl => not_le.mp (hls l hl)
    obtain ⟨c', hloop, hfwrites⟩ := loop_long hlong hstart
    have hreads : receiveReads mem (ls ++ r :: rest) =
        loop receiveBody c' ((r :: rest).map Subtype.val) := by
      rw [receiveReads, List.map_append, loop_append, hloop]
      rfl
    have hcond : FirstShortIsDigest (ls ++ r :: rest) ↔ r.val.ret = sha256DigestLength :=
      firstHas_append_cons hls hr
    rw [hcond]
    rcases Int.lt_or_le r.val.ret 0 with hneg | hnonneg
    · -- a negative result is written
      have hfatal := toSizeT_fatal hneg
      refine iff_of_false (fun hsafe => ?_) (by omega)
      have hle := hsafe.fwrite_le (2 ^ 64 - 1) ?_
      · unfold bufferSize at hle
        omega
      · rw [hreads, List.map_cons, loop_cons_again (receiveBody_long c' ?_), hfatal]
        · exact mem_fwrites_of_loop (List.mem_append_right _ (List.mem_singleton_self _))
        · rw [hfatal]
          unfold sha256DigestLength
          omega
    · -- the loop is left, and the digest is copied from the end of this read
      have hsize := toSizeT_nonneg hnonneg r.property
      have hleft : receiveReads mem (ls ++ r :: rest) = .left (toSizeT r.val.ret, c'.sslRead r) := by
        rw [hreads, List.map_cons]
        exact loop_cons_left (receiveBody_short c' (by omega)) _
      constructor
      · intro hsafe
        have hinside := (hsafe.digest_inside _ _ hleft).1
        omega
      · intro hdigest
        refine ⟨?_, ?_, ?_⟩
        · rw [hleft]
          exact fun _ => rfl
        · rw [hleft]
          exact hfwrites
        · rw [hleft]
          intro bytesRead c h
          obtain ⟨rfl, -⟩ := Prod.mk.inj (Turn.left.inj h)
          unfold DigestInBuffer bufferSize sha256DigestLength at *
          omega

/-! ## Main result -/

/-- For every sequence of reads, finite or endless: the client respects its buffer at every point just
when the first read that is not long has the length of a digest. -/
theorem receive_safe_iff (mem : Flat.Memory UInt8) (reads : Stream'.Seq ClientRead) :
    (∀ n, Safe mem (reads.take n)) ↔ ∀ n, FirstShortIsDigest (reads.take n) :=
  forall_congr' fun _ => safe_iff

/-- The first read fails: the loop is not left, and `fwrite` is to write `2 ^ 64 - 1` bytes. -/
theorem failed_read_written :
    fwritesOf (receiveReads (fun _ => 0) [⟨.fatal, by decide⟩]) = [2 ^ 64 - 1] ∧
    ¬ ∀ n, Safe (fun _ => 0) ((Stream'.Seq.ofList [⟨.fatal, by decide⟩]).take n) := by
  refine ⟨rfl, fun h => ?_⟩
  have hleft := (h 1).leaves ⟨⟨.fatal, by decide⟩, List.mem_singleton_self _, by decide⟩
  cases hleft

end Am437x.FileTransfer
