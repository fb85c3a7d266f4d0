import Am437x.Csf.Proofs.ParserProofs

/-!
# The heap block of the authenticate data command

The block has room for whole regions, and the command is copied to it with the length that its header says. This
is the only write of the parser that is not in bounds.
-/

namespace Am437x.Csf

open Records

/-! ## Parsers that do not write out of bounds -/

variable {e : Env} {d hdr : List UInt8} {csfLen offset : Nat} {out : Out}

theorem validate_avoids {p : Prop} [Decidable p] : Avoids .overflow (validate p) := by
  intro h
  cases (validate_eq_error.mp h).2

theorem byte_avoids {k : Nat} : Avoids .overflow (byte d k) := by
  intro h
  cases (byte_eq_error.mp h).2

theorem slice_avoids {k n : Nat} : Avoids .overflow (slice d k n) := by
  intro h
  cases (slice_eq_error.mp h).2

theorem hdrLen_avoids : Avoids .overflow (hdrLen d) :=
  .bind byte_avoids fun _ => .bind byte_avoids fun _ => .pure

theorem fromBe32_avoids {k : Nat} : Avoids .overflow (fromBe32 d k) :=
  .bind byte_avoids fun _ => .bind byte_avoids fun _ => .bind byte_avoids fun _ => .bind byte_avoids fun _ => .pure

/-- A block of the length that is copied has room. -/
theorem copyToHeap_avoids {block n : Nat} (h : n ≤ block) : Avoids .overflow (copyToHeap block d n) := by
  rw [copyToHeap, if_neg (not_lt.mpr h)]
  exact slice_avoids

theorem debugDump_avoids : Avoids .overflow (debugDump e hdr d) := by
  unfold debugDump
  split
  · exact .bind hdrLen_avoids fun _ => .bind slice_avoids fun _ => .pure
  · exact .pure

theorem debugDumpHdr_avoids : Avoids .overflow (debugDumpHdr e hdr) := by
  unfold debugDumpHdr
  split
  · exact .bind slice_avoids fun _ => .pure
  · exact .pure

theorem writeFile_avoids {name : List Char} {data : Except Stop (List UInt8)} (h : Avoids .overflow data) :
    Avoids .overflow (writeFile e name data out) := by
  unfold writeFile
  split
  · exact .bind h fun _ => .pure
  · exact .error (by decide)

theorem keySection_avoids {keyLoc : Nat} : Avoids .overflow (e.keySection offset keyLoc) := by
  unfold Env.keySection
  dsimp only
  split
  · exact .pure
  · exact .error (by decide)

theorem extractKey_avoids {certFmt : UInt8} {keyLoc : Nat} :
    Avoids .overflow (extractKey e certFmt offset keyLoc out) := by
  unfold extractKey
  split_ifs
  · exact writeFile_avoids (.bind keySection_avoids fun _ => .bind hdrLen_avoids fun _ => slice_avoids)
  · refine .bind (writeFile_avoids (.bind keySection_avoids fun _ => .bind hdrLen_avoids fun _ => ?_)) fun _ => .pure
    split
    · exact .error (by decide)
    · exact slice_avoids
  · exact .pure

theorem readRegions_avoids (k n : Nat) : Avoids .overflow (readRegions d k n) := by
  induction n generalizing k with
  | zero => exact .pure
  | succ n ih => exact .bind fromBe32_avoids fun _ => .bind fromBe32_avoids fun _ => .bind (ih _) fun _ => .pure

theorem unlockUid_avoids {cmd engine : UInt8} {len : Nat} : Avoids .overflow (unlockUid hdr cmd engine len) := by
  unfold unlockUid
  split
  · exact .bind fromBe32_avoids fun _ => .bind fromBe32_avoids fun _ => .pure
  · exact .pure

/-- The other parsers only read, or copy to a block of the length that they copy. -/
theorem parseTag_avoids {tag : UInt8} (h : tag ≠ habCmdAutDat) :
    Avoids .overflow (parseTag e hdr csfLen offset out tag) := by
  unfold parseTag parseCsfHdr parseInsKeyCmd parseUnlockCmd parseSetCmd parseCertSec parseSigSec parseMacSec
  split_ifs
  all_goals
    with_reducible repeat' first
      | exact validate_avoids
      | exact byte_avoids
      | exact hdrLen_avoids
      | exact slice_avoids
      | exact fromBe32_avoids
      | exact copyToHeap_avoids le_rfl
      | exact debugDump_avoids
      | exact debugDumpHdr_avoids
      | exact unlockUid_avoids
      | exact extractKey_avoids
      | exact writeFile_avoids slice_avoids
      | exact Avoids.pure
      | refine Avoids.bind ?_ fun _ => ?_
  exact .error (by decide)

/-! ## The authenticate data command -/

theorem copyToHeap_overflow_iff {block n : Nat} :
    copyToHeap block d n = .error .overflow ↔ block < n := by
  by_cases h : block < n
  · simp [copyToHeap, h]
  · simp [copyToHeap, h]

theorem autDatRegions_avoids {len : Nat} : Avoids .overflow (autDatRegions hdr len) := by
  unfold autDatRegions validateBlocks
  split
  · refine .bind byte_avoids fun _ => .bind ?_ fun _ => .pure
    split_ifs
    · exact validate_avoids
    · exact validate_avoids
    · exact validate_avoids
    · exact .pure
  · exact .pure

/-- What comes after the copy does not write out of bounds. -/
theorem parseAutDatCmd_overflow :
    parseAutDatCmd e hdr csfLen offset out = .error .overflow ↔
      ∃ len, hdrLen hdr = .ok len ∧ ∃ k, autDatRegions hdr len = .ok k ∧ 12 + k * 8 < len := by
  unfold parseAutDatCmd
  rw [bind_eq_error, or_iff_right hdrLen_avoids]
  refine exists_congr fun len => and_congr_right fun _ => ?_
  rw [bind_eq_error, or_iff_right autDatRegions_avoids]
  refine exists_congr fun k => and_congr_right fun _ => ?_
  rw [bind_eq_error, copyToHeap_overflow_iff]
  refine or_iff_left ?_
  rintro ⟨cmd, -, h⟩
  revert h
  change Avoids Stop.overflow _
  with_reducible repeat' first
    | exact validate_avoids
    | exact byte_avoids
    | exact hdrLen_avoids
    | exact fromBe32_avoids
    | exact debugDump_avoids
    | exact readRegions_avoids _ _
    | exact Avoids.pure
    | refine Avoids.bind ?_ fun _ => ?_

/-- A command that ends within a region, by the length in its header, with a number of whole regions that suits
its engine. -/
def EndsInRegion (hdr : List UInt8) : Prop :=
  hdr[0]? = some habCmdAutDat ∧ ∃ len engine, hdrLen hdr = .ok len ∧ hdr[6]? = some engine ∧ 12 < len ∧
    (len - 12) % 8 ≠ 0 ∧ validateBlocks engine ((len - 12) / 8) = .ok ()

theorem endsInRegion_iff :
    EndsInRegion hdr ↔ hdr[0]? = some habCmdAutDat ∧
      ∃ len, hdrLen hdr = .ok len ∧ ∃ k, autDatRegions hdr len = .ok k ∧ 12 + k * 8 < len := by
  have hmin : minAutDatCmdLen = 12 := rfl
  refine and_congr_right fun _ => exists_congr fun len => ?_
  constructor
  · rintro ⟨engine, hlen, hengine, hlong, hmod, hblocks⟩
    refine ⟨hlen, (len - 12) / 8, ?_, by omega⟩
    rw [autDatRegions, if_pos (by omega)]
    simp only [bind_eq_ok, byte_eq_ok, pure_eq_ok]
    exact ⟨engine, hengine, (), hblocks, trivial⟩
  · rintro ⟨hlen, k, hk, hlt⟩
    rw [autDatRegions, if_pos (by omega)] at hk
    simp only [bind_eq_ok, byte_eq_ok, pure_eq_ok] at hk
    obtain ⟨engine, hengine, _, hblocks, rfl⟩ := hk
    exact ⟨engine, hlen, hengine, by omega, by omega, hblocks⟩

theorem parseRecord_overflow_iff (e : Env) (offset : Nat) (out : Out) :
    parseRecord e offset out = .error .overflow ↔ EndsInRegion (e.csf.drop offset) := by
  have hrest (r : Nat × Out) : Avoids Stop.overflow (do validate (r.1 ≠ 0); pure r) :=
    .bind validate_avoids fun _ => .pure
  rw [parseRecord, bind_eq_error, or_iff_right byte_avoids, endsInRegion_iff,
    ← @parseAutDatCmd_overflow e _ e.csfLen offset out]
  constructor
  · rintro ⟨tag, htag, h⟩
    rw [bind_eq_error] at h
    rcases h with h | ⟨r, -, h⟩
    · by_cases hcmd : tag = habCmdAutDat
      · subst hcmd
        exact ⟨byte_eq_ok.mp htag, h⟩
      · exact absurd h (parseTag_avoids hcmd)
    · exact absurd h (hrest r)
  · rintro ⟨htag, h⟩
    exact ⟨habCmdAutDat, byte_eq_ok.mpr htag, bind_eq_error.mpr (.inl h)⟩

/-- The parser writes past a heap block exactly when it comes, over records that it accepts, to an authenticate
data command that ends within a region. -/
theorem heap_overflow_iff (e : Env) :
    parseCsf e = some (.error .overflow) ↔
      ∃ offset out, Reach e.csfLen (parseRecord e) 0 .empty offset out ∧ offset < e.csfLen ∧
        EndsInRegion (e.csf.drop offset) := by
  rw [parseCsf]
  split
  case isTrue hempty =>
    refine ⟨fun h => absurd h (by simp), ?_⟩
    rintro ⟨offset, out, -, hlt, -⟩
    omega
  case isFalse hne =>
    rw [walk_eq_error_iff (parseRecord_progress e) (Nat.pos_of_ne_zero hne) (by omega)]
    simp only [parseRecord_overflow_iff]

end Am437x.Csf
