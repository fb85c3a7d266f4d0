import Am437x.Csf.Extract
import Am437x.Csf.Proofs.RoundTripProofs

/-!
# The CSF that is found

The scan finds the first table of the image. The CSF that is written to a file is parsed like the CSF in the
image, as long as the parser of the file stays within it.
-/

namespace Am437x.Csf

open Records

variable {buf : List UInt8} {debugLog : Bool} {canOpen : List Char → Bool}

/-! ## The scan -/

def IsIvt (buf : List UInt8) (pos : Nat) : Prop :=
  ∃ header, le32 buf pos = .ok header ∧ header &&& ivtHdrMask = ivtHdrVal

/-- The first table at a multiple of four; it is in the image as a whole. -/
structure FirstIvt (buf : List UInt8) (pos : Nat) : Prop where
  aligned : pos % 4 = 0
  fits : pos + 32 ≤ buf.length
  isIvt : IsIvt buf pos
  first : ∀ q, q < pos → q % 4 = 0 → ¬IsIvt buf q

theorem FirstIvt.unique {p q : Nat} (hp : FirstIvt buf p) (hq : FirstIvt buf q) : p = q := by
  rcases Nat.lt_trichotomy p q with hlt | rfl | hlt
  · exact absurd hp.isIvt (hq.first p hlt hp.aligned)
  · rfl
  · exact absurd hq.isIvt (hp.first q hlt hq.aligned)

theorem exists_byte {k : Nat} (h : k < buf.length) : ∃ b, byte buf k = .ok b :=
  ⟨buf[k], byte_eq_ok.mpr (List.getElem?_eq_getElem h)⟩

theorem exists_le32 {k : Nat} (h : k + 4 ≤ buf.length) : ∃ x, le32 buf k = .ok x := by
  obtain ⟨b₀, h₀⟩ := @exists_byte buf k (by omega)
  obtain ⟨b₁, h₁⟩ := @exists_byte buf (k + 1) (by omega)
  obtain ⟨b₂, h₂⟩ := @exists_byte buf (k + 2) (by omega)
  obtain ⟨b₃, h₃⟩ := @exists_byte buf (k + 3) (by omega)
  simp only [le32, bind_eq_ok, pure_eq_ok]
  exact ⟨_, b₀, h₀, b₁, h₁, b₂, h₂, b₃, h₃, rfl⟩

/-- In an image of the size of a table the scan ends, at the first table or at the end of the image. -/
theorem findIvt_spec (fuel pos : Nat) (hfuel : buf.length < pos + fuel) (haligned : pos % 4 = 0)
    (hfits : pos + 32 ≤ buf.length) (hfirst : ∀ q, q < pos → q % 4 = 0 → ¬IsIvt buf q) :
    (∃ p, findIvt buf fuel pos = some (.ok p) ∧ FirstIvt buf p) ∨
      findIvt buf fuel pos = some (.error .fail) ∧ ∀ p, ¬FirstIvt buf p := by
  induction fuel generalizing pos with
  | zero => omega
  | succ fuel ih =>
    obtain ⟨header, hheader⟩ := @exists_le32 buf pos (by omega)
    have hsize : ivtSize = 32 := rfl
    rw [findIvt, hheader]
    dsimp only
    by_cases hivt : header &&& ivtHdrMask = ivtHdrVal
    · rw [if_pos hivt]
      exact .inl ⟨pos, rfl, haligned, hfits, ⟨header, hheader, hivt⟩, hfirst⟩
    · have hnot : ¬IsIvt buf pos := by
        rintro ⟨header', hheader', hivt'⟩
        obtain rfl := Except.ok.inj (hheader.symm.trans hheader')
        exact hivt hivt'
      -- positions below the next one that are aligned are at most this one
      have hfirst' : ∀ q, q < pos + 4 → q % 4 = 0 → ¬IsIvt buf q := by
        intro q hq hmod
        rcases Nat.lt_trichotomy q pos with hlt | rfl | hgt
        · exact hfirst q hlt hmod
        · exact hnot
        · omega
      rw [if_neg hivt]
      split
      case isTrue hend =>
        refine .inr ⟨rfl, fun p hp => ?_⟩
        have hfits := hp.fits
        exact hfirst' p (by omega) hp.aligned hp.isIvt
      case isFalse hmore => exact ih (pos + 4) (by omega) (by omega) (by omega) hfirst'

theorem extractCsf_eq (h32 : 32 ≤ buf.length) (r : Except Stop (Nat × List UInt8)) :
    extractCsf debugLog canOpen buf = some r ↔
      (∃ pos, FirstIvt buf pos ∧ csfOfIvt debugLog canOpen buf pos = r) ∨
        r = .error .fail ∧ ∀ pos, ¬FirstIvt buf pos := by
  unfold extractCsf
  rcases @findIvt_spec buf (buf.length + 1) 0 (by omega) rfl (by omega) (fun q hq => by omega) with
    ⟨pos, hfind, hivt⟩ | ⟨hfind, hnone⟩
  · rw [hfind]
    constructor
    · intro h
      exact .inl ⟨pos, hivt, Option.some.inj h⟩
    · rintro (⟨pos', hivt', rfl⟩ | ⟨-, hnone⟩)
      · rw [hivt.unique hivt']
      · exact absurd hivt (hnone pos)
  · rw [hfind]
    constructor
    · intro h
      exact .inr ⟨(Option.some.inj h).symm, hnone⟩
    · rintro (⟨pos, hivt, -⟩ | ⟨rfl, -⟩)
      · exact absurd hivt (hnone pos)
      · rfl

/-! ## The CSF of a table -/

/-- The words of a table that say where its CSF is. -/
structure CsfWords (buf : List UInt8) (pos own csf : Nat) : Prop where
  own_word : le32 buf (pos + 20) = .ok own
  csf_word : le32 buf (pos + 24) = .ok csf

theorem exists_csfWords {pos : Nat} (h : pos + 32 ≤ buf.length) : ∃ own csf, CsfWords buf pos own csf := by
  obtain ⟨own, hown⟩ := @exists_le32 buf (pos + 20) (by omega)
  obtain ⟨csf, hcsf⟩ := @exists_le32 buf (pos + 24) (by omega)
  exact ⟨own, csf, hown, hcsf⟩

theorem slice_debug {pos : Nat} (h : pos + 32 ≤ buf.length) :
    ∃ bs, slice buf pos (if debugLog then ivtSize else 0) = .ok bs := by
  refine ⟨_, slice_eq_ok.mpr ⟨?_, rfl⟩⟩
  split
  · exact h
  · omega

theorem csfOfIvt_eq {pos own csf : Nat} (hfits : pos + 32 ≤ buf.length) (hwords : CsfWords buf pos own csf) :
    csfOfIvt debugLog canOpen buf pos = csfAt canOpen buf csf (csfOffset pos own csf) := by
  obtain ⟨bs, hbs⟩ := @slice_debug buf debugLog pos hfits
  rw [csfOfIvt, hbs, hwords.own_word, hwords.csf_word]
  rfl

theorem csfAt_eq_ok {csf p q : Nat} {file : List UInt8} (h4 : 4 ≤ buf.length) :
    csfAt canOpen buf csf p = .ok (q, file) ↔
      (csf = 0 ∨ p + 4 ≤ buf.length) ∧ buf[p]? = some habTagCsf ∧
        (∃ len, hdrLen (buf.drop p) = .ok len ∧ p + len < buf.length) ∧ canOpen csfBinName = true ∧ q = p ∧
        file = buf.drop p := by
  have hbound : ¬(csf ≠ 0 ∧ buf.length - habHdrSize < p) ↔ csf = 0 ∨ p + 4 ≤ buf.length := by
    simp only [habHdrSize]
    omega
  simp only [csfAt, bind_eq_ok, validate_eq_ok, byte_eq_ok, hbound]
  constructor
  · rintro ⟨-, hin, tag, htag, -, rfl, len, hlen, -, hlt, h⟩
    split at h
    case isTrue hopen =>
      obtain ⟨rfl, rfl⟩ : p = q ∧ buf.drop p = file := by simpa using h
      exact ⟨hin, htag, ⟨len, hlen, hlt⟩, hopen, rfl, rfl⟩
    case isFalse => cases h
  · rintro ⟨hin, htag, ⟨len, hlen, hlt⟩, hopen, rfl, rfl⟩
    rw [if_pos hopen]
    exact ⟨(), hin, _, htag, (), rfl, len, hlen, (), hlt, rfl⟩

/-- Only the CSF of a table without an address of a CSF is looked for out of the image. -/
theorem csfAt_eq_overread {csf p : Nat} (h4 : 4 ≤ buf.length) :
    csfAt canOpen buf csf p = .error .overread ↔
      csf = 0 ∧ (buf.length ≤ p ∨ buf[p]? = some habTagCsf ∧ buf.length < p + 3) := by
  have hopen : (if canOpen csfBinName then pure (p, buf.drop p) else .error .noFile :
      Except Stop (Nat × List UInt8)) ≠ .error .overread := by
    split
    · exact pure_ne_error
    · simp
  have hbound : ¬(csf ≠ 0 ∧ buf.length - habHdrSize < p) ↔ csf = 0 ∨ p + 4 ≤ buf.length := by
    simp only [habHdrSize]
    omega
  simp only [csfAt, bind_eq_error, validate_eq_error, validate_eq_ok, byte_eq_error, byte_eq_ok, hdrLen_eq_error,
    hbound, hopen, List.length_drop, reduceCtorEq, and_false, and_true, false_or, or_false, exists_const]
  constructor
  · rintro ⟨hin, hle | ⟨tag, htag, rfl, hshort⟩⟩
    · exact ⟨by omega, .inl hle⟩
    · have hlt := (List.getElem?_eq_some_iff.mp htag).1
      exact ⟨by omega, .inr ⟨htag, by omega⟩⟩
  · rintro ⟨hzero, hle | ⟨htag, hshort⟩⟩
    · exact ⟨.inl hzero, .inl hle⟩
    · exact ⟨.inl hzero, .inr ⟨_, htag, rfl, by omega⟩⟩

/-- In an image of the size of a table or more the CSF is found at the distance of the two addresses of the first
table, when its header is there and more than the length in it is left of the image. The image is read out of its
bounds only when this table has no address of a CSF. -/
theorem csf_found_iff (debugLog : Bool) (canOpen : List Char → Bool) (h32 : 32 ≤ buf.length) :
    (∀ q file, extractCsf debugLog canOpen buf = some (.ok (q, file)) ↔
      ∃ pos own csf, FirstIvt buf pos ∧ CsfWords buf pos own csf ∧ q = csfOffset pos own csf ∧
        (csf = 0 ∨ q + 4 ≤ buf.length) ∧ buf[q]? = some habTagCsf ∧
        (∃ len, hdrLen (buf.drop q) = .ok len ∧ q + len < buf.length) ∧ canOpen csfBinName = true ∧
        file = buf.drop q) ∧
    (extractCsf debugLog canOpen buf = some (.error .overread) ↔
      ∃ pos own, FirstIvt buf pos ∧ CsfWords buf pos own 0 ∧
        (buf.length ≤ csfOffset pos own 0 ∨
          buf[csfOffset pos own 0]? = some habTagCsf ∧ buf.length < csfOffset pos own 0 + 3)) := by
  constructor
  · intro q file
    rw [extractCsf_eq h32]
    constructor
    · rintro (⟨pos, hivt, h⟩ | ⟨h, -⟩)
      · obtain ⟨own, csf, hwords⟩ := exists_csfWords hivt.fits
        rw [csfOfIvt_eq hivt.fits hwords, csfAt_eq_ok (by omega)] at h
        obtain ⟨hin, htag, hlen, hopen, rfl, hfile⟩ := h
        exact ⟨pos, own, csf, hivt, hwords, rfl, hin, htag, hlen, hopen, hfile⟩
      · cases h
    · rintro ⟨pos, own, csf, hivt, hwords, rfl, hin, htag, hlen, hopen, hfile⟩
      refine .inl ⟨pos, hivt, ?_⟩
      rw [csfOfIvt_eq hivt.fits hwords, csfAt_eq_ok (by omega)]
      exact ⟨hin, htag, hlen, hopen, rfl, hfile⟩
  · rw [extractCsf_eq h32]
    constructor
    · rintro (⟨pos, hivt, h⟩ | ⟨h, -⟩)
      · obtain ⟨own, csf, hwords⟩ := exists_csfWords hivt.fits
        rw [csfOfIvt_eq hivt.fits hwords, csfAt_eq_overread (by omega)] at h
        obtain ⟨rfl, h⟩ := h
        exact ⟨pos, own, hivt, hwords, h⟩
      · cases h
    · rintro ⟨pos, own, hivt, hwords, h⟩
      refine .inl ⟨pos, hivt, ?_⟩
      rw [csfOfIvt_eq hivt.fits hwords, csfAt_eq_overread (by omega)]
      exact ⟨rfl, h⟩

/-- A table at the start of an image, with the small CSF behind it. -/
def smallImage : List UInt8 :=
  [0xd1, 0, 0x20, 0x40] ++ List.replicate 20 0 ++ [32, 0, 0, 0, 0, 0, 0, 0] ++ encodeAll small

theorem csf_found_iff_small :
    extractCsf false (fun _ => true) smallImage = some (.ok (32, encodeAll small)) := by
  have hivt : FirstIvt smallImage 0 := by
    refine ⟨rfl, by decide, ⟨0x402000d1, by decide, by decide⟩, fun q hq => ?_⟩
    omega
  have hwords : CsfWords smallImage 0 0 32 := ⟨by decide, by decide⟩
  exact ((csf_found_iff false (fun _ => true) (by decide)).1 32 (encodeAll small)).mpr
    ⟨0, 0, 32, hivt, hwords, by decide, by decide, by decide, ⟨16, by decide, by decide⟩, rfl, by decide⟩

/-! ## The CSF in the image and in its file -/

/-- The parser reads the same CSF, possibly with the debug log, and finds the same sections or is out of the image. -/
structure SameCsf (e e' : Env) : Prop where
  csf : e'.csf = e.csf
  canOpen : e'.canOpen = e.canOpen
  debugLog : e.debugLog = true → e'.debugLog = true
  key : ∀ offset keyLoc, UpTo Stop.overread (e.keySection offset keyLoc) (e'.keySection offset keyLoc)

variable {e e' : Env} {hdr src : List UInt8} {csfLen offset : Nat} {out : Out}

theorem upTo_of_unit {α : Type} {x : Except Stop α} {s : Stop} (h : ∀ s', x = .error s' → s' = s) :
    UpTo s (.ok ()) (do let _ ← x; pure ()) := by
  cases x with
  | error s' =>
    obtain rfl := h s' rfl
    exact .inl rfl
  | ok a => exact .inr rfl

/-- The log of a record can only read too much. -/
theorem debugDump_upTo (h : SameCsf e e') : UpTo .overread (debugDump e hdr src) (debugDump e' hdr src) := by
  unfold debugDump
  by_cases hlog : e.debugLog
  · rw [if_pos hlog, if_pos (h.debugLog hlog)]
    exact .refl _ _
  · rw [if_neg hlog]
    split
    · cases hlen : hdrLen hdr with
      | error s =>
        obtain ⟨-, rfl⟩ := hdrLen_eq_error.mp hlen
        exact .inl rfl
      | ok n => exact upTo_of_unit fun s hs => (slice_eq_error.mp hs).2
    · exact .refl _ _

theorem debugDumpHdr_upTo (h : SameCsf e e') : UpTo .overread (debugDumpHdr e hdr) (debugDumpHdr e' hdr) := by
  unfold debugDumpHdr
  by_cases hlog : e.debugLog
  · rw [if_pos hlog, if_pos (h.debugLog hlog)]
    exact .refl _ _
  · rw [if_neg hlog]
    split
    · exact upTo_of_unit fun s hs => (slice_eq_error.mp hs).2
    · exact .refl _ _

theorem writeFile_upTo (h : SameCsf e e') {name : List Char} {data data' : Except Stop (List UInt8)}
    (hdata : UpTo .overread data data') : UpTo .overread (writeFile e name data out) (writeFile e' name data' out) := by
  unfold writeFile
  rw [h.canOpen]
  split
  · exact hdata.bind fun _ => .refl _ _
  · exact .refl _ _

theorem extractKey_upTo (h : SameCsf e e') {certFmt : UInt8} {keyLoc : Nat} :
    UpTo .overread (extractKey e certFmt offset keyLoc out) (extractKey e' certFmt offset keyLoc out) := by
  unfold extractKey
  split_ifs
  · exact writeFile_upTo h ((h.key _ _).bind fun _ => .refl _ _)
  · exact (writeFile_upTo h ((h.key _ _).bind fun _ => .refl _ _)).bind fun _ => .refl _ _
  · exact .refl _ _

theorem parseTag_upTo (h : SameCsf e e') (tag : UInt8) :
    UpTo .overread (parseTag e hdr csfLen offset out tag) (parseTag e' hdr csfLen offset out tag) := by
  unfold parseTag parseCsfHdr parseInsKeyCmd parseAutDatCmd parseUnlockCmd parseSetCmd parseCertSec parseSigSec
    parseMacSec
  with_reducible repeat' first
    | exact UpTo.refl _ _
    | exact debugDump_upTo h
    | exact debugDumpHdr_upTo h
    | exact extractKey_upTo h
    | exact writeFile_upTo h (UpTo.refl _ _)
    | refine UpTo.ite ?_ ?_
    | refine UpTo.bind ?_ fun _ => ?_

theorem parseCsf_upTo (h : SameCsf e e') :
    parseCsf e' = some (.error .overread) ∨ parseCsf e = parseCsf e' := by
  have hlen : e'.csfLen = e.csfLen := congrArg List.length h.csf
  unfold parseCsf
  rw [hlen]
  split
  · exact .inr rfl
  · refine walk_upTo (fun o s => ?_) _ _ _
    unfold parseRecord
    rw [h.csf, hlen]
    exact .bind (.refl _ _) fun tag => .bind (parseTag_upTo h tag) fun _ => .refl _ _

theorem sameCsf_file (buf : List UInt8) (csfPos : Nat) (debugLog : Bool) (canOpen : List Char → Bool) :
    SameCsf ⟨buf, csfPos, false, canOpen⟩ ⟨buf.drop csfPos, 0, debugLog, canOpen⟩ where
  csf := List.drop_zero
  canOpen := rfl
  debugLog h := absurd h Bool.false_ne_true
  key offset keyLoc := by
    generalize hrel : (offset : Int) + ((keyLoc : Int) - offset).bmod (2 ^ 32) = rel
    simp only [Env.keySection, add_assoc, hrel]
    by_cases hneg : 0 ≤ rel
    · refine .inr ?_
      rw [if_pos (by omega), if_pos (by simpa using hneg), List.drop_drop]
      congr 3
      omega
    · exact .inl (if_neg (by simpa using hneg))

/-- The file of the CSF is parsed with the same result as the CSF in the image, with the debug log or without it,
unless the parser of the file reads out of bounds. -/
theorem extracted_csf_parsed (debugLog : Bool) {q : Nat} {file : List UInt8}
    (h : extractCsf false canOpen buf = some (.ok (q, file))) :
    parseBinary debugLog canOpen file = some (.error .overread) ∨
      parseImage false canOpen buf = parseBinary debugLog canOpen file := by
  have hfile : file = buf.drop q := by
    unfold extractCsf at h
    split at h
    · cases h
    · exact absurd h (by simp)
    · have h := Option.some.inj h
      simp only [csfOfIvt, csfAt, bind_eq_ok] at h
      obtain ⟨-, -, csf, -, own, -, -, -, tag, -, -, -, len, -, -, -, h⟩ := h
      split at h
      · obtain ⟨rfl, rfl⟩ : _ ∧ _ := by simpa using h
        rfl
      · cases h
  rw [parseImage, h, hfile]
  exact parseCsf_upTo (sameCsf_file buf q debugLog canOpen)

theorem extracted_csf_parsed_small :
    parseBinary true (fun _ => true) (encodeAll small) = some (.error .overread) ∨
      parseImage false (fun _ => true) smallImage = parseBinary true (fun _ => true) (encodeAll small) := by
  have hfound : extractCsf false (fun _ => true) smallImage = some (.ok (32, encodeAll small)) := by decide
  exact extracted_csf_parsed true hfound

end Am437x.Csf
