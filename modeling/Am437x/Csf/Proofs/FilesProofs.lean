import Am437x.Csf.Proofs.ParserProofs

/-!
# The names of the extracted files

The numbers of the files are in names that are cut off. Two certificates or two signatures have the same name
when their numbers have more than five digits.
-/

namespace Am437x.Csf

open Records

/-! ## Names that are cut off -/

/-- A number with its suffix, cut off after five characters. -/
def cutNumber (n : Nat) (suffix : List Char) : List Char := (Nat.toDigits 10 n ++ '.' :: suffix).take 5

theorem sigName_eq (n : Nat) : sigName n = outputDir ++ ['s', 'i', 'g'] ++ cutNumber n ['b', 'i', 'n'] := by
  rw [sigName, cutNumber, List.append_assoc, List.take_append]
  rfl

theorem certName_eq (n : Nat) : certName n = outputDir ++ ['c', 'e', 'r', 't'] ++ cutNumber n ['d', 'e', 'r'] := by
  rw [certName, cutNumber, List.append_assoc, List.take_append]
  rfl

/-- Up to five digits are all in the name, in front of the dot. -/
theorem digits_of_cutNumber {n : Nat} (h : n < 100000) (suffix : List Char) :
    (cutNumber n suffix).takeWhile Char.isDigit = Nat.toDigits 10 n := by
  have hlen : (Nat.toDigits 10 n).length ≤ 5 := (Nat.length_toDigits_le_iff (by decide) (by decide)).mpr (by omega)
  have hdigits : ∀ c ∈ Nat.toDigits 10 n, c.isDigit = true := fun c hc =>
    Nat.isDigit_of_mem_toDigits (by decide) (by decide) hc
  rw [cutNumber, List.take_append, List.take_of_length_le hlen, List.takeWhile_append_of_pos hdigits]
  cases 5 - (Nat.toDigits 10 n).length with
  | zero => simp
  | succ k => simp

theorem cutNumber_inj {n m : Nat} {suffix : List Char} (hn : n < 100000) (hm : m < 100000)
    (h : cutNumber n suffix = cutNumber m suffix) : n = m := by
  have hdigits : Nat.toDigits 10 n = Nat.toDigits 10 m := by
    rw [← digits_of_cutNumber hn suffix, h, digits_of_cutNumber hm suffix]
  rw [← Nat.ofDigitChars_ten_toDigits (n := n), hdigits, Nat.ofDigitChars_ten_toDigits]

theorem nodup_cutNumber_iff (k : Nat) (suffix : List Char) :
    ((List.range k).map fun n => cutNumber n suffix).Nodup ↔ k ≤ 100000 := by
  constructor
  · intro h
    by_contra hk
    have hsame : cutNumber 10000 suffix = cutNumber 100000 suffix := by
      have hlong : Nat.toDigits 10 100000 = Nat.toDigits 10 10000 ++ ['0'] := Nat.toDigits_of_base_le (by decide) (by decide)
      have hshort : Nat.toDigits 10 10000 = ['1', '0', '0', '0', '0'] := by
        simp only [Nat.toDigits_of_base_le, Nat.reduceLT, Nat.reduceLeDiff, Nat.reduceDiv, Nat.reduceMod]
        rfl
      rw [cutNumber, cutNumber, hlong, hshort]
      rfl
    have heq := List.inj_on_of_nodup_map h (List.mem_range.mpr (by omega)) (List.mem_range.mpr (by omega)) hsame
    exact absurd heq (by decide)
  · intro hk
    refine List.Nodup.map_on (fun n hn m hm h => ?_) List.nodup_range
    rw [List.mem_range] at hn hm
    exact cutNumber_inj (by omega) (by omega) h

/-! ## The files of a run -/

/-- The file that a record is extracted to, if any. -/
inductive FileStep (out out' : Out) : Prop
  | none : out'.files = out.files → out'.certCount = out.certCount → out'.sigCount = out.sigCount →
      FileStep out out'
  | srkTable (bytes : List UInt8) : out'.files = out.files ++ [(srkTableName, bytes)] →
      out'.certCount = out.certCount → out'.sigCount = out.sigCount → FileStep out out'
  | cert (bytes : List UInt8) : out'.files = out.files ++ [(certName out.certCount, bytes)] →
      out'.certCount = out.certCount + 1 → out'.sigCount = out.sigCount → FileStep out out'
  | sig (bytes : List UInt8) : out'.files = out.files ++ [(sigName out.sigCount, bytes)] →
      out'.certCount = out.certCount → out'.sigCount = out.sigCount + 1 → FileStep out out'

theorem extractKey_fileStep (e : Env) (certFmt : UInt8) (offset keyLoc : Nat) (out : Out) (i : Item) :
    Ensures (extractKey e certFmt offset keyLoc (out.report i)) (FileStep out) := by
  unfold extractKey
  split_ifs
  · intro out' h
    obtain ⟨-, bytes, -, rfl⟩ := writeFile_eq_ok.mp h
    exact .srkTable bytes rfl rfl rfl
  · refine .bind fun out₁ h => .pure ?_
    obtain ⟨-, bytes, -, rfl⟩ := writeFile_eq_ok.mp h
    exact .cert bytes rfl rfl rfl
  · exact .pure (.none rfl rfl rfl)

theorem parseTag_fileStep (e : Env) (hdr : List UInt8) (csfLen offset : Nat) (out : Out) (tag : UInt8) :
    Ensures (parseTag e hdr csfLen offset out tag) fun r => FileStep out r.2 := by
  unfold parseTag
  split_ifs
  · unfold parseCsfHdr
    repeat refine .bind fun _ _ => ?_
    exact .pure (.none rfl rfl rfl)
  · unfold parseInsKeyCmd
    iterate 16 refine .bind fun _ _ => ?_
    exact .bind fun out' hout' => .pure (extractKey_fileStep _ _ _ _ _ _ out' hout')
  · unfold parseAutDatCmd
    repeat refine .bind fun _ _ => ?_
    exact .pure (.none rfl rfl rfl)
  · unfold parseUnlockCmd
    repeat refine .bind fun _ _ => ?_
    exact .pure (.none rfl rfl rfl)
  · unfold parseSetCmd
    repeat refine .bind fun _ _ => ?_
    exact .pure (.none rfl rfl rfl)
  · unfold parseCertSec
    repeat refine .bind fun _ _ => ?_
    exact .pure (.none rfl rfl rfl)
  · unfold parseSigSec
    iterate 10 refine .bind fun _ _ => ?_
    refine .bind fun out' hout' => .pure ?_
    obtain ⟨-, bytes, -, rfl⟩ := writeFile_eq_ok.mp hout'
    exact .sig bytes rfl rfl rfl
  · unfold parseMacSec
    repeat refine .bind fun _ _ => ?_
    exact .pure (.none rfl rfl rfl)
  · exact .error

/-- The names of the certificates and signatures, in the order of their files. -/
def numbered (out : Out) : List (List Char) := (out.files.map Prod.fst).filter (· ≠ srkTableName)

/-- Each number up to the next one is in one name. -/
def FilesInv (out : Out) : Prop :=
  (numbered out).Perm ((List.range out.sigCount).map sigName ++ (List.range out.certCount).map certName)

theorem sigName_ne (n : Nat) : sigName n ≠ srkTableName := by
  intro h
  have := congrArg (·[7]?) h
  rw [sigName_eq] at this
  simp [outputDir, srkTableName] at this

theorem certName_ne (n : Nat) : certName n ≠ srkTableName := by
  intro h
  have := congrArg (·[7]?) h
  rw [certName_eq] at this
  simp [outputDir, srkTableName] at this

theorem sigName_ne_certName (n m : Nat) : sigName n ≠ certName m := by
  intro h
  have := congrArg (·[7]?) h
  rw [sigName_eq, certName_eq] at this
  simp [outputDir] at this

theorem filesInv_step {out out' : Out} (h : FilesInv out) (hstep : FileStep out out') : FilesInv out' := by
  unfold FilesInv numbered at *
  cases hstep with
  | none hfiles hcerts hsigs =>
    rw [hfiles, hcerts, hsigs]
    exact h
  | srkTable bytes hfiles hcerts hsigs =>
    rw [hfiles, hcerts, hsigs]
    simpa using h
  | cert bytes hfiles hcerts hsigs =>
    rw [hfiles, hcerts, hsigs, List.range_succ, List.map_append, List.map_append, List.filter_append,
      ← List.append_assoc]
    simpa [certName_ne] using h.append_right [certName out.certCount]
  | sig bytes hfiles hcerts hsigs =>
    have hperm := (h.append_right [sigName out.sigCount]).trans (by
      rw [List.append_assoc]
      exact List.perm_append_comm.append_left _ :
        ((List.range out.sigCount).map sigName ++ (List.range out.certCount).map certName ++ [sigName out.sigCount]).Perm
          ((List.range out.sigCount).map sigName ++ ([sigName out.sigCount] ++ (List.range out.certCount).map certName)))
    rw [hfiles, hcerts, hsigs, List.range_succ, List.map_append, List.map_append, List.filter_append, List.append_assoc]
    simpa [sigName_ne] using hperm

theorem nodup_names_iff {name : Nat → List Char} {pre suffix : List Char}
    (hname : ∀ n, name n = pre ++ cutNumber n suffix) (k : Nat) :
    ((List.range k).map name).Nodup ↔ k ≤ 100000 := by
  have hmap : (List.range k).map name = ((List.range k).map fun n => cutNumber n suffix).map (pre ++ ·) := by
    rw [List.map_map]
    exact List.map_congr_left fun n _ => hname n
  rw [hmap, List.nodup_map_iff (List.append_right_injective pre), nodup_cutNumber_iff]

/-- When a CSF is accepted, no certificate or signature has overwritten another one exactly when there are at most
a hundred thousand of each. -/
theorem extracted_files_kept (e : Env) (out : Out) (h : parseCsf e = some (.ok out)) :
    (numbered out).Nodup ↔ out.certCount ≤ 100000 ∧ out.sigCount ≤ 100000 := by
  have hinv : FilesInv out := by
    unfold parseCsf at h
    split at h
    case isTrue => exact absurd h (by simp)
    case isFalse hne =>
      obtain ⟨o', hreach, -⟩ := reach_of_walk_ok (Nat.pos_of_ne_zero hne) h
      refine @Reach.inv _ _ _ _ (fun _ out => FilesInv out) _ _ _ _ hreach (fun o s n t _ hs hok => ?_) ?_
      · simp only [parseRecord, bind_eq_ok, validate_eq_ok, pure_eq_ok] at hok
        obtain ⟨tag, -, r, hparse, -, -, rfl⟩ := hok
        exact filesInv_step hs (parseTag_fileStep _ _ _ _ _ _ _ hparse)
      · simp [FilesInv, numbered, Out.empty]
  have hdisjoint : List.Disjoint ((List.range out.sigCount).map sigName) ((List.range out.certCount).map certName) := by
    intro name hsig hcert
    obtain ⟨n, -, rfl⟩ := List.mem_map.mp hsig
    obtain ⟨m, -, hm⟩ := List.mem_map.mp hcert
    exact sigName_ne_certName n m hm.symm
  rw [hinv.nodup_iff, List.nodup_append', nodup_names_iff sigName_eq, nodup_names_iff certName_eq]
  exact ⟨fun h => ⟨h.2.1, h.1⟩, fun h => ⟨h.2, h.1, hdisjoint⟩⟩

theorem extracted_files_kept_one :
    (numbered ⟨[.sig 6 0x40 4], [(sigName 0, [1, 2])], 0, 1⟩).Nodup := by
  have hparse : parseCsf ⟨[habTagSig, 0, 6, 0x40, 1, 2], 0, false, fun _ => true⟩ =
      some (.ok ⟨[.sig 6 0x40 4], [(sigName 0, [1, 2])], 0, 1⟩) := by decide
  exact (extracted_files_kept _ _ hparse).mpr (by decide)

end Am437x.Csf
