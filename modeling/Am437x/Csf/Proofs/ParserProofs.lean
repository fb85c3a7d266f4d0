import Am437x.Csf.Proofs.RecordProofs

/-!
# The CSF that is parsed

The loop of `parse_csf` accepts the CSFs that are laid out as records, and does with each record what is to be
done with it.
-/

namespace Am437x.Csf

open Records

variable {e : Env}

/-! ## A turn of the loop -/

theorem csfLen_eq {offset : Nat} (h : offset < e.csfLen) : e.csfLen = offset + (e.csf.drop offset).length := by
  rw [Env.csfLen] at h ⊢
  rw [List.length_drop]
  omega

theorem parseRecord_progress (e : Env) : Progress (parseRecord e) := by
  intro offset out n out' h
  simp only [parseRecord, bind_eq_ok, validate_eq_ok, pure_eq_ok] at h
  obtain ⟨tag, -, r, -, -, hne, rfl⟩ := h
  exact Nat.pos_of_ne_zero hne

theorem parseRecord_items (e : Env) (offset : Nat) (out : Out) :
    Ensures (parseRecord e offset out) fun r => ∃ i, r.2.items = out.items ++ [i] := by
  unfold parseRecord
  refine .bind fun tag _ => .bind fun r hr => .bind fun _ _ => .pure ?_
  exact parseTag_items _ _ _ _ _ _ r hr

theorem Rec.size_pos (r : Rec) : 0 < r.size := by
  cases r <;> simp [Rec.size, Rec.len]
  · exact lt_of_lt_of_le (by omega) (le_padded _).1
  · exact lt_of_lt_of_le (by omega) (le_padded _).1

/-- A turn reads the record that is at its offset. -/
theorem parseRecord_of_record {offset : Nat} {out out' : Out} {r : Record} (hlt : offset < e.csfLen)
    (hencode : r.fields.encode <+: e.csf.drop offset) (hfit : offset + r.fields.len ≤ e.csfLen)
    (heffect : r.fields.effect e offset out = .ok out') :
    parseRecord e offset out = .ok (r.fields.size, out') := by
  have hlen := csfLen_eq hlt
  have hparse := parseTag_of_record hencode (by omega) heffect
  rw [← hlen] at hparse
  simp only [parseRecord, bind_eq_ok, byte_eq_ok, validate_eq_ok, pure_eq_ok]
  exact ⟨_, tag_of_encode hencode, _, hparse, (), r.fields.size_pos.ne', rfl⟩

/-- A turn that succeeds has read a record, when its length covers its fields. -/
theorem record_of_parseRecord {offset n : Nat} {out out' : Out} (hlt : offset < e.csfLen)
    (h : parseRecord e offset out = .ok (n, out')) (hcov : ∀ i ∈ out'.items, i.Covers) :
    ∃ r : Record, r.fields.encode <+: e.csf.drop offset ∧ offset + r.fields.len ≤ e.csfLen ∧
      r.fields.effect e offset out = .ok out' ∧ n = r.fields.size := by
  have hlen := csfLen_eq hlt
  simp only [parseRecord, bind_eq_ok, validate_eq_ok, pure_eq_ok] at h
  obtain ⟨tag, -, r, hparse, -, -, rfl⟩ := h
  rw [hlen] at hparse
  obtain ⟨r, hencode, hfit, heffect, hsize⟩ := readsRecord_of_parseTag hparse hcov
  exact ⟨r, hencode, by omega, heffect, hsize⟩

/-! ## What is extracted -/

/-- A key section is what the image has from the place of the key on. -/
theorem keySection_eq_ok {offset keyLoc : Nat} {d : List UInt8} :
    e.keySection offset keyLoc = .ok d ↔ ∃ place, e.KeyPlace offset keyLoc place ∧ e.img.drop place = d := by
  have hplace (place : Nat) : e.KeyPlace offset keyLoc place ↔
      (place : Int) = e.csfPos + offset + ((keyLoc : Int) - offset).bmod (2 ^ 32) := by
    have hbmod : ∀ x : Int, x.bmod (2 ^ 32) =
        if x % 4294967296 < 2147483648 then x % 4294967296 else x % 4294967296 - 4294967296 := fun _ => rfl
    rw [hbmod]
    constructor
    · rintro ⟨hmod, hle, hlt⟩
      norm_num [Int.ModEq] at hmod hle hlt
      split <;> omega
    · intro h
      refine ⟨?_, ?_, ?_⟩ <;> norm_num [Int.ModEq] <;> split at h <;> omega
  simp only [Env.keySection, hplace]
  constructor
  · intro h
    split at h
    case isTrue hpos => exact ⟨_, Int.toNat_of_nonneg hpos, Except.ok.inj h⟩
    case isFalse => cases h
  · rintro ⟨place, hpos, rfl⟩
    rw [← hpos, if_pos (Int.natCast_nonneg _), Int.toNat_natCast]

/-- The length in the header of a section that is in the image. -/
theorem hasSection_iff {place len : Nat} :
    e.HasSection place len ↔
      hdrLen (e.img.drop place) = .ok len ∧ len ≤ (e.img.drop place).length := by
  rw [hdrLen_eq_ok, List.drop_drop, List.length_drop]
  constructor
  · rintro ⟨hlt, hheader, hinside⟩
    exact ⟨⟨hlt, hheader⟩, by omega⟩
  · rintro ⟨⟨hlt, hheader⟩, hle⟩
    have hlength := hheader.length_le
    rw [be16_length, List.length_drop] at hlength
    exact ⟨hlt, hheader, by omega⟩

theorem srkTableData_eq_ok {offset keyLoc : Nat} {bytes : List UInt8} :
    srkTableData e offset keyLoc = .ok bytes ↔
      ∃ place len, e.KeyPlace offset keyLoc place ∧ e.HasSection place len ∧
        bytes = (e.img.drop place).take len := by
  simp only [srkTableData, bind_eq_ok, keySection_eq_ok, hasSection_iff, slice_eq_ok, Nat.zero_add, List.drop_zero]
  constructor
  · rintro ⟨d, ⟨place, hplace, rfl⟩, len, hlen, hle, rfl⟩
    exact ⟨place, len, hplace, ⟨hlen, hle⟩, rfl⟩
  · rintro ⟨place, len, hplace, ⟨hlen, hle⟩, rfl⟩
    exact ⟨_, ⟨place, hplace, rfl⟩, len, hlen, hle, rfl⟩

theorem certData_eq_ok {offset keyLoc : Nat} {bytes : List UInt8} :
    certData e offset keyLoc = .ok bytes ↔
      ∃ place len, e.KeyPlace offset keyLoc place ∧ e.HasSection place len ∧ habHdrSize ≤ len ∧
        bytes = (e.img.drop (place + habHdrSize)).take (len - habHdrSize) := by
  simp only [certData, bind_eq_ok, keySection_eq_ok, hasSection_iff]
  constructor
  · rintro ⟨d, ⟨place, hplace, rfl⟩, len, hlen, h⟩
    split at h
    case isTrue => cases h
    case isFalse hge =>
      obtain ⟨hle, rfl⟩ := slice_eq_ok.mp h
      rw [List.drop_drop]
      exact ⟨place, len, hplace, ⟨hlen, by omega⟩, not_lt.mp hge, rfl⟩
  · rintro ⟨place, len, hplace, ⟨hlen, hle⟩, hge, rfl⟩
    refine ⟨_, ⟨place, hplace, rfl⟩, len, hlen, ?_⟩
    rw [if_neg (not_lt.mpr hge), slice_eq_ok, List.drop_drop]
    exact ⟨by omega, rfl⟩

/-- A result with one more record that is extracted to these files. -/
def Out.add (out : Out) (offset : Nat) (r : Rec) (files : List (List Char × List UInt8)) : Out where
  items := out.items ++ [r.item offset]
  files := out.files ++ files
  certCount := out.certCount + r.certs
  sigCount := out.sigCount + r.sigs

theorem Out.add_of_nil {out : Out} {offset : Nat} {r : Rec} (hcerts : r.certs = 0) (hsigs : r.sigs = 0) :
    out.add offset r [] = out.report (r.item offset) := by
  unfold Out.add
  rw [hcerts, hsigs, List.append_nil]
  rfl

/-- The parsers report a record and extract it to its files. -/
theorem effect_eq_ok {offset : Nat} {out out' : Out} {r : Rec} (hvalid : r.FieldsValid) :
    r.effect e offset out = .ok out' ↔
      ∃ files, r.Extracts e offset out.certCount out.sigCount files ∧ out' = out.add offset r files := by
  have hplain (hextracts : r.Extracts e offset out.certCount out.sigCount []) (hcerts : r.certs = 0) (hsigs : r.sigs = 0)
      (hone : ∀ files, r.Extracts e offset out.certCount out.sigCount files → files = []) :
      Except.ok (out.report (r.item offset)) = (.ok out' : Except Stop Out) ↔
        ∃ files, r.Extracts e offset out.certCount out.sigCount files ∧ out' = out.add offset r files := by
    rw [Except.ok.injEq]
    constructor
    · rintro rfl
      exact ⟨[], hextracts, (Out.add_of_nil hcerts hsigs).symm⟩
    · rintro ⟨files, hfiles, rfl⟩
      obtain rfl := hone files hfiles
      exact (Out.add_of_nil hcerts hsigs).symm
  cases r with
  | insKey flags certFmt hashAlg srcIndex tgtIndex keyLoc tail =>
    obtain ⟨-, hcert, -⟩ := hvalid
    rcases hcert with rfl | rfl | rfl
    · show writeFile e srkTableName (srkTableData e offset keyLoc) _ = _ ↔ _
      simp only [writeFile_eq_ok, srkTableData_eq_ok]
      constructor
      · rintro ⟨hopen, bytes, ⟨place, len, hplace, hsec, rfl⟩, rfl⟩
        exact ⟨_, .srk hplace hsec hopen, rfl⟩
      · rintro ⟨files, hfiles, rfl⟩
        cases hfiles with
        | srk hplace hsec hopen => exact ⟨hopen, _, ⟨_, _, hplace, hsec, rfl⟩, rfl⟩
    · show (do
        let out₁ ← writeFile e (certName out.certCount) (certData e offset keyLoc) _
        pure { out₁ with certCount := out₁.certCount + 1 }) = _ ↔ _
      simp only [bind_eq_ok, pure_eq_ok, writeFile_eq_ok, certData_eq_ok]
      constructor
      · rintro ⟨out₁, ⟨hopen, bytes, ⟨place, len, hplace, hsec, hlen, rfl⟩, rfl⟩, rfl⟩
        exact ⟨_, .x509 hplace hsec hlen hopen, rfl⟩
      · rintro ⟨files, hfiles, rfl⟩
        cases hfiles with
        | x509 hplace hsec hlen hopen => exact ⟨_, ⟨hopen, _, ⟨_, _, hplace, hsec, hlen, rfl⟩, rfl⟩, rfl⟩
    · exact hplain .blob rfl rfl fun files hfiles => by cases hfiles; rfl
  | sig version data =>
    simp only [Rec.effect, bind_eq_ok, pure_eq_ok, writeFile_eq_ok]
    constructor
    · rintro ⟨out₁, ⟨hopen, bytes, hbytes, rfl⟩, rfl⟩
      obtain rfl := Except.ok.inj hbytes
      exact ⟨_, .sig hopen, rfl⟩
    · rintro ⟨files, hfiles, rfl⟩
      cases hfiles with
      | sig hopen => exact ⟨_, ⟨hopen, _, rfl, rfl⟩, rfl⟩
  | csfHdr => exact hplain .csfHdr rfl rfl fun files hfiles => by cases hfiles; rfl
  | autDat => exact hplain .autDat rfl rfl fun files hfiles => by cases hfiles; rfl
  | unlock => exact hplain .unlock rfl rfl fun files hfiles => by cases hfiles; rfl
  | set => exact hplain .set rfl rfl fun files hfiles => by cases hfiles; rfl
  | crt => exact hplain .crt rfl rfl fun files hfiles => by cases hfiles; rfl
  | mac => exact hplain .mac rfl rfl fun files hfiles => by cases hfiles; rfl

/-! ## The report -/

theorem item_covers (offset : Nat) (r : Record) : (r.fields.item offset).Covers := by
  obtain ⟨fields, hvalid, hlt⟩ := r
  cases fields with
  | unlock cmd engine features tail =>
    refine ⟨Nat.le_add_right _ _, fun huid => ?_⟩
    unfold uidOf at huid
    split at huid
    case isTrue hcase =>
      obtain ⟨hcmd, hengine, hne⟩ := hcase
      have htail := (hvalid.2.2.2 ⟨hcmd, hengine⟩).resolve_left hne
      simp only [Rec.len]
      omega
    case isFalse => exact absurd huid (by simp)
  | _ => simp [Rec.item, Item.Covers, Rec.len]

theorem reportOf_covers {rs : List Record} {o : Nat} {i : Item} (hi : i ∈ reportOf o rs) : i.Covers := by
  obtain ⟨p, -, rfl⟩ := List.mem_map.mp hi
  exact item_covers p.1 p.2

/-- What is reported stays in the report. -/
theorem items_prefix_of_reach {o o' : Nat} {out out' : Out} (h : Reach e.csfLen (parseRecord e) o out o' out') :
    out.items <+: out'.items := by
  induction h with
  | refl => exact List.prefix_refl _
  | next _ hstep _ ih =>
    obtain ⟨i, hi⟩ := parseRecord_items e _ _ _ hstep
    exact (hi ▸ List.prefix_append _ _ : _ <+: _).trans ih

/-! ## Runs of the loop -/

/-- A result with more records that are extracted to these files. -/
def Out.addAll (out : Out) (o : Nat) (rs : List Record) (files : List (List Char × List UInt8)) : Out where
  items := out.items ++ reportOf o rs
  files := out.files ++ files
  certCount := out.certCount + (rs.map fun r => r.fields.certs).sum
  sigCount := out.sigCount + (rs.map fun r => r.fields.sigs).sum

theorem Out.addAll_nil (out : Out) (o : Nat) : out.addAll o [] [] = out := by
  simp [Out.addAll, reportOf, placed]

theorem Out.addAll_cons (out : Out) (o : Nat) (r : Record) (rs : List Record)
    (files files' : List (List Char × List UInt8)) :
    out.addAll o (r :: rs) (files ++ files') = (out.add o r.fields files).addAll (o + r.fields.size) rs files' := by
  simp [Out.addAll, Out.add, reportOf, placed, Nat.add_assoc]

theorem reach_of_layout {rs : List Record} {o certs sigs : Nat} {files : List (List Char × List UInt8)}
    (h : Layout e o certs sigs rs files) {out : Out} (hcerts : out.certCount = certs) (hsigs : out.sigCount = sigs) :
    ∃ o', Reach e.csfLen (parseRecord e) o out o' (out.addAll o rs files) ∧ e.csfLen ≤ o' := by
  induction h generalizing out with
  | nil hend =>
    rw [Out.addAll_nil]
    exact ⟨_, .refl _ _, hend⟩
  | @cons o certs sigs r rs files files' hlt hencode hfit hextracts _ ih =>
    subst hcerts hsigs
    have heffect := (effect_eq_ok r.valid).mpr ⟨files, hextracts, rfl⟩
    obtain ⟨o', hreach, hend⟩ := @ih (out.add o r.fields files) rfl rfl
    rw [Out.addAll_cons]
    exact ⟨o', .next hlt (parseRecord_of_record hlt hencode hfit heffect) hreach, hend⟩

theorem layout_of_reach {o o' : Nat} {out out' : Out} (h : Reach e.csfLen (parseRecord e) o out o' out')
    (hend : e.csfLen ≤ o') (hcov : ∀ i ∈ out'.items, i.Covers) :
    ∃ rs files, Layout e o out.certCount out.sigCount rs files ∧ out' = out.addAll o rs files := by
  induction h with
  | refl => exact ⟨[], [], .nil hend, (Out.addAll_nil _ _).symm⟩
  | @next o out n out₁ o' out' hlt hstep hreach ih =>
    obtain ⟨rs, files', hlayout, rfl⟩ := ih hend hcov
    obtain ⟨r, hencode, hfit, heffect, rfl⟩ := record_of_parseRecord hlt hstep fun i hi =>
      hcov i ((items_prefix_of_reach hreach).subset hi)
    obtain ⟨files, hextracts, rfl⟩ := (effect_eq_ok r.valid).mp heffect
    exact ⟨r :: rs, files ++ files', .cons hlt hencode hfit hextracts hlayout, (Out.addAll_cons _ _ _ _ _ _).symm⟩

theorem resultOf_eq_addAll (rs : List Record) (files : List (List Char × List UInt8)) :
    resultOf rs files = Out.empty.addAll 0 rs files := by
  simp [resultOf, Out.addAll, Out.empty]

/-- A CSF that is laid out as records is accepted. -/
theorem parseCsf_of_layout {rs : List Record} {files : List (List Char × List UInt8)} (hne : rs ≠ [])
    (h : Layout e 0 0 0 rs files) : parseCsf e = some (.ok (resultOf rs files)) := by
  have hpos : 0 < e.csfLen := by
    cases h with
    | nil => exact absurd rfl hne
    | cons hlt => exact hlt
  obtain ⟨o', hreach, hend⟩ := @reach_of_layout e _ _ _ _ _ h .empty rfl rfl
  rw [parseCsf, if_neg hpos.ne', walk_eq_ok_iff (parseRecord_progress e) hpos (by omega), resultOf_eq_addAll]
  exact ⟨o', hreach, hend⟩

/-- The parser accepts a CSF, with lengths that cover the fields of its commands, exactly when it is laid out as
valid records, with the sections of the keys in the image; it reports these, and extracts them to their files. -/
theorem csf_accepted_iff_layout (e : Env) (out : Out) :
    (parseCsf e = some (.ok out) ∧ ∀ i ∈ out.items, i.Covers) ↔
      ∃ rs files, rs ≠ [] ∧ Layout e 0 0 0 rs files ∧ out = resultOf rs files := by
  constructor
  · rintro ⟨hparse, hcov⟩
    rw [parseCsf] at hparse
    split at hparse
    case isTrue => exact absurd hparse (by simp)
    case isFalse hne =>
      have hpos : 0 < e.csfLen := Nat.pos_of_ne_zero hne
      obtain ⟨o', hreach, hend⟩ := (walk_eq_ok_iff (parseRecord_progress e) hpos (by omega)).mp hparse
      obtain ⟨rs, files, hlayout, rfl⟩ := layout_of_reach hreach hend hcov
      refine ⟨rs, files, ?_, hlayout, (resultOf_eq_addAll rs files).symm⟩
      rintro rfl
      cases hlayout with
      | nil hlength => exact absurd hpos (not_lt.mpr hlength)
  · rintro ⟨rs, files, hne, hlayout, rfl⟩
    exact ⟨parseCsf_of_layout hne hlayout, fun i hi => reportOf_covers hi⟩

end Am437x.Csf
