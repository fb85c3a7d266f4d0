import Am437x.Csf.Proofs.ParserProofs

/-!
# A CSF that is written is parsed

Records that are encoded one after the other are laid out as these records. A key location that is the offset of
a certificate section gives the certificate.
-/

namespace Am437x.Csf

open Records

/-! ## The layout of encoded records -/

theorem Rec.encode_length_le_size (r : Rec) : r.encode.length ≤ r.size := by
  cases r with
  | csfHdr len version => exact le_rfl
  | crt version cert =>
    refine le_trans ?_ (le_padded _).1
    simp [Rec.encode]
    omega
  | sig version data =>
    refine le_trans ?_ (le_padded _).1
    simp [Rec.encode]
    omega
  | _ =>
    simp [Rec.encode, Rec.size, Rec.len, -List.length_flatMap, flatMap_encodeRegion_length]
    try omega

theorem encodeAll_cons (r : Record) (rs : List Record) :
    encodeAll (r :: rs) =
      r.fields.encode ++ (List.replicate (r.fields.size - r.fields.encode.length) 0 ++ encodeAll rs) := by
  simp [encodeAll]

/-- The next record begins where the size of the first one says. -/
theorem drop_size_encodeAll (r : Record) (rs : List Record) :
    (encodeAll (r :: rs)).drop r.fields.size = encodeAll rs := by
  have hle := r.fields.encode_length_le_size
  rw [encodeAll_cons, ← List.append_assoc, List.drop_left']
  simp
  omega

/-! ## The section of a key -/

theorem encode_prefix_of_mem_placed {rs : List Record} {o k : Nat} {r : Record} (h : (k, r) ∈ placed o rs) :
    o ≤ k ∧ r.fields.encode <+: (encodeAll rs).drop (k - o) := by
  induction rs generalizing o with
  | nil => exact absurd h List.not_mem_nil
  | cons r' rs ih =>
    rcases List.mem_cons.mp h with heq | hmem
    · obtain ⟨rfl, rfl⟩ := Prod.mk.inj heq
      refine ⟨le_rfl, ?_⟩
      rw [Nat.sub_self, List.drop_zero, encodeAll_cons]
      exact List.prefix_append _ _
    · obtain ⟨hle, hprefix⟩ := ih hmem
      refine ⟨by omega, ?_⟩
      rw [show k - o = r'.fields.size + (k - (o + r'.fields.size)) by omega, ← List.drop_drop, drop_size_encodeAll]
      exact hprefix

/-- In a file of less than 2 GiB a key location is relative to the start of the CSF. -/
theorem keyPlace_of_lt {e : Env} {offset keyLoc : Nat} (hoffset : offset < 2147483648)
    (hkey : keyLoc < 2147483648) : e.KeyPlace offset keyLoc (e.csfPos + keyLoc) := by
  refine ⟨?_, ?_, ?_⟩
  · rw [Nat.cast_add]
  · push_cast
    omega
  · push_cast
    omega

/-- A key location that is the offset of a certificate section has this section. -/
structure KeyCert (e : Env) (rs : List Record) (keyLoc : Nat) (cert : List UInt8) : Prop where
  keyLoc_lt : keyLoc < e.csfLen
  hasSection : e.HasSection (e.csfPos + keyLoc) (4 + cert.length)
  bytes : (e.img.drop (e.csfPos + keyLoc)).take (4 + cert.length) = sectionAt rs keyLoc
  cert : (e.img.drop (e.csfPos + keyLoc + habHdrSize)).take (4 + cert.length - habHdrSize) = cert

theorem keyCert_of_certAt {e : Env} {rs : List Record} {keyLoc : Nat} {cert : List UInt8}
    (hcsf : e.csf = encodeAll rs) (h : certAt rs keyLoc = some cert) : KeyCert e rs keyLoc cert := by
  unfold certAt at h
  split at h
  case h_2 => cases h
  case h_1 version cert' hvalid hlt hlookup =>
    obtain rfl := Option.some.inj h
    obtain ⟨pre, post, hplaced, -⟩ := List.lookup_eq_some_iff.mp hlookup
    have hmem : (keyLoc, ⟨.crt version cert', hvalid, hlt⟩) ∈ placed 0 rs := by
      rw [hplaced]
      exact List.mem_append_right _ List.mem_cons_self
    obtain ⟨-, hencode⟩ := encode_prefix_of_mem_placed hmem
    rw [Nat.sub_zero, ← hcsf] at hencode
    have himg : e.csf.drop keyLoc = e.img.drop (e.csfPos + keyLoc) := List.drop_drop
    have hlength : (Rec.crt version cert').encode.length = 4 + cert'.length := by
      simp [Rec.encode]
      omega
    have hle := hencode.length_le
    change (Rec.crt version cert').encode.length ≤ _ at hle
    rw [hlength] at hle
    have hhdr : hdrLen (e.csf.drop keyLoc) = .ok (4 + cert'.length) := hdrLen_of_encode hencode
    obtain ⟨u, hu⟩ := hencode
    change (Rec.crt version cert').encode ++ u = _ at hu
    refine ⟨?_, hasSection_iff.mpr ⟨?_, ?_⟩, ?_, ?_⟩
    · rw [List.length_drop] at hle
      show keyLoc < e.csf.length
      omega
    · rwa [← himg]
    · rwa [← himg]
    · rw [← himg, ← hu, sectionAt, hlookup]
      exact List.take_left' hlength
    · rw [← List.drop_drop, ← himg, ← hu]
      simp [Rec.encode, be16, habHdrSize]

/-! ## The files -/

/-- A record with its key in the CSF is extracted to the next files. -/
theorem extracts_of_keyPlaced {e : Env} {all : List Record} {o : Nat} (hcsf : e.csf = encodeAll all)
    (hlen : e.csfLen < 2147483648) (hopen : ∀ name, e.canOpen name = true) (ho : o < e.csfLen) (r : Record)
    (hkey : KeyPlaced all r.fields) (certs sigs : Nat) :
    ∃ files, r.fields.Extracts e o certs sigs files ∧ ∀ rs, extracted all certs sigs (r :: rs) =
      files ++ extracted all (certs + r.fields.certs) (sigs + r.fields.sigs) rs := by
  obtain ⟨fields, hvalid, hlt⟩ := r
  change KeyPlaced all fields at hkey
  cases fields with
  | insKey flags certFmt hashAlg srcIndex tgtIndex keyLoc tail =>
    change certFmt ≠ habPclBlob → (certAt all keyLoc).isSome at hkey
    obtain ⟨-, hcert, -⟩ := hvalid
    by_cases hblob : certFmt = habPclBlob
    · subst hblob
      exact ⟨[], .blob, fun rs => rfl⟩
    obtain ⟨cert, hat⟩ := Option.isSome_iff_exists.mp (hkey hblob)
    obtain ⟨hkeyLoc, hsec, hbytes, hcertBytes⟩ := keyCert_of_certAt hcsf hat
    have hplace : e.KeyPlace o keyLoc (e.csfPos + keyLoc) := keyPlace_of_lt (by omega) (by omega)
    rcases hcert with rfl | rfl | rfl
    · refine ⟨_, .srk hplace hsec (hopen _), fun rs => ?_⟩
      rw [hbytes]
      rfl
    · refine ⟨_, .x509 hplace hsec (Nat.le_add_right _ _) (hopen _), fun rs => ?_⟩
      rw [hcertBytes]
      show (certName certs, (certAt all keyLoc).getD []) :: _ = _
      rw [hat]
      rfl
    · exact absurd rfl hblob
  | sig version data => exact ⟨_, .sig (hopen _), fun rs => rfl⟩
  | csfHdr => exact ⟨[], .csfHdr, fun rs => rfl⟩
  | autDat => exact ⟨[], .autDat, fun rs => rfl⟩
  | unlock => exact ⟨[], .unlock, fun rs => rfl⟩
  | set => exact ⟨[], .set, fun rs => rfl⟩
  | crt => exact ⟨[], .crt, fun rs => rfl⟩
  | mac => exact ⟨[], .mac, fun rs => rfl⟩

/-- Encoded records are laid out as these records, and each key and signature comes to its file. -/
theorem layout_of_drop {e : Env} {all rs : List Record} {o : Nat} (hcsf : e.csf = encodeAll all)
    (hlen : e.csfLen < 2147483648) (hopen : ∀ name, e.canOpen name = true) (hdrop : e.csf.drop o = encodeAll rs)
    (hheaders : HeadersFit rs) (hkeys : ∀ r ∈ rs, KeyPlaced all r.fields) (certs sigs : Nat) :
    Layout e o certs sigs rs (extracted all certs sigs rs) := by
  induction rs generalizing o certs sigs with
  | nil => exact .nil (List.drop_eq_nil_iff.mp hdrop)
  | cons r rs ih =>
    obtain ⟨hheader, hrest⟩ := hheaders
    have hencode : r.fields.encode <+: e.csf.drop o := by
      rw [hdrop, encodeAll_cons]
      exact List.prefix_append _ _
    have hpos : 0 < r.fields.encode.length := by
      cases r.fields <;> simp [Rec.encode]
    have hlength := hencode.length_le
    have htotal := congrArg List.length hdrop
    rw [List.length_drop] at hlength htotal
    have hcsfLen : e.csfLen = e.csf.length := rfl
    have ho : o < e.csfLen := by omega
    obtain ⟨files, hextracts, hextracted⟩ :=
      extracts_of_keyPlaced hcsf hlen hopen ho r (hkeys r List.mem_cons_self) certs sigs
    rw [hextracted]
    refine .cons ho hencode (by omega) hextracts
      (ih ?_ hrest (fun r hr => hkeys r (List.mem_cons_of_mem _ hr)) _ _)
    rw [← List.drop_drop, hdrop, drop_size_encodeAll]

/-- A CSF that is written as valid records is accepted: every record is reported at its offset, and for each
install key command the file is the certificate section that its key location is about. -/
theorem written_csf_parsed (e : Env) (rs : List Record) (hne : rs ≠ []) (hcsf : e.csf = encodeAll rs)
    (hlen : e.csfLen < 2147483648) (hheaders : HeadersFit rs) (hkeys : ∀ r ∈ rs, KeyPlaced rs r.fields)
    (hopen : ∀ name, e.canOpen name = true) :
    ∃ out, parseCsf e = some (.ok out) ∧ out.items = (placed 0 rs).map (fun p => p.2.fields.item p.1) ∧
      out.files = extracted rs 0 0 rs := by
  have hlayout := layout_of_drop hcsf hlen hopen (by rw [List.drop_zero, hcsf]) hheaders hkeys 0 0
  exact ⟨_, parseCsf_of_layout hne hlayout, rfl, rfl⟩

/-! A CSF that installs a table of SRKs, with the table behind the command. -/

theorem small_hdr_valid : (Rec.csfHdr 16 0x40).FieldsValid := by decide

theorem small_insKey_valid : (Rec.insKey 0 habPclSrk habAlgSha256 0 0 16 []).FieldsValid := by decide

theorem small_crt_valid : (Rec.crt 0x40 [1, 2, 3]).FieldsValid := by decide

theorem small_lens :
    (Rec.csfHdr 16 0x40).len < 65536 ∧ (Rec.insKey 0 habPclSrk habAlgSha256 0 0 16 []).len < 65536 ∧
      (Rec.crt 0x40 [1, 2, 3]).len < 65536 := by
  decide

def small : List Record :=
  [⟨_, small_hdr_valid, small_lens.1⟩, ⟨_, small_insKey_valid, small_lens.2.1⟩,
    ⟨_, small_crt_valid, small_lens.2.2⟩]

def smallEnv : Env := ⟨encodeAll small, 0, false, fun _ => true⟩

theorem written_csf_parsed_small :
    ∃ out, parseCsf smallEnv = some (.ok out) ∧
      out.items = [.csfHdr 16 0x40, .insKey 12 0 habPclSrk habAlgSha256 0 0 16, .crt 7 0x40 20] ∧
      out.files = [(srkTableName, [habTagCrt, 0, 7, 0x40, 1, 2, 3])] := by
  have hkeys : ∀ r ∈ small, KeyPlaced small r.fields := by decide
  exact written_csf_parsed smallEnv small (by simp [small]) rfl (by decide) (by decide) hkeys fun _ => rfl

end Am437x.Csf
