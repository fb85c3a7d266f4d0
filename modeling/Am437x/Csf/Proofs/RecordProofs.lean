import Am437x.Csf.Proofs.FieldProofs

/-!
# One record

A parser that succeeds has read a record of the format, when the length covers the fields. A record of the
format is read by the parser of its tag.
-/

namespace Am437x.Csf

open Records

/-- What the parsers do with a record: they report it, and extract a key or a signature. -/
def Rec.effect (e : Env) (offset : Nat) (out : Out) (r : Rec) : Except Stop Out :=
  let reported := out.report (r.item offset)
  match r with
  | insKey _ certFmt _ _ _ keyLoc _ => extractKey e certFmt offset keyLoc reported
  | sig _ data => do
    let out ← writeFile e (sigName out.sigCount) (.ok data) reported
    pure { out with sigCount := out.sigCount + 1 }
  | _ => .ok reported

/-- A record is at this place, has this size and this effect. -/
def ReadsRecord (e : Env) (hdr : List UInt8) (offset : Nat) (out : Out) (n : Nat) (out' : Out) : Prop :=
  ∃ r : Record, r.fields.encode <+: hdr ∧ r.fields.len ≤ hdr.length ∧
    r.fields.effect e offset out = .ok out' ∧ n = r.fields.size

theorem exists_cons4 {d : List UInt8} (h : 4 ≤ d.length) : ∃ b₀ b₁ b₂ b₃ t, d = b₀ :: b₁ :: b₂ :: b₃ :: t :=
  match d, h with
  | b₀ :: b₁ :: b₂ :: b₃ :: t, _ => ⟨b₀, b₁, b₂, b₃, t, rfl⟩

theorem exists_append {d : List UInt8} {k : Nat} (h : k ≤ d.length) : ∃ t u, d = t ++ u ∧ t.length = k :=
  ⟨d.take k, d.drop k, (List.take_append_drop k d).symm, by simp [h]⟩

/-- The sections end at a word. -/
theorem le_padded (len : Nat) : len ≤ padded len ∧ padded len < len + 4 := by
  have hmod : len &&& 3 = len % 4 := Nat.and_two_pow_sub_one_eq_mod len 2
  have hsize : habHdrSize = 4 := rfl
  rw [padded, hmod]
  split <;> constructor <;> omega

@[simp] theorem Out.report_items (out : Out) (i : Item) : (out.report i).items = out.items ++ [i] := rfl

theorem writeFile_eq_ok {e : Env} {name : List Char} {data : Except Stop (List UInt8)} {out out' : Out} :
    writeFile e name data out = .ok out' ↔
      e.canOpen name = true ∧ ∃ bytes, data = .ok bytes ∧ out' = { out with files := out.files ++ [(name, bytes)] } := by
  unfold writeFile
  by_cases hopen : e.canOpen name = true
  · rw [if_pos hopen]
    simp only [bind_eq_ok, pure_eq_ok, hopen, true_and]
    exact exists_congr fun bytes => and_congr_right fun _ => eq_comm
  · rw [if_neg hopen]
    simp [hopen]

theorem writeFile_items (e : Env) (name : List Char) (data : Except Stop (List UInt8)) (out : Out) :
    Ensures (writeFile e name data out) fun out' => out'.items = out.items := by
  intro out' h
  obtain ⟨-, bytes, -, rfl⟩ := writeFile_eq_ok.mp h
  rfl

theorem extractKey_items (e : Env) (certFmt : UInt8) (offset keyLoc : Nat) (out : Out) :
    Ensures (extractKey e certFmt offset keyLoc out) fun out' => out'.items = out.items := by
  unfold extractKey
  split_ifs
  · exact writeFile_items _ _ _ _
  · exact .bind fun out₁ hfile => .pure (writeFile_items _ _ _ _ out₁ hfile)
  · exact .pure rfl

variable {e : Env} {hdr : List UInt8} {offset n : Nat} {out out' : Out}

/-- A parser that succeeds reports one item. -/
theorem parseTag_items (e : Env) (hdr : List UInt8) (csfLen offset : Nat) (out : Out) (tag : UInt8) :
    Ensures (parseTag e hdr csfLen offset out tag) fun r => ∃ i, r.2.items = out.items ++ [i] := by
  unfold parseTag
  split_ifs
  · unfold parseCsfHdr
    repeat refine .bind fun _ _ => ?_
    exact .pure ⟨_, rfl⟩
  · unfold parseInsKeyCmd
    iterate 16 refine .bind fun _ _ => ?_
    exact .bind fun out' hout' => .pure ⟨_, extractKey_items _ _ _ _ _ out' hout'⟩
  · unfold parseAutDatCmd
    repeat refine .bind fun _ _ => ?_
    exact .pure ⟨_, rfl⟩
  · unfold parseUnlockCmd
    repeat refine .bind fun _ _ => ?_
    exact .pure ⟨_, rfl⟩
  · unfold parseSetCmd
    repeat refine .bind fun _ _ => ?_
    exact .pure ⟨_, rfl⟩
  · unfold parseCertSec
    repeat refine .bind fun _ _ => ?_
    exact .pure ⟨_, rfl⟩
  · unfold parseSigSec
    iterate 10 refine .bind fun _ _ => ?_
    exact .bind fun out' hout' => .pure ⟨_, writeFile_items _ _ _ _ out' hout'⟩
  · unfold parseMacSec
    repeat refine .bind fun _ _ => ?_
    exact .pure ⟨_, rfl⟩
  · exact .error

/-! ## What is read is a record -/

theorem readsRecord_of_parseCsfHdr (h : parseCsfHdr e hdr (offset + hdr.length) offset out = .ok (n, out')) :
    ReadsRecord e hdr offset out n out' := by
  simp only [parseCsfHdr, bind_eq_ok, byte_eq_ok, validate_eq_ok, hdrLen_eq_ok, pure_eq_ok, exists_const] at h
  obtain ⟨-, -, tag, htag, rfl, version, hversion, hvalid, len, ⟨hlt, hlen⟩, hfit, h⟩ := h
  obtain ⟨rfl, rfl⟩ : _ ∧ _ := by simpa using h
  obtain ⟨b₀, b₁, b₂, b₃, t, rfl⟩ := exists_cons4 (List.getElem?_eq_some_iff.mp hversion).1
  simp only [List.getElem?_cons_zero, List.getElem?_cons_succ, Option.some.injEq] at htag hversion
  subst htag hversion
  refine ⟨⟨.csfHdr len b₃, hvalid, hlt⟩, ?_, by simpa [Rec.len] using hfit, rfl, rfl⟩
  simpa [Rec.encode, be16, List.cons_prefix_cons] using hlen

theorem readsRecord_of_parseSetCmd (h : parseSetCmd e hdr (offset + hdr.length) offset out = .ok (n, out'))
    (hcov : ∀ i ∈ out'.items, i.Covers) : ReadsRecord e hdr offset out n out' := by
  simp only [parseSetCmd, bind_eq_ok, byte_eq_ok, validate_eq_ok, hdrLen_eq_ok, pure_eq_ok, exists_const] at h
  obtain ⟨-, -, cmd, hcmd, rfl, itm, hitm, rfl, alg, halg, halgValid, engine, hengine, hengineValid, len,
    ⟨hlt, hlen⟩, hfit, engCfg, hcfg, hcfgValid, hchain, h⟩ := h
  obtain ⟨rfl, rfl⟩ : _ ∧ _ := by simpa using h
  have hn : 8 ≤ len := hcov (.set len alg engine engCfg) (by simp)
  obtain ⟨b₀, b₁, b₂, b₃, t, rfl⟩ := exists_cons4 (by omega : 4 ≤ hdr.length)
  obtain ⟨b₄, b₅, b₆, b₇, t, rfl⟩ := exists_cons4 (by simp at hfit; omega : 4 ≤ t.length)
  simp only [List.getElem?_cons_zero, List.getElem?_cons_succ, Option.some.injEq] at hcmd hitm halg hengine hcfg
  obtain ⟨tail, u, rfl, htail⟩ := exists_append (by simp at hfit; omega : len - 8 ≤ t.length)
  obtain rfl : len = 8 + tail.length := by omega
  subst hcmd hitm halg hengine hcfg
  refine ⟨⟨.set b₄ b₅ b₆ b₇ tail, ⟨halgValid, hengineValid, hcfgValid, hchain⟩, hlt⟩, ?_, ?_, rfl, rfl⟩
  · simpa [Rec.encode, Rec.len, be16, List.cons_prefix_cons] using hlen
  · simpa [Rec.len] using hfit

theorem readsRecord_of_parseCertSec (h : parseCertSec e hdr (offset + hdr.length) offset out = .ok (n, out'))
    (hcov : ∀ i ∈ out'.items, i.Covers) : ReadsRecord e hdr offset out n out' := by
  simp only [parseCertSec, bind_eq_ok, byte_eq_ok, validate_eq_ok, hdrLen_eq_ok, pure_eq_ok, exists_const] at h
  obtain ⟨-, -, tag, htag, rfl, version, hversion, hvalid, len, ⟨hlt, hlen⟩, hfit, h⟩ := h
  obtain ⟨rfl, rfl⟩ : _ ∧ _ := by simpa using h
  have hlen4 : 4 ≤ len := hcov (.crt len version (offset + habHdrSize)) (by simp)
  obtain ⟨b₀, b₁, b₂, b₃, t, rfl⟩ := exists_cons4 (List.getElem?_eq_some_iff.mp hversion).1
  simp only [List.getElem?_cons_zero, List.getElem?_cons_succ, Option.some.injEq] at htag hversion
  subst htag hversion
  obtain ⟨cert, u, rfl, hcert⟩ := exists_append (by simp at hfit; omega : len - 4 ≤ t.length)
  obtain rfl : len = 4 + cert.length := by omega
  refine ⟨⟨.crt b₃ cert, hvalid, hlt⟩, ?_, ?_, rfl, rfl⟩
  · simpa [Rec.encode, Rec.len, be16, List.cons_prefix_cons] using hlen
  · simpa [Rec.len] using hfit

theorem readsRecord_of_parseSigSec (h : parseSigSec e hdr (offset + hdr.length) offset out = .ok (n, out')) :
    ReadsRecord e hdr offset out n out' := by
  simp only [parseSigSec, bind_eq_ok, validate_eq_ok, copyToHeap_eq_ok, pure_eq_ok, exists_const] at h
  obtain ⟨-, -, tag, htag, rfl, version, hversion, hvalid, len, hlen, hfit, sec, ⟨-, hle, rfl⟩, version',
    hversion', len', hlen', out₁, hfile, h⟩ := h
  obtain ⟨rfl, rfl⟩ : _ ∧ _ := by simpa using h
  -- the copy has the header, so it says the same
  have hlen4 : 3 < len := lt_of_byte_take hversion'
  obtain rfl : version = version' := by
    rw [byte_take hlen4, hversion] at hversion'
    simpa using hversion'
  obtain rfl : len = len' := by
    rw [hdrLen_take (by omega), hlen] at hlen'
    simpa using hlen'
  obtain ⟨hlt, hlen⟩ := hdrLen_eq_ok.mp hlen
  simp only [byte_eq_ok] at htag hversion
  obtain ⟨b₀, b₁, b₂, b₃, t, rfl⟩ := exists_cons4 (by omega : 4 ≤ hdr.length)
  simp only [List.getElem?_cons_zero, List.getElem?_cons_succ, Option.some.injEq] at htag hversion
  subst htag hversion
  obtain ⟨data, u, rfl, hdata⟩ := exists_append (by simp at hfit; omega : len - 4 ≤ t.length)
  obtain rfl : len = 4 + data.length := by omega
  have hslice : slice ((habTagSig :: b₁ :: b₂ :: b₃ :: (data ++ u)).take (4 + data.length)) habHdrSize
      (4 + data.length - habHdrSize) = .ok data := by
    have htake : (habTagSig :: b₁ :: b₂ :: b₃ :: (data ++ u)).take (4 + data.length) =
        habTagSig :: b₁ :: b₂ :: b₃ :: data := by
      rw [Nat.add_comm]
      simp
    rw [htake, slice_eq_ok]
    simp [habHdrSize]
    omega
  rw [hslice] at hfile
  refine ⟨⟨.sig b₃ data, hvalid, hlt⟩, ?_, ?_, ?_, rfl⟩
  · simpa [Rec.encode, Rec.len, be16, List.cons_prefix_cons] using hlen
  · simpa [Rec.len] using hfit
  · simp only [Rec.effect, bind_eq_ok, pure_eq_ok]
    exact ⟨out₁, hfile, rfl⟩

theorem readsRecord_of_parseMacSec (h : parseMacSec e hdr (offset + hdr.length) offset out = .ok (n, out')) :
    ReadsRecord e hdr offset out n out' := by
  simp only [parseMacSec, bind_eq_ok, byte_eq_ok, validate_eq_ok, hdrLen_eq_ok, copyToHeap_eq_ok, slice_eq_ok,
    pure_eq_ok, exists_const] at h
  obtain ⟨-, -, tag, htag, rfl, version, hversion, hvalid, len, ⟨hlt, hlen⟩, hfit, nonceBytes, hnonce, macBytes,
    hmac, hsum, sec, ⟨-, hle, rfl⟩, nonce, ⟨-, rfl⟩, value, ⟨-, rfl⟩, h⟩ := h
  obtain ⟨rfl, rfl⟩ : _ ∧ _ := by simpa using h
  simp only [habHdrSize] at hsum
  obtain ⟨b₀, b₁, b₂, b₃, t, rfl⟩ := exists_cons4 (by omega : 4 ≤ hdr.length)
  obtain ⟨b₄, b₅, b₆, b₇, t, rfl⟩ := exists_cons4 (by simp at hle; omega : 4 ≤ t.length)
  simp only [List.getElem?_cons_zero, List.getElem?_cons_succ, Option.some.injEq] at htag hversion hnonce hmac
  subst htag hversion hnonce hmac
  obtain ⟨nonce, t, rfl, hnonce⟩ := exists_append (by simp at hle; omega : b₅.toNat ≤ t.length)
  obtain ⟨value, u, rfl, hvalue⟩ := exists_append (by simp at hle; omega : b₇.toNat ≤ t.length)
  obtain rfl : len = nonce.length + value.length + 8 := by omega
  have hvalid' : (Rec.mac b₃ b₄ b₆ nonce value).FieldsValid :=
    ⟨hvalid, hnonce ▸ b₅.toNat_lt, hvalue ▸ b₇.toNat_lt⟩
  have htake : (habTagMac :: b₁ :: b₂ :: b₃ :: b₄ :: b₅ :: b₆ :: b₇ :: (nonce ++ (value ++ u))).take
      (nonce.length + value.length + 8) = habTagMac :: b₁ :: b₂ :: b₃ :: b₄ :: b₅ :: b₆ :: b₇ :: (nonce ++ value) := by
    simp [← List.append_assoc, ← List.length_append]
  have hb₅ : UInt8.ofNat nonce.length = b₅ := by rw [hnonce, UInt8.ofNat_toNat]
  have hb₇ : UInt8.ofNat value.length = b₇ := by rw [hvalue, UInt8.ofNat_toNat]
  refine ⟨⟨.mac b₃ b₄ b₆ nonce value, hvalid', hlt⟩, ?_, hle, ?_, rfl⟩
  · simpa [Rec.encode, Rec.len, be16, hb₅, hb₇, List.cons_prefix_cons] using hlen
  · rw [htake, Nat.add_comm 8]
    simp [Rec.effect, Rec.item, Rec.len, ← hnonce, ← hvalue]

theorem shiftLeft_or (high : Nat) {low : Nat} (h : low < 4294967296) : high <<< 32 ||| low = high * 4294967296 + low := by
  rw [← Nat.shiftLeft_add_eq_or_of_lt h, Nat.shiftLeft_eq]

theorem unlockUid_eq {cmd engine : UInt8} {tail u : List UInt8} (hdrop : hdr.drop 8 = tail ++ u)
    (hlong : cmd = habCmdUnlk ∧ engine = habEngOcotp → tail = [] ∨ 8 ≤ tail.length) :
    unlockUid hdr cmd engine (8 + tail.length) = .ok (uidOf cmd engine tail) := by
  by_cases hcase : cmd = habCmdUnlk ∧ engine = habEngOcotp ∧ tail ≠ []
  · obtain ⟨hcmd, hengine, hne⟩ := hcase
    have htail : 8 ≤ tail.length := (hlong ⟨hcmd, hengine⟩).resolve_left hne
    have hlength := congrArg List.length hdrop
    simp only [List.length_drop, List.length_append] at hlength
    have hhigh : fromBe32 hdr 8 = .ok (beValue (tail.take 4)) := by
      rw [fromBe32_eq_beValue (by omega), hdrop, List.take_append_of_le_length (by omega)]
    have hlow : fromBe32 hdr 12 = .ok (beValue ((tail.drop 4).take 4)) := by
      rw [fromBe32_eq_beValue (by omega), show 12 = 8 + 4 from rfl, ← List.drop_drop, hdrop,
        List.drop_append_of_le_length (by omega), List.take_append_of_le_length (by simp; omega)]
    have hlowLength : ((tail.drop 4).take 4).length = 4 := by
      simp
      omega
    have hlt := beValue_lt ((tail.drop 4).take 4)
    rw [hlowLength] at hlt
    have hsplit : tail.take 8 = tail.take 4 ++ (tail.drop 4).take 4 := by
      rw [show 8 = 4 + 4 from rfl, List.take_add]
    rw [unlockUid, if_pos ⟨hcmd, hengine, by simp only [minUnlkCmdLen]; omega⟩, uidOf, if_pos ⟨hcmd, hengine, hne⟩, hsplit,
      beValue_append, hlowLength]
    simp only [hhigh, hlow, bind_eq_ok, pure_eq_ok, Except.ok.injEq, exists_eq_left', shiftLeft_or _ hlt]
    rfl
  · have hshort : ¬(cmd = habCmdUnlk ∧ engine = habEngOcotp ∧ minUnlkCmdLen < 8 + tail.length) := by
      rintro ⟨hcmd, hengine, hlen⟩
      refine hcase ⟨hcmd, hengine, ?_⟩
      rintro rfl
      exact absurd hlen (by decide)
    rw [unlockUid, if_neg hshort, uidOf, if_neg hcase]
    rfl

theorem readsRecord_of_parseUnlockCmd (h : parseUnlockCmd e hdr (offset + hdr.length) offset out = .ok (n, out'))
    (hcov : ∀ i ∈ out'.items, i.Covers) : ReadsRecord e hdr offset out n out' := by
  simp only [parseUnlockCmd, bind_eq_ok, byte_eq_ok, validate_eq_ok, hdrLen_eq_ok, fromBe32_eq_ok, pure_eq_ok,
    exists_const] at h
  obtain ⟨-, -, cmd, hcmd, hcmdValid, engine, hengine, hengineValid, len, ⟨hlt, hlen⟩, hfit, features,
    ⟨-, hfeatures⟩, hfeaturesValid, uid, hread, h⟩ := h
  obtain ⟨rfl, rfl⟩ : _ ∧ _ := by simpa using h
  obtain ⟨hn, huid⟩ : 8 ≤ len ∧ (uid.isSome → 16 ≤ len) := hcov (.unlock cmd len engine features uid) (by simp)
  obtain ⟨b₀, b₁, b₂, b₃, t, rfl⟩ := exists_cons4 (by omega : 4 ≤ hdr.length)
  obtain ⟨b₄, b₅, b₆, b₇, t, rfl⟩ := exists_cons4 (by simp at hfit; omega : 4 ≤ t.length)
  simp only [List.getElem?_cons_zero, List.getElem?_cons_succ, Option.some.injEq] at hcmd hengine
  subst hcmd hengine
  obtain ⟨tail, u, rfl, htail⟩ := exists_append (by simp at hfit; omega : len - 8 ≤ t.length)
  obtain rfl : len = 8 + tail.length := by omega
  -- the identifier is in the record when its length says so
  have hlong : b₀ = habCmdUnlk ∧ b₃ = habEngOcotp → tail = [] ∨ 8 ≤ tail.length := by
    rintro ⟨rfl, rfl⟩
    by_cases htail : tail = []
    · exact .inl htail
    · have hpos := List.length_pos_iff.mpr htail
      have hmin : minUnlkCmdLen = 8 := rfl
      rw [unlockUid, if_pos ⟨rfl, rfl, by omega⟩] at hread
      simp only [bind_eq_ok, pure_eq_ok] at hread
      obtain ⟨high, -, low, -, rfl⟩ := hread
      have := huid rfl
      omega
  obtain rfl : uid = uidOf b₀ b₃ tail := by
    rw [unlockUid_eq rfl hlong] at hread
    simpa using hread.symm
  have hvalid : (Rec.unlock b₀ b₃ features tail).FieldsValid := ⟨hcmdValid, hengineValid, hfeaturesValid, hlong⟩
  refine ⟨⟨.unlock b₀ b₃ features tail, hvalid, hlt⟩, ?_, by simpa [Rec.len] using hfit, rfl, rfl⟩
  · simp only [be16, be32, List.drop_succ_cons, List.drop_zero, List.cons_prefix_cons] at hlen hfeatures
    simp [Rec.encode, Rec.len, be16, be32, List.cons_prefix_cons, hlen, hfeatures]

theorem readsRecord_of_parseInsKeyCmd (h : parseInsKeyCmd e hdr (offset + hdr.length) offset out = .ok (n, out'))
    (hcov : ∀ i ∈ out'.items, i.Covers) : ReadsRecord e hdr offset out n out' := by
  simp only [parseInsKeyCmd, bind_eq_ok, byte_eq_ok, validate_eq_ok, hdrLen_eq_ok, fromBe32_eq_ok, pure_eq_ok,
    exists_const] at h
  obtain ⟨-, -, cmd, hcmd, rfl, flags, hflags, hflagsValid, len, ⟨hlt, hlen⟩, hfit, certFmt, hcert, hcertValid,
    hashAlg, hhash, hhashValid, srcIndex, hsrc, hsrcValid, tgtIndex, htgt, htgtValid, keyLoc, ⟨hkeyLt, hkey⟩, out₁,
    hextract, h⟩ := h
  obtain ⟨rfl, rfl⟩ : _ ∧ _ := by simpa using h
  have hn : 12 ≤ len := hcov (.insKey len flags certFmt hashAlg srcIndex tgtIndex keyLoc)
    (by rw [extractKey_items _ _ _ _ _ _ hextract]; simp)
  obtain ⟨b₀, b₁, b₂, b₃, t, rfl⟩ := exists_cons4 (by omega : 4 ≤ hdr.length)
  obtain ⟨b₄, b₅, b₆, b₇, t, rfl⟩ := exists_cons4 (by simp at hfit; omega : 4 ≤ t.length)
  obtain ⟨b₈, b₉, c₀, c₁, t, rfl⟩ := exists_cons4 (by simp at hfit; omega : 4 ≤ t.length)
  simp only [List.getElem?_cons_zero, List.getElem?_cons_succ, Option.some.injEq] at hcmd hflags hcert hhash hsrc htgt
  subst hcmd hflags hcert hhash hsrc htgt
  obtain ⟨tail, u, rfl, htail⟩ := exists_append (by simp at hfit; omega : len - 12 ≤ t.length)
  obtain rfl : len = 12 + tail.length := by omega
  refine ⟨⟨.insKey b₃ b₄ b₅ b₆ b₇ keyLoc tail,
    ⟨hflagsValid, hcertValid, hhashValid, hsrcValid, htgtValid, hkeyLt⟩, hlt⟩, ?_, by simpa [Rec.len] using hfit,
    hextract, rfl⟩
  simp only [be16, be32, List.drop_succ_cons, List.drop_zero, List.cons_prefix_cons] at hlen hkey
  simp [Rec.encode, Rec.len, be16, be32, List.cons_prefix_cons, hlen, hkey]

/-! ## The regions of an authenticate data command -/

theorem readRegions_of_prefix {d : List UInt8} {rs : List (Nat × Nat)} {k : Nat}
    (hlt : ∀ r ∈ rs, r.1 < 4294967296 ∧ r.2 < 4294967296) (h : rs.flatMap encodeRegion <+: d.drop k) :
    readRegions d k rs.length = .ok rs := by
  induction rs generalizing k with
  | nil => rfl
  | cons r rs ih =>
    obtain ⟨u, hu⟩ := h
    rw [List.flatMap_cons, encodeRegion, List.append_assoc, List.append_assoc] at hu
    have hdrop₄ : d.drop (k + 4) = be32 r.2 ++ (rs.flatMap encodeRegion ++ u) := by
      rw [← List.drop_drop, ← hu, List.drop_left' (be32_length _)]
    have hdrop₈ : d.drop (k + 8) = rs.flatMap encodeRegion ++ u := by
      rw [show k + 8 = k + 4 + 4 from rfl, ← List.drop_drop, hdrop₄, List.drop_left' (be32_length _)]
    obtain ⟨haddress, hsize⟩ := hlt r List.mem_cons_self
    have h₀ : fromBe32 d k = .ok r.1 := fromBe32_eq_ok.mpr ⟨haddress, _, hu⟩
    have h₄ : fromBe32 d (k + 4) = .ok r.2 := fromBe32_eq_ok.mpr ⟨hsize, _, hdrop₄.symm⟩
    have h₈ := ih (fun r hr => hlt r (List.mem_cons_of_mem _ hr)) ⟨u, hdrop₈.symm⟩
    simp only [List.length_cons, readRegions, bind_eq_ok, pure_eq_ok, h₀, h₄, h₈, Except.ok.injEq, exists_eq_left']

/-- Bytes of whole regions are the encoding of regions. -/
theorem exists_regions (k : Nat) (d : List UInt8) (hd : d.length = k * 8) :
    ∃ rs : List (Nat × Nat), rs.length = k ∧ rs.flatMap encodeRegion = d ∧
      ∀ r ∈ rs, r.1 < 4294967296 ∧ r.2 < 4294967296 := by
  induction k generalizing d with
  | zero => exact ⟨[], rfl, (List.eq_nil_of_length_eq_zero (by omega)).symm, by simp⟩
  | succ k ih =>
    obtain ⟨b₀, b₁, b₂, b₃, t, rfl⟩ := exists_cons4 (by omega : 4 ≤ d.length)
    obtain ⟨b₄, b₅, b₆, b₇, t, rfl⟩ := exists_cons4 (by simp at hd; omega : 4 ≤ t.length)
    obtain ⟨rs, hlength, hrs, hlt⟩ := ih t (by simp at hd; omega)
    obtain ⟨address, haddress, haddressBytes⟩ := exists_be32 b₀ b₁ b₂ b₃
    obtain ⟨size, hsize, hsizeBytes⟩ := exists_be32 b₄ b₅ b₆ b₇
    refine ⟨(address, size) :: rs, by rw [List.length_cons, hlength], ?_, ?_⟩
    · rw [List.flatMap_cons, hrs, encodeRegion, haddressBytes, hsizeBytes]
      rfl
    · intro r hr
      rcases List.mem_cons.mp hr with rfl | hr
      · exact ⟨haddress, hsize⟩
      · exact hlt r hr

theorem flatMap_encodeRegion_length (rs : List (Nat × Nat)) :
    (rs.flatMap encodeRegion).length = rs.length * 8 := by
  induction rs with
  | nil => rfl
  | cons r rs ih =>
    rw [List.flatMap_cons, List.length_append, ih, List.length_cons]
    simp only [encodeRegion, List.length_append, be32_length]
    omega

theorem validateBlocks_eq_ok {engine : UInt8} {k : Nat} (hk : 0 < k) :
    validateBlocks engine k = .ok () ↔ blocksValid engine k := by
  have hengines : habEngDcp ≠ habEngCaam ∧ habEngSahara ≠ habEngCaam ∧ habEngSahara ≠ habEngDcp := by decide
  obtain ⟨h₁, h₂, h₃⟩ := hengines
  unfold validateBlocks blocksValid
  split_ifs with hcaam hdcp hsahara
  · simp [hcaam, hk, h₁.symm, h₂.symm]
  · simp [hdcp, hk, h₁, h₃.symm]
  · simp [hsahara, hk, h₂, h₃]
  · simp [hcaam, hdcp, hsahara, pure, Except.pure]

theorem autDatRegions_eq_ok {len k : Nat} (h : autDatRegions hdr len = .ok k) :
    k = (len - 12) / 8 ∧ (12 < len → ∀ engine, hdr[6]? = some engine → 0 < k → blocksValid engine k) := by
  have hmin : minAutDatCmdLen = 12 := rfl
  unfold autDatRegions at h
  split at h
  case isTrue hlen =>
    simp only [bind_eq_ok, byte_eq_ok, pure_eq_ok] at h
    obtain ⟨engine, hengine, _, hblocks, rfl⟩ := h
    refine ⟨rfl, fun _ engine' hengine' hk => ?_⟩
    obtain rfl := Option.some.inj (hengine.symm.trans hengine')
    exact (validateBlocks_eq_ok hk).mp hblocks
  case isFalse hlen =>
    obtain rfl : 0 = k := by simpa using h
    exact ⟨by omega, fun hlt => by omega⟩

theorem readsRecord_of_parseAutDatCmd (h : parseAutDatCmd e hdr (offset + hdr.length) offset out = .ok (n, out')) :
    ReadsRecord e hdr offset out n out' := by
  simp only [parseAutDatCmd, bind_eq_ok, validate_eq_ok, copyToHeap_eq_ok, pure_eq_ok, exists_const] at h
  obtain ⟨len, hlen, k, hk, copy, ⟨hblock, hle, rfl⟩, -, -, tag, htag, rfl, flags, hflags, hflagsValid, len', hlen',
    hfit, key, hkey, hkeyValid, sigFmt, hsigFmt, hsigFmtValid, engine, hengine, hengineValid, engCfg, hengCfg,
    hengCfgValid, hchain, sigLoc, hsigLoc, regions, hregions, h⟩ := h
  obtain ⟨rfl, rfl⟩ : _ ∧ _ := by simpa using h
  -- the copy has the fixed part of the command
  have hlen12 : 12 ≤ len := le_of_fromBe32_take hsigLoc
  rw [byte_take (by omega)] at htag hflags hkey hsigFmt hengine hengCfg
  rw [fromBe32_take (by omega)] at hsigLoc
  obtain rfl : len = len' := by
    rw [hdrLen_take (by omega), hlen] at hlen'
    simpa using hlen'
  obtain ⟨hkEq, hblocks⟩ := autDatRegions_eq_ok hk
  -- the block has room for whole regions only
  obtain rfl : len = k * 8 + 12 := by omega
  obtain ⟨hlt, hlen⟩ := hdrLen_eq_ok.mp hlen
  obtain ⟨hsigLocLt, hsigLoc⟩ := fromBe32_eq_ok.mp hsigLoc
  simp only [byte_eq_ok] at htag hflags hkey hsigFmt hengine hengCfg
  have hblocksValid : blocksValid engine k := by
    rcases Nat.eq_zero_or_pos k with rfl | hpos
    · exact ⟨fun _ => by decide, fun _ => by decide, fun _ => by decide⟩
    · exact hblocks (by omega) engine hengine hpos
  obtain ⟨b₀, b₁, b₂, b₃, t, rfl⟩ := exists_cons4 (by omega : 4 ≤ hdr.length)
  obtain ⟨b₄, b₅, b₆, b₇, t, rfl⟩ := exists_cons4 (by simp at hle; omega : 4 ≤ t.length)
  obtain ⟨b₈, b₉, c₀, c₁, t, rfl⟩ := exists_cons4 (by simp at hle; omega : 4 ≤ t.length)
  simp only [List.getElem?_cons_zero, List.getElem?_cons_succ, Option.some.injEq] at htag hflags hkey hsigFmt hengine hengCfg
  subst htag hflags hkey hsigFmt hengine hengCfg
  obtain ⟨d, u, rfl, hd⟩ := exists_append (by simp at hle; omega : k * 8 ≤ t.length)
  obtain ⟨rs, rfl, rfl, hrs⟩ := exists_regions k d hd
  have hvalid : (Rec.autDat b₃ b₄ b₅ b₆ b₇ sigLoc rs).FieldsValid :=
    ⟨hflagsValid, hkeyValid, hsigFmtValid, hengineValid, hengCfgValid, hchain, hblocksValid, hsigLocLt, hrs⟩
  have hregions' : regions = if rs.length < habCaamBlockMax then rs else [] := by
    split_ifs at hregions ⊢ with hfew
    · have hread := readRegions_of_prefix hrs (d := (habCmdAutDat :: b₁ :: b₂ :: b₃ :: b₄ :: b₅ :: b₆ :: b₇ :: b₈ ::
        b₉ :: c₀ :: c₁ :: (rs.flatMap encodeRegion ++ u)).take (rs.length * 8 + 12)) (k := 12) (by simp [hd])
      exact (Except.ok.inj (hread.symm.trans hregions)).symm
    · exact (Except.ok.inj hregions).symm
  refine ⟨⟨.autDat b₃ b₄ b₅ b₆ b₇ sigLoc rs, hvalid, hlt⟩, ?_, hle, ?_, rfl⟩
  · simp only [be16, be32, List.drop_succ_cons, List.drop_zero, List.cons_prefix_cons] at hlen hsigLoc
    simp [Rec.encode, Rec.len, be16, be32, List.cons_prefix_cons, hlen, hsigLoc]
  · rw [hregions']
    rfl

/-- What is read at a tag is a record, when its length covers its fields. -/
theorem readsRecord_of_parseTag {tag : UInt8} (h : parseTag e hdr (offset + hdr.length) offset out tag = .ok (n, out'))
    (hcov : ∀ i ∈ out'.items, i.Covers) : ReadsRecord e hdr offset out n out' := by
  unfold parseTag at h
  split_ifs at h
  · exact readsRecord_of_parseCsfHdr h
  · exact readsRecord_of_parseInsKeyCmd h hcov
  · exact readsRecord_of_parseAutDatCmd h
  · exact readsRecord_of_parseUnlockCmd h hcov
  · exact readsRecord_of_parseSetCmd h hcov
  · exact readsRecord_of_parseCertSec h hcov
  · exact readsRecord_of_parseSigSec h
  · exact readsRecord_of_parseMacSec h

/-! ## A record is read -/

/-- The header of a record says its length. -/
theorem hdrLen_of_encode {r : Record} (h : r.fields.encode <+: hdr) : hdrLen hdr = .ok r.fields.len := by
  obtain ⟨u, rfl⟩ := h
  refine hdrLen_eq_ok.mpr ⟨r.len_lt, ?_⟩
  cases r.fields <;> simp [Rec.encode, Rec.len, List.prefix_append]

/-- The tag at the start of a record. -/
def Rec.tag : Rec → UInt8
  | csfHdr .. => habTagCsf
  | insKey .. => habCmdInsKey
  | autDat .. => habCmdAutDat
  | unlock cmd .. => cmd
  | set .. => habCmdSet
  | crt .. => habTagCrt
  | sig .. => habTagSig
  | mac .. => habTagMac

theorem tag_of_encode {r : Rec} (h : r.encode <+: hdr) : hdr[0]? = some r.tag := by
  obtain ⟨u, rfl⟩ := h
  cases r <;> rfl

section OfRecord

variable {csfLen : Nat} {u : List UInt8}

theorem parseCsfHdr_of_record {len : Nat} {version : UInt8} (hlen : hdrLen hdr = .ok len)
    (hfit : offset + len ≤ csfLen) (hhdr : hdr = (Rec.csfHdr len version).encode ++ u) (hvalid : isVersion version) :
    parseCsfHdr e hdr csfLen offset out = .ok (habHdrSize, out.report (.csfHdr len version)) := by
  have hdump : debugDumpHdr e hdr = .ok () := by
    unfold debugDumpHdr
    split
    · simp [hhdr, Rec.encode, habHdrSize]
      omega
    · rfl
  simp only [parseCsfHdr, bind_eq_ok, byte_eq_ok, validate_eq_ok, pure_eq_ok]
  refine ⟨(), hdump, habTagCsf, ?_, (), rfl, version, ?_, (), hvalid, len, hlen, (), hfit, rfl⟩ <;>
    rw [hhdr] <;> rfl

theorem parseSetCmd_of_record {res alg engine engCfg : UInt8} {tail : List UInt8}
    (hlen : hdrLen hdr = .ok (8 + tail.length)) (hle : 8 + tail.length ≤ hdr.length)
    (hfit : offset + (8 + tail.length) ≤ csfLen) (hhdr : hdr = (Rec.set res alg engine engCfg tail).encode ++ u)
    (hvalid : (Rec.set res alg engine engCfg tail).FieldsValid) :
    parseSetCmd e hdr csfLen offset out =
      .ok (8 + tail.length, out.report (.set (8 + tail.length) alg engine engCfg)) := by
  obtain ⟨halg, hengine, hcfg, hchain⟩ := hvalid
  simp only [parseSetCmd, bind_eq_ok, byte_eq_ok, validate_eq_ok, pure_eq_ok]
  refine ⟨(), debugDump_eq_ok hlen hle, habCmdSet, ?_, (), rfl, habVarCfgItmEng, ?_, (), rfl, alg, ?_, (), halg, engine,
    ?_, (), hengine, _, hlen, (), hfit, engCfg, ?_, (), hcfg, (), hchain, rfl⟩ <;> rw [hhdr] <;> rfl

theorem parseCertSec_of_record {version : UInt8} {cert : List UInt8} (hlen : hdrLen hdr = .ok (4 + cert.length))
    (hle : 4 + cert.length ≤ hdr.length) (hfit : offset + (4 + cert.length) ≤ csfLen)
    (hhdr : hdr = (Rec.crt version cert).encode ++ u) (hvalid : isVersion version) :
    parseCertSec e hdr csfLen offset out =
      .ok (padded (4 + cert.length), out.report (.crt (4 + cert.length) version (offset + habHdrSize))) := by
  simp only [parseCertSec, bind_eq_ok, byte_eq_ok, validate_eq_ok, pure_eq_ok]
  refine ⟨(), debugDump_eq_ok hlen hle, habTagCrt, ?_, (), rfl, version, ?_, (), hvalid, _, hlen, (), hfit, rfl⟩ <;>
    rw [hhdr] <;> rfl

theorem parseSigSec_of_record {version : UInt8} {data : List UInt8} (hlen : hdrLen hdr = .ok (4 + data.length))
    (hle : 4 + data.length ≤ hdr.length) (hfit : offset + (4 + data.length) ≤ csfLen)
    (hhdr : hdr = (Rec.sig version data).encode ++ u) (hvalid : isVersion version)
    (heffect : (Rec.sig version data).effect e offset out = .ok out') :
    parseSigSec e hdr csfLen offset out = .ok (padded (4 + data.length), out') := by
  simp only [Rec.effect, bind_eq_ok, pure_eq_ok] at heffect
  obtain ⟨out₁, hfile, rfl⟩ := heffect
  have htag : byte hdr 0 = .ok habTagSig := by rw [byte_eq_ok, hhdr]; rfl
  have hversion : byte hdr 3 = .ok version := by rw [byte_eq_ok, hhdr]; rfl
  have hdata : slice (hdr.take (4 + data.length)) habHdrSize (4 + data.length - habHdrSize) = .ok data := by
    have htake : hdr.take (4 + data.length) = (Rec.sig version data).encode := by
      rw [hhdr, List.take_left']
      simp [Rec.encode]
      omega
    rw [htake, slice_eq_ok]
    simp [Rec.encode, be16, habHdrSize]
    omega
  simp only [parseSigSec, bind_eq_ok, validate_eq_ok, pure_eq_ok]
  refine ⟨(), debugDump_eq_ok hlen hle, habTagSig, htag, (), rfl, version, hversion, (), hvalid, _, hlen, (), hfit,
    hdr.take (4 + data.length), ?_, version, ?_, _, ?_, out₁, ?_, rfl⟩
  · exact copyToHeap_eq_ok.mpr ⟨le_rfl, hle, rfl⟩
  · rw [byte_take (by omega), hversion]
  · rw [hdrLen_take (by omega), hlen]
  · rw [hdata]
    exact hfile

theorem parseMacSec_of_record {version res₁ res₂ : UInt8} {nonce value : List UInt8}
    (hlen : hdrLen hdr = .ok (nonce.length + value.length + 8)) (hle : nonce.length + value.length + 8 ≤ hdr.length)
    (hfit : offset + (nonce.length + value.length + 8) ≤ csfLen)
    (hhdr : hdr = (Rec.mac version res₁ res₂ nonce value).encode ++ u)
    (hvalid : (Rec.mac version res₁ res₂ nonce value).FieldsValid) :
    parseMacSec e hdr csfLen offset out = .ok (nonce.length + value.length + 8,
      out.report (.mac (nonce.length + value.length + 8) version nonce value)) := by
  obtain ⟨hversion, hnonce, hvalue⟩ := hvalid
  have hn : (UInt8.ofNat nonce.length).toNat = nonce.length := UInt8.toNat_ofNat_of_lt' hnonce
  have hv : (UInt8.ofNat value.length).toNat = value.length := UInt8.toNat_ofNat_of_lt' hvalue
  have htake : hdr.take (nonce.length + value.length + 8) = (Rec.mac version res₁ res₂ nonce value).encode := by
    rw [hhdr, List.take_left']
    simp [Rec.encode]
    omega
  simp only [parseMacSec, bind_eq_ok, byte_eq_ok, validate_eq_ok, copyToHeap_eq_ok, slice_eq_ok, pure_eq_ok]
  refine ⟨(), debugDump_eq_ok hlen hle, habTagMac, ?_, (), rfl, version, ?_, (), hversion, _, hlen, (), hfit,
    UInt8.ofNat nonce.length, ?_, UInt8.ofNat value.length, ?_, (), ?_, _, ⟨le_rfl, hle, htake⟩, nonce, ?_, value, ?_,
    rfl⟩
  iterate 4
    rw [hhdr]
    rfl
  · rw [hn, hv]
    rfl
  · rw [hn]
    simp [Rec.encode, be16]
    omega
  · rw [hv, hn, Nat.add_comm 8]
    simp [Rec.encode, be16]
    omega

theorem parseUnlockCmd_of_record {cmd engine : UInt8} {features : Nat} {tail : List UInt8}
    (hlen : hdrLen hdr = .ok (8 + tail.length)) (hle : 8 + tail.length ≤ hdr.length)
    (hfit : offset + (8 + tail.length) ≤ csfLen) (hhdr : hdr = (Rec.unlock cmd engine features tail).encode ++ u)
    (hvalid : (Rec.unlock cmd engine features tail).FieldsValid) :
    parseUnlockCmd e hdr csfLen offset out = .ok (8 + tail.length,
      out.report (.unlock cmd (8 + tail.length) engine features (uidOf cmd engine tail))) := by
  obtain ⟨hcmd, hengine, hfeatures, hlong⟩ := hvalid
  have hdrop : hdr.drop 8 = tail ++ u := by
    rw [hhdr]
    simp [Rec.encode, be16, be32]
  have hword : fromBe32 hdr 4 = .ok features := by
    refine fromBe32_eq_ok.mpr ⟨by omega, ?_⟩
    rw [hhdr]
    simp [Rec.encode, be16]
  simp only [parseUnlockCmd, bind_eq_ok, byte_eq_ok, validate_eq_ok, pure_eq_ok]
  refine ⟨(), debugDump_eq_ok hlen hle, cmd, ?_, (), hcmd, engine, ?_, (), hengine, _, hlen, (), hfit, features, hword,
    (), hfeatures, _, unlockUid_eq hdrop hlong, rfl⟩ <;> rw [hhdr] <;> rfl

theorem parseInsKeyCmd_of_record {flags certFmt hashAlg srcIndex tgtIndex : UInt8} {keyLoc : Nat} {tail : List UInt8}
    (hlen : hdrLen hdr = .ok (12 + tail.length)) (hle : 12 + tail.length ≤ hdr.length)
    (hfit : offset + (12 + tail.length) ≤ csfLen)
    (hhdr : hdr = (Rec.insKey flags certFmt hashAlg srcIndex tgtIndex keyLoc tail).encode ++ u)
    (hvalid : (Rec.insKey flags certFmt hashAlg srcIndex tgtIndex keyLoc tail).FieldsValid)
    (heffect : (Rec.insKey flags certFmt hashAlg srcIndex tgtIndex keyLoc tail).effect e offset out = .ok out') :
    parseInsKeyCmd e hdr csfLen offset out = .ok (12 + tail.length, out') := by
  obtain ⟨hflags, hcert, hhash, hsrc, htgt, hkeyLt⟩ := hvalid
  have hword : fromBe32 hdr 8 = .ok keyLoc := by
    refine fromBe32_eq_ok.mpr ⟨hkeyLt, ?_⟩
    rw [hhdr]
    simp [Rec.encode, be16]
  simp only [parseInsKeyCmd, bind_eq_ok, byte_eq_ok, validate_eq_ok, pure_eq_ok]
  refine ⟨(), debugDump_eq_ok hlen hle, habCmdInsKey, ?_, (), rfl, flags, ?_, (), hflags, _, hlen, (), hfit, certFmt, ?_,
    (), hcert, hashAlg, ?_, (), hhash, srcIndex, ?_, (), hsrc, tgtIndex, ?_, (), htgt, keyLoc, hword, out', heffect,
    rfl⟩ <;> rw [hhdr] <;> rfl

theorem parseAutDatCmd_of_record {flags key sigFmt engine engCfg : UInt8} {sigLoc : Nat} {regions : List (Nat × Nat)}
    (hlen : hdrLen hdr = .ok (regions.length * 8 + 12)) (hle : regions.length * 8 + 12 ≤ hdr.length)
    (hfit : offset + (regions.length * 8 + 12) ≤ csfLen)
    (hhdr : hdr = (Rec.autDat flags key sigFmt engine engCfg sigLoc regions).encode ++ u)
    (hvalid : (Rec.autDat flags key sigFmt engine engCfg sigLoc regions).FieldsValid) :
    parseAutDatCmd e hdr csfLen offset out = .ok (regions.length * 8 + 12,
      out.report (.autDat (regions.length * 8 + 12) flags key sigFmt engine engCfg sigLoc
        (if regions.length < habCaamBlockMax then regions else []))) := by
  obtain ⟨hflags, hkey, hsigFmt, hengine, hcfg, hchain, hblocks, hsigLocLt, hregions⟩ := hvalid
  have hcount : autDatRegions hdr (regions.length * 8 + 12) = .ok regions.length := by
    have hdiv : (regions.length * 8 + 12 - 12) / 8 = regions.length := by omega
    have hbyte : byte hdr 6 = .ok engine := by
      rw [byte_eq_ok, hhdr]
      rfl
    rw [autDatRegions, hdiv]
    split
    case isTrue hlt =>
      simp only [minAutDatCmdLen] at hlt
      simp only [bind_eq_ok, pure_eq_ok]
      exact ⟨engine, hbyte, (), (validateBlocks_eq_ok (by omega)).mpr hblocks, trivial⟩
    case isFalse hge =>
      simp only [minAutDatCmdLen] at hge
      exact congrArg Except.ok (by omega)
  have hbyte (k : Nat) (b : UInt8) (hk : k < 12) (h : hdr[k]? = some b) :
      byte (hdr.take (regions.length * 8 + 12)) k = .ok b := by
    rw [byte_take (by omega), byte_eq_ok, h]
  have hword : fromBe32 (hdr.take (regions.length * 8 + 12)) 8 = .ok sigLoc := by
    rw [fromBe32_take (by omega)]
    refine fromBe32_eq_ok.mpr ⟨hsigLocLt, ?_⟩
    rw [hhdr]
    simp [Rec.encode, be16]
  have hcopy : hdrLen (hdr.take (regions.length * 8 + 12)) = .ok (regions.length * 8 + 12) := by
    rw [hdrLen_take (by omega), hlen]
  have hread : readRegions (hdr.take (regions.length * 8 + 12)) 12
      (if regions.length < habCaamBlockMax then regions.length else 0) =
        .ok (if regions.length < habCaamBlockMax then regions else []) := by
    split_ifs
    · refine readRegions_of_prefix hregions ⟨[], ?_⟩
      rw [hhdr]
      simp [Rec.encode, be16, be32, List.take_left' (flatMap_encodeRegion_length regions)]
    · rfl
  simp only [parseAutDatCmd, bind_eq_ok, validate_eq_ok, pure_eq_ok]
  refine ⟨_, hlen, _, hcount, _, copyToHeap_eq_ok.mpr ⟨by omega, hle, rfl⟩, (), debugDump_eq_ok hcopy hle, habCmdAutDat,
    hbyte _ _ (by omega) ?_, (), rfl, flags, hbyte _ _ (by omega) ?_, (), hflags, _, hcopy, (), hfit, key,
    hbyte _ _ (by omega) ?_, (), hkey, sigFmt, hbyte _ _ (by omega) ?_, (), hsigFmt, engine, hbyte _ _ (by omega) ?_, (),
    hengine, engCfg, hbyte _ _ (by omega) ?_, (), hcfg, (), hchain, sigLoc, hword, _, hread, rfl⟩ <;> rw [hhdr] <;> rfl

/-- The parser of its tag reads a record. -/
theorem parseTag_of_record {r : Record} (hencode : r.fields.encode <+: hdr)
    (hfit : r.fields.len ≤ hdr.length) (heffect : r.fields.effect e offset out = .ok out') :
    parseTag e hdr (offset + hdr.length) offset out r.fields.tag = .ok (r.fields.size, out') := by
  have hlen := hdrLen_of_encode hencode
  have hle : offset + r.fields.len ≤ offset + hdr.length := by omega
  obtain ⟨u, hhdr⟩ := hencode
  obtain ⟨fields, hvalid, hlt⟩ := r
  cases fields with
  | csfHdr len version =>
    obtain rfl := Except.ok.inj heffect
    exact parseCsfHdr_of_record hlen hle hhdr.symm hvalid
  | insKey flags certFmt hashAlg srcIndex tgtIndex keyLoc tail =>
    exact parseInsKeyCmd_of_record hlen hfit hle hhdr.symm hvalid heffect
  | autDat flags key sigFmt engine engCfg sigLoc regions =>
    obtain rfl := Except.ok.inj heffect
    exact parseAutDatCmd_of_record hlen hfit hle hhdr.symm hvalid
  | unlock cmd engine features tail =>
    obtain rfl := Except.ok.inj heffect
    rcases hvalid.1 with rfl | rfl
    · exact parseUnlockCmd_of_record hlen hfit hle hhdr.symm hvalid
    · exact parseUnlockCmd_of_record hlen hfit hle hhdr.symm hvalid
  | set res alg engine engCfg tail =>
    obtain rfl := Except.ok.inj heffect
    exact parseSetCmd_of_record hlen hfit hle hhdr.symm hvalid
  | crt version cert =>
    obtain rfl := Except.ok.inj heffect
    exact parseCertSec_of_record hlen hfit hle hhdr.symm hvalid
  | sig version data =>
    exact parseSigSec_of_record hlen hfit hle hhdr.symm hvalid heffect
  | mac version res₁ res₂ nonce value =>
    obtain rfl := Except.ok.inj heffect
    exact parseMacSec_of_record hlen hfit hle hhdr.symm hvalid

end OfRecord

end Am437x.Csf
