import Am437x.Csf.Parser

/-!
# The format of a CSF

A record is a command or a data section with the values of its fields. A CSF is laid out as records one after
the other, where a certificate or a signature is followed by bytes that fill its last word.
-/

namespace Am437x.Csf

def be16 (n : Nat) : List UInt8 := [UInt8.ofNat (n / 256), UInt8.ofNat n]

def be32 (n : Nat) : List UInt8 :=
  [UInt8.ofNat (n / 16777216), UInt8.ofNat (n / 65536), UInt8.ofNat (n / 256), UInt8.ofNat n]

def beValue (bs : List UInt8) : Nat := bs.foldl (fun n b => n * 256 + b.toNat) 0

inductive Rec
  /-- the length is that of the list of commands that begins here -/
  | csfHdr (len : Nat) (version : UInt8)
  | insKey (flags certFmt hashAlg srcIndex tgtIndex : UInt8) (keyLoc : Nat) (tail : List UInt8)
  | autDat (flags key sigFmt engine engCfg : UInt8) (sigLoc : Nat) (regions : List (Nat × Nat))
  | unlock (cmd engine : UInt8) (features : Nat) (tail : List UInt8)
  | set (res alg engine engCfg : UInt8) (tail : List UInt8)
  | crt (version : UInt8) (cert : List UInt8)
  | sig (version : UInt8) (data : List UInt8)
  | mac (version res₁ res₂ : UInt8) (nonce value : List UInt8)
  deriving DecidableEq, Repr

/-- The length in the header. -/
def Rec.len : Rec → Nat
  | csfHdr len _ => len
  | insKey _ _ _ _ _ _ tail => 12 + tail.length
  | autDat _ _ _ _ _ _ regions => regions.length * 8 + 12
  | unlock _ _ _ tail => 8 + tail.length
  | set _ _ _ _ tail => 8 + tail.length
  | crt _ cert => 4 + cert.length
  | sig _ data => 4 + data.length
  | mac _ _ _ nonce value => nonce.length + value.length + 8

def encodeRegion (r : Nat × Nat) : List UInt8 := be32 r.1 ++ be32 r.2

def Rec.encode (r : Rec) : List UInt8 :=
  match r with
  | csfHdr len version => habTagCsf :: be16 len ++ [version]
  | insKey flags certFmt hashAlg srcIndex tgtIndex keyLoc tail =>
    habCmdInsKey :: be16 r.len ++ [flags, certFmt, hashAlg, srcIndex, tgtIndex] ++ be32 keyLoc ++ tail
  | autDat flags key sigFmt engine engCfg sigLoc regions =>
    habCmdAutDat :: be16 r.len ++ [flags, key, sigFmt, engine, engCfg] ++ be32 sigLoc ++
      regions.flatMap encodeRegion
  | unlock cmd engine features tail => cmd :: be16 r.len ++ engine :: be32 features ++ tail
  | set res alg engine engCfg tail =>
    habCmdSet :: be16 r.len ++ [habVarCfgItmEng, res, alg, engine, engCfg] ++ tail
  | crt version cert => habTagCrt :: be16 r.len ++ version :: cert
  | sig version data => habTagSig :: be16 r.len ++ version :: data
  | mac version res₁ res₂ nonce value =>
    habTagMac :: be16 r.len ++
      [version, res₁, UInt8.ofNat nonce.length, res₂, UInt8.ofNat value.length] ++ nonce ++ value

/-- The bytes up to the next record. -/
def Rec.size : Rec → Nat
  | csfHdr _ _ => habHdrSize
  | crt _ cert => padded (4 + cert.length)
  | sig _ data => padded (4 + data.length)
  | r => r.len

def blocksValid (engine : UInt8) (nregions : Nat) : Prop :=
  (engine = habEngCaam → nregions < habCaamBlockMax) ∧ (engine = habEngDcp → nregions < habDcpBlockMax) ∧
    (engine = habEngSahara → nregions < habSaharaBlockMax)

instance (engine : UInt8) (nregions : Nat) : Decidable (blocksValid engine nregions) :=
  inferInstanceAs (Decidable (_ ∧ _ ∧ _))

/-- What the values of the fields must be. -/
def Rec.FieldsValid : Rec → Prop
  | csfHdr _ version => isVersion version
  | insKey flags certFmt hashAlg srcIndex tgtIndex keyLoc _ =>
    (flags = 0 ∨ flags = 1 ∨ flags = 2) ∧
      (certFmt = habPclSrk ∨ certFmt = habPclX509 ∨ certFmt = habPclBlob) ∧
      (hashAlg = habAlgNoAlg ∨ hashAlg = habAlgSha256) ∧ srcIndexValid certFmt srcIndex ∧
      tgtIndexValid certFmt tgtIndex ∧ keyLoc < 4294967296
  | autDat flags key sigFmt engine engCfg sigLoc regions =>
    (flags = 0 ∨ flags = 1) ∧ key < 5 ∧ (sigFmt = habCmdAutDatPclCms ∨ sigFmt = habCmdAutDatPclAead) ∧
      engine ∈ [habEngAny, habEngCaam, habEngDcp, habEngSahara, habEngSw] ∧
      engCfg &&& ~~~habEngConfMask = 0 ∧
      confPrinted [habEngCaam, habEngDcp, habEngSahara] engine engCfg ∧
      blocksValid engine regions.length ∧ sigLoc < 4294967296 ∧
      ∀ r ∈ regions, r.1 < 4294967296 ∧ r.2 < 4294967296
  | unlock cmd engine features tail =>
    (cmd = habCmdUnlk ∨ cmd = habCmdInit) ∧
      (engine = habEngCaam ∨ engine = habEngSnvs ∨ engine = habEngOcotp) ∧ features < 16 ∧
      (cmd = habCmdUnlk ∧ engine = habEngOcotp → tail = [] ∨ 8 ≤ tail.length)
  | set _ alg engine engCfg _ =>
    (alg = habAlgSha1 ∨ alg = habAlgSha256 ∨ alg = habAlgSha512) ∧
      engine ∈ [habEngAny, habEngCaam, habEngDcp, habEngSahara, habEngRtic, habEngSw] ∧
      engCfg &&& ~~~habEngConfMask = 0 ∧
      confPrinted [habEngCaam, habEngDcp, habEngSahara, habEngRtic] engine engCfg
  | crt version _ | sig version _ => isVersion version
  | mac version _ _ nonce value => isVersion version ∧ nonce.length < 256 ∧ value.length < 256

instance : DecidablePred Rec.FieldsValid := fun r => by
  cases r <;> unfold Rec.FieldsValid <;> infer_instance

/-- A record of the format: its fields are valid, and its length is one that a header can have. -/
structure Record where
  fields : Rec
  valid : fields.FieldsValid
  len_lt : fields.len < 65536

/-! ## What is made of a record -/

/-- The unique identifier behind the features. -/
def uidOf (cmd engine : UInt8) (tail : List UInt8) : Option Nat :=
  if cmd = habCmdUnlk ∧ engine = habEngOcotp ∧ tail ≠ [] then some (beValue (tail.take 8)) else none

def Rec.item (offset : Nat) (r : Rec) : Item :=
  match r with
  | csfHdr len version => .csfHdr len version
  | insKey flags certFmt hashAlg srcIndex tgtIndex keyLoc _ =>
    .insKey r.len flags certFmt hashAlg srcIndex tgtIndex keyLoc
  | autDat flags key sigFmt engine engCfg sigLoc regions =>
    .autDat r.len flags key sigFmt engine engCfg sigLoc
      (if regions.length < habCaamBlockMax then regions else [])
  | unlock cmd engine features tail =>
    .unlock cmd r.len engine features (uidOf cmd engine tail)
  | set _ alg engine engCfg _ => .set r.len alg engine engCfg
  | crt version _ => .crt r.len version (offset + habHdrSize)
  | sig version _ => .sig r.len version (offset + habHdrSize)
  | mac version _ _ nonce value => .mac r.len version nonce value

/-! ## What is extracted -/

/-- The place in the image that a command at an offset gives with a key location: this is counted from the start
of the CSF, modulo `2 ^ 32`, and the distance to the command is an `int`. -/
structure Env.KeyPlace (e : Env) (offset keyLoc place : Nat) : Prop where
  modEq : (place : Int) ≡ e.csfPos + keyLoc [ZMOD 2 ^ 32]
  le_distance : -2 ^ 31 ≤ (place : Int) - (e.csfPos + offset)
  distance_lt : (place : Int) - (e.csfPos + offset) < 2 ^ 31

/-- The image has a section with this length in its header at a place. -/
structure Env.HasSection (e : Env) (place len : Nat) : Prop where
  len_lt : len < 65536
  header : be16 len <+: e.img.drop (place + 1)
  inside : place + len ≤ e.img.length

/-- What a record at an offset is extracted to, with the numbers of the next certificate and the next signature:
the bytes of the section at its key location, the certificate in it, or its own data. -/
inductive Rec.Extracts (e : Env) (offset certs sigs : Nat) : Rec → List (List Char × List UInt8) → Prop
  | srk {flags hashAlg srcIndex tgtIndex : UInt8} {keyLoc place len : Nat} {tail : List UInt8}
    (hplace : e.KeyPlace offset keyLoc place) (hsec : e.HasSection place len)
    (hopen : e.canOpen srkTableName = true) :
    Extracts e offset certs sigs (insKey flags habPclSrk hashAlg srcIndex tgtIndex keyLoc tail)
      [(srkTableName, (e.img.drop place).take len)]
  | x509 {flags hashAlg srcIndex tgtIndex : UInt8} {keyLoc place len : Nat} {tail : List UInt8}
    (hplace : e.KeyPlace offset keyLoc place) (hsec : e.HasSection place len) (hlen : habHdrSize ≤ len)
    (hopen : e.canOpen (certName certs) = true) :
    Extracts e offset certs sigs (insKey flags habPclX509 hashAlg srcIndex tgtIndex keyLoc tail)
      [(certName certs, (e.img.drop (place + habHdrSize)).take (len - habHdrSize))]
  | blob {flags hashAlg srcIndex tgtIndex : UInt8} {keyLoc : Nat} {tail : List UInt8} :
    Extracts e offset certs sigs (insKey flags habPclBlob hashAlg srcIndex tgtIndex keyLoc tail) []
  | sig {version : UInt8} {data : List UInt8} (hopen : e.canOpen (sigName sigs) = true) :
    Extracts e offset certs sigs (sig version data) [(sigName sigs, data)]
  | csfHdr {len : Nat} {version : UInt8} : Extracts e offset certs sigs (csfHdr len version) []
  | autDat {flags key sigFmt engine engCfg : UInt8} {sigLoc : Nat} {regions : List (Nat × Nat)} :
    Extracts e offset certs sigs (autDat flags key sigFmt engine engCfg sigLoc regions) []
  | unlock {cmd engine : UInt8} {features : Nat} {tail : List UInt8} :
    Extracts e offset certs sigs (unlock cmd engine features tail) []
  | set {res alg engine engCfg : UInt8} {tail : List UInt8} :
    Extracts e offset certs sigs (set res alg engine engCfg tail) []
  | crt {version : UInt8} {cert : List UInt8} : Extracts e offset certs sigs (crt version cert) []
  | mac {version res₁ res₂ : UInt8} {nonce value : List UInt8} :
    Extracts e offset certs sigs (mac version res₁ res₂ nonce value) []

/-- How many certificates a record is extracted to. -/
def Rec.certs : Rec → Nat
  | insKey _ certFmt .. => if certFmt = habPclX509 then 1 else 0
  | _ => 0

/-- How many signatures a record is extracted to. -/
def Rec.sigs : Rec → Nat
  | sig .. => 1
  | _ => 0

/-- The records of a CSF from an offset on, and the files that they are extracted to. The bytes that fill the last
word can be missing at the end. -/
inductive Layout (e : Env) : Nat → Nat → Nat → List Record → List (List Char × List UInt8) → Prop
  | nil {o certs sigs : Nat} : e.csfLen ≤ o → Layout e o certs sigs [] []
  | cons {o certs sigs : Nat} {r : Record} {rs : List Record} {files files' : List (List Char × List UInt8)} :
    o < e.csfLen → r.fields.encode <+: e.csf.drop o → o + r.fields.len ≤ e.csfLen →
      r.fields.Extracts e o certs sigs files →
      Layout e (o + r.fields.size) (certs + r.fields.certs) (sigs + r.fields.sigs) rs files' →
      Layout e o certs sigs (r :: rs) (files ++ files')

/-- The records with their offsets, from an offset on. -/
def placed : Nat → List Record → List (Nat × Record)
  | _, [] => []
  | o, r :: rs => (o, r) :: placed (o + r.fields.size) rs

/-- Each record is reported at its offset. -/
def reportOf (o : Nat) (rs : List Record) : List Item := (placed o rs).map fun p => p.2.fields.item p.1

/-- The result for records that are extracted to these files. -/
def resultOf (rs : List Record) (files : List (List Char × List UInt8)) : Out where
  items := reportOf 0 rs
  files := files
  certCount := (rs.map fun r => r.fields.certs).sum
  sigCount := (rs.map fun r => r.fields.sigs).sum

/-- The length that a header says covers the fields of its record. -/
def Item.Covers : Item → Prop
  | .insKey len .. => 12 ≤ len
  | .unlock _ len _ _ uid => 8 ≤ len ∧ (uid.isSome → 16 ≤ len)
  | .set len .. => 8 ≤ len
  | .crt len .. => 4 ≤ len
  | _ => True

instance : DecidablePred Item.Covers := fun i => by
  cases i <;> unfold Item.Covers <;> infer_instance

/-- The records of a list, with zeros that fill the last word of a section. -/
def encodeAll (rs : List Record) : List UInt8 :=
  rs.flatMap fun r => r.fields.encode ++ List.replicate (r.fields.size - r.fields.encode.length) 0

/-! ## A CSF that is written as records -/

/-- What a header says of the length of the CSF is not more than the length. -/
def HeadersFit : List Record → Prop
  | [] => True
  | r :: rs => r.fields.len ≤ (encodeAll (r :: rs)).length ∧ HeadersFit rs

instance HeadersFit.decidable : DecidablePred HeadersFit
  | [] => inferInstanceAs (Decidable True)
  | r :: rs =>
    have := HeadersFit.decidable rs
    inferInstanceAs (Decidable (r.fields.len ≤ (encodeAll (r :: rs)).length ∧ HeadersFit rs))

/-- The certificate of the section at an offset. -/
def certAt (rs : List Record) (keyLoc : Nat) : Option (List UInt8) :=
  match (placed 0 rs).lookup keyLoc with
  | some ⟨.crt _ cert, _, _⟩ => some cert
  | _ => none

/-- The bytes of the section at an offset. -/
def sectionAt (rs : List Record) (keyLoc : Nat) : List UInt8 :=
  match (placed 0 rs).lookup keyLoc with
  | some r => r.fields.encode
  | none => []

/-- The key of a command that is not a blob is a certificate section of the CSF. -/
def KeyPlaced (rs : List Record) : Rec → Prop
  | .insKey _ certFmt _ _ _ keyLoc _ => certFmt ≠ habPclBlob → (certAt rs keyLoc).isSome
  | _ => True

instance (rs : List Record) : DecidablePred (KeyPlaced rs) := fun r => by
  cases r <;> unfold KeyPlaced <;> infer_instance

/-- The files that are extracted from a CSF: the SRK tables, certificates and signatures of its records, with
the numbers that are next. -/
def extracted (all : List Record) : Nat → Nat → List Record → List (List Char × List UInt8)
  | _, _, [] => []
  | certs, sigs, r :: rs =>
    match r.fields with
    | .insKey _ certFmt _ _ _ keyLoc _ =>
      if certFmt = habPclSrk then (srkTableName, sectionAt all keyLoc) :: extracted all certs sigs rs
      else if certFmt = habPclX509 then
        (certName certs, (certAt all keyLoc).getD []) :: extracted all (certs + 1) sigs rs
      else extracted all certs sigs rs
    | .sig _ data => (sigName sigs, data) :: extracted all certs (sigs + 1) rs
    | _ => extracted all certs sigs rs

end Am437x.Csf
