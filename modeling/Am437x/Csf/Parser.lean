import Am437x.Lib.Records

/-!
# The CSF parser

A command sequence file is a list of commands and data sections. Each begins with a tag, its length in big
endian and a byte for flags, an engine or a version. `parse_csf` goes from one to the next, validates its
fields, reports them and extracts keys and signatures to files.

The parser reads memory that it was not given, and writes past a block of the heap, on some inputs. The model
stops there. The parser adds an offset and a length of 16 bits as `int`; the sums here do not overflow, as in an
image of at most `2 ^ 31 - 2 ^ 16` bytes.
-/

namespace Am437x.Csf

open Records

/-- How a parser ends without a result. -/
inductive Stop
  /-- `FAIL` is returned -/
  | fail
  /-- bytes are read that are not in the image, or that were never written to the heap -/
  | overread
  /-- bytes are written past the end of a heap block -/
  | overflow
  /-- `fclose` gets the null pointer of a file that could not be opened -/
  | noFile
  deriving DecidableEq, Repr

/-! ## Constants of the format -/

abbrev habTagCsf : UInt8 := 0xD4
abbrev habTagCrt : UInt8 := 0xD7
abbrev habTagSig : UInt8 := 0xD8
abbrev habTagMac : UInt8 := 0xAC
abbrev habCmdInsKey : UInt8 := 0xBE
abbrev habCmdAutDat : UInt8 := 0xCA
abbrev habCmdSet : UInt8 := 0xB1
abbrev habCmdInit : UInt8 := 0xB4
abbrev habCmdUnlk : UInt8 := 0xB2

abbrev habEngAny : UInt8 := 0x00
abbrev habEngCaam : UInt8 := 0x1D
abbrev habEngSnvs : UInt8 := 0x1E
abbrev habEngOcotp : UInt8 := 0x21
abbrev habEngSw : UInt8 := 0xFF
abbrev habEngSahara : UInt8 := 0x06
abbrev habEngDcp : UInt8 := 0x1b
abbrev habEngRtic : UInt8 := 0x05

abbrev habPclSrk : UInt8 := 0x03
abbrev habPclX509 : UInt8 := 0x09
abbrev habPclBlob : UInt8 := 0xbb

abbrev habAlgNoAlg : UInt8 := 0x00
abbrev habAlgSha1 : UInt8 := 0x11
abbrev habAlgSha256 : UInt8 := 0x17
abbrev habAlgSha512 : UInt8 := 0x1b

abbrev habVarCfgItmEng : UInt8 := 0x03
abbrev habCmdAutDatPclCms : UInt8 := 0xC5
abbrev habCmdAutDatPclAead : UInt8 := 0xA3
abbrev habEngConfMask : UInt8 := 0xDB

abbrev habHdrSize : Nat := 4
abbrev minAutDatCmdLen : Nat := 12
abbrev minUnlkCmdLen : Nat := 8
abbrev habCaamBlockMax : Nat := 8
abbrev habDcpBlockMax : Nat := 6
abbrev habSaharaBlockMax : Nat := 12

/-! ## The image and the results -/

structure Env where
  img : List UInt8
  /-- where the CSF begins; it goes to the end of the image -/
  csfPos : Nat
  debugLog : Bool
  /-- the files that `fopen` can create -/
  canOpen : List Char → Bool

def Env.csf (e : Env) : List UInt8 := e.img.drop e.csfPos

def Env.csfLen (e : Env) : Nat := e.csf.length

/-- What is reported of a record. -/
inductive Item
  | csfHdr (len : Nat) (version : UInt8)
  | insKey (len : Nat) (flags certFmt hashAlg srcIndex tgtIndex : UInt8) (keyLoc : Nat)
  | autDat (len : Nat) (flags key sigFmt engine engCfg : UInt8) (sigLoc : Nat) (regions : List (Nat × Nat))
  | unlock (cmd : UInt8) (len : Nat) (engine : UInt8) (features : Nat) (uid : Option Nat)
  | set (len : Nat) (alg engine engCfg : UInt8)
  | crt (len : Nat) (version : UInt8) (certOffset : Nat)
  | sig (len : Nat) (version : UInt8) (sigOffset : Nat)
  | mac (len : Nat) (version : UInt8) (nonce mac : List UInt8)
  deriving DecidableEq, Repr

structure Out where
  items : List Item
  /-- the files in the order they are written -/
  files : List (List Char × List UInt8)
  certCount : Nat
  sigCount : Nat
  deriving DecidableEq, Repr

def Out.empty : Out := ⟨[], [], 0, 0⟩

def Out.report (out : Out) (i : Item) : Out := { out with items := out.items ++ [i] }

/-! ## Reads and checks -/

def validate (p : Prop) [Decidable p] : Except Stop Unit := if p then .ok () else .error .fail

def byte (d : List UInt8) (k : Nat) : Except Stop UInt8 :=
  match d[k]? with
  | some b => .ok b
  | none => .error .overread

def slice (d : List UInt8) (k n : Nat) : Except Stop (List UInt8) :=
  if k + n ≤ d.length then .ok ((d.drop k).take n) else .error .overread

/-- `HAB_HDR_LEN` -/
def hdrLen (d : List UInt8) : Except Stop Nat := do
  let hi ← byte d 1
  let lo ← byte d 2
  pure (hi.toNat <<< 8 ||| lo.toNat)

/-- A word of the image, after `from_be32`. -/
def fromBe32 (d : List UInt8) (k : Nat) : Except Stop Nat := do
  let b₀ ← byte d k
  let b₁ ← byte d (k + 1)
  let b₂ ← byte d (k + 2)
  let b₃ ← byte d (k + 3)
  pure (b₀.toNat <<< 24 ||| b₁.toNat <<< 16 ||| b₂.toNat <<< 8 ||| b₃.toNat)

/-- `malloc` of a block and `memcpy` to it. -/
def copyToHeap (block : Nat) (d : List UInt8) (n : Nat) : Except Stop (List UInt8) :=
  if block < n then .error .overflow else slice d 0 n

/-- The debug log has the bytes of the record. -/
def debugDump (e : Env) (hdr src : List UInt8) : Except Stop Unit :=
  if e.debugLog then do
    let n ← hdrLen hdr
    let _ ← slice src 0 n
    pure ()
  else pure ()

/-- The debug log of the first header has its bytes only. -/
def debugDumpHdr (e : Env) (hdr : List UInt8) : Except Stop Unit :=
  if e.debugLog then do
    let _ ← slice hdr 0 habHdrSize
    pure ()
  else pure ()

def writeFile (e : Env) (name : List Char) (data : Except Stop (List UInt8)) (out : Out) : Except Stop Out :=
  if e.canOpen name then do
    let bytes ← data
    pure { out with files := out.files ++ [(name, bytes)] }
  else .error .noFile

def isVersion (v : UInt8) : Prop := v = 0x40 ∨ v = 0x41 ∨ v = 0x42

instance : DecidablePred isVersion := fun _ => inferInstanceAs (Decidable (_ ∨ _))

/-- The length of a section up to the next word. -/
def padded (len : Nat) : Nat := if len &&& 3 ≠ 0 then len + (habHdrSize - (len &&& 3)) else len

def outputDir : List Char := ['o', 'u', 't', 'p', 'u', 't', '/']

/-- "output/sig%d.bin", in a buffer of 16 bytes -/
def sigName (n : Nat) : List Char :=
  (outputDir ++ ['s', 'i', 'g'] ++ Nat.toDigits 10 n ++ ['.', 'b', 'i', 'n']).take 15

/-- "output/cert%d.der", in a buffer of 17 bytes -/
def certName (n : Nat) : List Char :=
  (outputDir ++ ['c', 'e', 'r', 't'] ++ Nat.toDigits 10 n ++ ['.', 'd', 'e', 'r']).take 16

/-- "output/SRKTable.bin" -/
def srkTableName : List Char :=
  outputDir ++ ['S', 'R', 'K', 'T', 'a', 'b', 'l', 'e', '.', 'b', 'i', 'n']

/-! ## The parsers of the records -/

section Parsers

/-! `hdr` is the CSF from the record on. -/

variable (e : Env) (hdr : List UInt8) (csfLen offset : Nat) (out : Out)

def parseMacSec : Except Stop (Nat × Out) := do
  debugDump e hdr hdr
  let tag ← byte hdr 0
  validate (tag = habTagMac)
  let version ← byte hdr 3
  validate (isVersion version)
  let len ← hdrLen hdr
  validate (offset + len ≤ csfLen)
  let nonceBytes ← byte hdr 5
  let macBytes ← byte hdr 7
  validate (len = nonceBytes.toNat + macBytes.toNat + habHdrSize + habHdrSize)
  let mac ← copyToHeap len hdr len
  let nonce ← slice mac 8 nonceBytes.toNat
  let value ← slice mac (8 + nonceBytes.toNat) macBytes.toNat
  pure (len, out.report (.mac len version nonce value))

def parseSigSec : Except Stop (Nat × Out) := do
  debugDump e hdr hdr
  let tag ← byte hdr 0
  validate (tag = habTagSig)
  let version ← byte hdr 3
  validate (isVersion version)
  let len ← hdrLen hdr
  validate (offset + len ≤ csfLen)
  let sec ← copyToHeap len hdr len
  let version ← byte sec 3
  let len ← hdrLen sec
  let data := slice sec habHdrSize (len - habHdrSize)
  let out ← writeFile e (sigName out.sigCount) data (out.report (.sig len version (offset + habHdrSize)))
  pure (padded len, { out with sigCount := out.sigCount + 1 })

def parseCertSec : Except Stop (Nat × Out) := do
  debugDump e hdr hdr
  let tag ← byte hdr 0
  validate (tag = habTagCrt)
  let version ← byte hdr 3
  validate (isVersion version)
  let len ← hdrLen hdr
  validate (offset + len ≤ csfLen)
  pure (padded len, out.report (.crt len version (offset + habHdrSize)))

/-- The chain at the end of a parser that prints the configuration of an engine. -/
def confPrinted (engines : List UInt8) (engine engCfg : UInt8) : Prop :=
  engine = habEngAny ∧ engCfg = 0 ∨ engine ∈ engines ∨ engine = habEngSw ∧ engCfg = 0

instance (engines : List UInt8) (engine engCfg : UInt8) : Decidable (confPrinted engines engine engCfg) :=
  inferInstanceAs (Decidable (_ ∨ _))

def parseSetCmd : Except Stop (Nat × Out) := do
  debugDump e hdr hdr
  let cmd ← byte hdr 0
  validate (cmd = habCmdSet)
  let cfgItm ← byte hdr 3
  validate (cfgItm = habVarCfgItmEng)
  let alg ← byte hdr 5
  validate (alg = habAlgSha1 ∨ alg = habAlgSha256 ∨ alg = habAlgSha512)
  let engine ← byte hdr 6
  validate (engine ∈ [habEngAny, habEngCaam, habEngDcp, habEngSahara, habEngRtic, habEngSw])
  let len ← hdrLen hdr
  validate (offset + len ≤ csfLen)
  let engCfg ← byte hdr 7
  validate (engCfg &&& ~~~habEngConfMask = 0)
  validate (confPrinted [habEngCaam, habEngDcp, habEngSahara, habEngRtic] engine engCfg)
  pure (len, out.report (.set len alg engine engCfg))

/-- The unique identifier is printed for a command that is longer than its fixed part. -/
def unlockUid (cmd engine : UInt8) (len : Nat) : Except Stop (Option Nat) :=
  if cmd = habCmdUnlk ∧ engine = habEngOcotp ∧ minUnlkCmdLen < len then do
    let high ← fromBe32 hdr 8
    let low ← fromBe32 hdr 12
    pure (some (high <<< 32 ||| low))
  else pure none

def parseUnlockCmd : Except Stop (Nat × Out) := do
  debugDump e hdr hdr
  let cmd ← byte hdr 0
  validate (cmd = habCmdUnlk ∨ cmd = habCmdInit)
  let engine ← byte hdr 3
  validate (engine = habEngCaam ∨ engine = habEngSnvs ∨ engine = habEngOcotp)
  let len ← hdrLen hdr
  validate (offset + len ≤ csfLen)
  let features ← fromBe32 hdr 4
  validate (features < 16)
  let uid ← unlockUid hdr cmd engine len
  pure (len, out.report (.unlock cmd len engine features uid))

/-- The number of regions must suit the engine. -/
def validateBlocks (engine : UInt8) (nregions : Nat) : Except Stop Unit :=
  if engine = habEngCaam then validate (nregions < habCaamBlockMax ∧ 0 < nregions)
  else if engine = habEngDcp then validate (nregions < habDcpBlockMax ∧ 0 < nregions)
  else if engine = habEngSahara then validate (nregions < habSaharaBlockMax ∧ 0 < nregions)
  else pure ()

/-- The number of regions in a command that is longer than its fixed part. -/
def autDatRegions (len : Nat) : Except Stop Nat :=
  if minAutDatCmdLen < len then do
    let engine ← byte hdr 6
    validateBlocks engine ((len - 12) / 8)
    pure ((len - 12) / 8)
  else pure 0

def readRegions (d : List UInt8) : Nat → Nat → Except Stop (List (Nat × Nat))
  | _, 0 => pure []
  | k, n + 1 => do
    let address ← fromBe32 d k
    let size ← fromBe32 d (k + 4)
    let rest ← readRegions d (k + 8) n
    pure ((address, size) :: rest)

def parseAutDatCmd : Except Stop (Nat × Out) := do
  let len ← hdrLen hdr
  let nregions ← autDatRegions hdr len
  -- the block has room for whole regions, the record is copied with its length
  let cmd ← copyToHeap (12 + nregions * 8) hdr len
  debugDump e cmd hdr
  let tag ← byte cmd 0
  validate (tag = habCmdAutDat)
  let flags ← byte cmd 3
  validate (flags = 0 ∨ flags = 1)
  let len ← hdrLen cmd
  validate (offset + len ≤ csfLen)
  let key ← byte cmd 4
  validate (key < 5)
  let sigFmt ← byte cmd 5
  validate (sigFmt = habCmdAutDatPclCms ∨ sigFmt = habCmdAutDatPclAead)
  let engine ← byte cmd 6
  validate (engine ∈ [habEngAny, habEngCaam, habEngDcp, habEngSahara, habEngSw])
  let engCfg ← byte cmd 7
  validate (engCfg &&& ~~~habEngConfMask = 0)
  validate (confPrinted [habEngCaam, habEngDcp, habEngSahara] engine engCfg)
  let sigLoc ← fromBe32 cmd 8
  -- regions are reported up to the number that suits the CAAM, for every engine
  let regions ← readRegions cmd 12 (if nregions < habCaamBlockMax then nregions else 0)
  pure (len, out.report (.autDat len flags key sigFmt engine engCfg sigLoc regions))

/-- The section that a key location is about: the difference to the offset of the command is an `int`. -/
def Env.keySection (e : Env) (offset keyLoc : Nat) : Except Stop (List UInt8) :=
  let pos : Int := e.csfPos + offset + ((keyLoc : Int) - offset).bmod (2 ^ 32)
  if 0 ≤ pos then .ok (e.img.drop pos.toNat) else .error .overread

def srkTableData (offset keyLoc : Nat) : Except Stop (List UInt8) := do
  let sec ← e.keySection offset keyLoc
  let len ← hdrLen sec
  slice sec 0 len

def certData (offset keyLoc : Nat) : Except Stop (List UInt8) := do
  let sec ← e.keySection offset keyLoc
  let len ← hdrLen sec
  -- a length below that of a header is a huge size for `fwrite`
  if len < habHdrSize then .error .overread else slice sec habHdrSize (len - habHdrSize)

def srcIndexValid (certFmt srcIndex : UInt8) : Prop :=
  if certFmt = habPclSrk ∨ certFmt = habPclBlob then srcIndex < 4 else srcIndex = 0 ∨ 1 < srcIndex ∧ srcIndex < 6

instance (certFmt srcIndex : UInt8) : Decidable (srcIndexValid certFmt srcIndex) := by
  unfold srcIndexValid
  infer_instance

def tgtIndexValid (certFmt tgtIndex : UInt8) : Prop :=
  if certFmt = habPclSrk then tgtIndex = 0
  else if certFmt = habPclBlob then tgtIndex < 4
  else 0 < tgtIndex ∧ tgtIndex < 6

instance (certFmt tgtIndex : UInt8) : Decidable (tgtIndexValid certFmt tgtIndex) := by
  unfold tgtIndexValid
  infer_instance

/-- The file that a key is extracted to. -/
def extractKey (certFmt : UInt8) (offset keyLoc : Nat) (out : Out) : Except Stop Out :=
  if certFmt = habPclSrk then writeFile e srkTableName (srkTableData e offset keyLoc) out
  else if certFmt = habPclX509 then do
    let out ← writeFile e (certName out.certCount) (certData e offset keyLoc) out
    pure { out with certCount := out.certCount + 1 }
  else pure out

def parseInsKeyCmd : Except Stop (Nat × Out) := do
  debugDump e hdr hdr
  let cmd ← byte hdr 0
  validate (cmd = habCmdInsKey)
  let flags ← byte hdr 3
  validate (flags = 0 ∨ flags = 1 ∨ flags = 2)
  let len ← hdrLen hdr
  validate (offset + len ≤ csfLen)
  let certFmt ← byte hdr 4
  validate (certFmt = habPclSrk ∨ certFmt = habPclX509 ∨ certFmt = habPclBlob)
  let hashAlg ← byte hdr 5
  validate (hashAlg = habAlgNoAlg ∨ hashAlg = habAlgSha256)
  let srcIndex ← byte hdr 6
  validate (srcIndexValid certFmt srcIndex)
  let tgtIndex ← byte hdr 7
  validate (tgtIndexValid certFmt tgtIndex)
  let keyLoc ← fromBe32 hdr 8
  let out ← extractKey e certFmt offset keyLoc
    (out.report (.insKey len flags certFmt hashAlg srcIndex tgtIndex keyLoc))
  pure (len, out)

def parseCsfHdr : Except Stop (Nat × Out) := do
  debugDumpHdr e hdr
  let tag ← byte hdr 0
  validate (tag = habTagCsf)
  let version ← byte hdr 3
  validate (isVersion version)
  let len ← hdrLen hdr
  validate (offset + len ≤ csfLen)
  pure (habHdrSize, out.report (.csfHdr len version))

/-- The switch over the tag. -/
def parseTag (tag : UInt8) : Except Stop (Nat × Out) :=
  if tag = habTagCsf then parseCsfHdr e hdr csfLen offset out
  else if tag = habCmdInsKey then parseInsKeyCmd e hdr csfLen offset out
  else if tag = habCmdAutDat then parseAutDatCmd e hdr csfLen offset out
  else if tag = habCmdInit ∨ tag = habCmdUnlk then parseUnlockCmd e hdr csfLen offset out
  else if tag = habCmdSet then parseSetCmd e hdr csfLen offset out
  else if tag = habTagCrt then parseCertSec e hdr csfLen offset out
  else if tag = habTagSig then parseSigSec e hdr csfLen offset out
  else if tag = habTagMac then parseMacSec e hdr csfLen offset out
  else .error .fail

end Parsers

/-- A turn of the loop; a length of zero is `FAIL`. -/
def parseRecord (e : Env) (offset : Nat) (out : Out) : Except Stop (Nat × Out) := do
  let hdr := e.csf.drop offset
  let tag ← byte hdr 0
  let r ← parseTag e hdr e.csfLen offset out tag
  validate (r.1 ≠ 0)
  pure r

/-- The loop of `parse_csf`; each turn takes a byte at least. -/
def parseCsf (e : Env) : Option (Except Stop Out) :=
  if e.csfLen = 0 then some (.error .fail) else walk e.csfLen (parseRecord e) e.csfLen 0 .empty

end Am437x.Csf
