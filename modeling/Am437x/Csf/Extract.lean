import Am437x.Csf.Parser

/-!
# The CSF of a signed image (`extract_csf`)

An image vector table is at a multiple of four in the image. It has the address of the CSF and its own address;
the difference says where in the image the CSF is.
-/

namespace Am437x.Csf

open Records

/-- A word as a little endian host loads it. -/
def le32 (d : List UInt8) (k : Nat) : Except Stop Nat := do
  let b₀ ← byte d k
  let b₁ ← byte d (k + 1)
  let b₂ ← byte d (k + 2)
  let b₃ ← byte d (k + 3)
  pure (b₀.toNat ||| b₁.toNat <<< 8 ||| b₂.toNat <<< 16 ||| b₃.toNat <<< 24)

def ivtHdrVal : Nat := 0x402000d1

def ivtHdrMask : Nat := 0xf0ffffff

def ivtSize : Nat := 32

/-- The scan for the header of a table, from a position on; `none` when the fuel does not last. The difference of
the size of the image and that of a table has no sign, so an image that is smaller than a table has no bound. -/
def findIvt (buf : List UInt8) : Nat → Nat → Option (Except Stop Nat)
  | 0, _ => none
  | fuel + 1, pos =>
    match le32 buf pos with
    | .error s => some (.error s)
    | .ok header =>
      if header &&& ivtHdrMask = ivtHdrVal then some (.ok pos)
      else if ivtSize ≤ buf.length ∧ buf.length - ivtSize < pos + 4 then some (.error .fail)
      else findIvt buf fuel (pos + 4)

/-- The sum and difference of words of 32 bits. -/
def csfOffset (pos self csf : Nat) : Nat := (pos + csf + (4294967296 - self)) % 4294967296

def csfBinName : List Char := outputDir ++ ['c', 's', 'f', '.', 'b', 'i', 'n']

/-- The CSF at a position, and the file that it is written to. -/
def csfAt (canOpen : List Char → Bool) (buf : List UInt8) (csf csfPos : Nat) : Except Stop (Nat × List UInt8) := do
  validate (¬(csf ≠ 0 ∧ buf.length - habHdrSize < csfPos))
  let tag ← byte buf csfPos
  validate (tag = habTagCsf)
  let len ← hdrLen (buf.drop csfPos)
  validate (csfPos + len < buf.length)
  if canOpen csfBinName then pure (csfPos, buf.drop csfPos) else .error .noFile

/-- The CSF of the table at a position; the debug log has all words of the table. -/
def csfOfIvt (debugLog : Bool) (canOpen : List Char → Bool) (buf : List UInt8) (pos : Nat) :
    Except Stop (Nat × List UInt8) := do
  let _ ← slice buf pos (if debugLog then ivtSize else 0)
  let csf ← le32 buf (pos + 24)
  let self ← le32 buf (pos + 20)
  csfAt canOpen buf csf (csfOffset pos self csf)

def extractCsf (debugLog : Bool) (canOpen : List Char → Bool) (buf : List UInt8) :
    Option (Except Stop (Nat × List UInt8)) :=
  match findIvt buf (buf.length + 1) 0 with
  | none => none
  | some (.error s) => some (.error s)
  | some (.ok pos) => some (csfOfIvt debugLog canOpen buf pos)

/-- The option `-c`: the file is a CSF. -/
def parseBinary (debugLog : Bool) (canOpen : List Char → Bool) (buf : List UInt8) : Option (Except Stop Out) :=
  parseCsf ⟨buf, 0, debugLog, canOpen⟩

/-- The option `-s`: the file is a signed image. -/
def parseImage (debugLog : Bool) (canOpen : List Char → Bool) (buf : List UInt8) : Option (Except Stop Out) :=
  match extractCsf debugLog canOpen buf with
  | none => none
  | some (.error s) => some (.error s)
  | some (.ok (csfPos, _)) => parseCsf ⟨buf, csfPos, debugLog, canOpen⟩

end Am437x.Csf
