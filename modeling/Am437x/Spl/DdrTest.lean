import Am437x.Lib.Loops
import Am437x.Lib.Ram

/-!
# The DDR test of the SPL (`ddr_read_write_test`)

A pattern is written to all words of a range, except a window that holds the running SPL, and then read
back. Both sweeps toggle a GPIO output now and then. The memory and the registers share one address space.
-/

namespace Am437x.Spl

open Faults Loops

abbrev Word := BitVec 32

def testPattern : Word := 0xA5A5A5A5

def ddrSize : Nat := 0x20000000

/-- How many words are tested between two toggles. -/
def togglePeriod : Nat := 1024 * 1024 * 5

/-! ## Addresses -/

def pinmux : Nat := 0x44e10a3c

def gpioOe : Nat := 0x48322134

def gpioDataOut : Nat := 0x4832213c

def registers : List Nat := [pinmux, gpioOe, gpioDataOut]

/-- The arguments of the test: a range of the 32-bit address space that starts at a word. -/
structure DdrRange where
  base : Nat
  size : Nat
  aligned : 4 ∣ base
  fits : base + size ≤ 2 ^ 32

def DdrRange.words (r : DdrRange) : Nat := r.size / 4

/-- `&ddr_base_addr[i]` -/
def DdrRange.addr (r : DdrRange) (i : Nat) : Nat := (r.base + 4 * i) % 2 ^ 32

/-- The window that both sweeps skip. -/
def Skipped (a : Nat) : Prop := 0x81f00000 ≤ a ∧ 0x82000000 ≥ a

instance : DecidablePred Skipped := fun _ => inferInstanceAs (Decidable (_ ∧ _))

/-! ## The test -/

/-- The memory, the global `ztoggle`, and what has been stored and compared so far. -/
structure Tester (μ : Type*) where
  mem : μ
  ztoggle : Int
  stores : List (Nat × Word)
  compared : List Nat

def Tester.start {μ : Type*} (mem : μ) (ztoggle : Int) : Tester μ where
  mem := mem
  ztoggle := ztoggle
  stores := []
  compared := []

variable {μ : Type*} (ram : Ram Nat Word μ)

def Tester.store (s : Tester μ) (a : Nat) (v : Word) : Tester μ :=
  { s with mem := ram.write s.mem a v, stores := s.stores ++ [(a, v)] }

/-- The read of a comparison. -/
def Tester.load (s : Tester μ) (a : Nat) : Word × Tester μ :=
  (ram.read s.mem a, { s with compared := s.compared ++ [a] })

def splWdreset (s : Tester μ) : Tester μ :=
  if s.ztoggle = 0 then { s with ztoggle := 1 }.store ram gpioDataOut 0x00000000
  else { s with ztoggle := 0 }.store ram gpioDataOut 0x00000200

def setupRegisters (s : Tester μ) : Tester μ :=
  ((s.store ram pinmux 0x08040007).store ram gpioOe 0xfffffdff).store ram gpioDataOut 0x00000200

/-- Step 1 for one index. -/
def writeWord (r : DdrRange) (s : Tester μ) (i : Nat) : Tester μ :=
  if Skipped (r.addr i) then s
  else
    let s := s.store ram (r.addr i) testPattern
    if i % togglePeriod = 0 then splWdreset ram s else s

/-- Step 2 for one index. -/
def verifyWord (r : DdrRange) (s : Tester μ) (i : Nat) : Turn (Tester μ) (Tester μ) :=
  if Skipped (r.addr i) then .again s
  else
    let (word, s) := s.load ram (r.addr i)
    if word ≠ testPattern then .left s
    else .again (if i % togglePeriod = 0 then splWdreset ram s else s)

def ddrReadWriteTest (r : DdrRange) (s : Tester μ) : Int × Tester μ :=
  let s := setupRegisters ram s
  let s := (List.range r.words).foldl (writeWord ram r) s
  match loop (verifyWord ram r) s (List.range r.words) with
  | .again s => (0, s)
  | .left s => (-1, s)

/-! ## What a memory is tested for -/

def setupWrites : List (Nat × Word) :=
  [(pinmux, 0x08040007), (gpioOe, 0xfffffdff), (gpioDataOut, 0x00000200)]

/-- How often a sweep toggles the GPIO output before it comes to the index `n`. -/
def DdrRange.toggles (r : DdrRange) (n : Nat) : Nat :=
  (List.range n).countP fun i => ¬ Skipped (r.addr i) ∧ i % togglePeriod = 0

/-- The toggle number `k`; the two values take turns. -/
def toggleWrite (ztoggle : Int) (k : Nat) : Nat × Word :=
  (gpioDataOut, if ztoggle = 0 ↔ k % 2 = 0 then 0x00000000 else 0x00000200)

/-- What is written to the memory by the first sweep, before the index `n`. -/
def DdrRange.patternWrites (r : DdrRange) (ztoggle : Int) (n : Nat) : List (Nat × Word) :=
  (List.range n).flatMap fun i =>
    if Skipped (r.addr i) then []
    else if i % togglePeriod = 0 then
      [(r.addr i, testPattern), toggleWrite ztoggle (r.toggles i)]
    else [(r.addr i, testPattern)]

/-- What is written by the second sweep, before the index `n`: the GPIO output only. -/
def DdrRange.verifyWrites (r : DdrRange) (ztoggle : Int) (n : Nat) : List (Nat × Word) :=
  (List.range n).flatMap fun i =>
    if ¬ Skipped (r.addr i) ∧ i % togglePeriod = 0 then
      [toggleWrite ztoggle (r.toggles r.words + r.toggles i)]
    else []

/-- Every word of the range outside the window reads as the pattern, when the pattern has been written to
all of these words and the GPIO output has been toggled in between. -/
def DdrRange.KeepsPattern (r : DdrRange) (mem : μ) (ztoggle : Int) : Prop :=
  ∀ i < r.words, ¬ Skipped (r.addr i) →
    ram.read (ram.writes mem
        (setupWrites ++ r.patternWrites ztoggle r.words ++ r.verifyWrites ztoggle i)) (r.addr i) =
      testPattern

/-! ## What the test is for -/

/-- The words of the range outside the window. -/
def DdrRange.Tested (r : DdrRange) (a : Nat) : Prop :=
  r.base ≤ a ∧ a < r.base + 4 * r.words ∧ 4 ∣ a ∧ ¬ Skipped a

instance (r : DdrRange) : DecidablePred r.Tested := fun _ =>
  inferInstanceAs (Decidable (_ ∧ _ ∧ _ ∧ _))

/-- Only tested words are written, with the pattern, and compared; the registers apart. -/
structure Footprint (r : DdrRange) (s : Tester μ) : Prop where
  stores : ∀ w ∈ s.stores, r.Tested w.1 ∧ w.2 = testPattern ∨ w.1 ∈ registers
  compared : ∀ a ∈ s.compared, r.Tested a

/-- Independent words: `f a v` is what the word at `a` reads after it was written with `v`. -/
def independentWords (f : Nat → Word → Word) : Ram Nat Word (Nat → Word) := decoded id f

/-- The values that `spl_wdreset` writes. -/
def Toggled (v : Word) : Prop := v = 0x00000000 ∨ v = 0x00000200

/-- The verdict and the footprint of the test. When it is about the pattern, it leaves out the register
that the test toggles: this one holds a toggled value when it is compared. -/
structure ExactTest (f : Nat → Word → Word) (r : DdrRange) (out : Int × Tester (Nat → Word)) : Prop where
  verdict : ∃ toggled, Toggled toggled ∧ (out.1 = 0 ↔ ∀ a, r.Tested a →
    f a (if a = gpioDataOut then toggled else testPattern) = testPattern)
  otherwise : out.1 = 0 ∨ out.1 = -1
  footprint : Footprint r out.2
  covered : ∀ a, r.Tested a → (a, testPattern) ∈ out.2.stores

end Am437x.Spl
