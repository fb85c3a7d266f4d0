import Am437x.Lib.Writes

/-!
# Memories with faults

A memory is given by its read and write operations. In a decoded memory every address selects a cell, so
that two addresses may share one, and what is read back is a function of what the cell was written with.
-/

namespace Faults

open Writes

/-- Memories in `μ` with words in `ν`, addressed by `α`. -/
structure Ram (α ν μ : Type*) where
  read : μ → α → ν
  write : μ → α → ν → μ

variable {α ν μ γ : Type*}

def Ram.writes (ram : Ram α ν μ) (m : μ) (ws : List (α × ν)) : μ :=
  ws.foldl (fun m w => ram.write m w.1 w.2) m

theorem Ram.writes_append (ram : Ram α ν μ) (m : μ) (ws ws' : List (α × ν)) :
    ram.writes m (ws ++ ws') = ram.writes (ram.writes m ws) ws' :=
  List.foldl_append

/-- Distinct words are read back as they were written. -/
def Ram.Independent (ram : Ram α ν μ) (words : α → Prop) (m : μ) : Prop :=
  ∀ ws : List (α × ν), (∀ w ∈ ws, words w.1) → (ws.map Prod.fst).Nodup →
    ∀ w ∈ ws, ram.read (ram.writes m ws) w.1 = w.2

variable [DecidableEq γ]

/-- `sense` is what a cell reads after a write. -/
def decoded (cell : α → γ) (sense : γ → ν → ν) : Ram α ν (γ → ν) where
  read m a := sense (cell a) (m (cell a))
  write m a v := Function.update m (cell a) v

variable {cell : α → γ} {sense : γ → ν → ν}

theorem decoded_writes (m : γ → ν) (ws : List (α × ν)) :
    (decoded cell sense).writes m ws = writeAll m (ws.map fun w => (cell w.1, w.2)) := by
  rw [writeAll, List.foldl_map]
  rfl

/-- Words in different cells do not interfere. -/
theorem decoded_read_writes {m : γ → ν} {ws : List (α × ν)} (hcells : (ws.map fun w => cell w.1).Nodup)
    {w : α × ν} (h : w ∈ ws) :
    (decoded cell sense).read ((decoded cell sense).writes m ws) w.1 = sense (cell w.1) w.2 := by
  have hkeys : ((ws.map fun w => (cell w.1, w.2)).map Prod.fst).Nodup := by
    rw [List.map_map]
    exact hcells
  have hstored : writeAll m (ws.map fun w => (cell w.1, w.2)) (cell w.1) = w.2 :=
    writeAll_of_mem hkeys (List.mem_map_of_mem h)
  rw [decoded_writes]
  exact congrArg (sense (cell w.1)) hstored

/-! ## Stuck bits -/

/-- The bits in `mask` always read as they are in `value`. -/
structure StuckBits (w : Nat) where
  mask : BitVec w
  value : BitVec w
  deriving DecidableEq, Repr

variable {w : Nat}

def StuckBits.reads (bits : StuckBits w) (v : BitVec w) : BitVec w :=
  (v &&& ~~~bits.mask) ||| (bits.value &&& bits.mask)

/-- A word that has read as `p` once has its stuck bits as in `p`. -/
theorem StuckBits.reads_eq_of_reads {bits : StuckBits w} {v p : BitVec w} (h : bits.reads v = p)
    (u : BitVec w) : bits.reads u = (u &&& ~~~bits.mask) ||| (p &&& bits.mask) := by
  have hmask : p &&& bits.mask = bits.value &&& bits.mask := by
    rw [← h, StuckBits.reads]
    apply BitVec.eq_of_getElem_eq
    intro i hi
    cases hbit : bits.mask[i] <;> simp [hbit]
  rw [hmask, StuckBits.reads]

end Faults
