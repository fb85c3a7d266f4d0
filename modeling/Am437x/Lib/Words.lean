import Mathlib.Tactic

/-!
# Words in memory

A word of some bytes is stored with its least significant byte first.
-/

namespace Words

/-- The `n` bytes of a number; what does not fit into them is lost. -/
def leBytes : Nat → Nat → List UInt8
  | 0, _ => []
  | n + 1, x => UInt8.ofNat x :: leBytes n (x / 256)

def leValue : List UInt8 → Nat
  | [] => 0
  | b :: bs => b.toNat + 256 * leValue bs

@[simp] theorem leBytes_length (n x : Nat) : (leBytes n x).length = n := by
  induction n generalizing x with
  | zero => rfl
  | succ n ih => rw [leBytes, List.length_cons, ih]

theorem leValue_leBytes (n x : Nat) : leValue (leBytes n x) = x % 256 ^ n := by
  induction n generalizing x with
  | zero => simp [leBytes, leValue, Nat.mod_one]
  | succ n ih =>
    have hbyte : (UInt8.ofNat x).toNat = x % 256 := UInt8.toNat_ofNat'
    rw [leBytes, leValue, ih, hbyte, Nat.pow_succ', Nat.mod_mul]

theorem leValue_leBytes_of_lt {n x : Nat} (h : x < 256 ^ n) : leValue (leBytes n x) = x := by
  rw [leValue_leBytes, Nat.mod_eq_of_lt h]

end Words
