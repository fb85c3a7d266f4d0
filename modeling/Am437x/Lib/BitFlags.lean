import Mathlib.Tactic

/-!
# Flag words

Words of flags as C code handles them: single-bit masks that are tested, set and cleared, and unions of
such masks that select a part of a word.
-/

namespace BitFlags

variable {w : Nat}

theorem and_twoPow_ne_zero {x : BitVec w} {i : Nat} (h : i < w) :
    x &&& BitVec.twoPow w i ≠ 0 ↔ x.getLsbD i = true := by
  have hne : BitVec.twoPow w i ≠ 0 := by
    intro hzero
    have hbit := congrArg (fun y => y.getLsbD i) hzero
    simp [h] at hbit
  rw [BitVec.and_twoPow]
  cases x.getLsbD i
  · simp
  · simpa using hne

/-- Two words agree in the part that a mask selects just when they agree in each of its flags. -/
theorem and_eq_and_iff {x y m : BitVec w} :
    x &&& m = y &&& m ↔ ∀ i, m.getLsbD i = true → x.getLsbD i = y.getLsbD i := by
  constructor
  · intro heq i hm
    have hbit := congrArg (fun z => z.getLsbD i) heq
    simpa [hm] using hbit
  · intro hall
    apply BitVec.eq_of_getLsbD_eq
    intro i _
    cases hm : m.getLsbD i with
    | false => simp [hm]
    | true => simp [hm, hall i hm]

theorem getLsbD_twoPow_or {i j k : Nat} (hi : i < w) (hj : j < w) :
    (BitVec.twoPow w i ||| BitVec.twoPow w j).getLsbD k = true ↔ k = i ∨ k = j := by
  rw [BitVec.getLsbD_or, BitVec.getLsbD_twoPow, BitVec.getLsbD_twoPow]
  simp only [hi, hj, decide_true, Bool.true_and, Bool.or_eq_true, decide_eq_true_eq]
  rw [eq_comm, @eq_comm _ j]

end BitFlags
