import Mathlib.Tactic
import Mathlib.Algebra.BigOperators.Group.Finset.Basic
import Mathlib.Algebra.BigOperators.Group.Multiset.Basic
import Mathlib.Algebra.BigOperators.Fin

/-!
# Reference counts and slots

A component takes references to shared objects and keeps objects in slots. Its ledger counts the
references it owns, each object as often as it is referenced; a slot is sound when the ledger has a
reference for it. The ledger is exact when it has these references and no others. For resources that are
held or not, it has one reference for each that is held.
-/

namespace RefCount

variable {ι κ : Type*} [DecidableEq ι]

/-- The references owned, and whether a reference was released that was not owned. -/
structure Ledger (ι : Type*) where
  owned : Multiset ι
  overReleased : Bool

namespace Ledger

def empty : Ledger ι := ⟨0, false⟩

def take (l : Ledger ι) (x : ι) : Ledger ι := { l with owned := x ::ₘ l.owned }

/-- Release a reference, or give it away. -/
def release (l : Ledger ι) (x : ι) : Ledger ι :=
  if x ∈ l.owned then { l with owned := l.owned.erase x } else { l with overReleased := true }

/-- Release the reference of a slot; nothing is done for an empty slot. -/
def releaseOpt (l : Ledger ι) : Option ι → Ledger ι
  | none => l
  | some x => l.release x

theorem release_take (l : Ledger ι) (x : ι) : (l.take x).release x = l := by
  simp [take, release]

omit [DecidableEq ι] in
theorem take_comm (l : Ledger ι) (x y : ι) : (l.take x).take y = (l.take y).take x := by
  simp only [take, Multiset.cons_swap]

theorem overReleased_release {l : Ledger ι} (h : l.overReleased = true) (x : ι) :
    (l.release x).overReleased = true := by
  unfold release
  split
  · exact h
  · rfl

end Ledger

/-! ## Resources -/

/-- The references owned are those of the resources with `P`, one for each. -/
structure Holds (l : Ledger ι) (P : ι → Prop) : Prop where
  overReleased : l.overReleased = false
  nodup : l.owned.Nodup
  mem : ∀ x, x ∈ l.owned ↔ P x

namespace Holds

variable {l : Ledger ι} {P Q : ι → Prop} {x : ι}

omit [DecidableEq ι] in
theorem empty : Holds (.empty : Ledger ι) fun _ => False where
  overReleased := rfl
  nodup := Multiset.nodup_zero
  mem x := by simp [Ledger.empty]

omit [DecidableEq ι] in
theorem congr (h : Holds l P) (hiff : ∀ x, P x ↔ Q x) : Holds l Q :=
  ⟨h.overReleased, h.nodup, fun x => (h.mem x).trans (hiff x)⟩

omit [DecidableEq ι] in
theorem take (h : Holds l P) (hx : ¬ P x) : Holds (l.take x) fun y => y = x ∨ P y where
  overReleased := h.overReleased
  nodup := Multiset.nodup_cons.mpr ⟨mt (h.mem x).mp hx, h.nodup⟩
  mem y := by rw [Ledger.take, Multiset.mem_cons, h.mem]

theorem release (h : Holds l P) (hx : P x) : Holds (l.release x) fun y => y ≠ x ∧ P y := by
  rw [Ledger.release, if_pos ((h.mem x).mpr hx)]
  refine ⟨h.overReleased, h.nodup.erase x, fun y => ?_⟩
  rw [h.nodup.mem_erase_iff, h.mem]

omit [DecidableEq ι] in
/-- A resource that is taken under a condition. -/
theorem take_if (h : Holds l P) {c : Prop} [Decidable c] (hx : c → ¬ P x) :
    Holds (if c then l.take x else l) fun y => (c ∧ y = x) ∨ P y := by
  split
  case isTrue hc =>
    refine (h.take (hx hc)).congr fun y => ?_
    simp only [hc, true_and]
  case isFalse hc =>
    refine h.congr fun y => ?_
    simp only [hc, false_and, false_or]

theorem release_if (h : Holds l P) {c : Prop} [Decidable c] (hx : c → P x) :
    Holds (if c then l.release x else l) fun y => ¬ (c ∧ y = x) ∧ P y := by
  split
  case isTrue hc =>
    refine (h.release (hx hc)).congr fun y => ?_
    simp only [hc, true_and, ne_eq]
  case isFalse hc =>
    refine h.congr fun y => ?_
    simp only [hc, false_and, not_false_eq_true, true_and]

/-- Something that is not held is released. -/
theorem release_of_not (h : Holds l P) (hx : ¬ P x) : (l.release x).overReleased = true := by
  rw [Ledger.release, if_neg (mt (h.mem x).mp hx)]

end Holds

variable [Fintype κ] [DecidableEq κ]

/-- The reference of a slot's content. -/
def refs : Option ι → Multiset ι
  | none => 0
  | some x => {x}

/-- The references that the slots stand for. -/
def held (slot : κ → Option ι) : Multiset ι := ∑ i, refs (slot i)

omit [DecidableEq ι] in
theorem held_update (slot : κ → Option ι) (i : κ) (v : Option ι) :
    held (Function.update slot i v) + refs (slot i) = held slot + refs v := by
  have hrest : ∑ j ∈ Finset.univ.erase i, refs (Function.update slot i v j) =
      ∑ j ∈ Finset.univ.erase i, refs (slot j) := by
    refine Finset.sum_congr rfl fun j hj => ?_
    rw [Function.update_of_ne (Finset.ne_of_mem_erase hj)]
  unfold held
  rw [← Finset.add_sum_erase _ _ (Finset.mem_univ i), ← Finset.add_sum_erase _ _ (Finset.mem_univ i),
    hrest, Function.update_self]
  ac_rfl

omit [DecidableEq ι] [DecidableEq κ] in
theorem held_of_empty {slot : κ → Option ι} (h : ∀ i, slot i = none) : held slot = 0 :=
  Finset.sum_eq_zero fun i _ => by rw [h i]; rfl

/-- Every slot has a reference of its own. -/
def Sound (l : Ledger ι) (slot : κ → Option ι) : Prop := held slot ≤ l.owned

/-- The references owned are those of the slots, and none was released that was not owned. -/
structure Exact (l : Ledger ι) (slot : κ → Option ι) : Prop where
  overReleased : l.overReleased = false
  owned : l.owned = held slot

/-- At least `k` references too many are owned, unless one was released that was not owned. -/
def Excess (k : Nat) (l : Ledger ι) (slot : κ → Option ι) : Prop :=
  l.overReleased = true ∨ Multiset.card (held slot) + k ≤ Multiset.card l.owned

namespace Exact

variable {l : Ledger ι} {slot : κ → Option ι}

omit [DecidableEq ι] [DecidableEq κ] in
theorem sound (h : Exact l slot) : Sound l slot := h.owned.ge

theorem clear (h : Exact l slot) (i : κ) :
    Exact (l.releaseOpt (slot i)) (Function.update slot i none) := by
  have hheld := held_update slot i none
  cases hi : slot i with
  | none =>
    rw [hi] at hheld
    refine ⟨h.overReleased, ?_⟩
    rw [Ledger.releaseOpt, h.owned]
    simpa [refs] using hheld.symm
  | some x =>
    rw [hi] at hheld
    have howned : l.owned = x ::ₘ held (Function.update slot i none) := by
      rw [h.owned, ← Multiset.singleton_add, add_comm]
      simpa [refs] using hheld.symm
    constructor
    · simp [Ledger.releaseOpt, Ledger.release, howned, h.overReleased]
    · simp [Ledger.releaseOpt, Ledger.release, howned]

omit [DecidableEq ι] in
theorem put (h : Exact l slot) {i : κ} (hi : slot i = none) (x : ι) :
    Exact (l.take x) (Function.update slot i (some x)) := by
  have hheld := held_update slot i (some x)
  rw [hi] at hheld
  refine ⟨h.overReleased, ?_⟩
  rw [Ledger.take, h.owned, ← Multiset.singleton_add, add_comm]
  simpa [refs] using hheld.symm

theorem replace (h : Exact l slot) (i : κ) (x : ι) :
    Exact ((l.releaseOpt (slot i)).take x) (Function.update slot i (some x)) := by
  have hput := (h.clear i).put (Function.update_self i none slot) x
  rwa [Function.update_idem] at hput

end Exact

namespace Excess

variable {k k' : Nat} {l : Ledger ι} {slot slot' : κ → Option ι}

omit [DecidableEq ι] [DecidableEq κ] in
theorem of_exact (h : Exact l slot) : Excess 0 l slot := by
  right
  rw [h.owned, Nat.add_zero]

omit [DecidableEq ι] [DecidableEq κ] in
/-- Slots that stand for fewer references leave a larger excess. -/
theorem of_card_le (h : Excess k l slot)
    (hcard : Multiset.card (held slot') + k' ≤ Multiset.card (held slot) + k) :
    Excess k' l slot' := by
  rcases h with hover | howned
  · exact Or.inl hover
  · exact Or.inr (hcard.trans howned)

omit [DecidableEq ι] [DecidableEq κ] in
theorem take (h : Excess k l slot) (x : ι) : Excess (k + 1) (l.take x) slot := by
  rcases h with hover | howned
  · exact Or.inl hover
  · right
    rw [Ledger.take, Multiset.card_cons]
    omega

omit [DecidableEq κ] in
/-- A release costs at most one of the excess. -/
theorem release (h : Excess (k + 1) l slot) (x : ι) : Excess k (l.release x) slot := by
  by_cases hmem : x ∈ l.owned
  · rw [Ledger.release, if_pos hmem]
    rcases h with hover | howned
    · exact Or.inl hover
    · right
      have herase := Multiset.card_erase_add_one hmem
      show Multiset.card (held slot) + k ≤ Multiset.card (l.owned.erase x)
      omega
  · rw [Ledger.release, if_neg hmem]
    exact Or.inl rfl

omit [DecidableEq κ] in
theorem releaseOpt (h : Excess (k + 1) l slot) (v : Option ι) : Excess k (l.releaseOpt v) slot := by
  cases v with
  | none => exact h.of_card_le (by omega)
  | some x => exact h.release x

omit [DecidableEq ι] in
theorem card_held_update (slot : κ → Option ι) (i : κ) (v : Option ι) :
    Multiset.card (held (Function.update slot i v)) + Multiset.card (refs (slot i)) =
      Multiset.card (held slot) + Multiset.card (refs v) := by
  rw [← Multiset.card_add, ← Multiset.card_add, held_update]

/-- Emptying a slot and releasing its reference keeps the excess. -/
theorem clear (h : Excess k l slot) (i : κ) :
    Excess k (l.releaseOpt (slot i)) (Function.update slot i none) := by
  have hcard := card_held_update slot i none
  cases hi : slot i with
  | none =>
    rw [hi] at hcard
    exact h.of_card_le (by omega)
  | some x =>
    rw [hi] at hcard
    simp only [refs, Multiset.card_zero, Multiset.card_singleton] at hcard
    have hempty : Excess (k + 1) l (Function.update slot i none) := h.of_card_le (by omega)
    exact hempty.release x

omit [DecidableEq ι] in
theorem put (h : Excess k l slot) {i : κ} (hi : slot i = none) (x : ι) :
    Excess k (l.take x) (Function.update slot i (some x)) := by
  have hcard := card_held_update slot i (some x)
  rw [hi] at hcard
  simp only [refs, Multiset.card_zero, Multiset.card_singleton] at hcard
  exact (h.take x).of_card_le (by omega)

omit [DecidableEq ι] in
/-- A reference taken and stored over the content of a slot adds one to the excess. -/
theorem overwrite (h : Excess k l slot) {i : κ} {y : ι} (hi : slot i = some y) (x : ι) :
    Excess (k + 1) (l.take x) (Function.update slot i (some x)) := by
  have hcard := card_held_update slot i (some x)
  rw [hi] at hcard
  simp only [refs, Multiset.card_singleton] at hcard
  exact (h.take x).of_card_le (by omega)

omit [DecidableEq ι] [DecidableEq κ] in
/-- An excess leaves something owned, also when all slots are empty. -/
theorem owned_ne_zero (h : Excess (k + 1) l slot) (hover : l.overReleased = false) :
    l.owned ≠ 0 := by
  intro hzero
  rcases h with hover' | howned
  · rw [hover] at hover'
    cases hover'
  · rw [hzero, Multiset.card_zero] at howned
    omega

end Excess

end RefCount
