import Mathlib.Tactic

/-!
# Sequences of writes

A device or a table gives a value to every key, and a list of writes is made to it one after the other.
-/

namespace Writes

variable {κ β : Type*} [DecidableEq κ]

def writeAll (table : κ → β) (writes : List (κ × β)) : κ → β :=
  writes.foldl (fun table w => Function.update table w.1 w.2) table

theorem writeAll_cons (table : κ → β) (w : κ × β) (writes : List (κ × β)) :
    writeAll table (w :: writes) = writeAll (Function.update table w.1 w.2) writes := rfl

/-- Frame: a key that is not written. -/
theorem writeAll_of_notMem {table : κ → β} {writes : List (κ × β)} {k : κ}
    (h : ∀ w ∈ writes, w.1 ≠ k) : writeAll table writes k = table k := by
  induction writes generalizing table with
  | nil => rfl
  | cons w writes ih =>
    rw [writeAll_cons, ih fun w' hw' => h w' (List.mem_cons_of_mem _ hw')]
    exact Function.update_of_ne (h w List.mem_cons_self).symm _ _

/-- A key that is written once. -/
theorem writeAll_of_mem {table : κ → β} {writes : List (κ × β)} (hkeys : (writes.map Prod.fst).Nodup)
    {w : κ × β} (h : w ∈ writes) : writeAll table writes w.1 = w.2 := by
  induction writes generalizing table with
  | nil => cases h
  | cons w' writes ih =>
    rw [List.map_cons, List.nodup_cons] at hkeys
    rw [writeAll_cons]
    rcases List.mem_cons.mp h with rfl | h
    · have hne : ∀ u ∈ writes, u.1 ≠ w.1 := by
        intro u hu heq
        exact hkeys.1 (heq ▸ List.mem_map_of_mem hu)
      rw [writeAll_of_notMem hne, Function.update_self]
    · exact ih hkeys.2 h

theorem writeAll_const (table : κ → β) (keys : List κ) (v : β) (k : κ) :
    writeAll table (keys.map fun key => (key, v)) k = if k ∈ keys then v else table k := by
  induction keys generalizing table with
  | nil => rfl
  | cons key keys ih =>
    rw [List.map_cons, writeAll_cons, ih]
    by_cases hk : k ∈ keys
    · simp [hk]
    · by_cases hkey : k = key
      · subst hkey
        simp [hk]
      · simp [hk, hkey]

end Writes
