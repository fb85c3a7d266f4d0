import Am437x.Lib.Memory

/-!
# Rings and queues of records

A ring of `cap` cells is addressed by positions that only grow: the position `pos` stands for the cell
`pos % cap` after the base address. Two positions less than `cap` apart never share a cell, which makes
blocks in a ring as easy to separate as blocks in a memory. A queue of records of varying size lies on
such positions, each record behind the one before it.
-/

namespace Ring

open Flat

variable {β : Type*}

/-- The address of the cell at a position. -/
def cell (base : Int) (cap pos : Nat) : Int := base + (pos % cap : Nat)

def read (m : Memory β) (base : Int) (cap pos n : Nat) : List β :=
  (List.range n).map fun i => m (cell base cap (pos + i))

/-- Write a block at a position: up to the end of the ring, and the rest from its start on. -/
def write (m : Memory β) (base : Int) (cap pos : Nat) (bs : List β) : Memory β :=
  store (store m (cell base cap pos) (bs.take (cap - pos % cap))) base (bs.drop (cap - pos % cap))

/-! ## Positions -/

theorem add_mod_cases {cap d : Nat} (pos : Nat) (h : d < cap) :
    (pos + d) % cap = pos % cap + d ∧ pos % cap + d < cap ∨
      (pos + d) % cap + cap = pos % cap + d ∧ cap ≤ pos % cap + d := by
  have hpos : pos % cap < cap := Nat.mod_lt _ (by omega)
  have hmod := Nat.add_mod_eq_ite (m := pos) (n := d) (k := cap)
  rw [Nat.mod_eq_of_lt h] at hmod
  split at hmod
  · right
    omega
  · left
    omega

/-- Positions less than `cap` apart have the same cell only when they are equal. -/
theorem eq_of_mod_eq {cap p q : Nat} (hle : p ≤ q) (hlt : q < p + cap) (h : p % cap = q % cap) :
    p = q := by
  obtain ⟨d, rfl⟩ := Nat.exists_eq_add_of_le hle
  have := add_mod_cases p (show d < cap by omega)
  omega

/-! ## Blocks in a ring -/

variable {m : Memory β} {base : Int} {cap pos : Nat} {bs : List β}

theorem read_length (n : Nat) : (read m base cap pos n).length = n := by
  simp [read]

theorem write_inside (hlen : bs.length ≤ cap) {i : Nat} (hi : i < bs.length) :
    write m base cap pos bs (cell base cap (pos + i)) = bs[i] := by
  have hpos : pos % cap < cap := Nat.mod_lt _ (by omega)
  unfold write
  rcases add_mod_cases pos (show i < cap by omega) with ⟨hmod, hlt⟩ | ⟨hmod, hle⟩
  · -- before the end of the ring: in the first part
    have hcell : cell base cap (pos + i) = cell base cap pos + i := by
      simp only [cell]
      omega
    have htake : i < (bs.take (cap - pos % cap)).length := by
      rw [List.length_take]
      omega
    rw [store_outside _ _ _ _ (Or.inr ?_), hcell, store_inside _ _ _ _ htake, List.getElem_take]
    rw [List.length_drop]
    simp only [cell]
    omega
  · -- past the end: in the second part
    have hcell : cell base cap (pos + i) = base + (i - (cap - pos % cap) : Nat) := by
      simp only [cell]
      omega
    have hdrop : i - (cap - pos % cap) < (bs.drop (cap - pos % cap)).length := by
      rw [List.length_drop]
      omega
    rw [hcell, store_inside _ _ _ _ hdrop, List.getElem_drop]
    congr 1
    omega

/-- Frame: a cell before the block written, and less than `cap` before its end. -/
theorem write_older {p : Nat} (hlt : p < pos) (hle : pos + bs.length ≤ p + cap) :
    write m base cap pos bs (cell base cap p) = m (cell base cap p) := by
  have hp : p % cap < cap := Nat.mod_lt _ (by omega)
  unfold write
  obtain ⟨d, rfl⟩ := Nat.exists_eq_add_of_lt hlt
  rcases Nat.lt_or_ge (d + 1) cap with hd | hd
  · have hmod := add_mod_cases p hd
    rw [← Nat.add_assoc] at hmod
    rw [store_outside _ _ _ _ ?_, store_outside _ _ _ _ ?_]
    · rw [List.length_take]
      simp only [cell]
      omega
    · rw [List.length_drop]
      simp only [cell]
      omega
  · obtain rfl : bs = [] := List.eq_nil_of_length_eq_zero (by omega)
    simp

theorem read_write_same (hlen : bs.length ≤ cap) :
    read (write m base cap pos bs) base cap pos bs.length = bs := by
  apply List.ext_getElem (read_length _)
  intro i _ hi
  simp only [read, List.getElem_map, List.getElem_range]
  exact write_inside hlen hi

theorem read_write_older {p n : Nat} (hlt : p + n ≤ pos) (hle : pos + bs.length ≤ p + cap) :
    read (write m base cap pos bs) base cap p n = read m base cap p n := by
  apply List.map_congr_left
  intro i hi
  have hi := List.mem_range.mp hi
  exact write_older (by omega) (by omega)

/-- The read of two blocks, one behind the other. -/
theorem read_add (k n : Nat) :
    read m base cap pos (k + n) = read m base cap pos k ++ read m base cap (pos + k) n := by
  unfold read
  rw [List.range_add, List.map_append, List.map_map]
  congr 1
  apply List.map_congr_left
  intro i _
  rw [Function.comp_apply, Nat.add_assoc]

/-- A block before the end of the ring is a block of the memory. -/
theorem read_eq_load {n : Nat} (h : pos % cap + n ≤ cap) :
    read m base cap pos n = load m (base + (pos % cap : Nat)) n := by
  apply List.map_congr_left
  intro i hi
  have hi := List.mem_range.mp hi
  have hcases := add_mod_cases pos (show i < cap by omega)
  have hmod : (pos + i) % cap = pos % cap + i := by omega
  rw [cell, hmod]
  congr 1
  push_cast
  ring

/-- A block is read as it is written: up to the end of the ring, and the rest from its start on. -/
theorem read_parts {n : Nat} (h : n ≤ cap) :
    read m base cap pos n = load m (cell base cap pos) (min n (cap - pos % cap)) ++
      load m base (n - min n (cap - pos % cap)) := by
  rcases Nat.eq_zero_or_pos n with rfl | hn
  · simp [read]
  have hpos : pos % cap < cap := Nat.mod_lt _ (by omega)
  rcases Nat.le_total n (cap - pos % cap) with hle | hle
  · rw [Nat.min_eq_left hle, Nat.sub_self, load_zero, List.append_nil]
    exact read_eq_load (by omega)
  · have hstart : (pos + (cap - pos % cap)) % cap = 0 := by
      have hdiv := Nat.div_add_mod pos cap
      have hround : pos + (cap - pos % cap) = cap * (pos / cap + 1) := by
        rw [Nat.mul_add, Nat.mul_one]
        omega
      rw [hround, Nat.mul_mod_right]
    have hsplit : read m base cap pos n = read m base cap pos (cap - pos % cap) ++
        read m base cap (pos + (cap - pos % cap)) (n - (cap - pos % cap)) := by
      rw [← read_add, Nat.add_sub_cancel' hle]
    rw [Nat.min_eq_right hle, hsplit, read_eq_load (by omega), read_eq_load (by omega), hstart, cell]
    simp

theorem cell_mod : cell base cap (pos % cap) = cell base cap pos := by
  simp [cell]

theorem write_mod : write m base cap (pos % cap) bs = write m base cap pos bs := by
  simp [write, cell_mod]

theorem read_mod {n : Nat} : read m base cap (pos % cap) n = read m base cap pos n := by
  simp [read, cell]

/-- What is read from inside a block written is the rest of the block. -/
theorem read_write_drop (hlen : bs.length ≤ cap) (k : Nat) :
    read (write m base cap pos bs) base cap (pos + k) (bs.length - k) = bs.drop k := by
  apply List.ext_getElem
  · rw [read_length, List.length_drop]
  intro i _ hi
  rw [List.length_drop] at hi
  simp only [read, List.getElem_map, List.getElem_range, List.getElem_drop]
  rw [Nat.add_assoc, write_inside hlen (by omega)]

/-- Frame: a cell behind the block written, and before the block again. -/
theorem write_beyond {k : Nat} (hle : bs.length ≤ k) (hlt : k < cap) :
    write m base cap pos bs (cell base cap (pos + k)) = m (cell base cap (pos + k)) := by
  have hround : write m base cap (pos + cap) bs = write m base cap pos bs := by
    rw [← write_mod, Nat.add_mod_right, write_mod]
  rw [← hround]
  exact write_older (by omega) (by omega)

theorem cell_mem (base : Int) (pos : Nat) (hcap : 0 < cap) :
    base ≤ cell base cap pos ∧ cell base cap pos < base + cap := by
  have hmod : pos % cap < cap := Nat.mod_lt _ hcap
  unfold cell
  omega

/-- Frame: a cell outside the ring. -/
theorem write_outside (hlen : bs.length ≤ cap) {x : Int} (h : x < base ∨ base + cap ≤ x) :
    write m base cap pos bs x = m x := by
  rcases Nat.eq_zero_or_pos cap with rfl | hcap
  · obtain rfl : bs = [] := List.eq_nil_of_length_eq_zero (by omega)
    simp [write]
  have hcell := cell_mem base pos hcap
  have hpos : pos % cap < cap := Nat.mod_lt _ hcap
  unfold write
  rw [store_outside _ _ _ _ ?_, store_outside _ _ _ _ ?_]
  · rw [List.length_take]
    unfold cell at *
    omega
  · rw [List.length_drop]
    omega

/-! ## Queues of records -/

variable {α : Type*} {size : α → Nat} {Stored Stored' : Nat → α → Prop}

/-- The cells that the records take. -/
def total (size : α → Nat) (xs : List α) : Nat := (xs.map size).sum

@[simp] theorem total_nil : total size [] = 0 := rfl

@[simp] theorem total_cons (x : α) (xs : List α) : total size (x :: xs) = size x + total size xs := rfl

@[simp] theorem total_append (xs ys : List α) :
    total size (xs ++ ys) = total size xs + total size ys := by
  simp [total]

/-- The records lie one behind the other from a position on. -/
def Queued (size : α → Nat) (Stored : Nat → α → Prop) : Nat → List α → Prop
  | _, [] => True
  | pos, x :: xs => Stored pos x ∧ Queued size Stored (pos + size x) xs

theorem queued_append {pos : Nat} {xs ys : List α} :
    Queued size Stored pos (xs ++ ys) ↔
      Queued size Stored pos xs ∧ Queued size Stored (pos + total size xs) ys := by
  induction xs generalizing pos with
  | nil => simp [Queued]
  | cons x xs ih => simp [Queued, ih, and_assoc, Nat.add_assoc]

/-- A change that keeps what is stored of the records at their positions keeps the queue. -/
theorem Queued.imp_mem {pos : Nat} {xs : List α} (h : Queued size Stored pos xs)
    (himp : ∀ p, ∀ x ∈ xs, pos ≤ p → p + size x ≤ pos + total size xs → Stored p x → Stored' p x) :
    Queued size Stored' pos xs := by
  induction xs generalizing pos with
  | nil => trivial
  | cons x xs ih =>
    obtain ⟨hx, hxs⟩ := h
    rw [total_cons] at himp
    refine ⟨himp pos x List.mem_cons_self le_rfl (by omega) hx, ih hxs fun p y hy hle hend => ?_⟩
    exact himp p y (List.mem_cons_of_mem x hy) (by omega) (by omega)

/-- A change that keeps what is stored at the positions of the queue keeps the queue. -/
theorem Queued.imp {pos : Nat} {xs : List α} (h : Queued size Stored pos xs)
    (himp : ∀ p x, pos ≤ p → p + size x ≤ pos + total size xs → Stored p x → Stored' p x) :
    Queued size Stored' pos xs :=
  h.imp_mem fun p x _ => himp p x

end Ring
