import AuraHttpd.Lib.Search

/-!
# Blocks of cells

A block is the list of its cells, of which an access behind the end is the error `oob`.  The lemmas
tell what an access does in the middle of a block, by what stands before and behind it: `store` and
`move` overwrite as many cells as they are given (`store_append`, `move_append`), where the cells
moved may overlap those they go to.
-/

namespace Block

variable {α ε : Type*} (oob : ε)

def get (b : List α) (i : ℕ) : Except ε α :=
  match b[i]? with
  | some a => .ok a
  | none => .error oob

def put (b : List α) (i : ℕ) (a : α) : Except ε (List α) :=
  if i < b.length then .ok (b.set i a) else .error oob

/-- The cells from `i` on become those of `data`. -/
def store (b : List α) (i : ℕ) (data : List α) : Except ε (List α) :=
  if i + data.length ≤ b.length then .ok (b.take i ++ data ++ b.drop (i + data.length))
  else .error oob

/-- The cells from `i` on become the `n` from `j` on, as they were before. -/
def move (b : List α) (i j n : ℕ) : Except ε (List α) :=
  if j + n ≤ b.length then store oob b i ((b.drop j).take n) else .error oob

/-- The cells from `i` on up to a terminator. -/
def read [DecidableEq α] (z : α) (b : List α) (i : ℕ) : Except ε (List α) :=
  if z ∈ b.drop i then .ok ((b.drop i).takeWhile (· ≠ z)) else .error oob

variable {oob} {pre gap front rest data : List α} {a c : α}

theorem get_append : get oob (pre ++ a :: rest) pre.length = .ok a := by
  simp [get]

theorem put_append : put oob (pre ++ a :: rest) pre.length c = .ok (pre ++ c :: rest) := by
  simp [put]

theorem store_append (h : data.length ≤ gap.length) :
    store oob (pre ++ (gap ++ rest)) pre.length data
      = .ok (pre ++ data ++ (gap.drop data.length ++ rest)) := by
  unfold store
  rw [if_pos (by simp only [List.length_append]; omega), List.take_left, ← List.drop_drop,
    List.drop_left, List.drop_append_of_le_length h]

/-- The cells behind a gap are moved to its beginning, and as long a gap is left behind them. -/
theorem move_append : move oob (pre ++ (gap ++ (front ++ rest))) pre.length
      (pre.length + gap.length) front.length
    = .ok (pre ++ front ++ ((gap ++ front).drop front.length ++ rest)) := by
  have hdrop : (pre ++ (gap ++ (front ++ rest))).drop (pre.length + gap.length)
      = front ++ rest := by
    rw [← List.drop_drop, List.drop_left, List.drop_left]
  unfold move
  rw [if_pos (by simp only [List.length_append]; omega), hdrop, List.take_left,
    ← List.append_assoc gap, store_append (by simp)]

theorem read_append [DecidableEq α] {z : α} (h : z ∉ data) :
    read oob z (pre ++ (data ++ z :: rest)) pre.length = .ok data := by
  unfold read
  rw [List.drop_left, if_pos (by simp), ListSearch.takeWhile_ne_append_cons h]

end Block
