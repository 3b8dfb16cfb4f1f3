import Mathlib.Data.List.Infix
import Mathlib.Tactic.Common

/-!
# Paths by their components

A walk goes from place to place by the components of a path: a name goes down, `..` goes up.  A
`Place` is a resolved path, some directories up and then down by names; a rooted walk never goes up
from the root.  Where a walk ends is where it ends by itself, joined to the place it starts from
(`walk_join`), so that whether it ends inside that place can be read off the walk alone
(`inside_join`).
-/

namespace LexicalPath

/-- A component that goes anywhere. -/
inductive Step (ν : Type*) where
  | up
  | down (name : ν)
  deriving DecidableEq, Repr

/-- A resolved path. -/
@[ext] structure Place (ν : Type*) where
  ups : ℕ := 0
  names : List ν := []
  deriving DecidableEq, Repr

section Walk

variable {ν : Type*} (rooted : Bool)

/-- One component, from a place. -/
def Place.step (p : Place ν) : Step ν → Place ν
  | .down name => { p with names := p.names ++ [name] }
  | .up =>
    if p.names = [] then { p with ups := if rooted then p.ups else p.ups + 1 }
    else { p with names := p.names.dropLast }

/-- The components of a path one after another. -/
def Place.walk (p : Place ν) (steps : List (Step ν)) : Place ν := steps.foldl (step rooted) p

/-- The place `q`, as seen from `p`. -/
def Place.join (p q : Place ν) : Place ν :=
  if q.ups ≤ p.names.length then
    { p with names := p.names.take (p.names.length - q.ups) ++ q.names }
  else
    { ups := if rooted then p.ups else p.ups + (q.ups - p.names.length)
      names := q.names }

/-- The place lies in the directory `p`. -/
def Place.Inside (p q : Place ν) : Prop := q.ups = p.ups ∧ p.names <+: q.names

instance [DecidableEq ν] (p q : Place ν) : Decidable (p.Inside q) :=
  inferInstanceAs (Decidable (_ ∧ _))

variable {rooted} {p q : Place ν}

theorem walk_append (a b : List (Step ν)) :
    p.walk rooted (a ++ b) = (p.walk rooted a).walk rooted b := List.foldl_append

theorem join_empty : p.join rooted {} = p := by
  simp [Place.join]

theorem join_of_le (h : q.ups ≤ p.names.length) : p.join rooted q
    = { p with names := p.names.take (p.names.length - q.ups) ++ q.names } := if_pos h

theorem join_of_lt (h : p.names.length < q.ups) : p.join rooted q
    = { ups := if rooted then p.ups else p.ups + (q.ups - p.names.length), names := q.names } :=
  if_neg (Nat.not_le.2 h)

theorem down_join (name : ν) :
    (p.join rooted q).step rooted (.down name) = p.join rooted (q.step false (.down name)) := by
  rcases Nat.lt_or_ge p.names.length q.ups with hlt | hle
  · rw [join_of_lt hlt, join_of_lt (by exact hlt)]
    rfl
  · rw [join_of_le hle, join_of_le (by exact hle)]
    simp [Place.step]

/-- Up from where the walk has gone down. -/
theorem up_join_of_ne_nil (hq : q.names ≠ []) :
    (p.join rooted q).step rooted .up = p.join rooted (q.step false .up) := by
  rw [Place.step, Place.step, if_neg hq]
  rcases Nat.lt_or_ge p.names.length q.ups with hlt | hle
  · rw [join_of_lt hlt, join_of_lt (by exact hlt), if_neg hq]
  · rw [join_of_le hle, join_of_le (by exact hle), if_neg (by simp [hq])]
    simp only [List.dropLast_append_of_ne_nil hq]

/-- Up from where the walk has only gone up: the last name of `p` that is left goes. -/
theorem up_join_of_nil (hq : q.names = []) :
    (p.join rooted q).step rooted .up = p.join rooted (q.step false .up) := by
  have hstep : q.step false .up = { ups := q.ups + 1 } := by
    simp [Place.step, hq]
  rw [hstep]
  rcases lt_trichotomy q.ups p.names.length with hlt | heq | hgt
  · have htake : p.names.take (p.names.length - q.ups) ≠ [] := by
      rw [Ne, List.take_eq_nil_iff, ← List.length_eq_zero_iff]
      omega
    have hlast : (p.names.take (p.names.length - q.ups)).dropLast
        = p.names.take (p.names.length - (q.ups + 1)) := by
      rw [List.dropLast_eq_take, List.length_take, List.take_take]
      exact congrArg (p.names.take ·) (by omega)
    rw [join_of_le hlt.le, join_of_le (by exact hlt), hq, List.append_nil, List.append_nil,
      Place.step, if_neg htake, hlast]
  · rw [join_of_le heq.le, join_of_lt (by simp [heq]), hq, heq]
    simp [Place.step]
  · rw [join_of_lt hgt, join_of_lt (by exact hgt.trans (Nat.lt_succ_self _)), hq]
    cases rooted with
    | true => rfl
    | false =>
      have hups : p.ups + (q.ups - p.names.length) + 1 = p.ups + (q.ups + 1 - p.names.length) := by
        omega
      simp [Place.step, hups]

/-- One more component at the end. -/
theorem step_join (s : Step ν) :
    (p.join rooted q).step rooted s = p.join rooted (q.step false s) := by
  cases s with
  | down name => exact down_join name
  | up =>
    by_cases hq : q.names = []
    · exact up_join_of_nil hq
    · exact up_join_of_ne_nil hq

/-- A walk from `p` is the walk by itself, joined to `p`. -/
theorem walk_join (steps : List (Step ν)) :
    p.walk rooted steps = p.join rooted (Place.walk false {} steps) := by
  induction steps using List.reverseRecOn with
  | nil => exact join_empty.symm
  | append_singleton steps s ih =>
    simp only [Place.walk, List.foldl_append] at ih ⊢
    rw [ih]
    exact step_join s

/-- A walk that only goes down. -/
theorem ups_walk {steps : List (Step ν)} (h : .up ∉ steps) : (p.walk rooted steps).ups = p.ups := by
  induction steps generalizing p with
  | nil => rfl
  | cons s steps ih =>
    rw [Place.walk, List.foldl_cons]
    cases s with
    | up => exact absurd List.mem_cons_self h
    | down name => exact ih fun hmem => h (List.mem_cons_of_mem _ hmem)

/-- Joined to `p` a place is inside `p` where it does not go up, or comes down again the way it
went up. -/
theorem inside_join : p.Inside (p.join rooted q)
    ↔ (rooted = true ∨ q.ups ≤ p.names.length)
      ∧ p.names.drop (p.names.length - q.ups) <+: q.names := by
  rw [Place.Inside]
  rcases Nat.lt_or_ge p.names.length q.ups with hlt | hle
  · have hzero : p.names.length - q.ups = 0 := by omega
    rw [join_of_lt hlt, hzero, List.drop_zero]
    refine and_congr_left' ?_
    cases rooted with
    | true => simp
    | false => simp; omega
  · rw [join_of_le hle, and_iff_right rfl, and_iff_right (.inr hle)]
    conv => lhs; lhs; rw [← List.take_append_drop (p.names.length - q.ups) p.names]
    exact List.prefix_append_right_inj _

end Walk

section Text

variable {α : Type*} [DecidableEq α] (sep dot : α)

/-- What a component does; the empty one and `.` go nowhere. -/
def component (c : List α) : Option (Step (List α)) :=
  if c = [] ∨ c = [dot] then none else if c = [dot, dot] then some .up else some (.down c)

/-- The components of a path. -/
def steps (path : List α) : List (Step (List α)) := (path.splitOn sep).filterMap (component dot)

/-- A path that starts at the root. -/
def Rooted (path : List α) : Prop := path.head? = some sep

instance (path : List α) : Decidable (Rooted sep path) := inferInstanceAs (Decidable (_ = _))

/-- Where a path leads from the root, or from wherever it starts. -/
def resolve (path : List α) : Place (List α) :=
  Place.walk (Rooted sep path) {} (steps sep dot path)

/-- Where the components lead by themselves. -/
def climb (path : List α) : Place (List α) := Place.walk false {} (steps sep dot path)

/-- The path lies inside the directory `dir`. -/
def InsideDir (dir path : List α) : Prop :=
  (Rooted sep dir ↔ Rooted sep path) ∧ (resolve sep dot dir).Inside (resolve sep dot path)

instance (dir path : List α) : Decidable (InsideDir sep dot dir path) :=
  inferInstanceAs (Decidable (_ ∧ _))

/-- By itself `rest` goes up no further than `dir` is deep, if that is not rooted, and comes down
again through the last directories of `dir` it went up by. -/
def StaysInside (dir rest : List α) : Prop :=
  (Rooted sep dir ∨ (climb sep dot rest).ups ≤ (resolve sep dot dir).names.length)
    ∧ (resolve sep dot dir).names.drop
        ((resolve sep dot dir).names.length - (climb sep dot rest).ups)
      <+: (climb sep dot rest).names

instance (dir rest : List α) : Decidable (StaysInside sep dot dir rest) :=
  inferInstanceAs (Decidable (_ ∧ _))

variable {sep dot} {dir path rest : List α}

theorem steps_append_sep (a b : List α) :
    steps sep dot (a ++ sep :: b) = steps sep dot a ++ steps sep dot b := by
  rw [steps, List.splitOn_append_cons_self, List.filterMap_append, steps, steps]

@[simp] theorem steps_nil : steps sep dot [] = [] := by
  simp [steps, component]

/-- A path that goes on from a directory lies inside it where the rest stays inside. -/
theorem insideDir_iff (hroot : Rooted sep dir ↔ Rooted sep path)
    (hsteps : steps sep dot path = steps sep dot dir ++ steps sep dot rest) :
    InsideDir sep dot dir path ↔ StaysInside sep dot dir rest := by
  have hresolve : resolve sep dot path
      = (resolve sep dot dir).join (Rooted sep dir) (climb sep dot rest) := by
    rw [resolve, hsteps, walk_append, walk_join]
    simp only [resolve, climb, hroot]
  rw [InsideDir, and_iff_right hroot, hresolve, inside_join, StaysInside, decide_eq_true_eq]

/-- The rest behind a separator. -/
theorem insideDir_append (hdir : dir ≠ []) :
    InsideDir sep dot dir (dir ++ sep :: rest) ↔ StaysInside sep dot dir rest := by
  refine insideDir_iff ?_ (steps_append_sep dir rest)
  rw [Rooted, Rooted, List.head?_append_of_ne_nil _ hdir]

/-- The rest behind a directory that ends in a separator. -/
theorem insideDir_append_sep :
    InsideDir sep dot (dir ++ [sep]) (dir ++ sep :: rest)
      ↔ StaysInside sep dot (dir ++ [sep]) rest := by
  refine insideDir_iff ?_ ?_
  · cases dir <;> simp [Rooted]
  · rw [steps_append_sep, steps_append_sep, steps_nil, List.append_nil]

/-- A rest that goes up nowhere stays inside. -/
theorem staysInside_of_not_mem (h : Step.up ∉ steps sep dot rest) :
    StaysInside sep dot dir rest := by
  have hups : (climb sep dot rest).ups = 0 := ups_walk h
  simp [StaysInside, hups]

end Text

end LexicalPath
