import Mathlib.Data.List.Basic
import Mathlib.Tactic.Basic

/-! # Merkle trees

A list is split in two by a rule that depends on its length alone, and its root hashes the roots of
the halves. The path of an element is complete; under a hash without collisions it is sound and the
root determines the list. -/

namespace Irena.Library.Merkle

variable {α H : Type}

/-- A rule that splits every list of two or more elements into two that are not empty. -/
structure Shape where
  split : ℕ → ℕ
  pos : ∀ {n}, 2 ≤ n → 0 < split n
  lt : ∀ {n}, 2 ≤ n → split n < n

/-- What the leaves, the inner nodes and the empty tree are hashed with. -/
structure TreeHash (α H : Type) where
  leaf : α → H
  node : H → H → H
  empty : H

/-- No two things that are hashed share a digest. -/
structure TreeHash.CollisionFree (T : TreeHash α H) : Prop where
  leaf_inj : ∀ {a b}, T.leaf a = T.leaf b → a = b
  node_inj : ∀ {l r l' r'}, T.node l r = T.node l' r' → l = l' ∧ r = r'
  leaf_ne_node : ∀ {a l r}, T.leaf a ≠ T.node l r
  leaf_ne_empty : ∀ {a}, T.leaf a ≠ T.empty
  node_ne_empty : ∀ {l r}, T.node l r ≠ T.empty

/-- Which side of the path a sibling sits on. -/
inductive Side where
  | left
  | right
deriving DecidableEq

namespace Shape

variable (s : Shape)

theorem length_take_split {xs : List α} (h : 2 ≤ xs.length) :
    (xs.take (s.split xs.length)).length = s.split xs.length := by
  rw [List.length_take]
  exact Nat.min_eq_left (Nat.le_of_lt (s.lt h))

/-- Lists by their halves. -/
theorem induct {P : List α → Prop} (nil : P []) (single : ∀ x, P [x])
    (halves : ∀ xs, 2 ≤ xs.length → P (xs.take (s.split xs.length)) →
      P (xs.drop (s.split xs.length)) → P xs) (xs : List α) : P xs := by
  induction hn : xs.length using Nat.strongRecOn generalizing xs with
  | ind n ih =>
    match xs, hn with
    | [], _ => exact nil
    | [x], _ => exact single x
    | x :: y :: rest, hn =>
      have htwo : 2 ≤ (x :: y :: rest).length := by simp
      refine halves _ htwo (ih _ ?_ _ rfl) (ih _ ?_ _ rfl)
      · rw [s.length_take_split htwo, ← hn]
        exact s.lt htwo
      · have hpos := s.pos htwo
        rw [List.length_drop]
        omega

/-- The sides of the siblings on the way up from the element at `index` among `count`. -/
def sides (count index : ℕ) : List Side :=
  if h : 2 ≤ count then
    if index < s.split count then sides (s.split count) index ++ [.right]
    else sides (count - s.split count) (index - s.split count) ++ [.left]
  else []
termination_by count
decreasing_by
  · exact s.lt h
  · exact Nat.sub_lt (by omega) (s.pos h)

theorem sides_of_lt {count index : ℕ} (h : count < 2) : s.sides count index = [] := by
  rw [sides, dif_neg (by omega)]

theorem sides_left {count index : ℕ} (h : 2 ≤ count) (hindex : index < s.split count) :
    s.sides count index = s.sides (s.split count) index ++ [.right] := by
  rw [sides, dif_pos h, if_pos hindex]

theorem sides_right {count index : ℕ} (h : 2 ≤ count) (hindex : ¬index < s.split count) :
    s.sides count index =
      s.sides (count - s.split count) (index - s.split count) ++ [.left] := by
  rw [sides, dif_pos h, if_neg hindex]

end Shape

namespace TreeHash

variable (T : TreeHash α H) (s : Shape)

def root (xs : List α) : H :=
  if _h : 2 ≤ xs.length then
    T.node (root (xs.take (s.split xs.length))) (root (xs.drop (s.split xs.length)))
  else
    match xs with
    | [] => T.empty
    | x :: _ => T.leaf x
termination_by xs.length
decreasing_by
  · rw [s.length_take_split _h]
    exact s.lt _h
  · have := s.pos _h
    rw [List.length_drop]
    omega

@[simp] theorem root_nil : T.root s [] = T.empty := by
  rw [root, dif_neg (by simp)]

@[simp] theorem root_singleton (x : α) : T.root s [x] = T.leaf x := by
  rw [root, dif_neg (by simp)]

theorem root_halves {xs : List α} (h : 2 ≤ xs.length) :
    T.root s xs =
      T.node (T.root s (xs.take (s.split xs.length))) (T.root s (xs.drop (s.split xs.length))) := by
  rw [root, dif_pos h]

/-- The siblings on the way up from the element at `index`, the lowest first. -/
def path (xs : List α) (index : ℕ) : List (Side × H) :=
  if h : 2 ≤ xs.length then
    if index < s.split xs.length then
      path (xs.take (s.split xs.length)) index ++ [(.right, T.root s (xs.drop (s.split xs.length)))]
    else
      path (xs.drop (s.split xs.length)) (index - s.split xs.length) ++
        [(.left, T.root s (xs.take (s.split xs.length)))]
  else []
termination_by xs.length
decreasing_by
  · rw [s.length_take_split h]
    exact s.lt h
  · have := s.pos h
    rw [List.length_drop]
    omega

theorem path_of_lt {xs : List α} {index : ℕ} (h : xs.length < 2) : T.path s xs index = [] := by
  rw [path, dif_neg (by omega)]

theorem path_left {xs : List α} {index : ℕ} (h : 2 ≤ xs.length)
    (hindex : index < s.split xs.length) :
    T.path s xs index = T.path s (xs.take (s.split xs.length)) index ++
      [(.right, T.root s (xs.drop (s.split xs.length)))] := by
  rw [path, dif_pos h, if_pos hindex]

theorem path_right {xs : List α} {index : ℕ} (h : 2 ≤ xs.length)
    (hindex : ¬index < s.split xs.length) :
    T.path s xs index = T.path s (xs.drop (s.split xs.length)) (index - s.split xs.length) ++
      [(.left, T.root s (xs.take (s.split xs.length)))] := by
  rw [path, dif_pos h, if_neg hindex]

/-- One level up from a running digest. -/
def climb (running : H) (step : Side × H) : H :=
  match step.1 with
  | .left => T.node step.2 running
  | .right => T.node running step.2

/-- A path has the sides of its position. -/
theorem path_sides (xs : List α) (index : ℕ) :
    (T.path s xs index).map Prod.fst = s.sides xs.length index := by
  induction xs using s.induct generalizing index with
  | nil => rw [T.path_of_lt s (by simp), s.sides_of_lt (by simp), List.map_nil]
  | single x => rw [T.path_of_lt s (by simp), s.sides_of_lt (by simp), List.map_nil]
  | halves xs h left right =>
    by_cases hindex : index < s.split xs.length
    · rw [T.path_left s h hindex, s.sides_left h hindex, List.map_append, left,
        s.length_take_split h]
      rfl
    · rw [T.path_right s h hindex, s.sides_right h hindex, List.map_append, right,
        List.length_drop]
      rfl

/-- The path of an element leads from its leaf to the root. -/
theorem climb_path {xs : List α} {index : ℕ} {x : α} (hx : xs[index]? = some x) :
    (T.path s xs index).foldl T.climb (T.leaf x) = T.root s xs := by
  induction xs using s.induct generalizing index with
  | nil => cases hx
  | single y =>
    obtain ⟨hlt, rfl⟩ := List.getElem?_eq_some_iff.mp hx
    rw [T.path_of_lt s (by simp)]
    simp
  | halves xs h left right =>
    by_cases hindex : index < s.split xs.length
    · rw [T.path_left s h hindex, List.foldl_append, left (by rw [List.getElem?_take_of_lt hindex, hx]),
        T.root_halves s h]
      rfl
    · have hright : (xs.drop (s.split xs.length))[index - s.split xs.length]? = some x := by
        rw [List.getElem?_drop, Nat.add_sub_cancel' (Nat.not_lt.mp hindex), hx]
      rw [T.path_right s h hindex, List.foldl_append, right hright, T.root_halves s h]
      rfl

variable {T}

/-- Whatever the siblings are, a path with the sides of a position that leads from a leaf to the
root of a list leads from the element at that position. -/
theorem CollisionFree.climb_sound (hT : T.CollisionFree) {xs : List α} {index : ℕ} {x : α}
    {steps : List (Side × H)} (hindex : index < xs.length)
    (hsides : steps.map Prod.fst = s.sides xs.length index)
    (hroot : steps.foldl T.climb (T.leaf x) = T.root s xs) : xs[index]? = some x := by
  induction xs using s.induct generalizing index steps with
  | nil => cases hindex
  | single y =>
    rw [s.sides_of_lt (by simp), List.map_eq_nil_iff] at hsides
    obtain rfl : index = 0 := by simpa using hindex
    rw [hsides, List.foldl_nil, root_singleton] at hroot
    rw [hT.leaf_inj hroot]
    rfl
  | halves xs h left right =>
    by_cases hside : index < s.split xs.length
    · rw [s.sides_left h hside] at hsides
      obtain ⟨below, top, rfl, hbelow, htop⟩ := List.map_eq_append_iff.mp hsides
      obtain ⟨⟨side, sibling⟩, rfl, rfl⟩ := List.map_eq_singleton_iff.mp htop
      rw [List.foldl_append, T.root_halves s h] at hroot
      obtain ⟨hrunning, -⟩ := hT.node_inj hroot
      rw [← List.getElem?_take_of_lt hside]
      refine left ?_ ?_ hrunning
      · rwa [s.length_take_split h]
      · rwa [s.length_take_split h]
    · rw [s.sides_right h hside] at hsides
      obtain ⟨below, top, rfl, hbelow, htop⟩ := List.map_eq_append_iff.mp hsides
      obtain ⟨⟨side, sibling⟩, rfl, rfl⟩ := List.map_eq_singleton_iff.mp htop
      rw [List.foldl_append, T.root_halves s h] at hroot
      obtain ⟨-, hrunning⟩ := hT.node_inj hroot
      have hmem : (xs.drop (s.split xs.length))[index - s.split xs.length]? = some x := by
        refine right ?_ ?_ hrunning
        · rw [List.length_drop]
          omega
        · rwa [List.length_drop]
      rwa [List.getElem?_drop, Nat.add_sub_cancel' (Nat.not_lt.mp hside)] at hmem

/-- The root determines the list. -/
theorem CollisionFree.root_injective (hT : T.CollisionFree) : Function.Injective (T.root s) := by
  intro xs
  induction xs using s.induct with
  | nil =>
    intro ys h
    induction ys using s.induct with
    | nil => rfl
    | single y =>
      rw [root_nil, root_singleton] at h
      exact absurd h.symm hT.leaf_ne_empty
    | halves ys htwo _ _ =>
      rw [root_nil, T.root_halves s htwo] at h
      exact absurd h.symm hT.node_ne_empty
  | single x =>
    intro ys h
    induction ys using s.induct with
    | nil =>
      rw [root_nil, root_singleton] at h
      exact absurd h hT.leaf_ne_empty
    | single y =>
      rw [root_singleton, root_singleton] at h
      rw [hT.leaf_inj h]
    | halves ys htwo _ _ =>
      rw [root_singleton, T.root_halves s htwo] at h
      exact absurd h hT.leaf_ne_node
  | halves xs hxs left right =>
    intro ys h
    induction ys using s.induct with
    | nil =>
      rw [root_nil, T.root_halves s hxs] at h
      exact absurd h hT.node_ne_empty
    | single y =>
      rw [root_singleton, T.root_halves s hxs] at h
      exact absurd h.symm hT.leaf_ne_node
    | halves ys hys _ _ =>
      rw [T.root_halves s hxs, T.root_halves s hys] at h
      obtain ⟨hleft, hright⟩ := hT.node_inj h
      rw [← List.take_append_drop (s.split xs.length) xs, left hleft, right hright,
        List.take_append_drop]

end TreeHash

end Irena.Library.Merkle
