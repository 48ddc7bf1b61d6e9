import Mathlib.Data.List.Sort

/-! # Tables sorted by a key

A table lists its entries by strictly growing key. It is built by sorting and refusing a repeated
key, and an entry is found by halving. What the halving finds carries the key sought in any list;
in a table it finds every entry. -/

namespace Irena.Library

variable {α κ : Type} [LinearOrder κ]

structure SortedTable (key : α → κ) where
  entries : List α
  sorted : entries.Pairwise fun a b => key a < key b

namespace SortedTable

variable {key : α → κ}

@[ext] theorem ext {s t : SortedTable key} (h : s.entries = t.entries) : s = t := by
  cases s
  cases t
  congr

instance [DecidableEq α] : DecidableEq (SortedTable key) := fun s t =>
  decidable_of_iff (s.entries = t.entries) ⟨ext, fun h => h ▸ rfl⟩

instance : Inhabited (SortedTable key) := ⟨⟨[], .nil⟩⟩

/-- Entries sorted by key; those of one key keep their order. -/
def sortBy (key : α → κ) (xs : List α) : List α := xs.insertionSort fun a b => key a ≤ key b

/-- The first key that stands among `seen` or occurred before. -/
def firstRepeated (seen : List κ) : List κ → Option κ
  | [] => none
  | k :: ks => if k ∈ seen then some k else firstRepeated (k :: seen) ks

theorem perm_sortBy (key : α → κ) (xs : List α) : (sortBy key xs).Perm xs :=
  List.perm_insertionSort _ xs

theorem mem_sortBy {xs : List α} {x : α} : x ∈ sortBy key xs ↔ x ∈ xs := (perm_sortBy key xs).mem_iff

theorem sorted_sortBy (key : α → κ) (xs : List α) :
    (sortBy key xs).Pairwise fun a b => key a ≤ key b := by
  have : Std.Total fun a b : α => key a ≤ key b := ⟨fun a b => le_total (key a) (key b)⟩
  have : IsTrans α fun a b => key a ≤ key b := ⟨fun a b c => le_trans⟩
  exact List.pairwise_insertionSort _ xs

theorem firstRepeated_eq_none {seen ks : List κ} :
    firstRepeated seen ks = none ↔ ks.Nodup ∧ ∀ k ∈ ks, k ∉ seen := by
  induction ks generalizing seen with
  | nil => simp [firstRepeated]
  | cons k ks ih =>
    unfold firstRepeated
    split
    · rename_i hmem
      simp [hmem]
    · rename_i hmem
      rw [ih]
      simp only [List.nodup_cons, List.mem_cons, not_or, forall_eq_or_imp, hmem, not_false_eq_true,
        true_and]
      constructor
      · rintro ⟨hnodup, hall⟩
        exact ⟨⟨fun hk => (hall k hk).1 rfl, hnodup⟩, fun j hj => (hall j hj).2⟩
      · rintro ⟨⟨hk, hnodup⟩, hall⟩
        exact ⟨hnodup, fun j hj => ⟨fun heq => hk (heq ▸ hj), hall j hj⟩⟩

/-- Sorted entries without a repeated key grow strictly. -/
theorem strict_of_nodup {xs : List α} (hsorted : xs.Pairwise fun a b => key a ≤ key b)
    (hnodup : (xs.map key).Nodup) : xs.Pairwise fun a b => key a < key b := by
  have hne : xs.Pairwise fun a b => key a ≠ key b := List.pairwise_map.mp hnodup
  exact hsorted.imp₂ (fun _ _ hle hne => lt_of_le_of_ne hle hne) hne

theorem strict_sortBy {xs : List α} (h : firstRepeated [] ((sortBy key xs).map key) = none) :
    (sortBy key xs).Pairwise fun a b => key a < key b :=
  strict_of_nodup (sorted_sortBy key xs) (firstRepeated_eq_none.mp h).1

/-- The entries whose key is the one just before. -/
def repeats (key : α → κ) : List α → List α
  | a :: b :: rest => if key a = key b then b :: repeats key (b :: rest) else repeats key (b :: rest)
  | _ => []

theorem strict_of_repeats {xs : List α} (hsorted : xs.Pairwise fun a b => key a ≤ key b)
    (h : repeats key xs = []) : xs.Pairwise fun a b => key a < key b := by
  induction xs with
  | nil => exact .nil
  | cons a rest ih =>
    obtain ⟨hle, hrest⟩ := List.pairwise_cons.mp hsorted
    cases rest with
    | nil => exact List.pairwise_singleton _ _
    | cons b rest =>
      unfold repeats at h
      split at h
      · cases h
      · rename_i hne
        have hlt : key a < key b := lt_of_le_of_ne (hle b (List.mem_cons_self ..)) hne
        have hstrict := ih hrest h
        refine List.pairwise_cons.mpr ⟨fun c hc => ?_, hstrict⟩
        rcases List.mem_cons.mp hc with rfl | hc
        · exact hlt
        · exact hlt.trans ((List.pairwise_cons.mp hstrict).1 c hc)

/-- Entries that grow from each to the next grow throughout. -/
theorem strict_of_adjacent {xs : List α} (h : ∀ p ∈ xs.zip xs.tail, key p.1 < key p.2) :
    xs.Pairwise fun a b => key a < key b := by
  induction xs with
  | nil => exact .nil
  | cons a rest ih =>
    cases rest with
    | nil => exact List.pairwise_singleton _ _
    | cons b rest =>
      have hlt : key a < key b := h (a, b) (List.mem_cons_self ..)
      have hstrict := ih fun p hp => h p (List.mem_cons_of_mem _ hp)
      refine List.pairwise_cons.mpr ⟨fun c hc => ?_, hstrict⟩
      rcases List.mem_cons.mp hc with rfl | hc
      · exact hlt
      · exact hlt.trans ((List.pairwise_cons.mp hstrict).1 c hc)

theorem adjacent_of_strict {xs : List α} (h : xs.Pairwise fun a b => key a < key b) :
    ∀ p ∈ xs.zip xs.tail, key p.1 < key p.2 := by
  induction xs with
  | nil => simp
  | cons a rest ih =>
    obtain ⟨hhead, hrest⟩ := List.pairwise_cons.mp h
    cases rest with
    | nil => simp
    | cons b rest =>
      intro p hp
      rcases List.mem_cons.mp hp with rfl | hp
      · exact hhead b (List.mem_cons_self ..)
      · exact ih hrest p hp

/-- The table of `xs`, or the first repeated key in key order. -/
def ofList (key : α → κ) (xs : List α) : Except κ (SortedTable key) :=
  match h : firstRepeated [] ((sortBy key xs).map key) with
  | some k => .error k
  | none => .ok ⟨sortBy key xs, strict_sortBy h⟩

theorem entries_of_ofList {xs : List α} {t : SortedTable key} (h : ofList key xs = .ok t) :
    t.entries = sortBy key xs := by
  unfold ofList at h
  split at h
  · cases h
  · obtain rfl := Except.ok.inj h
    rfl

theorem ofList_isOk {xs : List α} : (∃ t, ofList key xs = .ok t) ↔ (xs.map key).Nodup := by
  have hperm : ((sortBy key xs).map key).Perm (xs.map key) := (perm_sortBy key xs).map key
  have hnone : firstRepeated [] ((sortBy key xs).map key) = none ↔ (xs.map key).Nodup := by
    rw [firstRepeated_eq_none, hperm.nodup_iff]
    simp
  rw [← hnone]
  unfold ofList
  split
  · rename_i k hk
    simp [hk]
  · rename_i hk
    simp [hk]

/-- A list that grows strictly already is its own table. -/
theorem ofList_entries (t : SortedTable key) : ofList key t.entries = .ok t := by
  have hle : t.entries.Pairwise fun a b => key a ≤ key b := t.sorted.imp le_of_lt
  have hsort : sortBy key t.entries = t.entries := hle.insertionSort_eq
  have hnodup : (t.entries.map key).Nodup := List.pairwise_map.mpr (t.sorted.imp ne_of_lt)
  obtain ⟨u, hu⟩ := ofList_isOk.mpr hnodup
  rw [hu, Except.ok.injEq]
  exact ext ((entries_of_ofList hu).trans hsort)

section Order

variable {xs ys : List α}

theorem sortBy_keys_perm (h : xs.Perm ys) : (sortBy key xs).map key = (sortBy key ys).map key := by
  have hperm : ((sortBy key xs).map key).Perm ((sortBy key ys).map key) :=
    (((perm_sortBy key xs).trans h).trans (perm_sortBy key ys).symm).map key
  exact hperm.eq_of_pairwise (fun _ _ _ _ => le_antisymm)
    (List.pairwise_map.mpr (sorted_sortBy key xs)) (List.pairwise_map.mpr (sorted_sortBy key ys))

/-- Entries of different keys sort one way. -/
theorem sortBy_perm (h : xs.Perm ys) (hnodup : (xs.map key).Nodup) :
    sortBy key xs = sortBy key ys := by
  have hperm : (sortBy key xs).Perm (sortBy key ys) :=
    ((perm_sortBy key xs).trans h).trans (perm_sortBy key ys).symm
  refine hperm.eq_of_pairwise (fun x y hx hy hxy hyx => ?_) (sorted_sortBy key xs)
    (sorted_sortBy key ys)
  exact List.inj_on_of_nodup_map hnodup (mem_sortBy.mp hx) (h.symm.mem_iff.mp (mem_sortBy.mp hy))
    (le_antisymm hxy hyx)

/-- Keys that tell the entries apart sort a list one way. -/
theorem sortBy_perm_of_injective (hkey : Function.Injective key) (h : xs.Perm ys) :
    sortBy key xs = sortBy key ys := by
  have hperm : (sortBy key xs).Perm (sortBy key ys) :=
    ((perm_sortBy key xs).trans h).trans (perm_sortBy key ys).symm
  exact hperm.eq_of_pairwise (fun x y _ _ hxy hyx => hkey (le_antisymm hxy hyx))
    (sorted_sortBy key xs) (sorted_sortBy key ys)

/-- Which keys are repeated is told by the keys alone. -/
theorem map_repeats (xs : List α) : (repeats key xs).map key = repeats id (xs.map key) := by
  induction xs with
  | nil => rfl
  | cons a rest ih =>
    cases rest with
    | nil => rfl
    | cons b rest =>
      rw [List.map_cons, List.map_cons, repeats, repeats]
      rw [List.map_cons] at ih
      by_cases hab : key a = key b
      · rw [if_pos hab, if_pos (show id (key a) = id (key b) from hab), List.map_cons, ih]
      · rw [if_neg hab, if_neg (show ¬id (key a) = id (key b) from hab), ih]

theorem repeats_keys_perm (h : xs.Perm ys) :
    (repeats key (sortBy key xs)).map key = (repeats key (sortBy key ys)).map key := by
  rw [map_repeats, map_repeats, sortBy_keys_perm h]

theorem ofList_eq_error {k : κ} (h : firstRepeated [] ((sortBy key xs).map key) = some k) :
    ofList key xs = .error k := by
  unfold ofList
  split
  · rename_i j hj
    rw [Option.some.inj (hj.symm.trans h)]
  · rename_i hnone
    rw [h] at hnone
    cases hnone

/-- A table, or the repeated key it is refused for, does not depend on the order of its list. -/
theorem ofList_perm (h : xs.Perm ys) : ofList key xs = ofList key ys := by
  have hkeys : (sortBy key xs).map key = (sortBy key ys).map key := sortBy_keys_perm h
  cases hrepeated : firstRepeated [] ((sortBy key xs).map key) with
  | some k => rw [ofList_eq_error hrepeated, ofList_eq_error (hkeys ▸ hrepeated)]
  | none =>
    have hnodup : (xs.map key).Nodup :=
      ((perm_sortBy key xs).map key).nodup_iff.mp (firstRepeated_eq_none.mp hrepeated).1
    obtain ⟨s, hs⟩ := ofList_isOk.mpr hnodup
    obtain ⟨t, ht⟩ := ofList_isOk.mpr ((h.map key).nodup_iff.mp hnodup)
    rw [hs, ht, Except.ok.injEq]
    exact ext (by rw [entries_of_ofList hs, entries_of_ofList ht, sortBy_perm h hnodup])

end Order

theorem nodup (t : SortedTable key) : (t.entries.map key).Nodup :=
  List.pairwise_map.mpr (t.sorted.imp ne_of_lt)

/-- In a table the key determines the entry. -/
theorem eq_of_key_eq (t : SortedTable key) {x y : α} (hx : x ∈ t.entries) (hy : y ∈ t.entries)
    (h : key x = key y) : x = y :=
  List.inj_on_of_nodup_map t.nodup hx hy h

/-- A table is told by its entries. -/
theorem ext_of_mem {s t : SortedTable key} (h : ∀ x, x ∈ s.entries ↔ x ∈ t.entries) : s = t := by
  have hperm : s.entries.Perm t.entries :=
    (List.perm_ext_iff_of_nodup (List.Nodup.of_map key s.nodup) (List.Nodup.of_map key t.nodup)).mpr h
  exact ext (hperm.eq_of_pairwise (fun _ _ _ _ hxy hyx => absurd (hxy.trans hyx) (lt_irrefl _))
    s.sorted t.sorted)

/-- The table with an entry added, in place of the one of its key. -/
def insert (t : SortedTable key) (x : α) : SortedTable key where
  entries := (t.entries.filter fun y => key y < key x) ++ x ::
    t.entries.filter fun y => key x < key y
  sorted := by
    refine List.pairwise_append.mpr ⟨t.sorted.filter _, List.pairwise_cons.mpr ⟨?_, t.sorted.filter _⟩, ?_⟩
    · intro y hy
      simpa using (List.mem_filter.mp hy).2
    · intro y hy z hz
      have hyx : key y < key x := by simpa using (List.mem_filter.mp hy).2
      rcases List.mem_cons.mp hz with rfl | hz
      · exact hyx
      · exact hyx.trans (by simpa using (List.mem_filter.mp hz).2)

theorem mem_insert {t : SortedTable key} {x y : α} :
    y ∈ (t.insert x).entries ↔ y = x ∨ (y ∈ t.entries ∧ key y ≠ key x) := by
  simp only [insert, List.mem_append, List.mem_filter, List.mem_cons, decide_eq_true_eq]
  constructor
  · rintro (⟨hy, hlt⟩ | rfl | ⟨hy, hlt⟩)
    · exact .inr ⟨hy, hlt.ne⟩
    · exact .inl rfl
    · exact .inr ⟨hy, hlt.ne'⟩
  · rintro (rfl | ⟨hy, hne⟩)
    · exact .inr (.inl rfl)
    · rcases lt_or_gt_of_ne hne with hlt | hgt
      · exact .inl ⟨hy, hlt⟩
      · exact .inr (.inr ⟨hy, hgt⟩)

def empty : SortedTable key := ⟨[], .nil⟩

/-- Entries added in growing order stand as they were added. -/
theorem foldl_insert {t : SortedTable key} {xs : List α}
    (h : (t.entries ++ xs).Pairwise fun a b => key a < key b) :
    (xs.foldl insert t).entries = t.entries ++ xs := by
  induction xs generalizing t with
  | nil => rw [List.foldl_nil, List.append_nil]
  | cons x xs ih =>
    obtain ⟨-, -, hlt⟩ := List.pairwise_append.mp h
    have hbelow : ∀ y ∈ t.entries, key y < key x := fun y hy => hlt y hy x List.mem_cons_self
    have hinsert : (t.insert x).entries = t.entries ++ [x] := by
      have hleft : t.entries.filter (fun y => key y < key x) = t.entries :=
        List.filter_eq_self.mpr fun y hy => decide_eq_true (hbelow y hy)
      have hright : t.entries.filter (fun y => key x < key y) = [] :=
        List.filter_eq_nil_iff.mpr fun y hy => by simpa using (hbelow y hy).le
      change _ ++ x :: _ = _
      rw [hleft, hright]
    have hgrow : ((t.insert x).entries ++ xs).Pairwise fun a b => key a < key b := by
      rw [hinsert, List.append_assoc]
      exact h
    rw [List.foldl_cons, ih hgrow, hinsert, List.append_assoc, List.singleton_append]

/-- A table is what its entries collect to. -/
theorem foldl_insert_entries (t : SortedTable key) : t.entries.foldl insert empty = t :=
  ext (foldl_insert (t := empty) t.sorted)

/-- Halves the window of `size` entries from `base` until one entry is left. The fuel bounds the
number of halvings. -/
def narrow (key : α → κ) (target : κ) (xs : List α) : ℕ → ℕ → ℕ → ℕ
  | 0, base, _ => base
  | fuel + 1, base, size =>
    if size ≤ 1 then base
    else
      let half := size / 2
      let mid := base + half
      match xs[mid]? with
      | some x => narrow key target xs fuel (if target < key x then base else mid) (size - half)
      | none => base

/-- The entry the halving ends at, where it has the key sought. -/
def binarySearch (key : α → κ) (target : κ) (xs : List α) : Option α :=
  match xs[narrow key target xs xs.length 0 xs.length]? with
  | some x => if key x = target then some x else none
  | none => none

theorem binarySearch_sound {target : κ} {xs : List α} {x : α}
    (h : binarySearch key target xs = some x) : x ∈ xs ∧ key x = target := by
  unfold binarySearch at h
  split at h
  · rename_i y hy
    split at h
    · rename_i hkey
      obtain rfl := Option.some.inj h
      exact ⟨List.mem_of_getElem? hy, hkey⟩
    · cases h
  · cases h

/-- The halving never leaves the one position that holds the key sought. -/
theorem narrow_eq {target : κ} {xs : List α} (hsorted : xs.Pairwise fun a b => key a < key b)
    {i : ℕ} {x : α} (hi : xs[i]? = some x) (hkey : key x = target) {fuel base size : ℕ}
    (hfuel : size ≤ fuel + 1) (hlen : base + size ≤ xs.length) (hlow : base ≤ i)
    (hhigh : i < base + size) : narrow key target xs fuel base size = i := by
  induction fuel generalizing base size with
  | zero =>
    unfold narrow
    omega
  | succ fuel ih =>
    unfold narrow
    split
    · omega
    · rename_i hsize
      have hmid : base + size / 2 < xs.length := by omega
      have hlt : i < xs.length := (List.getElem?_eq_some_iff.mp hi).1
      obtain ⟨_, rfl⟩ := List.getElem?_eq_some_iff.mp hi
      have hstep := List.pairwise_iff_getElem.mp hsorted
      dsimp only
      rw [List.getElem?_eq_getElem hmid]
      dsimp only
      split
      · rename_i hgreater
        have hbelow : i < base + size / 2 := by
          by_contra hcon
          rcases Nat.eq_or_lt_of_le (Nat.not_lt.mp hcon) with heq | hgt
          · simp only [heq, hkey, lt_self_iff_false] at hgreater
          · exact absurd (hstep _ _ hmid hlt hgt) (hkey ▸ hgreater).asymm
        exact ih (by omega) (by omega) hlow (by omega)
      · rename_i hle
        have habove : base + size / 2 ≤ i := by
          by_contra hcon
          exact hle (hkey ▸ hstep _ _ hlt hmid (Nat.not_le.mp hcon))
        exact ih (by omega) (by omega) habove (by omega)

theorem binarySearch_iff {target : κ} {xs : List α}
    (hsorted : xs.Pairwise fun a b => key a < key b) {x : α} :
    binarySearch key target xs = some x ↔ x ∈ xs ∧ key x = target := by
  refine ⟨binarySearch_sound, fun ⟨hmem, hkey⟩ => ?_⟩
  obtain ⟨i, hi⟩ := List.mem_iff_getElem?.mp hmem
  have hlt : i < xs.length := (List.getElem?_eq_some_iff.mp hi).1
  have hnarrow : narrow key target xs xs.length 0 xs.length = i :=
    narrow_eq hsorted hi hkey (by omega) (by omega) (Nat.zero_le _) (by omega)
  rw [binarySearch, hnarrow, hi]
  simp [hkey]

def get (t : SortedTable key) (target : κ) : Option α := binarySearch key target t.entries

theorem get_eq_some {t : SortedTable key} {target : κ} {x : α} :
    t.get target = some x ↔ x ∈ t.entries ∧ key x = target :=
  binarySearch_iff t.sorted

theorem get_eq_none {t : SortedTable key} {target : κ} :
    t.get target = none ↔ ∀ x ∈ t.entries, key x ≠ target := by
  rw [Option.eq_none_iff_forall_ne_some]
  constructor
  · intro h x hx hkey
    exact h x (get_eq_some.mpr ⟨hx, hkey⟩)
  · intro h x hx
    obtain ⟨hmem, hkey⟩ := get_eq_some.mp hx
    exact h x hmem hkey

theorem get_insert (t : SortedTable key) (x : α) (target : κ) :
    (t.insert x).get target = if key x = target then some x else t.get target := by
  split
  · rename_i htarget
    exact get_eq_some.mpr ⟨mem_insert.mpr (.inl rfl), htarget⟩
  · rename_i hne
    refine Option.ext fun y => ?_
    rw [get_eq_some, get_eq_some, mem_insert]
    constructor
    · rintro ⟨rfl | ⟨hy, -⟩, hkey⟩
      · exact absurd hkey hne
      · exact ⟨hy, hkey⟩
    · rintro ⟨hy, hkey⟩
      exact ⟨.inr ⟨hy, fun heq => hne (heq ▸ hkey)⟩, hkey⟩

/-- A table is told by what it finds. -/
theorem ext_of_get {s t : SortedTable key} (h : ∀ k, s.get k = t.get k) : s = t := by
  refine ext_of_mem fun x => ?_
  have hs : x ∈ s.entries ↔ s.get (key x) = some x := by rw [get_eq_some, and_iff_left rfl]
  have ht : x ∈ t.entries ↔ t.get (key x) = some x := by rw [get_eq_some, and_iff_left rfl]
  rw [hs, ht, h]

end SortedTable

end Irena.Library
