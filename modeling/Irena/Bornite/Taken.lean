import Irena.Bornite.Xml
import Mathlib.Data.Finset.Lattice.Lemmas
import Mathlib.Data.List.Nodup

/-! # Attributes that are taken

What reading the attributes of an element answers, takes and records, as a function of what stands
under each name. -/

namespace Irena.Bornite

open Irena.Library Irena.Library.Outcome Irena.Library.Strings Irena.Library.Markup

variable {ι α β : Type} [DecidableEq ι] {pairs expected : List (Text × Text)}
  {names names' names'' : Finset Text}

/-- The attributes of which the first of each of some names is taken. -/
def marked : Finset Text → List (Text × Text) → List (Text × Text × Bool)
  | _, [] => []
  | names, (key, value) :: rest =>
    (key, value, decide (key ∈ names)) :: marked (names.erase key) rest

/-- The attributes bear some of the names, each once at most. -/
def Covers (names : Finset Text) (pairs : List (Text × Text)) : Prop :=
  (pairs.map Prod.fst).Nodup ∧ ∀ key ∈ pairs.map Prod.fst, key ∈ names

theorem marked_empty : marked ∅ pairs = untaken pairs := by
  induction pairs with
  | nil => rfl
  | cons p rest ih =>
    rw [marked, Finset.erase_empty, ih]
    rfl

theorem takeFrom_marked {name : Text} (h : name ∉ names) :
    Attributes.takeFrom name (marked names pairs) =
      (pairs.lookup name, marked (insert name names) pairs) := by
  induction pairs generalizing names with
  | nil => rfl
  | cons p rest ih =>
    obtain ⟨key, value⟩ := p
    rw [marked, marked, Attributes.takeFrom]
    by_cases hkey : key = name
    · subst hkey
      rw [if_pos rfl, List.lookup_cons_self, Finset.erase_eq_of_notMem h,
        Finset.erase_insert h, decide_eq_true (Finset.mem_insert_self _ _)]
    · have hlookup : List.lookup name ((key, value) :: rest) = rest.lookup name := by
        rw [List.lookup_cons, beq_false_of_ne (Ne.symm hkey)]
      have hmem : key ∈ insert name names ↔ key ∈ names := by simp [hkey]
      rw [if_neg hkey, ih fun hname => h (Finset.mem_of_mem_erase hname), hlookup,
        Finset.erase_insert_of_ne (Ne.symm hkey), decide_eq_decide.mpr hmem]

theorem unknown_marked {element : Text} :
    (Attributes.mk element (marked names pairs)).unknown = none ↔ Covers names pairs := by
  rw [Attributes.unknown, Option.map_eq_none_iff]
  induction pairs generalizing names with
  | nil => simp [marked, Covers]
  | cons p rest ih =>
    obtain ⟨key, value⟩ := p
    rw [marked, List.find?_cons]
    by_cases hkey : key ∈ names
    · simp only [hkey, decide_true, Bool.not_true, ih, Covers, List.map_cons, List.nodup_cons,
        List.forall_mem_cons, Finset.mem_erase, true_and]
      constructor
      · rintro ⟨hnodup, hall⟩
        exact ⟨⟨fun hmem => (hall key hmem).1 rfl, hnodup⟩, fun k hk => (hall k hk).2⟩
      · rintro ⟨⟨hnew, hnodup⟩, hall⟩
        exact ⟨hnodup, fun k hk => ⟨fun heq => hnew (heq ▸ hk), hall k hk⟩⟩
    · simp [hkey, Covers]

theorem lookup_eq_some_iff {key value : Text} (h : (pairs.map Prod.fst).Nodup) :
    pairs.lookup key = some value ↔ (key, value) ∈ pairs := by
  induction pairs with
  | nil => simp
  | cons p rest ih =>
    obtain ⟨key', value'⟩ := p
    rw [List.map_cons, List.nodup_cons] at h
    rw [List.lookup_cons, List.mem_cons]
    by_cases hkey : key = key'
    · subst hkey
      have hrest : (key, value) ∉ rest := fun hmem => h.1 (List.mem_map.mpr ⟨_, hmem, rfl⟩)
      simp [hrest, eq_comm]
    · rw [beq_false_of_ne hkey, ih h.2]
      simp [hkey]

/-- Attributes in some order, by what stands under each name. -/
theorem perm_iff_covers (hnodup : (expected.map Prod.fst).Nodup)
    (hnames : ∀ key ∈ expected.map Prod.fst, key ∈ names) :
    pairs.Perm expected ↔
      Covers names pairs ∧ ∀ name ∈ names, pairs.lookup name = expected.lookup name := by
  constructor
  · intro h
    have hkeys := h.map Prod.fst
    refine ⟨⟨hkeys.nodup_iff.mpr hnodup, fun key hkey => hnames key (hkeys.mem_iff.mp hkey)⟩, ?_⟩
    intro name _
    ext value
    rw [lookup_eq_some_iff (hkeys.nodup_iff.mpr hnodup), lookup_eq_some_iff hnodup, h.mem_iff]
  · rintro ⟨⟨hpairs, hcovered⟩, hlookup⟩
    refine (List.perm_ext_iff_of_nodup hpairs.of_map hnodup.of_map).mpr fun ⟨key, value⟩ => ?_
    rw [← lookup_eq_some_iff hpairs, ← lookup_eq_some_iff hnodup]
    by_cases hkey : key ∈ names
    · rw [hlookup key hkey]
    · have hno : ∀ {l : List (Text × Text)}, (l.map Prod.fst).Nodup →
          (∀ k ∈ l.map Prod.fst, k ∈ names) → l.lookup key ≠ some value := fun hl hcover hsome =>
        hkey (hcover key (List.mem_map_of_mem ((lookup_eq_some_iff hl).mp hsome)))
      exact iff_of_false (hno hpairs hcovered) (hno hnodup hnames)

/-- With some names taken, a reading answers `a`, has more names taken, and records an issue
unless `clean`. -/
def Takes (pairs : List (Text × Text)) (names : Finset Text) (body : Reading ι α) (a : α)
    (names' : Finset Text) (clean : Prop) : Prop :=
  ∀ element issues, ∃ found, body (⟨element, marked names pairs⟩, issues) =
    (a, ⟨element, marked names' pairs⟩, found) ∧ (found = ∅ ↔ issues = ∅ ∧ clean)

omit [DecidableEq ι] in
theorem takes_pure {a : α} : Takes pairs names (pure a : Reading ι α) a names True :=
  fun _ issues => ⟨issues, rfl, by simp⟩

omit [DecidableEq ι] in
theorem Takes.bind {body : Reading ι α} {f : α → Reading ι β} {a : α} {b : β} {clean clean' : Prop}
    (h : Takes pairs names body a names' clean) (hf : Takes pairs names' (f a) b names'' clean') :
    Takes pairs names (body >>= f) b names'' (clean ∧ clean') := by
  intro element issues
  obtain ⟨found, hbody, hfound⟩ := h element issues
  obtain ⟨found', hf, hfound'⟩ := hf element found
  refine ⟨found', ?_, by rw [hfound', hfound, and_assoc]⟩
  change f (body _).1 (body _).2 = _
  rw [hbody]
  exact hf

omit [DecidableEq ι] in
theorem Takes.of_iff {body : Reading ι α} {a : α} {clean clean' : Prop}
    (h : Takes pairs names body a names' clean) (hclean : clean ↔ clean') :
    Takes pairs names body a names' clean' := by
  rwa [← propext hclean]

omit [DecidableEq ι] in
theorem takes_take {name : Text} (h : name ∉ names) :
    Takes pairs names (Attributes.take name : Reading ι _) (pairs.lookup name) (insert name names)
      True := by
  intro element issues
  refine ⟨issues, ?_, by simp⟩
  change ((Attributes.takeFrom name (marked names pairs)).1, _, _) = _
  rw [takeFrom_marked h]

theorem takes_push {issue : ι} : Takes pairs names (Attributes.push issue) () names False :=
  fun _ issues => ⟨insert issue issues, rfl, by simp⟩

omit [DecidableEq ι] in
/-- What a reading knows of the state does not matter to what it takes. -/
theorem takes_get {f : Attributes × Finset ι → Reading ι β} {b : β} {clean : Prop}
    (h : ∀ p, Takes pairs names (f p) b names' clean) :
    Takes pairs names (get >>= f) b names' clean :=
  fun element issues => h _ element issues

/-- An answer with an issue. -/
theorem takes_refused {issue : Attributes × Finset ι → ι} {b : β} {clean : Prop} (h : ¬ clean) :
    Takes pairs names (do
      let p ← get
      Attributes.push (issue p)
      return b) b names clean :=
  takes_get fun _ => (takes_push.bind (takes_pure (a := b))).of_iff (by simpa using h)

/-- A required attribute. -/
theorem takes_requireWith {onMissing : XmlIssueV1 → ι} {name : Text} (h : name ∉ names) :
    Takes pairs names (Attributes.requireWith onMissing name) (pairs.lookup name)
      (insert name names) ((pairs.lookup name).isSome = true) := by
  have hvalue (p : Attributes × Finset ι) : Takes pairs (insert name names) (do
      if pairs.lookup name = none then
        Attributes.push (onMissing (.missingAttribute p.1.element name))
      return pairs.lookup name) (pairs.lookup name) (insert name names)
      ((pairs.lookup name).isSome = true) := by
    cases pairs.lookup name with
    | none => exact (takes_push.bind (takes_pure (a := none))).of_iff (by simp)
    | some value => exact (takes_pure (a := some value)).of_iff (by simp)
  exact ((takes_take h).bind (takes_get hvalue)).of_iff (Iff.of_eq (true_and _))

theorem takes_require {name : Text} (h : name ∉ names) :
    Takes pairs names (Attributes.require name) (pairs.lookup name) (insert name names)
      ((pairs.lookup name).isSome = true) :=
  takes_requireWith h

/-- An attribute that must not be there. -/
theorem takes_forbid {reason name : Text} (h : name ∉ names) :
    Takes pairs names (Attributes.forbid reason name) () (insert name names)
      (pairs.lookup name = none) := by
  refine ((takes_take h).bind (takes_get fun p => ?_)).of_iff (Iff.of_eq (true_and _))
  cases hlookup : pairs.lookup name with
  | none => exact takes_pure.of_iff (by simp)
  | some value => exact takes_push.of_iff (by simp)

omit [DecidableEq ι] in
/-- Reading several attributes one after the other. -/
theorem takes_forM {f : Text → Reading ι Unit} {clean : Text → Prop}
    (hf : ∀ {names name}, name ∉ names →
      Takes pairs names (f name) () (insert name names) (clean name))
    {list : List Text} (hlist : list.Nodup) (hnames : ∀ name ∈ list, name ∉ names) :
    Takes pairs names (list.forM f) () (names ∪ list.toFinset) (∀ name ∈ list, clean name) := by
  induction list generalizing names with
  | nil =>
    rw [List.toFinset_nil, Finset.union_empty]
    exact takes_pure.of_iff (by simp)
  | cons name rest ih =>
    rw [List.nodup_cons] at hlist
    have hrest : ∀ other ∈ rest, other ∉ insert name names := by
      intro other hother hmem
      rcases Finset.mem_insert.mp hmem with rfl | hmem
      · exact hlist.1 hother
      · exact hnames other (List.mem_cons_of_mem _ hother) hmem
    have hunion : names ∪ (name :: rest).toFinset = insert name names ∪ rest.toFinset := by
      rw [List.toFinset_cons, Finset.union_insert, Finset.insert_union]
    rw [hunion]
    refine ((hf (hnames name List.mem_cons_self)).bind (ih hlist.2 hrest)).of_iff ?_
    exact List.forall_mem_cons.symm

omit [DecidableEq ι] in
/-- A value that is read from one that may be missing. -/
theorem takes_andThen {a : Option α} {f : α → Reading ι (Option β)} {value : α → Option β}
    (hf : ∀ a, Takes pairs names (f a) (value a) names ((value a).isSome = true)) :
    Takes pairs names (andThen a f) (a.bind value) names
      (∀ x, a = some x → (value x).isSome = true) := by
  cases a with
  | none => exact (takes_pure (a := none)).of_iff (by simp)
  | some a => exact (hf a).of_iff (by simp)

/-- A required attribute, a value read from it, and what is done with the value. -/
theorem takes_value {name : Text} {f : Text → Reading XmlIssueV1 (Option α)}
    {value : Text → Option α} {g : Option α → Reading XmlIssueV1 β} {b : β} {clean : Prop}
    (h : name ∉ names)
    (hf : ∀ names text, Takes pairs names (f text) (value text) names
      ((value text).isSome = true))
    (hg : Takes pairs (insert name names) (g ((pairs.lookup name).bind value)) b names' clean) :
    Takes pairs names (Attributes.require name >>= fun text => andThen text f >>= g) b names'
      (((pairs.lookup name).bind value).isSome = true ∧ clean) := by
  refine ((takes_require h).bind ((takes_andThen fun _ => hf _ _).bind hg)).of_iff ?_
  cases pairs.lookup name <;> simp

omit [DecidableEq ι] in
/-- Attributes that are taken and left aside. -/
theorem takes_drain {list : List Text} (hlist : list.Nodup) (hnames : ∀ name ∈ list, name ∉ names) :
    Takes pairs names (list.forM fun name => do
      let _ ← (Attributes.take name : Reading ι _)) () (names ∪ list.toFinset) True := by
  have hone {names : Finset Text} {name : Text} (h : name ∉ names) :
      Takes pairs names (do let _ ← (Attributes.take name : Reading ι _)) () (insert name names)
        True :=
    ((takes_take h).bind (takes_pure (a := ()))).of_iff (Iff.of_eq (true_and True))
  have hall := takes_forM hone hlist hnames
  exact hall.of_iff (by simp)

/-- With some names taken, a reading answers the values of a grammar: then every attribute is taken
and nothing is recorded, and otherwise an issue, an attribute or the value is amiss. -/
def Answers (pairs : List (Text × Text)) (names : Finset Text) (body : Reading ι (Option α))
    (Grammar : α → Prop) : Prop :=
  ∃ value names' clean, Takes pairs names body value names' clean ∧
    ∀ a, clean ∧ Covers names' pairs ∧ value = some a ↔ Grammar a

omit [DecidableEq ι] in
theorem answers_of_takes {body : Reading ι (Option α)} {value : Option α} {clean : Prop}
    {Grammar : α → Prop} (h : Takes pairs names body value names' clean) (hnames : names' = names'')
    (hiff : ∀ a, clean ∧ Covers names'' pairs ∧ value = some a ↔ Grammar a) :
    Answers pairs names body Grammar := by
  subst hnames
  exact ⟨value, names', clean, h, hiff⟩

omit [DecidableEq ι] in
theorem Takes.answers {body : Reading ι α} {f : α → Reading ι (Option β)} {a : α} {clean : Prop}
    {Grammar : β → Prop} (h : Takes pairs names body a names' clean)
    (hf : Answers pairs names' (f a) Grammar) (hclean : ∀ b, Grammar b → clean) :
    Answers pairs names (body >>= f) Grammar := by
  obtain ⟨value, names'', clean', htakes, hiff⟩ := hf
  refine ⟨value, names'', _, h.bind htakes, fun b => ⟨fun ⟨⟨_, hb⟩, hrest⟩ => ?_, fun hb => ?_⟩⟩
  · exact (hiff b).mp ⟨hb, hrest⟩
  · obtain ⟨hb', hrest⟩ := (hiff b).mpr hb
    exact ⟨⟨hclean b hb, hb'⟩, hrest⟩

omit [DecidableEq ι] in
/-- A reading that answers nothing. -/
theorem answers_none {body : Reading ι (Option α)} {clean : Prop} {Grammar : α → Prop}
    (h : Takes pairs names body none names' clean) (hno : ∀ a, ¬ Grammar a) :
    Answers pairs names body Grammar :=
  ⟨none, names', clean, h, fun a => iff_of_false (by simp) (hno a)⟩

end Irena.Bornite
