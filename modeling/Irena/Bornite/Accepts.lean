import Irena.Bornite.Grammar
import Irena.Library.PlainMarkup

/-! # What the reader of voting rules accepts

The reader answers the rules of its grammar, and refuses every other element. -/

namespace Irena.Bornite

open Irena.Library Irena.Library.Outcome Irena.Library.Strings Irena.Library.Markup

section Reader

variable [Scanner] {φ κ α : Type} [DocumentFault φ]

theorem run_expectLeaf [LawfulScanner] {element : Text} {isEmpty : Bool} {r r' : Reader} {u : Unit} :
    (expectLeaf element isEmpty : Parse φ κ Unit).run r = (.ok u, r') ↔ HollowRest isEmpty r r' := by
  unfold expectLeaf HollowRest
  cases isEmpty with
  | true => simp [eq_comm]
  | false =>
    simp only [Bool.false_eq_true, if_false]
    unfold expectEmpty
    rw [Parse.run_children_hollow (by simp)]
    simp

/-- Attributes are read without the text behind them. -/
theorem readAttributes_eq_answer {ι : Type} [DecidableEq ι] {element : Text} {tag : Tag}
    {issues : Finset ι} {body : Reading ι α} :
    ∃ x, (readAttributes element tag issues body : Parse φ κ (α × Finset ι)) = Parse.answer x := by
  unfold readAttributes
  split
  · exact ⟨_, rfl⟩
  · split
    split
    · exact ⟨_, rfl⟩
    · exact ⟨_, rfl⟩

/-- Attributes that are read without an issue are those of the grammar. -/
theorem run_readAttributes_ok {body : Reading XmlIssueV1 (Option α)}
    {Grammar : List (Text × Text) → α → Prop} (h : Describes body Grammar)
    (hsettles : Settles body fun value => value.isSome = true) {element : Text} {tag : Tag}
    {issues : Finset XmlIssueV1} {value : Option α} {r r' : Reader} :
    (readAttributes element tag issues body : Parse φ κ _).run r = (.ok (value, ∅), r') ↔
      issues = ∅ ∧ r' = r ∧ ∃ a, value = some a ∧ Says Grammar tag a := by
  unfold Says
  cases htag : tag.attributes with
  | none =>
    rw [readAttributes_bad htag]
    simp
  | some pairs =>
    obtain ⟨answer, names, clean, htakes, hiff⟩ := h pairs
    obtain ⟨found, hbody, hfound⟩ := htakes element issues
    obtain ⟨-, hsome⟩ := hsettles ⟨element, marked ∅ pairs⟩ issues
    rw [hbody] at hsome
    rw [marked_empty] at hbody
    cases hunknown : Attributes.unknown ⟨element, marked names pairs⟩ with
    | some key =>
      have hcovers : ¬ Covers names pairs := fun hcovers => by
        rw [unknown_marked.mpr hcovers] at hunknown
        cases hunknown
      rw [readAttributes_unknown htag hbody hunknown]
      simp only [Parse.run_fatal, Prod.mk.injEq, reduceCtorEq, false_and, Option.some.injEq,
        exists_eq_left', false_iff]
      rintro ⟨-, -, a, -, hgrammar⟩
      exact hcovers ((hiff a).mpr hgrammar).2.1
    | none =>
      have hcovers := unknown_marked.mp hunknown
      rw [readAttributes_known htag hbody hunknown]
      simp only [Parse.run_pure, Prod.mk.injEq, Except.ok.injEq, Option.some.injEq,
        exists_eq_left']
      constructor
      · rintro ⟨⟨rfl, rfl⟩, rfl⟩
        obtain ⟨hissues, hclean⟩ := hfound.mp rfl
        obtain ⟨a, ha⟩ := Option.isSome_iff_exists.mp (hsome rfl)
        exact ⟨hissues, rfl, a, ha, (hiff a).mp ⟨hclean, hcovers, ha⟩⟩
      · rintro ⟨hissues, rfl, a, rfl, hgrammar⟩
        obtain ⟨hclean, -, ha⟩ := (hiff a).mpr hgrammar
        exact ⟨⟨ha, hfound.mpr ⟨hissues, hclean⟩⟩, rfl⟩

/-- A child that fills its slot. -/
inductive RuleChild (s : RuleSlots) (tag : Tag) : RuleSlots → Prop
  | weight {a} : tag.name = lit "weight" → s.weight = none →
      Says (Chooses (lit "type") weightTypes) tag a →
      RuleChild s tag { s with weight := some (some a) }
  | exclusions {a} : tag.name = lit "exclusions" → s.exclusions = none →
      Says (Chooses (lit "enabled") switches) tag a →
      RuleChild s tag { s with exclusions := some (some a) }
  | quorum {a} : tag.name = lit "quorum" → s.quorum = none → Says QuorumAttributes tag a →
      RuleChild s tag { s with quorum := some (some a) }
  | threshold {a} : tag.name = lit "threshold" → s.threshold = none →
      Says ThresholdAttributes tag a → RuleChild s tag { s with threshold := some (some a) }
  | abstentions {a} : tag.name = lit "abstentions" → s.abstentions = none →
      Says (Chooses (lit "treatment") abstentionTreatments) tag a →
      RuleChild s tag { s with abstentions := some (some a) }
  | tie {a} : tag.name = lit "tie" → s.tie = none →
      Says (Chooses (lit "treatment") tieTreatments) tag a →
      RuleChild s tag { s with tie := some (some a) }

/-- What reading a child behind an empty-element tag leaves of the slots. -/
def RuleStep (s : RuleSlots) (tag : Tag) (s' : RuleSlots) : Prop :=
  ∀ r, (parseRuleChild s tag true).run r = (.ok s', r)

/-- A child is read as its tag is, and up to after its end tag. -/
theorem run_parseRule [LawfulScanner] {element : Text} {body : Reading XmlIssueV1 (Option α)}
    {tag : Tag} {slots : RuleSlots} {get : RuleSlots → Option (Option α)}
    {set : Option (Option α) → Finset XmlIssueV1 → RuleSlots} {isEmpty : Bool} {s' : RuleSlots}
    {r r' : Reader} : (parseRule element body tag isEmpty slots get set).run r = (.ok s', r') ↔
      (∀ r, (parseRule element body tag true slots get set).run r = (.ok s', r)) ∧
        HollowRest isEmpty r r' := by
  obtain ⟨x, hx⟩ : ∃ x, (readAttributes element tag slots.issues body : XmlParse _) =
    Parse.answer x := readAttributes_eq_answer
  have hrun {isEmpty : Bool} {r r' : Reader} :
      (parseRule element body tag isEmpty slots get set).run r = (.ok s', r') ↔
        ∃ value issues, x = .ok (value, issues) ∧ HollowRest isEmpty r r' ∧
          set (setOnce (get slots) element value issues).1
            (setOnce (get slots) element value issues).2 = s' := by
    unfold parseRule
    rw [hx, Parse.run_bind_ok]
    constructor
    · rintro ⟨⟨value, issues⟩, r₁, hread, h⟩
      obtain ⟨hx, rfl⟩ : x = .ok (value, issues) ∧ r = r₁ := by simpa using hread
      obtain ⟨_, r₂, hleaf, h⟩ := Parse.run_bind_ok.mp h
      obtain ⟨hset, rfl⟩ : _ = s' ∧ r₂ = r' := by simpa using h
      exact ⟨value, issues, hx, run_expectLeaf.mp hleaf, hset⟩
    · rintro ⟨value, issues, rfl, hleaf, hset⟩
      refine ⟨(value, issues), r, rfl, Parse.run_bind_ok.mpr ⟨(), r', run_expectLeaf.mpr hleaf, ?_⟩⟩
      rw [← hset]
      rfl
  rw [hrun]
  constructor
  · rintro ⟨value, issues, hx, hrest, hset⟩
    exact ⟨fun r => hrun.mpr ⟨value, issues, hx, rfl, hset⟩, hrest⟩
  · rintro ⟨hstep, hrest⟩
    obtain ⟨value, issues, hx, -, hset⟩ := hrun.mp (hstep r)
    exact ⟨value, issues, hx, hrest, hset⟩

theorem run_parseRuleChild [LawfulScanner] {s s' : RuleSlots} {tag : Tag} {isEmpty : Bool}
    {r r' : Reader} : (parseRuleChild s tag isEmpty).run r = (.ok s', r') ↔
      RuleStep s tag s' ∧ HollowRest isEmpty r r' := by
  unfold RuleStep parseRuleChild
  split_ifs
  · exact run_parseRule
  · exact run_parseRule
  · exact run_parseRule
  · exact run_parseRule
  · exact run_parseRule
  · exact run_parseRule
  · exact iff_of_false (by simp [unknownChild]) fun h => by simpa [unknownChild] using h.1 r

/-- A child is read without an issue where it fills its slot with a value of its grammar. -/
theorem parseRule_clean {body : Reading XmlIssueV1 (Option α)}
    {Grammar : List (Text × Text) → α → Prop} (h : Describes body Grammar)
    (hsettles : Settles body fun value => value.isSome = true) {element : Text} {tag : Tag}
    {slots s' : RuleSlots} {get : RuleSlots → Option (Option α)}
    {set : Option (Option α) → Finset XmlIssueV1 → RuleSlots}
    (hset : ∀ slot issues, (set slot issues).issues = issues) :
    (∀ r, (parseRule element body tag true slots get set).run r = (.ok s', r)) ∧ s'.issues = ∅ ↔
      slots.issues = ∅ ∧ get slots = none ∧
        ∃ a, Says Grammar tag a ∧ s' = set (some (some a)) ∅ := by
  constructor
  · rintro ⟨hrun, hissues⟩
    obtain ⟨⟨value, found⟩, r₁, hattributes, hrest⟩ := Parse.run_bind_ok.mp (hrun ⟨[], []⟩)
    obtain ⟨_, r₂, -, hrest⟩ := Parse.run_bind_ok.mp hrest
    obtain ⟨rfl, -⟩ : _ = s' ∧ r₂ = ⟨[], []⟩ := by simpa using hrest
    rw [hset] at hissues
    cases hslot : get slots with
    | some filled =>
      rw [hslot] at hissues
      exact absurd hissues (Finset.insert_ne_empty _ _)
    | none =>
      rw [hslot] at hissues
      obtain rfl : found = ∅ := hissues
      obtain ⟨hslots, -, a, rfl, hsays⟩ := (run_readAttributes_ok h hsettles).mp hattributes
      exact ⟨hslots, rfl, a, hsays, rfl⟩
  · rintro ⟨hslots, hslot, a, hsays, rfl⟩
    refine ⟨fun r => ?_, hset _ _⟩
    have hattributes : (readAttributes element tag slots.issues body : XmlParse _).run r =
        (.ok (some a, ∅), r) :=
      (run_readAttributes_ok h hsettles).mpr ⟨hslots, rfl, a, rfl, hsays⟩
    refine Parse.run_bind_ok.mpr ⟨_, _, hattributes, ?_⟩
    rw [hslot]
    rfl

/-- A child is read without an issue exactly where it is one of the six and fills its slot. -/
theorem ruleStep_clean {s s' : RuleSlots} {tag : Tag} :
    RuleStep s tag s' ∧ s'.issues = ∅ ↔ s.issues = ∅ ∧ RuleChild s tag s' := by
  have hsame {issues : Finset XmlIssueV1} (h : s.issues = issues) : s = { s with issues } := by
    rw [← h]
  constructor
  · rintro ⟨hstep, hissues⟩
    unfold RuleStep parseRuleChild at hstep
    split_ifs at hstep with hname hname hname hname hname hname
    · obtain ⟨hnone, hslot, a, hsays, rfl⟩ :=
        (parseRule_clean describes_weight settles_weightAttributes fun _ _ => rfl).mp ⟨hstep, hissues⟩
      rw [hsame hnone]
      exact ⟨rfl, .weight hname hslot hsays⟩
    · obtain ⟨hnone, hslot, a, hsays, rfl⟩ :=
        (parseRule_clean describes_exclusions settles_exclusionsAttributes fun _ _ => rfl).mp
          ⟨hstep, hissues⟩
      rw [hsame hnone]
      exact ⟨rfl, .exclusions hname hslot hsays⟩
    · obtain ⟨hnone, hslot, a, hsays, rfl⟩ :=
        (parseRule_clean describes_quorum settles_quorumAttributes fun _ _ => rfl).mp ⟨hstep, hissues⟩
      rw [hsame hnone]
      exact ⟨rfl, .quorum hname hslot hsays⟩
    · obtain ⟨hnone, hslot, a, hsays, rfl⟩ :=
        (parseRule_clean describes_threshold settles_thresholdAttributes fun _ _ => rfl).mp
          ⟨hstep, hissues⟩
      rw [hsame hnone]
      exact ⟨rfl, .threshold hname hslot hsays⟩
    · obtain ⟨hnone, hslot, a, hsays, rfl⟩ :=
        (parseRule_clean describes_abstentions settles_abstentionsAttributes fun _ _ => rfl).mp
          ⟨hstep, hissues⟩
      rw [hsame hnone]
      exact ⟨rfl, .abstentions hname hslot hsays⟩
    · obtain ⟨hnone, hslot, a, hsays, rfl⟩ :=
        (parseRule_clean describes_tie settles_tieAttributes fun _ _ => rfl).mp ⟨hstep, hissues⟩
      rw [hsame hnone]
      exact ⟨rfl, .tie hname hslot hsays⟩
    · simpa [unknownChild] using hstep ⟨[], []⟩
  · rintro ⟨hnone, hchild⟩
    unfold RuleStep parseRuleChild
    cases hchild with
    | @weight a hname hslot hsays =>
      rw [if_pos hname, hsame hnone]
      exact (parseRule_clean describes_weight settles_weightAttributes fun _ _ => rfl).mpr
        ⟨rfl, hslot, a, hsays, rfl⟩
    | @exclusions a hname hslot hsays =>
      rw [hname, if_neg (by decide), if_pos rfl, hsame hnone]
      exact (parseRule_clean describes_exclusions settles_exclusionsAttributes fun _ _ => rfl).mpr
        ⟨rfl, hslot, a, hsays, rfl⟩
    | @quorum a hname hslot hsays =>
      rw [hname, if_neg (by decide), if_neg (by decide), if_pos rfl, hsame hnone]
      exact (parseRule_clean describes_quorum settles_quorumAttributes fun _ _ => rfl).mpr
        ⟨rfl, hslot, a, hsays, rfl⟩
    | @threshold a hname hslot hsays =>
      rw [hname, if_neg (by decide), if_neg (by decide), if_neg (by decide), if_pos rfl, hsame hnone]
      exact (parseRule_clean describes_threshold settles_thresholdAttributes fun _ _ => rfl).mpr
        ⟨rfl, hslot, a, hsays, rfl⟩
    | @abstentions a hname hslot hsays =>
      rw [hname, if_neg (by decide), if_neg (by decide), if_neg (by decide), if_neg (by decide),
        if_pos rfl, hsame hnone]
      exact (parseRule_clean describes_abstentions settles_abstentionsAttributes fun _ _ => rfl).mpr
        ⟨rfl, hslot, a, hsays, rfl⟩
    | @tie a hname hslot hsays =>
      rw [hname, if_neg (by decide), if_neg (by decide), if_neg (by decide), if_neg (by decide),
        if_neg (by decide), if_pos rfl, hsame hnone]
      exact (parseRule_clean describes_tie settles_tieAttributes fun _ _ => rfl).mpr
        ⟨rfl, hslot, a, hsays, rfl⟩

omit [Scanner] in
theorem RuleChild.issues {s s' : RuleSlots} {tag : Tag} (h : RuleChild s tag s') :
    s'.issues = s.issues := by
  cases h <;> rfl

/-- A list of children is read without an issue exactly where each of them fills its slot. -/
theorem steps_clean {s t : RuleSlots} {tags : List Tag} :
    Steps RuleStep s tags t ∧ t.issues = ∅ ↔ s.issues = ∅ ∧ Steps RuleChild s tags t := by
  constructor
  · rintro ⟨hsteps, hissues⟩
    induction hsteps with
    | nil => exact ⟨hissues, .nil⟩
    | cons hstep _ ih =>
      obtain ⟨hnone, hsteps⟩ := ih hissues
      obtain ⟨hnone, hchild⟩ := ruleStep_clean.mp ⟨hstep, hnone⟩
      exact ⟨hnone, .cons hchild hsteps⟩
  · rintro ⟨hnone, hsteps⟩
    induction hsteps with
    | nil => exact ⟨.nil, hnone⟩
    | cons hchild _ ih =>
      obtain ⟨hstep, hissues⟩ := ruleStep_clean.mpr ⟨hnone, hchild⟩
      obtain ⟨hsteps, hissues⟩ := ih hissues
      exact ⟨.cons hstep hsteps, hissues⟩

omit [Scanner] in
theorem RuleChild.name_mem {s s' : RuleSlots} {tag : Tag} (h : RuleChild s tag s') :
    tag.name ∈ ruleNames := by
  cases h with
  | weight hname => rw [hname]; decide
  | exclusions hname => rw [hname]; decide
  | quorum hname => rw [hname]; decide
  | threshold hname => rw [hname]; decide
  | abstentions hname => rw [hname]; decide
  | tie hname => rw [hname]; decide

omit [Scanner] in
theorem names_of_steps {s t : RuleSlots} {tags : List Tag} (h : Steps RuleChild s tags t) :
    ∀ tag ∈ tags, tag.name ∈ ruleNames := by
  induction h with
  | nil => simp
  | cons hchild _ ih => exact List.forall_mem_cons.mpr ⟨hchild.name_mem, ih⟩

/-- A slot that is filled in the end has its one child. -/
def Fills (name : Text) (slot : RuleSlots → Option (Option α))
    (Grammar : List (Text × Text) → α → Prop) : Prop :=
  ∀ {s t : RuleSlots} {tags : List Tag}, Steps RuleChild s tags t → slot s = none →
    (tags.filter (fun tag => tag.name = name) = [] ∧ slot t = none) ∨
      ∃ tag a, tags.filter (fun tag => tag.name = name) = [tag] ∧ Says Grammar tag a ∧
        slot t = some (some a)

omit [Scanner] in
theorem fills_of_child {name : Text} {slot : RuleSlots → Option (Option α)}
    {Grammar : List (Text × Text) → α → Prop}
    (hother : ∀ {s tag s'}, RuleChild s tag s' → tag.name ≠ name → slot s' = slot s)
    (hnamed : ∀ {s tag s'}, RuleChild s tag s' → tag.name = name →
      slot s = none ∧ ∃ a, Says Grammar tag a ∧ slot s' = some (some a)) :
    Fills name slot Grammar := by
  intro s t tags h hs
  have hslot := h.slot name slot (fun tag v => ∃ a, v = some a ∧ Says Grammar tag a) hother
    fun hchild hname => by
      obtain ⟨hnone, a, hsays, hv⟩ := hnamed hchild hname
      exact ⟨hnone, some a, ⟨a, rfl, hsays⟩, hv⟩
  rcases hslot with ⟨hnil, hkept⟩ | ⟨-, tag, v, hone, ⟨a, rfl, hsays⟩, hv⟩
  · exact .inl ⟨hnil, hkept.trans hs⟩
  · exact .inr ⟨tag, a, hone, hsays, hv⟩

omit [Scanner] in
theorem fills_weight :
    Fills (lit "weight") RuleSlots.weight (Chooses (lit "type") weightTypes) := by
  refine fills_of_child (fun h hname => ?_) fun h hname => ?_
  · cases h with
    | weight hnamed => exact absurd hnamed hname
    | _ => rfl
  · cases h with
    | weight _ hslot hsays => exact ⟨hslot, _, hsays, rfl⟩
    | _ hother => exact absurd (hname.symm.trans hother) (by decide)

omit [Scanner] in
theorem fills_exclusions :
    Fills (lit "exclusions") RuleSlots.exclusions (Chooses (lit "enabled") switches) := by
  refine fills_of_child (fun h hname => ?_) fun h hname => ?_
  · cases h with
    | exclusions hnamed => exact absurd hnamed hname
    | _ => rfl
  · cases h with
    | exclusions _ hslot hsays => exact ⟨hslot, _, hsays, rfl⟩
    | _ hother => exact absurd (hname.symm.trans hother) (by decide)

omit [Scanner] in
theorem fills_quorum : Fills (lit "quorum") RuleSlots.quorum QuorumAttributes := by
  refine fills_of_child (fun h hname => ?_) fun h hname => ?_
  · cases h with
    | quorum hnamed => exact absurd hnamed hname
    | _ => rfl
  · cases h with
    | quorum _ hslot hsays => exact ⟨hslot, _, hsays, rfl⟩
    | _ hother => exact absurd (hname.symm.trans hother) (by decide)

omit [Scanner] in
theorem fills_threshold : Fills (lit "threshold") RuleSlots.threshold ThresholdAttributes := by
  refine fills_of_child (fun h hname => ?_) fun h hname => ?_
  · cases h with
    | threshold hnamed => exact absurd hnamed hname
    | _ => rfl
  · cases h with
    | threshold _ hslot hsays => exact ⟨hslot, _, hsays, rfl⟩
    | _ hother => exact absurd (hname.symm.trans hother) (by decide)

omit [Scanner] in
theorem fills_abstentions :
    Fills (lit "abstentions") RuleSlots.abstentions (Chooses (lit "treatment") abstentionTreatments) := by
  refine fills_of_child (fun h hname => ?_) fun h hname => ?_
  · cases h with
    | abstentions hnamed => exact absurd hnamed hname
    | _ => rfl
  · cases h with
    | abstentions _ hslot hsays => exact ⟨hslot, _, hsays, rfl⟩
    | _ hother => exact absurd (hname.symm.trans hother) (by decide)

omit [Scanner] in
theorem fills_tie : Fills (lit "tie") RuleSlots.tie (Chooses (lit "treatment") tieTreatments) := by
  refine fills_of_child (fun h hname => ?_) fun h hname => ?_
  · cases h with
    | tie hnamed => exact absurd hnamed hname
    | _ => rfl
  · cases h with
    | tie _ hslot hsays => exact ⟨hslot, _, hsays, rfl⟩
    | _ hother => exact absurd (hname.symm.trans hother) (by decide)

/-- No child of the name has been met. -/
structure RuleSlots.Free (s : RuleSlots) (name : Text) : Prop where
  weight : name = lit "weight" → s.weight = none
  exclusions : name = lit "exclusions" → s.exclusions = none
  quorum : name = lit "quorum" → s.quorum = none
  threshold : name = lit "threshold" → s.threshold = none
  abstentions : name = lit "abstentions" → s.abstentions = none
  tie : name = lit "tie" → s.tie = none

omit [Scanner] in
/-- A child that fills a slot of some slots fills that of others where it is free. -/
theorem RuleChild.of_free {s₀ s₁ s : RuleSlots} {tag : Tag} (h : RuleChild s₀ tag s₁)
    (hfree : s.Free tag.name) : ∃ s', RuleChild s tag s' ∧
      ∀ name, name ≠ tag.name → s.Free name → s'.Free name := by
  cases h with
  | weight hname _ hsays =>
    refine ⟨_, .weight hname (hfree.weight hname) hsays, fun name hne h => ?_⟩
    exact ⟨fun heq => absurd (heq.trans hname.symm) hne, h.exclusions, h.quorum, h.threshold,
      h.abstentions, h.tie⟩
  | exclusions hname _ hsays =>
    refine ⟨_, .exclusions hname (hfree.exclusions hname) hsays, fun name hne h => ?_⟩
    exact ⟨h.weight, fun heq => absurd (heq.trans hname.symm) hne, h.quorum, h.threshold,
      h.abstentions, h.tie⟩
  | quorum hname _ hsays =>
    refine ⟨_, .quorum hname (hfree.quorum hname) hsays, fun name hne h => ?_⟩
    exact ⟨h.weight, h.exclusions, fun heq => absurd (heq.trans hname.symm) hne, h.threshold,
      h.abstentions, h.tie⟩
  | threshold hname _ hsays =>
    refine ⟨_, .threshold hname (hfree.threshold hname) hsays, fun name hne h => ?_⟩
    exact ⟨h.weight, h.exclusions, h.quorum, fun heq => absurd (heq.trans hname.symm) hne,
      h.abstentions, h.tie⟩
  | abstentions hname _ hsays =>
    refine ⟨_, .abstentions hname (hfree.abstentions hname) hsays, fun name hne h => ?_⟩
    exact ⟨h.weight, h.exclusions, h.quorum, h.threshold,
      fun heq => absurd (heq.trans hname.symm) hne, h.tie⟩
  | tie hname _ hsays =>
    refine ⟨_, .tie hname (hfree.tie hname) hsays, fun name hne h => ?_⟩
    exact ⟨h.weight, h.exclusions, h.quorum, h.threshold, h.abstentions,
      fun heq => absurd (heq.trans hname.symm) hne⟩

omit [Scanner] in
/-- Children of different names fill their slots one after the other. -/
theorem exists_steps {s : RuleSlots} {tags : List Tag} (hnodup : (tags.map Tag.name).Nodup)
    (hvalid : ∀ tag ∈ tags, ∃ s₀ s₁, RuleChild s₀ tag s₁) (hfree : ∀ tag ∈ tags, s.Free tag.name) :
    ∃ t, Steps RuleChild s tags t := by
  induction tags generalizing s with
  | nil => exact ⟨s, .nil⟩
  | cons tag tags ih =>
    rw [List.map_cons, List.nodup_cons] at hnodup
    obtain ⟨s₀, s₁, hchild⟩ := hvalid tag List.mem_cons_self
    obtain ⟨s', hstep, hkept⟩ := hchild.of_free (hfree tag List.mem_cons_self)
    obtain ⟨t, hsteps⟩ := ih hnodup.2
      (fun other hother => hvalid other (List.mem_cons_of_mem _ hother)) fun other hother => by
        refine hkept other.name (fun heq => hnodup.1 ?_) (hfree other (List.mem_cons_of_mem _ hother))
        exact heq ▸ List.mem_map.mpr ⟨other, hother, rfl⟩
    exact ⟨t, .cons hstep hsteps⟩

omit [Scanner] in
/-- A grammar that is read gives one value. -/
theorem Describes.unique {body : Reading XmlIssueV1 (Option α)}
    {Grammar : List (Text × Text) → α → Prop} (h : Describes body Grammar)
    {pairs : List (Text × Text)} {a b : α} (ha : Grammar pairs a) (hb : Grammar pairs b) : a = b := by
  obtain ⟨value, names, clean, -, hiff⟩ := h pairs
  exact Option.some.inj (((hiff a).mpr ha).2.2.symm.trans ((hiff b).mpr hb).2.2)

section Slots

variable {name : Text} {slot : RuleSlots → Option (Option α)}
  {Grammar : List (Text × Text) → α → Prop} {body : Reading XmlIssueV1 (Option α)}
  {s t : RuleSlots} {tags : List Tag} {a : α}

omit [Scanner] in
theorem Fills.once (h : Fills name slot Grammar) (hsteps : Steps RuleChild s tags t)
    (hs : slot s = none) (ht : slot t = some (some a)) : Once name tags Grammar a := by
  rcases h hsteps hs with ⟨-, hnone⟩ | ⟨tag, b, hone, hsays, hb⟩
  · rw [ht] at hnone
    cases hnone
  · rw [ht] at hb
    obtain rfl : a = b := by simpa using hb
    exact ⟨tag, hone, hsays⟩

omit [Scanner] in
theorem Fills.filled (h : Fills name slot Grammar) (hdescribes : Describes body Grammar)
    (hsteps : Steps RuleChild s tags t) (hs : slot s = none) (honce : Once name tags Grammar a) :
    slot t = some (some a) := by
  obtain ⟨tag, hone, attributes, hattributes, ha⟩ := honce
  rcases h hsteps hs with ⟨hnil, -⟩ | ⟨tag', b, hone', ⟨attributes', hattributes', hb⟩, hslot⟩
  · rw [hnil] at hone
    cases hone
  · obtain rfl : tag = tag' := by simpa using hone.symm.trans hone'
    obtain rfl : attributes = attributes' := by simpa using hattributes.symm.trans hattributes'
    rw [hslot, hdescribes.unique ha hb]

omit [Scanner] in
theorem Once.means {tag : Tag} (h : Once name tags Grammar a) (htag : tag ∈ tags)
    (hname : tag.name = name) : Says Grammar tag a := by
  obtain ⟨tag', hone, hsays⟩ := h
  have hmem : tag ∈ tags.filter fun tag => tag.name = name :=
    List.mem_filter.mpr ⟨htag, by simpa using hname⟩
  rw [hone] at hmem
  exact List.mem_singleton.mp hmem ▸ hsays

omit [Scanner] in
theorem Once.count_le (h : Once name tags Grammar a) : (tags.map Tag.name).count name ≤ 1 := by
  obtain ⟨tag, hone, -⟩ := h
  have hcount : (tags.map Tag.name).count name = (tags.filter fun tag => tag.name = name).length := by
    rw [List.count, List.countP_map, List.countP_eq_length_filter]
    exact congrArg List.length (List.filter_congr fun tag _ => beq_eq_decide _ _)
  rw [hcount, hone]
  rfl

end Slots

def RuleSlots.empty : RuleSlots := ⟨none, none, none, none, none, none, ∅⟩

/-- The slots hold the rules. -/
structure RuleSlots.Hold (s : RuleSlots) (rules : VotingRulesV1) : Prop where
  weight : s.weight = some (some rules.weight)
  exclusions : s.exclusions = some (some rules.exclusionsEnabled)
  quorum : s.quorum = some (some rules.quorum)
  threshold : s.threshold = some (some rules.threshold)
  abstentions : s.abstentions = some (some rules.abstentions)
  tie : s.tie = some (some rules.tie)

omit [Scanner] in
theorem RulesListed.nodup {tags : List Tag} {rules : VotingRulesV1} (h : RulesListed tags rules) :
    (tags.map Tag.name).Nodup := by
  refine List.nodup_iff_count_le_one.mpr fun name => ?_
  by_cases hname : name ∈ tags.map Tag.name
  · obtain ⟨tag, htag, rfl⟩ := List.mem_map.mp hname
    have hnames := h.names tag htag
    simp only [ruleNames, List.mem_cons, List.not_mem_nil, or_false] at hnames
    rcases hnames with heq | heq | heq | heq | heq | heq
    · exact heq ▸ h.weight.count_le
    · exact heq ▸ h.exclusions.count_le
    · exact heq ▸ h.quorum.count_le
    · exact heq ▸ h.threshold.count_le
    · exact heq ▸ h.abstentions.count_le
    · exact heq ▸ h.tie.count_le
  · rw [List.count_eq_zero_of_not_mem hname]
    exact Nat.zero_le 1

omit [Scanner] in
theorem RulesListed.valid {tags : List Tag} {rules : VotingRulesV1} (h : RulesListed tags rules)
    {tag : Tag} (htag : tag ∈ tags) : ∃ s', RuleChild RuleSlots.empty tag s' := by
  have hnames := h.names tag htag
  simp only [ruleNames, List.mem_cons, List.not_mem_nil, or_false] at hnames
  rcases hnames with heq | heq | heq | heq | heq | heq
  · exact ⟨_, .weight heq rfl (h.weight.means htag heq)⟩
  · exact ⟨_, .exclusions heq rfl (h.exclusions.means htag heq)⟩
  · exact ⟨_, .quorum heq rfl (h.quorum.means htag heq)⟩
  · exact ⟨_, .threshold heq rfl (h.threshold.means htag heq)⟩
  · exact ⟨_, .abstentions heq rfl (h.abstentions.means htag heq)⟩
  · exact ⟨_, .tie heq rfl (h.tie.means htag heq)⟩

omit [Scanner] in
/-- The children that list rules are those that fill the slots with them. -/
theorem rulesListed_iff {tags : List Tag} {rules : VotingRulesV1} :
    RulesListed tags rules ↔ ∃ t, Steps RuleChild RuleSlots.empty tags t ∧ t.Hold rules := by
  constructor
  · intro h
    obtain ⟨t, hsteps⟩ := exists_steps (s := RuleSlots.empty) h.nodup
      (fun tag htag => ⟨_, h.valid htag⟩)
      fun tag _ => ⟨fun _ => rfl, fun _ => rfl, fun _ => rfl, fun _ => rfl, fun _ => rfl, fun _ => rfl⟩
    exact ⟨t, hsteps, fills_weight.filled describes_weight hsteps rfl h.weight,
      fills_exclusions.filled describes_exclusions hsteps rfl h.exclusions,
      fills_quorum.filled describes_quorum hsteps rfl h.quorum,
      fills_threshold.filled describes_threshold hsteps rfl h.threshold,
      fills_abstentions.filled describes_abstentions hsteps rfl h.abstentions,
      fills_tie.filled describes_tie hsteps rfl h.tie⟩
  · rintro ⟨t, hsteps, h⟩
    exact ⟨names_of_steps hsteps, fills_weight.once hsteps rfl h.weight,
      fills_exclusions.once hsteps rfl h.exclusions, fills_quorum.once hsteps rfl h.quorum,
      fills_threshold.once hsteps rfl h.threshold, fills_abstentions.once hsteps rfl h.abstentions,
      fills_tie.once hsteps rfl h.tie⟩

omit [Scanner] in
theorem describes_version : Describes (Attributes.require (lit "version"))
    fun attributes version => attributes.Perm [(lit "version", version)] := by
  intro pairs
  refine ⟨_, _, _, takes_require (Finset.notMem_empty _), fun version => ?_⟩
  simp only [perm_single]
  constructor
  · rintro ⟨-, hcovers, hversion⟩
    exact ⟨hcovers, hversion⟩
  · rintro ⟨hcovers, hversion⟩
    rw [hversion]
    exact ⟨rfl, hcovers, rfl⟩

omit [Scanner] in
theorem RuleSlots.Hold.missing {s : RuleSlots} {rules : VotingRulesV1} (h : s.Hold rules) :
    s.missing = ∅ := by
  simp [RuleSlots.missing, missingElements, h.weight, h.exclusions, h.quorum, h.threshold,
    h.abstentions, h.tie]

/-- The reader answers exactly the rules of the grammar. -/
theorem run_parseVotingRules_ok [LawfulScanner] {tag : Tag} {r r' : Reader} {rules : VotingRulesV1} :
    (parseVotingRules tag).run r = (.ok rules, r') ↔ RulesElement Hollow tag r rules r' := by
  have hexpect {α : Type} {value : Option α} {a : α} {r r' : Reader} :
      (expectSome value : XmlParse α).run r = (.ok a, r') ↔ value = some a ∧ r' = r := by
    cases value <;> simp [expectSome, eq_comm]
  have hversion {version : Option Text} {u : Unit} {r r' : Reader} :
      (checkVersion version).run r = (.ok u, r') ↔
        (∀ found, version = some found → found = xmlVersion) ∧ r' = r := by
    unfold checkVersion
    cases version with
    | none => simp [eq_comm]
    | some found => by_cases h : found = xmlVersion <;> simp [h, eq_comm]
  have hfinish {issues : Finset XmlIssueV1} {u : Unit} {r r' : Reader} :
      (finishIssues issues : XmlParse Unit).run r = (.ok u, r') ↔ issues = ∅ ∧ r' = r := by
    unfold finishIssues
    by_cases h : issues = ∅ <;> simp [h, eq_comm]
  have hstep : ∀ s tag isEmpty r s' r', (parseRuleChild s tag isEmpty).run r = (.ok s', r') ↔
      RuleStep s tag s' ∧ HollowRest isEmpty r r' := fun _ _ _ _ _ _ => run_parseRuleChild
  have hchildren {s t : RuleSlots} {r r' : Reader} :
      (Parse.children (reasonsIn (lit "voting-rules")) parseRuleChild s).run r = (.ok t, r') ↔
        ∃ tags, Listing Hollow r tags r' ∧ Steps RuleStep s tags t :=
    Parse.run_children_listing hstep
  unfold parseVotingRules RulesElement
  simp only [Parse.run_bind_ok, Prod.exists, hversion, hexpect, hfinish, hchildren,
    Option.join_eq_some_iff]
  constructor
  · rintro ⟨version, issues, r₁, hattributes, _, r₂, ⟨hfound, rfl⟩, t, r₃, ⟨tags, hlisting, hsteps⟩,
      _, r₄, ⟨hnone, rfl⟩, weight, r₅, ⟨hweight, rfl⟩, exclusions, r₆, ⟨hexclusions, rfl⟩, quorum, r₇,
      ⟨hquorum, rfl⟩, threshold, r₈, ⟨hthreshold, rfl⟩, abstentions, r₉, ⟨habstentions, rfl⟩, tie,
      r₁₀, ⟨htie, rfl⟩, hrules⟩
    obtain ⟨rfl, rfl⟩ : _ = rules ∧ _ = r' := by simpa using hrules
    obtain ⟨hissues, -⟩ := Finset.union_eq_empty.mp hnone
    obtain ⟨hclean, hsteps⟩ := steps_clean.mp ⟨hsteps, hissues⟩
    obtain rfl : issues = ∅ := hclean
    obtain ⟨-, rfl, found, rfl, attributes, hattributes, hperm⟩ :=
      (run_readAttributes_ok describes_version settles_require).mp hattributes
    refine ⟨?_, tags, hlisting, rulesListed_iff.mpr ⟨t, hsteps, hweight, hexclusions, hquorum,
      hthreshold, habstentions, htie⟩⟩
    rw [hattributes, List.perm_singleton.mp hperm, hfound found rfl]
  · rintro ⟨hattributes, tags, hlisting, hlisted⟩
    obtain ⟨t, hsteps, hold⟩ := rulesListed_iff.mp hlisted
    obtain ⟨hsteps, hissues⟩ := steps_clean.mpr ⟨rfl, hsteps⟩
    refine ⟨some xmlVersion, ∅, r, (run_readAttributes_ok describes_version settles_require).mpr
      ⟨rfl, rfl, xmlVersion, rfl, _, hattributes, .refl _⟩, (), r, ⟨?_, rfl⟩, t, r',
      ⟨tags, hlisting, hsteps⟩, (), r', ⟨?_, rfl⟩, _, _, ⟨hold.weight, rfl⟩, _, _,
      ⟨hold.exclusions, rfl⟩, _, _, ⟨hold.quorum, rfl⟩, _, _, ⟨hold.threshold, rfl⟩, _, _,
      ⟨hold.abstentions, rfl⟩, _, _, ⟨hold.tie, rfl⟩, rfl⟩
    · rintro found ⟨⟩
      rfl
    · rw [hissues, hold.missing, Finset.union_empty]

/-- The reader of voting rules answers exactly the rules of its grammar, where a child holds text and
comments at most, and refuses everything else without a failed expectation. -/
theorem parseVotingRules_exact [LawfulScanner] (tag : Tag) (r : Reader) :
    (∀ rules r', (parseVotingRules tag).run r = (.ok rules, r') ↔
      RulesElement Hollow tag r rules r') ∧
    ∀ e, ((parseVotingRules tag).run r).1 = .error e → e ≠ .fatal .panicked := by
  refine ⟨fun rules r' => run_parseVotingRules_ok, ?_⟩
  rintro e he rfl
  exact (ends_parseVotingRules r).error he rfl

end Reader

section Samples

attribute [local instance] Plain.scanner Plain.scanner_lawful

def rulesTag : Tag := ⟨lit "voting-rules", some [(lit "version", lit "1.0")]⟩

/-- The children of voting rules behind a weight that holds a text. -/
def rulesReader (leaf : Text) : Reader :=
  ⟨[lit "voting-rules"], lit "<weight type=\"equal\">" ++ leaf ++ lit "</weight>" ++
    lit "<exclusions enabled=\"false\"/><quorum type=\"none\"/>" ++
    lit "<threshold basis=\"votes-cast\" type=\"simple-majority\"/>" ++
    lit "<tie treatment=\"reject\"/><abstentions treatment=\"exclude\"/></voting-rules>"⟩

theorem exact_single : ∃ rules r', RulesElement Hollow rulesTag (rulesReader []) rules r' := by
  have hread : ((parseVotingRules rulesTag).run (rulesReader [])).1.toOption.isSome = true := by
    decide +kernel
  rcases h : (parseVotingRules rulesTag).run (rulesReader []) with ⟨e | rules, r'⟩
  · rw [h] at hread
    cases hread
  · exact ⟨rules, r', ((parseVotingRules_exact rulesTag (rulesReader [])).1 rules r').mp h⟩

/-- A child with nothing between its tags. -/
def Closed (r r' : Reader) : Prop := ∃ name, scan r = some (.close name, r')

theorem parseVotingRules_hollow : ∃ rules r',
    (parseVotingRules rulesTag).run (rulesReader (lit "x")) = (.ok rules, r') ∧
      ¬ RulesElement Closed rulesTag (rulesReader (lit "x")) rules r' := by
  have hread : ((parseVotingRules rulesTag).run (rulesReader (lit "x"))).1.toOption.isSome = true := by
    decide +kernel
  have hfirst : ∃ p ∈ scan (rulesReader (lit "x")),
      p.1 = .start ⟨lit "weight", some [(lit "type", lit "equal")]⟩ ∧
        ∃ q ∈ scan p.2, q.1 = .text (lit "x") := by
    decide +kernel
  obtain ⟨⟨e, r₁⟩, hstart, rfl, ⟨e, r₂⟩, htext, rfl⟩ := hfirst
  rcases h : (parseVotingRules rulesTag).run (rulesReader (lit "x" (spells _))) with ⟨e | rules, r'⟩
  · rw [h] at hread
    cases hread
  · refine ⟨rules, r', rfl, ?_⟩
    rintro ⟨-, tags, hlisting, -⟩
    cases hlisting with
    | start hscan hclosed =>
      obtain ⟨name, hclose⟩ := hclosed
      obtain ⟨-, rfl⟩ : _ ∧ r₁ = _ := by simpa using hstart.symm.trans hscan
      simpa using htext.symm.trans hclose
    | _ hscan => simpa using hstart.symm.trans hscan

end Samples

end Irena.Bornite
