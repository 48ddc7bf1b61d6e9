import Irena.Bornite.Expected
import Irena.Bornite.Taken
import Irena.Library.Listings

/-! # The grammar of voting rules

Which elements are voting rules, and of which values: the attributes of each child, its values, and
the list of the children. The reader answers exactly these. -/

namespace Irena.Bornite

open Irena.Library Irena.Library.Outcome Irena.Library.Strings Irena.Library.Markup

variable {α β : Type} {pairs expected : List (Text × Text)} {names : Finset Text}

/-- Decimal digits of a 64-bit number. -/
def SpellsU64 (text : Text) (n : ℕ) : Prop := ofDecimal text = some n ∧ n ≤ u64Max

def weightTypes : List (Text × WeightRuleV1) :=
  [(lit "equal", .equal), (lit "electorate", .electorate)]

def switches : List (Text × Bool) := [(lit "true", true), (lit "false", false)]

def quorumBases : List (Text × QuorumBasisV1) :=
  [(lit "total-electorate", .totalElectorate), (lit "effective-electorate", .effectiveElectorate)]

def thresholdBases : List (Text × ThresholdBasisV1) :=
  [(lit "votes-cast", .votesCast), (lit "effective-electorate", .effectiveElectorate),
    (lit "total-electorate", .totalElectorate)]

def abstentionTreatments : List (Text × AbstentionTreatmentV1) :=
  [(lit "exclude", .excluded), (lit "include", .included)]

def tieTreatments : List (Text × TieTreatmentV1) := [(lit "reject", .reject), (lit "accept", .accept)]

/-- One attribute, which names an option. -/
def Chooses (name : Text) (options : List (Text × α)) (attributes : List (Text × Text)) (a : α) :
    Prop :=
  ∃ text, attributes.Perm [(name, text)] ∧ (text, a) ∈ options

/-- The attributes of a quorum of each type. -/
inductive QuorumAttributes : List (Text × Text) → QuorumRuleV1 → Prop
  | none {attributes} : attributes.Perm [(lit "type", lit "none")] →
      QuorumAttributes attributes .none
  | absolute {attributes weight w} :
      attributes.Perm [(lit "type", lit "absolute"), (lit "weight", weight)] →
      SpellsU64 weight w.value → QuorumAttributes attributes (.absolute w)
  | fraction {attributes numerator denominator basis f b} :
      attributes.Perm [(lit "type", lit "fraction"), (lit "numerator", numerator),
        (lit "denominator", denominator), (lit "basis", basis)] →
      SpellsU64 numerator f.numerator → SpellsU64 denominator f.denominator →
      f.numerator ≤ f.denominator → (basis, b) ∈ quorumBases →
      QuorumAttributes attributes (.fraction f b)

/-- The attributes of a threshold of each type. -/
inductive ThresholdAttributes : List (Text × Text) → ThresholdRuleV1 → Prop
  | simpleMajority {attributes basis b} :
      attributes.Perm [(lit "type", lit "simple-majority"), (lit "basis", basis)] →
      (basis, b) ∈ thresholdBases → ThresholdAttributes attributes (.simpleMajority b)
  | fraction {attributes numerator denominator basis f b} :
      attributes.Perm [(lit "type", lit "fraction"), (lit "basis", basis),
        (lit "numerator", numerator), (lit "denominator", denominator)] →
      SpellsU64 numerator f.numerator → SpellsU64 denominator f.denominator →
      f.numerator ≤ f.denominator → (basis, b) ∈ thresholdBases →
      ThresholdAttributes attributes (.fraction f b)

/-- A tag says a value by its attributes. -/
def Says (Grammar : List (Text × Text) → α → Prop) (tag : Tag) (a : α) : Prop :=
  ∃ attributes, tag.attributes = some attributes ∧ Grammar attributes a

def ruleNames : List Text :=
  [lit "weight", lit "exclusions", lit "quorum", lit "threshold", lit "abstentions", lit "tie"]

/-- Exactly one of the tags has the name, and it says the value. -/
def Once (name : Text) (tags : List Tag) (Grammar : List (Text × Text) → α → Prop) (a : α) :
    Prop :=
  ∃ tag, tags.filter (fun tag => tag.name = name) = [tag] ∧ Says Grammar tag a

/-- The children of voting rules: each of the six exactly once, in any order, and no other. -/
structure RulesListed (tags : List Tag) (rules : VotingRulesV1) : Prop where
  names : ∀ tag ∈ tags, tag.name ∈ ruleNames
  weight : Once (lit "weight") tags (Chooses (lit "type") weightTypes) rules.weight
  exclusions : Once (lit "exclusions") tags (Chooses (lit "enabled") switches)
    rules.exclusionsEnabled
  quorum : Once (lit "quorum") tags QuorumAttributes rules.quorum
  threshold : Once (lit "threshold") tags ThresholdAttributes rules.threshold
  abstentions : Once (lit "abstentions") tags (Chooses (lit "treatment") abstentionTreatments)
    rules.abstentions
  tie : Once (lit "tie") tags (Chooses (lit "treatment") tieTreatments) rules.tie

/-- A `<voting-rules>` element of version 1.0 behind its start tag, and where it ends; `Inside` is
what a child may hold behind a start tag. -/
def RulesElement [Scanner] (Inside : Reader → Reader → Prop) (tag : Tag) (r : Reader)
    (rules : VotingRulesV1) (r' : Reader) : Prop :=
  tag.attributes = some [(lit "version", xmlVersion)] ∧
    ∃ tags, Listing Inside r tags r' ∧ RulesListed tags rules

/-- A reading of attributes answers the values of a grammar. -/
def Describes (body : Reading XmlIssueV1 (Option α))
    (Grammar : List (Text × Text) → α → Prop) : Prop :=
  ∀ pairs, Answers pairs ∅ body (Grammar pairs)

/-- The option that a text names. -/
def chosen (options : List (Text × α)) (text : Text) : Option α :=
  (options.find? fun p => p.1 == text).map Prod.snd

theorem chosen_eq_some_iff {options : List (Text × α)} {text : Text} {a : α}
    (h : (options.map Prod.fst).Nodup) : chosen options text = some a ↔ (text, a) ∈ options := by
  unfold chosen
  induction options with
  | nil => simp
  | cons p rest ih =>
    obtain ⟨name, value⟩ := p
    rw [List.map_cons, List.nodup_cons] at h
    rw [List.find?_cons, List.mem_cons]
    by_cases hname : name = text
    · subst hname
      have hrest : (name, a) ∉ rest := fun hmem => h.1 (List.mem_map.mpr ⟨_, hmem, rfl⟩)
      simp [hrest, eq_comm]
    · rw [beq_false_of_ne hname, ih h.2]
      simp [Ne.symm hname]

theorem takes_enumValue {key allowed text : Text} {options : List (Text × α)} :
    Takes pairs names (enumValue key options allowed text) (chosen options text) names
      ((chosen options text).isSome = true) := by
  unfold enumValue chosen
  split
  · rename_i name value hfound
    rw [hfound]
    exact takes_pure.of_iff (by simp)
  · rename_i hnone
    rw [hnone]
    exact takes_refused (by simp)

theorem takes_boolValue {key text : Text} :
    Takes pairs names (boolValue key text) (chosen switches text) names
      ((chosen switches text).isSome = true) := by
  unfold boolValue
  by_cases htrue : text = lit "true"
  · subst htrue
    exact takes_pure.of_iff (by decide)
  · by_cases hfalse : text = lit "false"
    · subst hfalse
      exact takes_pure.of_iff (by decide)
    · have hnone : chosen switches text = none := by
        simp [chosen, switches, Ne.symm htrue, Ne.symm hfalse]
      rw [if_neg htrue, if_neg hfalse, hnone]
      exact takes_refused (by simp)

theorem takes_u64Value {key text : Text} :
    Takes pairs names (u64Value key text) (parseU64 text) names
      ((parseU64 text).isSome = true) := by
  unfold u64Value
  cases parseU64 text with
  | some n => exact (takes_pure (a := some n)).of_iff (by simp)
  | none => exact takes_refused (b := none) (by simp)

theorem takes_coreValue {result : Except CoreError α} :
    Takes pairs names (coreValue result) result.toOption names
      (result.toOption.isSome = true) := by
  unfold coreValue
  cases result with
  | ok a => exact (takes_pure (a := some a)).of_iff (by simp [Except.toOption])
  | error e => exact takes_refused (b := none) (by simp [Except.toOption])

/-- A proportion of two numbers, with a basis. -/
theorem takes_proportionOf {n d : Option U64} {basis : Option α} {make : FractionV1 → α → β} :
    Takes pairs names (proportionOf n d basis make)
      (n.bind fun n => d.bind fun d => basis.bind fun b =>
        (FractionV1.proportion n d).toOption.map fun f => make f b) names
      (∀ n' d' b, n = some n' → d = some d' → basis = some b →
        (FractionV1.proportion n' d').toOption.isSome = true) := by
  unfold proportionOf
  split
  · rename_i n d b
    have hproportion : Takes pairs names (coreValue (FractionV1.proportion n d)) _ names _ :=
      takes_coreValue
    have htakes := hproportion.bind (f := fun fraction => pure (fraction.map fun f => make f b))
      takes_pure
    exact htakes.of_iff (by simp)
  · rename_i hnone
    have hvalue : (n.bind fun n => d.bind fun d => basis.bind fun b =>
        (FractionV1.proportion n d).toOption.map fun f => make f b) = none := by
      simp only [Option.bind_eq_none_iff]
      exact fun n hn d hd b hb => (hnone n d b hn hd hb).elim
    rw [hvalue]
    refine takes_pure.of_iff ⟨fun _ n d b hn hd hb => (hnone n d b hn hd hb).elim, fun _ => trivial⟩

theorem parseU64_eq_some_iff {text : Text} {n : U64} :
    parseU64 text = some n ↔ SpellsU64 text n.val := by
  unfold parseU64 SpellsU64
  cases ofDecimal text with
  | none => simp
  | some m =>
    obtain ⟨n, hn⟩ := n
    by_cases hm : m ≤ u64Max
    · simp only [hm, dite_true, Option.some.injEq, Subtype.mk.injEq]
      exact ⟨fun h => ⟨h, hn⟩, And.left⟩
    · simp only [hm, dite_false, reduceCtorEq, Option.some.injEq, false_iff]
      rintro ⟨rfl, hle⟩
      exact hm hle

theorem weight_toOption {n : U64} {w : WeightV1} :
    (WeightV1.new n).toOption = some w ↔ w.value = n.val := by
  obtain ⟨value, hpos, hle⟩ := w
  unfold WeightV1.new
  split
  · simp [Except.toOption, eq_comm]
  · rename_i hzero
    simp only [Except.toOption, reduceCtorEq, false_iff]
    rintro rfl
    exact hzero hpos

theorem proportion_toOption {n d : U64} {f : FractionV1} :
    (FractionV1.proportion n d).toOption = some f ↔
      f.numerator = n.val ∧ f.denominator = d.val ∧ n.val ≤ d.val := by
  obtain ⟨numerator, denominator, hpos, hn, hd⟩ := f
  unfold FractionV1.proportion
  split_ifs with hzero himproper
  · simp only [Except.toOption, reduceCtorEq, false_iff]
    rintro ⟨-, rfl, -⟩
    exact absurd hzero hpos.ne'
  · simp only [Except.toOption, reduceCtorEq, false_iff]
    rintro ⟨-, -, hle⟩
    exact absurd himproper (Nat.not_lt_of_le hle)
  · simp only [Except.toOption, Option.some.injEq, FractionV1.mk.injEq]
    exact ⟨fun ⟨hn, hd⟩ => ⟨hn.symm, hd.symm, Nat.le_of_not_lt himproper⟩,
      fun ⟨hn, hd, _⟩ => ⟨hn.symm, hd.symm⟩⟩

theorem perm_single {name text : Text} : pairs.Perm [(name, text)] ↔
    Covers (insert name ∅) pairs ∧ pairs.lookup name = some text := by
  have hiff : pairs.Perm [(name, text)] ↔ Covers (insert name ∅) pairs ∧ _ :=
    perm_iff_covers (by simp) (by simp)
  simpa using hiff

theorem describes_choice {name : Text} {options : List (Text × α)}
    {f : Text → Reading XmlIssueV1 (Option α)} (hnodup : (options.map Prod.fst).Nodup)
    (hf : ∀ pairs names text, Takes pairs names (f text) (chosen options text) names
      ((chosen options text).isSome = true)) :
    Describes (Attributes.require name >>= fun text => andThen text f) (Chooses name options) := by
  intro pairs
  have htakes := takes_value (g := pure) (Finset.notMem_empty name) (hf pairs) takes_pure
  simp only [bind_pure] at htakes
  refine ⟨_, _, _, htakes, fun a => ?_⟩
  constructor
  · rintro ⟨-, hcovers, hvalue⟩
    obtain ⟨text, htext, hvalue⟩ := Option.bind_eq_some_iff.mp hvalue
    exact ⟨text, perm_single.mpr ⟨hcovers, htext⟩, (chosen_eq_some_iff hnodup).mp hvalue⟩
  · rintro ⟨text, htext, hmem⟩
    obtain ⟨hcovers, hlookup⟩ := perm_single.mp htext
    have hvalue := (chosen_eq_some_iff hnodup).mpr hmem
    rw [hlookup, Option.bind_some, hvalue]
    exact ⟨⟨rfl, trivial⟩, hcovers, rfl⟩

theorem describes_weight : Describes weightAttributes (Chooses (lit "type") weightTypes) :=
  describes_choice (by decide) fun _ _ _ => takes_enumValue

theorem describes_exclusions : Describes exclusionsAttributes (Chooses (lit "enabled") switches) :=
  describes_choice (by decide) fun _ _ _ => takes_boolValue

theorem describes_abstentions :
    Describes abstentionsAttributes (Chooses (lit "treatment") abstentionTreatments) :=
  describes_choice (by decide) fun _ _ _ => takes_enumValue

theorem describes_tie : Describes tieAttributes (Chooses (lit "treatment") tieTreatments) :=
  describes_choice (by decide) fun _ _ _ => takes_enumValue

def quorumNames : Finset Text :=
  {lit "type", lit "weight", lit "numerator", lit "denominator", lit "basis"}

/-- The attributes of a quorum in some order, by what stands under each name. -/
theorem perm_quorum (keys : List Text) (hmap : expected.map Prod.fst = keys)
    (hkeys : keys.Nodup ∧ ∀ key ∈ keys, key ∈ quorumNames) :
    pairs.Perm expected ↔ Covers quorumNames pairs ∧
      pairs.lookup (lit "type") = expected.lookup (lit "type") ∧
      pairs.lookup (lit "weight") = expected.lookup (lit "weight") ∧
      pairs.lookup (lit "numerator") = expected.lookup (lit "numerator") ∧
      pairs.lookup (lit "denominator") = expected.lookup (lit "denominator") ∧
      pairs.lookup (lit "basis") = expected.lookup (lit "basis") := by
  subst hmap
  rw [perm_iff_covers hkeys.1 hkeys.2]
  simp only [quorumNames, Finset.mem_insert, Finset.mem_singleton, forall_eq_or_imp, forall_eq]

theorem perm_none : pairs.Perm [(lit "type", lit "none")] ↔ Covers quorumNames pairs ∧
    pairs.lookup (lit "type") = some (lit "none") ∧ pairs.lookup (lit "weight") = none ∧
    pairs.lookup (lit "numerator") = none ∧ pairs.lookup (lit "denominator") = none ∧
    pairs.lookup (lit "basis") = none :=
  perm_quorum [lit "type"] (by rfl) (by decide)

theorem perm_absolute {weight : Text} :
    pairs.Perm [(lit "type", lit "absolute"), (lit "weight", weight)] ↔
      Covers quorumNames pairs ∧ pairs.lookup (lit "type") = some (lit "absolute") ∧
      pairs.lookup (lit "weight") = some weight ∧ pairs.lookup (lit "numerator") = none ∧
      pairs.lookup (lit "denominator") = none ∧ pairs.lookup (lit "basis") = none :=
  perm_quorum [lit "type", lit "weight"] (by rfl) (by decide)

theorem perm_fraction {numerator denominator basis : Text} :
    pairs.Perm [(lit "type", lit "fraction"), (lit "numerator", numerator),
      (lit "denominator", denominator), (lit "basis", basis)] ↔
      Covers quorumNames pairs ∧ pairs.lookup (lit "type") = some (lit "fraction") ∧
      pairs.lookup (lit "weight") = none ∧ pairs.lookup (lit "numerator") = some numerator ∧
      pairs.lookup (lit "denominator") = some denominator ∧
      pairs.lookup (lit "basis") = some basis :=
  perm_quorum [lit "type", lit "numerator", lit "denominator", lit "basis"] (by rfl) (by decide)

/-- The type of a quorum. -/
theorem QuorumAttributes.type {a : QuorumRuleV1} (h : QuorumAttributes pairs a) :
    ∃ kind ∈ [lit "none", lit "absolute", lit "fraction"],
      pairs.lookup (lit "type") = some kind := by
  cases h with
  | none h => exact ⟨_, by simp, (perm_none.mp h).2.1⟩
  | absolute h => exact ⟨_, by simp, (perm_absolute.mp h).2.1⟩
  | fraction h => exact ⟨_, by simp, (perm_fraction.mp h).2.1⟩

theorem quorum_none_iff {a : QuorumRuleV1} (hkind : pairs.lookup (lit "type") = some (lit "none")) :
    QuorumAttributes pairs a ↔ a = .none ∧ Covers quorumNames pairs ∧
      pairs.lookup (lit "weight") = none ∧ pairs.lookup (lit "numerator") = none ∧
      pairs.lookup (lit "denominator") = none ∧ pairs.lookup (lit "basis") = none := by
  constructor
  · intro h
    cases h with
    | none h =>
      obtain ⟨hcovers, -, hrest⟩ := perm_none.mp h
      exact ⟨rfl, hcovers, hrest⟩
    | absolute h =>
      rw [(perm_absolute.mp h).2.1] at hkind
      cases hkind
    | fraction h =>
      rw [(perm_fraction.mp h).2.1] at hkind
      cases hkind
  · rintro ⟨rfl, hcovers, hrest⟩
    exact .none (perm_none.mpr ⟨hcovers, hkind, hrest⟩)

theorem quorum_absolute_iff {a : QuorumRuleV1}
    (hkind : pairs.lookup (lit "type") = some (lit "absolute")) :
    QuorumAttributes pairs a ↔ ∃ n w, a = .absolute w ∧ Covers quorumNames pairs ∧
      (pairs.lookup (lit "weight")).bind parseU64 = some n ∧ (WeightV1.new n).toOption = some w ∧
      pairs.lookup (lit "numerator") = none ∧ pairs.lookup (lit "denominator") = none ∧
      pairs.lookup (lit "basis") = none := by
  constructor
  · intro h
    cases h with
    | @absolute weight w h hw =>
      obtain ⟨hcovers, -, hweight, hrest⟩ := perm_absolute.mp h
      refine ⟨⟨w.value, w.le⟩, w, rfl, hcovers, ?_, weight_toOption.mpr rfl, hrest⟩
      rw [hweight]
      exact parseU64_eq_some_iff.mpr hw
    | none h =>
      rw [(perm_none.mp h).2.1] at hkind
      cases hkind
    | fraction h =>
      rw [(perm_fraction.mp h).2.1] at hkind
      cases hkind
  · rintro ⟨n, w, rfl, hcovers, hn, hw, hrest⟩
    obtain ⟨weight, hweight, hn⟩ := Option.bind_eq_some_iff.mp hn
    refine .absolute (perm_absolute.mpr ⟨hcovers, hkind, hweight, hrest⟩) ?_
    rw [weight_toOption.mp hw]
    exact parseU64_eq_some_iff.mp hn

theorem quorum_fraction_iff {a : QuorumRuleV1}
    (hkind : pairs.lookup (lit "type") = some (lit "fraction")) :
    QuorumAttributes pairs a ↔ ∃ n d b f, a = .fraction f b ∧ Covers quorumNames pairs ∧
      pairs.lookup (lit "weight") = none ∧
      (pairs.lookup (lit "numerator")).bind parseU64 = some n ∧
      (pairs.lookup (lit "denominator")).bind parseU64 = some d ∧
      (pairs.lookup (lit "basis")).bind (chosen quorumBases) = some b ∧
      (FractionV1.proportion n d).toOption = some f := by
  constructor
  · intro h
    cases h with
    | @fraction numerator denominator basis f b h hn hd hle hb =>
      obtain ⟨hcovers, -, hweight, hnumerator, hdenominator, hbasis⟩ := perm_fraction.mp h
      refine ⟨⟨f.numerator, f.numerator_le⟩, ⟨f.denominator, f.denominator_le⟩, b, f, rfl, hcovers,
        hweight, ?_, ?_, ?_, proportion_toOption.mpr ⟨rfl, rfl, hle⟩⟩
      · rw [hnumerator]
        exact parseU64_eq_some_iff.mpr hn
      · rw [hdenominator]
        exact parseU64_eq_some_iff.mpr hd
      · rw [hbasis]
        exact (chosen_eq_some_iff (by decide)).mpr hb
    | none h =>
      rw [(perm_none.mp h).2.1] at hkind
      cases hkind
    | absolute h =>
      rw [(perm_absolute.mp h).2.1] at hkind
      cases hkind
  · rintro ⟨n, d, b, f, rfl, hcovers, hweight, hn, hd, hb, hf⟩
    obtain ⟨numerator, hnumerator, hn⟩ := Option.bind_eq_some_iff.mp hn
    obtain ⟨denominator, hdenominator, hd⟩ := Option.bind_eq_some_iff.mp hd
    obtain ⟨basis, hbasis, hb⟩ := Option.bind_eq_some_iff.mp hb
    obtain ⟨hfn, hfd, hle⟩ := proportion_toOption.mp hf
    rw [← hfn, ← hfd] at hle
    refine .fraction (perm_fraction.mpr ⟨hcovers, hkind, hweight, hnumerator, hdenominator, hbasis⟩)
      ?_ ?_ hle ((chosen_eq_some_iff (by decide)).mp hb)
    · rw [hfn]
      exact parseU64_eq_some_iff.mp hn
    · rw [hfd]
      exact parseU64_eq_some_iff.mp hd

theorem describes_quorum : Describes quorumAttributes QuorumAttributes := by
  intro pairs
  refine (takes_require (Finset.notMem_empty _)).answers ?_ fun a h => ?_
  rotate_left
  · obtain ⟨kind, -, hkind⟩ := h.type
    rw [hkind]
    rfl
  rcases hkind : pairs.lookup (lit "type" (spells _)) with _ | kind
  · refine answers_none ((takes_drain (by decide) (by decide)).bind takes_pure) fun a h => ?_
    obtain ⟨kind', -, hkind'⟩ := h.type
    rw [hkind] at hkind'
    cases hkind'
  dsimp only
  by_cases hnone : kind = lit "none"
  · subst hnone
    rw [if_pos rfl]
    refine answers_of_takes ((takes_forM (fun h => takes_forbid h) (by decide)
      (by decide)).bind takes_pure) (by decide : _ = quorumNames) fun a => ?_
    simp only [quorum_none_iff hkind, List.forall_mem_cons, List.not_mem_nil, false_imp_iff, implies_true, and_true, Option.some.injEq]
    tauto
  rw [if_neg hnone]
  by_cases habsolute : kind = lit "absolute"
  · subst habsolute
    rw [if_pos rfl]
    refine answers_of_takes ((takes_forM (fun h => takes_forbid h) (by decide) (by decide)).bind
      (takes_value (by decide) (fun _ _ => takes_u64Value)
        ((takes_andThen fun _ => takes_coreValue).bind takes_pure)))
      (by decide : _ = quorumNames) fun a => ?_
    rw [quorum_absolute_iff hkind]
    simp only [List.forall_mem_cons, List.not_mem_nil, false_imp_iff, implies_true, and_true]
    constructor
    · rintro ⟨⟨⟨hn, hd, hb⟩, -⟩, hcovers, ha⟩
      obtain ⟨w, hw, rfl⟩ := Option.map_eq_some_iff.mp ha
      obtain ⟨n, hweight, hw⟩ := Option.bind_eq_some_iff.mp hw
      exact ⟨n, w, rfl, hcovers, hweight, hw, hn, hd, hb⟩
    · rintro ⟨n, w, rfl, hcovers, hweight, hw, hrest⟩
      rw [hweight, Option.bind_some, hw]
      refine ⟨⟨hrest, rfl, ?_⟩, hcovers, rfl⟩
      rintro x ⟨⟩
      rw [hw]
      rfl
  rw [if_neg habsolute]
  by_cases hfraction : kind = lit "fraction"
  · subst hfraction
    rw [if_pos rfl]
    refine answers_of_takes ((takes_forbid (by decide)).bind
      (takes_value (by decide) (fun _ _ => takes_u64Value)
        (takes_value (by decide) (fun _ _ => takes_u64Value)
          (takes_value (by decide) (fun _ _ => takes_enumValue) takes_proportionOf))))
      (by decide : _ = quorumNames) fun a => ?_
    rw [quorum_fraction_iff hkind]
    constructor
    · rintro ⟨⟨hweight, -⟩, hcovers, ha⟩
      obtain ⟨n, hn, ha⟩ := Option.bind_eq_some_iff.mp ha
      obtain ⟨d, hd, ha⟩ := Option.bind_eq_some_iff.mp ha
      obtain ⟨b, hb, ha⟩ := Option.bind_eq_some_iff.mp ha
      obtain ⟨f, hf, rfl⟩ := Option.map_eq_some_iff.mp ha
      exact ⟨n, d, b, f, rfl, hcovers, hweight, hn, hd, hb, hf⟩
    · rintro ⟨n, d, b, f, rfl, hcovers, hweight, hn, hd, hb, hf⟩
      have hb' : (pairs.lookup (lit "basis")).bind (chosen [(lit "total-electorate", .totalElectorate),
            (lit "effective-electorate", .effectiveElectorate)]) = some b := hb
      rw [hn, hd, hb']
      refine ⟨⟨hweight, rfl, rfl, rfl, ?_⟩, hcovers, ?_⟩
      · rintro n' d' b' ⟨⟩ ⟨⟩ -
        rw [hf]
        rfl
      · simp [hf]
  · rw [if_neg hfraction]
    refine answers_none (takes_push.bind ((takes_drain (by decide) (by decide)).bind takes_pure))
      fun a h => ?_
    obtain ⟨kind', hkinds, hkind'⟩ := h.type
    rw [hkind] at hkind'
    obtain rfl := Option.some.inj hkind'
    simp only [List.mem_cons, List.not_mem_nil, or_false] at hkinds
    tauto

def thresholdNames : Finset Text := {lit "type", lit "basis", lit "numerator", lit "denominator"}

/-- The attributes of a threshold in some order, by what stands under each name. -/
theorem perm_threshold (keys : List Text) (hmap : expected.map Prod.fst = keys)
    (hkeys : keys.Nodup ∧ ∀ key ∈ keys, key ∈ thresholdNames) :
    pairs.Perm expected ↔ Covers thresholdNames pairs ∧
      pairs.lookup (lit "type") = expected.lookup (lit "type") ∧
      pairs.lookup (lit "basis") = expected.lookup (lit "basis") ∧
      pairs.lookup (lit "numerator") = expected.lookup (lit "numerator") ∧
      pairs.lookup (lit "denominator") = expected.lookup (lit "denominator") := by
  subst hmap
  rw [perm_iff_covers hkeys.1 hkeys.2]
  simp only [thresholdNames, Finset.mem_insert, Finset.mem_singleton, forall_eq_or_imp, forall_eq]

theorem perm_simpleMajority {basis : Text} :
    pairs.Perm [(lit "type", lit "simple-majority"), (lit "basis", basis)] ↔
      Covers thresholdNames pairs ∧ pairs.lookup (lit "type") = some (lit "simple-majority") ∧
      pairs.lookup (lit "basis") = some basis ∧ pairs.lookup (lit "numerator") = none ∧
      pairs.lookup (lit "denominator") = none :=
  perm_threshold [lit "type", lit "basis"] (by rfl) (by decide)

theorem perm_thresholdFraction {numerator denominator basis : Text} :
    pairs.Perm [(lit "type", lit "fraction"), (lit "basis", basis),
      (lit "numerator", numerator), (lit "denominator", denominator)] ↔
      Covers thresholdNames pairs ∧ pairs.lookup (lit "type") = some (lit "fraction") ∧
      pairs.lookup (lit "basis") = some basis ∧ pairs.lookup (lit "numerator") = some numerator ∧
      pairs.lookup (lit "denominator") = some denominator :=
  perm_threshold [lit "type", lit "basis", lit "numerator", lit "denominator"] (by rfl) (by decide)

/-- The type and the basis of a threshold. -/
theorem ThresholdAttributes.type {a : ThresholdRuleV1} (h : ThresholdAttributes pairs a) :
    ∃ kind ∈ [lit "simple-majority", lit "fraction"], ∃ b,
      pairs.lookup (lit "type") = some kind ∧
        (pairs.lookup (lit "basis")).bind (chosen thresholdBases) = some b := by
  cases h with
  | @simpleMajority basis b h hb =>
    obtain ⟨-, hkind, hbasis, -⟩ := perm_simpleMajority.mp h
    refine ⟨_, by simp, b, hkind, ?_⟩
    rw [hbasis]
    exact (chosen_eq_some_iff (by decide)).mpr hb
  | @fraction _ _ basis f b h _ _ _ hb =>
    obtain ⟨-, hkind, hbasis, -⟩ := perm_thresholdFraction.mp h
    refine ⟨_, by simp, b, hkind, ?_⟩
    rw [hbasis]
    exact (chosen_eq_some_iff (by decide)).mpr hb

theorem threshold_simpleMajority_iff {a : ThresholdRuleV1}
    (hkind : pairs.lookup (lit "type") = some (lit "simple-majority")) :
    ThresholdAttributes pairs a ↔ ∃ b, a = .simpleMajority b ∧ Covers thresholdNames pairs ∧
      (pairs.lookup (lit "basis")).bind (chosen thresholdBases) = some b ∧
      pairs.lookup (lit "numerator") = none ∧ pairs.lookup (lit "denominator") = none := by
  constructor
  · intro h
    cases h with
    | @simpleMajority basis b h hb =>
      obtain ⟨hcovers, -, hbasis, hrest⟩ := perm_simpleMajority.mp h
      refine ⟨b, rfl, hcovers, ?_, hrest⟩
      rw [hbasis]
      exact (chosen_eq_some_iff (by decide)).mpr hb
    | fraction h =>
      rw [(perm_thresholdFraction.mp h).2.1] at hkind
      cases hkind
  · rintro ⟨b, rfl, hcovers, hb, hrest⟩
    obtain ⟨basis, hbasis, hb⟩ := Option.bind_eq_some_iff.mp hb
    exact .simpleMajority (perm_simpleMajority.mpr ⟨hcovers, hkind, hbasis, hrest⟩)
      ((chosen_eq_some_iff (by decide)).mp hb)

theorem threshold_fraction_iff {a : ThresholdRuleV1}
    (hkind : pairs.lookup (lit "type") = some (lit "fraction")) :
    ThresholdAttributes pairs a ↔ ∃ n d b f, a = .fraction f b ∧ Covers thresholdNames pairs ∧
      (pairs.lookup (lit "numerator")).bind parseU64 = some n ∧
      (pairs.lookup (lit "denominator")).bind parseU64 = some d ∧
      (pairs.lookup (lit "basis")).bind (chosen thresholdBases) = some b ∧
      (FractionV1.proportion n d).toOption = some f := by
  constructor
  · intro h
    cases h with
    | @fraction numerator denominator basis f b h hn hd hle hb =>
      obtain ⟨hcovers, -, hbasis, hnumerator, hdenominator⟩ := perm_thresholdFraction.mp h
      refine ⟨⟨f.numerator, f.numerator_le⟩, ⟨f.denominator, f.denominator_le⟩, b, f, rfl, hcovers,
        ?_, ?_, ?_, proportion_toOption.mpr ⟨rfl, rfl, hle⟩⟩
      · rw [hnumerator]
        exact parseU64_eq_some_iff.mpr hn
      · rw [hdenominator]
        exact parseU64_eq_some_iff.mpr hd
      · rw [hbasis]
        exact (chosen_eq_some_iff (by decide)).mpr hb
    | simpleMajority h =>
      rw [(perm_simpleMajority.mp h).2.1] at hkind
      cases hkind
  · rintro ⟨n, d, b, f, rfl, hcovers, hn, hd, hb, hf⟩
    obtain ⟨numerator, hnumerator, hn⟩ := Option.bind_eq_some_iff.mp hn
    obtain ⟨denominator, hdenominator, hd⟩ := Option.bind_eq_some_iff.mp hd
    obtain ⟨basis, hbasis, hb⟩ := Option.bind_eq_some_iff.mp hb
    obtain ⟨hfn, hfd, hle⟩ := proportion_toOption.mp hf
    rw [← hfn, ← hfd] at hle
    refine .fraction (perm_thresholdFraction.mpr ⟨hcovers, hkind, hbasis, hnumerator, hdenominator⟩)
      ?_ ?_ hle ((chosen_eq_some_iff (by decide)).mp hb)
    · rw [hfn]
      exact parseU64_eq_some_iff.mp hn
    · rw [hfd]
      exact parseU64_eq_some_iff.mp hd

theorem describes_threshold : Describes thresholdAttributes ThresholdAttributes := by
  intro pairs
  refine (takes_require (Finset.notMem_empty _)).answers ?_ fun a h => ?_
  rotate_left
  · obtain ⟨kind, -, b, hkind, -⟩ := h.type
    rw [hkind]
    rfl
  refine (takes_require (by decide)).answers ?_ fun a h => ?_
  rotate_left
  · obtain ⟨kind, -, b, -, hbasis⟩ := h.type
    obtain ⟨basis, hbasis, -⟩ := Option.bind_eq_some_iff.mp hbasis
    rw [hbasis]
    rfl
  refine (takes_andThen fun _ => takes_enumValue).answers ?_ fun a h => ?_
  rotate_left
  · obtain ⟨kind, -, b, -, hb⟩ := h.type
    obtain ⟨basis, hbasis, hb⟩ := Option.bind_eq_some_iff.mp hb
    rw [hbasis]
    rintro x ⟨⟩
    exact Option.isSome_iff_exists.mpr ⟨b, hb⟩
  rcases hkind : pairs.lookup (lit "type" (spells _)) with _ | kind
  · refine answers_none ((takes_drain (by decide) (by decide)).bind takes_pure) fun a h => ?_
    obtain ⟨kind', -, b, hkind', -⟩ := h.type
    rw [hkind] at hkind'
    cases hkind'
  dsimp only
  by_cases hmajority : kind = lit "simple-majority"
  · subst hmajority
    rw [if_pos rfl]
    refine answers_of_takes ((takes_forM (fun h => takes_forbid h) (by decide)
      (by decide)).bind takes_pure) (by decide : _ = thresholdNames) fun a => ?_
    rw [threshold_simpleMajority_iff hkind]
    simp only [List.forall_mem_cons, List.not_mem_nil, false_imp_iff, implies_true, and_true,
      Option.map_eq_some_iff]
    constructor
    · rintro ⟨hrest, hcovers, b, hb, rfl⟩
      exact ⟨b, rfl, hcovers, hb, hrest⟩
    · rintro ⟨b, rfl, hcovers, hb, hrest⟩
      exact ⟨hrest, hcovers, b, hb, rfl⟩
  rw [if_neg hmajority]
  by_cases hfraction : kind = lit "fraction"
  · subst hfraction
    rw [if_pos rfl]
    refine answers_of_takes (takes_value (by decide) (fun _ _ => takes_u64Value)
      (takes_value (by decide) (fun _ _ => takes_u64Value) takes_proportionOf))
      (by decide : _ = thresholdNames) fun a => ?_
    rw [threshold_fraction_iff hkind]
    constructor
    · rintro ⟨-, hcovers, ha⟩
      obtain ⟨n, hn, ha⟩ := Option.bind_eq_some_iff.mp ha
      obtain ⟨d, hd, ha⟩ := Option.bind_eq_some_iff.mp ha
      obtain ⟨b, hb, ha⟩ := Option.bind_eq_some_iff.mp ha
      obtain ⟨f, hf, rfl⟩ := Option.map_eq_some_iff.mp ha
      exact ⟨n, d, b, f, rfl, hcovers, hn, hd, hb, hf⟩
    · rintro ⟨n, d, b, f, rfl, hcovers, hn, hd, hb, hf⟩
      have hb' : (pairs.lookup (lit "basis")).bind (chosen [(lit "votes-cast", .votesCast),
          (lit "effective-electorate", .effectiveElectorate),
          (lit "total-electorate", .totalElectorate)]) = some b := hb
      rw [hn, hd, hb']
      refine ⟨⟨rfl, rfl, ?_⟩, hcovers, ?_⟩
      · rintro n' d' b' ⟨⟩ ⟨⟩ -
        rw [hf]
        rfl
      · simp [hf]
  · rw [if_neg hfraction]
    refine answers_none (takes_push.bind ((takes_drain (by decide) (by decide)).bind takes_pure))
      fun a h => ?_
    obtain ⟨kind', hkinds, b, hkind', -⟩ := h.type
    rw [hkind] at hkind'
    obtain rfl := Option.some.inj hkind'
    simp only [List.mem_cons, List.not_mem_nil, or_false] at hkinds
    tauto

end Irena.Bornite
