import Irena.Core.Compose
import Irena.Core.Expected
import Irena.Library.Spans

/-! # Bodies are well nested

Each reader of a part that can be amended stops behind the element it was called in. Content that
was refused and collected may be left in the middle of an element; the issue it leaves behind
refuses the whole. -/

namespace Irena.Core

open Irena.Library Irena.Library.Outcome Irena.Library.Strings Irena.Library.Markup
open Irena.Bornite Irena.Prunella

variable [Scanner] [LawfulScanner]

/-- Whatever it answers, the computation closes `d` elements more than it opens. -/
abbrev WellNested {φ ι α : Type} (p : Parse φ ι α) (d : ℕ) : Prop := p.Spanning d (fun _ => True) True

section Shared

variable {φ κ α : Type} [DocumentFault φ]

omit [LawfulScanner] [DocumentFault φ] in
theorem nested_still {ι : Type} {p : Parse φ ι α} (hp : Parse.Still p) : WellNested p 0 :=
  hp.spanning fun _ _ _ _ => trivial

theorem nested_expectLeaf {element : Text} {isEmpty : Bool} :
    WellNested (expectLeaf element isEmpty : Parse φ κ Unit) (depthOf isEmpty) := by
  cases isEmpty with
  | true => exact Parse.spanning_pure fun _ => trivial
  | false =>
    exact Parse.spanning_children (G := fun _ => True) (fun _ _ _ => Parse.spanning_refused) ()

omit [LawfulScanner] in
theorem still_noAttributes {element : Text} {tag : Tag} :
    Parse.Still (noAttributes element tag : Parse φ κ Unit) :=
  still_readAttributes.bind fun _ => Parse.still_answer _

end Shared

theorem nested_parseRule {α : Type} {element : Text} {body : Reading XmlIssueV1 (Option α)}
    {tag : Tag} {isEmpty : Bool} {slots : RuleSlots} {get : RuleSlots → Option (Option α)}
    {set : Option (Option α) → Finset XmlIssueV1 → RuleSlots} :
    WellNested (parseRule element body tag isEmpty slots get set) (depthOf isEmpty) := by
  refine still_readAttributes.bind_spanning fun ⟨value, issues⟩ => ?_
  exact nested_expectLeaf.bind fun _ => Parse.spanning_pure fun _ => trivial

theorem nested_parseRuleChild {s : RuleSlots} {tag : Tag} {isEmpty : Bool} :
    WellNested (parseRuleChild s tag isEmpty) (depthOf isEmpty) := by
  unfold parseRuleChild
  split_ifs
  all_goals first | exact nested_parseRule | exact Parse.spanning_refused

theorem nested_parseVotingRules {tag : Tag} : WellNested (parseVotingRules tag) 1 := by
  refine still_readAttributes.bind_spanning fun ⟨version, issues⟩ => ?_
  have hversion : Parse.Still (checkVersion version) := by
    unfold checkVersion
    split
    · exact Parse.still_answer _
    · split <;> exact Parse.still_answer _
  refine hversion.bind_spanning fun _ => ?_
  refine (Parse.spanning_children (fun _ _ _ => nested_parseRuleChild) _).bind fun s => ?_
  refine nested_still (still_finishIssues.bind fun _ => ?_)
  refine still_expectSome.bind fun _ => still_expectSome.bind fun _ => ?_
  refine still_expectSome.bind fun _ => still_expectSome.bind fun _ => ?_
  exact still_expectSome.bind fun _ => still_expectSome.bind fun _ => Parse.still_answer _

theorem nested_parseLeaves {α : Type} {parent item : Text} {limit : Option (ℕ × IssueV1)}
    {body : Reading IssueV1 (Option α)} {isEmpty : Bool} {issues : Finset IssueV1} :
    WellNested (parseLeaves parent item limit body isEmpty issues) (depthOf isEmpty) := by
  unfold parseLeaves
  cases isEmpty with
  | true => exact Parse.spanning_pure fun _ => trivial
  | false =>
    refine Parse.spanning_children (G := fun _ => True) (fun p tag leafIsEmpty => ?_) _
    obtain ⟨items, found⟩ := p
    dsimp only
    split
    · exact Parse.spanning_refused
    · split
      · split
        · exact (Parse.still_answer _).bind_spanning fun _ =>
            still_readAttributes.bind_spanning fun _ =>
              nested_expectLeaf.bind fun _ => Parse.spanning_pure fun _ => trivial
        · exact still_readAttributes.bind_spanning fun _ =>
            nested_expectLeaf.bind fun _ => Parse.spanning_pure fun _ => trivial
      · exact still_readAttributes.bind_spanning fun _ =>
          nested_expectLeaf.bind fun _ => Parse.spanning_pure fun _ => trivial

theorem nested_parseShareStructure {tag : Tag} {isEmpty : Bool} :
    WellNested (parseShareStructure tag isEmpty) (depthOf isEmpty) :=
  still_noAttributes.bind_spanning fun _ => nested_parseLeaves.bind fun _ =>
    nested_still (still_finishIssues.bind fun _ => Parse.still_answer _)

theorem nested_parseIdentities {tag : Tag} {isEmpty : Bool} :
    WellNested (parseIdentities tag isEmpty) (depthOf isEmpty) :=
  still_noAttributes.bind_spanning fun _ => nested_parseLeaves.bind fun _ =>
    nested_still (still_finishIssues.bind fun _ => Parse.still_answer _)

theorem nested_parseAuthorisation {tag : Tag} {isEmpty : Bool} :
    WellNested (parseAuthorisation tag isEmpty) (depthOf isEmpty) :=
  still_noAttributes.bind_spanning fun _ => nested_parseLeaves.bind fun _ =>
    nested_still (still_finishIssues.bind fun _ => Parse.still_answer _)

theorem nested_parseScope {channel : ChannelIdV1} {tag : Tag} {isEmpty : Bool} :
    WellNested (parseScope channel tag isEmpty) (depthOf isEmpty) :=
  still_noAttributes.bind_spanning fun _ => nested_parseLeaves.bind fun _ =>
    nested_still (still_finishIssues.bind fun _ => Parse.still_answer _)

theorem nested_parseActors {channel : ChannelIdV1} {tag : Tag} {isEmpty : Bool} :
    WellNested (parseActors channel tag isEmpty) (depthOf isEmpty) := by
  refine still_readAttributes.bind_spanning fun ⟨roster, issues⟩ => ?_
  refine nested_parseLeaves.bind fun ⟨members, issues⟩ => ?_
  refine nested_still (still_finishIssues.bind fun _ => ?_)
  cases roster with
  | false => exact Parse.still_answer _
  | true => exact (Parse.still_answer _).bind fun _ => Parse.still_answer _

omit [LawfulScanner] in
/-- Embedded content without an issue was read to its end. -/
theorem spanning_embed {α : Type} {issues : Finset IssueV1} {p : IrenaParse α} {d : ℕ}
    (hp : WellNested p d) (hexpected : p.Ends (fun _ => True) Expected) :
    (embed issues p).Spanning d (fun q => q.2 = ∅) (issues = ∅) := by
  rintro r ⟨found, all⟩ r' hrun hnone
  obtain ⟨x, r₁, hattempt, hpure⟩ := Parse.run_bind_ok.mp hrun
  have hends := hexpected r
  rcases hread : p.run r with ⟨(f | i) | a, r₂⟩
  · simp [Parse.attempt, hread] at hattempt
  · simp only [Parse.attempt, hread, Prod.mk.injEq, Except.ok.injEq] at hattempt
    obtain ⟨rfl, rfl⟩ := hattempt
    obtain ⟨hq, -⟩ := Prod.mk.inj hpure
    obtain ⟨-, hall⟩ := Prod.mk.inj (Except.ok.inj hq)
    rw [hread] at hends
    have hunion : issues ∪ i = ∅ := hall.trans hnone
    exact absurd (Finset.union_eq_empty.mp hunion).2 hends
  · simp only [Parse.attempt, hread, Prod.mk.injEq, Except.ok.injEq] at hattempt
    obtain ⟨rfl, rfl⟩ := hattempt
    obtain ⟨hq, rfl⟩ := Prod.mk.inj hpure
    obtain ⟨-, hall⟩ := Prod.mk.inj (Except.ok.inj hq)
    exact ⟨hall.trans hnone, (hp hread trivial).2⟩

omit [LawfulScanner] in
/-- A child that is embedded, a repetition recorded before it. -/
theorem spanning_repeated {α β : Type} {present : Bool} {parent element : Text}
    {issues : Finset IssueV1} {p : IrenaParse α} {d : ℕ} {k : Option α → Finset IssueV1 → β}
    {G : β → Prop} (hp : WellNested p d) (hexpected : p.Ends (fun _ => True) Expected)
    (hkeep : ∀ found all, G (k found all) → all = ∅) :
    Parse.Spanning (do
      let (found, all) ← embed (repeatedIf present parent element issues) p
      return k found all : IrenaParse β) d G (issues = ∅) := by
  intro r b r' hrun hgood
  have hembed : (embed (repeatedIf present parent element issues) p).Spanning d (fun q => q.2 = ∅)
      (repeatedIf present parent element issues = ∅) := spanning_embed hp hexpected
  have hspanning := hembed.bind (f := fun q => (pure (k q.1 q.2) : IrenaParse β)) (B := G)
    fun q => Parse.spanning_pure fun hq => hkeep q.1 q.2 hq
  obtain ⟨hnone, hspans⟩ := hspanning hrun hgood
  exact ⟨Finset.subset_empty.mp (hnone ▸ subset_repeatedIf), hspans⟩

theorem spanning_parseChannelChild {id : ChannelIdV1} {s : ChannelSlots} {tag : Tag}
    {isEmpty : Bool} :
    (parseChannelChild id s tag isEmpty).Spanning (depthOf isEmpty) (fun t => t.issues = ∅)
      (s.issues = ∅) := by
  unfold parseChannelChild
  refine Parse.spanning_ite (fun _ => ?_) fun _ => ?_
  · exact spanning_repeated (G := fun t => t.issues = ∅) (k := fun found all =>
      { s with actors := found.or s.actors, actorsSeen := true, issues := all })
      nested_parseActors ends_parseActors fun _ _ h => h
  refine Parse.spanning_ite (fun _ => ?_) fun _ => ?_
  · exact spanning_repeated (G := fun t => t.issues = ∅) (k := fun found all =>
      { s with scope := found.or s.scope, scopeSeen := true, issues := all })
      nested_parseScope ends_parseScope fun _ _ h => h
  refine Parse.spanning_ite (fun _ => ?_) fun _ => ?_
  · refine Parse.spanning_ite (fun _ => Parse.spanning_refused) fun hfull => ?_
    have hdepth : depthOf isEmpty = 1 := if_neg hfull
    rw [hdepth]
    exact spanning_repeated (G := fun t => t.issues = ∅) (k := fun found all =>
      { s with rules := found.or s.rules, rulesSeen := true, issues := all })
      (nested_parseVotingRules.mapRefusal _ _) ends_embeddedRules fun _ _ h => h
  exact Parse.spanning_refused

theorem nested_parseChannelBody {id : ChannelIdV1} {individual : Option Bool}
    {issues : Finset IssueV1} {isEmpty : Bool} :
    WellNested (parseChannelBody id individual issues isEmpty) (depthOf isEmpty) := by
  unfold parseChannelBody
  cases isEmpty with
  | true => exact Parse.spanning_refused
  | false =>
    have hchildren : (Parse.children (reasonsIn (lit "channel")) (parseChannelChild id)
        ⟨none, none, none, false, false, false, issues⟩ : IrenaParse ChannelSlots).Spanning 1
        (fun t => t.issues = ∅) (issues = ∅) :=
      Parse.spanning_children (fun _ _ _ => spanning_parseChannelChild) _
    intro r a r' hrun hgood
    refine ⟨trivial, ((hchildren.bind (B := fun _ => True) fun s => ?_) hrun hgood).2⟩
    intro r a r' hrun _
    obtain ⟨_, r₁, hfinish, hrest⟩ := Parse.run_bind_ok.mp hrun
    obtain ⟨hnone, rfl⟩ := run_finishIssues_ok.mp hfinish
    refine ⟨(Finset.union_eq_empty.mp (Finset.union_eq_empty.mp hnone).1).1, ?_⟩
    obtain ⟨actors, r₂, hactors, hrest⟩ := Parse.run_bind_ok.mp hrest
    obtain ⟨mode, r₃, hmode, hanswer⟩ := Parse.run_bind_ok.mp hrest
    obtain rfl := still_expectSome.eq_of_run hactors
    obtain rfl := still_expectSome.eq_of_run hmode
    obtain ⟨-, rfl⟩ := Prod.mk.inj hanswer
    exact .refl

theorem nested_parseChannel {tag : Tag} {isEmpty : Bool} :
    WellNested (parseChannel tag isEmpty) (depthOf isEmpty) := by
  refine still_readAttributes.bind_spanning fun ⟨⟨id, mode⟩, issues⟩ => ?_
  cases id with
  | none =>
    cases isEmpty with
    | true => exact Parse.spanning_refused
    | false =>
      rintro r a r' hrun -
      obtain ⟨_, r₁, -, hrefused⟩ := Parse.run_bind_ok.mp hrun
      cases (Prod.mk.inj hrefused).1
  | some id => exact nested_parseChannelBody

theorem nested_parseDecisionChannels {tag : Tag} {isEmpty : Bool} :
    WellNested (parseDecisionChannels tag isEmpty) (depthOf isEmpty) := by
  refine still_noAttributes.bind_spanning fun _ => ?_
  have hend : ∀ p : List DecisionChannelV1 × Finset IssueV1, Parse.Spanning (do
      finishIssues p.2
      Parse.answer (DecisionChannelsV1.new p.1) : IrenaParse _) 0 (fun _ => True) (p.2 = ∅) := by
    rintro p r a r' hrun -
    obtain ⟨_, r₁, hfinish, hanswer⟩ := Parse.run_bind_ok.mp hrun
    obtain ⟨hnone, rfl⟩ := run_finishIssues_ok.mp hfinish
    obtain ⟨-, rfl⟩ := Prod.mk.inj hanswer
    exact ⟨hnone, .refl⟩
  cases isEmpty with
  | true => exact fun r a r' hrun hgood => ⟨trivial, (hend ([], ∅) hrun hgood).2⟩
  | false =>
    refine fun r a r' hrun hgood => ⟨trivial, ?_⟩
    refine (((Parse.spanning_children (G := fun p : List DecisionChannelV1 × Finset IssueV1 =>
      p.2 = ∅) (fun ⟨channels, issues⟩ child isEmpty => ?_) ([], ∅)).bind hend) hrun hgood).2
    dsimp only
    split_ifs
    · exact Parse.spanning_refused
    · exact Parse.spanning_refused
    · exact (spanning_embed nested_parseChannel ends_parseChannel).bind fun q =>
        Parse.spanning_pure fun hnone => hnone

/-- A leaf whose attributes are read behind the issues met before it. -/
theorem spanning_leaf {α β : Type} {present : Bool} {parent element : Text} {tag : Tag}
    {isEmpty : Bool} {issues : Finset IssueV1} {body : Reading IssueV1 α} {Q : α → Prop}
    {k : α → Finset IssueV1 → β} {G : β → Prop} (hbody : Settles body Q)
    (hkeep : ∀ found all, G (k found all) → all = ∅) :
    Parse.Spanning (do
      let (found, all) ← readAttributes element tag (repeatedIf present parent element issues) body
      expectLeaf element isEmpty
      return k found all : IrenaParse β) (depthOf isEmpty) G (issues = ∅) := by
  intro r b r' hrun hgood
  obtain ⟨⟨found, all⟩, r₁, hattributes, hrest⟩ := Parse.run_bind_ok.mp hrun
  obtain ⟨_, r₂, hleaf, hanswer⟩ := Parse.run_bind_ok.mp hrest
  obtain ⟨hb, rfl⟩ := Prod.mk.inj hanswer
  obtain rfl := Except.ok.inj hb
  obtain rfl := still_readAttributes.eq_of_run hattributes
  have hkept : repeatedIf present parent element issues ⊆ all := by
    have hends : (readAttributes element tag (repeatedIf present parent element issues) body :
        IrenaParse (α × Finset IssueV1)).Ends _ Expected := ends_readAttributes hbody
    have hends := hends r₁
    rw [hattributes] at hends
    exact hends.1
  have hnone := hkeep found all hgood
  subst hnone
  exact ⟨Finset.subset_empty.mp (subset_repeatedIf.trans hkept), (nested_expectLeaf hleaf trivial).2⟩

theorem nested_parseIdentity {tag : Tag} {isEmpty : Bool} :
    WellNested (parseIdentity tag isEmpty) (depthOf isEmpty) :=
  still_readAttributes.bind_spanning fun _ => nested_expectLeaf.bind fun _ =>
    nested_still (still_finishIssues.bind fun _ => still_expectSome)

theorem nested_parseGovernance : WellNested (parseGovernance : IrenaParse DecisionChannelsV1) 1 := by
  intro r a r' hrun _
  refine ⟨trivial, ?_⟩
  refine (((Parse.spanning_children
    (G := fun p : Option DecisionChannelsV1 × Bool × Finset IssueV1 => p.2.2 = ∅)
    (fun ⟨channels, seen, issues⟩ child isEmpty => ?_) (none, false, ∅)).bind
    (B := fun _ => True) fun p => ?_) hrun trivial).2
  · dsimp only
    split_ifs
    · exact Parse.spanning_refused
    · exact spanning_repeated (G := fun p : Option DecisionChannelsV1 × Bool × Finset IssueV1 =>
        p.2.2 = ∅) (k := fun found all => (found.or channels, true, all))
        nested_parseDecisionChannels ends_parseDecisionChannels fun _ _ h => h
  · intro r a r' hrun _
    obtain ⟨_, r₁, hfinish, hanswer⟩ := Parse.run_bind_ok.mp hrun
    obtain ⟨hnone, rfl⟩ := run_finishIssues_ok.mp hfinish
    obtain rfl := still_expectSome.eq_of_run hanswer
    exact ⟨(Finset.union_eq_empty.mp hnone).1, .refl⟩

theorem spanning_parseGenesisChild {s : GenesisSlots} {tag : Tag} {isEmpty : Bool} :
    (parseGenesisChild s tag isEmpty).Spanning (depthOf isEmpty) (fun t => t.issues = ∅)
      (s.issues = ∅) := by
  unfold parseGenesisChild
  dsimp only
  refine Parse.spanning_ite (fun _ => ?_) fun _ => ?_
  · exact spanning_leaf (G := fun t => t.issues = ∅) (k := fun found all =>
      { s with identity := found.or s.identity, issues := all })
      settles_identityAttributes fun _ _ h => h
  refine Parse.spanning_ite (fun _ => ?_) fun _ => ?_
  · exact spanning_leaf (G := fun t => t.issues = ∅) (k := fun digest all =>
      { s with incorporation := some digest, issues := all })
      settles_incorporationAttributes fun _ _ h => h
  refine Parse.spanning_ite (fun _ => ?_) fun _ => ?_
  · exact spanning_repeated (G := fun t => t.issues = ∅) (k := fun found all =>
      { s with shares := found.or s.shares, sharesSeen := true, issues := all })
      nested_parseShareStructure ends_parseShareStructure fun _ _ h => h
  refine Parse.spanning_ite (fun _ => ?_) fun _ => ?_
  · refine still_noAttributes.bind_spanning fun _ => ?_
    refine Parse.spanning_ite (fun _ => Parse.spanning_refused) fun hfull => ?_
    have hdepth : depthOf isEmpty = 1 := if_neg hfull
    rw [hdepth]
    exact spanning_repeated (G := fun t => t.issues = ∅) (k := fun found all =>
      { s with channels := found.or s.channels, governanceSeen := true, issues := all })
      nested_parseGovernance ends_parseGovernance fun _ _ h => h
  refine Parse.spanning_ite (fun _ => ?_) fun _ => ?_
  · exact spanning_repeated (G := fun t => t.issues = ∅) (k := fun found all =>
      { s with identities := found.or s.identities, identitiesSeen := true, issues := all })
      nested_parseIdentities ends_parseIdentities fun _ _ h => h
  refine Parse.spanning_ite (fun _ => ?_) fun _ => ?_
  · exact spanning_repeated (G := fun t => t.issues = ∅) (k := fun found all =>
      { s with authorisation := found.or s.authorisation, authorisationSeen := true, issues := all })
      nested_parseAuthorisation ends_parseAuthorisation fun _ _ h => h
  exact Parse.spanning_refused

theorem nested_parseCompanyGenesis {tag : Tag} : WellNested (parseCompanyGenesis tag) 1 := by
  refine still_noAttributes.bind_spanning fun _ => ?_
  have hchildren : (Parse.children (reasonsIn (lit "company-genesis")) parseGenesisChild .empty :
      IrenaParse GenesisSlots).Spanning 1 (fun t => t.issues = ∅) (GenesisSlots.empty.issues = ∅) :=
    Parse.spanning_children (fun _ _ _ => spanning_parseGenesisChild) _
  intro r a r' hrun hgood
  refine ⟨trivial, ((hchildren.bind (B := fun _ => True) fun s => ?_) hrun hgood).2⟩
  have hstill : Parse.Still (do
      finishIssues (s.issues ∪ s.missing)
      return {
        identity := ← expectSome s.identity
        incorporationDigest := s.incorporation.join
        shares := ← expectSome s.shares
        channels := ← expectSome s.channels
        identities := ← expectSome s.identities
        authorisation := ← expectSome s.authorisation } : IrenaParse CompanyGenesisV1) := by
    refine still_finishIssues.bind fun _ => still_expectSome.bind fun _ => ?_
    refine still_expectSome.bind fun _ => still_expectSome.bind fun _ => ?_
    exact still_expectSome.bind fun _ => still_expectSome.bind fun _ => Parse.still_answer _
  intro r a r' hrun _
  obtain rfl := hstill.eq_of_run hrun
  obtain ⟨_, r₁, hfinish, -⟩ := Parse.run_bind_ok.mp hrun
  exact ⟨(Finset.union_eq_empty.mp (run_finishIssues_ok.mp hfinish).1).1, .refl⟩

/-- The reader of a body stops behind its element. -/
theorem nested_parseBody {kind : RecordKindV1} {tag : Tag} {isEmpty : Bool} :
    WellNested (parseBody kind tag isEmpty) (depthOf isEmpty) := by
  have hwrap {α : Type} {p : IrenaParse α} {wrap : α → RecordBodyV1} {d : ℕ}
      (hp : WellNested p d) : WellNested (do return wrap (← p)) d :=
    hp.bind fun _ => Parse.spanning_pure fun _ => trivial
  cases kind with
  | companyGenesis =>
    cases isEmpty with
    | true => exact Parse.spanning_refused
    | false => exact hwrap nested_parseCompanyGenesis
  | identity => exact hwrap nested_parseIdentity
  | shareStructure => exact hwrap nested_parseShareStructure
  | decisionChannels => exact hwrap nested_parseDecisionChannels
  | identities => exact hwrap nested_parseIdentities
  | authorisation => exact hwrap nested_parseAuthorisation

omit [LawfulScanner] in
/-- Behind the root of a document nothing is open. -/
theorem Stands.opened [WritingScanner] {kind : RecordKindV1} {xml : Text} {root : Tag}
    {isEmpty : Bool} {r r' : Reader} {body : RecordBodyV1}
    (h : Stands kind xml root isEmpty r r' body) : r'.opened = [] := by
  have hprolog (e : Event) (he : prolog e = true) : e.Level := by
    cases e <;> simp_all [prolog, Event.Level]
  have hroot := Parse.skip_nests hprolog h.begins
  have hlength := (nested_parseBody h.reads trivial).2.opened_length
  refine List.eq_nil_of_length_eq_zero ?_
  cases isEmpty <;> simp_all [rootEvent, Event.Nests, depthOf, openDocument]

end Irena.Core
