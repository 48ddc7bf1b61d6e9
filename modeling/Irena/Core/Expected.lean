import Irena.Bornite.Expected
import Irena.Core.Xml

/-! # What the company readers expect

Past its checks the reader of a company record expects every part to be there, each channel's actors
and mode among them. None of these expectations fails. -/

namespace Irena.Core

open Irena.Library Irena.Library.Outcome Irena.Library.Strings Irena.Library.Markup
open Irena.Bornite Irena.Prunella

instance : LawfulFault IrenaFault := ⟨fun _ => nofun, fun _ _ => nofun⟩

variable {α : Type}

section Values

theorem expected_invalidIssues {issues : List IssueV1} (h : issues ≠ []) :
    Expected (invalidIssues issues) :=
  fun hnone => h (List.toFinset_eq_empty_iff _ |>.mp hnone)

/-- A value refused at an attribute is refused for a reason. -/
theorem ends_rejectValue {element key value reason : Text} {Q : α → Prop} :
    Ends (rejectValue element key value reason) Q Expected :=
  expected_invalidIssues (List.cons_ne_nil _ _)

theorem ends_spelled {element key reason value : Text} {parsed : Option α} :
    Ends (spelled element key reason value parsed) (fun _ => True) Expected := by
  cases parsed with
  | none => exact ends_rejectValue
  | some a => trivial

theorem ends_companyId {value : Text} : Ends (CompanyIdV1.new value) (fun _ => True) Expected := by
  unfold CompanyIdV1.new
  split
  · exact ends_rejectValue
  · trivial

theorem ends_channelId {value : Text} : Ends (ChannelIdV1.new value) (fun _ => True) Expected := by
  unfold ChannelIdV1.new
  split
  · exact ends_rejectValue
  · trivial

theorem ends_notaryId {value : Text} : Ends (NotaryIdV1.new value) (fun _ => True) Expected := by
  unfold NotaryIdV1.new
  split
  · exact ends_rejectValue
  · trivial

theorem ends_notaryTime {text : Text} : Ends (NotaryTimeV1.parse text) (fun _ => True) Expected := by
  unfold NotaryTimeV1.parse
  split
  · exact ends_rejectValue
  · trivial

theorem ends_voterIdValue {element key text : Text} :
    Ends (voterIdValue element key text) (fun _ => True) Expected := by
  unfold voterIdValue
  split
  · trivial
  · exact ends_rejectValue
  · exact ends_rejectValue

theorem ends_identityValidate {identity : IdentityV1} :
    Ends identity.validate (fun _ => True) Expected := by
  unfold IdentityV1.validate
  split
  · exact ends_rejectValue
  · trivial

theorem ends_shareStructure {holders : List HolderV1} :
    Ends (ShareStructureV1.new holders) (fun _ => True) Expected := by
  unfold ShareStructureV1.new
  split_ifs with hmany hissues
  · exact expected_invalidIssues (List.cons_ne_nil _ _)
  · trivial
  · exact expected_invalidIssues hissues

theorem ends_identities {persons : List PersonV1} :
    Ends (IdentitiesV1.new persons) (fun _ => True) Expected := by
  unfold IdentitiesV1.new
  split_ifs with hmany hissues
  · exact expected_invalidIssues (List.cons_ne_nil _ _)
  · trivial
  · exact expected_invalidIssues hissues

theorem ends_authorisation {signers : List SignerV1} :
    Ends (AuthorisationV1.new signers) (fun _ => True) Expected := by
  unfold AuthorisationV1.new
  split_ifs with hissues
  · trivial
  · exact expected_invalidIssues hissues

theorem ends_roster {channel : ChannelIdV1} {members : List MemberV1} :
    Ends (RosterV1.new channel members) (fun _ => True) Expected := by
  unfold RosterV1.new
  split_ifs with hmany hissues
  · exact expected_invalidIssues (List.cons_ne_nil _ _)
  · trivial
  · exact expected_invalidIssues hissues

theorem ends_scope {channel : ChannelIdV1} {parts : List RecordKindV1} :
    Ends (ChannelScopeV1.new channel parts) (fun _ => True) Expected := by
  unfold ChannelScopeV1.new
  split_ifs with hissues
  · trivial
  · exact expected_invalidIssues hissues

theorem ends_channels {channels : List DecisionChannelV1} :
    Ends (DecisionChannelsV1.new channels) (fun _ => True) Expected := by
  unfold DecisionChannelsV1.new
  split_ifs with hmany hissues
  · exact expected_invalidIssues (List.cons_ne_nil _ _)
  · trivial
  · exact expected_invalidIssues hissues

theorem settles_requireText {name : Text} :
    Settles (require name) fun value => value.isSome = true :=
  settles_requireWith

/-- A value is kept, or its issues are. -/
theorem settles_collect {result : Except IrenaError α}
    (h : Ends result (fun _ => True) Expected) :
    Settles (collect result) fun value => value.isSome = true := by
  rcases result with (reason | found) | a
  · exact settles_push.bind fun _ => settles_pure fun hfalse => hfalse.elim
  · refine fun attributes issues => ⟨Finset.subset_union_left, fun hnone => ?_⟩
    exact absurd (Finset.union_eq_empty.mp hnone).2 h
  · exact settles_pure rfl

theorem settles_holderAttributes : Settles holderAttributes fun _ => True := by
  refine settles_requireText.after fun id => settles_take.after fun name => ?_
  refine settles_requireText.after fun shares => ?_
  refine (settles_andThen fun _ => settles_collect ends_voterIdValue).after fun id => ?_
  refine (settles_andThen fun _ => settles_collect ends_spelled).after fun shares => ?_
  cases id <;> cases shares <;> exact settles_pure trivial

theorem settles_personAttributes : Settles personAttributes fun _ => True := by
  refine settles_requireText.after fun id => settles_take.after fun name => ?_
  refine settles_take.after fun documentId => settles_take.after fun key => ?_
  refine (settles_andThen fun _ => settles_collect ends_voterIdValue).after fun id => ?_
  cases key with
  | none => cases id <;> exact settles_pure trivial
  | some text =>
    refine (settles_collect ends_spelled).after fun key => ?_
    cases id <;> cases key <;> exact settles_pure trivial

theorem settles_signerAttributes : Settles signerAttributes fun _ => True := by
  refine settles_requireText.after fun person => settles_requireText.after fun records => ?_
  refine (settles_andThen fun _ => settles_collect ends_voterIdValue).after fun person => ?_
  refine (settles_andThen fun _ => settles_collect ends_spelled).after fun family => ?_
  cases person <;> cases family <;> exact settles_pure trivial

theorem settles_memberAttributes : Settles memberAttributes fun _ => True := by
  refine settles_requireText.after fun id => settles_take.after fun name => ?_
  refine settles_take.after fun weight => ?_
  refine (settles_andThen fun _ => settles_collect ends_voterIdValue).after fun id => ?_
  cases weight with
  | none => cases id <;> exact settles_pure trivial
  | some text =>
    refine (settles_collect ends_spelled).after fun weight => ?_
    cases id <;> cases weight <;> exact settles_pure trivial

theorem settles_sourceAttributes : Settles sourceAttributes fun _ => True := by
  refine settles_requireText.after fun source => ?_
  cases source with
  | none => exact settles_pure trivial
  | some source =>
    dsimp only
    split
    · exact settles_pure trivial
    · split
      · exact settles_pure trivial
      · exact settles_push.after fun _ => settles_pure trivial

theorem settles_amendAttributes : Settles amendAttributes fun _ => True :=
  settles_requireText.after fun _ =>
    (settles_andThen fun _ => settles_collect ends_spelled).mono fun _ _ => trivial

theorem settles_identityAttributes : Settles identityAttributes fun value => value.isSome = true := by
  refine settles_requireText.bind fun name => ?_
  refine settles_take.bind fun jurisdiction => settles_take.bind fun registeredNumber => ?_
  cases name with
  | none => exact settles_pure fun _ _ h => h
  | some name =>
    exact (settles_collect ends_identityValidate).bind fun _ => settles_pure fun _ _ _ _ => rfl

theorem settles_incorporationAttributes : Settles incorporationAttributes fun _ => True :=
  settles_take.after fun _ =>
    (settles_andThen fun _ => settles_collect ends_spelled).mono fun _ _ => trivial

theorem isSome_or {o p : Option α} (h : o.isSome = true) : (o.or p).isSome = true := by
  obtain ⟨a, rfl⟩ := Option.isSome_iff_exists.mp h
  rfl

end Values

variable [Scanner]

section Helpers

/-- Embedded content has a value, unless an issue was recorded. -/
theorem ends_embed {issues : Finset IssueV1} {p : IrenaParse α}
    (h : p.Ends (fun _ => True) Expected) :
    (embed issues p).Ends
      (fun q => issues ⊆ q.2 ∧ (q.2 = ∅ → q.1.isSome = true)) Expected := by
  refine h.attempt.bind fun x hx => ?_
  cases x with
  | ok a => exact Parse.ends_pure ⟨Finset.Subset.refl _, fun _ => rfl⟩
  | error found =>
    refine Parse.ends_pure ⟨Finset.subset_union_left, fun hnone => ?_⟩
    exact absurd (Finset.union_eq_empty.mp hnone).2 hx

omit [Scanner] in
theorem subset_repeatedIf {present : Bool} {parent element : Text} {issues : Finset IssueV1} :
    issues ⊆ repeatedIf present parent element issues := by
  cases present
  · exact Finset.Subset.refl _
  · exact Finset.subset_insert _ _

/-- The leaf children of an element keep the issues recorded before them. -/
theorem ends_parseLeaves {parent item : Text} {limit : Option (ℕ × IssueV1)}
    {body : Reading IssueV1 (Option α)} {isEmpty : Bool} {issues : Finset IssueV1}
    {Q : Option α → Prop} (hbody : Settles body Q) :
    (parseLeaves parent item limit body isEmpty issues).Ends (fun p => issues ⊆ p.2) Expected := by
  unfold parseLeaves
  split
  · exact Parse.ends_pure (Finset.Subset.refl _)
  · refine ends_childrenOf (fun p tag leafIsEmpty hkept => ?_) (Finset.Subset.refl _)
    obtain ⟨items, found⟩ := p
    dsimp only at hkept ⊢
    split
    · exact ends_unknownChild
    · split
      · split
        · exact (Parse.ends_invalid (Q := fun _ => True) (Finset.singleton_ne_empty _)).bind
            fun _ _ => (ends_readAttributes hbody).bind fun _ hmore =>
              ends_expectLeaf.bind fun _ _ => Parse.ends_pure (hkept.trans hmore.1)
        · exact (ends_readAttributes hbody).bind fun _ hmore =>
            ends_expectLeaf.bind fun _ _ => Parse.ends_pure (hkept.trans hmore.1)
      · exact (ends_readAttributes hbody).bind fun _ hmore =>
          ends_expectLeaf.bind fun _ _ => Parse.ends_pure (hkept.trans hmore.1)

end Helpers

section Elements

theorem ends_readNotarisation {tag : Tag} :
    (readNotarisation tag).Ends (fun _ => True) Expected := by
  have hattributes : Settles notarisationAttributes fun value => value.isSome = true := by
    refine settles_requireText.bind fun id => settles_requireText.bind fun name => ?_
    refine settles_take.bind fun address => settles_requireText.bind fun at_ => ?_
    refine settles_take.bind fun statement => settles_take.bind fun sourceDigest => ?_
    refine (settles_andThen fun _ => settles_collect ends_notaryId).bind fun id' => ?_
    refine (settles_andThen fun _ => settles_collect ends_notaryTime).bind fun at' => ?_
    refine (settles_andThen fun _ => settles_collect ends_spelled).bind fun digest => ?_
    cases name with
    | none =>
      cases id' <;> cases at' <;> exact settles_pure fun _ _ _ _ _ _ _ h => Bool.noConfusion h
    | some name =>
      dsimp only
      split
      · refine settles_push.bind fun _ => ?_
        cases id' <;> cases at' <;> exact settles_pure fun h => h.elim
      · cases id' with
        | none => cases at' <;> exact settles_pure (by simp_all)
        | some id => cases at' <;> exact settles_pure (by simp_all)
  refine (ends_readAttributes hattributes).bind fun ⟨value, issues⟩ ⟨_, hvalue⟩ => ?_
  refine ends_finishIssues.bind fun _ hnone => ?_
  exact (ends_expectSome (hvalue hnone)).mono fun _ _ => trivial

theorem ends_parseShareStructure {tag : Tag} {isEmpty : Bool} :
    (parseShareStructure tag isEmpty).Ends (fun _ => True) Expected :=
  ends_noAttributes.bind fun _ _ => (ends_parseLeaves settles_holderAttributes).bind fun _ _ =>
    ends_finishIssues.bind fun _ _ => Parse.ends_answer ends_shareStructure

theorem ends_parseIdentities {tag : Tag} {isEmpty : Bool} :
    (parseIdentities tag isEmpty).Ends (fun _ => True) Expected :=
  ends_noAttributes.bind fun _ _ => (ends_parseLeaves settles_personAttributes).bind fun _ _ =>
    ends_finishIssues.bind fun _ _ => Parse.ends_answer ends_identities

theorem ends_parseAuthorisation {tag : Tag} {isEmpty : Bool} :
    (parseAuthorisation tag isEmpty).Ends (fun _ => True) Expected :=
  ends_noAttributes.bind fun _ _ => (ends_parseLeaves settles_signerAttributes).bind fun _ _ =>
    ends_finishIssues.bind fun _ _ => Parse.ends_answer ends_authorisation

theorem ends_parseScope {channel : ChannelIdV1} {tag : Tag} {isEmpty : Bool} :
    (parseScope channel tag isEmpty).Ends (fun _ => True) Expected :=
  ends_noAttributes.bind fun _ _ => (ends_parseLeaves settles_amendAttributes).bind fun _ _ =>
    ends_finishIssues.bind fun _ _ => Parse.ends_answer ends_scope

theorem ends_parseActors {channel : ChannelIdV1} {tag : Tag} {isEmpty : Bool} :
    (parseActors channel tag isEmpty).Ends (fun _ => True) Expected := by
  refine (ends_readAttributes settles_sourceAttributes).bind fun ⟨roster, issues⟩ _ => ?_
  refine (ends_parseLeaves settles_memberAttributes).bind fun ⟨members, issues⟩ _ => ?_
  refine ends_finishIssues.bind fun _ _ => ?_
  cases roster with
  | false => exact Parse.ends_pure trivial
  | true => exact (Parse.ends_answer ends_roster).bind fun _ _ => Parse.ends_pure trivial

theorem ends_parseIdentity {tag : Tag} {isEmpty : Bool} :
    (parseIdentity tag isEmpty).Ends (fun _ => True) Expected := by
  refine (ends_readAttributes settles_identityAttributes).bind fun ⟨value, issues⟩ ⟨_, hvalue⟩ => ?_
  refine ends_expectLeaf.bind fun _ _ => ends_finishIssues.bind fun _ hnone => ?_
  exact (ends_expectSome (hvalue hnone)).mono fun _ _ => trivial

end Elements

section Channels

theorem ends_skipElement : (skipElement : IrenaParse Unit).Ends (fun _ => True) Expected :=
  (Parse.ends_walk nofun fun _ => nofun).bind fun _ _ => Parse.ends_pure trivial

/-- The voting rules of a channel expect what those of a document expect. -/
theorem ends_embeddedRules {tag : Tag} : Parse.Ends (((parseVotingRules tag).mapRefusal
    IrenaFault.ofXml fun found => found.image IssueV1.xml) : IrenaParse VotingRulesV1)
    (fun _ => True) Expected := by
  refine ends_parseVotingRules.mapRefusal (fun fault hfault => ?_) fun found hfound => ?_
  · cases fault with
    | panicked => exact absurd rfl hfault
    | _ => exact nofun
  · exact fun hnone => hfound (Finset.image_eq_empty.mp hnone)

/-- Without an issue, every child that was met has a value; the issues that were there stay. -/
structure ChannelSlots.Kept (issues : Finset IssueV1) (s : ChannelSlots) : Prop where
  kept : issues ⊆ s.issues
  actors : s.issues = ∅ → s.actorsSeen = true → s.actors.isSome = true
  rules : s.issues = ∅ → s.rulesSeen = true → s.rules.isSome = true

theorem ends_parseChannelChild {id : ChannelIdV1} {issues : Finset IssueV1} {s : ChannelSlots}
    {tag : Tag} {isEmpty : Bool} (h : s.Kept issues) :
    (parseChannelChild id s tag isEmpty).Ends (ChannelSlots.Kept issues) Expected := by
  have hkeep : ∀ {present : Bool} {parent element : Text} {found : Finset IssueV1},
      repeatedIf present parent element s.issues ⊆ found → s.issues ⊆ found :=
    fun hsub => subset_repeatedIf.trans hsub
  unfold parseChannelChild
  split_ifs
  · refine (ends_embed ends_parseActors).bind fun ⟨found, all⟩ ⟨hsub, hvalue⟩ => ?_
    exact Parse.ends_pure ⟨h.kept.trans (hkeep hsub), fun hnone _ => isSome_or (hvalue hnone),
      of_subset_empty (hkeep hsub) h.rules⟩
  · refine (ends_embed ends_parseScope).bind fun ⟨found, all⟩ ⟨hsub, _⟩ => ?_
    exact Parse.ends_pure ⟨h.kept.trans (hkeep hsub), of_subset_empty (hkeep hsub) h.actors,
      of_subset_empty (hkeep hsub) h.rules⟩
  · exact Parse.ends_fatal nofun
  · refine (ends_embed ends_embeddedRules).bind fun ⟨found, all⟩ ⟨hsub, hvalue⟩ => ?_
    exact Parse.ends_pure ⟨h.kept.trans (hkeep hsub), of_subset_empty (hkeep hsub) h.actors,
      fun hnone _ => isSome_or (hvalue hnone)⟩
  · exact ends_unknownChild

omit [Scanner] in
/-- A channel without an issue has a mode, where its mode attribute and its rules have values. -/
theorem isSome_channelMode {id : ChannelIdV1} {individual : Option Bool} {rulesSeen : Bool}
    {rules : Option VotingRulesV1} (hindividual : individual.isSome = true)
    (hrules : rulesSeen = true → rules.isSome = true)
    (hnone : (channelMode id individual rulesSeen rules).2 = ∅) :
    (channelMode id individual rulesSeen rules).1.isSome = true := by
  obtain ⟨individual, rfl⟩ := Option.isSome_iff_exists.mp hindividual
  cases individual <;> cases rulesSeen <;> cases rules <;>
    first
    | rfl
    | exact absurd hnone (Finset.singleton_ne_empty _)
    | exact absurd (hrules rfl) Bool.noConfusion

omit [Scanner] in
theorem isSome_modeAttribute {mode : Text} (h : (modeAttribute (some mode)).2 = ∅) :
    (modeAttribute (some mode)).1.isSome = true := by
  simp only [modeAttribute] at h ⊢
  split_ifs at h ⊢
  · rfl
  · rfl
  · exact absurd h (Finset.singleton_ne_empty _)

theorem ends_parseChannelBody {id : ChannelIdV1} {individual : Option Bool}
    {issues : Finset IssueV1} {isEmpty : Bool}
    (hindividual : issues = ∅ → individual.isSome = true) :
    (parseChannelBody id individual issues isEmpty).Ends (fun _ => True) Expected := by
  unfold parseChannelBody
  split
  · exact Parse.ends_invalid (Finset.insert_ne_empty _ _)
  · have hstart : ChannelSlots.Kept issues ⟨none, none, none, false, false, false, issues⟩ :=
      ⟨Finset.Subset.refl _, fun _ h => Bool.noConfusion h, fun _ h => Bool.noConfusion h⟩
    refine (ends_childrenOf (fun s tag isEmpty h => ends_parseChannelChild h) hstart).bind
      fun s hs => ends_finishIssues.bind fun _ hnone => ?_
    obtain ⟨hboth, hmode⟩ := Finset.union_eq_empty.mp hnone
    obtain ⟨hissues, hmissing⟩ := Finset.union_eq_empty.mp hboth
    have hseen : s.actorsSeen = true :=
      missingElements_eq_empty hmissing (_, _) (List.mem_singleton_self _)
    have hmode := isSome_channelMode (of_subset_empty hs.kept hindividual hissues)
      (hs.rules hissues) hmode
    refine (ends_expectSome (hs.actors hissues hseen)).bind fun _ _ => ?_
    exact (ends_expectSome hmode).bind fun _ _ => Parse.ends_pure trivial

theorem ends_parseChannel {tag : Tag} {isEmpty : Bool} :
    (parseChannel tag isEmpty).Ends (fun _ => True) Expected := by
  have hattributes : Settles channelAttributes fun p => p.1.isSome = true ∧ p.2.isSome = true := by
    refine settles_requireText.bind fun id => settles_requireText.bind fun mode => ?_
    refine (settles_andThen fun _ => settles_collect ends_channelId).bind fun id' => ?_
    exact settles_pure fun hid hmode hidText => ⟨hid hidText, hmode⟩
  refine (ends_readAttributes hattributes).bind fun ⟨⟨id, mode⟩, issues⟩ ⟨_, hvalues⟩ => ?_
  cases id with
  | none =>
    have hissues : issues ≠ ∅ := fun hnone => Bool.noConfusion (hvalues hnone).1
    cases isEmpty with
    | true => exact fun _ => hissues
    | false => exact ends_skipElement.bind fun _ _ => Parse.ends_invalid hissues
  | some id =>
    refine ends_parseChannelBody fun hnone => ?_
    obtain ⟨hissues, hmode⟩ := Finset.union_eq_empty.mp hnone
    obtain ⟨mode, rfl⟩ := Option.isSome_iff_exists.mp (hvalues hissues).2
    exact isSome_modeAttribute hmode

theorem ends_parseDecisionChannels {tag : Tag} {isEmpty : Bool} :
    (parseDecisionChannels tag isEmpty).Ends (fun _ => True) Expected := by
  refine ends_noAttributes.bind fun _ _ => ?_
  have hend : ∀ p : List DecisionChannelV1 × Finset IssueV1, Parse.Ends (do
      finishIssues p.2
      Parse.answer (DecisionChannelsV1.new p.1) : IrenaParse _) (fun _ => True) Expected :=
    fun p => ends_finishIssues.bind fun _ _ => Parse.ends_answer ends_channels
  cases isEmpty with
  | true => exact hend ([], ∅)
  | false =>
    refine (ends_childrenOf (I := fun _ => True) (fun ⟨channels, issues⟩ child isEmpty _ => ?_)
      trivial).bind fun p _ => hend p
    dsimp only
    split_ifs
    · exact ends_unknownChild
    · exact Parse.ends_invalid (Finset.singleton_ne_empty _)
    · exact (ends_embed ends_parseChannel).bind fun _ _ => Parse.ends_pure trivial

end Channels

section Genesis

theorem ends_parseGovernance : (parseGovernance : IrenaParse _).Ends (fun _ => True) Expected := by
  -- Without an issue, the channel set that was met has a value.
  let Kept (p : Option DecisionChannelsV1 × Bool × Finset IssueV1) : Prop :=
    p.2.2 = ∅ → p.2.1 = true → p.1.isSome = true
  refine Parse.Ends.bind (P := Kept) ?_ fun ⟨channels, seen, issues⟩ hs => ?_
  · refine ends_childrenOf (fun ⟨channels, seen, issues⟩ child isEmpty hs => ?_)
      fun _ h => Bool.noConfusion h
    dsimp only
    split_ifs
    · exact Parse.ends_fatal nofun
    · refine (ends_embed ends_parseDecisionChannels).bind fun ⟨found, all⟩ ⟨hsub, hvalue⟩ => ?_
      exact Parse.ends_pure fun hnone _ => isSome_or (hvalue hnone)
  · refine ends_finishIssues.bind fun _ hnone => ?_
    obtain ⟨hissues, hmissing⟩ := Finset.union_eq_empty.mp hnone
    have hseen : seen = true :=
      missingElements_eq_empty hmissing (_, _) (List.mem_singleton_self _)
    exact (ends_expectSome (hs hissues hseen)).mono fun _ _ => trivial

/-- Without an issue, every part that was met has a value. -/
structure GenesisSlots.Kept (s : GenesisSlots) : Prop where
  shares : s.issues = ∅ → s.sharesSeen = true → s.shares.isSome = true
  channels : s.issues = ∅ → s.governanceSeen = true → s.channels.isSome = true
  identities : s.issues = ∅ → s.identitiesSeen = true → s.identities.isSome = true
  authorisation : s.issues = ∅ → s.authorisationSeen = true → s.authorisation.isSome = true

omit [Scanner] in
/-- Issues that only grew keep every part. -/
theorem GenesisSlots.Kept.keep {s : GenesisSlots} (h : s.Kept) {issues : Finset IssueV1}
    (hsub : s.issues ⊆ issues) : ({ s with issues } : GenesisSlots).Kept :=
  ⟨of_subset_empty hsub h.shares, of_subset_empty hsub h.channels,
    of_subset_empty hsub h.identities, of_subset_empty hsub h.authorisation⟩

theorem ends_parseGenesisChild {s : GenesisSlots} {tag : Tag} {isEmpty : Bool} (h : s.Kept) :
    (parseGenesisChild s tag isEmpty).Ends GenesisSlots.Kept Expected := by
  have hkeep : ∀ {present : Bool} {element : Text} {issues : Finset IssueV1},
      repeatedIf present (lit "company-genesis") element s.issues ⊆ issues →
        ({ s with issues } : GenesisSlots).Kept :=
    fun hsub => h.keep (subset_repeatedIf.trans hsub)
  unfold parseGenesisChild
  dsimp only
  refine Parse.ends_ite (fun _ => ?_) fun _ => ?_
  · refine (ends_readAttributes settles_identityAttributes).bind fun ⟨found, issues⟩ ⟨hsub, _⟩ => ?_
    refine ends_expectLeaf.bind fun _ _ => Parse.ends_pure ?_
    exact ⟨(hkeep hsub).shares, (hkeep hsub).channels, (hkeep hsub).identities,
      (hkeep hsub).authorisation⟩
  refine Parse.ends_ite (fun _ => ?_) fun _ => ?_
  · refine (ends_readAttributes settles_incorporationAttributes).bind
      fun ⟨found, issues⟩ ⟨hsub, _⟩ => ?_
    refine ends_expectLeaf.bind fun _ _ => Parse.ends_pure ?_
    exact ⟨(hkeep hsub).shares, (hkeep hsub).channels, (hkeep hsub).identities,
      (hkeep hsub).authorisation⟩
  refine Parse.ends_ite (fun _ => ?_) fun _ => ?_
  · refine (ends_embed ends_parseShareStructure).bind fun ⟨found, issues⟩ ⟨hsub, hvalue⟩ => ?_
    exact Parse.ends_pure ⟨fun hnone _ => isSome_or (hvalue hnone), (hkeep hsub).channels,
      (hkeep hsub).identities, (hkeep hsub).authorisation⟩
  refine Parse.ends_ite (fun _ => ?_) fun _ => ?_
  · refine ends_noAttributes.bind fun _ _ => ?_
    refine Parse.ends_ite (fun _ => Parse.ends_fatal nofun) fun _ => ?_
    refine (ends_embed ends_parseGovernance).bind fun ⟨found, issues⟩ ⟨hsub, hvalue⟩ => ?_
    exact Parse.ends_pure ⟨(hkeep hsub).shares, fun hnone _ => isSome_or (hvalue hnone),
      (hkeep hsub).identities, (hkeep hsub).authorisation⟩
  refine Parse.ends_ite (fun _ => ?_) fun _ => ?_
  · refine (ends_embed ends_parseIdentities).bind fun ⟨found, issues⟩ ⟨hsub, hvalue⟩ => ?_
    exact Parse.ends_pure ⟨(hkeep hsub).shares, (hkeep hsub).channels,
      fun hnone _ => isSome_or (hvalue hnone), (hkeep hsub).authorisation⟩
  refine Parse.ends_ite (fun _ => ?_) fun _ => ?_
  · refine (ends_embed ends_parseAuthorisation).bind fun ⟨found, issues⟩ ⟨hsub, hvalue⟩ => ?_
    exact Parse.ends_pure ⟨(hkeep hsub).shares, (hkeep hsub).channels, (hkeep hsub).identities,
      fun hnone _ => isSome_or (hvalue hnone)⟩
  exact ends_unknownChild

theorem ends_parseCompanyGenesis {tag : Tag} :
    (parseCompanyGenesis tag).Ends (fun _ => True) Expected := by
  have hstart : GenesisSlots.empty.Kept :=
    ⟨fun _ h => Bool.noConfusion h, fun _ h => Bool.noConfusion h,
      fun _ h => Bool.noConfusion h, fun _ h => Bool.noConfusion h⟩
  refine ends_noAttributes.bind fun _ _ => ?_
  refine (ends_childrenOf (fun s tag isEmpty h => ends_parseGenesisChild h) hstart).bind
    fun s hs => ends_finishIssues.bind fun _ hnone => ?_
  obtain ⟨hissues, hmissing⟩ := Finset.union_eq_empty.mp hnone
  have hparts := missingElements_eq_empty hmissing
  simp only [List.forall_mem_cons, List.not_mem_nil, false_imp_iff, implies_true, and_true] at hparts
  obtain ⟨hidentity, hshares, hidentities, hgovernance, hauthorisation⟩ := hparts
  refine (ends_expectSome hidentity).bind fun _ _ => ?_
  refine (ends_expectSome (hs.shares hissues hshares)).bind fun _ _ => ?_
  refine (ends_expectSome (hs.channels hissues hgovernance)).bind fun _ _ => ?_
  refine (ends_expectSome (hs.identities hissues hidentities)).bind fun _ _ => ?_
  exact (ends_expectSome (hs.authorisation hissues hauthorisation)).bind fun _ _ =>
    Parse.ends_pure trivial

end Genesis

section Records

theorem ends_readEnvelope {root : Tag} : (readEnvelope root).Ends (fun _ => True) Expected := by
  have hattributes : Settles envelopeAttributes fun texts =>
      texts.version.isSome = true ∧ texts.kind.isSome = true ∧ texts.company.isSome = true := by
    refine settles_requireText.bind fun version => settles_requireText.bind fun kind => ?_
    refine settles_requireText.bind fun company => settles_take.bind fun supersedes => ?_
    exact settles_pure fun _ hcompany hkind hversion => ⟨hversion, hkind, hcompany⟩
  refine (ends_readAttributes hattributes).bind fun ⟨texts, issues⟩ ⟨_, htexts⟩ => ?_
  refine ends_finishIssues.bind fun _ hnone => ?_
  obtain ⟨hversion, hkind, hcompany⟩ := htexts hnone
  refine (ends_expectSome hversion).bind fun version _ => ?_
  split_ifs
  · exact Parse.ends_fatal nofun
  · refine (ends_expectSome hkind).bind fun kind _ => ?_
    cases RecordKindV1.parse kind with
    | none => exact Parse.ends_fatal nofun
    | some kind =>
      refine (ends_expectSome hcompany).bind fun _ _ => ?_
      refine (Parse.ends_answer ends_companyId).bind fun company _ => ?_
      cases texts.supersedes with
      | none => exact Parse.ends_pure trivial
      | some text =>
        exact (Parse.ends_answer ends_spelled).bind fun _ _ => Parse.ends_pure trivial

theorem ends_parseBody {kind : RecordKindV1} {tag : Tag} {isEmpty : Bool} :
    (parseBody kind tag isEmpty).Ends (fun _ => True) Expected := by
  cases kind with
  | companyGenesis =>
    cases isEmpty with
    | true => exact Parse.ends_fatal nofun
    | false => exact ends_parseCompanyGenesis.bind fun _ _ => Parse.ends_pure trivial
  | identity => exact ends_parseIdentity.bind fun _ _ => Parse.ends_pure trivial
  | shareStructure => exact ends_parseShareStructure.bind fun _ _ => Parse.ends_pure trivial
  | decisionChannels => exact ends_parseDecisionChannels.bind fun _ _ => Parse.ends_pure trivial
  | identities => exact ends_parseIdentities.bind fun _ _ => Parse.ends_pure trivial
  | authorisation => exact ends_parseAuthorisation.bind fun _ _ => Parse.ends_pure trivial

theorem ends_parseRecordChild {s : RecordSlots} {tag : Tag} {isEmpty : Bool} :
    (parseRecordChild s tag isEmpty).Ends (fun _ => True) Expected := by
  unfold parseRecordChild
  split
  · split
    · exact Parse.ends_fatal nofun
    · exact ends_readNotarisation.bind fun _ _ =>
        ends_expectLeaf.bind fun _ _ => Parse.ends_pure trivial
  · split
    · exact ends_unknownChild
    · split
      · exact Parse.ends_fatal nofun
      · exact ends_parseBody.bind fun _ _ => Parse.ends_pure trivial

omit [Scanner] in
theorem ends_checkSize {xml : Text} {maxBytes : ℕ} :
    Ends (checkSize xml maxBytes : Except IrenaError Unit) (fun _ => True) Expected :=
  (ends_ensure fun _ => nofun).mono fun _ _ => trivial

theorem ends_rootStart {expected : Text} {r : Reader} :
    Ends (rootStart expected r : Except IrenaError (Tag × Reader)) (fun _ => True) Expected := by
  unfold rootStart
  rcases Parse.skip prolog r with _ | ⟨e, r'⟩
  · exact nofun
  · cases e with
    | start root => dsimp only; split_ifs <;> first | trivial | exact nofun
    | empty root => dsimp only; split_ifs <;> exact nofun
    | _ => exact nofun

theorem ends_expectEof {r : Reader} :
    Ends (expectEof r : Except IrenaError Unit) (fun _ => True) Expected := by
  unfold expectEof
  rcases Parse.skip epilog r with _ | ⟨e, r'⟩
  · exact nofun
  · cases e with
    | eof => trivial
    | _ => exact nofun

omit [Scanner] in
theorem ends_assemble {envelope : Envelope} {s : RecordSlots} :
    Ends (assemble envelope s) (fun _ => True) Expected := by
  refine (ends_orError fun _ => expected_invalidIssues (List.cons_ne_nil _ _)).bind fun _ _ => ?_
  refine (ends_orError fun _ => expected_invalidIssues (List.cons_ne_nil _ _)).bind fun _ _ => ?_
  exact (ends_ensure fun _ => nofun).bind fun _ _ => trivial

theorem ends_rootOf {expected : Text} {r : Reader} :
    Ends (rootOf expected r : Except IrenaError (Tag × Bool × Reader)) (fun _ => True) Expected := by
  unfold rootOf
  rcases Parse.skip prolog r with _ | ⟨e, r'⟩
  · exact nofun
  · cases e with
    | start root => dsimp only; split_ifs <;> first | trivial | exact nofun
    | empty root => dsimp only; split_ifs <;> first | trivial | exact nofun
    | _ => exact nofun

/-- No expectation fails in reading a document of its own. -/
theorem ends_readDocument {name xml : Text} {parse : Tag → Bool → IrenaParse α}
    (h : ∀ tag isEmpty, (parse tag isEmpty).Ends (fun _ => True) Expected) :
    Ends (readDocument name parse xml) (fun _ => True) Expected := by
  refine ends_checkSize.bind fun _ _ => ends_rootOf.bind fun ⟨root, isEmpty, r⟩ _ => ?_
  refine ((h root isEmpty).exec r).bind fun ⟨value, r⟩ _ => ?_
  exact ends_expectEof.bind fun _ _ => trivial

theorem ends_readCompanyGenesisDocument {xml : Text} :
    Ends (readCompanyGenesisDocument xml) (fun _ => True) Expected := by
  refine ends_checkSize.bind fun _ _ => ends_rootStart.bind fun ⟨root, r⟩ _ => ?_
  refine (ends_parseCompanyGenesis.exec r).bind fun ⟨genesis, r⟩ _ => ?_
  exact ends_expectEof.bind fun _ _ => trivial

theorem ends_readIdentityDocument {xml : Text} :
    Ends (readIdentityDocument xml) (fun _ => True) Expected := by
  refine ends_checkSize.bind fun _ _ => ends_rootOf.bind fun ⟨root, isEmpty, r⟩ _ => ?_
  refine ((ends_readAttributes settles_identityAttributes).exec r).bind
    fun ⟨⟨identity, issues⟩, r⟩ ⟨_, hvalue⟩ => ?_
  refine (ends_expectLeaf.exec r).bind fun ⟨_, r⟩ _ => ends_expectEof.bind fun _ _ => ?_
  have hchecked : Ends (ensure (issues = ∅) (.invalid issues) : Except IrenaError Unit)
      (fun _ => issues = ∅) Expected := ends_ensure fun hissues => hissues
  refine hchecked.bind fun _ hnone => ?_
  obtain ⟨found, rfl⟩ := Option.isSome_iff_exists.mp (hvalue hnone)
  trivial

/-- No expectation fails in reading a standalone document of any kind. -/
theorem ends_readBodyDocument {kind : RecordKindV1} {xml : Text} :
    Ends (readBodyDocument kind xml) (fun _ => True) Expected := by
  cases kind with
  | companyGenesis => exact Ends.map ends_readCompanyGenesisDocument
  | identity => exact Ends.map ends_readIdentityDocument
  | shareStructure => exact Ends.map (ends_readDocument fun _ _ => ends_parseShareStructure)
  | decisionChannels => exact Ends.map (ends_readDocument fun _ _ => ends_parseDecisionChannels)
  | identities => exact Ends.map (ends_readDocument fun _ _ => ends_parseIdentities)
  | authorisation => exact Ends.map (ends_readDocument fun _ _ => ends_parseAuthorisation)

/-- No expectation fails in reading a company record. -/
theorem ends_readRecord {xml : Text} : Ends (readRecord xml) (fun _ => True) Expected := by
  refine ends_checkSize.bind fun _ _ => ends_rootStart.bind fun ⟨root, r⟩ _ => ?_
  refine (ends_readEnvelope.exec r).bind fun ⟨envelope, r⟩ _ => ?_
  refine ((ends_childrenOf (fun _ _ _ _ => ends_parseRecordChild) trivial).exec r).bind
    fun ⟨slots, r⟩ _ => ?_
  exact ends_expectEof.bind fun _ _ => ends_assemble

end Records

end Irena.Core
