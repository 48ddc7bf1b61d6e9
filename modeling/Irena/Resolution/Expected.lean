import Irena.Meeting.Expected
import Irena.Resolution.Record

/-! # What the record readers expect

Every reader of the company and of its governance takes values apart from the issues that their
absence leaves, and expects the values once no issue is left. None of these expectations fails. -/

namespace Irena.Resolution

open Irena.Library Irena.Library.Outcome Irena.Library.Strings Irena.Library.Markup
open Irena.Core Irena.Bornite Irena.Prunella
open Irena.Meeting (MeetingError readMeetingRecord ends_readMeetingRecord)

/-- A failed expectation of the resolution readers or of the readers they use. -/
def ResolutionError.Unexpected : ResolutionError → Prop
  | .panicked => True
  | .record (.fatal .panicked) => True
  | _ => False

section Values

theorem ends_txOf {key text : Text} : Ends (txOf key text) (fun _ => True) Expected := ends_spelled

theorem ends_numberOf {key text : Text} : Ends (numberOf key text) (fun _ => True) Expected := by
  unfold numberOf
  split
  · exact ends_rejectValue
  · exact ends_spelled

theorem ends_authorityOf {channel : Text} {meeting item vote decision : Option Text} :
    Ends (authorityOf channel meeting item vote decision) (fun _ => True) Expected := by
  unfold authorityOf
  split
  · exact ends_txOf.bind fun _ _ => ends_numberOf.bind fun _ _ => ends_txOf.bind fun _ _ => trivial
  · exact ends_txOf.bind fun _ _ => trivial
  · exact expected_invalidIssues (List.cons_ne_nil _ _)
  · exact nofun

/-- The required attributes of a resolution. -/
structure ResolutionTexts.Given (texts : ResolutionTexts) : Prop where
  version : texts.version.isSome = true
  kind : texts.kind.isSome = true
  company : texts.company.isSome = true
  title : texts.title.isSome = true
  channel : texts.channel.isSome = true

theorem settles_resolutionAttributes : Settles resolutionAttributes ResolutionTexts.Given := by
  refine settles_requireText.bind fun version => settles_requireText.bind fun kind => ?_
  refine settles_requireText.bind fun company => settles_requireText.bind fun title => ?_
  refine settles_requireText.bind fun channel => settles_take.bind fun meeting => ?_
  refine settles_take.bind fun item => settles_take.bind fun vote => ?_
  refine settles_take.bind fun decision => settles_take.bind fun documentDigest => ?_
  exact settles_take.bind fun target => settles_pure fun _ _ _ _ _ _ hchannel htitle hcompany hkind
    hversion => ⟨hversion, hkind, hcompany, htitle, hchannel⟩

/-- The required attributes of an execution: all of them. -/
structure ExecutionTexts.Given (texts : ExecutionTexts) : Prop where
  version : texts.version.isSome = true
  company : texts.company.isSome = true
  resolution : texts.resolution.isSome = true
  amendment : texts.amendment.isSome = true
  target : texts.target.isSome = true
  replaced : texts.replaced.isSome = true
  bodyDigest : texts.bodyDigest.isSome = true

theorem settles_executionAttributes : Settles executionAttributes ExecutionTexts.Given := by
  refine settles_requireText.bind fun version => settles_requireText.bind fun company => ?_
  refine settles_requireText.bind fun resolution => settles_requireText.bind fun amendment => ?_
  refine settles_requireText.bind fun target => settles_requireText.bind fun replaced => ?_
  exact settles_requireText.bind fun bodyDigest => settles_pure fun hdigest hreplaced htarget
    hamendment hresolution hcompany hversion =>
      ⟨hversion, hcompany, hresolution, hamendment, htarget, hreplaced, hdigest⟩

end Values

section Readers

variable [Scanner]

theorem ends_checkVersion {version : Text} :
    (checkVersion version).Ends (fun _ => True) Expected := by
  unfold checkVersion
  split
  · exact Parse.ends_pure trivial
  · exact Parse.ends_fatal nofun

theorem ends_validateBody {target : AmendmentTargetV1} {body : Text} :
    Ends (validateBody target body) (fun _ => True) Expected := by
  cases target with
  | shareStructure => exact (ends_readDocument fun _ _ => ends_parseShareStructure).bind fun _ _ => trivial
  | decisionChannels =>
    exact (ends_readDocument fun _ _ => ends_parseDecisionChannels).bind fun _ _ => trivial
  | identities => exact (ends_readDocument fun _ _ => ends_parseIdentities).bind fun _ _ => trivial
  | authorisation =>
    exact (ends_readDocument fun _ _ => ends_parseAuthorisation).bind fun _ _ => trivial

theorem ends_readResolutionRoot {root : Tag} :
    (readResolutionRoot root).Ends (fun _ => True) Expected := by
  refine (ends_readAttributes settles_resolutionAttributes).bind
    fun ⟨texts, issues⟩ ⟨_, htexts⟩ => ends_finishIssues.bind fun _ hnone => ?_
  have hgiven := htexts hnone
  refine (ends_expectSome hgiven.version).bind fun _ _ => ends_checkVersion.bind fun _ _ => ?_
  refine (ends_expectSome hgiven.company).bind fun _ _ => ?_
  refine (Parse.ends_answer ends_companyId).bind fun _ _ => ?_
  refine (ends_expectSome hgiven.title).bind fun title _ => ?_
  refine (Parse.ends_answer (ends_ensure fun _ =>
    expected_invalidIssues (List.cons_ne_nil _ _))).bind fun _ _ => ?_
  refine (ends_expectSome hgiven.channel).bind fun channel _ => ?_
  refine (Parse.ends_answer (Q := fun _ => True) ends_spelled).bind fun _ _ => ?_
  refine (Parse.ends_answer ends_authorityOf).bind fun _ _ => ?_
  exact (ends_expectSome hgiven.kind).bind fun _ _ => Parse.ends_pure trivial

theorem ends_captureBody : (captureBody : IrenaParse Text).Ends (fun _ => True) Expected := by
  refine (Parse.ends_walk nofun fun e => ?_).bind fun inside _ => ?_
  · change (if e = .eof then _ else _) ≠ _
    split <;> exact nofun
  · split
    · exact Parse.ends_fatal nofun
    · exact Parse.ends_pure trivial

theorem ends_parseResolutionChild {s : ResolutionSlots} {tag : Tag} {isEmpty : Bool} :
    (parseResolutionChild s tag isEmpty).Ends (fun _ => True) Expected := by
  unfold parseResolutionChild
  split_ifs
  · exact Parse.ends_fatal nofun
  · exact ends_readNotarisation.bind fun _ _ =>
      ends_expectLeaf.bind fun _ _ => Parse.ends_pure trivial
  · exact Parse.ends_fatal nofun
  · exact Parse.ends_fatal nofun
  · exact ends_captureBody.bind fun _ _ => Parse.ends_pure trivial
  · exact ends_unknownChild

theorem ends_kindOf {declared : Text} {documentDigest target body : Option Text} :
    Ends (kindOf declared documentDigest target body) (fun _ => True) Expected := by
  unfold kindOf
  dsimp only
  split
  · split
    · exact Ends.bind (P := fun _ => True) ends_spelled fun _ _ => trivial
    · exact expected_invalidIssues (List.cons_ne_nil _ _)
    · exact nofun
  · split
    · split
      · exact Ends.bind (P := fun _ => True) ends_spelled fun _ _ =>
          ends_validateBody.bind fun _ _ => trivial
      · exact nofun
      · exact expected_invalidIssues (List.cons_ne_nil _ _)
      · exact expected_invalidIssues (List.cons_ne_nil _ _)
    · exact nofun

theorem ends_readResolutionDocument {xml : Text} :
    Ends (readResolutionDocument xml) (fun _ => True) Expected := by
  refine ends_checkSize.bind fun _ _ => ends_rootStart.bind fun ⟨root, r⟩ _ => ?_
  refine (ends_readResolutionRoot.exec r).bind fun ⟨root, r⟩ _ => ?_
  refine ((ends_childrenOf (fun _ _ _ _ => ends_parseResolutionChild) trivial).exec r).bind
    fun ⟨slots, r⟩ _ => ends_expectEof.bind fun _ _ => ?_
  refine (ends_orError fun _ => expected_invalidIssues (List.cons_ne_nil _ _)).bind fun _ _ => ?_
  exact ends_kindOf.bind fun _ _ => trivial

theorem ends_readExecutionRoot {root : Tag} :
    (readExecutionRoot root).Ends (fun _ => True) Expected := by
  refine (ends_readAttributes settles_executionAttributes).bind
    fun ⟨texts, issues⟩ ⟨_, htexts⟩ => ends_finishIssues.bind fun _ hnone => ?_
  have hgiven := htexts hnone
  have hid : ∀ {key text : Text}, (Parse.answer (txOf key text) : IrenaParse TxId).Ends
      (fun _ => True) Expected := Parse.ends_answer ends_txOf
  refine (ends_expectSome hgiven.version).bind fun _ _ => ends_checkVersion.bind fun _ _ => ?_
  refine (ends_expectSome hgiven.company).bind fun _ _ => ?_
  refine (Parse.ends_answer ends_companyId).bind fun _ _ => ?_
  refine (ends_expectSome hgiven.target).bind fun _ _ => ?_
  refine (Parse.ends_answer (Q := fun _ => True) ends_spelled).bind fun _ _ => ?_
  refine (ends_expectSome hgiven.resolution).bind fun _ _ => hid.bind fun _ _ => ?_
  refine (ends_expectSome hgiven.amendment).bind fun _ _ => hid.bind fun _ _ => ?_
  refine (ends_expectSome hgiven.replaced).bind fun _ _ => hid.bind fun _ _ => ?_
  refine (ends_expectSome hgiven.bodyDigest).bind fun _ _ => ?_
  exact (Parse.ends_answer (Q := fun _ => True) ends_spelled).bind fun _ _ =>
    Parse.ends_pure trivial

theorem ends_parseExecutionChild {notarisation : Option NotarisationV1} {tag : Tag}
    {isEmpty : Bool} :
    (parseExecutionChild notarisation tag isEmpty).Ends (fun _ => True) Expected := by
  unfold parseExecutionChild
  split_ifs
  · exact ends_unknownChild
  · exact Parse.ends_fatal nofun
  · exact ends_readNotarisation.bind fun _ _ =>
      ends_expectLeaf.bind fun _ _ => Parse.ends_pure trivial

theorem ends_readExecutionDocument {xml : Text} :
    Ends (readExecutionDocument xml) (fun _ => True) Expected := by
  refine ends_checkSize.bind fun _ _ => ends_rootStart.bind fun ⟨root, r⟩ _ => ?_
  refine (ends_readExecutionRoot.exec r).bind fun ⟨root, r⟩ _ => ?_
  refine ((ends_childrenOf (fun _ _ _ _ => ends_parseExecutionChild) trivial).exec r).bind
    fun ⟨notarisation, r⟩ _ => ends_expectEof.bind fun _ _ => ?_
  exact (ends_orError fun _ => expected_invalidIssues (List.cons_ne_nil _ _)).bind
    fun _ _ => trivial

/-- Whatever the text, and whatever events a scanner finds in it, no expectation of a reader of
records, standalone documents, meetings, resolutions or executions fails. -/
theorem no_reader_panics (xml : Text) :
    readRecord xml ≠ .error (.fatal .panicked) ∧
      (∀ kind, readBodyDocument kind xml ≠ .error (.fatal .panicked)) ∧
      (∀ e, readMeetingRecord xml = .error e → ¬ e.Unexpected) ∧
      (∀ e, readResolutionRecord xml = .error e → ¬ e.Unexpected) ∧
      ∀ e, readExecutionRecord xml = .error e → ¬ e.Unexpected := by
  have hfatal : ∀ {α : Type} {Q : α → Prop} {x : Except IrenaError α}, Ends x Q Expected →
      x ≠ .error (.fatal .panicked) := by
    rintro α Q x h rfl
    exact h rfl
  have hrecord : ∀ {α : Type} {Q : α → Prop} {x : Except IrenaError α}, Ends x Q Expected →
      ∀ e, mapErr ResolutionError.record x = .error e → ¬ e.Unexpected := by
    intro α Q x h e he
    cases x with
    | ok a => cases he
    | error reason =>
      obtain rfl := Except.error.inj he
      rcases reason with reason | found
      · cases reason with
        | panicked => exact absurd rfl h
        | _ => exact id
      · exact id
  exact ⟨hfatal ends_readRecord, fun _ => hfatal ends_readBodyDocument,
    fun _ => ends_readMeetingRecord.error, hrecord ends_readResolutionDocument,
    hrecord ends_readExecutionDocument⟩

end Readers

end Irena.Resolution
