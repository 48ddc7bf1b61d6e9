import Irena.Core.Expected
import Irena.Meeting.Record

/-! # What the meeting reader expects

A final record names its meeting and the height it opened at. The reader that expects them has
recorded an issue where they are missing. -/

namespace Irena.Meeting

open Irena.Library Irena.Library.Outcome Irena.Library.Strings Irena.Library.Markup
open Irena.Core Irena.Bornite Irena.Prunella

/-- A failed expectation of the meeting reader or of the readers it uses. -/
def MeetingError.Unexpected : MeetingError → Prop
  | .panicked => True
  | .record (.fatal .panicked) => True
  | _ => False

section Values

theorem ends_txIdValue {element key text : Text} :
    Ends (txIdValue element key text) (fun _ => True) Expected :=
  ends_spelled

theorem settles_checkAs {α : Type} {element key : Text} {result : Except IrenaError α} :
    Settles (checkAs element key result) fun _ => True := by
  unfold checkAs
  split
  · exact fun _ _ => ⟨Finset.subset_union_left, fun _ => trivial⟩
  · exact settles_pure trivial

theorem settles_elim {value : Option Text} {body : Text → Reading IssueV1 Unit}
    (h : ∀ text, Settles (body text) fun _ => True) :
    Settles (value.elim (pure ()) body) fun _ => True := by
  cases value with
  | none => exact settles_pure trivial
  | some text => exact h text

/-- What the attributes of a meeting element settle. -/
structure MeetingTexts.Given (isFinal : Bool) (texts : MeetingTexts) : Prop where
  channel : texts.channel.isSome = true
  title : texts.title.isSome = true
  scheduledAt : texts.scheduledAt.isSome = true
  opened : isFinal = true → texts.openedAtHeight.isSome = true

/-- The attributes of a meeting element, every check a reading of its own. -/
theorem meetingAttributes_eq (isFinal : Bool) : meetingAttributes isFinal = (do
    let channel ← require (lit "channel")
    let title ← require (lit "title")
    let scheduledAt ← require (lit "scheduled-at")
    let notice ← Attributes.take (lit "notice-digest")
    let openedAt ← Attributes.take (lit "opened-at-height")
    (match isFinal, openedAt with
      | true, none => Attributes.push (.missingAttribute (lit "meeting") (lit "opened-at-height"))
      | false, some _ =>
        Attributes.push (unused (lit "meeting") (lit "opened-at-height")
          (lit "the record is a convening"))
      | _, _ => pure () : Reading IssueV1 Unit)
    let noticeDigest ← andThen notice fun text =>
      collect (hashValue (lit "meeting") (lit "notice-digest") text)
    (scheduledAt.elim (pure ()) fun text =>
      checkAs (lit "meeting") (lit "scheduled-at") (NotaryTimeV1.parse text))
    (title.elim (pure ()) fun text =>
      if trim text = [] then
        Attributes.push (.invalidValue (lit "meeting") (lit "title") text (lit "must not be empty"))
      else pure ())
    (channel.elim (pure ()) fun text =>
      checkAs (lit "meeting") (lit "channel") (ChannelIdV1.new text))
    let openedAtHeight ← andThen (if isFinal then openedAt else none) fun text =>
      collect (spelled (lit "meeting") (lit "opened-at-height")
        (lit "must be a decimal block height") text (parseU64 text))
    return ⟨channel, title, scheduledAt, noticeDigest, openedAtHeight.map Subtype.val⟩) := by
  refine bind_congr fun channel => bind_congr fun title => bind_congr fun scheduledAt => ?_
  refine bind_congr fun notice => bind_congr fun openedAt => ?_
  cases title with
  | none => cases isFinal <;> cases openedAt <;> cases scheduledAt <;> cases channel <;> rfl
  | some title =>
    by_cases htitle : trim title = []
    · simp only [Option.elim_some, if_pos htitle]
      cases isFinal <;> cases openedAt <;> cases scheduledAt <;> cases channel <;> rfl
    · simp only [Option.elim_some, if_neg htitle]
      cases isFinal <;> cases openedAt <;> cases scheduledAt <;> cases channel <;> rfl

theorem settles_meetingAttributes (isFinal : Bool) :
    Settles (meetingAttributes isFinal) (MeetingTexts.Given isFinal) := by
  rw [meetingAttributes_eq]
  refine settles_requireText.bind fun channel => settles_requireText.bind fun title => ?_
  refine settles_requireText.bind fun scheduledAt => settles_take.bind fun notice => ?_
  refine settles_take.bind fun openedAt => ?_
  -- A final record without an opening height has left an issue.
  refine Settles.bind (P := fun _ => isFinal = true → openedAt.isSome = true) ?_ fun _ => ?_
  · cases isFinal <;> cases openedAt
    · exact settles_pure nofun
    · exact settles_push.mono fun _ h => h.elim
    · exact settles_push.mono fun _ h => h.elim
    · exact settles_pure fun _ => rfl
  refine (settles_andThen fun _ => settles_collect ends_spelled).bind fun noticeDigest => ?_
  refine (settles_elim fun _ => settles_checkAs).bind fun _ => ?_
  refine (settles_elim fun text => ?_).bind fun _ => ?_
  · split
    · exact settles_push.mono fun _ _ => trivial
    · exact settles_pure trivial
  refine (settles_elim fun _ => settles_checkAs).bind fun _ => ?_
  refine (settles_andThen fun _ => settles_collect ends_spelled).bind fun height => ?_
  refine settles_pure fun hheight _ _ _ _ hgiven _ _ hscheduled htitle hchannel =>
    ⟨hchannel, htitle, hscheduled, fun hfinal => ?_⟩
  rw [Option.isSome_map]
  exact hheight (by rw [if_pos hfinal]; exact hgiven hfinal)

theorem settles_itemDigest {key : Text} {value : Option Text} {make : Hash → AgendaBodyV1} :
    Settles (itemDigest key value make) fun _ => True := by
  unfold itemDigest
  split
  · exact (settles_collect ends_spelled).after fun _ => settles_pure trivial
  · exact settles_push.after fun _ => settles_pure trivial

theorem settles_itemBody {kind documentDigest proposalDigest voteTx outcome : Option Text} :
    Settles (itemBody kind documentDigest proposalDigest voteTx outcome) fun _ => True := by
  unfold itemBody
  split
  · exact settles_pure trivial
  · refine settles_ite (fun _ => ?_) fun _ => ?_
    · refine settles_ite (fun _ => settles_push.after fun _ => ?_) fun _ => ?_
      · exact settles_ite (fun _ => settles_push.after fun _ => settles_itemDigest)
          fun _ => settles_itemDigest
      · exact settles_ite (fun _ => settles_push.after fun _ => settles_itemDigest)
          fun _ => settles_itemDigest
    refine settles_ite (fun _ => ?_) fun _ => settles_push.after fun _ => settles_pure trivial
    exact settles_ite (fun _ => settles_push.after fun _ => settles_itemDigest)
      fun _ => settles_itemDigest

theorem settles_finalOnly {isFinal isVote : Bool} {key : Text} {value : Option Text} :
    Settles (finalOnly isFinal isVote key value) fun _ => True := by
  unfold finalOnly
  split
  · exact settles_pure trivial
  · exact settles_push.after fun _ => settles_pure trivial
  · split
    · exact settles_push.after fun _ => settles_pure trivial
    · exact settles_pure trivial
  · exact settles_pure trivial

theorem settles_itemAttributes (isFinal : Bool) : Settles (itemAttributes isFinal) fun _ => True := by
  refine settles_requireText.after fun number => settles_requireText.after fun kind => ?_
  refine settles_requireText.after fun title => settles_take.after fun documentDigest => ?_
  refine settles_take.after fun proposalDigest => settles_take.after fun voteTx => ?_
  refine settles_take.after fun outcome => ?_
  refine (settles_andThen fun _ => settles_collect ends_spelled).after fun number => ?_
  refine settles_itemBody.after fun body => settles_finalOnly.after fun voteTx => ?_
  refine (settles_andThen fun _ => settles_collect ends_txIdValue).after fun voteTxId => ?_
  refine settles_finalOnly.after fun outcome => ?_
  cases number <;> cases title <;> cases body <;> exact settles_pure trivial

end Values

section Readers

variable [Scanner]

/-- What the inside of a meeting element carries, once no issue is left. -/
def MeetingBody.Given (isFinal : Bool) (body : MeetingBody) : Prop :=
  isFinal = true → body.openedAtHeight.isSome = true

theorem ends_readMeeting {isFinal : Bool} {tag : Tag} :
    (readMeeting isFinal tag).Ends (MeetingBody.Given isFinal) Expected := by
  refine (ends_readAttributes (settles_meetingAttributes isFinal)).bind
    fun ⟨texts, issues⟩ ⟨_, hgiven⟩ => ?_
  refine Parse.Ends.bind (P := fun p : Option (List FinalItemV1) × Finset IssueV1 => issues ⊆ p.2) ?_
    fun ⟨items, found⟩ hkept => ?_
  · refine ends_childrenOf (fun ⟨items, found⟩ child isEmpty hkept => ?_) (Finset.Subset.refl _)
    dsimp only at hkept ⊢
    split
    · exact ends_unknownChild
    · refine ends_noAttributes.bind fun _ _ => ?_
      refine (ends_parseLeaves (settles_itemAttributes isFinal)).bind fun ⟨_, more⟩ hmore => ?_
      exact Parse.ends_pure (hkept.trans (subset_repeatedIf.trans hmore))
  · refine ends_finishIssues.bind fun _ hnone => ?_
    have hissues : issues = ∅ :=
      Finset.subset_empty.mp ((Finset.union_eq_empty.mp hnone).1 ▸ hkept)
    refine (ends_expectSome (hgiven hissues).channel).bind fun _ _ => ?_
    refine (ends_expectSome (hgiven hissues).title).bind fun _ _ => ?_
    refine (ends_expectSome (hgiven hissues).scheduledAt).bind fun _ _ => ?_
    exact Parse.ends_pure (hgiven hissues).opened

/-- A final record names its meeting. -/
def MeetingRoot.Given (root : MeetingRoot) : Prop :=
  root.isFinal = true → root.meetingId.isSome = true

theorem ends_meetingIdOf {isFinal : Bool} {meeting : Option Text} :
    (meetingIdOf isFinal meeting).Ends (fun id => isFinal = true → id.isSome = true) Expected := by
  cases isFinal <;> cases meeting
  · exact Parse.ends_pure nofun
  · exact Parse.ends_fatal nofun
  · exact Parse.ends_invalid (Finset.singleton_ne_empty _)
  · exact (Parse.ends_answer ends_txIdValue).bind fun _ _ => Parse.ends_pure fun _ => rfl

theorem ends_readMeetingRoot {root : Tag} :
    (readMeetingRoot root).Ends MeetingRoot.Given Expected := by
  have hattributes : Settles meetingRootAttributes fun texts =>
      texts.version.isSome = true ∧ texts.kind.isSome = true ∧ texts.company.isSome = true := by
    refine settles_requireText.bind fun version => settles_requireText.bind fun kind => ?_
    refine settles_requireText.bind fun company => settles_take.bind fun meeting => ?_
    exact settles_pure fun _ hcompany hkind hversion => ⟨hversion, hkind, hcompany⟩
  refine (ends_readAttributes hattributes).bind fun ⟨texts, issues⟩ ⟨_, htexts⟩ => ?_
  refine ends_finishIssues.bind fun _ hnone => ?_
  obtain ⟨hversion, hkind, hcompany⟩ := htexts hnone
  refine (ends_expectSome hversion).bind fun version _ => ?_
  split_ifs
  · exact Parse.ends_fatal nofun
  · refine (ends_expectSome hkind).bind fun kind _ => ?_
    have hmeetingKind : (meetingKind kind).Ends (fun _ => True) Expected := by
      unfold meetingKind
      split_ifs <;> first | exact Parse.ends_pure trivial | exact Parse.ends_fatal nofun
    refine hmeetingKind.bind fun isFinal _ => (ends_expectSome hcompany).bind fun _ _ => ?_
    refine (Parse.ends_answer ends_companyId).bind fun company _ => ?_
    exact ends_meetingIdOf.bind fun id hid => Parse.ends_pure hid

/-- The meeting element met so far carries what a record of its kind needs. -/
def MeetingSlots.Given (isFinal : Bool) (s : MeetingSlots) : Prop :=
  ∀ body, s.body = some body → body.Given isFinal

theorem ends_parseMeetingChild {isFinal : Bool} {s : MeetingSlots} {tag : Tag} {isEmpty : Bool}
    (h : s.Given isFinal) :
    (parseMeetingChild isFinal s tag isEmpty).Ends (MeetingSlots.Given isFinal) Expected := by
  unfold parseMeetingChild
  split_ifs
  · exact Parse.ends_fatal nofun
  · exact ends_readNotarisation.bind fun _ _ => ends_expectLeaf.bind fun _ _ => Parse.ends_pure h
  · exact Parse.ends_fatal nofun
  · exact Parse.ends_fatal nofun
  · refine ends_readMeeting.bind fun body hbody => Parse.ends_pure ?_
    exact fun found hfound => Option.some.inj hfound ▸ hbody
  · exact ends_unknownChild

theorem ends_readMeetingDocument {xml : Text} :
    Ends (readMeetingDocument xml) (fun p => p.1.Given ∧ p.2.Given p.1.isFinal) Expected := by
  refine ends_checkSize.bind fun _ _ => ends_rootStart.bind fun ⟨root, r⟩ _ => ?_
  refine (ends_readMeetingRoot.exec r).bind fun ⟨root, r⟩ hroot => ?_
  have hempty : MeetingSlots.Given root.isFinal ⟨none, none⟩ := nofun
  refine ((ends_childrenOf (fun _ _ _ h => ends_parseMeetingChild h) hempty).exec r).bind
    fun ⟨slots, r⟩ hslots => ?_
  exact ends_expectEof.bind fun _ _ => ⟨hroot, hslots⟩

omit [Scanner] in
theorem ends_agenda {items : List AgendaItemV1} :
    Ends (AgendaV1.new items) (fun _ => True) fun e => ¬ e.Unexpected := by
  unfold AgendaV1.new
  split
  · exact id
  · split
    · exact id
    · trivial

/-- No expectation fails in reading a meeting record. -/
theorem ends_readMeetingRecord {xml : Text} :
    Ends (readMeetingRecord xml) (fun _ => True) fun e => ¬ e.Unexpected := by
  have hrecord : ∀ {α : Type} {Q : α → Prop} {x : Except IrenaError α}, Ends x Q Expected →
      Ends (mapErr MeetingError.record x) Q fun e => ¬ e.Unexpected := by
    intro α Q x h
    refine Ends.mapErr ?_
    cases x with
    | ok a => exact h
    | error e =>
      rcases e with reason | found
      · cases reason with
        | panicked => exact absurd rfl h
        | _ => exact id
      · exact id
  refine (hrecord ends_readMeetingDocument).bind fun ⟨root, slots⟩ ⟨hroot, hslots⟩ => ?_
  refine (ends_orError fun _ => id).bind fun notarisation _ => ?_
  refine (ends_orError fun _ => id).bind fun body hbody => ?_
  split
  · rename_i hfinal
    refine (ends_orError fun hnone => ?_).bind fun meetingId _ => ?_
    · exact absurd (hroot hfinal) (by rw [hnone]; exact Bool.noConfusion)
    refine (ends_orError fun hnone => ?_).bind fun height _ => trivial
    exact absurd (hslots body hbody hfinal) (by rw [hnone]; exact Bool.noConfusion)
  · exact ends_agenda.bind fun _ _ => trivial

end Readers

end Irena.Meeting
