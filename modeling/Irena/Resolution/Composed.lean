import Irena.Meeting.Composed
import Irena.Resolution.Soundness
import Irena.Sample.Held
import Irena.Sample.Resolved

/-! # When a resolution is composed

The body of an amendment is cut out of the text of a resolution as it was embedded, whatever stands
in it. A resolution is composed exactly when it is read as it was written. -/

namespace Irena.Resolution

open Irena.Library Irena.Library.Outcome Irena.Library.Strings Irena.Library.Markup
open Irena.Library.Utf8 Irena.Library.Numeral
open Irena.Core Irena.Bornite Irena.Prunella
open Irena.Meeting (plain_decimal parseU32 parseU32_decimal)

theorem trim_normaliseBody (text : Text) : trim (normaliseBody text) = normaliseBody text := by
  unfold normaliseBody stripDeclaration
  dsimp only
  split
  · exact trim_trim text
  · split <;> exact trim_trim _

/-- What stands before a root and is passed over when a body is captured. -/
def captured : Event → Bool
  | .text _ | .comment _ | .instruction => true
  | _ => false

section Capture

variable [Scanner]

/-- No declaration stands before the root of a document. -/
def OpensUndeclared (element : Text) : Prop :=
  ∃ root isEmpty r, Parse.skip captured (openDocument element) = some (rootEvent root isEmpty, r)

theorem validateBody_eq_ok {target : AmendmentTargetV1} {body : Text} {u : Unit} :
    validateBody target body = .ok u ↔ ∃ b, readBodyDocument target.recordKind body = .ok b := by
  have hmap {α : Type} {x : Except IrenaError α} {wrap : α → RecordBodyV1} :
      (x >>= fun _ => pure ()) = .ok u ↔ ∃ b, x.map wrap = .ok b := by
    cases x <;> simp [Except.map]
  cases target <;> exact hmap

variable [DocumentScanner] {kind : RecordKindV1} {element : Text} {body : RecordBodyV1}

theorem Stands.undeclared {root : Tag} {isEmpty : Bool} {r r' : Reader}
    (h : Stands kind element root isEmpty r r' body) (hopens : OpensUndeclared element) :
    Parse.skip captured ⟨[], element⟩ = some (rootEvent root isEmpty, r) := by
  have hle (e : Event) (he : captured e = true) : prolog e = true := by
    cases e <;> simp_all [captured, prolog]
  rw [← skip_openDocument rfl (fun _ => rfl)]
  rcases Parse.skip_of_skip rfl hle h.begins with hskip | ⟨e, r₁, hskip, hprolog, -⟩
  · exact hskip
  · obtain ⟨root', isEmpty', r₂, hopen⟩ := hopens
    rw [hskip, Option.some.injEq, Prod.mk.injEq] at hopen
    rw [hopen.1] at hprolog
    cases isEmpty' <;> cases hprolog

/-- A walk to the end of an amendment captures the document that was embedded, byte for byte. -/
theorem run_captureBody (hbody : readBodyDocument kind element = .ok body)
    (htrim : trim element = element) (hopens : OpensUndeclared element) (base : List Text)
    (post : Text) :
    captureBody.run ⟨lit "amendment" :: base,
        element ++ (lit "</" ++ lit "amendment" ++ lit ">" ++ post)⟩ =
      (.ok element, ⟨base, post⟩) := by
  obtain ⟨root, isEmpty, r, r', hstands⟩ := stands_of_readBodyDocument hbody
  have hbegins := Stands.undeclared hstands hopens
  obtain ⟨r₁, hends⟩ := expectEof_eq_ok.mp hstands.ends
  have hwritable : WritableName (lit "amendment") := by decide
  obtain ⟨kept, blanks, htext, hblanks, hwalk⟩ : ∃ kept blanks, element = kept ++ blanks ∧
      blanks.all isBlank = true ∧
      (Parse.walk amendmentReasons fun e => e = .declaration ∨ e = .doctype : IrenaParse Text).run
          ⟨lit "amendment" :: base, element ++ (lit "</" ++ lit "amendment" ++ lit ">" ++ post)⟩ =
        (.ok kept, ⟨base, post⟩) := Parse.run_walk_document rfl
    (by intro e he; cases e <;> simp_all [captured, Event.Level]) (fun tag => by simp)
    (fun name => by simp) (by intro e he; cases e <;> simp_all [ignorable]) hwritable hbegins
    (nested_parseBody hstands.reads trivial).2 hends base post
  have hkept : trim kept = element := by
    have hwhite : blanks.all isWhitespace = true :=
      List.all_eq_true.mpr fun c hc => isWhitespace_of_isBlank (List.all_eq_true.mp hblanks c hc)
    rw [← trim_behind hwhite, ← htext, htrim]
  have hne : element ≠ [] := by
    rintro rfl
    rw [Parse.skip_eq rfl, WritingScanner.finish] at hbegins
    cases isEmpty <;> cases hbegins
  refine Parse.run_bind_ok.mpr ⟨kept, _, hwalk, ?_⟩
  rw [if_neg (hkept ▸ hne), hkept]
  rfl

/-- Where a declaration stands before its root, no body is captured. -/
theorem run_captureBody_declared (hbody : readBodyDocument kind element = .ok body)
    (hdeclared : ¬ OpensUndeclared element) (base : List Text) (post : Text) :
    (captureBody.run ⟨lit "amendment" :: base,
        element ++ (lit "</" ++ lit "amendment" ++ lit ">" ++ post)⟩).1 =
      .error (.fatal (amendmentReasons.unexpected .declaration)) := by
  obtain ⟨root, isEmpty, r, r', hstands⟩ := stands_of_readBodyDocument hbody
  have hle (e : Event) (he : captured e = true) : prolog e = true := by
    cases e <;> simp_all [captured, prolog]
  rcases Parse.skip_of_skip rfl hle hstands.begins with hskip | ⟨e, r₁, hskip, hprolog, hcaptured⟩
  · exact absurd ⟨root, isEmpty, r, hskip⟩ hdeclared
  · obtain rfl : e = .declaration := by cases e <;> simp_all [captured, prolog]
    rw [skip_openDocument rfl (fun _ => rfl)] at hskip
    have hframe := Parse.skip_frame rfl hskip (by simp) (by simp) (lit "amendment" :: base)
      (lit "</" ++ lit "amendment" ++ lit ">" ++ post)
    have hlevel : ∀ e, captured e = true → e.Level ∧
        decide (e = Event.declaration ∨ e = .doctype) = false := by
      intro e he
      cases e <;> simp_all [captured, Event.Level]
    obtain ⟨r₀, hscan, hsame⟩ := @Parse.walkOn_skip _ (Finset IssueV1) _ amendmentReasons
      (fun e => e = Event.declaration ∨ e = .doctype) ⟨lit "amendment" :: base,
        element ++ (lit "</" ++ lit "amendment" ++ lit ">" ++ post)⟩ _ _ _ _ captured rfl
      hlevel hframe 0
    have hwalk : (Parse.walk amendmentReasons fun e => e = .declaration ∨ e = .doctype :
        IrenaParse Text).run ⟨lit "amendment" :: base,
          element ++ (lit "</" ++ lit "amendment" ++ lit ">" ++ post)⟩ =
        (.error (.fatal (amendmentReasons.unexpected .declaration)), _) :=
      hsame.trans (Parse.walkOn_refused hscan (by simp) 0)
    rw [captureBody, Parse.run_bind, hwalk]

end Capture

def authorityPairs : AuthorityV1 → List (Text × Text)
  | .collective _ meetingTx itemNumber voteTx =>
    [(lit "meeting", meetingTx.toHex), (lit "item", decimal itemNumber),
      (lit "vote", voteTx.toHex)]
  | .individual _ decisionTx => [(lit "decision", decisionTx.toHex)]

def kindPair : ResolutionKindV1 → Text × Text
  | .declarative digest => (lit "document-digest", digest.toHex)
  | .amendment target _ => (lit "target", target.asStr)

def resolutionPairs (company : CompanyIdV1) (title : Text) (authority : AuthorityV1)
    (kind : ResolutionKindV1) : List (Text × Text) :=
  [(lit "version", resolutionVersion), (lit "kind", kind.asStr), (lit "company", company.value),
    (lit "title", title), (lit "channel", authority.channel)] ++ authorityPairs authority ++
    [kindPair kind]

/-- What follows the notarisation in a resolution. -/
def kindContent : ResolutionKindV1 → Text
  | .declarative _ => lit "\n" ++ (lit "</" ++ lit "irena-resolution" ++ lit ">" ++ [])
  | .amendment _ body => lit "\n  " ++ (lit "<" ++ lit "amendment" ++ writePairs [] ++ lit ">" ++
      (body ++ (lit "</" ++ lit "amendment" ++ lit ">" ++
        (lit "\n" ++ (lit "</" ++ lit "irena-resolution" ++ lit ">" ++ [])))))

/-- What follows the start tag of a resolution. -/
def resolutionContent (n : NotarisationV1) (kind : ResolutionKindV1) : Text :=
  lit "\n  " ++ (lit "<" ++ lit "notarisation" ++ writePairs (notarisationPairs n) ++ lit "/>" ++
    kindContent kind)

theorem plain_resolutionKind (kind : ResolutionKindV1) : kind.asStr.all isPlain = true := by
  have hdeclarative : (lit "declarative").all isPlain = true := by decide
  have hamendment : (lit "amendment").all isPlain = true := by decide
  cases kind with
  | declarative digest => exact hdeclarative
  | amendment target body => exact hamendment

theorem plain_target (target : AmendmentTargetV1) : target.asStr.all isPlain = true := by
  cases target <;> decide

theorem resolutionText_eq {company : CompanyIdV1} {n : NotarisationV1} {title : Text}
    {authority : AuthorityV1} {kind : ResolutionKindV1}
    (hchannel : authority.channel.all isPlain = true) :
    resolutionText company n title authority kind = lit "<" ++ lit "irena-resolution" ++
      writePairs (resolutionPairs company title authority kind) ++ lit ">" ++
        resolutionContent n kind := by
  have hversion : writeAttribute (lit "version") resolutionVersion =
      writePair (lit "version", resolutionVersion) := writeAttribute_plain (by decide)
  have hroot : lit "<irena-resolution" = lit "<" ++ lit "irena-resolution" := rfl
  have hline : lit ">\n  " = lit ">" ++ lit "\n  " := rfl
  have hamendment : lit "\n  <amendment>" = lit "\n  " ++ (lit "<" ++ lit "amendment" ++
    writePairs [] ++ lit ">") := rfl
  have hend : lit "</amendment>\n</irena-resolution>" = lit "</" ++ (lit "amendment" ++ (lit ">" ++
    (lit "\n" ++ (lit "</" ++ (lit "irena-resolution" ++ lit ">"))))) := rfl
  have hclose : lit "\n</irena-resolution>" = lit "\n" ++ (lit "</" ++ (lit "irena-resolution" ++
    lit ">")) := rfl
  have hauthority : authorityAttributes authority = writePairs (authorityPairs authority) := by
    cases authority <;>
      simp only [authorityAttributes, authorityPairs, writeAttribute_plain (plain_txId _),
        writeAttribute_plain (plain_decimal _), writePairs_cons, writePairs_nil, List.append_nil,
        List.append_assoc]
  cases kind <;>
    simp only [resolutionText, hversion, hauthority, writeAttribute_plain (plain_resolutionKind _),
      writeAttribute_plain (plain_of_label company.valid), writeAttribute_escape,
      writeAttribute_plain hchannel, writeAttribute_plain (plain_hash _),
      writeAttribute_plain (plain_target _), resolutionPairs, kindPair, resolutionContent,
      kindContent, writeNotarisation_eq, hroot, hline, hamendment, hend, hclose, writePairs_append,
      writePairs_cons, writePairs_nil, List.append_assoc, List.append_nil]

def AuthorityV1.texts : AuthorityV1 → Option Text × Option Text × Option Text × Option Text
  | .collective _ meetingTx itemNumber voteTx =>
    (some meetingTx.toHex, some (decimal itemNumber), some voteTx.toHex, none)
  | .individual _ decisionTx => (none, none, none, some decisionTx.toHex)

def ResolutionKindV1.digestText : ResolutionKindV1 → Option Text
  | .declarative digest => some digest.toHex
  | .amendment _ _ => none

def ResolutionKindV1.targetText : ResolutionKindV1 → Option Text
  | .declarative _ => none
  | .amendment target _ => some target.asStr

/-- An item number that a resolution can carry. -/
def AuthorityV1.Numbered : AuthorityV1 → Prop
  | .collective _ _ itemNumber _ => itemNumber ≤ u32Max
  | .individual _ _ => True

def resolutionNames : Finset Text :=
  {lit "target", lit "document-digest", lit "decision", lit "vote", lit "item", lit "meeting",
    lit "channel", lit "title", lit "company", lit "kind", lit "version"}

section Attributes

variable {company : CompanyIdV1} {title : Text} {authority : AuthorityV1} {kind : ResolutionKindV1}

theorem lookup_resolutionPairs :
    (resolutionPairs company title authority kind).lookup (lit "version") =
      some resolutionVersion ∧
    (resolutionPairs company title authority kind).lookup (lit "kind") = some kind.asStr ∧
    (resolutionPairs company title authority kind).lookup (lit "company") = some company.value ∧
    (resolutionPairs company title authority kind).lookup (lit "title") = some title ∧
    (resolutionPairs company title authority kind).lookup (lit "channel") =
      some authority.channel ∧
    (resolutionPairs company title authority kind).lookup (lit "meeting") = authority.texts.1 ∧
    (resolutionPairs company title authority kind).lookup (lit "item") = authority.texts.2.1 ∧
    (resolutionPairs company title authority kind).lookup (lit "vote") = authority.texts.2.2.1 ∧
    (resolutionPairs company title authority kind).lookup (lit "decision") =
      authority.texts.2.2.2 ∧
    (resolutionPairs company title authority kind).lookup (lit "document-digest") =
      kind.digestText ∧
    (resolutionPairs company title authority kind).lookup (lit "target") = kind.targetText := by
  cases authority <;> cases kind <;>
    exact ⟨by rfl, by rfl, by rfl, by rfl, by rfl, by rfl, by rfl, by rfl, by rfl, by rfl, by rfl⟩

theorem writable_resolution :
    Writable (lit "irena-resolution") (resolutionPairs company title authority kind) where
  name := by decide
  keys := by
    cases authority <;> cases kind <;>
      simp only [resolutionPairs, authorityPairs, kindPair, List.cons_append, List.nil_append,
        List.forall_mem_cons, List.not_mem_nil, false_implies, implies_true, and_true] <;> decide
  nodup := by
    cases authority <;> cases kind <;> simp [resolutionPairs, authorityPairs, kindPair, lit]

theorem mem_resolutionNames :
    ∀ key ∈ (resolutionPairs company title authority kind).map Prod.fst, key ∈ resolutionNames := by
  cases authority <;> cases kind <;>
    simp only [resolutionPairs, authorityPairs, kindPair, List.cons_append, List.nil_append,
      List.map_cons, List.map_nil] <;> decide

theorem map_plain {text : Option Text} (h : ∀ t ∈ text, t.all isPlain = true) :
    text.map normaliseValue = text :=
  map_normaliseValue_eq_self.mpr fun t ht =>
    unbroken_iff.mpr (normaliseValue_plain (h t ht))

theorem yields_resolution (hchannel : authority.channel.all isPlain = true) :
    Yields (readPairs (resolutionPairs company title authority kind)) ∅ resolutionAttributes
      ⟨some resolutionVersion, some kind.asStr, some company.value, some (normaliseValue title),
        some authority.channel, authority.texts.1, authority.texts.2.1, authority.texts.2.2.1,
        authority.texts.2.2.2, kind.digestText, kind.targetText⟩ resolutionNames := by
  obtain ⟨hversion, hkind, hcompany, htitle, hthrough, hmeeting, hitem, hvote, hdecision, hdigest,
    htarget⟩ := @lookup_resolutionPairs company title authority kind
  have hsome {text : Text} (h : text.all isPlain = true) : ∀ t ∈ some text, t.all isPlain = true := by
    rintro t ⟨⟩
    exact h
  have hnone : ∀ t ∈ (none : Option Text), t.all isPlain = true := nofun
  have htexts : (∀ t ∈ authority.texts.1, t.all isPlain = true) ∧
      (∀ t ∈ authority.texts.2.1, t.all isPlain = true) ∧
      (∀ t ∈ authority.texts.2.2.1, t.all isPlain = true) ∧
      ∀ t ∈ authority.texts.2.2.2, t.all isPlain = true := by
    cases authority with
    | collective channel meetingTx itemNumber voteTx =>
      exact ⟨hsome (plain_txId _), hsome (plain_decimal _), hsome (plain_txId _), hnone⟩
    | individual channel decisionTx => exact ⟨hnone, hnone, hnone, hsome (plain_txId _)⟩
  have hkindTexts : (∀ t ∈ kind.digestText, t.all isPlain = true) ∧
      ∀ t ∈ kind.targetText, t.all isPlain = true := by
    cases kind with
    | declarative digest => exact ⟨hsome (plain_hash _), hnone⟩
    | amendment target body => exact ⟨hnone, hsome (plain_target _)⟩
  refine (yields_require (by decide) ((lookup_written hversion).trans
    (map_plain (hsome (by decide))))).bind ?_
  refine (yields_require (by decide) ((lookup_written hkind).trans
    (map_plain (hsome (plain_resolutionKind kind))))).bind ?_
  refine (yields_require (by decide) ((lookup_written hcompany).trans
    (map_plain (hsome (plain_of_label company.valid))))).bind ?_
  refine (yields_require (by decide) (lookup_written htitle)).bind ?_
  refine (yields_require (by decide) ((lookup_written hthrough).trans
    (map_plain (hsome hchannel)))).bind ?_
  refine (yields_take (by decide) ((lookup_written hmeeting).trans (map_plain htexts.1))).bind ?_
  refine (yields_take (by decide) ((lookup_written hitem).trans (map_plain htexts.2.1))).bind ?_
  refine (yields_take (by decide) ((lookup_written hvote).trans (map_plain htexts.2.2.1))).bind ?_
  refine (yields_take (by decide)
    ((lookup_written hdecision).trans (map_plain htexts.2.2.2))).bind ?_
  refine (yields_take (by decide)
    ((lookup_written hdigest).trans (map_plain hkindTexts.1))).bind ?_
  exact (yields_take (by decide)
    ((lookup_written htarget).trans (map_plain hkindTexts.2))).bind yields_pure

theorem authorityOf_texts (hnumbered : authority.Numbered) :
    authorityOf authority.channel authority.texts.1 authority.texts.2.1 authority.texts.2.2.1
      authority.texts.2.2.2 = .ok authority := by
  have htx (key : Text) (txId : TxId) : txOf key txId.toHex = .ok txId := by
    simp [txOf, spelled]
  cases authority with
  | collective channel meetingTx itemNumber voteTx =>
    have hnumber : numberOf (lit "item") (decimal itemNumber) = .ok itemNumber := by
      have hspelled := ofDecimal_decimal itemNumber
      rw [ofDecimal] at hspelled
      split at hspelled
      · rename_i hdigits
        rw [numberOf, if_neg (by simp [hdigits.1, hdigits.2]), parseU32_decimal hnumbered]
        rfl
      · cases hspelled
    simp only [authorityOf, AuthorityV1.texts, AuthorityV1.channel, htx, hnumber]
    rfl
  | individual channel decisionTx =>
    simp only [authorityOf, AuthorityV1.texts, AuthorityV1.channel, htx]
    rfl

variable [Scanner]

theorem run_readResolutionRoot {channel : ChannelIdV1} (hchannel : channel.value = authority.channel)
    (htitle : trim title ≠ []) (hnumbered : authority.Numbered) (r : Reader) :
    (readResolutionRoot ⟨lit "irena-resolution",
        some (readPairs (resolutionPairs company title authority kind))⟩).run r =
      (.ok ⟨company, normaliseValue title, authority, kind.asStr, kind.digestText,
        kind.targetText⟩, r) := by
  have hplain : authority.channel.all isPlain = true := hchannel ▸ plain_of_label channel.valid
  have hcovers := covers_readPairs (@writable_resolution company title authority kind)
    mem_resolutionNames
  have hread : trim (normaliseValue title) ≠ [] := by simpa using htitle
  have hthrough : channelOf authority.channel = .ok channel := by
    rw [channelOf, ChannelIdV1.new_eq_ok.mpr hchannel]
    rfl
  unfold readResolutionRoot
  rw [Parse.run_bind, (yields_resolution hplain).run hcovers r]
  dsimp only
  refine Parse.run_bind_ok.mpr ⟨(), r, run_finishIssues_ok.mpr ⟨rfl, rfl⟩, ?_⟩
  refine Parse.run_bind_ok.mpr ⟨_, r, run_expectSome_ok.mpr ⟨rfl, rfl⟩, ?_⟩
  refine Parse.run_bind_ok.mpr ⟨(), r, ?_, ?_⟩
  · rw [checkVersion, if_pos rfl]
    rfl
  refine Parse.run_bind_ok.mpr ⟨_, r, run_expectSome_ok.mpr ⟨rfl, rfl⟩, ?_⟩
  refine Parse.run_bind_ok.mpr ⟨company, r, congrArg (·, r) (CompanyIdV1.new_eq_ok.mpr rfl), ?_⟩
  refine Parse.run_bind_ok.mpr ⟨_, r, run_expectSome_ok.mpr ⟨rfl, rfl⟩, ?_⟩
  refine Parse.run_bind_ok.mpr ⟨(), r, congrArg (·, r) (ensure_eq_ok.mpr hread), ?_⟩
  refine Parse.run_bind_ok.mpr ⟨_, r, run_expectSome_ok.mpr ⟨rfl, rfl⟩, ?_⟩
  refine Parse.run_bind_ok.mpr ⟨channel, r, congrArg (·, r) hthrough, ?_⟩
  refine Parse.run_bind_ok.mpr ⟨authority, r, ?_, ?_⟩
  · rw [hchannel]
    exact congrArg (·, r) (authorityOf_texts hnumbered)
  · exact Parse.run_bind_ok.mpr ⟨_, r, run_expectSome_ok.mpr ⟨rfl, rfl⟩, rfl⟩

end Attributes

section Documents

variable [Scanner]

/-- A kind whose amendment is a document of its target, with no declaration and nothing to trim. -/
def Embeds : ResolutionKindV1 → Prop
  | .declarative _ => True
  | .amendment target body =>
    validateBody target body = .ok () ∧ trim body = body ∧ OpensUndeclared body

theorem kindOf_texts {kind : ResolutionKindV1} (h : Embeds kind) :
    kindOf kind.asStr kind.digestText kind.targetText kind.body = .ok kind := by
  have hother : lit "amendment" ≠ lit "declarative" := by decide
  cases kind with
  | declarative digest =>
    have hdigest : hashValue (lit "irena-resolution") (lit "document-digest") digest.toHex =
        .ok digest := by
      simp [hashValue, spelled]
    unfold kindOf
    exact bind_eq_ok.mpr ⟨digest, hdigest, rfl⟩
  | amendment target body =>
    have htarget : targetOf (lit "irena-resolution") target.asStr = .ok target := by
      simp [targetOf, spelled]
    unfold kindOf
    exact bind_eq_ok.mpr ⟨target, htarget, bind_eq_ok.mpr ⟨(), h.1, rfl⟩⟩

variable [DocumentScanner] {company : CompanyIdV1} {n : NotarisationV1} {title : Text}
  {authority : AuthorityV1} {kind : ResolutionKindV1}

theorem skip_resolutionText (hchannel : authority.channel.all isPlain = true) :
    Parse.skip prolog (openDocument (resolutionText company n title authority kind)) =
      some (.start ⟨lit "irena-resolution",
          some (readPairs (resolutionPairs company title authority kind))⟩,
        ⟨[lit "irena-resolution"], resolutionContent n kind⟩) := by
  have hopen : openDocument (resolutionText company n title authority kind) =
      ⟨[], [] ++ (lit "<" ++ lit "irena-resolution" ++
        writePairs (resolutionPairs company title authority kind) ++ lit ">" ++
          resolutionContent n kind)⟩ := by
    rw [resolutionText_eq hchannel]
    rfl
  rw [hopen]
  exact Parse.skip_start rfl (fun _ => rfl) (fun _ => rfl) writable_resolution List.all_nil [] _

omit [DocumentScanner] in
theorem parseResolutionChild_notarisation {pairs : Option (List (Text × Text))} {isEmpty : Bool} :
    parseResolutionChild ⟨none, none⟩ ⟨lit "notarisation", pairs⟩ isEmpty = (do
      let notarisation ← readNotarisation ⟨lit "notarisation", pairs⟩
      expectLeaf (lit "notarisation") isEmpty
      return ⟨some notarisation, none⟩) := by
  unfold parseResolutionChild
  rw [if_pos rfl, if_neg (by simp)]

omit [DocumentScanner] in
theorem parseResolutionChild_amendment {m : NotarisationV1}
    {pairs : Option (List (Text × Text))} :
    parseResolutionChild ⟨some m, none⟩ ⟨lit "amendment", pairs⟩ false = (do
      let body ← captureBody
      return ⟨some m, some body⟩) := by
  have hother : lit "amendment" ≠ lit "notarisation" := by decide
  unfold parseResolutionChild
  rw [if_neg hother, if_pos rfl, if_neg (by simp), if_neg (by simp)]

/-- Behind the notarisation stands the body of an amendment, or the end. -/
theorem run_children_kind (h : Embeds kind) {m : NotarisationV1} :
    (Parse.children (reasonsIn (lit "irena-resolution")) parseResolutionChild ⟨some m, none⟩ :
        IrenaParse ResolutionSlots).run ⟨[lit "irena-resolution"], kindContent kind⟩ =
      (.ok ⟨some m, kind.body⟩, ⟨[], []⟩) := by
  have hend (s : ResolutionSlots) :
      (Parse.children (reasonsIn (lit "irena-resolution")) parseResolutionChild s :
        IrenaParse ResolutionSlots).run ⟨[lit "irena-resolution"],
          lit "\n" ++ (lit "</" ++ lit "irena-resolution" ++ lit ">" ++ [])⟩ = (.ok s, ⟨[], []⟩) :=
    Parse.run_children_ok.mpr ⟨_, _, Parse.skip_close (by decide)
      (by decide : (lit "\n").all isContent = true) [] [], rfl, rfl⟩
  cases kind with
  | declarative digest => exact hend _
  | amendment target body =>
    obtain ⟨hbody, htrim, hopens⟩ := h
    obtain ⟨b, hread⟩ := validateBody_eq_ok.mp hbody
    have hother : lit "amendment" ≠ lit "notarisation" := by decide
    have hamendment : Writable (lit "amendment") [] := ⟨by decide, nofun, List.nodup_nil⟩
    have hchild (post : Text) : (parseResolutionChild ⟨some m, none⟩
        ⟨lit "amendment", some (readPairs [])⟩ false).run
          ⟨[lit "amendment", lit "irena-resolution"],
            body ++ (lit "</" ++ lit "amendment" ++ lit ">" ++ post)⟩ =
        (.ok ⟨some m, some body⟩, ⟨[lit "irena-resolution"], post⟩) := by
      rw [parseResolutionChild_amendment]
      exact Parse.run_bind_ok.mpr ⟨_, _, run_captureBody hread htrim hopens _ _, rfl⟩
    refine Parse.run_children_ok.mpr ⟨_, _, Parse.skip_start rfl (fun _ => rfl) (fun _ => rfl)
      hamendment (by decide : (lit "\n  ").all isContent = true) _ _, ?_⟩
    exact Parse.run_bind_ok.mpr ⟨_, _, hchild _, hend _⟩

/-- A written resolution that fits is read, the breaks in its free texts turned into blanks, and the
body of its amendment exactly as it was embedded. -/
theorem readResolutionDocument_resolutionText {channel : ChannelIdV1} (hname : trim n.name ≠ [])
    (hchannel : channel.value = authority.channel) (htitle : trim title ≠ [])
    (hnumbered : authority.Numbered) (hembeds : Embeds kind)
    (hfits : byteLength (resolutionText company n title authority kind) ≤ maxDocumentBytes) :
    readResolutionDocument (resolutionText company n title authority kind) =
      .ok ⟨company, n.asRead, normaliseValue title, authority, kind⟩ := by
  have hplain : authority.channel.all isPlain = true := hchannel ▸ plain_of_label channel.valid
  have hfirst (r : Reader) : (parseResolutionChild ⟨none, none⟩
      ⟨lit "notarisation", some (readPairs (notarisationPairs n))⟩ true).run r =
        (.ok ⟨some n.asRead, none⟩, r) := by
    rw [parseResolutionChild_notarisation]
    rw [Parse.run_bind, run_readNotarisation hname]
    rfl
  have hchildren : (Parse.children (reasonsIn (lit "irena-resolution")) parseResolutionChild
      ⟨none, none⟩ : IrenaParse ResolutionSlots).run
        ⟨[lit "irena-resolution"], resolutionContent n kind⟩ =
      (.ok ⟨some n.asRead, kind.body⟩, ⟨[], []⟩) := by
    refine Parse.run_children_ok.mpr ⟨_, _, Parse.skip_empty (writable_notarisation n)
      (by decide : (lit "\n  ").all isContent = true) _ _, ?_⟩
    exact Parse.run_bind_ok.mpr ⟨_, _, hfirst _, run_children_kind hembeds⟩
  simp only [readResolutionDocument, bind_eq_ok, rootStart_eq_ok, Prod.exists, Parse.exec_eq_ok,
    skip_resolutionText hplain, checkSize_eq_ok]
  refine ⟨(), hfits, _, _, ⟨rfl, rfl⟩, _, _, run_readResolutionRoot hchannel htitle hnumbered _,
    _, ⟨[], []⟩, hchildren, (), ?_, n.asRead, rfl, kind, kindOf_texts hembeds, rfl⟩
  refine expectEof_eq_ok.mpr ⟨⟨[], []⟩, ?_⟩
  rw [Parse.skip_eq rfl, WritingScanner.finish]
  rfl

omit [DocumentScanner] in
theorem still_readResolutionRoot {root : Tag} : Parse.Still (readResolutionRoot root) := by
  have hversion (version : Text) : Parse.Still (checkVersion version) := by
    unfold checkVersion
    split <;> exact Parse.still_answer _
  refine still_readAttributes.bind fun p => still_finishIssues.bind fun _ =>
    still_expectSome.bind fun version => (hversion version).bind fun _ =>
    still_expectSome.bind fun company => (Parse.still_answer _).bind fun _ =>
    still_expectSome.bind fun title => (Parse.still_answer _).bind fun _ =>
    still_expectSome.bind fun channel => (Parse.still_answer _).bind fun _ =>
    (Parse.still_answer _).bind fun _ => still_expectSome.bind fun _ => Parse.still_answer _

omit [DocumentScanner] in
theorem run_notarisationChild {pairs : Option (List (Text × Text))} {s : ResolutionSlots}
    {r r' : Reader}
    (h : (parseResolutionChild ⟨none, none⟩ ⟨lit "notarisation", pairs⟩ true).run r =
      (.ok s, r')) : r' = r ∧ ∃ m, s = ⟨some m, none⟩ := by
  simp only [parseResolutionChild_notarisation, Parse.run_bind_ok] at h
  obtain ⟨m, r₁, hnotarisation, _, r₂, hleaf, h⟩ := h
  obtain rfl := still_readNotarisation.eq_of_run hnotarisation
  obtain ⟨-, rfl⟩ := Prod.mk.inj hleaf
  obtain ⟨hs, rfl⟩ := Prod.mk.inj h
  exact ⟨rfl, m, (Except.ok.inj hs).symm⟩

omit [DocumentScanner] in
theorem run_amendmentChild {m : NotarisationV1} {pairs : Option (List (Text × Text))}
    {s : ResolutionSlots} {r r' : Reader}
    (h : (parseResolutionChild ⟨some m, none⟩ ⟨lit "amendment", pairs⟩ false).run r =
      (.ok s, r')) : ∃ body, (captureBody : IrenaParse Text).run r = (.ok body, r') := by
  rw [parseResolutionChild_amendment] at h
  obtain ⟨body, r₁, hcaptured, h⟩ := Parse.run_bind_ok.mp h
  obtain ⟨-, rfl⟩ := Prod.mk.inj h
  exact ⟨body, hcaptured⟩

theorem opensUndeclared_of_read {target : AmendmentTargetV1} {body : Text} {b : RecordBodyV1}
    {r : ResolutionRecordV1} (hchannel : authority.channel.all isPlain = true)
    (hbody : readBodyDocument target.recordKind body = .ok b)
    (h : readResolutionDocument (resolutionText company n title authority (.amendment target body)) =
      .ok r) : OpensUndeclared body := by
  by_contra hdeclared
  have hline : (lit "\n  ").all isContent = true := by decide
  have hother : lit "amendment" ≠ lit "notarisation" := by decide
  have hamendment : Writable (lit "amendment") [] := ⟨by decide, nofun, List.nodup_nil⟩
  simp only [readResolutionDocument, bind_eq_ok, rootStart_eq_ok, Prod.exists, Parse.exec_eq_ok,
    skip_resolutionText hchannel, Option.some.injEq, Prod.mk.injEq, Event.start.injEq] at h
  obtain ⟨_, -, _, _, ⟨⟨rfl, rfl⟩, -⟩, root, r₁, hroot, slots, r₂, hchildren, -⟩ := h
  obtain rfl := still_readResolutionRoot.eq_of_run hroot
  obtain ⟨e, r₃, hskip, hchild⟩ := Parse.run_children_ok.mp hchildren
  rw [resolutionContent, Parse.skip_empty (writable_notarisation n) hline, Option.some.injEq,
    Prod.mk.injEq] at hskip
  obtain ⟨rfl, rfl⟩ := hskip
  obtain ⟨s₁, r₄, hfirst, hrest⟩ := Parse.run_bind_ok.mp hchild
  obtain ⟨rfl, m, rfl⟩ := run_notarisationChild hfirst
  obtain ⟨e, r₇, hskip, hchild⟩ := Parse.run_children_ok.mp hrest
  rw [kindContent, Parse.skip_start rfl (fun _ => rfl) (fun _ => rfl) hamendment hline,
    Option.some.injEq, Prod.mk.injEq] at hskip
  obtain ⟨rfl, rfl⟩ := hskip
  obtain ⟨s₂, r₈, hsecond, -⟩ := Parse.run_bind_ok.mp hchild
  obtain ⟨inside, hcaptured⟩ := run_amendmentChild hsecond
  have hrefused := run_captureBody_declared hbody hdeclared [lit "irena-resolution"]
    (lit "\n" ++ (lit "</" ++ lit "irena-resolution" ++ lit ">" ++ []))
  rw [hcaptured] at hrefused
  cases hrefused

omit [DocumentScanner] in
theorem fits_of_readResolutionRecord {xml : Text} {r : ResolutionRecordV1}
    (h : readResolutionRecord xml = .ok r) : byteLength xml ≤ maxDocumentBytes := by
  obtain ⟨_, hsize, -⟩ := bind_eq_ok.mp (mapErr_eq_ok.mp h)
  exact checkSize_eq_ok.mp hsize

omit [DocumentScanner] in
theorem composeResolution_eq_ok {xml : Text} :
    composeResolution company n title authority kind = .ok xml ↔
      n.validate = .ok () ∧ trim title ≠ [] ∧
        (∃ channel : ChannelIdV1, channel.value = authority.channel) ∧
        (∀ target body, kind.normalised = .amendment target body →
          validateBody target body = .ok ()) ∧
        xml = resolutionText company n title authority kind.normalised ∧
        readResolutionRecord xml = .ok ⟨company, n, title, authority, kind.normalised⟩ := by
  simp only [composeResolution, bind_eq_ok, mapErr_eq_ok, ensure_eq_ok, ChannelIdV1.new_eq_ok]
  cases kind.normalised with
  | declarative digest =>
    simp only [pure_eq_ok, bind_eq_ok, ensure_eq_ok, Except.ok.injEq]
    constructor
    · rintro ⟨_, hn, _, htitle, channel, hchannel, readBack, hread, _, rfl, rfl⟩
      exact ⟨hn, htitle, ⟨channel, hchannel⟩, (by rintro _ _ ⟨⟩), rfl, hread⟩
    · rintro ⟨hn, htitle, ⟨channel, hchannel⟩, -, rfl, hread⟩
      exact ⟨(), hn, (), htitle, channel, hchannel, _, hread, (), rfl, rfl⟩
  | amendment target body =>
    simp only [pure_eq_ok, bind_eq_ok, mapErr_eq_ok, ensure_eq_ok, Except.ok.injEq]
    constructor
    · rintro ⟨_, hn, _, htitle, channel, hchannel, _, hbody, readBack, hread, _, rfl, rfl⟩
      refine ⟨hn, htitle, ⟨channel, hchannel⟩, ?_, rfl, hread⟩
      rintro _ _ ⟨⟩
      exact hbody
    · rintro ⟨hn, htitle, ⟨channel, hchannel⟩, hbody, rfl, hread⟩
      exact ⟨(), hn, (), htitle, channel, hchannel, (), hbody _ _ rfl, _, hread, (), rfl, rfl⟩

/-- A resolution is composed exactly where its text fits and no free text of it is broken. -/
theorem composeResolution_eq_ok_iff {channel : ChannelIdV1} {xml : Text}
    (hn : n.validate = .ok ()) (htitle : trim title ≠ [])
    (hchannel : channel.value = authority.channel) (hnumbered : authority.Numbered)
    (hembeds : Embeds kind.normalised) :
    composeResolution company n title authority kind = .ok xml ↔
      (n.Unbroken ∧ Unbroken title) ∧ xml = resolutionText company n title authority kind.normalised ∧
        byteLength xml ≤ maxDocumentBytes := by
  have hname := NotarisationV1.validate_eq_ok.mp hn
  have hbody : ∀ target body, kind.normalised = .amendment target body →
      validateBody target body = .ok () := by
    intro target body hkind
    rw [hkind] at hembeds
    exact hembeds.1
  rw [← NotarisationV1.asRead_eq_self, unbroken_iff, composeResolution_eq_ok]
  constructor
  · rintro ⟨-, -, -, -, rfl, hread⟩
    have hfits := fits_of_readResolutionRecord hread
    have hwritten : readResolutionDocument (resolutionText company n title authority
        kind.normalised) = .ok _ :=
      readResolutionDocument_resolutionText hname hchannel htitle hnumbered hembeds hfits
    have hsame := hwritten.symm.trans (mapErr_eq_ok.mp hread)
    rw [Except.ok.injEq, ResolutionRecordV1.mk.injEq] at hsame
    exact ⟨⟨hsame.2.1, hsame.2.2.1⟩, rfl, hfits⟩
  · rintro ⟨⟨hsame, hunbroken⟩, rfl, hfits⟩
    have hread : readResolutionDocument (resolutionText company n title authority
        kind.normalised) = .ok _ :=
      readResolutionDocument_resolutionText hname hchannel htitle hnumbered hembeds hfits
    rw [hsame, hunbroken] at hread
    exact ⟨hn, htitle, ⟨channel, hchannel⟩, hbody, rfl, mapErr_eq_ok.mpr hread⟩

end Documents

section Written

variable [Scanner] [DocumentScanner] {n : NotarisationV1}

/-- A notarisation, a record around a document, both records of a meeting and a resolution are
written and read back unchanged exactly where they fit and no free text has a line break or a tab. -/
theorem written_unchanged_iff (hn : n.validate = .ok ()) (company : CompanyIdV1) :
    (∀ opened post, ∃ tag,
      Scanner.scan ⟨opened, writeNotarisation n ++ post⟩ = some (.empty tag, ⟨opened, post⟩) ∧
      ((readNotarisation tag).run ⟨opened, post⟩ = (.ok n, ⟨opened, post⟩) ↔ n.Unbroken)) ∧
    (∀ kind supersedes text body, readBodyDocument kind (normaliseBody text) = .ok body →
      OpensPlainly (normaliseBody text) →
      ((∃ xml, composeRecord kind company supersedes n text = .ok xml ∧
          readRecord xml = .ok ⟨company, supersedes, n, body⟩) ↔
        n.Unbroken ∧ byteLength (recordText kind company supersedes n (normaliseBody text)) ≤
          defaultMaxDocumentBytes)) ∧
    (∀ m agenda, m.validate = .ok () →
      ((∃ xml, Meeting.composeConvened company n m agenda = .ok xml ∧
          Meeting.readMeetingRecord xml = .ok ⟨company, n, .convened m agenda⟩) ↔
        (n.Unbroken ∧ Unbroken m.title ∧ ∀ item ∈ agenda.items, Unbroken item.title) ∧
          byteLength (Meeting.convenedText company n m agenda) ≤ Meeting.maxDocumentBytes)) ∧
    (∀ record agenda, record.metadata.validate = .ok () → record.agenda = .ok agenda →
      record.Reported →
      ((∃ xml, Meeting.composeFinal company n record = .ok xml ∧
          Meeting.readMeetingRecord xml = .ok ⟨company, n, .final record⟩) ↔
        (n.Unbroken ∧ record.Unbroken) ∧
          byteLength (Meeting.finalText company n record) ≤ Meeting.maxDocumentBytes)) ∧
    ∀ title authority kind (channel : ChannelIdV1), trim title ≠ [] →
      channel.value = authority.channel → authority.Numbered → Embeds kind.normalised →
      ((∃ xml, composeResolution company n title authority kind = .ok xml ∧
          readResolutionRecord xml = .ok ⟨company, n, title, authority, kind.normalised⟩) ↔
        (n.Unbroken ∧ Unbroken title) ∧
          byteLength (resolutionText company n title authority kind.normalised) ≤
            maxDocumentBytes) := by
  have hname := NotarisationV1.validate_eq_ok.mp hn
  refine ⟨?_, ?_, ?_, ?_, ?_⟩
  · intro opened post
    refine ⟨⟨lit "notarisation", some (readPairs (notarisationPairs n))⟩, ?_, ?_⟩
    · rw [writeNotarisation_eq]
      exact WritingScanner.empty (writable_notarisation n)
    · rw [run_readNotarisation hname, Prod.mk.injEq, Except.ok.injEq,
        NotarisationV1.asRead_eq_self]
      exact and_iff_left rfl
  · intro kind supersedes text body hbody hplain
    simp only [composeRecord_eq_ok_iff]
    constructor
    · rintro ⟨xml, ⟨-, hunbroken, -, -, rfl, hfits⟩, -⟩
      exact ⟨hunbroken, hfits⟩
    · rintro ⟨hunbroken, hfits⟩
      have hread : readRecord (recordText kind company supersedes n (normaliseBody text)) = .ok _ :=
        readRecord_recordText hname hbody hplain hfits
      rw [NotarisationV1.asRead_eq_self.mpr hunbroken] at hread
      exact ⟨_, ⟨hname, hunbroken, ⟨body, hbody⟩, hplain, rfl, hfits⟩, hread⟩
  · intro m agenda hvalid
    constructor
    · rintro ⟨xml, hcompose, -⟩
      obtain ⟨hunbroken, rfl, hfits⟩ := (Meeting.composeConvened_eq_ok_iff hn hvalid).mp hcompose
      exact ⟨hunbroken, hfits⟩
    · rintro ⟨hunbroken, hfits⟩
      have hcompose : Meeting.composeConvened company n m agenda = .ok _ :=
        (Meeting.composeConvened_eq_ok_iff hn hvalid).mpr ⟨hunbroken, rfl, hfits⟩
      have hread : Meeting.readMeetingRecord (Meeting.convenedText company n m agenda) = .ok _ :=
        Meeting.readMeetingRecord_convenedText hname hvalid hfits
      rw [NotarisationV1.asRead_eq_self.mpr hunbroken.1,
        Meeting.MeetingMetadataV1.asRead_eq_self.mpr hunbroken.2.1,
        Meeting.AgendaV1.asRead_eq_self.mpr hunbroken.2.2] at hread
      exact ⟨_, hcompose, hread⟩
  · intro record agenda hvalid hagenda hreported
    constructor
    · rintro ⟨xml, hcompose, -⟩
      obtain ⟨hunbroken, rfl, hfits⟩ :=
        (Meeting.composeFinal_eq_ok_iff hn hvalid hagenda hreported).mp hcompose
      exact ⟨hunbroken, hfits⟩
    · rintro ⟨hunbroken, hfits⟩
      have hcompose : Meeting.composeFinal company n record = .ok _ :=
        (Meeting.composeFinal_eq_ok_iff hn hvalid hagenda hreported).mpr ⟨hunbroken, rfl, hfits⟩
      have hread : Meeting.readMeetingRecord (Meeting.finalText company n record) = .ok _ :=
        Meeting.readMeetingRecord_finalText hname hvalid hreported hfits
      rw [NotarisationV1.asRead_eq_self.mpr hunbroken.1,
        Meeting.MeetingFinalRecordV1.asRead_eq_self.mpr hunbroken.2] at hread
      exact ⟨_, hcompose, hread⟩
  · intro title authority kind channel htitle hchannel hnumbered hembeds
    have hiff (xml : Text) : composeResolution company n title authority kind = .ok xml ↔ _ :=
      composeResolution_eq_ok_iff hn htitle hchannel hnumbered hembeds
    constructor
    · rintro ⟨xml, hcompose, -⟩
      obtain ⟨hunbroken, rfl, hfits⟩ := (hiff xml).mp hcompose
      exact ⟨hunbroken, hfits⟩
    · rintro ⟨hunbroken, hfits⟩
      have hcompose := (hiff _).mpr ⟨hunbroken, rfl, hfits⟩
      exact ⟨_, hcompose, (composeResolution_eq_ok.mp hcompose).2.2.2.2.2⟩

end Written

section Samples

open Irena.Sample

attribute [local instance] platform

/-- A notary's statement of two lines. -/
def twoLines : NotarisationV1 :=
  { Sample.notarisation with statement := some (lit "first line\nsecond line") }

theorem written_unchanged_sample :
    (∃ body xml, composeRecord .identities Sample.company none Sample.notarisation (padded 0) =
        .ok xml ∧ readRecord xml = .ok ⟨Sample.company, none, Sample.notarisation, body⟩) ∧
    (∃ xml, Meeting.composeConvened Sample.company Sample.notarisation (metadata spring) agenda =
        .ok xml ∧ Meeting.readMeetingRecord xml =
          .ok ⟨Sample.company, Sample.notarisation, .convened (metadata spring) agenda⟩) ∧
    ∃ xml, composeResolution Sample.company Sample.notarisation (lit "Amend")
        (directorAuthority widenedXml) (.declarative Hash.zero) = .ok xml ∧
      readResolutionRecord xml = .ok ⟨Sample.company, Sample.notarisation, lit "Amend",
        directorAuthority widenedXml, .declarative Hash.zero⟩ := by
  have := Plain.scanner_documents
  have hn : Sample.notarisation.Unbroken := ⟨by decide +kernel, nofun, nofun⟩
  obtain ⟨-, hrecord, hconvened, -, hresolution⟩ :=
    written_unchanged_iff (n := Sample.notarisation) (by decide +kernel) Sample.company
  refine ⟨?_, ?_, ?_⟩
  · obtain ⟨xml, hxml⟩ := compose_padded 0
    obtain ⟨-, -, ⟨body, hbody⟩, hplain, rfl, hfits⟩ := composeRecord_eq_ok_iff.mp hxml
    exact ⟨body, (hrecord .identities none (padded 0) body hbody hplain).mpr ⟨hn, hfits⟩⟩
  · refine (hconvened (metadata spring) agenda (by decide +kernel)).mpr ⟨⟨hn, ?_, ?_⟩, ?_⟩
    · decide +kernel
    · decide +kernel
    · decide +kernel
  · refine (hresolution (lit "Amend") (directorAuthority widenedXml) (.declarative Hash.zero)
      directorId (by decide) rfl trivial trivial).mpr ⟨⟨hn, by decide +kernel⟩, by decide +kernel⟩

/-- A statement of two lines is valid, is written, and is refused when it is read back. -/
theorem twoLines_not_composed : twoLines.validate = .ok () ∧
    ∀ xml, composeRecord .identities Sample.company none twoLines (identitiesXml bob) ≠ .ok xml := by
  have := Plain.scanner_documents
  refine ⟨by decide +kernel, fun xml h => ?_⟩
  have hunbroken := (composeRecord_eq_ok_iff.mp h).2.1
  exact absurd (hunbroken.statement _ rfl) (by decide +kernel)

end Samples

section Captured

variable [Scanner] [DocumentScanner] {n : NotarisationV1}

/-- The body a resolution was composed around is read back byte for byte. That does not rest on the
comparison made when it is composed: a walk over the amendment ends where the embedded document
does, whatever stands in it. -/
theorem captured_exactly {company : CompanyIdV1} {title xml body : Text} {authority : AuthorityV1}
    {target : AmendmentTargetV1}
    (h : composeResolution company n title authority (.amendment target body) = .ok xml) :
    readResolutionRecord xml =
        .ok ⟨company, n, title, authority, .amendment target (normaliseBody body)⟩ ∧
      ∀ base post, captureBody.run ⟨lit "amendment" :: base,
          normaliseBody body ++ (lit "</" ++ lit "amendment" ++ lit ">" ++ post)⟩ =
        (.ok (normaliseBody body), ⟨base, post⟩) := by
  obtain ⟨-, -, ⟨channel, hchannel⟩, hvalid, rfl, hread⟩ := composeResolution_eq_ok.mp h
  refine ⟨hread, fun base post => ?_⟩
  obtain ⟨b, hbody⟩ := validateBody_eq_ok.mp (hvalid target (normaliseBody body) rfl)
  have hopens := opensUndeclared_of_read (hchannel ▸ plain_of_label channel.valid) hbody
    (mapErr_eq_ok.mp hread)
  exact run_captureBody hbody (trim_normaliseBody body) hopens base post

end Captured

section Samples

open Irena.Sample

attribute [local instance] platform

theorem captured_widened : ∃ xml, composeResolution Sample.company Sample.notarisation (lit "Amend")
      (directorAuthority widenedXml) (.amendment .shareStructure widenedXml) = .ok xml ∧
    readResolutionRecord xml = .ok ⟨Sample.company, Sample.notarisation, lit "Amend",
      directorAuthority widenedXml, .amendment .shareStructure (normaliseBody widenedXml)⟩ ∧
    ∀ base post, captureBody.run ⟨lit "amendment" :: base,
        normaliseBody widenedXml ++ (lit "</" ++ lit "amendment" ++ lit ">" ++ post)⟩ =
      (.ok (normaliseBody widenedXml), ⟨base, post⟩) := by
  have := Plain.scanner_documents
  have hcompose : ∃ xml, composeResolution Sample.company Sample.notarisation (lit "Amend")
      (directorAuthority widenedXml) (.amendment .shareStructure widenedXml) = .ok xml :=
    ⟨_, eq_ok_of_toOption (by decide +kernel)⟩
  obtain ⟨xml, hxml⟩ := hcompose
  exact ⟨xml, hxml, captured_exactly hxml⟩

end Samples


end Irena.Resolution
