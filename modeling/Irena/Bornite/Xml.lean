import Irena.Bornite.Rules
import Irena.Library.Markup
import Irena.Library.Numeral
import Mathlib.Data.Finset.Basic

/-! # Strict element readers

The reader of `<voting-rules>` and the helpers every document format of the repository reads with.
An unknown element or attribute ends the reading; problems of content are collected. Byte positions
and the scanner's own messages are left out of errors. -/

namespace Irena.Bornite

open Irena.Library Irena.Library.Outcome Irena.Library.Strings Irena.Library.Markup
open Irena.Library.Utf8

inductive XmlIssueV1 where
  | missingAttribute (element key : Text)
  | unusedAttribute (element key reason : Text)
  | invalidValue (element key value reason : Text)
  | missingElement (parent element : Text)
  | repeatedElement (parent element : Text)
  | core (element : Text) (error : CoreError)
deriving DecidableEq

/-- What a malformed document is reported for. -/
inductive Detail where
  | illFormed
  | badAttribute
  | unknownAttribute (element key : Text)
  | unknownKind (kind : Text)
  | message (text : Text)
deriving DecidableEq

/-- The refusals every document format shares. -/
class DocumentFault (φ : Type) where
  malformed : Detail → φ
  tooLarge : ℕ → ℕ → φ
  panicked : φ

export DocumentFault (malformed tooLarge panicked)

inductive XmlFault where
  | malformed (detail : Detail)
  | unsupportedVersion (found : Text)
  | tooLarge (found limit : ℕ)
  | panicked
deriving DecidableEq

instance : DocumentFault XmlFault := ⟨.malformed, .tooLarge, .panicked⟩

abbrev XmlError := Refusal XmlFault (Finset XmlIssueV1)

def describe : Event → Text
  | .start tag => lit "<" ++ tag.name ++ lit ">"
  | .empty tag => lit "<" ++ tag.name ++ lit ">"
  | .close name => lit "</" ++ name ++ lit ">"
  | .text _ => lit "text"
  | .cdata _ => lit "a CDATA section"
  | .comment _ => lit "a comment"
  | .declaration => lit "an XML declaration"
  | .instruction => lit "a processing instruction"
  | .doctype => lit "a doctype"
  | .reference _ => lit "an entity reference"
  | .eof => lit "the end of the document"

/-- The attributes of one element, each with whether it was taken. -/
structure Attributes where
  element : Text
  pairs : List (Text × Text × Bool)

/-- Reading the attributes of an element, collecting issues. -/
abbrev Reading (ι : Type) := StateM (Attributes × Finset ι)

namespace Attributes

variable {ι : Type} [DecidableEq ι]

/-- The value of the first attribute of a name, and the attributes with that one taken. -/
def takeFrom (name : Text) : List (Text × Text × Bool) → Option Text × List (Text × Text × Bool)
  | [] => (none, [])
  | (key, value, used) :: rest =>
    if key = name then (some value, (key, value, true) :: rest)
    else
      let (found, rest') := takeFrom name rest
      (found, (key, value, used) :: rest')

def take (name : Text) : Reading ι (Option Text) := fun (a, issues) =>
  let (found, pairs) := takeFrom name a.pairs
  (found, ⟨a.element, pairs⟩, issues)

def push (issue : ι) : Reading ι Unit := modify fun (a, issues) => (a, insert issue issues)

/-- Takes a required attribute, recording an issue if absent. -/
def requireWith (onMissing : XmlIssueV1 → ι) (name : Text) : Reading ι (Option Text) := do
  let value ← take name
  let (a, _) ← get
  if value = none then push (onMissing (.missingAttribute a.element name))
  return value

def require (name : Text) : Reading XmlIssueV1 (Option Text) := requireWith id name

/-- Records an issue if `name` is present, because it is meaningless here. -/
def forbid (reason name : Text) : Reading XmlIssueV1 Unit := do
  let value ← take name
  let (a, _) ← get
  if value ≠ none then push (.unusedAttribute a.element name reason)

/-- The first attribute nobody took. -/
def unknown (a : Attributes) : Option Text :=
  (a.pairs.find? fun (_, _, used) => !used).map Prod.fst

end Attributes

section Shared

variable [Scanner] {φ ι κ α σ : Type} [DocumentFault φ]

/-- Reads the attributes of a start tag whole: what `body` does not take is refused. -/
def readAttributes (element : Text) (tag : Tag) (issues : Finset ι) (body : Reading ι α) :
    Parse φ κ (α × Finset ι) :=
  match tag.attributes with
  | none => .fatal (malformed .badAttribute)
  | some pairs =>
    let (a, attributes, issues) := body (⟨element, pairs.map fun (k, v) => (k, v, false)⟩, issues)
    match attributes.unknown with
    | some key => .fatal (malformed (.unknownAttribute element key))
    | none => pure (a, issues)

/-- Attributes as reading finds them, none of them taken. -/
def untaken (pairs : List (Text × Text)) : List (Text × Text × Bool) :=
  pairs.map fun (k, v) => (k, v, false)

theorem readAttributes_bad {element : Text} {tag : Tag} {issues : Finset ι} {body : Reading ι α}
    (htag : tag.attributes = none) :
    (readAttributes element tag issues body : Parse φ κ (α × Finset ι)) =
      .fatal (malformed .badAttribute) := by
  unfold readAttributes
  rw [htag]

/-- A tag is refused for the first attribute that reading it did not take. -/
theorem readAttributes_unknown {element key : Text} {tag : Tag} {issues found : Finset ι}
    {body : Reading ι α} {pairs : List (Text × Text)} {a : α} {attributes : Attributes}
    (htag : tag.attributes = some pairs)
    (hbody : body (⟨element, untaken pairs⟩, issues) = (a, attributes, found))
    (hunknown : attributes.unknown = some key) :
    (readAttributes element tag issues body : Parse φ κ (α × Finset ι)) =
      .fatal (malformed (.unknownAttribute element key)) := by
  unfold untaken at hbody
  unfold readAttributes
  rw [htag]
  simp only [hbody, hunknown]

theorem readAttributes_known {element : Text} {tag : Tag} {issues found : Finset ι}
    {body : Reading ι α} {pairs : List (Text × Text)} {a : α} {attributes : Attributes}
    (htag : tag.attributes = some pairs)
    (hbody : body (⟨element, untaken pairs⟩, issues) = (a, attributes, found))
    (hunknown : attributes.unknown = none) :
    (readAttributes element tag issues body : Parse φ κ (α × Finset ι)) = pure (a, found) := by
  unfold untaken at hbody
  unfold readAttributes
  rw [htag]
  simp only [hbody, hunknown]

/-- Refuses every attribute. -/
def noAttributes (element : Text) (tag : Tag) : Parse φ κ Unit := do
  let _ ← readAttributes (ι := Empty) element tag ∅ (pure ())

/-- How the loop over the children of `parent` refuses. -/
def reasonsIn (parent : Text) : Parse.Reasons φ where
  illFormed := malformed .illFormed
  unexpected e :=
    malformed (.message (lit "unexpected " ++ describe e ++ lit " in <" ++ parent ++ lit ">"))

def unknownChild (parent child : Text) : Parse φ κ α :=
  .fatal (malformed (.message
    (lit "<" ++ parent ++ lit "> has an unknown child <" ++ child ++ lit ">")))

/-- Consumes events up to the end tag of an element that must be empty. -/
def expectEmpty (element : Text) : Parse φ κ Unit :=
  let found (e : Event) : φ :=
    malformed (.message (lit "<" ++ element ++ lit "> must be empty, found " ++ describe e))
  Parse.children ⟨malformed .illFormed, found⟩
    (fun _ tag isEmpty => .fatal (found (if isEmpty then .empty tag else .start tag))) ()

/-- Consumes the end tag of a leaf, if it has one. -/
def expectLeaf (element : Text) (isEmpty : Bool) : Parse φ κ Unit :=
  if isEmpty then pure () else expectEmpty element

/-- Ends the reading of an element unless nothing was collected. -/
def finishIssues [DecidableEq ι] (issues : Finset ι) : Parse φ (Finset ι) Unit :=
  if issues = ∅ then pure () else .invalid issues

/-- A value the reading has established; its absence would be a failed expectation. -/
def expectSome (value : Option α) : Parse φ κ α :=
  match value with
  | some a => pure a
  | none => .fatal panicked

/-- A reader at the start of a document, past a byte order mark. -/
def openDocument (xml : Text) : Reader := ⟨[], (stripPrefix xml [Char.ofNat 0xFEFF]).getD xml⟩

def prolog : Event → Bool
  | .declaration => true
  | .comment _ => true
  | .text _ => true
  | .instruction => true
  | _ => false

def epilog : Event → Bool
  | .text _ => true
  | .comment _ => true
  | _ => false

/-- Reads past the prolog to a root that must have content. -/
def rootStart (expected : Text) (r : Reader) : Except (Refusal φ κ) (Tag × Reader) :=
  match Parse.skip prolog r with
  | none => .error (.fatal (malformed .illFormed))
  | some (.start root, r') =>
    if root.name = expected then .ok (root, r')
    else .error (.fatal (malformed (.message
      (lit "expected a <" ++ expected ++ lit "> root, found <" ++ root.name ++ lit ">"))))
  | some (.empty root, _) =>
    if root.name = expected then
      .error (.fatal (malformed (.message (lit "<" ++ expected ++ lit "> must have content"))))
    else .error (.fatal (malformed (.message
      (lit "expected a <" ++ expected ++ lit "> root, found <" ++ root.name ++ lit ">"))))
  | some (.eof, _) => .error (.fatal (malformed (.message (lit "document is empty"))))
  | some (e, _) =>
    .error (.fatal (malformed (.message
      (lit "unexpected " ++ describe e ++ lit " before the root"))))

/-- Reads past the prolog to a root that may be an empty-element tag. -/
def rootOf (name : Text) (r : Reader) : Except (Refusal φ κ) (Tag × Bool × Reader) :=
  let wrong (e : Event) : Except (Refusal φ κ) (Tag × Bool × Reader) :=
    .error (.fatal (malformed (.message
      (lit "expected a <" ++ name ++ lit "> root, found " ++ describe e))))
  match Parse.skip prolog r with
  | none => .error (.fatal (malformed .illFormed))
  | some (.start root, r') => if root.name = name then .ok (root, false, r') else wrong (.start root)
  | some (.empty root, r') => if root.name = name then .ok (root, true, r') else wrong (.empty root)
  | some (e, _) => wrong e

def expectEof (r : Reader) : Except (Refusal φ κ) Unit :=
  match Parse.skip epilog r with
  | none => .error (.fatal (malformed .illFormed))
  | some (.eof, _) => .ok ()
  | some (e, _) =>
    .error (.fatal (malformed (.message
      (lit "trailing " ++ describe e ++ lit " after the root"))))

def checkSize (xml : Text) (maxBytes : ℕ) : Except (Refusal φ κ) Unit :=
  ensure (byteLength xml ≤ maxBytes) (.fatal (tooLarge (byteLength xml) maxBytes))

end Shared

/-- The option a value names. -/
def enumValue {α : Type} (key : Text) (options : List (Text × α)) (allowed : Text)
    (value : Text) : Reading XmlIssueV1 (Option α) := do
  match options.find? fun (name, _) => name == value with
  | some (_, parsed) => return some parsed
  | none =>
    let (a, _) ← get
    Attributes.push (.invalidValue a.element key value (lit "expected one of " ++ allowed))
    return none

def boolValue (key value : Text) : Reading XmlIssueV1 (Option Bool) := do
  if value = lit "true" then return some true
  else if value = lit "false" then return some false
  else
    let (a, _) ← get
    Attributes.push (.invalidValue a.element key value (lit "expected true or false"))
    return none

/-- A decimal integer in 64 bits; digits only, so a sign is refused. -/
def parseU64 (text : Text) : Option U64 :=
  match ofDecimal text with
  | some n => if h : n ≤ u64Max then some ⟨n, h⟩ else none
  | none => none

def u64Value (key value : Text) : Reading XmlIssueV1 (Option U64) := do
  match parseU64 value with
  | some number => return some number
  | none =>
    let (a, _) ← get
    Attributes.push
      (.invalidValue a.element key value (lit "expected a non-negative integer"))
    return none

/-- A built value, or its refusal recorded against the element. -/
def coreValue {α : Type} (result : Except CoreError α) : Reading XmlIssueV1 (Option α) := do
  match result with
  | .ok a => return some a
  | .error e =>
    let (a, _) ← get
    Attributes.push (.core a.element e)
    return none

/-- Goes on with a value that is there. -/
def andThen {ι α β : Type} (value : Option α) (f : α → Reading ι (Option β)) :
    Reading ι (Option β) :=
  match value with
  | some a => f a
  | none => pure none

def weightAttributes : Reading XmlIssueV1 (Option WeightRuleV1) := do
  andThen (← Attributes.require (lit "type")) <|
    enumValue (lit "type") [(lit "equal", .equal), (lit "electorate", .electorate)]
      (lit "equal, electorate")

def exclusionsAttributes : Reading XmlIssueV1 (Option Bool) := do
  andThen (← Attributes.require (lit "enabled")) (boolValue (lit "enabled"))

/-- A proportion from the attributes `numerator` and `denominator`. -/
def proportionOf (numerator denominator : Option U64) {α β : Type}
    (basis : Option α) (make : FractionV1 → α → β) : Reading XmlIssueV1 (Option β) := do
  match numerator, denominator, basis with
  | some n, some d, some basis =>
    let fraction ← coreValue (FractionV1.proportion n d)
    return fraction.map fun fraction => make fraction basis
  | _, _, _ => return none

def quorumAttributes : Reading XmlIssueV1 (Option QuorumRuleV1) := do
  let kind ← Attributes.require (lit "type")
  let drain : Reading XmlIssueV1 Unit :=
    [lit "weight", lit "numerator", lit "denominator", lit "basis"].forM fun name => do
      let _ ← Attributes.take name
  match kind with
  | none =>
    drain
    return none
  | some kind =>
    if kind = lit "none" then
      [lit "weight", lit "numerator", lit "denominator", lit "basis"].forM
        (Attributes.forbid (lit "type is none"))
      return some .none
    else if kind = lit "absolute" then
      [lit "numerator", lit "denominator", lit "basis"].forM
        (Attributes.forbid (lit "type is absolute"))
      let weight ← andThen (← Attributes.require (lit "weight")) (u64Value (lit "weight"))
      let weight ← andThen weight fun w => coreValue (WeightV1.new w)
      return weight.map .absolute
    else if kind = lit "fraction" then
      Attributes.forbid (lit "type is fraction") (lit "weight")
      let numerator ← andThen (← Attributes.require (lit "numerator")) (u64Value (lit "numerator"))
      let denominator ←
        andThen (← Attributes.require (lit "denominator")) (u64Value (lit "denominator"))
      let basis ← andThen (← Attributes.require (lit "basis")) <|
        enumValue (lit "basis")
          [(lit "total-electorate", .totalElectorate),
            (lit "effective-electorate", .effectiveElectorate)]
          (lit "total-electorate, effective-electorate")
      proportionOf numerator denominator basis .fraction
    else
      Attributes.push (.invalidValue (lit "quorum") (lit "type") kind
        (lit "expected one of none, absolute, fraction"))
      drain
      return none

def thresholdAttributes : Reading XmlIssueV1 (Option ThresholdRuleV1) := do
  let kind ← Attributes.require (lit "type")
  let basis ← andThen (← Attributes.require (lit "basis")) <|
    enumValue (lit "basis")
      [(lit "votes-cast", ThresholdBasisV1.votesCast),
        (lit "effective-electorate", .effectiveElectorate),
        (lit "total-electorate", .totalElectorate)]
      (lit "votes-cast, effective-electorate, total-electorate")
  let drain : Reading XmlIssueV1 Unit :=
    [lit "numerator", lit "denominator"].forM fun name => do
      let _ ← Attributes.take name
  match kind with
  | none =>
    drain
    return none
  | some kind =>
    if kind = lit "simple-majority" then
      [lit "numerator", lit "denominator"].forM
        (Attributes.forbid (lit "type is simple-majority"))
      return basis.map .simpleMajority
    else if kind = lit "fraction" then
      let numerator ← andThen (← Attributes.require (lit "numerator")) (u64Value (lit "numerator"))
      let denominator ←
        andThen (← Attributes.require (lit "denominator")) (u64Value (lit "denominator"))
      proportionOf numerator denominator basis .fraction
    else
      Attributes.push (.invalidValue (lit "threshold") (lit "type") kind
        (lit "expected one of simple-majority, fraction"))
      drain
      return none

def abstentionsAttributes : Reading XmlIssueV1 (Option AbstentionTreatmentV1) := do
  andThen (← Attributes.require (lit "treatment")) <|
    enumValue (lit "treatment") [(lit "exclude", .excluded), (lit "include", .included)]
      (lit "exclude, include")

def tieAttributes : Reading XmlIssueV1 (Option TieTreatmentV1) := do
  andThen (← Attributes.require (lit "treatment")) <|
    enumValue (lit "treatment") [(lit "reject", .reject), (lit "accept", .accept)]
      (lit "reject, accept")

/-- The children met so far, each with its value where that is valid. -/
structure RuleSlots where
  weight : Option (Option WeightRuleV1)
  exclusions : Option (Option Bool)
  quorum : Option (Option QuorumRuleV1)
  threshold : Option (Option ThresholdRuleV1)
  abstentions : Option (Option AbstentionTreatmentV1)
  tie : Option (Option TieTreatmentV1)
  issues : Finset XmlIssueV1

/-- Fills an empty slot; a filled one is kept, and the repetition recorded. -/
def setOnce {α : Type} (slot : Option (Option α)) (element : Text) (value : Option α)
    (issues : Finset XmlIssueV1) : Option (Option α) × Finset XmlIssueV1 :=
  match slot with
  | some _ => (slot, insert (.repeatedElement (lit "voting-rules") element) issues)
  | none => (some value, issues)

variable [Scanner]

abbrev XmlParse := Parse XmlFault (Finset XmlIssueV1)

/-- One leaf child: its attributes, its slot, and its end tag. -/
def parseRule {α : Type} (element : Text) (body : Reading XmlIssueV1 (Option α)) (tag : Tag)
    (isEmpty : Bool) (slots : RuleSlots) (get : RuleSlots → Option (Option α))
    (set : Option (Option α) → Finset XmlIssueV1 → RuleSlots) : XmlParse RuleSlots := do
  let (value, issues) ← readAttributes element tag slots.issues body
  let (slot, issues) := setOnce (get slots) element value issues
  expectLeaf element isEmpty
  return set slot issues

def parseRuleChild (s : RuleSlots) (tag : Tag) (isEmpty : Bool) : XmlParse RuleSlots :=
  if tag.name = lit "weight" then
    parseRule (lit "weight") weightAttributes tag isEmpty s RuleSlots.weight
      fun weight issues => { s with weight, issues }
  else if tag.name = lit "exclusions" then
    parseRule (lit "exclusions") exclusionsAttributes tag isEmpty s RuleSlots.exclusions
      fun exclusions issues => { s with exclusions, issues }
  else if tag.name = lit "quorum" then
    parseRule (lit "quorum") quorumAttributes tag isEmpty s RuleSlots.quorum
      fun quorum issues => { s with quorum, issues }
  else if tag.name = lit "threshold" then
    parseRule (lit "threshold") thresholdAttributes tag isEmpty s RuleSlots.threshold
      fun threshold issues => { s with threshold, issues }
  else if tag.name = lit "abstentions" then
    parseRule (lit "abstentions") abstentionsAttributes tag isEmpty s RuleSlots.abstentions
      fun abstentions issues => { s with abstentions, issues }
  else if tag.name = lit "tie" then
    parseRule (lit "tie") tieAttributes tag isEmpty s RuleSlots.tie
      fun tie issues => { s with tie, issues }
  else unknownChild (lit "voting-rules") tag.name

/-- An issue for each part that is not present. -/
def missingElements {ι : Type} [DecidableEq ι] (missing : Text → Text → ι) (parent : Text)
    (parts : List (Bool × Text)) : Finset ι :=
  ((parts.filter fun (present, _) => !present).map
    fun (_, element) => missing parent element).toFinset

def RuleSlots.missing (s : RuleSlots) : Finset XmlIssueV1 :=
  missingElements .missingElement (lit "voting-rules")
    [(s.weight.isSome, lit "weight"), (s.exclusions.isSome, lit "exclusions"),
      (s.quorum.isSome, lit "quorum"), (s.threshold.isSome, lit "threshold"),
      (s.abstentions.isSome, lit "abstentions"), (s.tie.isSome, lit "tie")]

def xmlVersion : Text := lit "1.0"

def checkVersion (version : Option Text) : XmlParse Unit :=
  match version with
  | none => pure ()
  | some found => if found = xmlVersion then pure () else .fatal (.unsupportedVersion found)

/-- Parses a `<voting-rules>` element whose start tag has been read. -/
def parseVotingRules (tag : Tag) : XmlParse VotingRulesV1 := do
  let (version, issues) ←
    readAttributes (lit "voting-rules") tag ∅ (Attributes.require (lit "version"))
  checkVersion version
  let s ← Parse.children (reasonsIn (lit "voting-rules")) parseRuleChild
    ⟨none, none, none, none, none, none, issues⟩
  finishIssues (s.issues ∪ s.missing)
  return {
    weight := ← expectSome s.weight.join
    exclusionsEnabled := ← expectSome s.exclusions.join
    quorum := ← expectSome s.quorum.join
    threshold := ← expectSome s.threshold.join
    abstentions := ← expectSome s.abstentions.join
    tie := ← expectSome s.tie.join }

end Irena.Bornite
