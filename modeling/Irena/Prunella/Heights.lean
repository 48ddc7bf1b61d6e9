import Irena.Prunella.Reading
import Irena.Sample.Documents

/-! # The heights of a document

The reader panics in one place: where a block follows one at the last height of 64 bits. -/

namespace Irena.Prunella.Read

open Irena.Library Irena.Library.Outcome Irena.Library.Strings Irena.Library.Markup
open Irena.Library.Markup.Reads

theorem ends_integer (most : ℕ) (name value : Text) :
    Outcome.Ends (integer most name value) (· ≤ most) Refused := by
  unfold integer
  split
  · split
    · assumption
    · simp [Refused]
  · simp [Refused]

theorem ends_hexBytes (kind text : Text) :
    Outcome.Ends (hexBytes kind text) (fun _ => True) Refused := by
  unfold hexBytes
  split
  · split
    · simp [Refused]
    · exact (ends_orError fun _ => by simp [Refused]).mono fun _ _ => trivial
  · simp [Refused]

theorem ends_hashFromHex (text : Text) :
    Outcome.Ends (hashFromHex text) (fun _ => True) Refused := (ends_hexBytes _ _).map

theorem ends_txIdFromHex (text : Text) :
    Outcome.Ends (txIdFromHex text) (fun _ => True) Refused := (ends_hexBytes _ _).map

theorem ends_core {α : Type} {x : Except CoreError α} :
    Outcome.Ends (mapErr ReadError.core x) (fun _ => True) Refused := by
  cases x
  · exact fun h => nomatch h
  · trivial

theorem ends_require {α : Type} {value : Option α} {element key : Text} :
    Outcome.Ends (require value element key) (fun a => value = some a) Refused :=
  ends_orError fun _ => by simp [Refused]

theorem ends_unknownAttribute {α : Type} {Q : α → Prop} {element key : Text} :
    Outcome.Ends (unknownAttribute element key) Q Refused := by
  simp [unknownAttribute, Refused]

theorem ends_attributes {tag : Tag} :
    Outcome.Ends (attributes tag) (fun _ => True) Refused :=
  (ends_orError fun _ => by simp [Refused]).mono fun _ _ => trivial

/-- What every attribute keeps holds of all of them. -/
theorem ends_readAttributes {σ : Type} {I : σ → Prop} {tag : Tag}
    {onAttribute : σ → Text → Text → Except ReadError σ} {s : σ}
    (h : ∀ s name value, I s → Outcome.Ends (onAttribute s name value) I Refused) (hs : I s) :
    Outcome.Ends (readAttributes tag onAttribute s) I Refused :=
  ends_attributes.bind fun _ _ => ends_foldlM (fun s _ hs => h s _ _ hs) hs

theorem ends_unexpectedChild {α : Type} {Q : α → Prop} {child : Tag} {isEmpty : Bool} :
    Outcome.Ends (unexpectedChild child isEmpty) Q Refused := by
  simp [unexpectedChild, unexpected, malformed, Refused]

theorem ends_fixed {α : Type} {width : ℕ} {codec : Codec α} {bytes : Bytes} :
    Outcome.Ends (fixed width codec bytes) (fun _ => True) Refused := by
  unfold fixed
  split
  · exact (ends_orError fun _ => by simp [malformed, Refused]).mono fun _ _ => trivial
  · simp [malformed, Refused]

theorem ends_nestedStep {s : Nested} {before after : ℕ} {e : Event} :
    Outcome.Ends (nestedStep s before e after) (fun _ => True) Refused := by
  unfold nestedStep
  cases e <;> dsimp only <;> repeat' split
  all_goals simp [secondElement, malformed, Refused]

theorem ends_checkSize {s : Nested} :
    Outcome.Ends s.checkSize (fun _ => True) Refused := by
  unfold Nested.checkSize
  split
  · exact (ends_ensure fun _ => by simp [Refused]).mono fun _ _ => trivial
  · trivial

theorem ends_noAttributes {tag : Tag} {name : Text} :
    Outcome.Ends (noAttributes tag name) (fun _ => True) Refused := by
  refine ends_attributes.bind fun pairs _ => ?_
  cases pairs with
  | nil => trivial
  | cons => exact ends_unknownAttribute

theorem ends_payloadEncoding {p : Context} {tag : Tag} :
    Outcome.Ends (payloadEncoding p tag) (fun _ => True) Refused := by
  refine (ends_readAttributes (I := fun _ => True) (fun s name value _ => ?_) trivial).bind
    fun _ _ => trivial
  unfold encodingAttribute
  split
  · exact (ends_orError fun _ => by simp [Refused]).bind fun _ _ => trivial
  · exact ends_unknownAttribute

theorem ends_unknownElement {α : Type} {Q : α → Prop} {parent element : Text} :
    Outcome.Ends (unknownElement parent element) Q Refused := by
  simp [unknownElement, Refused]

theorem ends_transactionStart {tag : Tag} {index : ℕ} :
    Outcome.Ends (transactionStart tag index) (fun _ => True) Refused := by
  refine (ends_readAttributes (I := fun _ => True) (fun s name value _ => ?_) trivial).bind
    fun s _ => ends_require.bind fun _ _ => ?_
  · unfold transactionAttribute
    refine Outcome.ends_ite (fun _ => (ends_integer _ _ _).bind fun _ _ => trivial) fun _ => ?_
    refine Outcome.ends_ite (fun _ => (ends_txIdFromHex _).bind fun _ _ => trivial) fun _ => ?_
    refine Outcome.ends_ite (fun _ => ends_core.bind fun _ _ => trivial) fun _ => ?_
    refine Outcome.ends_ite (fun _ => (ends_integer _ _ _).bind fun _ _ => trivial) fun _ => ?_
    refine Outcome.ends_ite (fun _ => (ends_integer _ _ _).bind fun _ _ => trivial) fun _ => ?_
    exact ends_unknownAttribute
  · exact (ends_ensure fun _ => by simp [malformed, Refused]).bind fun _ _ => trivial

theorem ends_transactionOf {s : TransactionSlots} {parts : Parts} :
    Outcome.Ends (transactionOf s parts) (fun _ => True) Refused := by
  have hpart {β : Type} {o : Option β} {element : Text} :
      Outcome.Ends (orError o (ReadError.malformed (.missingElement (lit "transaction") element)))
        (fun a => o = some a) Refused :=
    ends_orError fun _ => by simp [Refused]
  exact ends_require.bind fun _ _ => ends_require.bind fun _ _ => ends_require.bind fun _ _ =>
    hpart.bind fun _ _ => hpart.bind fun _ _ => ends_require.bind fun _ _ =>
      hpart.bind fun _ _ => trivial

theorem ends_header {tag : Tag} {height : ℕ} {networkId : NetworkId} :
    Outcome.Ends (header tag height networkId) (fun h => h.height = height) Refused := by
  refine (ends_readAttributes (I := fun _ => True) (fun s name value _ => ?_) trivial).bind
    fun s _ => ?_
  · unfold headerAttribute
    refine Outcome.ends_ite (fun _ => (ends_integer _ _ _).bind fun _ _ => trivial) fun _ => ?_
    refine Outcome.ends_ite (fun _ => (ends_hashFromHex _).bind fun _ _ => trivial) fun _ => ?_
    refine Outcome.ends_ite (fun _ => (ends_hashFromHex _).bind fun _ _ => trivial) fun _ => ?_
    refine Outcome.ends_ite (fun _ => (ends_integer _ _ _).bind fun _ _ => trivial) fun _ => ?_
    refine Outcome.ends_ite (fun _ => (ends_integer _ _ _).bind fun _ _ => trivial) fun _ => ?_
    exact ends_unknownAttribute
  · exact ends_require.bind fun _ _ => ends_require.bind fun _ _ => ends_require.bind fun _ _ =>
      ends_require.bind fun _ _ => ends_require.bind fun _ _ => rfl

theorem ends_blockStart {tag : Tag} :
    Outcome.Ends (blockStart tag) (fun x => x.1 ≤ u64Max) Refused := by
  refine (ends_readAttributes (I := fun s => ∀ h, s.height = some h → h ≤ u64Max)
    (fun s name value hs => ?_) (by simp)).bind fun s hs => ?_
  · unfold blockAttribute
    split_ifs
    · refine (ends_integer _ _ _).bind fun n hn => ?_
      rintro h ⟨⟩
      exact hn
    · exact (ends_hashFromHex _).bind fun _ _ => hs
    · exact ends_unknownAttribute
  · exact ends_require.bind fun height hheight => ends_require.bind fun _ _ => hs height hheight

section Reader

variable [DocumentPlatform] {α σ : Type} {p : Context}

theorem ends_binaryText {name : Text} :
    Reads.Ends (binaryText p name) (fun _ => True) Refused := by
  refine (ends_loop (I := fun _ => True) (Q := fun _ => True) (by simp [Refused])
    (fun text _ => ends_event.bind fun e _ => ?_) trivial).bind fun text _ => ends_lift ?_
  · cases e with
    | text chunk => exact ends_pure trivial
    | cdata chunk => exact ends_pure trivial
    | comment chunk => exact ends_pure trivial
    | close name => exact ends_pure trivial
    | _ => exact ends_throw (by simp [malformed, Refused])
  · refine (ends_ensure fun _ => by simp [Refused]).bind fun _ _ => ?_
    exact (ends_orError fun _ => by simp [Refused]).mono fun _ _ => trivial

theorem ends_position : Reads.Ends (position p) (fun _ => True) Refused := fun _ => trivial

theorem ends_cutOut {element : Option (ℕ × ℕ)} :
    Outcome.Ends (cutOut p element) (fun _ => True) Refused := by
  refine (ends_orError fun _ => by simp [malformed, Refused]).bind fun span _ => ?_
  refine (ends_orError fun _ => by simp [malformed, Refused]).bind fun bytes _ => ?_
  exact (ends_ensure fun _ => by simp [malformed, Refused]).bind fun _ _ => trivial

theorem ends_nestedPayload : Reads.Ends (nestedPayload p) (fun _ => True) Refused := by
  refine (ends_loop (I := fun _ => True) (Q := fun _ => True) (by simp [Refused])
    (fun s _ => ?_) trivial).bind fun element _ => ends_lift ends_cutOut
  refine ends_position.bind fun before _ => ends_rawEvent.bind fun next _ => ?_
  refine ends_position.bind fun after _ => (ends_lift ends_nestedStep).bind fun left _ => ?_
  cases left with
  | none => exact ends_pure trivial
  | some s' => exact (ends_lift ends_checkSize).bind fun _ _ => ends_pure trivial

theorem ends_field {s : Parts} {child : Tag} {isEmpty : Bool} :
    Reads.Ends (field p s child isEmpty) (fun _ => True) Refused := by
  unfold field
  cases isEmpty with
  | true =>
    refine ends_lift ?_
    unfold emptyField
    split_ifs
    · exact ends_noAttributes.bind fun _ _ => ends_fixed.bind fun _ _ => trivial
    · refine ends_payloadEncoding.bind fun _ _ => ?_
      exact (ends_ensure fun _ => by simp [malformed, Refused]).bind fun _ _ => trivial
    · exact ends_noAttributes.bind fun _ _ => ends_fixed.bind fun _ _ => trivial
    · exact ends_unknownElement
  | false =>
    unfold startField
    simp only [Bool.false_eq_true, if_false]
    split_ifs
    · refine (ends_lift ends_noAttributes).bind fun _ _ => ends_binaryText.bind fun _ _ => ?_
      exact (ends_lift ends_fixed).bind fun _ _ => ends_pure trivial
    · refine (ends_lift ends_payloadEncoding).bind fun encoding _ => ?_
      cases encoding with
      | base64 => exact ends_binaryText.bind fun _ _ => ends_pure trivial
      | xml => exact ends_nestedPayload.bind fun _ _ => ends_pure trivial
    · refine (ends_lift ends_noAttributes).bind fun _ _ => ends_binaryText.bind fun _ _ => ?_
      exact (ends_lift ends_fixed).bind fun _ _ => ends_pure trivial
    · exact ends_lift ends_unknownElement

theorem ends_transaction {tag : Tag} {index : ℕ} :
    Reads.Ends (transaction p tag index) (fun _ => True) Refused :=
  (ends_lift ends_transactionStart).bind fun _ _ =>
    (ends_children (I := fun _ => True) (fun _ _ _ _ => ends_field) trivial).bind fun _ _ =>
      ends_lift ends_transactionOf

theorem ends_transactions : Reads.Ends (transactions p) (fun _ => True) Refused := by
  refine ends_children (fun ts child isEmpty _ => ?_) trivial
  unfold onTransaction
  split
  · refine (ends_lift (ends_ensure fun _ => by simp [Refused])).bind fun _ _ => ?_
    refine (ends_lift (ends_ensure fun _ => by simp [malformed, Refused])).bind fun _ _ => ?_
    exact ends_transaction.bind fun _ _ => ends_pure trivial
  · exact ends_lift ends_unexpectedChild

theorem ends_onBlockChild {height : ℕ} {networkId : NetworkId} {s : BlockParts} {child : Tag}
    {isEmpty : Bool} (hs : ∀ h, s.header = some h → h.height = height) :
    Reads.Ends (onBlockChild p height networkId s child isEmpty)
      (fun s => ∀ h, s.header = some h → h.height = height) Refused := by
  unfold onBlockChild
  split
  · refine (ends_lift ends_header).bind fun h hh => ends_pure ?_
    rintro _ ⟨⟩
    exact hh
  · split
    · refine (ends_lift (ends_readAttributes (I := fun _ => True) (fun _ _ _ _ => ?_) trivial)).bind
        fun _ _ => ?_
      · split
        · trivial
        · exact ends_unknownAttribute
      · cases isEmpty with
        | true => exact ends_pure hs
        | false => exact ends_transactions.bind fun _ _ => ends_pure hs
    · exact ends_lift ends_unexpectedChild

/-- A block's height is a 64-bit integer. -/
theorem ends_block {tag : Tag} {networkId : NetworkId} :
    Reads.Ends (block p tag networkId) (fun entry => entry.block.header.height ≤ u64Max)
      Refused := by
  refine (ends_lift ends_blockStart).bind fun start hstart => ?_
  refine (ends_children (fun _ _ _ => ends_onBlockChild) (by simp)).bind fun s hs => ?_
  refine (ends_lift ends_require).bind fun h hh => ?_
  refine (ends_lift (ends_orError fun _ => by simp [malformed, Refused])).bind fun _ _ => ?_
  refine ends_pure ?_
  rw [hs h hh]
  exact hstart

/-- Everything outside the blocks is refused at worst. -/
theorem ends_prolog : Reads.Ends (loop onProlog ()) (fun _ => True) Refused := by
  refine ends_loop (I := fun _ => True) (by simp [Refused]) (fun _ _ => ?_) trivial
  refine ends_rawEvent.bind fun next _ => ?_
  rcases next with ⟨bound, e⟩
  cases e with
  | declaration => exact ends_pure trivial
  | text t => exact ends_pure trivial
  | comment t => exact ends_pure trivial
  | start tag => exact ends_pure trivial
  | empty tag => exact ends_throw (by simp [malformed, Refused])
  | eof => exact ends_throw (by simp [malformed, Refused])
  | _ => exact ends_lift (by simp [unexpected, malformed, Refused])

theorem ends_epilog : Reads.Ends (loop (onEpilog p) ()) (fun _ => True) Refused := by
  refine ends_loop (I := fun _ => True) (by simp [Refused]) (fun _ _ => ?_) trivial
  refine ends_event.bind fun e _ => ?_
  cases e with
  | eof => exact ends_pure trivial
  | text t => exact ends_pure trivial
  | comment t => exact ends_pure trivial
  | declaration => exact ends_pure trivial
  | _ => exact ends_throw (by simp [malformed, Refused])

omit [DocumentPlatform] in
theorem ends_rootAttributes {tag : Tag} :
    Outcome.Ends (rootAttributes tag) (fun _ => True) Refused := by
  refine (ends_readAttributes (I := fun _ => True) (fun s name value _ => ?_) trivial).bind
    fun s _ => ?_
  · unfold rootAttribute
    refine Outcome.ends_ite (fun _ => (ends_ensure fun _ => by simp [Refused]).bind
      fun _ _ => trivial) fun _ => ?_
    refine Outcome.ends_ite (fun _ => (ends_integer _ _ _).bind fun _ _ => trivial) fun _ => ?_
    refine Outcome.ends_ite (fun _ => (ends_orError fun _ => by simp [Refused]).bind
      fun _ _ => trivial) fun _ => ?_
    refine Outcome.ends_ite (fun _ => ends_core.bind fun _ _ => trivial) fun _ => ?_
    refine Outcome.ends_ite (fun _ => (ends_hashFromHex _).bind fun _ _ => trivial) fun _ => ?_
    refine Outcome.ends_ite (fun _ => (ends_integer _ _ _).bind fun _ _ => trivial) fun _ => ?_
    refine Outcome.ends_ite (fun _ => (ends_integer _ _ _).bind fun _ _ => trivial) fun _ => ?_
    refine Outcome.ends_ite (fun _ => (ends_integer _ _ _).bind fun _ _ => trivial) fun _ => ?_
    refine Outcome.ends_ite (fun _ => (ends_integer _ _ _).bind fun _ _ => trivial) fun _ => ?_
    exact ends_unknownAttribute
  · refine ends_require.bind fun _ _ => (ends_ensure fun _ => by simp [Refused]).bind fun _ _ => ?_
    refine ends_require.bind fun _ _ => ends_require.bind fun _ _ => ?_
    refine (ends_ensure fun _ => by simp [malformed, Refused]).bind fun _ _ => ?_
    refine (ends_orError fun _ => by simp [malformed, Refused]).bind fun _ _ => ?_
    refine ends_require.bind fun _ _ => ?_
    refine (ends_ensure fun _ => by simp [malformed, Refused]).bind fun _ _ => ?_
    refine (ends_ensure fun _ => by simp [Refused]).bind fun _ _ => ?_
    exact ends_require.bind fun _ _ => ends_require.bind fun _ _ => ends_require.bind fun _ _ =>
      ends_require.bind fun _ _ => trivial

omit [DocumentPlatform] in
theorem ends_rootContext {source : Text} {root : Tag} {bound : Option Text} :
    Outcome.Ends (rootContext source root bound) (fun _ => True) Refused := by
  refine (ends_ensure fun _ => by simp [malformed, Refused]).bind fun _ _ => ?_
  refine ends_rootAttributes.bind fun _ _ => ?_
  refine (ends_orError fun _ => by simp [malformed, Refused]).bind fun _ _ => ?_
  exact (ends_ensure fun _ => by simp [malformed, Refused]).bind fun _ _ => trivial

def heights (entries : List DocumentBlock) : List ℕ :=
  entries.map fun entry => entry.block.header.height

/-- From `c₀` on, the markup up to a cursor reads as the blocks `entries` of a document. -/
inductive Blocks (p : Context) (networkId : NetworkId) (c₀ : Cursor) :
    List DocumentBlock → Cursor → Prop
  | start : Blocks p networkId c₀ [] c₀
  | passed {entries c c' e} : Blocks p networkId c₀ entries c → event p c = .ok (e, c') →
      passedOver e = true → Blocks p networkId c₀ entries c'
  | projection {entries c c' child filter} : Blocks p networkId c₀ entries c →
      event p c = .ok (.empty child, c') → localName child.name = lit "projection" →
      projection child = .ok filter → Blocks p networkId c₀ entries c'
  | block {entries c c₁ c' child entry} : Blocks p networkId c₀ entries c →
      event p c = .ok (.start child, c₁) → localName child.name = lit "block" →
      block p child networkId c₁ = .ok (entry, c') → Blocks p networkId c₀ (entries ++ [entry]) c'

variable {networkId : NetworkId}

theorem onRootChild_ok {s s' : Body} {child : Tag} {isEmpty : Bool} {c c' : Cursor} :
    onRootChild p networkId s child isEmpty c = .ok (s', c') ↔
      (isEmpty = true ∧ localName child.name = lit "projection" ∧ c' = c ∧
        ∃ filter, projection child = .ok filter ∧ s' = { s with projection := some filter }) ∨
      (isEmpty = false ∧ localName child.name = lit "block" ∧ s.blocks.length < maxBlocks ∧
        ∃ entry, block p child networkId c = .ok (entry, c') ∧
          checkHeight s.previous entry.block.header.height = .ok () ∧
          s' = { s with
            blocks := s.blocks ++ [entry], previous := some entry.block.header.height }) := by
  unfold onRootChild
  by_cases hprojection : isEmpty = true ∧ localName child.name = lit "projection"
  · obtain ⟨rfl, hname⟩ := hprojection
    simp only [hname, true_and, if_true, bind_ok, lift_ok, pure_ok]
    constructor
    · rintro ⟨filter, _, ⟨hfilter, rfl⟩, rfl, rfl⟩
      exact .inl ⟨rfl, filter, hfilter, rfl⟩
    · rintro (⟨rfl, filter, hfilter, rfl⟩ | ⟨h, -⟩)
      · exact ⟨filter, c', ⟨hfilter, rfl⟩, rfl, rfl⟩
      · cases h
  · rw [if_neg hprojection]
    by_cases hblock : isEmpty = false ∧ localName child.name = lit "block"
    · obtain ⟨rfl, hname⟩ := hblock
      simp only [hname, true_and, if_true, bind_ok, lift_ok, ensure_eq_ok, pure_ok]
      constructor
      · rintro ⟨_, _, ⟨hroom, rfl⟩, entry, _, hread, _, _, ⟨hheight, rfl⟩, rfl, rfl⟩
        exact .inr ⟨hroom, entry, hread, hheight, rfl⟩
      · rintro (⟨h, -⟩ | ⟨hroom, entry, hread, hheight, rfl⟩)
        · cases h
        · exact ⟨(), c, ⟨hroom, rfl⟩, entry, c', hread, (), c', ⟨hheight, rfl⟩, rfl, rfl⟩
    · rw [if_neg hblock, lift_ok]
      constructor
      · rintro ⟨h, -⟩
        cases h
      · rintro (⟨h, hname, -⟩ | ⟨h, hname, -⟩)
        · exact absurd ⟨h, hname⟩ hprojection
        · exact absurd ⟨h, hname⟩ hblock

omit [DocumentPlatform] in
theorem checkHeight_panicked {previous : Option ℕ} {height : ℕ} :
    checkHeight previous height = .error .panicked ↔
      ∃ last, previous = some last ∧ u64Max ≤ last := by
  unfold checkHeight
  cases previous with
  | none => simp
  | some last =>
    simp only [addU64, Option.some.injEq, exists_eq_left']
    split
    · simp only [ok_bind, ensure_eq_error, reduceCtorEq, and_false, false_iff]
      omega
    · simp only [error_bind, true_iff]
      omega

theorem onRootChild_panicked {s : Body} {child : Tag} {isEmpty : Bool} {c : Cursor} :
    onRootChild p networkId s child isEmpty c = .error .panicked ↔
      isEmpty = false ∧ localName child.name = lit "block" ∧ s.blocks.length < maxBlocks ∧
        ∃ entry c' last, block p child networkId c = .ok (entry, c') ∧ s.previous = some last ∧
          u64Max ≤ last := by
  unfold onRootChild
  split
  · rename_i hprojection
    have hfilter : projection child ≠ .error .panicked := by
      refine fun h => Outcome.Ends.error (Q := fun _ => True) (R := Refused) ?_ h rfl
      refine (ends_readAttributes (I := fun _ => True) (fun _ name value _ => ?_) trivial).bind
        fun _ _ => ends_require.bind fun _ _ => trivial
      split_ifs
      · exact ends_core.bind fun _ _ => trivial
      · exact ends_unknownAttribute
    simp only [bind_error, lift_error, hfilter, pure_error, and_false, exists_false, or_self,
      hprojection.1, reduceCtorEq, false_and]
  · split
    · rename_i hblock
      have hends : Reads.Ends (block p child networkId) _ Refused := ends_block
      have hread := fun h => (hends c).error h rfl
      simp only [bind_error, lift_error, lift_ok, ensure_eq_error, ensure_eq_ok, pure_error,
        reduceCtorEq, and_false, false_or, exists_false, or_false, checkHeight_panicked, hblock,
        true_and]
      constructor
      · rintro ⟨_, _, ⟨hroom, rfl⟩, hbad | ⟨entry, c', hentry, last, hlast, hle⟩⟩
        · exact absurd hbad hread
        · exact ⟨hroom, entry, c', last, hentry, hlast, hle⟩
      · rintro ⟨hroom, entry, c', last, hentry, hlast, hle⟩
        exact ⟨(), c, ⟨hroom, rfl⟩, .inr ⟨entry, c', hentry, last, hlast, hle⟩⟩
    · rename_i hblock
      constructor
      · intro h
        cases h
      · rintro ⟨h, hname, -⟩
        exact absurd ⟨h, hname⟩ hblock

/-- Each block's height follows the one before it. -/
def Contiguous (entries : List DocumentBlock) : Prop :=
  (heights entries).IsChain fun a b => b = a + 1

omit [DocumentPlatform] in
theorem contiguous_append {entries : List DocumentBlock} {entry : DocumentBlock} :
    Contiguous (entries ++ [entry]) ↔ Contiguous entries ∧
      ∀ last ∈ (heights entries).getLast?, entry.block.header.height = last + 1 := by
  simp [Contiguous, heights, List.isChain_append]

omit [DocumentPlatform] in
theorem checkHeight_eq_ok {previous : Option ℕ} {height : ℕ} {u : Unit} :
    checkHeight previous height = .ok u ↔
      ∀ last ∈ previous, height = last + 1 ∧ last + 1 ≤ u64Max := by
  unfold checkHeight
  cases previous with
  | none => simp
  | some last =>
    simp only [addU64, Option.mem_def, Option.some.injEq, forall_eq']
    split
    · rename_i hle
      simp [hle]
    · rename_i hle
      simp [hle]

variable {c₀ : Cursor}

/-- The heights that blocks state are 64-bit integers. -/
theorem Blocks.heights_le {entries : List DocumentBlock} {d : Cursor}
    (h : Blocks p networkId c₀ entries d) : ∀ n ∈ heights entries, n ≤ u64Max := by
  induction h with
  | start => simp [heights]
  | passed _ _ _ ih => exact ih
  | projection _ _ _ _ ih => exact ih
  | @block entries c c₁ c' child entry _ _ _ hread ih =>
    have hle : entry.block.header.height ≤ u64Max := (ends_block c₁).value hread
    intro n hn
    rw [heights, List.map_append, List.mem_append] at hn
    rcases hn with hn | hn
    · exact ih n hn
    · obtain rfl : n = entry.block.header.height := by simpa using hn
      exact hle

omit [DocumentPlatform] in
theorem finish_refused {declared : Parsed} {s : Body}
    (h : s.previous = (heights s.blocks).getLast?) : finish declared s ≠ .error .panicked := by
  refine fun hpanic => Outcome.Ends.error (Q := fun _ => True) (R := Refused) ?_ hpanic rfl
  refine (ends_ensure fun _ => by simp [malformed, Refused]).bind fun _ _ => ?_
  refine (ends_ensure fun _ => by simp [malformed, Refused]).bind fun _ _ => ?_
  rcases s with ⟨filter, blocks, previous⟩
  dsimp only at h ⊢
  cases previous with
  | none => exact (ends_ensure fun _ => by simp [malformed, Refused]).bind fun _ _ => trivial
  | some last =>
    cases blocks with
    | nil => cases h
    | cons entry entries =>
      refine (ends_ensure fun _ => by simp [malformed, Refused]).bind fun _ _ => ?_
      exact (ends_ensure fun _ => by simp [malformed, Refused]).bind fun _ _ => trivial

/-- What the loop over a root has established after any round: the blocks it holds are those of
the markup it has passed, and they follow one another. -/
theorem rounds_onRootChild {t : Body} {d : Cursor}
    (h : Rounds (onContent p (onRootChild p networkId)) ({}, c₀) (t, d)) :
    Blocks p networkId c₀ t.blocks d ∧ t.previous = (heights t.blocks).getLast? ∧
      Contiguous t.blocks ∧ t.blocks.length ≤ maxBlocks := by
  have hnone : Contiguous ({} : Body).blocks := List.isChain_nil
  refine h.invariant (I := fun t d => Blocks p networkId c₀ t.blocks d ∧
    t.previous = (heights t.blocks).getLast? ∧ Contiguous t.blocks ∧ t.blocks.length ≤ maxBlocks)
    ⟨.start, rfl, hnone, Nat.zero_le _⟩ ?_
  rintro s s' c c' ⟨hblocks, hprevious, hcontiguous, hlength⟩ hround
  rcases onContent_inl.mp hround with ⟨e, hevent, he, rfl⟩ | ⟨child, isEmpty, c₁, hevent, hchild⟩
  · exact ⟨hblocks.passed hevent he, hprevious, hcontiguous, hlength⟩
  · rcases onRootChild_ok.mp hchild with
      ⟨rfl, hname, rfl, filter, hfilter, rfl⟩ | ⟨rfl, hname, hroom, entry, hread, hheight, rfl⟩
    · exact ⟨hblocks.projection hevent hname hfilter, hprevious, hcontiguous, hlength⟩
    · refine ⟨hblocks.block hevent hname hread, by simp [heights], ?_, by simpa using Nat.succ_le_of_lt hroom⟩
      refine contiguous_append.mpr ⟨hcontiguous, fun last hlast => ?_⟩
      exact (checkHeight_eq_ok.mp hheight last (hprevious ▸ hlast)).1

/-- The loop over a root gets through blocks that follow one another. -/
theorem rounds_of_blocks {entries : List DocumentBlock} {d : Cursor}
    (h : Blocks p networkId c₀ entries d) (hcontiguous : Contiguous entries)
    (hlength : entries.length ≤ maxBlocks) :
    ∃ t : Body, Rounds (onContent p (onRootChild p networkId)) ({}, c₀) (t, d) ∧
      t.blocks = entries ∧ t.previous = (heights entries).getLast? := by
  induction h with
  | start => exact ⟨{}, .refl _, rfl, rfl⟩
  | passed _ hevent he ih =>
    obtain ⟨t, hrounds, ht⟩ := ih hcontiguous hlength
    exact ⟨t, hrounds.tail (onContent_inl.mpr (.inl ⟨_, hevent, he, rfl⟩)), ht⟩
  | @projection entries c c' child filter _ hevent hname hfilter ih =>
    obtain ⟨t, hrounds, ht⟩ := ih hcontiguous hlength
    refine ⟨{ t with projection := some filter },
      hrounds.tail (onContent_inl.mpr (.inr ⟨_, true, _, hevent, ?_⟩)), ht⟩
    exact onRootChild_ok.mpr (.inl ⟨rfl, hname, rfl, _, hfilter, rfl⟩)
  | @block entries c c₁ c' child entry _ hevent hname hread ih =>
    obtain ⟨hbefore, hnext⟩ := contiguous_append.mp hcontiguous
    rw [List.length_append, List.length_singleton] at hlength
    obtain ⟨t, hrounds, rfl, hprevious⟩ := ih hbefore (by omega)
    have hle : entry.block.header.height ≤ u64Max := (ends_block c₁).value hread
    have hheight : checkHeight t.previous entry.block.header.height = .ok () := by
      refine checkHeight_eq_ok.mpr fun last hlast => ?_
      have heq := hnext last (hprevious ▸ hlast)
      exact ⟨heq, heq ▸ hle⟩
    refine ⟨{ t with blocks := t.blocks ++ [entry], previous := some entry.block.header.height },
      hrounds.tail (onContent_inl.mpr (.inr ⟨_, false, _, hevent, ?_⟩)), rfl, ?_⟩
    · exact onRootChild_ok.mpr (.inr ⟨rfl, hname, by omega, entry, hread, hheight, rfl⟩)
    · simp [heights]

section Lawful

variable [LawfulNamespaceScanner]

/-- From `c₀` on, a block at the last height of 64 bits is followed by another block. -/
def PastLastHeight (p : Context) (networkId : NetworkId) (c₀ : Cursor) : Prop :=
  ∃ entries c c₁ c₂ child entry, Blocks p networkId c₀ entries c ∧ Contiguous entries ∧
    entries.length < maxBlocks ∧ (heights entries).getLast? = some u64Max ∧
    event p c = .ok (.start child, c₁) ∧ localName child.name = lit "block" ∧
    block p child networkId c₁ = .ok (entry, c₂)

theorem children_panicked :
    children p (onRootChild p networkId) {} c₀ = .error .panicked ↔
      PastLastHeight p networkId c₀ := by
  unfold children loop
  rw [loop_error (consumes_onContent forward_onRootChild)]
  constructor
  · rintro ⟨t, d, hrounds, hpanic⟩
    obtain ⟨hblocks, hprevious, hcontiguous, -⟩ := rounds_onRootChild hrounds
    obtain ⟨child, isEmpty, c₁, hevent, hchild⟩ := onContent_panicked.mp hpanic
    obtain ⟨rfl, hname, hroom, entry, c₂, last, hread, hlast, hle⟩ :=
      onRootChild_panicked.mp hchild
    have hgetLast : (heights t.blocks).getLast? = some last := hprevious ▸ hlast
    have heq : last = u64Max :=
      le_antisymm (hblocks.heights_le last (List.mem_of_getLast? hgetLast)) hle
    exact ⟨t.blocks, d, c₁, c₂, child, entry, hblocks, hcontiguous, hroom, heq ▸ hgetLast, hevent,
      hname, hread⟩
  · rintro ⟨entries, c, c₁, c₂, child, entry, hblocks, hcontiguous, hlength, hlast, hevent, hname,
      hread⟩
    obtain ⟨t, hrounds, rfl, hprevious⟩ := rounds_of_blocks hblocks hcontiguous hlength.le
    refine ⟨t, c, hrounds, onContent_panicked.mpr ⟨child, false, c₁, hevent, ?_⟩⟩
    exact onRootChild_panicked.mpr
      ⟨rfl, hname, hlength, entry, c₂, u64Max, hread, hprevious.trans hlast, le_rfl⟩

theorem document_panicked {source : Text} {c : Cursor} :
    document source c = .error .panicked ↔ ∃ root c₀ declared p,
      loop onProlog () c = .ok (root, c₀) ∧ rootContext source root.1 root.2 = .ok (declared, p) ∧
      PastLastHeight p declared.networkId c₀ := by
  unfold document
  constructor
  · intro h
    rcases bind_error.mp h with hprolog | ⟨root, c₀, hprolog, h⟩
    · exact absurd rfl ((ends_prolog c).error hprolog)
    rcases bind_error.mp h with hroot | ⟨⟨declared, p⟩, c₁, hroot, h⟩
    · exact absurd rfl (ends_rootContext.error (lift_error.mp hroot))
    obtain ⟨hdeclared, rfl⟩ := lift_ok.mp hroot
    rcases bind_error.mp h with hchildren | ⟨body, c₂, hchildren, h⟩
    · exact ⟨root, c₀, declared, p, hprolog, hdeclared, children_panicked.mp hchildren⟩
    rcases bind_error.mp h with hepilog | ⟨_, c₃, -, h⟩
    · exact absurd rfl ((ends_epilog c₂).error hepilog)
    obtain ⟨d, name, hrounds, -⟩ := (children_ok forward_onRootChild).mp hchildren
    exact absurd (lift_error.mp h) (finish_refused (rounds_onRootChild hrounds).2.1)
  · rintro ⟨root, c₀, declared, p, hprolog, hroot, hpast⟩
    refine bind_error.mpr (.inr ⟨root, c₀, hprolog, ?_⟩)
    refine bind_error.mpr (.inr ⟨(declared, p), c₀, lift_ok.mpr ⟨hroot, rfl⟩, ?_⟩)
    exact bind_error.mpr (.inl (children_panicked.mpr hpast))

/-- The document gets to a block that follows one at the last height of 64 bits. -/
def HeightsExhausted (xml : Text) (maxBytes : ℕ) : Prop :=
  Utf8.byteLength xml ≤ maxBytes ∧ ∃ root c₀ declared p,
    loop onProlog () (Cursor.start xml) = .ok (root, c₀) ∧
    rootContext xml root.1 root.2 = .ok (declared, p) ∧ PastLastHeight p declared.networkId c₀

/-- The reader answers a document or a refusal exactly where the heights do not run out. -/
theorem readDocument_settles_iff {xml : Text} {maxBytes : ℕ} :
    readDocumentWithLimit xml maxBytes ≠ .error .panicked ↔ ¬ HeightsExhausted xml maxBytes := by
  unfold readDocumentWithLimit HeightsExhausted
  rw [not_iff_not, Outcome.bind_eq_error, ← document_panicked]
  constructor
  · rintro (hsize | ⟨_, hsize, h⟩)
    · exact absurd hsize (by simp)
    · rcases Outcome.bind_eq_error.mp h with hread | ⟨_, -, h⟩
      · exact ⟨ensure_eq_ok.mp hsize, hread⟩
      · cases h
  · rintro ⟨hsize, hread⟩
    exact .inr ⟨(), ensure_of hsize, Outcome.bind_eq_error.mpr (.inl hread)⟩

end Lawful

end Reader

section Samples

attribute [local instance] Sample.documentPlatform Sample.lawfulNamespaces

theorem heights_last : ¬ HeightsExhausted
    (Sample.chainDocument (lit "range") (u64Max - 1) u64Max
      (Sample.emptyBlock (u64Max - 1) ++ Sample.emptyBlock u64Max)) defaultMaxDocumentBytes :=
  readDocument_settles_iff.mp (by decide +kernel)

/-- A document of one height that carries two blocks, the first at the last height there is. -/
theorem readDocument_overflows :
    readDocument (Sample.chainDocument (lit "range") u64Max u64Max
      (Sample.emptyBlock u64Max ++ Sample.emptyBlock 0)) = .error .panicked := by
  decide +kernel

end Samples

end Irena.Prunella.Read
