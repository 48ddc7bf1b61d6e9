import Irena.Bornite.Xml
import Irena.Library.Contract
import Mathlib.Data.Finset.Lattice.Lemmas

/-! # What a reader expects

A reader collects values and issues side by side, and past its checks expects each value to be
there. A value is missing only where an issue was recorded, so that no expectation fails. -/

namespace Irena.Bornite

open Irena.Library Irena.Library.Outcome Irena.Library.Strings Irena.Library.Markup

section Reading

variable {ι α β : Type} [DecidableEq ι] {P Q : α → Prop}

/-- Reading keeps the issues it was given, and where it ends without one its value has `Q`. -/
def Settles (body : Reading ι α) (Q : α → Prop) : Prop :=
  ∀ a issues, issues ⊆ (body (a, issues)).2.2 ∧
    ((body (a, issues)).2.2 = ∅ → Q (body (a, issues)).1)

omit [DecidableEq ι] in
theorem settles_pure {a : α} (h : Q a) : Settles (pure a : Reading ι α) Q :=
  fun _ _ => ⟨Finset.Subset.refl _, fun _ => h⟩

omit [DecidableEq ι] in
theorem settles_ite {c : Prop} [Decidable c] {body other : Reading ι α}
    (hbody : c → Settles body Q) (hother : ¬ c → Settles other Q) :
    Settles (if c then body else other) Q := by
  split
  · exact hbody ‹_›
  · exact hother ‹_›

omit [DecidableEq ι] in
theorem Settles.mono {body : Reading ι α} (h : Settles body P) (hQ : ∀ a, P a → Q a) :
    Settles body Q :=
  fun a issues => ⟨(h a issues).1, fun hnone => hQ _ ((h a issues).2 hnone)⟩

omit [DecidableEq ι] in
/-- What the first part settled is there for the second to rely on. -/
theorem Settles.bind {body : Reading ι α} {f : α → Reading ι β} {Q : β → Prop}
    (h : Settles body P) (hf : ∀ a, Settles (f a) fun b => P a → Q b) : Settles (body >>= f) Q := by
  intro a issues
  obtain ⟨hkeep, hP⟩ := h a issues
  obtain ⟨hmore, hQ⟩ := hf (body (a, issues)).1 (body (a, issues)).2.1 (body (a, issues)).2.2
  refine ⟨hkeep.trans hmore, fun hnone => hQ hnone (hP ?_)⟩
  exact Finset.subset_empty.mp (hnone ▸ hmore)

omit [DecidableEq ι] in
/-- What is read last may need nothing of what was read before. -/
theorem Settles.after {body : Reading ι α} {f : α → Reading ι β} (h : Settles body P)
    (hf : ∀ a, Settles (f a) fun _ => True) : Settles (body >>= f) fun _ => True :=
  h.bind fun a => (hf a).mono fun _ _ _ => trivial

omit [DecidableEq ι] in
theorem settles_get : Settles (get : Reading ι (Attributes × Finset ι)) fun _ => True :=
  fun _ _ => ⟨Finset.Subset.refl _, fun _ => trivial⟩

theorem settles_push {issue : ι} : Settles (Attributes.push issue) fun _ => False :=
  fun _ _ => ⟨Finset.subset_insert _ _, fun hnone => absurd hnone (Finset.insert_ne_empty _ _)⟩

omit [DecidableEq ι] in
theorem settles_take {name : Text} : Settles (Attributes.take name : Reading ι _) fun _ => True :=
  fun _ _ => ⟨Finset.Subset.refl _, fun _ => trivial⟩

/-- A required attribute is there. -/
theorem settles_requireWith {onMissing : XmlIssueV1 → ι} {name : Text} :
    Settles (Attributes.requireWith onMissing name) fun value => value.isSome = true := by
  refine settles_take.bind fun value => settles_get.bind fun p => ?_
  cases value with
  | none => exact settles_push.bind fun _ => settles_pure fun h => h.elim
  | some value => exact settles_pure fun _ _ => rfl

theorem settles_require {name : Text} :
    Settles (Attributes.require name) fun value => value.isSome = true :=
  settles_requireWith

theorem settles_forbid {reason name : Text} : Settles (Attributes.forbid reason name) fun _ => True := by
  refine settles_take.bind fun value => settles_get.bind fun p => ?_
  cases value with
  | none => exact settles_pure fun _ _ => trivial
  | some value => exact settles_push.mono fun _ h => h.elim

omit [DecidableEq ι] in
theorem settles_forM {f : Text → Reading ι Unit} (h : ∀ name, Settles (f name) fun _ => True)
    (names : List Text) : Settles (names.forM f) fun _ => True := by
  induction names with
  | nil => exact settles_pure trivial
  | cons name names ih => exact (h name).bind fun _ => ih.mono fun _ _ _ => trivial

omit [DecidableEq ι] in
theorem settles_andThen {value : Option α} {f : α → Reading ι (Option β)}
    (h : ∀ a, Settles (f a) fun b => b.isSome = true) :
    Settles (andThen value f) fun b => value.isSome = true → b.isSome = true := by
  cases value with
  | none => exact settles_pure id
  | some a => exact (h a).mono fun _ hb _ => hb

omit [DecidableEq ι] in
/-- A part that is there, and a value read from it. -/
theorem Settles.andThen {body : Reading ι (Option α)} {f : α → Reading ι (Option β)}
    (h : Settles body fun a => a.isSome = true) (hf : ∀ a, Settles (f a) fun b => b.isSome = true) :
    Settles (body >>= fun value => Bornite.andThen value f) fun b => b.isSome = true :=
  h.bind fun _ => (settles_andThen hf).mono fun _ hb hvalue => hb hvalue

omit [DecidableEq ι] in
/-- The same with what is done with the value. -/
theorem Settles.andThen_bind {γ : Type} {Q : γ → Prop} {body : Reading ι (Option α)}
    {f : α → Reading ι (Option β)} {g : Option β → Reading ι γ}
    (h : Settles body fun a => a.isSome = true) (hf : ∀ a, Settles (f a) fun b => b.isSome = true)
    (hg : ∀ b, Settles (g b) fun c => b.isSome = true → Q c) :
    Settles (body >>= fun value => Bornite.andThen value f >>= g) Q :=
  h.bind fun _ => (settles_andThen hf).bind fun b =>
    (hg b).mono fun _ hc hb hvalue => hc (hb hvalue)

end Reading

section Elements

/-- The refusals for what a document says are not failed expectations. -/
class LawfulFault (φ : Type) [DocumentFault φ] : Prop where
  malformed_ne : ∀ detail, (malformed detail : φ) ≠ panicked
  tooLarge_ne : ∀ found limit, (tooLarge found limit : φ) ≠ panicked

instance : LawfulFault XmlFault := ⟨fun _ => nofun, fun _ _ => nofun⟩

variable {φ ι κ α β σ : Type} [DocumentFault φ]

/-- A refusal that is no failed expectation: one of content says what is wrong with it. -/
def Expected : Refusal φ (Finset κ) → Prop
  | .fatal reason => reason ≠ panicked
  | .invalid issues => issues ≠ ∅

variable [Scanner] [LawfulFault φ]

omit [LawfulFault φ] in
theorem ends_expectSome {value : Option α} (h : value.isSome = true) :
    Parse.Ends (expectSome value : Parse φ (Finset κ) α) (fun a => value = some a) Expected := by
  obtain ⟨a, rfl⟩ := Option.isSome_iff_exists.mp h
  exact Parse.ends_pure rfl

omit [LawfulFault φ] in
theorem ends_finishIssues [DecidableEq ι] {issues : Finset ι} :
    Parse.Ends (finishIssues issues : Parse φ (Finset ι) Unit) (fun _ => issues = ∅) Expected := by
  unfold finishIssues
  split
  · exact Parse.ends_pure ‹_›
  · exact Parse.ends_invalid ‹_›

/-- The attributes of an element, where no issue is left. -/
theorem ends_readAttributes {element : Text} {tag : Tag} {issues : Finset ι} {body : Reading ι α}
    {Q : α → Prop} (h : Settles body Q) :
    Parse.Ends (readAttributes element tag issues body : Parse φ (Finset κ) (α × Finset ι))
      (fun p => issues ⊆ p.2 ∧ (p.2 = ∅ → Q p.1)) Expected := by
  cases htag : tag.attributes with
  | none =>
    rw [readAttributes_bad htag]
    exact Parse.ends_fatal (LawfulFault.malformed_ne _)
  | some pairs =>
    have hbody := h ⟨element, untaken pairs⟩ issues
    rcases hrun : body (⟨element, untaken pairs⟩, issues) with ⟨a, attributes, found⟩
    rw [hrun] at hbody
    cases hunknown : attributes.unknown with
    | some key =>
      rw [readAttributes_unknown htag hrun hunknown]
      exact Parse.ends_fatal (LawfulFault.malformed_ne _)
    | none =>
      rw [readAttributes_known htag hrun hunknown]
      exact Parse.ends_pure hbody

theorem ends_noAttributes {element : Text} {tag : Tag} :
    Parse.Ends (noAttributes element tag : Parse φ (Finset κ) Unit) (fun _ => True) Expected :=
  (ends_readAttributes (settles_pure (Q := fun _ => True) trivial)).bind fun _ _ =>
    Parse.ends_pure trivial

theorem ends_unknownChild {parent child : Text} {Q : α → Prop} :
    Parse.Ends (unknownChild parent child : Parse φ (Finset κ) α) Q Expected :=
  Parse.ends_fatal (LawfulFault.malformed_ne _)

/-- The children of an element keep what each of them keeps. -/
theorem ends_childrenOf {parent : Text} {onChild : σ → Tag → Bool → Parse φ (Finset κ) σ}
    {I : σ → Prop} (hchild : ∀ s tag isEmpty, I s → Parse.Ends (onChild s tag isEmpty) I Expected)
    {s : σ} (hs : I s) :
    Parse.Ends (Parse.children (reasonsIn parent) onChild s) I Expected :=
  Parse.ends_children (LawfulFault.malformed_ne _) (fun _ => LawfulFault.malformed_ne _) hchild hs

theorem ends_expectLeaf {element : Text} {isEmpty : Bool} :
    Parse.Ends (expectLeaf element isEmpty : Parse φ (Finset κ) Unit) (fun _ => True) Expected := by
  unfold expectLeaf expectEmpty
  split
  · exact Parse.ends_pure trivial
  · exact Parse.ends_children (LawfulFault.malformed_ne _) (fun _ => LawfulFault.malformed_ne _)
      (fun _ _ _ _ => Parse.ends_fatal (LawfulFault.malformed_ne _)) trivial

omit [Scanner] in
/-- Where no part is missing every part is there. -/
theorem missingElements_eq_empty [DecidableEq ι] {missing : Text → Text → ι} {parent : Text}
    {parts : List (Bool × Text)} (h : missingElements missing parent parts = ∅) :
    ∀ p ∈ parts, p.1 = true := by
  intro p hp
  by_contra habsent
  have hmem : missing parent p.2 ∈ missingElements missing parent parts := by
    refine List.mem_toFinset.mpr (List.mem_map.mpr ⟨p, List.mem_filter.mpr ⟨hp, ?_⟩, rfl⟩)
    simpa using habsent
  rw [h] at hmem
  exact absurd hmem (Finset.notMem_empty _)

end Elements

section Values

variable {α β : Type}

theorem settles_enumValue {key allowed value : Text} {options : List (Text × α)} :
    Settles (enumValue key options allowed value) fun v => v.isSome = true := by
  unfold enumValue
  split
  · exact settles_pure rfl
  · exact settles_get.bind fun _ => settles_push.bind fun _ => settles_pure fun h => h.elim

theorem settles_boolValue {key value : Text} :
    Settles (boolValue key value) fun v => v.isSome = true := by
  unfold boolValue
  split
  · exact settles_pure rfl
  · split
    · exact settles_pure rfl
    · exact settles_get.bind fun _ => settles_push.bind fun _ => settles_pure fun h => h.elim

theorem settles_u64Value {key value : Text} :
    Settles (u64Value key value) fun v => v.isSome = true := by
  unfold u64Value
  split
  · exact settles_pure rfl
  · exact settles_get.bind fun _ => settles_push.bind fun _ => settles_pure fun h => h.elim

theorem settles_coreValue {result : Except CoreError α} :
    Settles (coreValue result) fun v => v.isSome = true := by
  unfold coreValue
  split
  · exact settles_pure rfl
  · exact settles_get.bind fun _ => settles_push.bind fun _ => settles_pure fun h => h.elim

theorem settles_proportionOf {n d : Option U64} {basis : Option α} {make : FractionV1 → α → β} :
    Settles (proportionOf n d basis make) fun v =>
      n.isSome = true → d.isSome = true → basis.isSome = true → v.isSome = true := by
  unfold proportionOf
  split
  · exact settles_coreValue.bind fun fraction => settles_pure fun hfraction _ _ _ => by
      rwa [Option.isSome_map]
  · rename_i hnone
    refine settles_pure fun hn hd hbasis => ?_
    obtain ⟨n, rfl⟩ := Option.isSome_iff_exists.mp hn
    obtain ⟨d, rfl⟩ := Option.isSome_iff_exists.mp hd
    obtain ⟨basis, rfl⟩ := Option.isSome_iff_exists.mp hbasis
    exact (hnone n d basis rfl rfl rfl).elim

theorem settles_drain (names : List Text) : Settles (names.forM fun name => do
    let _ ← (Attributes.take name : Reading XmlIssueV1 _)) fun _ => True :=
  settles_forM (fun _ => settles_take.bind fun _ => settles_pure fun _ => trivial) names

theorem settles_weightAttributes : Settles weightAttributes fun v => v.isSome = true :=
  settles_require.andThen fun _ => settles_enumValue

theorem settles_exclusionsAttributes : Settles exclusionsAttributes fun v => v.isSome = true :=
  settles_require.andThen fun _ => settles_boolValue

theorem settles_abstentionsAttributes : Settles abstentionsAttributes fun v => v.isSome = true :=
  settles_require.andThen fun _ => settles_enumValue

theorem settles_tieAttributes : Settles tieAttributes fun v => v.isSome = true :=
  settles_require.andThen fun _ => settles_enumValue

/-- What is recorded and drained answers no value. -/
theorem settles_refused {issue : XmlIssueV1} {names : List Text} {Q : Option α → Prop} :
    Settles (do
      Attributes.push issue
      names.forM fun name => do
        let _ ← (Attributes.take name : Reading XmlIssueV1 _)
      return none) Q :=
  settles_push.bind fun _ => (settles_drain names).bind fun _ => settles_pure fun _ h => h.elim

theorem settles_quorumAttributes : Settles quorumAttributes fun v => v.isSome = true := by
  refine settles_require.bind fun kind => ?_
  cases kind with
  | none => exact (settles_drain _).bind fun _ => settles_pure fun _ h => Bool.noConfusion h
  | some kind =>
    refine Settles.mono (P := fun v => v.isSome = true) ?_ fun _ h _ => h
    dsimp only
    split
    · exact (settles_forM (fun _ => settles_forbid) _).bind fun _ => settles_pure fun _ => rfl
    · split
      · refine (settles_forM (fun _ => settles_forbid) _).bind fun _ => ?_
        refine settles_require.andThen_bind (fun _ => settles_u64Value) fun weight => ?_
        refine (settles_andThen fun w => settles_coreValue).bind fun built => ?_
        refine settles_pure fun hbuilt hweight _ => ?_
        rw [Option.isSome_map]
        exact hbuilt hweight
      · split
        · refine settles_forbid.bind fun _ => ?_
          refine settles_require.andThen_bind (fun _ => settles_u64Value) fun n => ?_
          refine settles_require.andThen_bind (fun _ => settles_u64Value) fun d => ?_
          refine settles_require.andThen_bind (fun _ => settles_enumValue) fun basis => ?_
          exact settles_proportionOf.mono fun v h hbasis hd hn _ => h hn hd hbasis
        · exact settles_refused

theorem settles_thresholdAttributes : Settles thresholdAttributes fun v => v.isSome = true := by
  refine settles_require.bind fun kind => ?_
  refine settles_require.andThen_bind (fun _ => settles_enumValue) fun basis => ?_
  cases kind with
  | none => exact (settles_drain _).bind fun _ => settles_pure fun _ _ h => Bool.noConfusion h
  | some kind =>
    dsimp only
    split
    · refine (settles_forM (fun _ => settles_forbid) _).bind fun _ => settles_pure ?_
      intro _ hbasis _
      rwa [Option.isSome_map]
    · split
      · refine settles_require.andThen_bind (fun _ => settles_u64Value) fun n => ?_
        refine settles_require.andThen_bind (fun _ => settles_u64Value) fun d => ?_
        exact settles_proportionOf.mono fun v h hd hn hbasis _ => h hn hd hbasis
      · exact settles_refused

end Values

section Rules

/-- A part that was met has a value. -/
def Filled {α : Type} (slot : Option (Option α)) : Prop :=
  slot.isSome = true → slot.join.isSome = true

/-- What setting a slot leaves, unless an issue was recorded. -/
theorem filled_setOnce {α : Type} (slot : Option (Option α)) (element : Text) {value : Option α}
    (issues : Finset XmlIssueV1) (hvalue : issues = ∅ → value.isSome = true) :
    issues ⊆ (setOnce slot element value issues).2 ∧
      ((setOnce slot element value issues).2 = ∅ →
        Filled (setOnce slot element value issues).1) := by
  cases slot with
  | none => exact ⟨Finset.Subset.refl _, fun hnone _ => hvalue hnone⟩
  | some found =>
    exact ⟨Finset.subset_insert _ _, fun hnone => absurd hnone (Finset.insert_ne_empty _ _)⟩

/-- Without an issue, every part that was met has a value. -/
structure RuleSlots.Kept (s : RuleSlots) : Prop where
  weight : s.issues = ∅ → Filled s.weight
  exclusions : s.issues = ∅ → Filled s.exclusions
  quorum : s.issues = ∅ → Filled s.quorum
  threshold : s.issues = ∅ → Filled s.threshold
  abstentions : s.issues = ∅ → Filled s.abstentions
  tie : s.issues = ∅ → Filled s.tie

/-- More issues keep what holds without any. -/
theorem of_subset_empty {ι : Type} {issues found : Finset ι} {p : Prop} (hsub : issues ⊆ found)
    (h : issues = ∅ → p) : found = ∅ → p :=
  fun hnone => h (Finset.subset_empty.mp (hnone ▸ hsub))

variable [Scanner]

theorem ends_parseRule {α : Type} {element : Text} {body : Reading XmlIssueV1 (Option α)} {tag : Tag}
    {isEmpty : Bool} {slots : RuleSlots} {get : RuleSlots → Option (Option α)}
    {set : Option (Option α) → Finset XmlIssueV1 → RuleSlots} {I : RuleSlots → Prop}
    (hbody : Settles body fun value => value.isSome = true)
    (hset : ∀ slot issues, slots.issues ⊆ issues → (issues = ∅ → Filled slot) →
      I (set slot issues)) :
    Parse.Ends (parseRule element body tag isEmpty slots get set) I Expected := by
  refine (ends_readAttributes hbody).bind fun ⟨value, issues⟩ ⟨hsub, hvalue⟩ => ?_
  obtain ⟨hmore, hfilled⟩ := filled_setOnce (get slots) element issues hvalue
  exact ends_expectLeaf.bind fun _ _ => Parse.ends_pure (hset _ _ (hsub.trans hmore) hfilled)

theorem ends_parseRuleChild {s : RuleSlots} {tag : Tag} {isEmpty : Bool} (h : s.Kept) :
    Parse.Ends (parseRuleChild s tag isEmpty) RuleSlots.Kept Expected := by
  unfold parseRuleChild
  have hkeep : ∀ {issues : Finset XmlIssueV1} {p : Prop}, s.issues ⊆ issues → (s.issues = ∅ → p) →
      issues = ∅ → p := of_subset_empty
  refine Parse.ends_ite (fun _ => ?_) fun _ => ?_
  · refine ends_parseRule settles_weightAttributes fun slot issues hsub hfilled => ?_
    exact ⟨hfilled, hkeep hsub h.exclusions, hkeep hsub h.quorum, hkeep hsub h.threshold,
      hkeep hsub h.abstentions, hkeep hsub h.tie⟩
  refine Parse.ends_ite (fun _ => ?_) fun _ => ?_
  · refine ends_parseRule settles_exclusionsAttributes fun slot issues hsub hfilled => ?_
    exact ⟨hkeep hsub h.weight, hfilled, hkeep hsub h.quorum, hkeep hsub h.threshold,
      hkeep hsub h.abstentions, hkeep hsub h.tie⟩
  refine Parse.ends_ite (fun _ => ?_) fun _ => ?_
  · refine ends_parseRule settles_quorumAttributes fun slot issues hsub hfilled => ?_
    exact ⟨hkeep hsub h.weight, hkeep hsub h.exclusions, hfilled, hkeep hsub h.threshold,
      hkeep hsub h.abstentions, hkeep hsub h.tie⟩
  refine Parse.ends_ite (fun _ => ?_) fun _ => ?_
  · refine ends_parseRule settles_thresholdAttributes fun slot issues hsub hfilled => ?_
    exact ⟨hkeep hsub h.weight, hkeep hsub h.exclusions, hkeep hsub h.quorum, hfilled,
      hkeep hsub h.abstentions, hkeep hsub h.tie⟩
  refine Parse.ends_ite (fun _ => ?_) fun _ => ?_
  · refine ends_parseRule settles_abstentionsAttributes fun slot issues hsub hfilled => ?_
    exact ⟨hkeep hsub h.weight, hkeep hsub h.exclusions, hkeep hsub h.quorum,
      hkeep hsub h.threshold, hfilled, hkeep hsub h.tie⟩
  refine Parse.ends_ite (fun _ => ?_) fun _ => ?_
  · refine ends_parseRule settles_tieAttributes fun slot issues hsub hfilled => ?_
    exact ⟨hkeep hsub h.weight, hkeep hsub h.exclusions, hkeep hsub h.quorum,
      hkeep hsub h.threshold, hkeep hsub h.abstentions, hfilled⟩
  exact ends_unknownChild

theorem ends_checkVersion {version : Option Text} :
    Parse.Ends (checkVersion version) (fun _ => True) Expected := by
  unfold checkVersion
  split
  · exact Parse.ends_pure trivial
  · split
    · exact Parse.ends_pure trivial
    · exact Parse.ends_fatal nofun

/-- No expectation fails in reading voting rules. -/
theorem ends_parseVotingRules {tag : Tag} :
    Parse.Ends (parseVotingRules tag) (fun _ => True) Expected := by
  refine (ends_readAttributes settles_require).bind fun ⟨version, issues⟩ _ => ?_
  refine ends_checkVersion.bind fun _ _ => ?_
  have hstart : RuleSlots.Kept ⟨none, none, none, none, none, none, issues⟩ :=
    ⟨nofun, nofun, nofun, nofun, nofun, nofun⟩
  refine (ends_childrenOf (fun s tag isEmpty h => ends_parseRuleChild h) hstart).bind
    fun s hs => ?_
  refine ends_finishIssues.bind fun _ hnone => ?_
  obtain ⟨hissues, hmissing⟩ := Finset.union_eq_empty.mp hnone
  have hparts := missingElements_eq_empty hmissing
  simp only [List.forall_mem_cons, List.not_mem_nil, false_imp_iff, implies_true, and_true] at hparts
  obtain ⟨hweight, hexclusions, hquorum, hthreshold, habstentions, htie⟩ := hparts
  refine (ends_expectSome (hs.weight hissues hweight)).bind fun _ _ => ?_
  refine (ends_expectSome (hs.exclusions hissues hexclusions)).bind fun _ _ => ?_
  refine (ends_expectSome (hs.quorum hissues hquorum)).bind fun _ _ => ?_
  refine (ends_expectSome (hs.threshold hissues hthreshold)).bind fun _ _ => ?_
  refine (ends_expectSome (hs.abstentions hissues habstentions)).bind fun _ _ => ?_
  exact (ends_expectSome (hs.tie hissues htie)).bind fun _ _ => Parse.ends_pure trivial

end Rules

end Irena.Bornite
