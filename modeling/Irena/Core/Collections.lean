import Irena.Core.Company

/-! # Collections of a company

Each of the six collections sorts its list, gathers what is wrong with it and either refuses all of
it together or keeps the sorted list. The gathering does not see the order the list came in, so
neither does the outcome; and looking an entry up finds exactly what was listed. -/

namespace Irena.Core

open Irena.Library Irena.Library.SortedTable Irena.Bornite Irena.Prunella

theorem sumOverflows_eq_true {total : ℕ} {ns : List ℕ} (htotal : total ≤ u64Max) :
    sumOverflows total ns = true ↔ u64Max < total + ns.sum := by
  constructor
  · intro h
    by_contra hcon
    induction ns generalizing total with
    | nil => simp [sumOverflows] at h
    | cons n ns ih =>
      rw [List.sum_cons] at hcon
      rw [sumOverflows, if_pos (by omega)] at h
      exact ih (by omega) h (by omega)
  · intro h
    cases hover : sumOverflows total ns with
    | true => rfl
    | false =>
      have := sum_le_of_not_overflows hover htotal
      omega

/-- The total does not depend on the order of the summands, nor does its passing 64 bits. -/
theorem sumOverflows_perm {ms ns : List ℕ} (h : ms.Perm ns) :
    sumOverflows 0 ms = sumOverflows 0 ns := by
  rw [Bool.eq_iff_iff, sumOverflows_eq_true (Nat.zero_le _), sumOverflows_eq_true (Nat.zero_le _),
    h.sum_nat]

/-- A person of this id is listed with the key. -/
def HeldBy (persons : List PersonV1) (key : PublicKey) (id : VoterIdV1) : Prop :=
  ∃ p ∈ persons, p.id = id ∧ p.key = some key

theorem heldBy_perm {ps qs : List PersonV1} (h : ps.Perm qs) {key : PublicKey} {id : VoterIdV1} :
    HeldBy ps key id ↔ HeldBy qs key id := by
  unfold HeldBy
  simp only [h.mem_iff]

theorem heldBy_cons {p : PersonV1} {ps : List PersonV1} {key : PublicKey} {id : VoterIdV1} :
    HeldBy (p :: ps) key id ↔ (p.id = id ∧ p.key = some key) ∨ HeldBy ps key id := by
  simp only [HeldBy, List.mem_cons, or_and_right, exists_or, exists_eq_left]

/-- What the walk remembers once a person is passed. -/
def remember (seen : List (PublicKey × VoterIdV1)) (person : PersonV1) :
    List (PublicKey × VoterIdV1) :=
  match person.key with
  | some key => (key, person.id) :: seen
  | none => seen

theorem keyIssues_cons {seen : List (PublicKey × VoterIdV1)} {p : PersonV1} {ps : List PersonV1} :
    keyIssues seen (p :: ps) = keyIssue seen p ++ keyIssues (remember seen p) ps := rfl

theorem lookup_remember {seen : List (PublicKey × VoterIdV1)} {p : PersonV1} {key : PublicKey}
    {id : VoterIdV1} : (remember seen p).lookup key = some id ↔
      (p.key = some key ∧ p.id = id) ∨ (p.key ≠ some key ∧ seen.lookup key = some id) := by
  cases hkey : p.key with
  | none => simp [remember, hkey]
  | some held =>
    rw [remember, hkey]
    dsimp only
    by_cases heq : key = held
    · subst heq
      simp
    · have hbeq : (key == held) = false := beq_eq_false_iff_ne.mpr heq
      simp [List.lookup_cons, hbeq, Ne.symm heq]

theorem mem_keyIssue {seen : List (PublicKey × VoterIdV1)} {p : PersonV1} {issue : IssueV1} :
    issue ∈ keyIssue seen p ↔ ∃ key first, p.key = some key ∧ seen.lookup key = some first ∧
      first ≠ p.id ∧ issue = .duplicateKey first p.id := by
  unfold keyIssue
  cases hkey : p.key with
  | none => simp
  | some key =>
    dsimp only
    cases hseen : seen.lookup key with
    | none => simp [hseen]
    | some first =>
      dsimp only
      split
      · rename_i hne
        simp [hseen, hne]
      · rename_i heq
        simp [hseen, not_not.mp heq]

/-- Two holders of one key, no holder of it standing between them; the first may be remembered
from before. -/
structure SharedKey (seen : List (PublicKey × VoterIdV1)) (persons : List PersonV1)
    (key : PublicKey) (first second : VoterIdV1) : Prop where
  apart : first < second
  former : seen.lookup key = some first ∨ HeldBy persons key first
  latter : HeldBy persons key second
  next : ∀ id, HeldBy persons key id → ¬(first < id ∧ id < second)

theorem sharedKey_cons {seen : List (PublicKey × VoterIdV1)} {p : PersonV1} {ps : List PersonV1}
    (hhead : ∀ q ∈ ps, p.id ≤ q.id) (hseen : ∀ key id, seen.lookup key = some id → id ≤ p.id)
    {key : PublicKey} {first second : VoterIdV1} :
    SharedKey seen (p :: ps) key first second ↔
      (p.key = some key ∧ seen.lookup key = some first ∧ first < p.id ∧ second = p.id) ∨
        SharedKey (remember seen p) ps key first second := by
  have hbehind : ∀ id, HeldBy ps key id → p.id ≤ id := by
    rintro id ⟨q, hq, rfl, -⟩
    exact hhead q hq
  constructor
  · rintro ⟨hlt, hformer, hlatter, hnext⟩
    rcases heldBy_cons.mp hlatter with ⟨rfl, hkey⟩ | hlatter
    · rcases hformer with hformer | hformer
      · exact .inl ⟨hkey, hformer, hlt, rfl⟩
      · rcases heldBy_cons.mp hformer with ⟨rfl, -⟩ | hformer
        · exact absurd hlt (lt_irrefl _)
        · exact absurd hlt (hbehind first hformer).not_gt
    · have hrest : ∀ id, HeldBy ps key id → ¬(first < id ∧ id < second) :=
        fun id hid => hnext id (heldBy_cons.mpr (.inr hid))
      have hpass : (remember seen p).lookup key = some first ∨ HeldBy ps key first →
          SharedKey (remember seen p) ps key first second := fun h => ⟨hlt, h, hlatter, hrest⟩
      rcases hformer with hformer | hformer
      · by_cases hkey : p.key = some key
        · rcases (hseen key first hformer).eq_or_lt with rfl | hbelow
          · exact .inr (hpass (.inl (lookup_remember.mpr (.inl ⟨hkey, rfl⟩))))
          · have hnot := hnext p.id (heldBy_cons.mpr (.inl ⟨rfl, hkey⟩))
            have hle : second ≤ p.id := le_of_not_gt fun hgt => hnot ⟨hbelow, hgt⟩
            exact .inl ⟨hkey, hformer, hbelow, le_antisymm hle (hbehind second hlatter)⟩
        · exact .inr (hpass (.inl (lookup_remember.mpr (.inr ⟨hkey, hformer⟩))))
      · rcases heldBy_cons.mp hformer with ⟨hid, hkey⟩ | hformer
        · exact .inr (hpass (.inl (lookup_remember.mpr (.inl ⟨hkey, hid⟩))))
        · exact .inr (hpass (.inr hformer))
  · rintro (⟨hkey, hformer, hlt, rfl⟩ | ⟨hlt, hformer, hlatter, hnext⟩)
    · refine ⟨hlt, .inl hformer, heldBy_cons.mpr (.inl ⟨rfl, hkey⟩), fun id hid => ?_⟩
      rintro ⟨-, hbelow⟩
      rcases heldBy_cons.mp hid with ⟨rfl, -⟩ | hid
      · exact lt_irrefl _ hbelow
      · exact (hbehind id hid).not_gt hbelow
    · refine ⟨hlt, ?_, heldBy_cons.mpr (.inr hlatter), fun id hid => ?_⟩
      · rcases hformer with hformer | hformer
        · rcases lookup_remember.mp hformer with ⟨hkey, hid⟩ | ⟨-, hformer⟩
          · exact .inr (heldBy_cons.mpr (.inl ⟨hid, hkey⟩))
          · exact .inl hformer
        · exact .inr (heldBy_cons.mpr (.inr hformer))
      · rcases heldBy_cons.mp hid with ⟨rfl, hkey⟩ | hid
        · rintro ⟨habove, -⟩
          rcases hformer with hformer | hformer
          · rcases lookup_remember.mp hformer with ⟨-, rfl⟩ | ⟨hne, -⟩
            · exact lt_irrefl _ habove
            · exact hne hkey
          · exact (hbehind first hformer).not_gt habove
        · exact hnext id hid

/-- Where the persons stand in id order, an issue names two holders of one key who stand next to
each other among its holders. -/
theorem mem_keyIssues {seen : List (PublicKey × VoterIdV1)} {ps : List PersonV1}
    (hsorted : ps.Pairwise fun p q => p.id ≤ q.id)
    (hseen : ∀ key id, seen.lookup key = some id → ∀ p ∈ ps, id ≤ p.id) {issue : IssueV1} :
    issue ∈ keyIssues seen ps ↔
      ∃ key first second, issue = .duplicateKey first second ∧
        SharedKey seen ps key first second := by
  induction ps generalizing seen with
  | nil =>
    constructor
    · intro h
      cases h
    · rintro ⟨key, first, second, -, hshared⟩
      obtain ⟨p, hp, -⟩ := hshared.latter
      cases hp
  | cons p ps ih =>
    obtain ⟨hhead, htail⟩ := List.pairwise_cons.mp hsorted
    have hbefore : ∀ key id, seen.lookup key = some id → id ≤ p.id :=
      fun key id h => hseen key id h p List.mem_cons_self
    have hafter : ∀ key id, (remember seen p).lookup key = some id → ∀ q ∈ ps, id ≤ q.id := by
      intro key id h q hq
      rcases lookup_remember.mp h with ⟨-, rfl⟩ | ⟨-, h⟩
      · exact hhead q hq
      · exact hseen key id h q (List.mem_cons_of_mem _ hq)
    rw [keyIssues_cons, List.mem_append, mem_keyIssue, ih htail hafter]
    simp only [sharedKey_cons hhead hbefore]
    constructor
    · rintro (⟨key, first, hkey, hfirst, hne, rfl⟩ | ⟨key, first, second, rfl, hshared⟩)
      · exact ⟨key, first, p.id, rfl,
          .inl ⟨hkey, hfirst, lt_of_le_of_ne (hbefore key first hfirst) hne, rfl⟩⟩
      · exact ⟨key, first, second, rfl, .inr hshared⟩
    · rintro ⟨key, first, second, rfl, ⟨hkey, hfirst, hlt, rfl⟩ | hshared⟩
      · exact .inl ⟨key, first, hkey, hfirst, hlt.ne, rfl⟩
      · exact .inr ⟨key, first, second, rfl, hshared⟩

theorem SharedKey.perm {ps qs : List PersonV1} (h : ps.Perm qs) {key : PublicKey}
    {first second : VoterIdV1} (hshared : SharedKey [] ps key first second) :
    SharedKey [] qs key first second where
  apart := hshared.apart
  former := hshared.former.imp_right (heldBy_perm h).mp
  latter := (heldBy_perm h).mp hshared.latter
  next id hid := hshared.next id ((heldBy_perm h).mpr hid)

theorem keyIssues_perm {ps qs : List PersonV1} (h : ps.Perm qs)
    (hp : ps.Pairwise fun p q => p.id ≤ q.id) (hq : qs.Pairwise fun p q => p.id ≤ q.id) :
    (keyIssues [] ps).toFinset = (keyIssues [] qs).toFinset := by
  have hshared : ∀ key first second,
      SharedKey [] ps key first second ↔ SharedKey [] qs key first second :=
    fun _ _ _ => ⟨SharedKey.perm h, SharedKey.perm h.symm⟩
  ext issue
  rw [List.mem_toFinset, List.mem_toFinset, mem_keyIssues hp (by simp), mem_keyIssues hq (by simp)]
  simp only [hshared]

section Collecting

variable {α β κ : Type} [LinearOrder κ]

/-- The constructor refuses the problems of a list all together, and keeps the sorted list where
there are none. -/
structure Collects (new : List α → Except IrenaError β) (entries : β → List α) (key : α → κ)
    (problems : List α → List IssueV1) : Prop where
  refused : ∀ xs, problems xs ≠ [] → new xs = .error (invalidIssues (problems xs))
  built : ∀ xs, problems xs = [] → ∃ b, new xs = .ok b ∧ entries b = sortBy key xs

/-- Building sees a list as a collection: its order is nothing, and what is built lists the same
entries by strictly growing key. -/
structure Canonical (new : List α → Except IrenaError β) (entries : β → List α) (key : α → κ) :
    Prop where
  orderFree : ∀ xs ys, xs.Perm ys → new xs = new ys
  lists : ∀ xs b, new xs = .ok b → (entries b).Perm xs
  grows : ∀ xs b, new xs = .ok b → (entries b).Pairwise fun x y => key x < key y

variable {new : List α → Except IrenaError β} {entries : β → List α} {key : α → κ}
  {problems : List α → List IssueV1}

theorem Collects.entries_eq (h : Collects new entries key problems) {xs : List α} {b : β}
    (hb : new xs = .ok b) : entries b = sortBy key xs := by
  by_cases hproblems : problems xs = []
  · obtain ⟨c, hc, hentries⟩ := h.built xs hproblems
    obtain rfl := Except.ok.inj (hb.symm.trans hc)
    exact hentries
  · rw [h.refused xs hproblems] at hb
    cases hb

theorem Collects.canonical (h : Collects new entries key problems)
    (hstrict : ∀ b, (entries b).Pairwise fun x y => key x < key y)
    (hinjective : Function.Injective entries)
    (hproblems : ∀ xs ys, xs.Perm ys → (problems xs).toFinset = (problems ys).toFinset) :
    Canonical new entries key where
  orderFree xs ys hperm := by
    have hissues : invalidIssues (problems xs) = invalidIssues (problems ys) := by
      rw [invalidIssues, hproblems xs ys hperm, invalidIssues]
    by_cases hnone : problems xs = []
    · have hnone' : problems ys = [] := by
        rw [← List.toFinset_eq_empty_iff, ← hproblems xs ys hperm, hnone, List.toFinset_nil]
      obtain ⟨b, hb, hentries⟩ := h.built xs hnone
      obtain ⟨c, hc, hentries'⟩ := h.built ys hnone'
      have hnodup : (xs.map key).Nodup := by
        have hsorted : ((sortBy key xs).map key).Nodup :=
          List.pairwise_map.mpr ((hentries ▸ hstrict b).imp ne_of_lt)
        exact ((perm_sortBy key xs).map key).nodup_iff.mp hsorted
      rw [hb, hc, hinjective ((hentries.trans (sortBy_perm hperm hnodup)).trans hentries'.symm)]
    · have hsome : problems ys ≠ [] := by
        intro hcon
        rw [← List.toFinset_eq_empty_iff, ← hproblems xs ys hperm, List.toFinset_eq_empty_iff]
          at hcon
        exact hnone hcon
      rw [h.refused xs hnone, h.refused ys hsome, hissues]
  lists xs b hb := h.entries_eq hb ▸ perm_sortBy key xs
  grows _ b _ := hstrict b

theorem Canonical.mem_iff (h : Canonical new entries key) {xs : List α} {b : β}
    (hb : new xs = .ok b) {x : α} : x ∈ entries b ↔ x ∈ xs :=
  (h.lists xs b hb).mem_iff

end Collecting

/-- The problems of a list that may be too long. -/
def problemsOf {α : Type} (limit : ℕ) (tooMany : IssueV1) (issues : List α → List IssueV1)
    (xs : List α) : List IssueV1 :=
  if limit < xs.length then [tooMany] else issues xs

theorem problemsOf_perm {α : Type} {limit : ℕ} {tooMany : IssueV1}
    {issues : List α → List IssueV1}
    (hissues : ∀ xs ys, xs.Perm ys → (issues xs).toFinset = (issues ys).toFinset) {xs ys : List α}
    (h : xs.Perm ys) :
    (problemsOf limit tooMany issues xs).toFinset =
      (problemsOf limit tooMany issues ys).toFinset := by
  rw [problemsOf, problemsOf, h.length_eq]
  split
  · rfl
  · exact hissues xs ys h

/-- A constructor that first refuses a list that is too long. -/
theorem collects_limited {α β κ : Type} [LinearOrder κ] {new : List α → Except IrenaError β}
    {entries : β → List α} {key : α → κ} {limit : ℕ} {tooMany : IssueV1}
    {issues : List α → List IssueV1} {make : ∀ xs, issues (sortBy key xs) = [] → β}
    (hnew : ∀ xs, new xs =
      if limit < xs.length then .error (invalidIssues [tooMany])
      else if h : issues (sortBy key xs) = [] then .ok (make xs h)
      else .error (invalidIssues (issues (sortBy key xs))))
    (hentries : ∀ xs h, entries (make xs h) = sortBy key xs) :
    Collects new entries key (problemsOf limit tooMany fun xs => issues (sortBy key xs)) where
  refused xs h := by
    rw [hnew]
    unfold problemsOf at h ⊢
    split
    · rfl
    · rename_i hlimit
      rw [if_neg hlimit] at h
      rw [dif_neg h]
  built xs h := by
    unfold problemsOf at h
    split at h
    · cases h
    · rename_i hlimit
      refine ⟨make xs h, ?_, hentries xs h⟩
      rw [hnew, if_neg hlimit, dif_pos h]

theorem collects_unlimited {α β κ : Type} [LinearOrder κ] {new : List α → Except IrenaError β}
    {entries : β → List α} {key : α → κ} {issues : List α → List IssueV1}
    {make : ∀ xs, issues (sortBy key xs) = [] → β}
    (hnew : ∀ xs, new xs =
      if h : issues (sortBy key xs) = [] then .ok (make xs h)
      else .error (invalidIssues (issues (sortBy key xs))))
    (hentries : ∀ xs h, entries (make xs h) = sortBy key xs) :
    Collects new entries key fun xs => issues (sortBy key xs) where
  refused xs h := by
    rw [hnew, dif_neg h]
  built xs h := by
    refine ⟨make xs h, ?_, hentries xs h⟩
    rw [hnew, dif_pos h]

/-- An issue for each repeated key. -/
theorem repeated_perm {α κ : Type} [LinearOrder κ] {key : α → κ} (issue : κ → IssueV1)
    {xs ys : List α} (h : xs.Perm ys) :
    (repeats key (sortBy key xs)).map (fun x => issue (key x)) =
      (repeats key (sortBy key ys)).map fun x => issue (key x) := by
  have hperm : (repeats key (sortBy key xs)).map key = (repeats key (sortBy key ys)).map key :=
    repeats_keys_perm h
  have hkeys := congrArg (List.map issue) hperm
  rwa [List.map_map, List.map_map] at hkeys

theorem sortBy_perm_sortBy {α κ : Type} [LinearOrder κ] (key : α → κ) {xs ys : List α}
    (h : xs.Perm ys) : (sortBy key xs).Perm (sortBy key ys) :=
  ((perm_sortBy key xs).trans h).trans (perm_sortBy key ys).symm

theorem perm_eq_nil {α : Type} {xs ys : List α} (h : xs.Perm ys) : xs = [] ↔ ys = [] :=
  ⟨fun hxs => (hxs ▸ h.symm).eq_nil, fun hys => (hys ▸ h).eq_nil⟩

theorem shareStructure_issues_perm {xs ys : List HolderV1} (h : xs.Perm ys) :
    (ShareStructureV1.issues (sortBy HolderV1.id xs)).Perm
      (ShareStructureV1.issues (sortBy HolderV1.id ys)) := by
  have hsorted := sortBy_perm_sortBy HolderV1.id h
  unfold ShareStructureV1.issues
  rw [repeated_perm IssueV1.duplicateHolder h, sumOverflows_perm (hsorted.map _)]
  exact (((hsorted.filter _).map _).append_left _).append_right _

theorem roster_issues_perm (channel : ChannelIdV1) {xs ys : List MemberV1} (h : xs.Perm ys) :
    (RosterV1.issues channel (sortBy MemberV1.id xs)).Perm
      (RosterV1.issues channel (sortBy MemberV1.id ys)) := by
  have hsorted := sortBy_perm_sortBy MemberV1.id h
  have hempty : sortBy MemberV1.id xs = [] ↔ sortBy MemberV1.id ys = [] := perm_eq_nil hsorted
  unfold RosterV1.issues
  rw [repeated_perm (IssueV1.duplicateMember channel) h, sumOverflows_perm (hsorted.map _),
    ite_cond_congr (propext hempty)]
  exact (((hsorted.filter _).map _).append_left _).append_right _

theorem decisionChannels_issues_perm {xs ys : List DecisionChannelV1} (h : xs.Perm ys) :
    DecisionChannelsV1.issues (sortBy DecisionChannelV1.id xs) =
      DecisionChannelsV1.issues (sortBy DecisionChannelV1.id ys) := by
  have hempty : sortBy DecisionChannelV1.id xs = [] ↔ sortBy DecisionChannelV1.id ys = [] :=
    perm_eq_nil (sortBy_perm_sortBy DecisionChannelV1.id h)
  unfold DecisionChannelsV1.issues
  rw [repeated_perm IssueV1.duplicateChannel h, ite_cond_congr (propext hempty)]

theorem identities_issues_perm {xs ys : List PersonV1} (h : xs.Perm ys) :
    (IdentitiesV1.issues (sortBy PersonV1.id xs)).toFinset =
      (IdentitiesV1.issues (sortBy PersonV1.id ys)).toFinset := by
  have hkeys := keyIssues_perm (sortBy_perm_sortBy PersonV1.id h) (sorted_sortBy PersonV1.id xs)
    (sorted_sortBy PersonV1.id ys)
  unfold IdentitiesV1.issues
  rw [repeated_perm IssueV1.duplicatePerson h]
  ext issue
  have hissue := Finset.ext_iff.mp hkeys issue
  simp only [List.mem_toFinset] at hissue
  simp only [List.mem_toFinset, List.mem_append, hissue]

theorem authorisation_issues_perm {xs ys : List SignerV1} (h : xs.Perm ys) :
    AuthorisationV1.issues (sortBy SignerV1.key xs) =
      AuthorisationV1.issues (sortBy SignerV1.key ys) := by
  rw [sortBy_perm_of_injective SignerV1.key_injective h]

theorem channelScope_issues_perm (channel : ChannelIdV1) {xs ys : List RecordKindV1}
    (h : xs.Perm ys) :
    ChannelScopeV1.issues channel (sortBy RecordKindV1.rank xs) =
      ChannelScopeV1.issues channel (sortBy RecordKindV1.rank ys) := by
  rw [sortBy_perm_of_injective RecordKindV1.rank_injective h]

theorem ShareStructureV1.holders_injective : Function.Injective ShareStructureV1.holders := by
  rintro ⟨s, _, _⟩ ⟨t, _, _⟩ h
  obtain rfl : s = t := SortedTable.ext h
  rfl

theorem shareStructure_canonical :
    Canonical ShareStructureV1.new ShareStructureV1.holders HolderV1.id := by
  have hcollects : Collects ShareStructureV1.new ShareStructureV1.holders HolderV1.id _ :=
    collects_limited (fun _ => rfl) (fun _ _ => rfl)
  refine hcollects.canonical (fun s => s.table.sorted) ShareStructureV1.holders_injective ?_
  have hissues : ∀ xs ys : List HolderV1, xs.Perm ys → _ :=
    fun xs ys h => List.toFinset_eq_of_perm _ _ (shareStructure_issues_perm h)
  exact fun xs ys h => problemsOf_perm hissues h

theorem shareStructure_get {holders : List HolderV1} {s : ShareStructureV1}
    (hs : ShareStructureV1.new holders = .ok s) {id : VoterIdV1} {h : HolderV1} :
    s.get id = some h ↔ h ∈ holders ∧ h.id = id := by
  rw [ShareStructureV1.get, SortedTable.get_eq_some]
  exact and_congr_left' (shareStructure_canonical.mem_iff hs)

theorem RosterV1.members_injective : Function.Injective RosterV1.members := by
  rintro ⟨s, _, _, _⟩ ⟨t, _, _, _⟩ h
  obtain rfl : s = t := SortedTable.ext h
  rfl

theorem roster_canonical (channel : ChannelIdV1) :
    Canonical (RosterV1.new channel) RosterV1.members MemberV1.id := by
  have hcollects : Collects (RosterV1.new channel) RosterV1.members MemberV1.id _ :=
    collects_limited (fun _ => rfl) (fun _ _ => rfl)
  refine hcollects.canonical (fun r => r.table.sorted) RosterV1.members_injective ?_
  have hissues : ∀ xs ys : List MemberV1, xs.Perm ys → _ :=
    fun xs ys h => List.toFinset_eq_of_perm _ _ (roster_issues_perm channel h)
  exact fun xs ys h => problemsOf_perm hissues h

theorem roster_get {channel : ChannelIdV1} {members : List MemberV1} {r : RosterV1}
    (hr : RosterV1.new channel members = .ok r) {id : VoterIdV1} {m : MemberV1} :
    r.get id = some m ↔ m ∈ members ∧ m.id = id := by
  rw [RosterV1.get, SortedTable.get_eq_some]
  exact and_congr_left' ((roster_canonical channel).mem_iff hr)

theorem IdentitiesV1.persons_injective : Function.Injective IdentitiesV1.persons := by
  rintro ⟨s, _⟩ ⟨t, _⟩ h
  obtain rfl : s = t := SortedTable.ext h
  rfl

theorem identities_canonical :
    Canonical IdentitiesV1.new IdentitiesV1.persons PersonV1.id := by
  have hcollects : Collects IdentitiesV1.new IdentitiesV1.persons PersonV1.id _ :=
    collects_limited (fun _ => rfl) (fun _ _ => rfl)
  refine hcollects.canonical (fun s => s.table.sorted) IdentitiesV1.persons_injective ?_
  exact fun xs ys h => problemsOf_perm (fun _ _ h => identities_issues_perm h) h

theorem identities_get {persons : List PersonV1} {s : IdentitiesV1}
    (hs : IdentitiesV1.new persons = .ok s) {id : VoterIdV1} {p : PersonV1} :
    s.get id = some p ↔ p ∈ persons ∧ p.id = id := by
  rw [IdentitiesV1.get, SortedTable.get_eq_some]
  exact and_congr_left' (identities_canonical.mem_iff hs)

/-- Whose key it is and which key he has are two readings of one relation. -/
theorem IdentitiesV1.keyOf_iff_holderOf (s : IdentitiesV1) {id : VoterIdV1} {key : PublicKey} :
    s.keyOf id = some key ↔ ∃ p, s.holderOf key = some p ∧ p.id = id := by
  rw [keyOf_eq_some]
  constructor
  · rintro ⟨p, hp, hid, hkey⟩
    exact ⟨p, holderOf_eq_some.mpr ⟨hp, hkey⟩, hid⟩
  · rintro ⟨p, hp, hid⟩
    obtain ⟨hmem, hkey⟩ := holderOf_eq_some.mp hp
    exact ⟨p, hmem, hid, hkey⟩

theorem identities_key_unique {persons : List PersonV1} {s : IdentitiesV1}
    (hs : IdentitiesV1.new persons = .ok s) {key : PublicKey} {p q : PersonV1} (hp : p ∈ persons)
    (hq : q ∈ persons) (hpkey : p.key = some key) (hqkey : q.key = some key) : p = q := by
  have hmem : ∀ {r}, r ∈ s.persons ↔ r ∈ persons := identities_canonical.mem_iff hs
  have hheld : s.holderOf key = some p := IdentitiesV1.holderOf_eq_some.mpr ⟨hmem.mpr hp, hpkey⟩
  have hheld' : s.holderOf key = some q := IdentitiesV1.holderOf_eq_some.mpr ⟨hmem.mpr hq, hqkey⟩
  exact Option.some.inj (hheld.symm.trans hheld')

theorem AuthorisationV1.signers_injective : Function.Injective AuthorisationV1.signers := by
  rintro ⟨s, _⟩ ⟨t, _⟩ h
  obtain rfl : s = t := SortedTable.ext h
  rfl

theorem authorisation_canonical :
    Canonical AuthorisationV1.new AuthorisationV1.signers SignerV1.key := by
  have hcollects : Collects AuthorisationV1.new AuthorisationV1.signers SignerV1.key _ :=
    collects_unlimited (fun _ => rfl) (fun _ _ => rfl)
  refine hcollects.canonical (fun a => a.table.sorted) AuthorisationV1.signers_injective ?_
  exact fun xs ys h => congrArg List.toFinset (authorisation_issues_perm h)

theorem ChannelScopeV1.parts_injective : Function.Injective ChannelScopeV1.parts := by
  rintro ⟨s, _, _⟩ ⟨t, _, _⟩ h
  obtain rfl : s = t := SortedTable.ext h
  rfl

theorem channelScope_canonical (channel : ChannelIdV1) :
    Canonical (ChannelScopeV1.new channel) ChannelScopeV1.parts RecordKindV1.rank := by
  have hcollects : Collects (ChannelScopeV1.new channel) ChannelScopeV1.parts RecordKindV1.rank _ :=
    collects_unlimited (fun _ => rfl) (fun _ _ => rfl)
  refine hcollects.canonical (fun s => s.table.sorted) ChannelScopeV1.parts_injective ?_
  exact fun xs ys h => congrArg List.toFinset (channelScope_issues_perm channel h)

theorem channelScope_allows {channel : ChannelIdV1} {parts : List RecordKindV1} {s : ChannelScopeV1}
    (hs : ChannelScopeV1.new channel parts = .ok s) {part : RecordKindV1} :
    s.allows part = true ↔ part ∈ parts := by
  rw [ChannelScopeV1.allows, List.contains_iff_mem]
  exact (channelScope_canonical channel).mem_iff hs

theorem DecisionChannelsV1.channels_injective :
    Function.Injective DecisionChannelsV1.channels := by
  rintro ⟨s, _⟩ ⟨t, _⟩ h
  obtain rfl : s = t := SortedTable.ext h
  rfl

theorem decisionChannels_canonical :
    Canonical DecisionChannelsV1.new DecisionChannelsV1.channels DecisionChannelV1.id := by
  have hcollects : Collects DecisionChannelsV1.new DecisionChannelsV1.channels DecisionChannelV1.id _ :=
    collects_limited (fun _ => rfl) (fun _ _ => rfl)
  refine hcollects.canonical (fun s => s.table.sorted) DecisionChannelsV1.channels_injective ?_
  exact fun xs ys h =>
    problemsOf_perm (fun _ _ h => congrArg List.toFinset (decisionChannels_issues_perm h)) h

theorem decisionChannels_get {channels : List DecisionChannelV1} {s : DecisionChannelsV1}
    (hs : DecisionChannelsV1.new channels = .ok s) {id : ChannelIdV1} {c : DecisionChannelV1} :
    s.get id = some c ↔ c ∈ channels ∧ c.id = id := by
  rw [DecisionChannelsV1.get, SortedTable.get_eq_some]
  exact and_congr_left' (decisionChannels_canonical.mem_iff hs)

/-- The collections of a company are canonical: a list and its permutations build one value or are
refused for the same issues; a value grows strictly, its total fits 64 bits where it has one, and
looking up finds what was listed. A key names one person, whose key it is. -/
theorem collections_canonical :
    (Canonical ShareStructureV1.new ShareStructureV1.holders HolderV1.id ∧
      ∀ holders s, ShareStructureV1.new holders = .ok s →
        (s.holders.map fun h => h.shares.val).sum ≤ u64Max ∧
          ∀ id h, s.get id = some h ↔ h ∈ holders ∧ h.id = id) ∧
    (∀ channel, Canonical (RosterV1.new channel) RosterV1.members MemberV1.id ∧
      ∀ members r, RosterV1.new channel members = .ok r →
        (r.members.map fun m => m.weight.val).sum ≤ u64Max ∧
          ∀ id m, r.get id = some m ↔ m ∈ members ∧ m.id = id) ∧
    (Canonical IdentitiesV1.new IdentitiesV1.persons PersonV1.id ∧
      ∀ persons s, IdentitiesV1.new persons = .ok s →
        (∀ id p, s.get id = some p ↔ p ∈ persons ∧ p.id = id) ∧
          (∀ id key, s.keyOf id = some key ↔ ∃ p, s.holderOf key = some p ∧ p.id = id) ∧
          ∀ key, ∀ p ∈ persons, ∀ q ∈ persons, p.key = some key → q.key = some key → p = q) ∧
    (Canonical AuthorisationV1.new AuthorisationV1.signers SignerV1.key ∧
      ∀ signers a, AuthorisationV1.new signers = .ok a →
        ∀ person family, a.allows person family = true ↔ ⟨person, family⟩ ∈ signers) ∧
    (∀ channel, Canonical (ChannelScopeV1.new channel) ChannelScopeV1.parts RecordKindV1.rank ∧
      ∀ parts s, ChannelScopeV1.new channel parts = .ok s →
        ∀ part, s.allows part = true ↔ part ∈ parts) ∧
    Canonical DecisionChannelsV1.new DecisionChannelsV1.channels DecisionChannelV1.id ∧
      ∀ channels s, DecisionChannelsV1.new channels = .ok s →
        ∀ id c, s.get id = some c ↔ c ∈ channels ∧ c.id = id := by
  refine ⟨⟨shareStructure_canonical, ?_⟩, fun channel => ⟨roster_canonical channel, ?_⟩,
    ⟨identities_canonical, ?_⟩, ⟨authorisation_canonical, ?_⟩,
    fun channel => ⟨channelScope_canonical channel, ?_⟩, decisionChannels_canonical, ?_⟩
  · exact fun holders s hs => ⟨s.total, fun id h => shareStructure_get hs⟩
  · exact fun members r hr => ⟨r.total, fun id m => roster_get hr⟩
  · intro persons s hs
    refine ⟨fun id p => identities_get hs, fun id key => s.keyOf_iff_holderOf, ?_⟩
    exact fun key p hp q hq => identities_key_unique hs hp hq
  · intro signers a ha person family
    rw [AuthorisationV1.allows_iff]
    exact authorisation_canonical.mem_iff ha
  · exact fun parts s hs part => channelScope_allows hs
  · exact fun channels s hs id c => decisionChannels_get hs

end Irena.Core
