import Irena.Core.Types

/-! # The parts of a company

The share register, the roster, the channel set, the identities and the authorisation. Each is
built by one constructor that sorts and collects every issue; what the constructor establishes is
carried by the value. -/

namespace Irena.Core

open Irena.Library Irena.Library.Outcome Irena.Library.Strings Irena.Library.Markup
open Irena.Library.SortedTable Irena.Bornite Irena.Prunella

/-- Whether adding the numbers in turn passes 64 bits, a sum that would being left out. -/
def sumOverflows : ℕ → List ℕ → Bool
  | _, [] => false
  | total, n :: rest =>
    if total + n ≤ u64Max then sumOverflows (total + n) rest
    else true

theorem sum_le_of_not_overflows {total : ℕ} {ns : List ℕ} (h : sumOverflows total ns = false)
    (htotal : total ≤ u64Max) : total + ns.sum ≤ u64Max := by
  induction ns generalizing total with
  | nil => simpa using htotal
  | cons n ns ih =>
    unfold sumOverflows at h
    split at h
    · rename_i hle
      have := ih h hle
      rw [List.sum_cons]
      omega
    · cases h

structure HolderV1 where
  id : VoterIdV1
  name : Option Text
  shares : U64
deriving DecidableEq

def maxHolders : ℕ := 1000000

structure ShareStructureV1 where
  table : SortedTable HolderV1.id
  positive : ∀ h ∈ table.entries, h.shares.val ≠ 0
  total : (table.entries.map fun h => h.shares.val).sum ≤ u64Max
deriving DecidableEq

def ShareStructureV1.issues (holders : List HolderV1) : List IssueV1 :=
  ((repeats HolderV1.id holders).map fun h => .duplicateHolder h.id) ++
    (holders.filter fun h => h.shares.val == 0).map (fun h => .zeroShares h.id) ++
    if sumOverflows 0 (holders.map fun h => h.shares.val) then [.totalSharesOverflow u64Max] else []

theorem ShareStructureV1.of_issues {holders : List HolderV1} (h : issues (sortBy HolderV1.id holders) = []) :
    (sortBy HolderV1.id holders).Pairwise (fun a b => a.id < b.id) ∧
      (∀ h ∈ sortBy HolderV1.id holders, h.shares.val ≠ 0) ∧
      ((sortBy HolderV1.id holders).map fun h => h.shares.val).sum ≤ u64Max := by
  simp only [issues, List.append_eq_nil_iff, List.map_eq_nil_iff, List.filter_eq_nil_iff,
    ite_eq_right_iff, reduceCtorEq, imp_false, Bool.not_eq_true, beq_eq_false_iff_ne] at h
  obtain ⟨⟨hrepeats, hzero⟩, hover⟩ := h
  refine ⟨strict_of_repeats (sorted_sortBy _ _) hrepeats, hzero, ?_⟩
  have := sum_le_of_not_overflows hover (Nat.zero_le _)
  omega

def ShareStructureV1.new (holders : List HolderV1) : Except IrenaError ShareStructureV1 :=
  if maxHolders < holders.length then .error (invalidIssues [.tooManyHolders maxHolders])
  else if h : issues (sortBy HolderV1.id holders) = [] then
    .ok ⟨⟨sortBy HolderV1.id holders, (of_issues h).1⟩, (of_issues h).2.1, (of_issues h).2.2⟩
  else .error (invalidIssues (issues (sortBy HolderV1.id holders)))

def ShareStructureV1.holders (s : ShareStructureV1) : List HolderV1 := s.table.entries

def ShareStructureV1.get (s : ShareStructureV1) (id : VoterIdV1) : Option HolderV1 := s.table.get id

structure PersonV1 where
  id : VoterIdV1
  name : Option Text
  documentId : Option Text
  key : Option PublicKey
deriving DecidableEq

def maxPersons : ℕ := 1000000

/-- The holder recorded last for a key, and the keys recorded once the person is added. -/
def keyIssue (seen : List (PublicKey × VoterIdV1)) (person : PersonV1) : List IssueV1 :=
  match person.key with
  | none => []
  | some key =>
    match seen.lookup key with
    | some first => if first ≠ person.id then [.duplicateKey first person.id] else []
    | none => []

def keyIssues : List (PublicKey × VoterIdV1) → List PersonV1 → List IssueV1
  | _, [] => []
  | seen, person :: rest =>
    keyIssue seen person ++
      keyIssues (match person.key with
        | some key => (key, person.id) :: seen
        | none => seen) rest

theorem key_unique_of_keyIssues {seen : List (PublicKey × VoterIdV1)} {persons : List PersonV1}
    (h : keyIssues seen persons = []) :
    (∀ p ∈ persons, ∀ key, p.key = some key → ∀ id, seen.lookup key = some id → id = p.id) ∧
      ∀ p ∈ persons, ∀ q ∈ persons, ∀ key, p.key = some key → q.key = some key → p.id = q.id := by
  induction persons generalizing seen with
  | nil => simp
  | cons person rest ih =>
    rw [keyIssues, List.append_eq_nil_iff] at h
    obtain ⟨hhead, hrest⟩ := h
    obtain ⟨hseen, hpairs⟩ := ih hrest
    have hfirst : ∀ key, person.key = some key → ∀ id, seen.lookup key = some id →
        id = person.id := by
      intro key hkey id hid
      by_contra hne
      simp [keyIssue, hkey, hid, hne] at hhead
    have hlater : ∀ p ∈ rest, ∀ key, person.key = some key → p.key = some key →
        person.id = p.id := by
      intro p hp key hperson hkey
      exact hseen p hp key hkey person.id (by simp [hperson])
    constructor
    · intro p hp key hkey id hid
      rcases List.mem_cons.mp hp with rfl | hp
      · exact hfirst key hkey id hid
      · cases hperson : person.key with
        | none => exact hseen p hp key hkey id (by simpa [hperson] using hid)
        | some key' =>
          by_cases heq : key = key'
          · subst heq
            rw [hfirst key hperson id hid]
            exact hlater p hp key hperson hkey
          · have hbeq : (key == key') = false := beq_eq_false_iff_ne.mpr heq
            exact hseen p hp key hkey id (by simpa [hperson, List.lookup_cons, hbeq] using hid)
    · intro p hp q hq key hpkey hqkey
      rcases List.mem_cons.mp hp with rfl | hprest
      · rcases List.mem_cons.mp hq with rfl | hqrest
        · rfl
        · exact hlater q hqrest key hpkey hqkey
      · rcases List.mem_cons.mp hq with rfl | hqrest
        · exact (hlater p hprest key hqkey hpkey).symm
        · exact hpairs p hprest q hqrest key hpkey hqkey

structure IdentitiesV1 where
  table : SortedTable PersonV1.id
  keys : ∀ p ∈ table.entries, ∀ q ∈ table.entries, ∀ key,
    p.key = some key → q.key = some key → p.id = q.id
deriving DecidableEq

def IdentitiesV1.issues (persons : List PersonV1) : List IssueV1 :=
  ((repeats PersonV1.id persons).map fun p => .duplicatePerson p.id) ++ keyIssues [] persons

theorem IdentitiesV1.of_issues {persons : List PersonV1} (h : issues (sortBy PersonV1.id persons) = []) :
    (sortBy PersonV1.id persons).Pairwise (fun a b => a.id < b.id) ∧
      ∀ p ∈ sortBy PersonV1.id persons, ∀ q ∈ sortBy PersonV1.id persons, ∀ key,
        p.key = some key → q.key = some key → p.id = q.id := by
  rw [issues, List.append_eq_nil_iff, List.map_eq_nil_iff] at h
  exact ⟨strict_of_repeats (sorted_sortBy _ _) h.1, (key_unique_of_keyIssues h.2).2⟩

def IdentitiesV1.new (persons : List PersonV1) : Except IrenaError IdentitiesV1 :=
  if maxPersons < persons.length then .error (invalidIssues [.tooManyPersons maxPersons])
  else if h : issues (sortBy PersonV1.id persons) = [] then
    .ok ⟨⟨sortBy PersonV1.id persons, (of_issues h).1⟩, (of_issues h).2⟩
  else .error (invalidIssues (issues (sortBy PersonV1.id persons)))

namespace IdentitiesV1

def persons (s : IdentitiesV1) : List PersonV1 := s.table.entries

def get (s : IdentitiesV1) (id : VoterIdV1) : Option PersonV1 := s.table.get id

def keyOf (s : IdentitiesV1) (id : VoterIdV1) : Option PublicKey := (s.get id).bind PersonV1.key

/-- The person who holds a key. -/
def holderOf (s : IdentitiesV1) (key : PublicKey) : Option PersonV1 :=
  s.persons.find? fun person => person.key == some key

/-- A key names the person whose key it is, and no other. -/
theorem holderOf_eq_some {s : IdentitiesV1} {key : PublicKey} {p : PersonV1} :
    s.holderOf key = some p ↔ p ∈ s.persons ∧ p.key = some key := by
  constructor
  · intro h
    exact ⟨List.mem_of_find?_eq_some h, by simpa using List.find?_some h⟩
  · rintro ⟨hmem, hkey⟩
    cases hfind : s.holderOf key with
    | none =>
      have := List.find?_eq_none.mp hfind p hmem
      simp [hkey] at this
    | some q =>
      have hq : q ∈ s.persons := List.mem_of_find?_eq_some hfind
      have hqkey : q.key = some key := by simpa using List.find?_some hfind
      rw [Option.some.injEq]
      exact s.table.eq_of_key_eq hq hmem (s.keys q hq p hmem key hqkey hkey)

theorem keyOf_eq_some {s : IdentitiesV1} {id : VoterIdV1} {key : PublicKey} :
    s.keyOf id = some key ↔ ∃ p ∈ s.persons, p.id = id ∧ p.key = some key := by
  rw [keyOf, Option.bind_eq_some_iff]
  constructor
  · rintro ⟨p, hp, hkey⟩
    obtain ⟨hmem, hid⟩ := SortedTable.get_eq_some.mp hp
    exact ⟨p, hmem, hid, hkey⟩
  · rintro ⟨p, hmem, hid, hkey⟩
    exact ⟨p, SortedTable.get_eq_some.mpr ⟨hmem, hid⟩, hkey⟩

end IdentitiesV1

structure SignerV1 where
  person : VoterIdV1
  family : RecordFamilyV1
deriving DecidableEq

def SignerV1.key (s : SignerV1) : Lex (VoterIdV1 × ℕ) := toLex (s.person, s.family.rank)

theorem SignerV1.key_injective : Function.Injective SignerV1.key := by
  intro s t h
  obtain ⟨hperson, hfamily⟩ := Prod.mk.inj (toLex.injective h)
  cases s
  cases t
  rw [SignerV1.mk.injEq]
  exact ⟨hperson, RecordFamilyV1.rank_injective hfamily⟩

structure AuthorisationV1 where
  table : SortedTable SignerV1.key
  company : ∃ s ∈ table.entries, s.family = .company
deriving DecidableEq

def AuthorisationV1.issues (signers : List SignerV1) : List IssueV1 :=
  ((repeats SignerV1.key signers).map fun s => .duplicateSigner s.person s.family) ++
    if ∃ s ∈ signers, s.family = .company then [] else [.noCompanySigner]

theorem AuthorisationV1.of_issues {signers : List SignerV1}
    (h : issues (sortBy SignerV1.key signers) = []) :
    (sortBy SignerV1.key signers).Pairwise (fun a b => a.key < b.key) ∧
      ∃ s ∈ sortBy SignerV1.key signers, s.family = .company := by
  rw [issues, List.append_eq_nil_iff, List.map_eq_nil_iff] at h
  refine ⟨strict_of_repeats (sorted_sortBy _ _) h.1, ?_⟩
  by_contra hcon
  rw [if_neg hcon] at h
  cases h.2

def AuthorisationV1.new (signers : List SignerV1) : Except IrenaError AuthorisationV1 :=
  if h : issues (sortBy SignerV1.key signers) = [] then
    .ok ⟨⟨sortBy SignerV1.key signers, (of_issues h).1⟩, (of_issues h).2⟩
  else .error (invalidIssues (issues (sortBy SignerV1.key signers)))

namespace AuthorisationV1

def signers (a : AuthorisationV1) : List SignerV1 := a.table.entries

def personsFor (a : AuthorisationV1) (family : RecordFamilyV1) : List VoterIdV1 :=
  (a.signers.filter fun s => s.family = family).map SignerV1.person

def familiesOf (a : AuthorisationV1) (person : VoterIdV1) : List RecordFamilyV1 :=
  (a.signers.filter fun s => s.person = person).map SignerV1.family

def allows (a : AuthorisationV1) (person : VoterIdV1) (family : RecordFamilyV1) : Bool :=
  (a.table.get (SignerV1.key ⟨person, family⟩)).isSome

theorem allows_iff {a : AuthorisationV1} {person : VoterIdV1} {family : RecordFamilyV1} :
    a.allows person family = true ↔ ⟨person, family⟩ ∈ a.signers := by
  rw [allows, Option.isSome_iff_exists]
  constructor
  · rintro ⟨s, hs⟩
    obtain ⟨hmem, hkey⟩ := SortedTable.get_eq_some.mp hs
    exact SignerV1.key_injective hkey ▸ hmem
  · exact fun hmem => ⟨_, SortedTable.get_eq_some.mpr ⟨hmem, rfl⟩⟩

end AuthorisationV1

structure MemberV1 where
  id : VoterIdV1
  name : Option Text
  weight : U64
deriving DecidableEq

def maxMembers : ℕ := 100000

structure RosterV1 where
  table : SortedTable MemberV1.id
  nonempty : table.entries ≠ []
  positive : ∀ m ∈ table.entries, m.weight.val ≠ 0
  total : (table.entries.map fun m => m.weight.val).sum ≤ u64Max
deriving DecidableEq

def RosterV1.issues (channel : ChannelIdV1) (members : List MemberV1) : List IssueV1 :=
  (if members = [] then [.emptyRoster channel] else []) ++
    ((repeats MemberV1.id members).map fun m => .duplicateMember channel m.id) ++
    ((members.filter fun m => m.weight.val == 0).map fun m => .zeroWeight channel m.id) ++
    if sumOverflows 0 (members.map fun m => m.weight.val) then [.totalWeightOverflow channel u64Max]
    else []

theorem RosterV1.of_issues {channel : ChannelIdV1} {members : List MemberV1}
    (h : issues channel (sortBy MemberV1.id members) = []) :
    (sortBy MemberV1.id members).Pairwise (fun a b => a.id < b.id) ∧
      sortBy MemberV1.id members ≠ [] ∧ (∀ m ∈ sortBy MemberV1.id members, m.weight.val ≠ 0) ∧
      ((sortBy MemberV1.id members).map fun m => m.weight.val).sum ≤ u64Max := by
  simp only [issues, List.append_eq_nil_iff, List.map_eq_nil_iff, List.filter_eq_nil_iff,
    ite_eq_right_iff, reduceCtorEq, imp_false, Bool.not_eq_true, beq_eq_false_iff_ne] at h
  obtain ⟨⟨⟨hempty, hrepeats⟩, hzero⟩, hover⟩ := h
  refine ⟨strict_of_repeats (sorted_sortBy _ _) hrepeats, hempty, hzero, ?_⟩
  have := sum_le_of_not_overflows hover (Nat.zero_le _)
  omega

def RosterV1.new (channel : ChannelIdV1) (members : List MemberV1) : Except IrenaError RosterV1 :=
  if maxMembers < members.length then .error (invalidIssues [.tooManyMembers channel maxMembers])
  else if h : issues channel (sortBy MemberV1.id members) = [] then
    .ok ⟨⟨sortBy MemberV1.id members, (of_issues h).1⟩, (of_issues h).2.1, (of_issues h).2.2.1,
      (of_issues h).2.2.2⟩
  else .error (invalidIssues (issues channel (sortBy MemberV1.id members)))

def RosterV1.members (r : RosterV1) : List MemberV1 := r.table.entries

def RosterV1.get (r : RosterV1) (id : VoterIdV1) : Option MemberV1 := r.table.get id

inductive ActorSourceV1 where
  | shareRegister
  | roster (roster : RosterV1)
deriving DecidableEq

def ActorSourceV1.asStr : ActorSourceV1 → Text
  | .shareRegister => lit "share-register"
  | .roster _ => lit "roster"

inductive ChannelModeV1 where
  | individual
  | collective (rules : VotingRulesV1)
deriving DecidableEq

namespace ChannelModeV1

def asStr : ChannelModeV1 → Text
  | individual => lit "individual"
  | collective _ => lit "collective"

def isIndividual : ChannelModeV1 → Bool
  | individual => true
  | collective _ => false

def rules : ChannelModeV1 → Option VotingRulesV1
  | individual => none
  | collective rules => some rules

end ChannelModeV1

/-- The parts a channel may amend, in declaration order. -/
structure ChannelScopeV1 where
  table : SortedTable RecordKindV1.rank
  nonempty : table.entries ≠ []
  amendments : ∀ part ∈ table.entries, part ≠ .companyGenesis
deriving DecidableEq

def ChannelScopeV1.issues (channel : ChannelIdV1) (parts : List RecordKindV1) : List IssueV1 :=
  (if parts = [] then [.emptyScope channel] else []) ++
    ((repeats RecordKindV1.rank parts).map (.duplicateScopePart channel)) ++
    (parts.filter fun part => part ∉ RecordKindV1.amendments).map (.scopeNotAnAmendment channel)

theorem ChannelScopeV1.of_issues {channel : ChannelIdV1} {parts : List RecordKindV1}
    (h : issues channel (sortBy RecordKindV1.rank parts) = []) :
    (sortBy RecordKindV1.rank parts).Pairwise (fun a b => a.rank < b.rank) ∧
      sortBy RecordKindV1.rank parts ≠ [] ∧
      ∀ part ∈ sortBy RecordKindV1.rank parts, part ≠ .companyGenesis := by
  simp only [issues, List.append_eq_nil_iff, List.map_eq_nil_iff, List.filter_eq_nil_iff,
    ite_eq_right_iff, reduceCtorEq, imp_false, decide_eq_true_eq, not_not] at h
  obtain ⟨⟨hempty, hrepeats⟩, hamend⟩ := h
  exact ⟨strict_of_repeats (sorted_sortBy _ _) hrepeats, hempty,
    fun part hmem => RecordKindV1.mem_amendments.mp (hamend part hmem)⟩

def ChannelScopeV1.new (channel : ChannelIdV1) (parts : List RecordKindV1) :
    Except IrenaError ChannelScopeV1 :=
  if h : issues channel (sortBy RecordKindV1.rank parts) = [] then
    .ok ⟨⟨sortBy RecordKindV1.rank parts, (of_issues h).1⟩, (of_issues h).2.1, (of_issues h).2.2⟩
  else .error (invalidIssues (issues channel (sortBy RecordKindV1.rank parts)))

def ChannelScopeV1.parts (s : ChannelScopeV1) : List RecordKindV1 := s.table.entries

def ChannelScopeV1.allows (s : ChannelScopeV1) (part : RecordKindV1) : Bool := s.parts.contains part

structure DecisionChannelV1 where
  id : ChannelIdV1
  actors : ActorSourceV1
  mode : ChannelModeV1
  scope : Option ChannelScopeV1
deriving DecidableEq

def DecisionChannelV1.mayAmend (c : DecisionChannelV1) (part : RecordKindV1) : Bool :=
  match c.scope with
  | some scope => scope.allows part
  | none => false

def maxChannels : ℕ := 1000

structure DecisionChannelsV1 where
  table : SortedTable DecisionChannelV1.id
  nonempty : table.entries ≠ []
deriving DecidableEq

def DecisionChannelsV1.issues (channels : List DecisionChannelV1) : List IssueV1 :=
  (if channels = [] then [.noChannels] else []) ++
    (repeats DecisionChannelV1.id channels).map fun c => .duplicateChannel c.id

theorem DecisionChannelsV1.of_issues {channels : List DecisionChannelV1}
    (h : issues (sortBy DecisionChannelV1.id channels) = []) :
    (sortBy DecisionChannelV1.id channels).Pairwise (fun a b => a.id < b.id) ∧
      sortBy DecisionChannelV1.id channels ≠ [] := by
  simp only [issues, List.append_eq_nil_iff, List.map_eq_nil_iff, ite_eq_right_iff, reduceCtorEq,
    imp_false] at h
  exact ⟨strict_of_repeats (sorted_sortBy _ _) h.2, h.1⟩

def DecisionChannelsV1.new (channels : List DecisionChannelV1) :
    Except IrenaError DecisionChannelsV1 :=
  if maxChannels < channels.length then .error (invalidIssues [.tooManyChannels maxChannels])
  else if h : issues (sortBy DecisionChannelV1.id channels) = [] then
    .ok ⟨⟨sortBy DecisionChannelV1.id channels, (of_issues h).1⟩, (of_issues h).2⟩
  else .error (invalidIssues (issues (sortBy DecisionChannelV1.id channels)))

def DecisionChannelsV1.channels (s : DecisionChannelsV1) : List DecisionChannelV1 := s.table.entries

def DecisionChannelsV1.get (s : DecisionChannelsV1) (id : ChannelIdV1) : Option DecisionChannelV1 :=
  s.table.get id

structure IdentityV1 where
  name : Text
  jurisdiction : Option Text
  registeredNumber : Option Text
deriving DecidableEq

def IdentityV1.validate (i : IdentityV1) : Except IrenaError Unit :=
  if trim i.name = [] then
    rejectValue (lit "identity") (lit "name") i.name (lit "must not be empty")
  else .ok ()

structure CompanyGenesisV1 where
  identity : IdentityV1
  incorporationDigest : Option Hash
  shares : ShareStructureV1
  channels : DecisionChannelsV1
  identities : IdentitiesV1
  authorisation : AuthorisationV1
deriving DecidableEq

def notaryIdReason (value : Text) : Option Text :=
  if value = [] then some (lit "must not be empty")
  else if 128 < Utf8.byteLength value then some (lit "must be at most 128 bytes")
  else if value.all voterIdCharacter then none
  else some (lit "may only contain ASCII letters, digits, '.', '_', ':', '+', '@' and '-'")

structure NotaryIdV1 where
  value : Text
  valid : notaryIdReason value = none
deriving DecidableEq

def NotaryIdV1.new (value : Text) : Except IrenaError NotaryIdV1 :=
  match h : notaryIdReason value with
  | some reason => rejectValue (lit "notarisation") (lit "id") value reason
  | none => .ok ⟨value, h⟩

def daysInMonth (year month : ℕ) : ℕ :=
  if month ∈ [1, 3, 5, 7, 8, 10, 12] then 31
  else if month ∈ [4, 6, 9, 11] then 30
  else if year % 4 = 0 ∧ (year % 100 ≠ 0 ∨ year % 400 = 0) then 29
  else 28

/-- The symbol a time has at a position, where it has no digit. -/
def timeSymbol (index : ℕ) : Option ℕ :=
  if index = 4 ∨ index = 7 then some 45
  else if index = 10 then some 84
  else if index = 13 ∨ index = 16 then some 58
  else if index = 19 then some 90
  else none

/-- What is wrong with the first byte that does not fit the form of a time. -/
def timeFormReason : ℕ → Bytes → Option Text
  | _, [] => none
  | index, byte :: rest =>
    match timeSymbol index with
    | some symbol =>
      if byte = symbol then timeFormReason (index + 1) rest
      else some (lit
        "must use '-', 'T', ':' and a trailing 'Z' exactly as in YYYY-MM-DDTHH:MM:SSZ")
    | none =>
      if 48 ≤ byte ∧ byte ≤ 57 then timeFormReason (index + 1) rest
      else some (lit "must be exactly YYYY-MM-DDTHH:MM:SSZ with ASCII digits")

/-- The number spelled by the digits from one position up to another. -/
def timeField (bytes : Bytes) (first last : ℕ) : ℕ :=
  ((bytes.take last).drop first).foldl (fun n byte => 10 * n + (byte - 48)) 0

def timeReason (text : Text) : Option Text :=
  let bytes := Utf8.utf8 text
  if bytes.length ≠ 20 then some (lit "must be exactly YYYY-MM-DDTHH:MM:SSZ")
  else
    match timeFormReason 0 bytes with
    | some reason => some reason
    | none =>
      let year := timeField bytes 0 4
      let month := timeField bytes 5 7
      let day := timeField bytes 8 10
      if month = 0 ∨ 12 < month then some (lit "month must be 01 to 12")
      else if day = 0 ∨ daysInMonth year month < day then some (lit "day is outside the month")
      else if 23 < timeField bytes 11 13 then some (lit "hour must be 00 to 23")
      else if 59 < timeField bytes 14 16 then some (lit "minute must be 00 to 59")
      else if 59 < timeField bytes 17 19 then
        some (lit "second must be 00 to 59; leap seconds are not accepted")
      else none

structure NotaryTimeV1 where
  value : Text
  valid : timeReason value = none
deriving DecidableEq

def NotaryTimeV1.parse (text : Text) : Except IrenaError NotaryTimeV1 :=
  match h : timeReason text with
  | some reason => rejectValue (lit "notarisation") (lit "at") text reason
  | none => .ok ⟨text, h⟩

structure NotarisationV1 where
  id : NotaryIdV1
  name : Text
  address : Option Text
  at_ : NotaryTimeV1
  statement : Option Text
  sourceDigest : Option Hash
deriving DecidableEq

def NotarisationV1.validate (n : NotarisationV1) : Except IrenaError Unit :=
  if trim n.name = [] then
    rejectValue (lit "notarisation") (lit "name") n.name (lit "must not be empty")
  else .ok ()

def recordVersion : Text := lit "1.0"

inductive RecordBodyV1 where
  | companyGenesis (genesis : CompanyGenesisV1)
  | identity (identity : IdentityV1)
  | shareStructure (structure_ : ShareStructureV1)
  | decisionChannels (channels : DecisionChannelsV1)
  | identities (identities : IdentitiesV1)
  | authorisation (authorisation : AuthorisationV1)
deriving DecidableEq

def RecordBodyV1.kind : RecordBodyV1 → RecordKindV1
  | .companyGenesis _ => .companyGenesis
  | .identity _ => .identity
  | .shareStructure _ => .shareStructure
  | .decisionChannels _ => .decisionChannels
  | .identities _ => .identities
  | .authorisation _ => .authorisation

structure IrenaRecordV1 where
  company : CompanyIdV1
  supersedes : Option TxId
  notarisation : NotarisationV1
  body : RecordBodyV1
deriving DecidableEq

def IrenaRecordV1.kind (r : IrenaRecordV1) : RecordKindV1 := r.body.kind

end Irena.Core
