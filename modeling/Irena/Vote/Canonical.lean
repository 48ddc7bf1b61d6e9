import Irena.Prunella.Canonical
import Irena.Vote.Lifecycle

/-! # Canonical bytes of votes

What goes on the chain decodes strictly. A vote in progress is written with its ballots as a map,
and reading a map takes its entries in any order. -/

namespace Irena.Vote

open Irena.Library Irena.Library.Outcome Irena.Library.Strings Irena.Prunella

/-- Blocks, transactions, inclusion proofs, ballots and vote records have one byte form each. -/
theorem canonical_types_strict :
    StrictlyInverse Block.codec ∧ StrictlyInverse Transaction.codec ∧
      StrictlyInverse InclusionProof.codec ∧ StrictlyInverse SignedBallotV1.codec ∧
      StrictlyInverse FinalVoteRecordV1.codec :=
  ⟨strictlyInverse _, strictlyInverse _, strictlyInverse _, strictlyInverse _, strictlyInverse _⟩

def VoteStatusV1.tag : VoteStatusV1 → ℕ
  | .draft => 0
  | .frozen => 1
  | .open_ => 2
  | .closed => 3
  | .evaluated => 4
  | .finalized => 5

def VoteStatusV1.ofTag : ℕ → Option VoteStatusV1
  | 0 => some .draft
  | 1 => some .frozen
  | 2 => some .open_
  | 3 => some .closed
  | 4 => some .evaluated
  | 5 => some .finalized
  | _ => none

def VoteStatusV1.codec : Codec VoteStatusV1 :=
  Codec.enum tag ofTag (fun status => by cases status <;> rfl) fun {n status} h => by
    unfold ofTag at h
    split at h <;> first | (obtain rfl := Option.some.inj h; rfl) | cases h

/-- The fields of a vote as they are written, the ballots as a list of entries. -/
def voteFields : Codec (VoteStatusV1 × Text × Text × Hash × Option VoteSnapshotV1 ×
    List (Text × SignedBallotV1) × Option EvaluationSummaryV1 × Option (TxId × ℕ)) :=
  VoteStatusV1.codec.pair <| Codec.text.pair <| Codec.text.pair <| Hash.codec.pair <|
    VoteSnapshotV1.codec.option.pair <| (Codec.text.pair SignedBallotV1.codec).vec.pair <|
    EvaluationSummaryV1.codec.option.pair (TxId.codec.pair Codec.u64).option

/-- A map from its entries; a key given again replaces what it had. -/
def BallotBox.collect (entries : List (Text × SignedBallotV1)) : BallotBox :=
  entries.foldl SortedTable.insert .empty

namespace VoteV1

def canonicalBytes (v : VoteV1) : Bytes :=
  voteFields.encode (v.status, v.company, v.subject, v.proposalDigest, v.snapshot, v.box.entries,
    v.evaluation, v.finalized)

def fromCanonicalBytes (bytes : Bytes) : Except CanonicalError VoteV1 := do
  let (status, company, subject, proposalDigest, snapshot, entries, evaluation, finalized) ←
    decode voteFields bytes
  return ⟨status, company, subject, proposalDigest, snapshot, .collect entries, evaluation,
    finalized⟩

/-- A vote written to a file is read back as it was. -/
theorem fromCanonicalBytes_canonicalBytes (v : VoteV1) :
    fromCanonicalBytes v.canonicalBytes = .ok v := by
  have hbox : BallotBox.collect v.box.entries = v.box := SortedTable.foldl_insert_entries v.box
  rw [fromCanonicalBytes, canonicalBytes, decode_eq_ok.mpr rfl, ok_bind]
  simp only [hbox, pure_eq_ok]

/-- The ballots that bytes list, if they spell a vote at all, stand in the order of their keys, each
key once. -/
def ListsInOrder (bytes : Bytes) : Prop :=
  ∀ status company subject digest snapshot entries evaluation finalized,
    decode voteFields bytes =
      .ok (status, company, subject, digest, snapshot, entries, evaluation, finalized) →
    entries.Pairwise fun a b : Text × SignedBallotV1 => a.1 < b.1

theorem fromCanonicalBytes_eq_ok {bytes : Bytes} {v : VoteV1} :
    fromCanonicalBytes bytes = .ok v ↔ ∃ entries, decode voteFields bytes =
      .ok (v.status, v.company, v.subject, v.proposalDigest, v.snapshot, entries, v.evaluation,
        v.finalized) ∧ .collect entries = v.box := by
  simp only [fromCanonicalBytes, bind_eq_ok, pure_eq_ok, Except.ok.injEq]
  constructor
  · rintro ⟨⟨status, company, subject, digest, snapshot, entries, evaluation, finalized⟩, hread, rfl⟩
    exact ⟨entries, hread, rfl⟩
  · rintro ⟨entries, hread, hbox⟩
    refine ⟨_, hread, ?_⟩
    rw [hbox]

theorem listsInOrder_canonicalBytes (v : VoteV1) : ListsInOrder v.canonicalBytes := by
  intro status company subject digest snapshot entries evaluation finalized hread
  have hfields := voteFields.encode_injective (decode_eq_ok.mp hread)
  simp only [Prod.mk.injEq] at hfields
  obtain ⟨-, -, -, -, -, rfl, -, -⟩ := hfields
  exact v.box.sorted

/-- Bytes that list their ballots in order are the canonical bytes of the vote they decode to. -/
theorem ListsInOrder.canonicalBytes_eq {bytes : Bytes} (h : ListsInOrder bytes) {v : VoteV1}
    (hread : fromCanonicalBytes bytes = .ok v) : v.canonicalBytes = bytes := by
  obtain ⟨entries, hfields, hbox⟩ := fromCanonicalBytes_eq_ok.mp hread
  have hentries : v.box.entries = entries := by
    rw [← hbox]
    exact SortedTable.foldl_insert (t := .empty) (h _ _ _ _ _ _ _ _ hfields)
  rw [VoteV1.canonicalBytes, hentries]
  exact decode_eq_ok.mp hfields

/-- Bytes are the one form of the vote they decode to exactly when they list its ballots in the order
of their keys, each key once. -/
theorem one_form_iff (bytes : Bytes) :
    (∀ v, fromCanonicalBytes bytes = .ok v → v.canonicalBytes = bytes ∧
      ∀ other, ListsInOrder other → fromCanonicalBytes other = .ok v → other = bytes) ↔
    ListsInOrder bytes := by
  constructor
  · intro h status company subject digest snapshot entries evaluation finalized hread
    obtain ⟨hbytes, -⟩ := h ⟨status, company, subject, digest, snapshot, .collect entries, evaluation,
      finalized⟩ (fromCanonicalBytes_eq_ok.mpr ⟨entries, hread, rfl⟩)
    rw [← hbytes] at hread
    exact listsInOrder_canonicalBytes _ _ _ _ _ _ _ _ _ hread
  · intro h v hread
    have hbytes := h.canonicalBytes_eq hread
    exact ⟨hbytes, fun other hother hread' => (hother.canonicalBytes_eq hread').symm.trans hbytes⟩

end VoteV1

/-- A ballot of a voter, with a number in place of its signature. -/
def ballotBy (voter : Text) (n : ℕ) : SignedBallotV1 := ⟨⟨⟨⟨0⟩⟩, voter, .yes⟩, ⟨n⟩⟩

/-- The bytes of a draft that list these ballots. -/
def listing (entries : List (Text × SignedBallotV1)) : Bytes :=
  voteFields.encode (.draft, [], [], ⟨0⟩, none, entries, none, none)

theorem fromCanonicalBytes_listing (entries : List (Text × SignedBallotV1)) :
    VoteV1.fromCanonicalBytes (listing entries) =
      .ok { VoteV1.draft [] ⟨0⟩ with box := .collect entries } :=
  VoteV1.fromCanonicalBytes_eq_ok.mpr ⟨entries, decode_eq_ok.mpr rfl, rfl⟩

/-- Ballots listed out of order are put in order, and of two ballots under one key the first is
dropped: the bytes differ and the votes do not. -/
theorem fromCanonicalBytes_reorders :
    (∃ first second v, first ≠ second ∧ VoteV1.fromCanonicalBytes first = .ok v ∧
      VoteV1.fromCanonicalBytes second = .ok v ∧ v.box.entries.length = 2) ∧
    ∃ first second v, first ≠ second ∧ VoteV1.fromCanonicalBytes first = .ok v ∧
      VoteV1.fromCanonicalBytes second = .ok v ∧ v.box.entries.length = 1 := by
  have hne : ∀ {xs ys : List (Text × SignedBallotV1)}, xs ≠ ys → listing xs ≠ listing ys := by
    intro xs ys h hsame
    have hfields := voteFields.encode_injective hsame
    simp only [Prod.mk.injEq] at hfields
    exact h hfields.2.2.2.2.2.1
  have hread : ∀ {xs ys : List (Text × SignedBallotV1)},
      BallotBox.collect xs = BallotBox.collect ys →
      VoteV1.fromCanonicalBytes (listing xs) = .ok { VoteV1.draft [] ⟨0⟩ with box := .collect ys } := by
    intro xs ys h
    rw [fromCanonicalBytes_listing, h]
  constructor
  · exact ⟨listing [(lit "b", ballotBy (lit "b") 0), (lit "a", ballotBy (lit "a") 0)],
      listing [(lit "a", ballotBy (lit "a") 0), (lit "b", ballotBy (lit "b") 0)], _,
      hne (by decide), hread (by decide), hread rfl, by decide⟩
  · exact ⟨listing [(lit "a", ballotBy (lit "a") 0), (lit "a", ballotBy (lit "a") 1)],
      listing [(lit "a", ballotBy (lit "a") 1)], _, hne (by decide), hread (by decide), hread rfl,
      by decide⟩

end Irena.Vote
