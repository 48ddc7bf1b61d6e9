import Irena.Core.Written
import Irena.Sample.Company

/-! # Bodies as they are given

Normalising a body takes whitespace and a declaration from it. A given text reads as its normalised
form does, as long as it fits the limit of a document. -/

namespace Irena.Core

open Irena.Library Irena.Library.Outcome Irena.Library.Strings Irena.Library.Markup
open Irena.Library.Utf8 Irena.Bornite Irena.Prunella

section Readers

variable [Scanner]

/-- A document of a kind is read as a body in a record is, and only so. -/
theorem readBodyDocument_iff {kind : RecordKindV1} {xml : Text} {body : RecordBodyV1} :
    readBodyDocument kind xml = .ok body ↔
      ∃ root isEmpty r r', Stands kind xml root isEmpty r r' body := by
  refine ⟨stands_of_readBodyDocument, ?_⟩
  rintro ⟨root, isEmpty, r, r', hsize, hskip, hname, hreads, heof⟩
  have hread {α : Type} {parse : Tag → Bool → IrenaParse α} {wrap : α → RecordBodyV1}
      (hparse : parseBody kind root isEmpty = (do return wrap (← parse root isEmpty))) :
      (readDocument kind.element parse xml).map wrap = .ok body := by
    rw [hparse] at hreads
    obtain ⟨a, r₁, hrun, hwrap⟩ := Parse.run_bind_ok.mp hreads
    obtain ⟨hbody, rfl⟩ : wrap a = body ∧ r₁ = r' := by simpa using hwrap
    exact map_eq_ok.mpr ⟨a, readDocument_eq_ok.mpr
      ⟨hsize, root, isEmpty, r, r₁, hskip, hname, hrun, heof⟩, hbody⟩
  cases kind with
  | companyGenesis =>
    cases isEmpty with
    | true => cases (Prod.mk.inj hreads).1
    | false =>
      obtain ⟨genesis, r₁, hrun, hwrap⟩ := Parse.run_bind_ok.mp hreads
      obtain ⟨hbody, rfl⟩ : RecordBodyV1.companyGenesis genesis = body ∧ r₁ = r' := by
        simpa using hwrap
      refine map_eq_ok.mpr ⟨genesis, ?_, hbody⟩
      simp only [readCompanyGenesisDocument, bind_eq_ok, checkSize_eq_ok, rootStart_eq_ok,
        Prod.exists, Parse.exec_eq_ok, pure_eq_ok, Except.ok.injEq]
      exact ⟨(), hsize, root, r, ⟨hskip, hname⟩, genesis, r₁, hrun, (), heof, rfl⟩
  | identity =>
    obtain ⟨identity, r₁, hrun, hwrap⟩ := Parse.run_bind_ok.mp hreads
    obtain ⟨hbody, rfl⟩ : RecordBodyV1.identity identity = body ∧ r₁ = r' := by simpa using hwrap
    refine map_eq_ok.mpr ⟨identity, ?_, hbody⟩
    obtain ⟨⟨found, issues⟩, r₂, hattributes, hrun⟩ := Parse.run_bind_ok.mp hrun
    obtain ⟨_, r₃, hleaf, hrun⟩ := Parse.run_bind_ok.mp hrun
    obtain ⟨_, r₄, hfinish, hexpect⟩ := Parse.run_bind_ok.mp hrun
    obtain ⟨hissues, rfl⟩ := run_finishIssues_ok.mp hfinish
    obtain ⟨hfound, rfl⟩ := run_expectSome_ok.mp hexpect
    simp only [readIdentityDocument, bind_eq_ok, checkSize_eq_ok, rootOf_eq_ok, Prod.exists,
      Parse.exec_eq_ok, ensure_eq_ok, orError_eq_ok]
    exact ⟨(), hsize, root, isEmpty, r, ⟨hskip, hname⟩, found, issues, r₂, hattributes, (), r₁, hleaf,
      (), heof, (), hissues, hfound⟩
  | shareStructure => exact hread rfl
  | decisionChannels => exact hread rfl
  | identities => exact hread rfl
  | authorisation => exact hread rfl

variable [DocumentScanner]

/-- A given text and its normalised form begin with the same root. -/
theorem opens_alike (text : Text) : ∃ after, after.all isContent = true ∧
    Parse.skip prolog (openDocument text) =
      Parse.skip prolog ((openDocument (normaliseBody text)).frame [] after) := by
  obtain ⟨before, after, htext, hbefore, hafter⟩ := trim_decompose text
  have hkept : Parse.skip prolog (openDocument text) =
      Parse.skip prolog ((openDocument (trim text)).frame [] after) := by
    rw [skip_openDocument rfl fun _ => rfl]
    conv_lhs => rw [htext, List.append_assoc]
    exact skip_opened rfl (fun _ => rfl) (all_isContent hbefore) (trim text) after
  unfold normaliseBody stripDeclaration
  simp only
  split
  · exact ⟨after, all_isContent hafter, hkept⟩
  · rename_i rest hstart
    split
    · rename_i element hend
      obtain ⟨before', after', helement, hbefore', hafter'⟩ := trim_decompose element
      refine ⟨after' ++ after, ?_, ?_⟩
      · rw [List.all_append, all_isContent hafter', all_isContent hafter]
        rfl
      · -- The declaration is one event, and the prologue passes over it.
        have htrim : trim text = lit "<?xml" ++ rest := Plain.stripPrefix_eq_some.mp hstart
        obtain ⟨e, he, hscan⟩ : ∃ e, (e = .declaration ∨ e = .instruction) ∧
            Scanner.scan ⟨[], _⟩ = some (e, _) :=
          DocumentScanner.instructed (afterFirst_append hend after)
        rw [skip_openDocument rfl fun _ => rfl]
        conv_lhs => rw [htext, htrim, List.append_assoc,
          Parse.skip_before rfl (fun _ => rfl) (all_isContent hbefore), List.append_assoc,
          Parse.skip_eq rfl, hscan]
        have hprolog : prolog e = true := by rcases he with rfl | rfl <;> rfl
        simp only [hprolog, if_true]
        conv_lhs => rw [helement]
        rw [List.append_assoc, List.append_assoc]
        exact skip_opened rfl (fun _ => rfl) (all_isContent hbefore') (trim element) (after' ++ after)
    · exact ⟨after, all_isContent hafter, hkept⟩

/-- A text whose normalised form is a document is one itself, where it fits. -/
theorem Stands.given {kind : RecordKindV1} {text : Text} {root : Tag} {isEmpty : Bool}
    {r r' : Reader} {body : RecordBodyV1}
    (h : Stands kind (normaliseBody text) root isEmpty r r' body)
    (hfits : byteLength text ≤ defaultMaxDocumentBytes) :
    ∃ after, Stands kind text root isEmpty (r.frame [] after) (r'.frame [] after) body := by
  obtain ⟨after, hafter, hskip⟩ := opens_alike text
  refine ⟨after, hfits, ?_, h.name, ?_, ?_⟩
  · rw [hskip]
    refine Parse.skip_frame rfl h.begins ?_ ?_ [] after
    · cases isEmpty <;> simp [rootEvent]
    · cases isEmpty <;> simp [rootEvent]
  · have hframe := ((parseBody kind root isEmpty).isLocal inferInstance).frame r
    rw [h.reads] at hframe
    exact hframe trivial [] after
  · obtain ⟨r₁, hend⟩ := expectEof_eq_ok.mp h.ends
    obtain ⟨opened, rest⟩ := r'
    refine expectEof_eq_ok.mpr ?_
    simp only [Reader.frame, List.append_nil]
    exact Parse.skip_after hend hafter

theorem readBodyDocument_given {kind : RecordKindV1} {text : Text} {body : RecordBodyV1}
    (h : readBodyDocument kind (normaliseBody text) = .ok body) :
    readBodyDocument kind text = .ok body ↔ byteLength text ≤ defaultMaxDocumentBytes := by
  constructor
  · intro hgiven
    obtain ⟨_, _, _, _, hstands⟩ := readBodyDocument_iff.mp hgiven
    exact hstands.fits
  · intro hfits
    obtain ⟨root, isEmpty, r, r', hstands⟩ := readBodyDocument_iff.mp h
    obtain ⟨after, hgiven⟩ := hstands.given hfits
    exact readBodyDocument_iff.mpr ⟨root, isEmpty, _, _, hgiven⟩

/-- A composed record says what it was composed of, and its body is what the normalised text reads
as, and the given text where it is not too large to be read. -/
theorem readRecord_composeRecord {kind : RecordKindV1} {company : CompanyIdV1}
    {supersedes : Option TxId} {n : NotarisationV1} {text xml : Text}
    (h : composeRecord kind company supersedes n text = .ok xml) :
    ∃ body, readRecord xml = .ok ⟨company, supersedes, n, body⟩ ∧ body.kind = kind ∧
      readBodyDocument kind (normaliseBody text) = .ok body ∧
      (readBodyDocument kind text = .ok body ↔ byteLength text ≤ defaultMaxDocumentBytes) ∧
      xml = recordText kind company supersedes n (normaliseBody text) := by
  obtain ⟨hxml, body, hbody, hread, hkind⟩ := readRecord_of_compose h
  exact ⟨body, hread, hkind, hbody, readBodyDocument_given hbody, hxml⟩

end Readers

section Samples

open Sample

attribute [local instance] platform

/-- The director's identities, behind as many blanks. -/
def padded (n : ℕ) : Text := List.replicate n ' ' ++ identitiesXml ann

theorem compose_padded (n : ℕ) :
    ∃ xml, composeRecord .identities company none notarisation (padded n) = .ok xml := by
  have htrim : trim (padded n) = trim (identitiesXml ann) := by
    rw [trim, trimStart, padded, List.dropWhile_append_of_pos fun c hc => by
      rw [List.eq_of_mem_replicate hc]
      rfl]
    rfl
  have hsame : composeRecord .identities company none notarisation (padded n) =
      composeRecord .identities company none notarisation (identitiesXml ann) := by
    unfold composeRecord stripDeclaration
    simp only [htrim]
  rw [hsame]
  exact ⟨_, eq_ok_of_toOption (by decide +kernel)⟩

theorem readRecord_composeRecord_identities :
    ∃ xml body, composeRecord .identities company none notarisation (padded 0) = .ok xml ∧
      readRecord xml = .ok ⟨company, none, notarisation, body⟩ ∧ body.kind = .identities ∧
      readBodyDocument .identities (normaliseBody (padded 0)) = .ok body ∧
      (readBodyDocument .identities (padded 0) = .ok body ↔
        byteLength (padded 0) ≤ defaultMaxDocumentBytes) ∧
      xml = recordText .identities company none notarisation (normaliseBody (padded 0)) := by
  have := Plain.scanner_documents
  obtain ⟨xml, hxml⟩ := compose_padded 0
  obtain ⟨body, hbody⟩ := readRecord_composeRecord hxml
  exact ⟨xml, body, hxml, hbody⟩

/-- Blanks that are more than a document may hold are taken away before a record is composed, and
are too large to be read. -/
theorem composeRecord_padded :
    ∃ xml, composeRecord .identities company none notarisation
        (padded (defaultMaxDocumentBytes + 1)) = .ok xml ∧
      ∀ body, readBodyDocument .identities (padded (defaultMaxDocumentBytes + 1)) ≠ .ok body := by
  obtain ⟨xml, hxml⟩ := compose_padded (defaultMaxDocumentBytes + 1)
  refine ⟨xml, hxml, fun body hbody => ?_⟩
  obtain ⟨_, _, _, _, hstands⟩ := readBodyDocument_iff.mp hbody
  have hsize : defaultMaxDocumentBytes + 1 ≤ byteLength (padded (defaultMaxDocumentBytes + 1)) := by
    rw [padded, byteLength_append, byteLength_blanks]
    exact Nat.le_add_right _ _
  exact absurd hstands.fits (by omega)

end Samples

end Irena.Core
