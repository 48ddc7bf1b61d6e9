import Irena.Resolution.Composed

/-! # When an execution record is composed

Every text of an execution record but its notarisation's is spelled from an alphabet that a reader
leaves alone. So the record is composed exactly when it fits and its notarisation is unbroken. -/

namespace Irena.Resolution

open Irena.Library Irena.Library.Outcome Irena.Library.Strings Irena.Library.Markup
open Irena.Library.Utf8 Irena.Library.Numeral Irena.Core Irena.Bornite Irena.Prunella

variable {company : CompanyIdV1} {n : NotarisationV1} {execution : ResolutionExecutionV1}

def executionPairs (company : CompanyIdV1) (execution : ResolutionExecutionV1) :
    List (Text × Text) :=
  [(lit "version", resolutionVersion), (lit "company", company.value),
    (lit "resolution", execution.resolutionId.txId.toHex),
    (lit "amendment", execution.amendmentTx.toHex), (lit "target", execution.target.asStr),
    (lit "replaced", execution.replacedTx.toHex), (lit "body-digest", execution.bodyDigest.toHex)]

/-- What follows the start tag of an execution. -/
def executionContent (n : NotarisationV1) : Text :=
  lit "\n  " ++ (lit "<" ++ lit "notarisation" ++ writePairs (notarisationPairs n) ++ lit "/>" ++
    (lit "\n" ++ (lit "</" ++ lit "irena-execution" ++ lit ">" ++ [])))

theorem executionText_eq :
    executionText company n execution = lit "<" ++ lit "irena-execution" ++
      writePairs (executionPairs company execution) ++ lit ">" ++ executionContent n := by
  have hversion : writeAttribute (lit "version") resolutionVersion =
      writePair (lit "version", resolutionVersion) := writeAttribute_plain (by decide)
  have hroot : lit "<irena-execution" = lit "<" ++ lit "irena-execution" := rfl
  have hline : lit ">\n  " = lit ">" ++ lit "\n  " := rfl
  have hclose : lit "\n</irena-execution>" = lit "\n" ++ (lit "</" ++ (lit "irena-execution" ++
    lit ">")) := rfl
  simp only [executionText, hversion, writeAttribute_plain (plain_of_label company.valid),
    writeAttribute_plain (plain_txId _), writeAttribute_plain (plain_target _),
    writeAttribute_plain (plain_hash _), executionPairs, executionContent, writeNotarisation_eq,
    hroot, hline, hclose, writePairs_cons, writePairs_nil, List.append_assoc, List.append_nil]

def executionNames : Finset Text :=
  {lit "body-digest", lit "replaced", lit "target", lit "amendment", lit "resolution",
    lit "company", lit "version"}

theorem lookup_executionPairs :
    (executionPairs company execution).lookup (lit "version") = some resolutionVersion ∧
    (executionPairs company execution).lookup (lit "company") = some company.value ∧
    (executionPairs company execution).lookup (lit "resolution") =
      some execution.resolutionId.txId.toHex ∧
    (executionPairs company execution).lookup (lit "amendment") =
      some execution.amendmentTx.toHex ∧
    (executionPairs company execution).lookup (lit "target") = some execution.target.asStr ∧
    (executionPairs company execution).lookup (lit "replaced") = some execution.replacedTx.toHex ∧
    (executionPairs company execution).lookup (lit "body-digest") =
      some execution.bodyDigest.toHex :=
  ⟨by rfl, by rfl, by rfl, by rfl, by rfl, by rfl, by rfl⟩

theorem writable_execution : Writable (lit "irena-execution") (executionPairs company execution) where
  name := by decide
  keys := by
    simp only [executionPairs, List.forall_mem_cons, List.not_mem_nil, false_implies, implies_true,
      and_true]
    decide
  nodup := by simp [executionPairs, lit]

theorem mem_executionNames :
    ∀ key ∈ (executionPairs company execution).map Prod.fst, key ∈ executionNames := by
  simp only [executionPairs, List.map_cons, List.map_nil]
  decide

theorem yields_execution :
    Yields (readPairs (executionPairs company execution)) ∅ executionAttributes
      ⟨some resolutionVersion, some company.value, some execution.resolutionId.txId.toHex,
        some execution.amendmentTx.toHex, some execution.target.asStr,
        some execution.replacedTx.toHex, some execution.bodyDigest.toHex⟩ executionNames := by
  obtain ⟨hversion, hcompany, hresolution, hamendment, htarget, hreplaced, hdigest⟩ :=
    @lookup_executionPairs company execution
  have hplain {text : Text} (h : text.all isPlain = true) :
      (some text).map normaliseValue = some text := congrArg some (normaliseValue_plain h)
  refine (yields_require (by decide) ((lookup_written hversion).trans (hplain (by decide)))).bind ?_
  refine (yields_require (by decide)
    ((lookup_written hcompany).trans (hplain (plain_of_label company.valid)))).bind ?_
  refine (yields_require (by decide)
    ((lookup_written hresolution).trans (hplain (plain_txId _)))).bind ?_
  refine (yields_require (by decide)
    ((lookup_written hamendment).trans (hplain (plain_txId _)))).bind ?_
  refine (yields_require (by decide)
    ((lookup_written htarget).trans (hplain (plain_target _)))).bind ?_
  refine (yields_require (by decide)
    ((lookup_written hreplaced).trans (hplain (plain_txId _)))).bind ?_
  exact (yields_require (by decide)
    ((lookup_written hdigest).trans (hplain (plain_hash _)))).bind yields_pure

section Readers

variable [Scanner]

theorem run_readExecutionRoot (r : Reader) :
    (readExecutionRoot ⟨lit "irena-execution", some (readPairs (executionPairs company execution))⟩).run
      r = (.ok ⟨company, execution⟩, r) := by
  have hcovers := covers_readPairs (@writable_execution company execution) mem_executionNames
  have htx (key : Text) (txId : TxId) : txOf key txId.toHex = .ok txId := by
    simp [txOf, spelled]
  have htarget : targetOf (lit "irena-execution") execution.target.asStr = .ok execution.target := by
    simp [targetOf, spelled]
  have hdigest : hashValue (lit "irena-execution") (lit "body-digest") execution.bodyDigest.toHex =
      .ok execution.bodyDigest := by
    simp [hashValue, spelled]
  refine Parse.run_bind_ok.mpr ⟨_, r, yields_execution.run hcovers r, ?_⟩
  refine Parse.run_bind_ok.mpr ⟨(), r, run_finishIssues_ok.mpr ⟨rfl, rfl⟩, ?_⟩
  refine Parse.run_bind_ok.mpr ⟨_, r, run_expectSome_ok.mpr ⟨rfl, rfl⟩, ?_⟩
  refine Parse.run_bind_ok.mpr ⟨(), r, ?_, ?_⟩
  · rw [checkVersion, if_pos rfl]
    rfl
  refine Parse.run_bind_ok.mpr ⟨_, r, run_expectSome_ok.mpr ⟨rfl, rfl⟩, ?_⟩
  refine Parse.run_bind_ok.mpr ⟨company, r, congrArg (·, r) (CompanyIdV1.new_eq_ok.mpr rfl), ?_⟩
  refine Parse.run_bind_ok.mpr ⟨_, r, run_expectSome_ok.mpr ⟨rfl, rfl⟩, ?_⟩
  refine Parse.run_bind_ok.mpr ⟨execution.target, r, congrArg (·, r) htarget, ?_⟩
  refine Parse.run_bind_ok.mpr ⟨_, r, run_expectSome_ok.mpr ⟨rfl, rfl⟩, ?_⟩
  refine Parse.run_bind_ok.mpr ⟨execution.resolutionId.txId, r, congrArg (·, r) (htx _ _), ?_⟩
  refine Parse.run_bind_ok.mpr ⟨_, r, run_expectSome_ok.mpr ⟨rfl, rfl⟩, ?_⟩
  refine Parse.run_bind_ok.mpr ⟨execution.amendmentTx, r, congrArg (·, r) (htx _ _), ?_⟩
  refine Parse.run_bind_ok.mpr ⟨_, r, run_expectSome_ok.mpr ⟨rfl, rfl⟩, ?_⟩
  refine Parse.run_bind_ok.mpr ⟨execution.replacedTx, r, congrArg (·, r) (htx _ _), ?_⟩
  refine Parse.run_bind_ok.mpr ⟨_, r, run_expectSome_ok.mpr ⟨rfl, rfl⟩, ?_⟩
  exact Parse.run_bind_ok.mpr ⟨execution.bodyDigest, r, congrArg (·, r) hdigest, rfl⟩

variable [DocumentScanner]

/-- A written execution that fits is read, the breaks in its notarisation turned into blanks. -/
theorem readExecutionDocument_executionText (hname : trim n.name ≠ [])
    (hfits : byteLength (executionText company n execution) ≤ maxDocumentBytes) :
    readExecutionDocument (executionText company n execution) =
      .ok ⟨company, n.asRead, execution⟩ := by
  have hskip : Parse.skip prolog (openDocument (executionText company n execution)) =
      some (.start ⟨lit "irena-execution", some (readPairs (executionPairs company execution))⟩,
        ⟨[lit "irena-execution"], executionContent n⟩) := by
    have hopen : openDocument (executionText company n execution) =
        ⟨[], [] ++ (lit "<" ++ lit "irena-execution" ++
          writePairs (executionPairs company execution) ++ lit ">" ++ executionContent n)⟩ := by
      rw [executionText_eq]
      rfl
    rw [hopen]
    exact Parse.skip_start rfl (fun _ => rfl) (fun _ => rfl) writable_execution List.all_nil [] _
  have hfirst (r : Reader) : (parseExecutionChild none
      ⟨lit "notarisation", some (readPairs (notarisationPairs n))⟩ true).run r =
        (.ok (some n.asRead), r) := by
    rw [parseExecutionChild, if_neg (by simp), if_neg (by simp)]
    rw [Parse.run_bind, run_readNotarisation hname]
    rfl
  have hchildren : (Parse.children (reasonsIn (lit "irena-execution")) parseExecutionChild
      none : IrenaParse (Option NotarisationV1)).run ⟨[lit "irena-execution"], executionContent n⟩ =
        (.ok (some n.asRead), ⟨[], []⟩) := by
    refine Parse.run_children_ok.mpr ⟨_, _, Parse.skip_empty (writable_notarisation n)
      (by decide : (lit "\n  ").all isContent = true) _ _, ?_⟩
    refine Parse.run_bind_ok.mpr ⟨_, _, hfirst _, ?_⟩
    exact Parse.run_children_ok.mpr ⟨_, _, Parse.skip_close (by decide)
      (by decide : (lit "\n").all isContent = true) [] [], rfl, rfl⟩
  simp only [readExecutionDocument, bind_eq_ok, rootStart_eq_ok, Prod.exists, Parse.exec_eq_ok,
    hskip, checkSize_eq_ok]
  refine ⟨(), hfits, _, _, ⟨rfl, rfl⟩, ⟨company, execution⟩, _, run_readExecutionRoot _,
    some n.asRead, ⟨[], []⟩, hchildren, (), ?_, n.asRead, rfl, rfl⟩
  refine expectEof_eq_ok.mpr ⟨⟨[], []⟩, ?_⟩
  rw [Parse.skip_eq rfl, WritingScanner.finish]
  rfl

theorem composeExecution_eq_ok_iff {xml : Text} :
    composeExecution company n execution = .ok xml ↔
      trim n.name ≠ [] ∧ n.Unbroken ∧ xml = executionText company n execution ∧
        byteLength xml ≤ maxDocumentBytes := by
  simp only [composeExecution, bind_eq_ok, mapErr_eq_ok, ensure_eq_ok, pure_eq_ok, Except.ok.injEq,
    NotarisationV1.validate_eq_ok]
  constructor
  · rintro ⟨-, hname, readBack, hread, -, rfl, rfl⟩
    have hfits : byteLength (executionText company n execution) ≤ maxDocumentBytes := by
      obtain ⟨_, hsize, -⟩ := bind_eq_ok.mp (mapErr_eq_ok.mp hread)
      exact checkSize_eq_ok.mp hsize
    have hsame := (readExecutionDocument_executionText hname hfits).symm.trans
      (mapErr_eq_ok.mp hread)
    rw [Except.ok.injEq, ExecutionRecordV1.mk.injEq] at hsame
    exact ⟨hname, NotarisationV1.asRead_eq_self.mp hsame.2.1, rfl, hfits⟩
  · rintro ⟨hname, hunbroken, rfl, hfits⟩
    have hread : readExecutionDocument (executionText company n execution) =
        .ok ⟨company, n.asRead, execution⟩ := readExecutionDocument_executionText hname hfits
    rw [NotarisationV1.asRead_eq_self.mpr hunbroken] at hread
    exact ⟨(), hname, _, mapErr_eq_ok.mpr hread, (), rfl, rfl⟩

end Readers

end Irena.Resolution
