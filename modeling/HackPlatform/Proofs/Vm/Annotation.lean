/-
  HackPlatform.Proofs.Vm.Annotation
  ────────────────────────────────
  **COMMENTS CHANGE NOTHING: a file lowered with and without them.**

  The comment that heads a fragment shows a command as it was written, so it holds
  names that the author chose.  It is a line of its own all the same, since no
  command is written on two lines, and it is dropped when the text is cleaned.  What
  is left are the texts of the instructions, with other numbers; and numbers play no
  part in assembling.

      SameProgram       two lowered files come to the same
      Unannotated       what annotating a file leaves as it is

  Main results:
    * `lowerFile_annotate`, annotating is the last thing that lowering does;
    * `map_text_ofText`, the lines of code in the text of a lowered file;
    * `annotation_harmless`.
-/
import HackPlatform.Proofs.Asm.Renumbering
import HackPlatform.Proofs.Vm.Listing

namespace HackPlatform.Vm

open Asm
open SourceLine (ofText)

/-! ## §1. Lowering. -/

/-- Annotating is the last thing that lowering does. -/
theorem lowerFile_annotate (file : String) (bootstrap annotate : Bool) (lines : List SourceLine) :
    lowerFile file ⟨bootstrap, annotate⟩ lines
      = (lowerFile file ⟨bootstrap, false⟩ lines).map fun l => { l with annotated := annotate } := by
  unfold lowerFile
  show (lines.foldlM Progress.addLine (.start (toSymbol file) bootstrap)).bind _
    = ((lines.foldlM Progress.addLine (.start (toSymbol file) bootstrap)).bind _).map _
  cases lines.foldlM Progress.addLine (.start (toSymbol file) bootstrap) <;> rfl

/-! ## §2. The lines of code. -/

/-- **The lines of code in the text of a lowered file are its instructions**, commented or
not. -/
theorem map_text_ofText {file : String} {options : Options} {lines : List SourceLine} {l : Lowered}
    (h : lowerFile file options lines = .ok l) :
    (ofText l.text).map (·.text) = l.code.map Instruction.render := by
  rw [SourceLine.ofText_eq, SourceLine.map_text_ofRawLinesFrom, rawLines_text h]
  unfold Lowered.lines Lowered.code
  rw [List.filterMap_flatMap, List.map_flatMap]
  apply List.flatMap_congr
  intro f hf
  exact filterMap_cleanLine (wellSpelt_fragments h f hf) l.annotated

/-! ## §3. What comes of the text. -/

/-- Two attempts to lower a file fail for the same fault of the same line, or give texts that
come to the same. -/
def SameProgram : Except (Located Fault) Lowered → Except (Located Fault) Lowered → Prop
  | .ok l, .ok l' => SameOutcome (ofText l.text) (ofText l'.text)
  | .error e, .error e' => e = e'
  | _, _ => False

/-- What comments and the numbers of lines leave as it is. -/
structure Unannotated (file vm : String) (bootstrap : Bool) : Prop where
  /-- With comments and without, the file is lowered to the same program. -/
  lowered : SameProgram (lowerFile file ⟨bootstrap, true⟩ (ofText vm))
    (lowerFile file ⟨bootstrap, false⟩ (ofText vm))
  /-- This is because assembling looks at the texts of lines only. -/
  assembled : ∀ lines lines' : List SourceLine, lines.map (·.text) = lines'.map (·.text) →
    SameOutcome lines lines'

/-- **Annotating a file does not change its program.** -/
theorem annotation_harmless (file vm : String) (bootstrap : Bool) :
    Unannotated file vm bootstrap where
  lowered := by
    have hannotate := lowerFile_annotate file bootstrap true (ofText vm)
    cases h : lowerFile file ⟨bootstrap, false⟩ (ofText vm) with
    | error e =>
        rw [h] at hannotate
        rw [hannotate]
        rfl
    | ok l =>
        rw [h] at hannotate
        rw [hannotate]
        show SameOutcome _ (ofText l.text)
        apply sameOutcome_of_texts
        -- the fragments are the same, and so is the code
        rw [map_text_ofText hannotate, map_text_ofText h]
        rfl
  assembled _ _ h := sameOutcome_of_texts h

end HackPlatform.Vm
