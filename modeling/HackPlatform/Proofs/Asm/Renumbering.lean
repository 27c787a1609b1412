/-
  HackPlatform.Proofs.Asm.Renumbering
  ────────────────────────────────
  **THE NUMBERS OF LINES PLAY NO PART: only their texts are assembled.**

  A line keeps the number that it had in its source, so that a fault can be reported
  there.  Nothing else is made of the number: give the lines other numbers, and the
  same words come out with the same table, or the same fault is found on the same
  line.  Both passes are folds, and renumbering can be drawn through each of their
  steps.

      Assembly.renumber     the statements of an assembly renumbered
      SameOutcome           two lists of lines come to the same, up to numbers

  Main results:
    * `assemble_renumber`, renumbered lines come to the renumbered outcome;
    * `assemble_or_fail`, what lines come to, told by their texts;
    * `sameOutcome_of_texts`, lines with the same texts come to the same.
-/
import HackPlatform.Proofs.Asm.Failure

namespace HackPlatform

/-! ## §1. Other numbers. -/

/-- The line under another number. -/
def SourceLine.renumber (f : Nat → Nat) (line : SourceLine) : SourceLine :=
  { line with number := f line.number }

/-- The fault, reported for the line under its other number. -/
def Located.renumber {ε : Type} (f : Nat → Nat) (e : Located ε) : Located ε :=
  { e with line := f e.line }

namespace Asm

/-- The statement of a line under another number. -/
def Statement.renumber (f : Nat → Nat) (s : Statement) : Statement := { s with line := f s.line }

/-- The layout with its statements renumbered. -/
def Layout.renumber (f : Nat → Nat) (l : Layout) : Layout :=
  { l with statements := l.statements.map (Statement.renumber f) }

/-- The assembly with its statements renumbered. -/
def Assembly.renumber (f : Nat → Nat) (asm : Assembly) : Assembly :=
  { asm with statements := asm.statements.map (Statement.renumber f) }

/-! ## §2. Renumbering and the two passes. -/

section
variable (f : Nat → Nat)

/-- A label is bound to the number of statements, and that stays. -/
theorem bindLabel_renumber (l : Layout) (name : String) :
    (l.renumber f).bindLabel name = (l.bindLabel name).map (Layout.renumber f) := by
  have hsize : (l.renumber f).statements.size = l.statements.size := Array.size_map
  have htable : (l.renumber f).table = l.table := rfl
  unfold Layout.bindLabel
  rw [hsize, htable]
  split
  · rfl
  · split
    · rfl
    · cases l.table.bind name l.statements.size <;> rfl

theorem place_renumber (l : Layout) (n : Nat) (i : Instruction) :
    (l.renumber f).place (f n) i = (l.place n i).map (Layout.renumber f) := by
  cases i with
  | address operand | compute dest comp jump =>
      show Except.ok _ = Except.ok _
      simp [Layout.renumber, Statement.renumber]
  | label name => exact bindLabel_renumber f l name

theorem addLine_renumber (l : Layout) (line : SourceLine) :
    (l.renumber f).addLine (line.renumber f)
      = ((l.addLine line).map (Layout.renumber f)).mapError (Located.renumber f) := by
  unfold Layout.addLine
  show ((Instruction.read line.text).bind ((l.renumber f).place (f line.number))).mapError _ = _
  cases Instruction.read line.text with
  | error fault => rfl
  | ok i =>
      show ((l.renumber f).place (f line.number) i).mapError _ = _
      rw [place_renumber]
      show _ = (((l.place line.number i).mapError _).map _).mapError _
      cases l.place line.number i <;> rfl

theorem addStatement_renumber (img : Image) (s : Statement) :
    img.addStatement (s.renumber f)
      = ((img.addStatement s).map id).mapError (Located.renumber f) := by
  unfold Image.addStatement
  show (img.encode s.instruction).mapError _ = _
  cases img.encode s.instruction <;> rfl

theorem ofLines_renumber (lines : List SourceLine) :
    Layout.ofLines .platform (lines.map (SourceLine.renumber f))
      = ((Layout.ofLines .platform lines).map (Layout.renumber f)).mapError
          (Located.renumber f) := by
  have hstart : Layout.renumber f ⟨.platform, #[]⟩ = ⟨.platform, #[]⟩ := by
    simp [Layout.renumber]
  have hfold := foldlM_hom (addLine_renumber f) lines ⟨.platform, #[]⟩
  rw [hstart] at hfold
  exact hfold

theorem ofStatements_renumber (table : SymbolTable) (statements : List Statement) :
    Image.ofStatements table (statements.map (Statement.renumber f))
      = ((Image.ofStatements table statements).map id).mapError (Located.renumber f) :=
  foldlM_hom (addStatement_renumber f) statements ⟨table, #[]⟩

/-- **Renumbered lines come to the renumbered outcome.** -/
theorem assemble_renumber (lines : List SourceLine) :
    assemble (lines.map (SourceLine.renumber f))
      = ((assemble lines).map (Assembly.renumber f)).mapError (Located.renumber f) := by
  unfold assemble
  rw [ofLines_renumber]
  -- the second pass starts from the same table, over the renumbered statements
  cases hl : Layout.ofLines .platform lines with
  | error e => rfl
  | ok l =>
      have hstatements : (l.renumber f).statements.toList
          = l.statements.toList.map (Statement.renumber f) := Array.toList_map
      have himage : Image.ofStatements (l.renumber f).table (l.renumber f).statements.toList
          = ((Image.ofStatements l.table l.statements.toList).map id).mapError
              (Located.renumber f) := by
        rw [hstatements]
        exact ofStatements_renumber f l.table l.statements.toList
      cases hi : Image.ofStatements l.table l.statements.toList with
      | error e =>
          rw [hi] at himage
          simp only [Except.map, Except.mapError, bind, Except.bind, hi, himage]
      | ok img =>
          rw [hi] at himage
          simp only [Except.map, Except.mapError, bind, Except.bind, hi, himage, pure, Except.pure,
            id, Assembly.renumber]
          rw [hstatements]

end

/-! ## §3. Lines with the same texts. -/

/-- A fault is reported for one of the lines. -/
theorem exists_line_of_error {lines : List SourceLine} {e : Located Fault}
    (h : assemble lines = .error e) :
    ∃ (k : Nat) (line : SourceLine), lines[k]? = some line ∧ e.line = line.number := by
  rcases assemble_error_iff.mp h with hlayout | ⟨l, hl, himage⟩
  · obtain ⟨k, line, -, hline, hnumber, -⟩ := firstFault_of_error hlayout
    exact ⟨k, line, hline, hnumber⟩
  · obtain ⟨k, line, name, -, hline, rfl⟩ := exhaustedAt_of_error hl himage
    exact ⟨k, line, hline, rfl⟩

/-- Texts as lines that are numbered by where they stand. -/
def numberedLines (texts : List String) : List SourceLine :=
  texts.zipIdx.map fun text => ⟨text.2, text.1⟩

/-- The number of the line at an index. -/
def numberAt (lines : List SourceLine) (k : Nat) : Nat := (lines[k]?.map (·.number)).getD 0

theorem getElem?_numberedLines (texts : List String) (k : Nat) :
    (numberedLines texts)[k]? = texts[k]?.map fun text => ⟨k, text⟩ := by
  unfold numberedLines
  rw [List.getElem?_map, List.getElem?_zipIdx, Option.map_map, Nat.zero_add]
  rfl

/-- All lines with the same texts are renumbered from the same ones. -/
theorem renumber_numberedLines (lines : List SourceLine) :
    (numberedLines (lines.map (·.text))).map (SourceLine.renumber (numberAt lines)) = lines := by
  apply List.ext_getElem?
  intro k
  rw [List.getElem?_map, getElem?_numberedLines, List.getElem?_map]
  unfold numberAt SourceLine.renumber
  cases h : lines[k]? with
  | none => rfl
  | some line => simp [h]

/-- Lines with these texts are assembled to these words, with this table, from these
instructions. -/
def AssembleTo (texts : List String) (words : List Word) (table : SymbolTable)
    (code : List Instruction) : Prop :=
  ∀ lines : List SourceLine, lines.map (·.text) = texts → ∃ asm, assemble lines = .ok asm
    ∧ asm.words = words ∧ asm.table = table ∧ asm.statements.map (·.instruction) = code

/-- Lines with these texts are not assembled, for this fault of the line at an index. -/
def FailAt (texts : List String) (k : Nat) (fault : Fault) : Prop :=
  ∀ lines : List SourceLine, lines.map (·.text) = texts →
    ∃ line, lines[k]? = some line ∧ assemble lines = .error ⟨line.number, fault⟩

/-- **What lines come to is told by their texts.** -/
theorem assemble_or_fail (texts : List String) :
    (∃ words table code, AssembleTo texts words table code) ∨ ∃ k fault, FailAt texts k fault := by
  -- the lines that are numbered by where they stand tell what comes of all others
  have hall : ∀ lines : List SourceLine, lines.map (·.text) = texts → assemble lines
      = ((assemble (numberedLines texts)).map (Assembly.renumber (numberAt lines))).mapError
          (Located.renumber (numberAt lines)) := by
    rintro lines rfl
    rw [← assemble_renumber, renumber_numberedLines]
  cases h : assemble (numberedLines texts) with
  | ok asm =>
      refine .inl ⟨asm.words, asm.table, asm.statements.map (·.instruction), ?_⟩
      intro lines hlines
      refine ⟨asm.renumber (numberAt lines), ?_, rfl, rfl, ?_⟩
      · rw [hall lines hlines, h]
        rfl
      · show (asm.statements.map _).map _ = _
        rw [List.map_map]
        rfl
  | error e =>
      obtain ⟨k, line, hline, hnumber⟩ := exists_line_of_error h
      refine .inr ⟨k, e.fault, ?_⟩
      intro lines hlines
      rw [getElem?_numberedLines, ← hlines, List.getElem?_map, Option.map_map] at hline
      obtain ⟨line', hline', rfl⟩ := Option.map_eq_some_iff.mp hline
      have hk : e.line = k := hnumber
      refine ⟨line', hline', ?_⟩
      rw [hall lines hlines, h]
      show Except.error (Located.renumber _ e) = _
      unfold Located.renumber numberAt
      rw [hk, hline']
      rfl

/-- Two lists of lines come to the same, up to the numbers of their lines. -/
def SameOutcome (lines lines' : List SourceLine) : Prop :=
  match assemble lines, assemble lines' with
  | .ok asm, .ok asm' =>
      asm.words = asm'.words ∧ asm.table = asm'.table
        ∧ asm.statements.map (·.instruction) = asm'.statements.map (·.instruction)
  | .error e, .error e' =>
      e.fault = e'.fault ∧ ∃ (k : Nat) (line line' : SourceLine), lines[k]? = some line
        ∧ lines'[k]? = some line' ∧ e.line = line.number ∧ e'.line = line'.number
  | _, _ => False

/-- **Lines with the same texts come to the same.** -/
theorem sameOutcome_of_texts {lines lines' : List SourceLine}
    (h : lines.map (·.text) = lines'.map (·.text)) : SameOutcome lines lines' := by
  unfold SameOutcome
  rcases assemble_or_fail (lines'.map (·.text)) with ⟨words, table, code, hto⟩ | ⟨k, fault, hfail⟩
  · obtain ⟨asm, hasm, rfl, rfl, rfl⟩ := hto lines h
    obtain ⟨asm', hasm', hwords, htable, hcode⟩ := hto lines' rfl
    rw [hasm, hasm']
    exact ⟨hwords.symm, htable.symm, hcode.symm⟩
  · obtain ⟨line, hline, he⟩ := hfail lines h
    obtain ⟨line', hline', he'⟩ := hfail lines' rfl
    rw [he, he']
    exact ⟨rfl, k, line, line', hline, hline', rfl, rfl⟩

end Asm

end HackPlatform
