/-
  HackPlatform.Proofs.Asm.Rendering
  ────────────────────────────────
  **A PROGRAM WRITTEN OUT IS THE PROGRAM.**

  An instruction is read back from its own text iff its number and its names are such
  as could have been read.  So a source can be replaced by its listing: the instructions
  it is read as, labels included, one a line.  Assembling looks at nothing but what each
  line is read as, so the listing comes to the same as the source, down to the fault if
  there is one; comments, blanks and other spellings are lost, and nothing else.

      SameReading   lines that are read alike, one by one
      Relisted      what comes of a program that is written out

  Main results:
    * `read_render_iff`, which instructions are read back;
    * `sameOutcome_of_reading`, only what is read plays a part;
    * `sameOutcome_listing`, a source comes to the same as its listing;
    * `instructions_read_back`.
-/
import HackPlatform.Proofs.Asm.Decoding
import HackPlatform.Proofs.Asm.Renumbering

namespace HackPlatform.Asm

/-! ## §1. One instruction. -/

/-- **An instruction is read back from its text iff it is well spelt.** -/
theorem read_render_iff {i : Instruction} : Instruction.read i.render = .ok i ↔ i.WellSpelt :=
  ⟨wellSpelt_of_read, read_render⟩

/-! ## §2. Lines that are read alike. -/

/-- The lines are read alike, one by one. -/
def SameReading (lines lines' : List SourceLine) : Prop :=
  List.Forall₂ (fun line line' => Instruction.read line.text = Instruction.read line'.text)
    lines lines'

/-- A line is laid out by its number and by what it is read as. -/
theorem addLine_congr {line line' : SourceLine} (hnumber : line.number = line'.number)
    (hread : Instruction.read line.text = Instruction.read line'.text) (l : Layout) :
    l.addLine line = l.addLine line' := by
  unfold Layout.addLine
  rw [hnumber, hread]

theorem foldlM_addLine_congr {lines lines' : List SourceLine}
    (hnumbers : lines.map (·.number) = lines'.map (·.number)) (h : SameReading lines lines')
    (l : Layout) : lines.foldlM Layout.addLine l = lines'.foldlM Layout.addLine l := by
  -- for every layout at once: the rest goes on from what the first line adds
  induction h generalizing l with
  | nil => rfl
  | @cons line line' lines lines' hread _ ih =>
      obtain ⟨hnumber, hrest⟩ := List.cons.inj hnumbers
      rw [List.foldlM_cons, List.foldlM_cons, addLine_congr hnumber hread]
      congr 1
      funext next
      exact ih hrest next

theorem assemble_congr {lines lines' : List SourceLine}
    (hnumbers : lines.map (·.number) = lines'.map (·.number)) (h : SameReading lines lines') :
    assemble lines = assemble lines' := by
  have hlayout : Layout.ofLines .platform lines = Layout.ofLines .platform lines' :=
    foldlM_addLine_congr hnumbers h _
  unfold assemble
  rw [hlayout]

/-- Lines that are read alike can be given each other's texts, and nothing changes. -/
theorem exists_retext {lines lines' : List SourceLine} (h : SameReading lines lines') :
    ∃ mid : List SourceLine, mid.map (·.number) = lines.map (·.number)
      ∧ mid.map (·.text) = lines'.map (·.text) ∧ assemble mid = assemble lines := by
  suffices hmid : ∃ mid : List SourceLine, mid.map (·.number) = lines.map (·.number)
      ∧ mid.map (·.text) = lines'.map (·.text) ∧ SameReading mid lines by
    obtain ⟨mid, hnumbers, htexts, hread⟩ := hmid
    exact ⟨mid, hnumbers, htexts, assemble_congr hnumbers hread⟩
  -- the texts of the second lines, under the numbers of the first
  induction h with
  | nil => exact ⟨[], rfl, rfl, .nil⟩
  | @cons line line' lines lines' hread _ ih =>
      obtain ⟨mid, hnumbers, htexts, hmid⟩ := ih
      refine ⟨⟨line.number, line'.text⟩ :: mid, ?_, ?_, .cons hread.symm hmid⟩
      · rw [List.map_cons, List.map_cons, hnumbers]
      · rw [List.map_cons, List.map_cons, htexts]

/-- **Only what the lines are read as plays a part** in what comes of them. -/
theorem sameOutcome_of_reading {lines lines' : List SourceLine} (h : SameReading lines lines') :
    SameOutcome lines lines' := by
  obtain ⟨mid, hnumbers, htexts, hmid⟩ := exists_retext h
  have hsame : SameOutcome mid lines' := sameOutcome_of_texts htexts
  unfold SameOutcome at hsame ⊢
  rw [hmid] at hsame
  cases hasm : assemble lines <;> cases hasm' : assemble lines' <;> rw [hasm, hasm'] at hsame
  case ok.ok | ok.error | error.ok => exact hsame
  case error.error e e' =>
    obtain ⟨hfault, k, line, line', hline, hline', he, he'⟩ := hsame
    -- the line at that index has the same number among the first lines
    have hnumber : (lines.map (·.number))[k]? = some line.number := by
      rw [← hnumbers, List.getElem?_map, hline]
      rfl
    rw [List.getElem?_map] at hnumber
    obtain ⟨first, hfirst, hsame⟩ := Option.map_eq_some_iff.mp hnumber
    exact ⟨hfault, k, first, line', hfirst, hline', he.trans hsame.symm, he'⟩

theorem SameOutcome.exists_ok {lines lines' : List SourceLine} (h : SameOutcome lines lines')
    {asm : Assembly} (hasm : assemble lines = .ok asm) :
    ∃ asm', assemble lines' = .ok asm' ∧ asm'.words = asm.words ∧ asm'.table = asm.table
      ∧ asm'.statements.map (·.instruction) = asm.statements.map (·.instruction) := by
  unfold SameOutcome at h
  rw [hasm] at h
  cases hasm' : assemble lines' with
  | error e' =>
      rw [hasm'] at h
      exact h.elim
  | ok asm' =>
      rw [hasm'] at h
      exact ⟨asm', rfl, h.1.symm, h.2.1.symm, h.2.2.symm⟩

/-! ## §3. Listings. -/

/-- The instructions of a program. -/
def instructionsOf (program : List Statement) : List Instruction := program.map (·.instruction)

theorem ReadAs.wellSpelt_instructions {lines : List SourceLine} {program : List Statement}
    (h : ReadAs lines program) : ∀ i ∈ instructionsOf program, i.WellSpelt :=
  List.forall_mem_map.mpr h.wellSpelt

/-- Lines that are read as the same instructions are read alike. -/
theorem sameReading_of_readAs {lines lines' : List SourceLine} {program program' : List Statement}
    (h : ReadAs lines program) (h' : ReadAs lines' program')
    (hcode : instructionsOf program = instructionsOf program') : SameReading lines lines' := by
  induction h generalizing lines' program' with
  | nil =>
      have hnil : program' = [] := List.map_eq_nil_iff.mp hcode.symm
      subst hnil
      cases h'
      exact .nil
  | cons hline _ ih =>
      cases h' with
      | nil => cases hcode
      | cons hline' hrest' =>
          obtain ⟨hsame, hrest⟩ := List.cons.inj hcode
          refine .cons ?_ (ih hrest' hrest)
          rw [hline.2, hline'.2]
          exact congrArg Except.ok hsame

/-- **A source comes to the same as its listing**, up to the numbers of lines. -/
theorem sameOutcome_listing {lines : List SourceLine} {program : List Statement}
    (h : ReadAs lines program) :
    SameOutcome lines (SourceLine.ofText (listing (instructionsOf program))) := by
  obtain ⟨again, hagain, hcode⟩ := readAs_listing h.wellSpelt_instructions
  exact sameOutcome_of_reading (sameReading_of_readAs h hagain hcode.symm)

/-- What comes of a source whose program is written out and assembled again. -/
structure Relisted (lines : List SourceLine) (asm : Assembly) (program again : List Statement)
    (asm' : Assembly) : Prop where
  /-- The program is all that the source is read as, labels included. -/
  read : ReadAs lines program
  /-- Its listing is read as a program again, -/
  readAgain : ReadAs (SourceLine.ofText (listing (instructionsOf program))) again
  /-- which has the same instructions, -/
  instructions : instructionsOf again = instructionsOf program
  /-- so it is written out as the same text. -/
  text : listing (instructionsOf again) = listing (instructionsOf program)
  /-- The listing is assembled too, -/
  assembled : assemble (SourceLine.ofText (listing (instructionsOf program))) = .ok asm'
  /-- to the same words -/
  words : asm'.words = asm.words
  /-- for the same instructions, -/
  statements : instructionsOf asm'.statements = instructionsOf asm.statements
  /-- and with the same table. -/
  table : asm'.table = asm.table

/-- **Whatever assembles is the same when it is written out.** -/
theorem exists_relisted {lines : List SourceLine} {asm : Assembly}
    (h : assemble lines = .ok asm) : ∃ program again asm', Relisted lines asm program again asm' := by
  obtain ⟨program, hread, -⟩ := assembled_of_assemble h
  obtain ⟨asm', hasm', hwords, htable, hstatements⟩ := (sameOutcome_listing hread).exists_ok h
  obtain ⟨again, hagain, hcode⟩ := readAs_listing hread.wellSpelt_instructions
  exact ⟨program, again, asm', hread, hagain, hcode, congrArg listing hcode, hasm', hwords,
    hstatements, htable⟩

/-- **Writing out and reading undo each other**, for one instruction and for whole programs. -/
theorem instructions_read_back :
    (∀ i : Instruction, Instruction.read i.render = .ok i ↔ i.WellSpelt)
      ∧ ∀ (lines : List SourceLine) (asm : Assembly), assemble lines = .ok asm →
        ∃ program again asm', Relisted lines asm program again asm' :=
  ⟨fun _ => read_render_iff, fun _ _ => exists_relisted⟩

theorem instructions_read_back_mixed :
    ∃ asm, assemble mixedSource = .ok asm ∧ asm.words.length = 8
      ∧ ∃ program again asm', Relisted mixedSource asm program again asm' := by
  have hrun : ((assemble mixedSource).toOption.map fun asm => asm.words.length) = some 8 := by
    decide +kernel
  obtain ⟨asm, h, hlength⟩ := exists_ok_of_map hrun
  exact ⟨asm, h, hlength, instructions_read_back.2 mixedSource asm h⟩

end HackPlatform.Asm
