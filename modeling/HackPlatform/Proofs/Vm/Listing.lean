/-
  HackPlatform.Proofs.Vm.Listing
  ────────────────────────────────
  **THE TEXT OF A LOWERED FILE READS AS ITS INSTRUCTIONS.**

  Between lowering and assembling there is only text.  Its lines are cut where
  they were closed, since no line holds a newline; comment lines are dropped, and
  every other line is read back as the instruction it was written from.  The
  comments that head the fragments therefore change line numbers and nothing else.

      lineInstruction?   what a raw line is read as
      Lowered.code       the instructions of a lowered file

  Main result: `readAs_text`.
-/
import HackPlatform.Proofs.Vm.Spelling

namespace HackPlatform.Vm

open Asm Text

/-! ## §1. No line holds a newline. -/

theorem newline_not_mem_origin {s : Scope} {f : Fragment} (h : s.Lowers f) :
    '\n' ∉ f.origin.render.toList := by
  obtain ⟨origin, code⟩ := f
  cases origin with
  | bootstrap => exact (by decide : '\n' ∉ "bootstrap".toList)
  | command line c => exact Command.newline_not_mem_render h.1

/-! ## §2. Lines are read one by one. -/

/-- The instruction that a raw line is read as, if it carries code that can be read. -/
def lineInstruction? (raw : String) : Option Instruction :=
  (cleanLine raw).bind fun code => (Instruction.read code).toOption

/-- The lines of a fragment are its code, once comments are dropped. -/
theorem filterMap_cleanLine {f : Fragment} (h : WellSpeltCode f.code) (annotated : Bool) :
    (f.lines annotated).filterMap cleanLine = f.code.map Instruction.render := by
  have hcode : (f.code.map Instruction.render).filterMap cleanLine
      = f.code.map Instruction.render := by
    rw [List.filterMap_map]
    calc f.code.filterMap (cleanLine ∘ Instruction.render)
        = f.code.filterMap (some ∘ Instruction.render) :=
          List.filterMap_congr fun i hi => cleanLine_render (h i hi)
      _ = f.code.map Instruction.render := by rw [List.filterMap_eq_map]
  unfold Fragment.lines
  cases annotated with
  | false => exact hcode
  | true =>
      show (("// " ++ f.origin.render) :: _).filterMap cleanLine = _
      rw [List.filterMap_cons_none (cleanLine_comment _), hcode]

/-- The lines of a fragment read as its code, comment or not. -/
theorem filterMap_fragment_lines {f : Fragment} (h : WellSpeltCode f.code) (annotated : Bool) :
    (f.lines annotated).filterMap lineInstruction? = f.code := by
  calc (f.lines annotated).filterMap lineInstruction?
      = ((f.lines annotated).filterMap cleanLine).filterMap fun code =>
          (Instruction.read code).toOption := List.filterMap_filterMap.symm
    _ = f.code.filterMap fun i => (Instruction.read i.render).toOption := by
        rw [filterMap_cleanLine h, List.filterMap_map]
        rfl
    _ = f.code.filterMap some :=
        List.filterMap_congr fun i hi => by rw [read_render (h i hi)]; rfl
    _ = f.code := List.filterMap_some

/-- A raw line with code is one that can be read. -/
def Readable (raw : String) : Prop :=
  ∀ code, cleanLine raw = some code → ∃ i, Instruction.read code = .ok i

theorem readable_fragment_lines {f : Fragment} (h : WellSpeltCode f.code) (annotated : Bool) :
    ∀ raw ∈ f.lines annotated, Readable raw := by
  intro raw hraw code hclean
  -- what is left of a line is the text of an instruction
  have hcode : code ∈ (f.lines annotated).filterMap cleanLine :=
    List.mem_filterMap.mpr ⟨raw, hraw, hclean⟩
  rw [filterMap_cleanLine h] at hcode
  obtain ⟨i, hi, rfl⟩ := List.mem_map.mp hcode
  exact ⟨i, read_render (h i hi)⟩

/-- Lines that can be read are read, each with its number. -/
theorem readAs_ofRawLinesFrom {raws : List String} (h : ∀ raw ∈ raws, Readable raw) (n : Nat) :
    ∃ program, ReadAs (SourceLine.ofRawLinesFrom n raws) program
      ∧ program.map (·.instruction) = raws.filterMap lineInstruction? := by
  induction raws generalizing n with
  | nil => exact ⟨[], .nil, rfl⟩
  | cons raw raws ih =>
      obtain ⟨program, hread, hcode⟩ :=
        ih (fun r hr => h r (List.mem_cons_of_mem raw hr)) (n + 1)
      cases hclean : cleanLine raw with
      | none =>
          have hnone : lineInstruction? raw = none := by
            unfold lineInstruction?
            rw [hclean]
            rfl
          refine ⟨program, ?_, ?_⟩
          · rw [SourceLine.ofRawLinesFrom_none n raws hclean]
            exact hread
          · rw [List.filterMap_cons_none hnone, hcode]
      | some code =>
          obtain ⟨i, hi⟩ := h raw List.mem_cons_self code hclean
          have hsome : lineInstruction? raw = some i := by
            unfold lineInstruction?
            rw [hclean, Option.bind_some, hi]
            rfl
          refine ⟨⟨n + 1, i⟩ :: program, ?_, ?_⟩
          · rw [SourceLine.ofRawLinesFrom_some n raws hclean]
            exact .cons ⟨rfl, hi⟩ hread
          · rw [List.filterMap_cons_some hsome, List.map_cons, hcode]

/-! ## §3. The text as a whole. -/

/-- The instructions of a lowered file. -/
def Lowered.code (l : Lowered) : List Instruction := l.fragments.flatMap (·.code)

/-- Reading is a function: lines read as one program only. -/
theorem readAs_unique {lines : List SourceLine} {program program' : List Statement}
    (h : ReadAs lines program) (h' : ReadAs lines program') : program = program' := by
  refine Relator.RightUnique.forall₂ ?_ h h'
  rintro line ⟨number, i⟩ ⟨number', i'⟩ ⟨hnumber, hread⟩ ⟨hnumber', hread'⟩
  have hnumbers : number = number' := hnumber.trans hnumber'.symm
  have hinstructions : i = i' := Except.ok.inj (hread.symm.trans hread')
  rw [hnumbers, hinstructions]

section
variable {file : String} {options : Options} {lines : List SourceLine} {l : Lowered}
  (h : lowerFile file options lines = .ok l)
include h

theorem wellSpelt_fragments : ∀ f ∈ l.fragments, WellSpeltCode f.code :=
  wellSpelt_code (isSymbol_toSymbol file) (lowers_of_lowerFile h)

theorem newline_not_mem_lines : ∀ line ∈ l.lines, '\n' ∉ line.toList := by
  intro line hline
  obtain ⟨f, hf, hline⟩ := List.mem_flatMap.mp hline
  obtain ⟨i, hi⟩ := List.mem_iff_getElem?.mp hf
  have hcode : ∀ line ∈ f.code.map Instruction.render, '\n' ∉ line.toList := by
    intro line hline
    obtain ⟨instruction, hmem, rfl⟩ := List.mem_map.mp hline
    exact newline_not_mem_of_plain (isPlain_render (wellSpelt_fragments h f hf instruction hmem))
  unfold Fragment.lines at hline
  by_cases hannotated : l.annotated = true
  · rw [if_pos hannotated] at hline
    rcases List.mem_cons.mp hline with rfl | hline
    · have horigin := newline_not_mem_origin (lowers_of_lowerFile h i f hi)
      rw [String.toList_append]
      simp [horigin]
    · exact hcode line hline
  · rw [if_neg hannotated] at hline
    exact hcode line hline

theorem rawLines_text : rawLines l.text = l.lines :=
  rawLines_join (newline_not_mem_lines h)

theorem ofText_text : SourceLine.ofText l.text = SourceLine.ofRawLines l.lines := by
  show SourceLine.ofRawLines (rawLines l.text) = _
  rw [rawLines_text h]

/-- The lines of the text read as the code, line by line. -/
theorem filterMap_lines : l.lines.filterMap lineInstruction? = l.code := by
  unfold Lowered.lines Lowered.code
  rw [List.filterMap_flatMap]
  apply List.flatMap_congr
  intro f hf
  exact filterMap_fragment_lines (wellSpelt_fragments h f hf) l.annotated

/-- **The text of a lowered file reads as its instructions.** -/
theorem readAs_text : ∃ program, ReadAs (SourceLine.ofText l.text) program
    ∧ program.map (·.instruction) = l.code := by
  have hreadable : ∀ raw ∈ l.lines, Readable raw := by
    intro raw hraw
    obtain ⟨f, hf, hraw⟩ := List.mem_flatMap.mp hraw
    exact readable_fragment_lines (wellSpelt_fragments h f hf) l.annotated raw hraw
  obtain ⟨program, hread, hcode⟩ := readAs_ofRawLinesFrom hreadable 0
  refine ⟨program, ?_, hcode.trans (filterMap_lines h)⟩
  rw [ofText_text h]
  exact hread

/-- An assembly of the text is an assembly of the instructions. -/
theorem assembled_of_text {asm : Assembly} (ha : assemble (SourceLine.ofText l.text) = .ok asm) :
    ∃ program, program.map (·.instruction) = l.code ∧ Assembled program asm := by
  obtain ⟨program, hread, hcode⟩ := readAs_text h
  obtain ⟨program', hread', hasm⟩ := assembled_of_assemble ha
  exact ⟨program, hcode, readAs_unique hread' hread ▸ hasm⟩

end

/-- A file that can be lowered and assembled, and what was found out about it on the way. -/
theorem exists_assembled {file : String} {options : Options} {lines : List SourceLine}
    {check : Lowered → Assembly → Bool}
    (h : ((lowerFile file options lines).toOption.map fun l =>
      (assemble (SourceLine.ofRawLines l.lines)).toOption.map (check l)) = some (some true)) :
    ∃ l asm, lowerFile file options lines = .ok l ∧ assemble (SourceLine.ofText l.text) = .ok asm
      ∧ check l asm = true := by
  obtain ⟨l, hl, hrest⟩ := exists_ok_of_map h
  obtain ⟨asm, ha, hcheck⟩ := exists_ok_of_map hrest
  rw [← ofText_text hl] at ha
  exact ⟨l, asm, hl, ha, hcheck⟩

end HackPlatform.Vm
