/-
  HackPlatform.Proofs.Vm.Acceptance
  ────────────────────────────────
  **THE ASSEMBLER ACCEPTS WHAT LOWERING EMITS.**

  Every line of the text of a lowered file is a comment, or is an instruction in
  the very spelling that it is read from.  No line can be refused for what it is,
  so what remains are the symbols: assembling fails iff the labels of the code
  clash or lie too far, or its variables are too many.

      LabelStandsAt   the code has a label at a ROM address
      openSymbols     the symbols that are left for variables
      Accepted        what the assembler makes of the text

  Main results:
    * `exists_faultAt_iff`, why lines that can all be read are refused;
    * `lowered_accepted`, for the text of every lowered file.
-/
import HackPlatform.Proofs.Asm.Failure
import HackPlatform.Proofs.Vm.Placement

namespace HackPlatform

open Text

namespace Asm

/-! ## §1. Labels that are defined twice. -/

theorem DefinedAt.append {lines : List SourceLine} {name : String} {address : Nat}
    (h : DefinedAt lines name address) (more : List SourceLine) :
    DefinedAt (lines ++ more) name address := by
  obtain ⟨before, line, after, rfl, hread, hsize⟩ := h
  exact ⟨before, line, after ++ more, by simp, hread, hsize⟩

/-- A label that was defined before, behind another number of instructions, is at fault. -/
theorem exists_faultAt_of_earlier {before after : List SourceLine} {line : SourceLine}
    {name : String} {a : Nat} (hread : Instruction.read line.text = .ok (.label name))
    (hname : isReserved name = false) (hdefined : DefinedAt before name a)
    (hne : a ≠ codeSize (readProgram before)) :
    ∃ k fault, FaultAt (before ++ line :: after) k fault :=
  ⟨before.length, _, faultAt_append.mpr (.rebound hread hname hdefined hne)⟩

/-- Of two places at which a label is defined, one is before the other. -/
theorem exists_faultAt_of_definedAt {lines : List SourceLine} {name : String} {a b : Nat}
    (hname : isReserved name = false) (ha : DefinedAt lines name a) (hb : DefinedAt lines name b)
    (hne : a ≠ b) : ∃ k fault, FaultAt lines k fault := by
  obtain ⟨before, line, after, hlines, hread, rfl⟩ := ha
  obtain ⟨before', line', after', hlines', hread', rfl⟩ := hb
  rcases cuts_of_append_cons (hlines.symm.trans hlines') with
    ⟨hsame, -⟩ | ⟨rest, hrest⟩ | ⟨rest, hrest⟩
  · exact absurd (by rw [hsame]) hne
  · rw [hlines']
    exact exists_faultAt_of_earlier hread' hname ⟨before, line, rest, hrest, hread, rfl⟩ hne
  · rw [hlines]
    exact exists_faultAt_of_earlier hread hname ⟨before', line', rest, hrest, hread', rfl⟩ hne.symm

/-- **Of lines that can all be read, one is at fault iff a label is defined at two addresses,
or at one past the end of ROM.** -/
theorem exists_faultAt_iff {lines : List SourceLine}
    (hread : ∀ line ∈ lines, ∃ i, Instruction.read line.text = .ok i) :
    (∃ k fault, FaultAt lines k fault) ↔
      (∃ name a b, isReserved name = false ∧ DefinedAt lines name a ∧ DefinedAt lines name b
        ∧ a ≠ b)
      ∨ ∃ name a, isReserved name = false ∧ DefinedAt lines name a ∧ maxAddress < a := by
  constructor
  · rintro ⟨k, fault, line, hline, hfault⟩
    have hlines := eq_take_cons_drop hline
    obtain ⟨i, hi⟩ := hread line (List.mem_of_getElem? hline)
    -- the label of the line itself
    have hself : ∀ {name : String}, Instruction.read line.text = .ok (.label name) →
        DefinedAt lines name (codeSize (readProgram (lines.take k))) :=
      fun hlabel => ⟨_, line, _, hlines, hlabel, rfl⟩
    cases hfault with
    | unreadable read => rw [hi] at read; cases read
    | pastEnd read free size => exact .inr ⟨_, _, free, hself read, size⟩
    | rebound read free defined moved =>
        have hbefore := defined.append (line :: lines.drop (k + 1))
        rw [← hlines] at hbefore
        exact .inl ⟨_, _, _, free, hbefore, hself read, moved⟩
  · rintro (⟨name, a, b, hname, ha, hb, hne⟩ | ⟨name, a, hname, ha, hgt⟩)
    · exact exists_faultAt_of_definedAt hname ha hb hne
    · obtain ⟨before, line, after, rfl, hlabel, rfl⟩ := ha
      exact ⟨before.length, _, faultAt_append.mpr (.pastEnd hlabel hname hgt)⟩

end Asm

namespace Vm

open Asm
open SourceLine (ofText)

/-! ## §2. Labels and variables of code. -/

/-- A label of that name stands behind that many instructions. -/
def LabelStandsAt (code : List Instruction) (name : String) (address : Nat) : Prop :=
  ∃ before after, code = before ++ .label name :: after ∧ romSize before = address

/-- The symbol that an instruction loads, if it loads one. -/
def loadedSymbol? : Instruction → Option String
  | .address (.symbol name) => some name
  | _ => none

/-- The symbols that code loads, but for the platform's and those that are labels of the
code. -/
def openSymbols (code : List Instruction) : Finset String :=
  ((code.filterMap loadedSymbol?).filter fun name =>
    !isReserved name && !code.contains (.label name)).toFinset

/-- The lines define a label where it stands in the code that they read as. -/
theorem definedAt_iff {lines : List SourceLine} {code : List Instruction}
    (h : (readProgram lines).map (·.instruction) = code) {name : String} {address : Nat} :
    DefinedAt lines name address ↔ LabelStandsAt code name address := by
  constructor
  · rintro ⟨before, line, after, rfl, hread, rfl⟩
    rw [readProgram_append, readProgram_cons hread, List.map_append, List.map_cons] at h
    exact ⟨_, _, h.symm, (codeSize_eq_romSize _).symm⟩
  · rintro ⟨before, after, rfl, rfl⟩
    obtain ⟨first, rest, hprogram, rfl, hrest⟩ := List.map_eq_append_iff.mp h
    obtain ⟨s, later, rfl, hs, -⟩ := List.map_eq_cons_iff.mp hrest
    obtain ⟨earlier, line, behind, hlines, hearlier, hread, -⟩ := exists_of_readProgram hprogram
    refine ⟨earlier, line, behind, hlines, hs ▸ hread, ?_⟩
    rw [hearlier, codeSize_eq_romSize]

/-- The variables of a program are the symbols that its code leaves open. -/
theorem variableReferences_toFinset (program : List Statement) :
    (variableReferences program).toFinset = openSymbols (program.map (·.instruction)) := by
  have hloaded : program.filterMap Statement.reference?
      = (program.map (·.instruction)).filterMap loadedSymbol? := by
    rw [List.filterMap_map]
    rfl
  have hlabel : ∀ name, hasLabel program name
      = (program.map (·.instruction)).contains (.label name) := by
    intro name
    rw [List.contains_eq_any_beq, List.any_map]
    unfold hasLabel
    congr 1
    funext s
    exact BEq.comm
  unfold variableReferences openSymbols
  simp only [hloaded, hlabel]

/-! ## §3. The text of a lowered file. -/

/-- What the assembler makes of the text of a lowered file. -/
structure Accepted (l : Lowered) : Prop where
  /-- A line of the text is a comment that heads a fragment, and dropped, or it is read, as the
  instruction that is written like this. -/
  lines : ∀ raw ∈ rawLines l.text,
    (cleanLine raw = none ∧ l.annotated = true ∧ ∃ f ∈ l.fragments, raw = "// " ++ f.origin.render)
    ∨ ∃ i, cleanLine raw = some raw ∧ Instruction.read raw = .ok i ∧ i.render = raw
  /-- In order, they are read as the code. -/
  code : (rawLines l.text).filterMap lineInstruction? = l.code
  /-- Nothing can be reported but the misuse of a symbol. -/
  misuse : ∀ e, assemble (ofText l.text) = .error e → ∃ reason, e.fault.diagnosis = .misuse reason
  /-- There is an error iff a label stands at two addresses, or at one past the end of ROM, or
  the variables are too many. -/
  fails_iff : (∃ e, assemble (ofText l.text) = .error e) ↔
    (∃ name a b, isReserved name = false ∧ LabelStandsAt l.code name a
      ∧ LabelStandsAt l.code name b ∧ a ≠ b)
    ∨ (∃ name a, isReserved name = false ∧ LabelStandsAt l.code name a ∧ maxAddress < a)
    ∨ maxVariables < (openSymbols l.code).card

section
variable {file : String} {options : Options} {lines : List SourceLine} {l : Lowered}
  (h : lowerFile file options lines = .ok l)
include h

theorem readable_text : ∀ line ∈ ofText l.text, ∃ i, Instruction.read line.text = .ok i := by
  obtain ⟨program, hread, -⟩ := readAs_text h
  exact hread.readable

theorem readProgram_text : (readProgram (ofText l.text)).map (·.instruction) = l.code := by
  obtain ⟨program, hread, hcode⟩ := readAs_text h
  rw [hread.readProgram_eq, hcode]

/-- A line of the text heads a fragment or is one of its instructions. -/
theorem line_of_mem {raw : String} (hraw : raw ∈ l.lines) :
    (cleanLine raw = none ∧ l.annotated = true ∧ ∃ f ∈ l.fragments, raw = "// " ++ f.origin.render)
    ∨ ∃ i, cleanLine raw = some raw ∧ Instruction.read raw = .ok i ∧ i.render = raw := by
  obtain ⟨f, hf, hraw⟩ := List.mem_flatMap.mp hraw
  have hcode : raw ∈ f.code.map Instruction.render →
      ∃ i, cleanLine raw = some raw ∧ Instruction.read raw = .ok i ∧ i.render = raw := by
    intro hmem
    obtain ⟨i, hi, rfl⟩ := List.mem_map.mp hmem
    have hspelt := wellSpelt_fragments h f hf i hi
    exact ⟨i, cleanLine_render hspelt, read_render hspelt, rfl⟩
  unfold Fragment.lines at hraw
  by_cases hannotated : l.annotated = true
  · rw [if_pos hannotated] at hraw
    rcases List.mem_cons.mp hraw with rfl | hraw
    · exact .inl ⟨cleanLine_comment _, hannotated, f, hf, rfl⟩
    · exact .inr (hcode hraw)
  · rw [if_neg hannotated] at hraw
    exact .inr (hcode hraw)

/-- **The text of a lowered file is accepted, but for what its symbols stand for.** -/
theorem lowered_accepted : Accepted l where
  lines := by
    rw [rawLines_text h]
    exact fun raw hraw => line_of_mem h hraw
  code := by rw [rawLines_text h, filterMap_lines h]
  misuse := fun e he => misuse_of_readable (readable_text h) he
  fails_iff := by
    have hcode := readProgram_text h
    rw [exists_error_iff, exists_faultAt_iff (readable_text h), variablesBefore_length,
      variableReferences_toFinset, hcode]
    simp only [definedAt_iff hcode]
    -- if a label is at fault, it does not matter how many variables there are
    rw [or_and_left, iff_true_intro (Classical.em _), true_and, or_assoc]

end

/-- A label that is defined twice, before the first function of the file. -/
def twiceDefined : List SourceLine :=
  ofText "label L\npush constant 7 // seven\nlabel L\nfunction f 0\nlabel L"

/-- The name of the file is no symbol; its text is refused for the second definition. -/
theorem lowered_accepted_twiceDefined : ∃ l, lowerFile "07-prog" ⟨true, true⟩ twiceDefined = .ok l
    ∧ Accepted l
    ∧ ∃ e reason, assemble (ofText l.text) = .error e ∧ e.fault.diagnosis = .misuse reason := by
  have hrun : ((lowerFile "07-prog" ⟨true, true⟩ twiceDefined).toOption.map fun l =>
      (assemble (SourceLine.ofRawLines l.lines)).toOption.isNone) = some true := by
    decide +kernel
  obtain ⟨l, hl, hfails⟩ := exists_ok_of_map hrun
  have haccepted := lowered_accepted hl
  refine ⟨l, hl, haccepted, ?_⟩
  rw [← ofText_text hl] at hfails
  cases he : assemble (ofText l.text) with
  | ok asm => rw [he] at hfails; cases hfails
  | error e =>
      obtain ⟨reason, hreason⟩ := haccepted.misuse e he
      exact ⟨e, reason, rfl, hreason⟩

end Vm

end HackPlatform
