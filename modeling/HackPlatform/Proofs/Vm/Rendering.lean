/-
  HackPlatform.Proofs.Vm.Rendering
  ────────────────────────────────
  **A FILE WRITTEN OUT IS THE FILE.**

  Commands are read back from their texts, so a file can be replaced by its script, with
  each command on a line of its own.  What a command is lowered to depends on the commands
  before it and not on where they stood, and the script is lowered to the same fragments.
  Comments, blanks and other spellings of numbers are lost, and nothing else.

      script            commands written out, one a line
      SameLowered       two lowered files, the same up to the numbers of lines
      Rescripted        what comes of a file that is written out

  Main results:
    * `readCommands_script`, a script is read as its commands;
    * `sameLowered_of_readCommands`, a lowered file is told by its commands;
    * `commands_read_back`.
-/
import HackPlatform.Proofs.Vm.Listing
import HackPlatform.Proofs.Vm.Outcome

namespace HackPlatform.Vm

open Asm
open SourceLine (ofText)

/-! ## §1. Scripts. -/

/-- Commands written out, one a line. -/
def script (commands : List Command) : String :=
  String.join ((commands.map Command.render).map (· ++ "\n"))

theorem map_text_script {commands : List Command} (h : ∀ c ∈ commands, c.WellFormed) :
    (ofText (script commands)).map (·.text) = commands.map Command.render := by
  have hlines : rawLines (script commands) = commands.map Command.render :=
    rawLines_join (List.forall_mem_map.mpr fun c hc => Command.newline_not_mem_render (h c hc))
  rw [SourceLine.ofText_eq, SourceLine.map_text_ofRawLinesFrom, hlines, List.filterMap_map,
    ← List.filterMap_eq_map]
  exact List.filterMap_congr fun c hc => Command.cleanLine_render (h c hc)

/-- **A script is read as its commands.** -/
theorem readCommands_script {commands : List Command} (h : ∀ c ∈ commands, c.WellFormed) :
    ReadCommands (ofText (script commands)) commands := by
  have htexts : List.Forall₂ (fun text c => Command.read text = .ok c)
      ((ofText (script commands)).map (·.text)) commands := by
    rw [map_text_script h, List.forall₂_map_left_iff, List.forall₂_same]
    exact fun c hc => Command.read_render_iff.mpr (h c hc)
  rwa [List.forall₂_map_left_iff] at htexts

theorem ReadCommands.wellFormed {lines : List SourceLine} {commands : List Command}
    (h : ReadCommands lines commands) : ∀ c ∈ commands, c.WellFormed := by
  induction h with
  | nil => exact List.forall_mem_nil _
  | cons hread _ ih => exact List.forall_mem_cons.mpr ⟨wellFormed_of_read hread, ih⟩

/-! ## §2. Files with the same commands. -/

/-- What a fragment was made from, whatever its line, and its code. -/
def Fragment.unnumbered (f : Fragment) : Option Command × List Instruction :=
  (f.origin.command?, f.code)

/-- What is asked for gets the same answer on every line. -/
theorem generate_congr {s : Scope} {o o' : Origin} (hsame : o.command? = o'.command?)
    {code : List Instruction} (h : (s.generate o).1 = .ok code) : s.generate o' = s.generate o := by
  cases o with
  | bootstrap =>
      cases o' with
      | bootstrap => rfl
      | command line' c' => cases hsame
  | command line c =>
      cases o' with
      | bootstrap => cases hsame
      | command line' c' =>
          cases hsame
          cases hlower : s.lower c with
          | ok answer => rw [generate_of_lower hlower line, generate_of_lower hlower line']
          | error fault =>
              simp only [Scope.generate, hlower] at h
              cases h

/-- The answers to the same commands are the same. -/
theorem answersFrom_congr {asked asked' : List Origin}
    (hsame : asked.map Origin.command? = asked'.map Origin.command?)
    {s : Scope} {codes : List (List Instruction)} (h : answersFrom s asked = codes.map .ok) :
    answersFrom s asked' = codes.map .ok ∧ scopeFrom s asked' = scopeFrom s asked := by
  -- for every scope at once: the rest is asked in the scope that the first answer leaves
  induction asked generalizing asked' s codes with
  | nil =>
      cases List.map_eq_nil_iff.mp hsame.symm
      exact ⟨h, rfl⟩
  | cons o asked ih =>
      obtain ⟨o', rest, rfl⟩ : ∃ o' rest, asked' = o' :: rest := by
        cases asked' with
        | nil => cases hsame
        | cons o' rest => exact ⟨o', rest, rfl⟩
      obtain ⟨hfirst, hrest⟩ := List.cons.inj hsame
      cases codes with
      | nil => cases h
      | cons code codes =>
          obtain ⟨hanswer, hanswers⟩ := List.cons.inj h
          have hcongr := generate_congr hfirst hanswer
          obtain ⟨hanswers', hscope⟩ := ih hrest hanswers
          constructor
          · show (s.generate o').1 :: answersFrom (s.generate o').2 rest = _
            rw [hcongr, hanswer, hanswers']
            rfl
          · show scopeFrom (s.generate o').2 rest = scopeFrom (s.generate o).2 asked
            rw [hcongr, hscope]

theorem map_command?_commandOrigins {lines : List SourceLine} {commands : List Command}
    (h : ReadCommands lines commands) :
    (commandOrigins lines commands).map Origin.command? = commands.map some := by
  induction h with
  | nil => rfl
  | cons _ _ ih => exact congrArg (List.cons _) ih

/-- What is asked for is told by the commands, up to the numbers of lines. -/
theorem map_command?_originsOf {lines lines' : List SourceLine} {commands : List Command}
    (h : ReadCommands lines commands) (h' : ReadCommands lines' commands) (bootstrap : Bool) :
    (originsOf bootstrap lines commands).map Origin.command?
      = (originsOf bootstrap lines' commands).map Origin.command? := by
  unfold originsOf
  rw [List.map_append, List.map_append, map_command?_commandOrigins h,
    map_command?_commandOrigins h']

theorem map_unnumbered (fragments : List Fragment) : fragments.map Fragment.unnumbered
    = ((fragments.map (·.origin)).map Origin.command?).zip (fragments.map (·.code)) := by
  rw [List.map_map, List.zip_map']
  rfl

/-- Two lowered files are the same, up to the numbers of the lines that they were lowered from. -/
structure SameLowered (l l' : Lowered) : Prop where
  /-- Their fragments have the same commands and the same code, one by one. -/
  fragments : l.fragments.map Fragment.unnumbered = l'.fragments.map Fragment.unnumbered
  /-- Comments head the fragments of both or of neither. -/
  annotated : l.annotated = l'.annotated
  /-- As many labels were generated. -/
  labels : l.labels = l'.labels

/-- The lines of a fragment do not show its number. -/
theorem Fragment.lines_congr {f f' : Fragment} (h : f.unnumbered = f'.unnumbered)
    (annotated : Bool) : f.lines annotated = f'.lines annotated := by
  obtain ⟨hcommand, hcode⟩ := Prod.mk.inj h
  have hrender : ∀ o : Origin, o.render = (o.command?.map Command.render).getD "bootstrap" := by
    intro o
    cases o <;> rfl
  unfold Fragment.lines
  rw [hrender, hrender, hcommand, hcode]

theorem flatMap_lines_congr {fragments fragments' : List Fragment}
    (h : List.Forall₂ (fun f f' => f.unnumbered = f'.unnumbered) fragments fragments')
    (annotated : Bool) :
    fragments.flatMap (·.lines annotated) = fragments'.flatMap (·.lines annotated) := by
  induction h with
  | nil => rfl
  | cons hf _ ih => rw [List.flatMap_cons, List.flatMap_cons, Fragment.lines_congr hf, ih]

/-- Files that are the same but for the numbers have the same lines of assembly. -/
theorem SameLowered.lines_eq {l l' : Lowered} (h : SameLowered l l') : l.lines = l'.lines := by
  have hfragments := h.fragments
  rw [← List.forall₂_eq_eq_eq, List.forall₂_map_left_iff, List.forall₂_map_right_iff] at hfragments
  unfold Lowered.lines
  rw [h.annotated]
  exact flatMap_lines_congr hfragments l'.annotated

theorem annotated_of_lowerFile {file : String} {options : Options} {lines : List SourceLine}
    {l : Lowered} (h : lowerFile file options lines = .ok l) : l.annotated = options.annotate := by
  unfold lowerFile at h
  obtain ⟨p, -, h⟩ := bind_eq_ok_iff.mp h
  cases h
  rfl

/-- **A lowered file is told by its commands**, up to the numbers of lines. -/
theorem sameLowered_of_readCommands {lines lines' : List SourceLine} {commands : List Command}
    (h : ReadCommands lines commands) (h' : ReadCommands lines' commands)
    (file : String) (options : Options) :
    ∃ l l', lowerFile file options lines = .ok l ∧ lowerFile file options lines' = .ok l'
      ∧ SameLowered l l' := by
  obtain ⟨l, hl, hlowered⟩ := exists_loweredAs h file options
  obtain ⟨l', hl', hlowered'⟩ := exists_loweredAs h' file options
  have hsame : l.origins.map Origin.command? = l'.origins.map Origin.command? := by
    rw [hlowered.origins, hlowered'.origins]
    exact map_command?_originsOf h h' options.bootstrap
  -- what one scope answers to the first file, it answers to the second one
  obtain ⟨hanswers, hscope⟩ := answersFrom_congr hsame hlowered.answers_eq
  have hcode : l.fragments.map (·.code) = l'.fragments.map (·.code) :=
    List.map_injective_iff.mpr (fun _ _ => Except.ok.inj)
      (hanswers.symm.trans hlowered'.answers_eq)
  refine ⟨l, l', hl, hl', ?_, ?_, ?_⟩
  · rw [map_unnumbered, map_unnumbered]
    exact congrArg₂ List.zip hsame hcode
  · rw [annotated_of_lowerFile hl, annotated_of_lowerFile hl']
  · rw [hlowered.labels, hlowered'.labels, hscope]

/-! ## §3. Files written out. -/

/-- What comes of a file whose commands are written out and lowered again. -/
structure Rescripted (file : String) (options : Options) (lines : List SourceLine) (l : Lowered)
    (commands : List Command) (l' : Lowered) : Prop where
  /-- The commands are what the lines are read as. -/
  read : ReadCommands lines commands
  /-- The lines of their script are read as the same commands, -/
  readAgain : ReadCommands (ofText (script commands)) commands
  /-- and lowered, under the same name and with the same options, -/
  lowered : lowerFile file options (ofText (script commands)) = .ok l'
  /-- to the same file, up to the numbers of lines. -/
  same : SameLowered l l'
  /-- So the assembly is the same, comments included. -/
  text : l.text = l'.text

/-- **Whatever is lowered is the same when it is written out.** -/
theorem exists_rescripted {file : String} {options : Options} {lines : List SourceLine}
    {l : Lowered} (h : lowerFile file options lines = .ok l) :
    ∃ commands l', Rescripted file options lines l commands l' := by
  obtain ⟨commands, hread, -⟩ := loweredAs_of_lowerFile h
  have hagain := readCommands_script hread.wellFormed
  obtain ⟨l₁, l', hl₁, hl', hsame⟩ := sameLowered_of_readCommands hread hagain file options
  cases h.symm.trans hl₁
  refine ⟨commands, l', hread, hagain, hl', hsame, ?_⟩
  unfold Lowered.text
  rw [hsame.lines_eq]

/-- **Writing out and reading undo each other**, for one command and for whole files. -/
theorem commands_read_back :
    (∀ c : Command, Command.read c.render = .ok c ↔ c.WellFormed)
      ∧ ∀ (file : String) (options : Options) (lines : List SourceLine) (l : Lowered),
        lowerFile file options lines = .ok l →
          ∃ commands l', Rescripted file options lines l commands l' :=
  ⟨fun _ => Command.read_render_iff, fun _ _ _ _ => exists_rescripted⟩

/-- A file with comments, blanks and zeros that its script does without. -/
def loosely : List SourceLine :=
  ofText "// a loop\n function\tf  01 // local\n\nlabel L\npush local 00\nif-goto L\nreturn"

theorem commands_read_back_loosely :
    ∃ l, lowerFile "07-prog" ⟨true, true⟩ loosely = .ok l ∧ l.fragments.length = 6
      ∧ ∃ commands l', Rescripted "07-prog" ⟨true, true⟩ loosely l commands l' := by
  have hrun : ((lowerFile "07-prog" ⟨true, true⟩ loosely).toOption.map fun l =>
      l.fragments.length) = some 6 := by decide +kernel
  obtain ⟨l, hl, hlength⟩ := exists_ok_of_map hrun
  exact ⟨l, hl, hlength, commands_read_back.2 "07-prog" ⟨true, true⟩ loosely l hl⟩

end HackPlatform.Vm
