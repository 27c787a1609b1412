/-
  HackPlatform.Proofs.Vm.Outcome
  ────────────────────────────────
  **A FILE IS LOWERED AS A WHOLE OR NOT AT ALL.**

  Only reading can fail.  What was read has passed the check, so it is lowered wherever
  it stands; in particular it never pops to a constant, for which there would be no code.
  So the first line that is refused is reported, whatever the file is called and whatever
  follows the line.  If there is none, each line has its fragment, and the fragments are the
  answers of one scope that is asked for all commands in turn.

      ReadCommands      lines are read as these commands
      originsOf         what lowering the lines asks for
      LoweredAs         the lowered file of certain commands

  Main results:
    * `exists_lower_of_read`, what was read is lowered in every scope;
    * `exists_loweredAs`, lines that are all read are lowered;
    * `lowering_all_or_nothing`.
-/
import HackPlatform.Proofs.Vm.Generation

namespace HackPlatform.Vm

open Asm

/-! ## §1. One line. -/

/-- **What was read is lowered**, wherever it stands. -/
theorem exists_lower_of_read {text : String} {c : Command} (h : Command.read text = .ok c)
    (s : Scope) : ∃ code, s.code c = .ok code ∧ s.lower c = .ok (code, s.after c) := by
  have hcheck := (wellFormed_of_read h).check
  obtain ⟨code, hcode⟩ := exists_code (s := s) hcheck
  exact ⟨code, hcode, lower_of_check hcheck hcode⟩

namespace Progress

variable (p : Progress) {line : SourceLine}

/-- A line that is refused is reported by its own number. -/
theorem addLine_of_unread {fault : Fault} (h : Command.read line.text = .error fault) :
    p.addLine line = .error ⟨line.number, fault⟩ := by
  unfold addLine
  rw [h]
  rfl

/-- A line that is read adds the scope's answer to its command. -/
theorem addLine_of_read {c : Command} (h : Command.read line.text = .ok c) :
    ∃ code, (p.scope.generate (.command line.number c)).1 = .ok code
      ∧ p.addLine line = .ok ⟨(p.scope.generate (.command line.number c)).2,
          p.fragments.push ⟨.command line.number c, code⟩⟩ := by
  obtain ⟨code, -, hlower⟩ := exists_lower_of_read h p.scope
  have hanswer := generate_of_lower hlower line.number
  refine ⟨code, by rw [hanswer], ?_⟩
  unfold addLine
  rw [hanswer, h]
  show Except.mapError _ ((p.scope.lower c).bind _) = _
  rw [hlower]
  rfl

/-- Only a line that is refused stops lowering. -/
theorem unread_of_addLine {e : Located Fault} (h : p.addLine line = .error e) :
    ∃ fault, Command.read line.text = .error fault := by
  cases hread : Command.read line.text with
  | error fault => exact ⟨fault, rfl⟩
  | ok c =>
      obtain ⟨code, -, hadd⟩ := p.addLine_of_read hread
      rw [hadd] at h
      cases h

end Progress

/-! ## §2. Many lines. -/

/-- The lines are read as these commands. -/
def ReadCommands (lines : List SourceLine) (commands : List Command) : Prop :=
  List.Forall₂ (fun line c => Command.read line.text = .ok c) lines commands

/-- Lines are read as commands if each of them is. -/
theorem exists_readCommands {lines : List SourceLine}
    (h : ∀ line ∈ lines, ∃ c, Command.read line.text = .ok c) :
    ∃ commands, ReadCommands lines commands := by
  induction lines with
  | nil => exact ⟨[], .nil⟩
  | cons line lines ih =>
      obtain ⟨c, hc⟩ := h line List.mem_cons_self
      obtain ⟨commands, hcommands⟩ := ih fun l hl => h l (List.mem_cons_of_mem line hl)
      exact ⟨c :: commands, .cons hc hcommands⟩

/-- The command of each line, with the line's number. -/
def commandOrigins (lines : List SourceLine) (commands : List Command) : List Origin :=
  List.zipWith (fun line c => .command line.number c) lines commands

/-- What lowering lines asks for: the start-up if there is to be one, then the command of each
line. -/
def originsOf (bootstrap : Bool) (lines : List SourceLine) (commands : List Command) :
    List Origin :=
  (if bootstrap then [.bootstrap] else []) ++ commandOrigins lines commands

/-- What is known when a scope has answered what it was asked for. -/
structure Progress.Answers (file : String) (asked : List Origin) (p : Progress) : Prop where
  /-- It stands where the answers leave it. -/
  scope : p.scope = scopeFrom (.start file) asked
  /-- There is one fragment for each thing asked for, -/
  origins : p.fragments.toList.map (·.origin) = asked
  /-- and it holds the answer. -/
  answers : answersFrom (.start file) asked = p.fragments.toList.map fun f => .ok f.code

/-- One thing more is asked for, and answered. -/
theorem Progress.Answers.push {file : String} {asked : List Origin} {p : Progress}
    (h : p.Answers file asked) {o : Origin} {code : List Instruction}
    (ho : (p.scope.generate o).1 = .ok code) :
    Progress.Answers file (asked ++ [o]) ⟨(p.scope.generate o).2, p.fragments.push ⟨o, code⟩⟩ where
  scope := by
    show (p.scope.generate o).2 = _
    unfold scopeFrom
    rw [List.foldl_append, h.scope]
    rfl
  origins := by
    show (p.fragments.push ⟨o, code⟩).toList.map _ = _
    rw [Array.toList_push, List.map_append, h.origins]
    rfl
  answers := by
    show _ = (p.fragments.push ⟨o, code⟩).toList.map _
    rw [answersFrom_append, ← h.scope, h.answers, Array.toList_push, List.map_append]
    show _ ++ [(p.scope.generate o).1] = _
    rw [ho]
    rfl

theorem answers_start (file : String) (bootstrap : Bool) :
    (Progress.start file bootstrap).Answers file (if bootstrap then [.bootstrap] else []) := by
  have hempty : Progress.Answers file [] ⟨.start file, #[]⟩ := ⟨rfl, rfl, rfl⟩
  cases bootstrap with
  | false => exact hempty
  | true => exact hempty.push (o := .bootstrap) rfl

/-- **Lines that are all read are answered one by one.** -/
theorem exists_progress {lines : List SourceLine} {commands : List Command}
    (hread : ReadCommands lines commands) {file : String} {asked : List Origin} {p : Progress}
    (h : p.Answers file asked) : ∃ p', lines.foldlM Progress.addLine p = .ok p'
      ∧ p'.Answers file (asked ++ commandOrigins lines commands) := by
  -- for every progress at once: the rest of the lines goes on from what the first one adds
  induction hread generalizing asked p with
  | nil => exact ⟨p, rfl, by simpa [commandOrigins] using h⟩
  | @cons line c lines commands hline _ ih =>
      obtain ⟨code, hcode, hadd⟩ := p.addLine_of_read hline
      obtain ⟨p', hfold, hp'⟩ := ih (h.push hcode)
      refine ⟨p', ?_, ?_⟩
      · rw [List.foldlM_cons, hadd]
        exact hfold
      · rw [List.append_assoc] at hp'
        exact hp'

/-! ## §3. Files. -/

/-- A file lowered from lines that are read as certain commands. -/
structure LoweredAs (file : String) (options : Options) (lines : List SourceLine)
    (commands : List Command) (l : Lowered) : Prop where
  /-- There is the start-up if it was asked for, and then one fragment for each line, with its
  number and its command. -/
  origins : l.origins = originsOf options.bootstrap lines commands
  /-- The code is what one scope answers to all of them, asked in order. -/
  answers : answersFrom (.start (toSymbol file)) l.origins = l.fragments.map fun f => .ok f.code
  /-- The labels are those that the scope has given out. -/
  labels : l.labels = (scopeFrom (.start (toSymbol file)) l.origins).labels
  /-- The lines of a fragment are its code, behind a comment if comments were asked for. -/
  lines : ∀ f ∈ l.fragments, f.lines l.annotated
    = (if options.annotate then ["// " ++ f.origin.render] else []) ++ f.code.map Instruction.render

theorem LoweredAs.answers_eq {file : String} {options : Options} {lines : List SourceLine}
    {commands : List Command} {l : Lowered} (h : LoweredAs file options lines commands l) :
    answersFrom (.start (toSymbol file)) l.origins = (l.fragments.map (·.code)).map .ok := by
  rw [h.answers, List.map_map]
  rfl

/-- **Lines that are all read are lowered.** -/
theorem exists_loweredAs {lines : List SourceLine} {commands : List Command}
    (h : ReadCommands lines commands) (file : String) (options : Options) :
    ∃ l, lowerFile file options lines = .ok l ∧ LoweredAs file options lines commands l := by
  obtain ⟨p, hfold, hp⟩ := exists_progress h (answers_start (toSymbol file) options.bootstrap)
  have horigins : p.fragments.toList.map (·.origin) = originsOf options.bootstrap lines commands :=
    hp.origins
  refine ⟨⟨options.annotate, p.fragments.toList, p.scope.labels⟩, ?_, horigins, ?_, ?_, ?_⟩
  · unfold lowerFile
    rw [hfold]
    rfl
  · show answersFrom _ (p.fragments.toList.map (·.origin)) = _
    rw [hp.origins]
    exact hp.answers
  · show p.scope.labels = (scopeFrom _ (p.fragments.toList.map (·.origin))).labels
    rw [hp.origins, hp.scope]
  · intro f _
    unfold Fragment.lines
    cases options.annotate <;> rfl

/-- A file that is not lowered has a line that is refused. -/
theorem exists_unread {file : String} {options : Options} {lines : List SourceLine}
    {e : Located Fault} (h : lowerFile file options lines = .error e) :
    ∃ line ∈ lines, ∃ fault, Command.read line.text = .error fault := by
  unfold lowerFile at h
  rcases bind_eq_error_iff.mp h with hfold | ⟨p, -, h⟩
  · obtain ⟨before, line, after, p, rfl, -, hadd⟩ := exists_of_foldlM_error hfold
    exact ⟨line, by simp, p.unread_of_addLine hadd⟩
  · cases h

/-- Only a line that is read adds to a file. -/
theorem Progress.readable_of_addLine {p p' : Progress} {line : SourceLine}
    (h : p.addLine line = .ok p') : ∃ c, Command.read line.text = .ok c := by
  cases hread : Command.read line.text with
  | error fault =>
      rw [p.addLine_of_unread hread] at h
      cases h
  | ok c => exact ⟨c, rfl⟩

theorem readable_of_foldlM {lines : List SourceLine} {p p' : Progress}
    (h : lines.foldlM Progress.addLine p = .ok p') :
    ∀ line ∈ lines, ∃ c, Command.read line.text = .ok c := by
  induction lines generalizing p with
  | nil => exact List.forall_mem_nil _
  | cons line lines ih =>
      rw [List.foldlM_cons] at h
      obtain ⟨q, hadd, hrest⟩ := bind_eq_ok_iff.mp h
      exact List.forall_mem_cons.mpr ⟨Progress.readable_of_addLine hadd, ih hrest⟩

/-- A file that is lowered has none. -/
theorem readable_of_lowerFile {file : String} {options : Options} {lines : List SourceLine}
    {l : Lowered} (h : lowerFile file options lines = .ok l) :
    ∀ line ∈ lines, ∃ c, Command.read line.text = .ok c := by
  unfold lowerFile at h
  obtain ⟨p, hfold, -⟩ := bind_eq_ok_iff.mp h
  exact readable_of_foldlM hfold

/-- **A file that is lowered is lowered as the commands of its lines.** -/
theorem loweredAs_of_lowerFile {file : String} {options : Options} {lines : List SourceLine}
    {l : Lowered} (h : lowerFile file options lines = .ok l) :
    ∃ commands, ReadCommands lines commands ∧ LoweredAs file options lines commands l := by
  obtain ⟨commands, hcommands⟩ := exists_readCommands (readable_of_lowerFile h)
  obtain ⟨l', hl', hlowered⟩ := exists_loweredAs hcommands file options
  cases h.symm.trans hl'
  exact ⟨commands, hcommands, hlowered⟩

/-- A line that is refused behind lines that are read is reported, whatever follows it. -/
theorem lowerFile_of_first {before : List SourceLine} {line : SourceLine} {fault : Fault}
    (hbefore : ∀ earlier ∈ before, ∃ c, Command.read earlier.text = .ok c)
    (hline : Command.read line.text = .error fault) (file : String) (options : Options)
    (after : List SourceLine) :
    lowerFile file options (before ++ line :: after) = .error ⟨line.number, fault⟩ := by
  obtain ⟨commands, hcommands⟩ := exists_readCommands hbefore
  obtain ⟨p, hfold, -⟩ :=
    exists_progress hcommands (answers_start (toSymbol file) options.bootstrap)
  unfold lowerFile
  rw [foldlM_error hfold (p.addLine_of_unread hline) after]
  rfl

/-- What comes of lowering a file. -/
structure AllOrNothing (file : String) (options : Options) (lines : List SourceLine) : Prop where
  /-- It fails iff a line is refused. -/
  fails_iff : (∃ e, lowerFile file options lines = .error e)
    ↔ ∃ line ∈ lines, ∃ fault, Command.read line.text = .error fault
  /-- The first such line is reported, for what it is refused for, whatever the file is called,
  whatever is asked for and whatever lines follow. -/
  first : ∀ (k : Nat) (line : SourceLine) (fault : Fault), lines[k]? = some line →
    (∀ earlier ∈ lines.take k, ∃ c, Command.read earlier.text = .ok c) →
    Command.read line.text = .error fault →
      ∀ file' options' lines', lines'.take (k + 1) = lines.take (k + 1) →
        lowerFile file' options' lines' = .error ⟨line.number, fault⟩
  /-- If all lines are read, the file is lowered as their commands. -/
  lowered : (∀ line ∈ lines, ∃ c, Command.read line.text = .ok c) →
    ∃ commands l, ReadCommands lines commands ∧ lowerFile file options lines = .ok l
      ∧ LoweredAs file options lines commands l
  /-- Nothing that was read is refused later: it passes the check, it has code in every scope,
  and so it is lowered. -/
  unrefused : ∀ line ∈ lines, ∀ c, Command.read line.text = .ok c → c.check = .ok ()
    ∧ ∀ s : Scope, ∃ code, s.code c = .ok code ∧ s.lower c = .ok (code, s.after c)

/-- **A file is lowered as a whole or not at all**, and it is not only where it cannot be
read. -/
theorem lowering_all_or_nothing (file : String) (options : Options) (lines : List SourceLine) :
    AllOrNothing file options lines where
  fails_iff := by
    constructor
    · rintro ⟨e, h⟩
      exact exists_unread h
    · rintro ⟨line, hline, fault, hunread⟩
      cases h : lowerFile file options lines with
      | error e => exact ⟨e, rfl⟩
      | ok l =>
          obtain ⟨c, hread⟩ := readable_of_lowerFile h line hline
          rw [hunread] at hread
          cases hread
  first := by
    intro k line fault hline hearlier hunread file' options' lines' htake
    have hlines' : lines' = lines.take k ++ line :: lines'.drop (k + 1) := by
      conv_lhs => rw [← List.take_append_drop (k + 1) lines', htake, List.take_add_one, hline]
      simp
    rw [hlines']
    exact lowerFile_of_first hearlier hunread file' options' _
  lowered := by
    intro hread
    obtain ⟨commands, hcommands⟩ := exists_readCommands hread
    obtain ⟨l, hl, hlowered⟩ := exists_loweredAs hcommands file options
    exact ⟨commands, l, hcommands, hl, hlowered⟩
  unrefused := fun line _ c hread =>
    ⟨(wellFormed_of_read hread).check, exists_lower_of_read hread⟩

end HackPlatform.Vm
