/-
  HackPlatform.Proofs.Asm.Lockstep
  ────────────────────────────────
  **ASSEMBLING KEEPS THE MEANING OF A PROGRAM, STEP BY STEP.**

  The words of an assembly on the CPU, and its statements on the symbolic
  machine under the final table, are in the same state after every step.

      words_step_as_statements   from every state the two take the same step
-/
import HackPlatform.Proofs.Asm.Resolution
import HackPlatform.Proofs.Asm.Symbolic

namespace HackPlatform.Asm

/-- The word of an instruction does what the instruction is spelt to do. -/
theorem execute_word {table : SymbolTable}
    (hsmall : ∀ name v, table.lookup name = some v → v ≤ maxAddress)
    {i : Instruction} (hspelt : i.WellSpelt) {w : Word} (hw : i.word? table = some w) (s : Cpu) :
    i.execute table s = some (s.execute w) := by
  cases i with
  | address operand =>
      cases operand with
      | literal value =>
          cases hw
          rw [execute_address s hspelt]
          rfl
      | symbol name =>
          obtain ⟨v, hv, rfl⟩ := Option.map_eq_some_iff.mp hw
          rw [execute_address s (hsmall name v hv)]
          show (table.lookup name).map _ = _
          rw [hv]
          rfl
  | compute dest comp jump =>
      cases hw
      exact execute_compute table s dest comp jump
  | label name => cases hw

/-- Within ROM both machines step, and to the same state. -/
theorem step_eq_stepStatements {lines : List SourceLine} {asm : Assembly}
    (h : assemble lines = .ok asm) {s : Cpu} (hpc : s.pc < asm.words.length) :
    ∃ t, Cpu.step asm.words s = some t ∧ stepStatements asm.table asm.statements s = some t := by
  obtain ⟨program, hread, hasm⟩ := assembled_of_assemble h
  obtain ⟨hlen, hget⟩ := map_some_eq_map hasm.words
  have hpc' : s.pc < asm.statements.length := hlen ▸ hpc
  have hmem : asm.statements[s.pc] ∈ program.filter Statement.isCode :=
    hasm.statements ▸ List.getElem_mem hpc'
  have hspelt := hread.wellSpelt _ (List.mem_of_mem_filter hmem)
  refine ⟨s.execute asm.words[s.pc], ?_, ?_⟩
  · unfold Cpu.step
    rw [List.getElem?_eq_getElem hpc]
    rfl
  · unfold stepStatements
    rw [List.getElem?_eq_getElem hpc']
    exact execute_word hasm.small hspelt (hget s.pc hpc hpc') s

/-- Past the end of ROM both machines stop. -/
theorem step_none {lines : List SourceLine} {asm : Assembly} (h : assemble lines = .ok asm)
    {s : Cpu} (hpc : asm.words.length ≤ s.pc) :
    Cpu.step asm.words s = none ∧ stepStatements asm.table asm.statements s = none := by
  obtain ⟨program, -, hasm⟩ := assembled_of_assemble h
  obtain ⟨hlen, -⟩ := map_some_eq_map hasm.words
  unfold Cpu.step stepStatements
  rw [List.getElem?_eq_none hpc, List.getElem?_eq_none (hlen ▸ hpc)]
  exact ⟨rfl, rfl⟩

theorem step_eq_step {lines : List SourceLine} {asm : Assembly} (h : assemble lines = .ok asm)
    (s : Cpu) : Cpu.step asm.words s = stepStatements asm.table asm.statements s := by
  rcases Nat.lt_or_ge s.pc asm.words.length with hpc | hpc
  · obtain ⟨t, hword, hstatement⟩ := step_eq_stepStatements h hpc
    rw [hword, hstatement]
  · obtain ⟨hword, hstatement⟩ := step_none h hpc
    rw [hword, hstatement]

/-- **Words run as statements do.**  From every state within ROM the CPU and the
symbolic machine step to the same state, and runs of any length agree. -/
theorem words_run_as_statements {lines : List SourceLine} {asm : Assembly}
    (h : assemble lines = .ok asm) :
    (∀ s : Cpu, s.pc < asm.words.length → ∃ t, Cpu.step asm.words s = some t
      ∧ stepStatements asm.table asm.statements s = some t)
      ∧ ∀ n s, runFor (Cpu.step asm.words) n s
          = runFor (stepStatements asm.table asm.statements) n s :=
  ⟨fun _ hpc => step_eq_stepStatements h hpc, runFor_congr (step_eq_step h)⟩

/-- A loop that counts a variable down, from a state in its middle. -/
theorem words_run_as_statements_loop :
    ∃ asm, assemble (SourceLine.ofText "(LOOP)\n@i\nMD=M-1\n@LOOP\nD;JGT") = .ok asm
      ∧ 2 < asm.words.length
      ∧ (∀ s : Cpu, s.pc = 2 → ∃ t, Cpu.step asm.words s = some t
          ∧ stepStatements asm.table asm.statements s = some t)
      ∧ ∀ n s, runFor (Cpu.step asm.words) n s
          = runFor (stepStatements asm.table asm.statements) n s := by
  have hrun : ((assemble (SourceLine.ofText "(LOOP)\n@i\nMD=M-1\n@LOOP\nD;JGT")).toOption.map
      fun asm => asm.words.length) = some 4 := by decide +kernel
  obtain ⟨asm, h, hlen⟩ := exists_ok_of_map hrun
  have hin : 2 < asm.words.length := by omega
  obtain ⟨hstep, hruns⟩ := words_run_as_statements h
  exact ⟨asm, h, hin, fun s hs => hstep s (hs ▸ hin), hruns⟩

end HackPlatform.Asm
