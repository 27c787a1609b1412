/-
  HackPlatform.Proofs.Vm.Comparison
  ────────────────────────────────
  **WHAT A COMPARISON DECIDES, AND WHERE IT IS WRONG ABOUT THE ORDER.**

  A comparison looks at the sign of the difference of its two values, modulo 2^16.
  That is the order of the signed values as long as the difference is itself a word
  of 16 bits.  If it is not, its sign is the wrong one: 32767 is not greater than -1.
  Equality does not depend on the sign and is always decided.

  This holds wherever the generated lines stand in a program that assembles, and for
  every prefix: blanks around a prefix are struck out with those of the symbol, and all
  that is left to know of the symbol is the `.` in it, which no platform symbol has.

      Arithmetic.relates   what a comparison asks of two numbers
      FitsWord             the difference of two words is a word
      addressOf            where a line of a program lies in ROM
      Compared             what a comparison has done to the memory

  Main results:
    * `relates_of_fits`, `relates_of_not_fits`, the sign of the difference and the order;
    * `placed_of_lines`, generated lines lie in ROM as generated;
    * `comparison_runs`, what the CPU does there.
-/
import HackPlatform.Proofs.Asm.Failure
import HackPlatform.Proofs.Vm.Fragments

namespace HackPlatform

open Asm Text

/-! ## §1. The sign of a difference. -/

namespace Vm

/-- What a comparison asks of two numbers. -/
def Arithmetic.relates : Arithmetic → Int → Int → Bool
  | .eq, a, b => decide (a = b)
  | .gt, a, b => decide (b < a)
  | .lt, a, b => decide (a < b)
  | _, _, _ => false

/-- The difference of two signed words is a signed word. -/
def FitsWord (x y : Word) : Prop := -32768 ≤ x.toInt - y.toInt ∧ x.toInt - y.toInt ≤ 32767

instance (x y : Word) : Decidable (FitsWord x y) := inferInstanceAs (Decidable (_ ∧ _))

section
variable {x y : Word}

theorem toInt_sub_of_fits (h : FitsWord x y) : (x - y).toInt = x.toInt - y.toInt := by
  unfold FitsWord at h
  rw [BitVec.toInt_sub, Int.bmod_eq_emod]
  split <;> omega

/-- A difference that is too large for a word comes out with the other sign. -/
theorem toInt_sub_of_not_fits (h : ¬ FitsWord x y) :
    (0 < (x - y).toInt ∧ x.toInt < y.toInt) ∨ ((x - y).toInt < 0 ∧ y.toInt < x.toInt) := by
  have hx := x.toInt_lt
  have hx' := x.le_toInt
  have hy := y.toInt_lt
  have hy' := y.le_toInt
  unfold FitsWord at h
  rw [BitVec.toInt_sub, Int.bmod_eq_emod]
  split <;> omega

/-- **The sign of a difference that fits tells the order.** -/
theorem relates_of_fits (op : Arithmetic) (h : FitsWord x y) :
    op.relates (x - y).toInt 0 = op.relates x.toInt y.toInt := by
  rw [toInt_sub_of_fits h]
  cases op with
  | eq | gt | lt => exact decide_eq_decide.mpr (by omega)
  | add | sub | neg | and | or | not => rfl

/-- **The sign of a difference that does not fit tells the opposite.** -/
theorem relates_of_not_fits {op : Arithmetic} (hop : op = .gt ∨ op = .lt) (h : ¬ FitsWord x y) :
    op.relates (x - y).toInt 0 = !op.relates x.toInt y.toInt := by
  have hsign := toInt_sub_of_not_fits h
  rcases hop with rfl | rfl
  all_goals
    show decide _ = !decide _
    rw [← decide_not, decide_eq_decide]
    omega

/-- Whether words are equal is told by their difference, whatever its size. -/
theorem relates_eq : Arithmetic.eq.relates (x - y).toInt 0 = Arithmetic.eq.relates x.toInt y.toInt := by
  by_cases h : FitsWord x y
  · exact relates_of_fits .eq h
  · have hsign := toInt_sub_of_not_fits h
    exact decide_eq_decide.mpr (by omega)

end

/-- A comparison decides by the sign of the difference. -/
theorem operator_relates {op : Arithmetic} (hop : op = .eq ∨ op = .gt ∨ op = .lt) :
    op.operator = .binary fun x y => truth (op.relates (x - y).toInt 0) := by
  rcases hop with rfl | rfl | rfl <;> rfl

end Vm

/-! ## §2. Generated lines, whatever the prefix. -/

namespace Asm

/-- Lines with the texts of instructions read as them, without the blanks. -/
theorem readProgram_of_texts {code : List Instruction} (hnamed : ∀ i ∈ code, i.Named) :
    ∀ {lines : List SourceLine}, (∀ line ∈ lines, ∃ i, Instruction.read line.text = .ok i) →
      lines.map (·.text) = code.map Instruction.render →
      (readProgram lines).map (·.instruction) = code.map Instruction.trimmed := by
  induction code with
  | nil =>
      intro lines _ htexts
      rw [List.map_eq_nil_iff.mp htexts]
      rfl
  | cons i code ih =>
      intro lines hread htexts
      obtain ⟨line, rest, rfl, htext, hrest⟩ := List.map_eq_cons_iff.mp htexts
      obtain ⟨j, hj⟩ := hread line List.mem_cons_self
      have hi : j = i.trimmed := by
        rw [htext] at hj
        exact eq_trimmed_of_read (hnamed i List.mem_cons_self) hj
      rw [readProgram_cons hj, List.map_cons, List.map_cons, hi,
        ih (fun i hmem => hnamed i (List.mem_cons_of_mem _ hmem))
          (fun line hmem => hread line (List.mem_cons_of_mem _ hmem)) hrest]

/-- The ROM address at which the line at an index lies: labels take no room. -/
def addressOf (lines : List SourceLine) (index : Nat) : Nat :=
  codeSize (readProgram (lines.take index))

end Asm

namespace Vm

theorem addressOf_eq_romSize (lines : List SourceLine) (index : Nat) :
    addressOf lines index = romSize ((readProgram (lines.take index)).map (·.instruction)) :=
  codeSize_eq_romSize _

/-- **Generated lines of a program that assembles lie in ROM as they were generated.** -/
theorem placed_of_lines {lines : List SourceLine} {before after : List String}
    {code : List Instruction} (hnamed : ∀ i ∈ code, i.Named)
    (htexts : lines.map (·.text) = before ++ code.map Instruction.render ++ after)
    {asm : Assembly} (hasm : assemble lines = .ok asm) :
    Placed asm (addressOf lines before.length) (code.map Instruction.trimmed)
      ∧ addressOf lines (before.length + code.length)
          = addressOf lines before.length + romSize (code.map Instruction.trimmed) := by
  obtain ⟨program, hread, hassembled⟩ := assembled_of_assemble hasm
  -- the lines before, the generated ones and those behind, each read on its own
  obtain ⟨first, later, hlines, hfirst, -⟩ := List.map_eq_append_iff.mp htexts
  obtain ⟨earlier, here, rfl, hearlier, hhere⟩ := List.map_eq_append_iff.mp hfirst
  have hreadable := hread.readable
  have hprogram := hread.readProgram_eq
  rw [hlines] at hreadable hprogram
  rw [readProgram_append, readProgram_append] at hprogram
  have hcode : (readProgram here).map (·.instruction) = code.map Instruction.trimmed := by
    refine readProgram_of_texts hnamed ?_ hhere
    intro line hmem
    exact hreadable line (List.mem_append_left _ (List.mem_append_right _ hmem))
  have hstart : lines.take before.length = earlier := by
    rw [hlines, ← hearlier, List.length_map, List.append_assoc, List.take_left]
  have hend : lines.take (before.length + code.length) = earlier ++ here := by
    have hlength : before.length + code.length = (earlier ++ here).length := by
      rw [List.length_append, ← hearlier, List.length_map, ← List.length_map Instruction.render,
        ← hhere, List.length_map]
    rw [hlength, hlines, List.take_left]
  rw [addressOf_eq_romSize, addressOf_eq_romSize, hstart, hend, readProgram_append, List.map_append,
    romSize_append, hcode]
  have hsplit : program.map (·.instruction) = (readProgram earlier).map (·.instruction)
      ++ code.map Instruction.trimmed ++ (readProgram later).map (·.instruction) := by
    rw [← hprogram, List.map_append, List.map_append, hcode]
  exact ⟨placed_of_assembled hassembled hsplit, rfl⟩

/-! ## §3. A comparison in a program. -/

theorem named_compareCode (jump : Jump) (sc : Scope) :
    ∀ i ∈ compareCode jump sc.compareSymbol, i.Named := by
  have hsp : (load "SP").Named := ⟨'S', by decide, by decide, by decide⟩
  have hsymbol : (load sc.compareSymbol).Named :=
    ⟨'.', mem_compareSymbol sc, by decide, by decide⟩
  show ∀ i ∈ load "SP" :: intoAM (.yMinusOne .m) :: intoD (.y .m) :: intoA (.yMinusOne .a)
    :: intoD (.yMinusD .m) :: intoM .minusOne :: load sc.compareSymbol :: goIfD jump
    :: load "SP" :: intoA (.yMinusOne .m) :: intoM .zero :: .label sc.compareSymbol :: [], _
  simp only [List.forall_mem_cons]
  exact ⟨hsp, trivial, trivial, trivial, trivial, trivial, hsymbol, trivial, hsp, trivial, trivial,
    trivial, nofun⟩

/-- The blanks around the prefix are struck out in the address and in the label alike. -/
theorem trimmed_compareCode (jump : Jump) (symbol : String) :
    (compareCode jump symbol).map Instruction.trimmed = compareCode jump (trimName symbol) := by
  have hsp : trimName "SP" = "SP" := by decide
  show load (trimName "SP") :: _ :: _ :: _ :: _ :: _ :: _ :: _ :: load (trimName "SP") :: _ = _
  rw [hsp]
  rfl

/-- No prefix makes the symbol of a comparison one of the platform's. -/
theorem isReserved_trimName_compareSymbol (sc : Scope) :
    isReserved (trimName sc.compareSymbol) = false := by
  have hdot := mem_compareSymbol sc
  obtain ⟨before, behind, hbefore, hbehind, hpad⟩ := padded_trim sc.compareSymbol.toList
  apply isReserved_eq_false_of_mem (c := '.') _ (.inr rfl)
  unfold trimName
  rw [String.toList_ofList]
  -- the dot is none of the blanks that are struck out
  rw [hpad, List.mem_append, List.mem_append] at hdot
  rcases hdot with (hblank | hmem) | hblank
  · exact absurd (hbefore _ hblank) (by decide)
  · exact hmem
  · exact absurd (hbehind _ hblank) (by decide)

/-- What a comparison of two values, the two topmost ones, has done. -/
structure Compared (op : Arithmetic) (x y : Word) (s t : Cpu) : Prop where
  /-- One value is popped. -/
  sp : t.ram Reg.sp = s.ram Reg.sp - 1#16
  /-- Where the lower value was stands what the sign of the difference says. -/
  judged : t.ram (s.ram Reg.sp - 2#16) = truth (op.relates (x - y).toInt 0)
  /-- That is how the values are related, if equality is asked for or the difference fits. -/
  signed : op = .eq ∨ FitsWord x y →
    t.ram (s.ram Reg.sp - 2#16) = truth (op.relates x.toInt y.toInt)
  /-- If it does not fit, the order is judged wrongly. -/
  wrapped : op ≠ .eq → ¬ FitsWord x y →
    t.ram (s.ram Reg.sp - 2#16) = truth (!op.relates x.toInt y.toInt)
  /-- Nothing else is changed. -/
  others : ∀ a, a ≠ Reg.sp → a ≠ s.ram Reg.sp - 2#16 → t.ram a = s.ram a

/-- What the operator of a comparison does to the memory. -/
theorem compared_of_apply {op : Arithmetic} (hop : op = .eq ∨ op = .gt ∨ op = .lt) {s t : Cpu}
    (hsp : 18 ≤ (s.ram Reg.sp).toNat) (ht : t.ram = op.operator.apply s.ram) :
    Compared op (s.ram (s.ram Reg.sp - 2#16)) (s.ram (s.ram Reg.sp - 1#16)) s t := by
  -- neither value lies in `SP` itself
  have htop : s.ram Reg.sp - 1#16 ≠ Reg.sp := by
    intro he
    bv_omega
  have hbelow : s.ram Reg.sp - 2#16 ≠ Reg.sp := by
    intro he
    bv_omega
  have hplace : s.ram.drop Reg.sp - 1#16 = s.ram Reg.sp - 2#16 := by
    rw [Ram.drop_sp]
    bv_omega
  have hpopped : s.ram.popped = s.ram (s.ram Reg.sp - 1#16) := by
    unfold Ram.popped
    rw [Ram.drop_sp, Ram.drop_other _ htop]
  rw [operator_relates hop] at ht
  have hram : t.ram = s.ram.drop.write (s.ram Reg.sp - 2#16) (truth (op.relates
      (s.ram (s.ram Reg.sp - 2#16) - s.ram (s.ram Reg.sp - 1#16)).toInt 0)) := by
    rw [ht]
    unfold Operator.apply
    simp only [hplace, hpopped, Ram.drop_other _ hbelow]
  have hjudged := hram ▸ Ram.write_same ..
  refine ⟨?_, hjudged, ?_, ?_, ?_⟩
  · rw [hram, Ram.write_other _ _ hbelow.symm, Ram.drop_sp]
  · rintro (rfl | hfits)
    · rw [hjudged, relates_eq]
    · rw [hjudged, relates_of_fits op hfits]
  · intro hne hfits
    rw [hjudged, relates_of_not_fits (hop.resolve_left hne) hfits]
  · intro a hsp' ha
    rw [hram, Ram.write_other _ _ ha, Ram.drop_other _ hsp']

/-- **A comparison decides by the sign of the difference, wherever it stands.** -/
theorem comparison_runs {op : Arithmetic} (hop : op = .eq ∨ op = .gt ∨ op = .lt) (sc : Scope)
    {lines : List SourceLine} {before after : List String}
    (htexts : lines.map (·.text)
      = before ++ (arithmeticCode sc op).map Instruction.render ++ after)
    {asm : Assembly} (hasm : assemble lines = .ok asm) {s : Cpu}
    (hpc : s.pc = addressOf lines before.length) (hsp : 16 ≤ (s.ram Reg.sp).toNat - 2) :
    ∃ k t, runFor (Cpu.step asm.words) k s = some t
      ∧ t.pc = addressOf lines (before.length + (arithmeticCode sc op).length)
      ∧ Compared op (s.ram (s.ram Reg.sp - 2#16)) (s.ram (s.ram Reg.sp - 1#16)) s t := by
  have hshape : ∃ jump, op.shape = .compare jump := by
    rcases hop with rfl | rfl | rfl <;> exact ⟨_, rfl⟩
  obtain ⟨jump, hjump⟩ := hshape
  have hcode : arithmeticCode sc op = compareCode jump sc.compareSymbol := by
    unfold arithmeticCode
    rw [hjump]
  rw [hcode] at htexts ⊢
  obtain ⟨hplaced, hend⟩ := placed_of_lines (named_compareCode jump sc) htexts hasm
  rw [trimmed_compareCode, ← hpc] at hplaced
  rw [trimmed_compareCode, ← hpc] at hend
  obtain ⟨program, -, hassembled⟩ := assembled_of_assemble hasm
  -- the label ends the fragment, so that its value is where the fragment ends
  have hsymbol : asm.table.lookup (trimName sc.compareSymbol)
      = some (s.pc + romSize (compareCode jump (trimName sc.compareSymbol))) := by
    have hends : compareCode jump (trimName sc.compareSymbol)
        = (compareCode jump (trimName sc.compareSymbol)).dropLast
          ++ [.label (trimName sc.compareSymbol)] := rfl
    rw [hends] at hplaced ⊢
    rw [lookup_of_placed hplaced (isReserved_trimName_compareSymbol sc), romSize_append]
    rfl
  have htop : s.ram Reg.sp - 2#16 ≠ Reg.sp := by
    intro he
    bv_omega
  have hplatform : KeepsPlatform asm.table := fun _ _ hv => lookup_of_reserved hassembled hv
  obtain ⟨k, t, hruns, ht, hram⟩ := run_compare (step_eq_step hasm) hplatform hplaced hsymbol
    (hassembled.small _ _ hsymbol) htop
  refine ⟨k, t, hruns, ht.trans hend.symm, compared_of_apply hop (by omega) ?_⟩
  rw [hram, operator_of_compare hjump]

/-- Two values on the stack, before the word at an address is executed. -/
def onStack (x y : Word) (pc : Nat) : Cpu where
  a := 0#16
  d := 0#16
  ram a := if a = Reg.sp then 258#16 else if a = 256#16 then x else if a = 257#16 then y else 0#16
  pc := pc

/-- The lines of a `gt` with others around it; a blank stands in front of the prefix. -/
def greaterLines : List SourceLine :=
  (["(START)", "@7"] ++ (arithmeticCode ⟨" Main", none, 3⟩ .gt).map Instruction.render
    ++ ["@START", "0;JMP"]).map (⟨1, ·⟩)

theorem comparison_runs_greater : ∃ asm k t, assemble greaterLines = .ok asm
    ∧ runFor (Cpu.step asm.words) k (onStack 5#16 (-7#16) 1) = some t
    ∧ t.pc = 12 ∧ Compared .gt 5#16 (-7#16) (onStack 5#16 (-7#16) 1) t
    ∧ t.ram 256#16 = truth true := by
  have hrun : ((assemble greaterLines).toOption.map fun _ => ()) = some () := by decide +kernel
  obtain ⟨asm, hasm, -⟩ := exists_ok_of_map hrun
  have htexts : greaterLines.map (·.text) = ["(START)", "@7"]
      ++ (arithmeticCode ⟨" Main", none, 3⟩ .gt).map Instruction.render ++ ["@START", "0;JMP"] :=
    rfl
  have hstart : (onStack 5#16 (-7#16) 1).pc = addressOf greaterLines 2 := by decide +kernel
  obtain ⟨k, t, hruns, hpc, hcompared⟩ :=
    comparison_runs (.inr (.inl rfl)) _ htexts hasm hstart (by decide)
  have hend : addressOf greaterLines 14 = 12 := by decide +kernel
  exact ⟨asm, k, t, hasm, hruns, hpc.trans hend, hcompared, hcompared.signed (.inr (by decide))⟩

/-- The lines of a `gt` alone. -/
def onlyGreater : List SourceLine :=
  ((arithmeticCode (Scope.start "Main") .gt).map Instruction.render).map (⟨1, ·⟩)

/-- The greatest word and the word -1 are compared, and the CPU stops behind the comparison:
it has put down false. -/
theorem greatest_not_greater : ∃ asm t, assemble onlyGreater = .ok asm
    ∧ runFor (Cpu.step asm.words) 11 (onStack 0x7FFF#16 0xFFFF#16 0) = some t
    ∧ Cpu.step asm.words t = none ∧ t.pc = addressOf onlyGreater 12
    ∧ (0xFFFF#16).toInt < (0x7FFF#16).toInt ∧ t.ram 256#16 = truth false := by
  have hrun : ((assemble onlyGreater).toOption.map fun asm =>
      (runFor (Cpu.step asm.words) 11 (onStack 0x7FFF#16 0xFFFF#16 0)).map fun t =>
        ((Cpu.step asm.words t).isNone, t.pc, t.ram 256#16)) = some (some (true, 11, 0#16)) := by
    decide +kernel
  obtain ⟨asm, hasm, hruns⟩ := exists_ok_of_map hrun
  obtain ⟨t, ht, hend⟩ := Option.map_eq_some_iff.mp hruns
  obtain ⟨hstop, hpc⟩ := Prod.mk.inj hend
  obtain ⟨hpc, hram⟩ := Prod.mk.inj hpc
  have haddress : addressOf onlyGreater 12 = 11 := by decide +kernel
  exact ⟨asm, t, hasm, ht, Option.isNone_iff_eq_none.mp hstop, hpc.trans haddress.symm, by decide,
    hram⟩

end Vm

end HackPlatform
