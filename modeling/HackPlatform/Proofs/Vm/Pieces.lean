/-
  HackPlatform.Proofs.Vm.Pieces
  ────────────────────────────────
  **WHAT THE PIECES OF GENERATED CODE DO.**

  Generated code is straight but for a few jumps.  Straight code is executed here
  without looking at ROM, piece by piece: each piece turns one state of the CPU
  into another, in front of any code that follows.  `run_straight` then says that
  straight code that lies in ROM is what the CPU does there.

      runStraight        execute code that does not jump
      run_straight       the CPU does the same
      runStraight_pushD, runStraight_popD, …   one lemma for each piece

  The memory that a piece leaves behind is written with the stack machine's own
  operations: a push of the generated code is a push.
-/
import HackPlatform.Proofs.Vm.Placement

namespace HackPlatform.Vm

open Asm

/-! ## §1. Straight code. -/

/-- The instruction goes on to the next one. -/
def goesOn : Instruction → Bool
  | .compute _ _ jump => jump == .never
  | _ => true

/-- Execute code in order.  Labels are passed over; a jump stops. -/
def runStraight (table : SymbolTable) : List Instruction → Cpu → Option Cpu
  | [], s => some s
  | i :: code, s =>
      if i.isLabel then runStraight table code s
      else if goesOn i then (i.execute table s).bind (runStraight table code)
      else none

theorem pc_of_execute {table : SymbolTable} {i : Instruction} (hi : goesOn i = true) {s t : Cpu}
    (h : i.execute table s = some t) : t.pc = s.pc + 1 := by
  cases i with
  | address operand =>
      cases operand with
      | literal value => cases h; rfl
      | symbol name =>
          obtain ⟨v, -, rfl⟩ := Option.map_eq_some_iff.mp h
          rfl
  | compute dest comp jump =>
      have hj : jump = .never := beq_iff_eq.mp hi
      subst hj
      rw [Instruction.execute_named] at h
      cases h
      rfl
  | label name => cases h

/-- The instruction that lies at the program counter is the one executed. -/
theorem step_of_standsAt {asm : Assembly}
    (hstep : ∀ s, Cpu.step asm.words s = stepStatements asm.table asm.statements s)
    {i : Instruction} (hi : i.isLabel = false) {s : Cpu} (h : StandsAt asm s.pc i) :
    Cpu.step asm.words s = i.execute asm.table s := by
  have hat : ∃ line, asm.statements[s.pc]? = some ⟨line, i⟩ := by
    cases i with
    | label name => cases hi
    | address operand | compute dest comp jump => exact h
  obtain ⟨line, hline⟩ := hat
  rw [hstep]
  unfold stepStatements
  rw [hline]
  rfl

/-- **Straight code that lies at the program counter is what the CPU does next.** -/
theorem run_straight {asm : Assembly}
    (hstep : ∀ s, Cpu.step asm.words s = stepStatements asm.table asm.statements s)
    {code : List Instruction} : ∀ {s t : Cpu}, Placed asm s.pc code →
      runStraight asm.table code s = some t →
      runFor (Cpu.step asm.words) (romSize code) s = some t ∧ t.pc = s.pc + romSize code := by
  -- by induction on the code; a label takes no step and no room
  induction code with
  | nil =>
      intro s t _ h
      cases h
      exact ⟨rfl, rfl⟩
  | cons i code ih =>
      intro s t hplaced h
      obtain ⟨hhead, hrest⟩ := hplaced
      unfold runStraight at h
      rw [romSize_cons]
      unfold width at hrest ⊢
      cases hi : i.isLabel with
      | true =>
          rw [hi, if_pos rfl] at h hrest
          rw [if_pos rfl, Nat.zero_add]
          exact ih hrest h
      | false =>
          rw [hi, if_neg Bool.false_ne_true] at h hrest
          rw [if_neg Bool.false_ne_true, Nat.add_comm]
          split at h
          next hon =>
            obtain ⟨u, hu, h⟩ := Option.bind_eq_some_iff.mp h
            have hpc : u.pc = s.pc + 1 := pc_of_execute hon hu
            rw [← hpc] at hrest
            obtain ⟨hrun, htpc⟩ := ih hrest h
            refine ⟨?_, by omega⟩
            rw [runFor_succ ((step_of_standsAt hstep hi hhead).trans hu), hrun]
          next => cases h

/-! ## §2. Single instructions. -/

section
variable (table : SymbolTable) (code : List Instruction) (s : Cpu)

theorem runStraight_label (name : String) :
    runStraight table (.label name :: code) s = runStraight table code s := rfl

theorem runStraight_loadNumber (n : Nat) :
    runStraight table (loadNumber n :: code) s
      = runStraight table code (s.load (BitVec.ofNat 16 n)) := rfl

theorem runStraight_load {table : SymbolTable} {name : String} {v : Nat}
    (h : table.lookup name = some v) :
    runStraight table (load name :: code) s
      = runStraight table code (s.load (BitVec.ofNat 16 v)) := by
  show ((table.lookup name).map _).bind _ = _
  rw [h]
  rfl

theorem runStraight_compute (dest : Dest) (comp : Comp) :
    runStraight table (.compute dest comp .never :: code) s
      = runStraight table code
          (s.store dest.a dest.d dest.m false (comp.value s.d s.a (s.ram s.a))) := by
  show ((Instruction.compute dest comp .never).execute table s).bind _ = _
  rw [Instruction.execute_named]
  rfl

theorem runStraight_intoA (c : Comp) :
    runStraight table (intoA c :: code) s
      = runStraight table code ⟨c.value s.d s.a (s.ram s.a), s.d, s.ram, s.pc + 1⟩ :=
  runStraight_compute ..

theorem runStraight_intoD (c : Comp) :
    runStraight table (intoD c :: code) s
      = runStraight table code ⟨s.a, c.value s.d s.a (s.ram s.a), s.ram, s.pc + 1⟩ :=
  runStraight_compute ..

theorem runStraight_intoM (c : Comp) :
    runStraight table (intoM c :: code) s
      = runStraight table code
          ⟨s.a, s.d, s.ram.write s.a (c.value s.d s.a (s.ram s.a)), s.pc + 1⟩ :=
  runStraight_compute ..

theorem runStraight_intoAM (c : Comp) :
    runStraight table (intoAM c :: code) s
      = runStraight table code ⟨c.value s.d s.a (s.ram s.a), s.d,
          s.ram.write s.a (c.value s.d s.a (s.ram s.a)), s.pc + 1⟩ :=
  runStraight_compute ..

end

/-! ## §3. Pieces. -/

/-- A table that gives the platform's symbols their values. -/
def KeepsPlatform (table : SymbolTable) : Prop :=
  ∀ name v, reservedSymbols.lookup name = some v → table.lookup name = some v

section
variable {table : SymbolTable} (ht : KeepsPlatform table) (code : List Instruction) (s : Cpu)
include ht

theorem runStraight_pushD :
    runStraight table (pushD ++ code) s
      = runStraight table code ⟨Reg.sp, s.d, s.ram.push s.d, s.pc + 5⟩ := by
  have hsp := ht "SP" 0 rfl
  show runStraight table (load "SP" :: intoA (.y .m) :: intoM .d :: load "SP"
    :: intoM (.yPlusOne .m) :: code) s = _
  rw [runStraight_load _ _ hsp, runStraight_intoA, runStraight_intoM, runStraight_load _ _ hsp,
    runStraight_intoM]
  rfl

theorem runStraight_popD :
    runStraight table (popD ++ code) s
      = runStraight table code ⟨s.ram.drop Reg.sp, s.ram.popped, s.ram.drop, s.pc + 3⟩ := by
  have hsp := ht "SP" 0 rfl
  show runStraight table (load "SP" :: intoAM (.yMinusOne .m) :: intoD (.y .m) :: code) s = _
  rw [runStraight_load _ _ hsp, runStraight_intoAM, runStraight_intoD, Ram.popped, Ram.drop_sp]
  rfl

theorem runStraight_takeTop :
    runStraight table (takeTop ++ code) s
      = runStraight table code
          ⟨s.ram.drop Reg.sp - 1#16, s.ram.popped, s.ram.drop, s.pc + 4⟩ := by
  unfold takeTop
  rw [List.append_assoc, runStraight_popD ht, List.singleton_append, runStraight_intoA]
  rfl

theorem runStraight_pushZeros (locals : Nat) :
    ∃ a d pc, runStraight table ((List.replicate locals (intoD .zero :: pushD)).flatten ++ code) s
      = runStraight table code ⟨a, d, s.ram.pushZeros locals, pc⟩ := by
  induction locals generalizing s with
  | zero => exact ⟨s.a, s.d, s.pc, rfl⟩
  | succ locals ih =>
      obtain ⟨a, d, pc, hrest⟩ := ih ⟨Reg.sp, 0#16, s.ram.push 0#16, s.pc + 6⟩
      refine ⟨a, d, pc, ?_⟩
      rw [List.replicate_succ, List.flatten_cons, List.append_assoc, List.cons_append,
        runStraight_intoD, runStraight_pushD ht]
      exact hrest

variable {register : String} {v : Nat} (hregister : reservedSymbols.lookup register = some v)
include hregister

theorem runStraight_pushRegister :
    runStraight table (pushRegister register ++ code) s
      = runStraight table code ⟨Reg.sp, s.ram (BitVec.ofNat 16 v),
          s.ram.pushCell (BitVec.ofNat 16 v), s.pc + 7⟩ := by
  have hv := ht register v hregister
  unfold pushRegister
  rw [List.append_assoc]
  show runStraight table (load register :: intoD (.y .m) :: (pushD ++ code)) s = _
  rw [runStraight_load _ _ hv, runStraight_intoD, runStraight_pushD ht]
  rfl

/-- The word below the one that `R13` points at goes into the register. -/
theorem runStraight_restoreRegister :
    runStraight table (restoreRegister register ++ code) s
      = runStraight table code
          (let below := s.ram Reg.r13 - 1#16
           let m := s.ram.write Reg.r13 below
           ⟨BitVec.ofNat 16 v, m below, m.write (BitVec.ofNat 16 v) (m below), s.pc + 5⟩) := by
  have hv := ht register v hregister
  have h13 := ht "R13" 13 rfl
  show runStraight table (load "R13" :: intoAM (.yMinusOne .m) :: intoD (.y .m) :: load register
    :: intoM .d :: code) s = _
  rw [runStraight_load _ _ h13, runStraight_intoAM, runStraight_intoD, runStraight_load _ _ hv,
    runStraight_intoM]
  rfl

end

end HackPlatform.Vm
