/-
  HackPlatform.Proofs.Vm.Frames
  ────────────────────────────────
  **THE CODE THAT BUILDS A FRAME AND THE CODE THAT TAKES IT DOWN.**

  A call pushes five words, moves `ARG` and `LCL` and jumps.  A return keeps the
  end of the frame in `R13` and the return address in `R14`, leaves the result to
  the caller, and then takes one register after the other from below `R13`, which
  goes down by one each time.  The return address has to be kept because the
  result may be put in its place.

      Kept                       `R13` and `R14` while a frame is taken down
      leadsTo_call, leadsTo_ret  the fragments
-/
import HackPlatform.Proofs.Vm.Fragments

namespace HackPlatform.Vm

open Asm

/-! ## §1. Calls. -/

/-- The code of a call up to its jump. -/
def callSetup (name : String) (args : Nat) (ret : String) : List Instruction :=
  [load ret, intoD (.y .a)] ++ pushD
    ++ ["LCL", "ARG", "THIS", "THAT"].flatMap pushRegister
    ++ [load "SP", intoD (.y .m), loadNumber (frameSize + args), intoD (.dMinusY .a),
        load "ARG", intoM .d, load "SP", intoD (.y .m), load "LCL", intoM .d, load name]

theorem callCode_eq (name : String) (args : Nat) (ret : String) :
    callCode name args ret = callSetup name args ret ++ goNow :: [.label ret] := rfl

section
variable {table : SymbolTable} (ht : KeepsPlatform table) (s : Cpu)
include ht

/-- The registers of the caller are pushed in order. -/
theorem runStraight_save (m : Ram) (a ret : Word) (pc : Nat) (code : List Instruction) :
    runStraight table (pushD ++ (["LCL", "ARG", "THIS", "THAT"].flatMap pushRegister ++ code))
        ⟨a, ret, m, pc⟩
      = runStraight table code
          ⟨Reg.sp, ((((m.push ret).pushCell Reg.lcl).pushCell Reg.arg).pushCell Reg.this) Reg.that,
            m.saved ret, pc + 33⟩ := by
  have hcode : ["LCL", "ARG", "THIS", "THAT"].flatMap pushRegister ++ code
      = pushRegister "LCL" ++ (pushRegister "ARG" ++ (pushRegister "THIS"
        ++ (pushRegister "THAT" ++ code))) := by
    simp only [List.flatMap_cons, List.flatMap_nil, List.append_assoc, List.nil_append]
  rw [hcode, runStraight_pushD ht, runStraight_pushRegister ht _ _ (v := 1) rfl,
    runStraight_pushRegister ht _ _ (v := 2) rfl, runStraight_pushRegister ht _ _ (v := 3) rfl,
    runStraight_pushRegister ht _ _ (v := 4) rfl]
  dsimp only
  rfl

/-- A call builds the frame and loads the function's address. -/
theorem runStraight_callSetup {name ret : String} (args : Nat) {v r : Nat}
    (hname : table.lookup name = some v) (hret : table.lookup ret = some r) :
    ∃ u, runStraight table (callSetup name args ret) s = some u
      ∧ u.a = BitVec.ofNat 16 v ∧ u.ram = s.ram.called (BitVec.ofNat 16 r) args := by
  have hsp := ht "SP" 0 rfl
  let m := s.ram.saved (BitVec.ofNat 16 r)
  let moved := m.write Reg.arg (m Reg.sp - BitVec.ofNat 16 (frameSize + args))
  refine ⟨⟨BitVec.ofNat 16 v, moved Reg.sp, moved.copy Reg.lcl Reg.sp, s.pc + 46⟩, ?_, rfl, rfl⟩
  show runStraight table (load ret :: intoD (.y .a) :: (pushD
    ++ (["LCL", "ARG", "THIS", "THAT"].flatMap pushRegister
      ++ [load "SP", intoD (.y .m), loadNumber (frameSize + args), intoD (.dMinusY .a),
        load "ARG", intoM .d, load "SP", intoD (.y .m), load "LCL", intoM .d, load name]))) s = _
  rw [runStraight_load _ _ hret, runStraight_intoD, runStraight_save ht, runStraight_load _ _ hsp,
    runStraight_intoD, runStraight_loadNumber, runStraight_intoD,
    runStraight_load _ _ (ht "ARG" 2 rfl), runStraight_intoM, runStraight_load _ _ hsp,
    runStraight_intoD, runStraight_load _ _ (ht "LCL" 1 rfl), runStraight_intoM,
    runStraight_load _ _ hname]
  rfl

end

/-! ## §2. Returns. -/

/-- Keep the end of the frame and the return address. -/
def keepFrame : List Instruction :=
  [load "LCL", intoD (.y .m), load "R13", intoM .d,
   loadNumber frameSize, intoA (.dMinusY .a), intoD (.y .m), load "R14", intoM .d]

/-- Leave the result to the caller. -/
def answer : List Instruction :=
  popD ++ [load "ARG", intoA (.y .m), intoM .d, load "ARG", intoD (.yPlusOne .m),
    load "SP", intoM .d]

/-- Restore the caller's registers, and load the return address. -/
def restoreAll : List Instruction :=
  ["THAT", "THIS", "ARG", "LCL"].flatMap restoreRegister ++ [load "R14", intoA (.y .m)]

theorem returnCode_eq : returnCode = (keepFrame ++ (answer ++ restoreAll)) ++ goNow :: [] := rfl

/-- While a frame is taken down: the memory so far, the end of the words that are still
to be restored, and the return address. -/
structure Kept (m u : Ram) (frame ret : Word) : Prop where
  /-- The memory is the stack machine's but for the scratch. -/
  agree : Agree m u
  /-- `R13` points behind the word that is restored next. -/
  frame : u Reg.r13 = frame
  /-- `R14` holds the return address. -/
  address : u Reg.r14 = ret

theorem Kept.restore {m u : Ram} {frame ret : Word} (h : Kept m u frame ret) {register : Word}
    (hregister : ¬ IsScratch register) (hcell : ¬ IsScratch (frame - 1#16)) :
    Kept (m.copy register (frame - 1#16))
      ((u.write Reg.r13 (frame - 1#16)).copy register (frame - 1#16)) (frame - 1#16) ret := by
  -- `R13` goes down by one and is then where the word is
  have hagree : Agree m (u.write Reg.r13 (frame - 1#16)) :=
    h.agree.trans (Agree.write_scratch u (.inl rfl) _).symm
  have h13 : Reg.r13 ≠ register := fun he => hregister (.inl he.symm)
  have h14 : Reg.r14 ≠ register := fun he => hregister (.inr he.symm)
  refine ⟨hagree.copy register hcell, ?_, ?_⟩
  · unfold Ram.copy
    rw [Ram.write_other _ _ h13, Ram.write_same]
  · unfold Ram.copy
    rw [Ram.write_other _ _ h14, Ram.write_other _ _ (by decide), h.address]

/-- The result of a call lies off the scratch, and so the scratch is kept. -/
theorem Kept.answered {m u : Ram} {frame ret : Word} (h : Kept m u frame ret)
    (htop : ¬ IsScratch (m Reg.sp - 1#16)) (harg : ¬ IsScratch (m Reg.arg)) :
    Kept m.answered u.answered frame ret := by
  have hkept : ∀ a, IsScratch a → u.answered a = u a := by
    intro a ha
    have hsp : a ≠ Reg.sp := by
      rintro rfl
      exact absurd ha (by decide)
    have hne : a ≠ u Reg.arg := by
      rintro rfl
      exact harg (h.agree.arg ▸ ha)
    exact Ram.answered_other hsp hne
  refine ⟨h.agree.answered htop, ?_, ?_⟩
  · rw [hkept _ (.inl rfl), h.frame]
  · rw [hkept _ (.inr rfl), h.address]

section
variable {table : SymbolTable} (ht : KeepsPlatform table) (s : Cpu)
include ht

theorem runStraight_keepFrame (hret : ¬ IsScratch (s.ram Reg.lcl - 5#16))
    (code : List Instruction) :
    ∃ u, runStraight table (keepFrame ++ code) s = runStraight table code u
      ∧ Kept s.ram u.ram (s.ram Reg.lcl) s.ram.returnAddress := by
  let frame := s.ram Reg.lcl
  let m := s.ram.write Reg.r13 frame
  have hagree : Agree s.ram m := (Agree.write_scratch s.ram (.inl rfl) frame).symm
  have hagree' : Agree m (m.write Reg.r14 (m (frame - 5#16))) :=
    (Agree.write_scratch m (.inr rfl) _).symm
  refine ⟨⟨Reg.r14, m (frame - 5#16), m.write Reg.r14 (m (frame - 5#16)), s.pc + 9⟩, ?_,
    hagree.trans hagree', ?_, ?_⟩
  · show runStraight table (load "LCL" :: intoD (.y .m) :: load "R13" :: intoM .d
      :: loadNumber frameSize :: intoA (.dMinusY .a) :: intoD (.y .m) :: load "R14" :: intoM .d
      :: code) s = _
    rw [runStraight_load _ _ (ht "LCL" 1 rfl), runStraight_intoD,
      runStraight_load _ _ (ht "R13" 13 rfl), runStraight_intoM, runStraight_loadNumber,
      runStraight_intoA, runStraight_intoD, runStraight_load _ _ (ht "R14" 14 rfl),
      runStraight_intoM]
    rfl
  · show m.write Reg.r14 (m (frame - 5#16)) Reg.r13 = frame
    rw [Ram.write_other _ _ (by decide)]
    exact Ram.write_same ..
  · show m.write Reg.r14 (m (frame - 5#16)) Reg.r14 = s.ram (frame - 5#16)
    rw [Ram.write_same, hagree _ hret]

theorem runStraight_answer (code : List Instruction) :
    ∃ a d pc, runStraight table (answer ++ code) s
      = runStraight table code ⟨a, d, s.ram.answered, pc⟩ := by
  let m := s.ram.drop.write (s.ram.drop Reg.arg) s.ram.popped
  refine ⟨Reg.sp, m Reg.arg + 1#16, s.pc + 10, ?_⟩
  unfold answer
  rw [List.append_assoc, runStraight_popD ht]
  show runStraight table (load "ARG" :: intoA (.y .m) :: intoM .d :: load "ARG"
    :: intoD (.yPlusOne .m) :: load "SP" :: intoM .d :: code) _ = _
  rw [runStraight_load _ _ (ht "ARG" 2 rfl), runStraight_intoA, runStraight_intoM,
    runStraight_load _ _ (ht "ARG" 2 rfl), runStraight_intoD, runStraight_load _ _ (ht "SP" 0 rfl),
    runStraight_intoM]
  rfl

variable {s}

/-- One register is restored from the word below `R13`. -/
theorem runStraight_restore {m : Ram} {frame ret : Word} (hkept : Kept m s.ram frame ret)
    (register : String) {v : Nat} (hv : reservedSymbols.lookup register = some v)
    (hregister : ¬ IsScratch (BitVec.ofNat 16 v)) (hcell : ¬ IsScratch (frame - 1#16))
    (code : List Instruction) :
    ∃ u, runStraight table (restoreRegister register ++ code) s = runStraight table code u
      ∧ Kept (m.copy (BitVec.ofNat 16 v) (frame - 1#16)) u.ram (frame - 1#16) ret := by
  have hrun := runStraight_restoreRegister ht code s hv
  simp only [hkept.frame] at hrun
  exact ⟨_, hrun, hkept.restore hregister hcell⟩

/-- All four registers are restored, each from its word of the frame. -/
theorem runStraight_restoreAll {m : Ram} {frame ret : Word} (hkept : Kept m s.ram frame ret)
    (hframe : ∀ k, 1 ≤ k → k ≤ 4 → ¬ IsScratch (frame - BitVec.ofNat 16 k)) :
    ∃ u, runStraight table restoreAll s = some u ∧ u.a = ret ∧ Agree (m.restored frame) u.ram := by
  -- four times down by one
  have h2 : frame - 1#16 - 1#16 = frame - 2#16 := BitVec.sub_sub ..
  have h3 : frame - 2#16 - 1#16 = frame - 3#16 := BitVec.sub_sub ..
  have h4 : frame - 3#16 - 1#16 = frame - 4#16 := BitVec.sub_sub ..
  have hcode : restoreAll = restoreRegister "THAT" ++ (restoreRegister "THIS"
      ++ (restoreRegister "ARG" ++ (restoreRegister "LCL" ++ [load "R14", intoA (.y .m)]))) := by
    unfold restoreAll
    simp only [List.flatMap_cons, List.flatMap_nil, List.append_assoc, List.nil_append]
  rw [hcode]
  obtain ⟨u₁, hrun₁, hkept₁⟩ := runStraight_restore ht hkept "THAT" (v := 4) rfl
    (by decide) (hframe 1 (by decide) (by decide)) _
  obtain ⟨u₂, hrun₂, hkept₂⟩ := runStraight_restore ht hkept₁ "THIS" (v := 3) rfl
    (by decide) (h2 ▸ hframe 2 (by decide) (by decide)) _
  rw [h2] at hkept₂
  obtain ⟨u₃, hrun₃, hkept₃⟩ := runStraight_restore ht hkept₂ "ARG" (v := 2) rfl
    (by decide) (h3 ▸ hframe 3 (by decide) (by decide)) _
  rw [h3] at hkept₃
  obtain ⟨u₄, hrun₄, hkept₄⟩ := runStraight_restore ht hkept₃ "LCL" (v := 1) rfl
    (by decide) (h4 ▸ hframe 4 (by decide) (by decide)) _
  rw [h4] at hkept₄
  refine ⟨⟨u₄.ram Reg.r14, u₄.d, u₄.ram, u₄.pc + 2⟩, ?_, hkept₄.address, hkept₄.agree⟩
  rw [hrun₁, hrun₂, hrun₃, hrun₄, runStraight_load _ _ (ht "R14" 14 rfl), runStraight_intoA]
  rfl

/-- **The code of a return leaves the memory that a return leaves, and loads the return
address that the frame held before.** -/
theorem runStraight_return (htop : ¬ IsScratch (s.ram Reg.sp - 1#16))
    (harg : ¬ IsScratch (s.ram Reg.arg))
    (hframe : ∀ k, 1 ≤ k → k ≤ frameSize → ¬ IsScratch (s.ram Reg.lcl - BitVec.ofNat 16 k)) :
    ∃ u, runStraight table (keepFrame ++ (answer ++ restoreAll)) s = some u
      ∧ u.a = s.ram.returnAddress ∧ Agree s.ram.returned u.ram := by
  obtain ⟨u₁, hrun₁, hkept⟩ := runStraight_keepFrame ht s
    (hframe 5 (by decide) (by decide)) (answer ++ restoreAll)
  obtain ⟨a, d, pc, hrun₂⟩ := runStraight_answer ht u₁ restoreAll
  have hanswered := hkept.answered htop harg
  obtain ⟨u, hrun, haddress, hagree⟩ := runStraight_restoreAll ht (s := ⟨a, d, u₁.ram.answered, pc⟩)
    hanswered fun k hk hk' => hframe k hk (Nat.le_succ_of_le hk')
  exact ⟨u, by rw [hrun₁, hrun₂, hrun], haddress, hagree⟩

end

/-! ## §3. The fragments. -/

section
variable {file : String} {l : Lowered} {asm : Assembly} (h : Installed file l asm)
  {i : Nat} {f : Fragment} (hf : l.fragments[i]? = some f)
  {s : Cpu} (hpc : s.pc = romOf l.fragments i)
include h hf hpc

/-- A call leads to the function, with the address of the next fragment in the frame. -/
theorem leadsTo_call {name : String} {args : Nat} {ret : String}
    (hcode : f.code = callCode name args ret) (hret : isReserved ret = false) {j : Nat}
    (hname : asm.table.lookup name = some (romOf l.fragments j)) :
    LeadsTo l asm s i
      ⟨j, s.ram.called (BitVec.ofNat 16 (romOf l.fragments (i + 1))) args⟩ := by
  have hlabel : f.code = (callSetup name args ret ++ [goNow]) ++ [.label ret] := by
    rw [hcode, callCode_eq, List.append_assoc]
    rfl
  obtain ⟨u, hrun, ha, hram⟩ := runStraight_callSetup h.platform s args hname
    (lookup_end h hf hlabel hret)
  refine leadsTo_goNow h hf hpc (hcode.trans (callCode_eq ..)) hrun ?_ ?_
  · rw [ha, toNat_of_lookup h hname]
  · rw [hram]
    exact Agree.refl _

/-- The start-up leads to the entry point, on a stack that starts at its base. -/
theorem leadsTo_bootstrap {ret : String}
    (hcode : f.code = [loadNumber Scope.stackBase, intoD (.y .a), load "SP", intoM .d]
      ++ callCode Scope.entryPoint 0 ret) (hret : isReserved ret = false) {j : Nat}
    (hname : asm.table.lookup Scope.entryPoint = some (romOf l.fragments j)) :
    LeadsTo l asm s i
      ⟨j, (s.ram.write Reg.sp (BitVec.ofNat 16 Scope.stackBase)).called
        (BitVec.ofNat 16 (romOf l.fragments (i + 1))) 0⟩ := by
  let start := [loadNumber Scope.stackBase, intoD (.y .a), load "SP", intoM .d]
  have hsplit : f.code = (start ++ callSetup Scope.entryPoint 0 ret) ++ goNow :: [.label ret] := by
    rw [hcode, callCode_eq, List.append_assoc]
  have hlabel : f.code
      = ((start ++ callSetup Scope.entryPoint 0 ret) ++ [goNow]) ++ [.label ret] := by
    rw [hsplit, List.append_assoc _ [goNow]]
    rfl
  -- the call is made from the memory in which `SP` is set
  let base := BitVec.ofNat 16 Scope.stackBase
  obtain ⟨u, hrun, ha, hram⟩ := runStraight_callSetup h.platform
    ⟨Reg.sp, base, s.ram.write Reg.sp base, s.pc + 4⟩ 0 hname
    (lookup_end h hf hlabel hret)
  refine leadsTo_goNow h hf hpc hsplit (u := u) ?_ ?_ ?_
  · show runStraight asm.table (loadNumber Scope.stackBase :: intoD (.y .a) :: load "SP"
      :: intoM .d :: callSetup Scope.entryPoint 0 ret) s = some u
    rw [runStraight_loadNumber, runStraight_intoD,
      runStraight_load _ _ (h.platform "SP" 0 rfl), runStraight_intoM]
    exact hrun
  · rw [ha, toNat_of_lookup h hname]
  · rw [hram]
    exact Agree.refl _

/-- A return leads to the fragment that starts at the return address. -/
theorem leadsTo_ret (hcode : f.code = returnCode) (htop : ¬ IsScratch (s.ram Reg.sp - 1#16))
    (harg : ¬ IsScratch (s.ram Reg.arg))
    (hframe : ∀ k, 1 ≤ k → k ≤ frameSize → ¬ IsScratch (s.ram Reg.lcl - BitVec.ofNat 16 k))
    {j : Nat} (hj : romOf l.fragments j = s.ram.returnAddress.toNat) :
    LeadsTo l asm s i ⟨j, s.ram.returned⟩ := by
  obtain ⟨u, hrun, ha, hagree⟩ := runStraight_return (s := s) h.platform htop harg hframe
  refine leadsTo_goNow h hf hpc (hcode.trans returnCode_eq) hrun ?_ hagree
  rw [ha, hj]

end

end HackPlatform.Vm
