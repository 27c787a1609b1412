/-
  HackPlatform.Proofs.Vm.Simulation
  ────────────────────────────────
  **TRANSLATING AND ASSEMBLING KEEPS THE MEANING OF A PROGRAM.**

  The stack machine on the commands of a file, and the CPU on the words that their
  text is assembled to, stay together: whenever the stack machine is at a command,
  the CPU gets to the start of its fragment, with the same memory but for `R13` and
  `R14`.  A and D hold whatever the fragment before left in them.

      Sound      names mean what they should: no static is a label, no function
                 that is called is a platform symbol
      Closed     every jump and every call has somewhere to go
      Matches    the two machines are at the same command, on the same memory

  Main results: `commands_run_in_words` for runs of every kind, and
  `call_returns_in_words` for what a caller finds once its call has returned.
-/
import HackPlatform.Proofs.Vm.CallReturn
import HackPlatform.Proofs.Vm.Frames

namespace HackPlatform.Vm

open Asm

/-! ## §1. One command. -/

/-- The names of a file are not taken for others. -/
structure Sound (file : String) (l : Lowered) : Prop where
  /-- No function that is called is named like a platform symbol. -/
  functions : ∀ o ∈ l.origins, ∀ name ∈ o.callee?, isReserved name = false
  /-- No static variable that is used is a label of the code. -/
  statics : ∀ o ∈ l.origins, ∀ index ∈ o.static?,
    .label ((Scope.start (toSymbol file)).staticSymbol index) ∉ l.code

instance (file : String) (l : Lowered) : Decidable (Sound file l) :=
  decidable_of_iff ((∀ o ∈ l.origins, ∀ name ∈ o.callee?, isReserved name = false)
      ∧ ∀ o ∈ l.origins, ∀ index ∈ o.static?,
        .label ((Scope.start (toSymbol file)).staticSymbol index) ∉ l.code)
    ⟨fun h => ⟨h.1, h.2⟩, fun h => ⟨h.functions, h.statics⟩⟩

/-- A command that moves a value from or to a static variable uses it. -/
theorem static?_of_cell? {line : Nat} {c : Command} {index : Nat}
    (h : c.cell? = some (.static, index)) : (Origin.command line c).static? = some index := by
  cases c with
  | push segment k | pop segment k => cases h; rfl
  | arithmetic | label | goto | ifGoto | function | call | ret => cases h

theorem jumpTaken_ne (v : Word) : jumpTaken Jump.ne.bits v = decide (v ≠ 0#16) := by
  rw [← spelledCondition_mnemonic]
  show decide (v.toInt ≠ 0) = _
  have hzero : v.toInt = 0 ↔ v = 0#16 := BitVec.toInt_inj (y := 0#16)
  simp only [ne_eq, hzero]

section
variable {file : String} {l : Lowered} {asm : Assembly} {i line : Nat} {c : Command}
  {code : List Instruction} (hf : l.fragments[i]? = some ⟨.command line c, code⟩)
include hf

theorem mem_origins : .command line c ∈ l.origins :=
  List.mem_map.mpr ⟨_, List.mem_of_getElem? hf, rfl⟩

variable (h : Installed file l asm)
include h

variable {s : Cpu} (hpc : s.pc = romOf l.fragments i)
include hpc

theorem leadsTo_arithmetic {op : Arithmetic} (hop : c = .arithmetic op)
    (hclear : ∀ a ∈ (stackProgram file l asm).reachOf s.ram c, a ≠ Reg.sp ∧ ¬ IsScratch a) :
    LeadsTo l asm s i ⟨i + 1, op.operator.apply s.ram⟩ := by
  subst hop
  have hcode : code = arithmeticCode (l.scope file i) op := code_eq hf h rfl
  by_cases hcompare : ∃ jump, op.shape = .compare jump
  · obtain ⟨jump, hshape⟩ := hcompare
    have hoperator := operator_of_compare hshape
    have hcode' : code = compareCode jump (l.scope file i).compareSymbol := by
      rw [hcode]
      unfold arithmeticCode
      rw [hshape]
    -- a comparison jumps to the end of its own fragment
    have hends : code = (compareCode jump (l.scope file i).compareSymbol).dropLast
        ++ [.label (l.scope file i).compareSymbol] := hcode'
    have hlabel : asm.table.lookup (l.scope file i).compareSymbol
        = some (romOf l.fragments (i + 1)) :=
      lookup_end h hf hends (isReserved_compareSymbol _)
    have htop : s.ram Reg.sp - 2#16 ≠ Reg.sp := by
      replace hclear : ∀ a ∈ op.operator.reach s.ram, a ≠ Reg.sp ∧ ¬ IsScratch a := hclear
      rw [hoperator] at hclear
      exact (hclear _ (List.mem_cons_of_mem _ List.mem_cons_self)).1
    rw [hoperator]
    exact leadsTo_compare h hf hpc hcode' hlabel htop
  · obtain ⟨u, hrun, hram⟩ := runStraight_arithmeticCode h.platform s (l.scope file i)
      fun jump hjump => hcompare ⟨jump, hjump⟩
    rw [← hcode] at hrun
    exact leadsTo_straight h hf hpc hrun (hram ▸ Agree.refl _)

theorem leadsTo_goto {name : String} (hgoto : c = .goto name) {j : Nat}
    (hj : (stackProgram file l asm).labelIndex? i name = some j) :
    LeadsTo l asm s i ⟨j, s.ram⟩ := by
  subst hgoto
  have hv := lookup_labelSymbol h hj
  have hcode : code = [load ((l.scope file i).labelSymbol name)] ++ goNow :: [] :=
    code_eq hf h rfl
  have hrun : runStraight asm.table [load ((l.scope file i).labelSymbol name)] s
      = some (s.load (BitVec.ofNat 16 (romOf l.fragments j))) := runStraight_load _ _ hv
  exact leadsTo_goNow h hf hpc hcode hrun (toNat_of_lookup h hv) (Agree.refl _)

/-- The condition of `if-goto` is that the value popped is not zero. -/
theorem leadsTo_ifGoto {name : String} (hifGoto : c = .ifGoto name) {j : Nat}
    (hj : if s.ram.popped = 0#16 then j = i + 1
      else (stackProgram file l asm).labelIndex? i name = some j) :
    LeadsTo l asm s i ⟨j, s.ram.drop⟩ := by
  subst hifGoto
  let symbol := (l.scope file i).labelSymbol name
  have hcode : code = (popD ++ [load symbol]) ++ goIfD .ne :: [] := code_eq hf h rfl
  -- the label has a value even if it is not jumped to
  have hmem : load symbol ∈ l.code := by
    refine List.mem_flatMap.mpr ⟨_, List.mem_of_getElem? hf, ?_⟩
    rw [hcode]
    exact List.mem_append_left _ (List.mem_append_right popD List.mem_cons_self)
  obtain ⟨v, hv⟩ := h.loaded symbol hmem
  have hrun : runStraight asm.table (popD ++ [load symbol]) s
      = some ⟨BitVec.ofNat 16 v, s.ram.popped, s.ram.drop, s.pc + 4⟩ := by
    rw [runStraight_popD h.platform, runStraight_load _ _ hv]
    rfl
  have hplaced := hpc ▸ h.placed i _ hf
  rw [hcode] at hplaced
  obtain ⟨hruns, -, hat, -⟩ := run_upTo h.step hplaced hrun
  have hjump := step_goIfD h.step hat
  refine ⟨_, _, runFor_trans hruns (runFor_one hjump), ?_, Agree.refl _, fun hzero => by omega⟩
  rw [jumpTaken_ne]
  by_cases hzero : s.ram.popped = 0#16
  · rw [if_pos hzero] at hj
    have hend : romOf l.fragments (i + 1) = s.pc + 5 := by
      rw [romOf_succ hf, hcode, hpc]
      rfl
    rw [if_neg (by simpa using hzero), hj, hend]
  · rw [if_neg hzero] at hj
    have hsame : v = romOf l.fragments j :=
      Option.some.inj (hv.symm.trans (lookup_labelSymbol h hj))
    rw [if_pos (by simpa using hzero), ← hsame]
    exact toNat_of_lookup h hv

/-- A label takes no room, so the CPU is at the next fragment already. -/
theorem leadsTo_label {name : String} (hlabel : c = .label name) :
    LeadsTo l asm s i ⟨i + 1, s.ram⟩ := by
  subst hlabel
  have hcode : code = [.label ((l.scope file i).labelSymbol name)] := code_eq hf h rfl
  have hrun : runStraight asm.table [.label ((l.scope file i).labelSymbol name)] s = some s := rfl
  rw [← hcode] at hrun
  exact leadsTo_straight h hf hpc hrun (Agree.refl _)

theorem leadsTo_function {name : String} {locals : Nat} (hfunction : c = .function name locals) :
    LeadsTo l asm s i ⟨i + 1, s.ram.pushZeros locals⟩ := by
  subst hfunction
  have hcode : code = functionCode name locals := code_eq hf h rfl
  obtain ⟨a, d, pc, hzeros⟩ := runStraight_pushZeros h.platform [] s locals
  rw [List.append_nil] at hzeros
  have hrun : runStraight asm.table code s = some ⟨a, d, s.ram.pushZeros locals, pc⟩ := by
    rw [hcode]
    exact (runStraight_label ..).trans hzeros
  exact leadsTo_straight h hf hpc hrun (Agree.refl _)

variable (hs : Sound file l)
include hs

omit hpc in
theorem exists_static {segment : Segment} {index : Nat} (hcell : c.cell? = some (segment, index)) :
    segment = .static → ∃ v, asm.table.lookup ((l.scope file i).staticSymbol index) = some v
      ∧ (stackProgram file l asm).static index = BitVec.ofNat 16 v := by
  rintro rfl
  obtain ⟨v, hv, -, hstatic⟩ := lookup_staticSymbol h hf rfl hcell
    (hs.statics _ (mem_origins hf) index (static?_of_cell? hcell))
  exact ⟨v, hv, hstatic⟩

theorem leadsTo_push {segment : Segment} {index : Nat} (hpush : c = .push segment index) :
    LeadsTo l asm s i
      ⟨i + 1, s.ram.push ((stackProgram file l asm).value s.ram segment index)⟩ := by
  subst hpush
  have hcode : code = pushCode ((l.scope file i).place? segment index) index := code_eq hf h rfl
  have hcell : (Command.push segment index).cell? = some (segment, index) := rfl
  obtain ⟨u, hrun, hram⟩ := runStraight_pushCode h.platform s (exists_static hf h hs hcell)
  rw [← hcode] at hrun
  exact leadsTo_straight h hf hpc hrun (hram ▸ Agree.refl _)

theorem leadsTo_pop {segment : Segment} {index : Nat} (hpop : c = .pop segment index)
    (htop : ¬ IsScratch (s.ram Reg.sp - 1#16)) {cell : Word}
    (hcell : (stackProgram file l asm).cell? s.ram segment index = some cell) :
    LeadsTo l asm s i ⟨i + 1, s.ram.drop.write cell s.ram.popped⟩ := by
  subst hpop
  cases hplace : (l.scope file i).place? segment index with
  | none =>
      rw [cell?_none hplace] at hcell
      cases hcell
  | some place =>
      have hcode : code = popCode place index :=
        code_eq hf h (by simp only [Scope.code, hplace])
      have hpop : (Command.pop segment index).cell? = some (segment, index) := rfl
      obtain ⟨cell', hcell', hlocated⟩ :=
        located_of_place h.platform (exists_static hf h hs hpop) hplace s.ram
      have hsame : cell' = cell := Option.some.inj (hcell'.symm.trans hcell)
      subst hsame
      cases place with
      | based base =>
          obtain ⟨u, hrun, hagree⟩ := runStraight_popCode_based h.platform s hlocated htop
          rw [← hcode] at hrun
          exact leadsTo_straight h hf hpc hrun hagree
      | fixed operand =>
          obtain ⟨u, hrun, hram⟩ := runStraight_popCode_fixed h.platform s hlocated
          rw [← hcode] at hrun
          exact leadsTo_straight h hf hpc hrun (hram ▸ Agree.refl _)

/-- **The fragment of a command leads to where the command goes.** -/
theorem leadsTo_of_execute
    (hclear : ∀ a ∈ (stackProgram file l asm).reachOf s.ram c, a ≠ Reg.sp ∧ ¬ IsScratch a)
    {t : StackState} (ht : (stackProgram file l asm).execute i s.ram c = some t) :
    LeadsTo l asm s i t := by
  have hoff : ∀ a ∈ (stackProgram file l asm).reachOf s.ram c, ¬ IsScratch a :=
    fun a ha => (hclear a ha).2
  cases c with
  | arithmetic op =>
      cases ht
      exact leadsTo_arithmetic hf h hpc rfl hclear
  | push segment index =>
      cases ht
      exact leadsTo_push hf h hpc hs rfl
  | pop segment index =>
      obtain ⟨cell, hcell, rfl⟩ := Option.map_eq_some_iff.mp ht
      exact leadsTo_pop hf h hpc hs rfl (hoff _ List.mem_cons_self) hcell
  | label name =>
      cases ht
      exact leadsTo_label hf h hpc rfl
  | goto name =>
      obtain ⟨j, hj, rfl⟩ := Option.map_eq_some_iff.mp ht
      exact leadsTo_goto hf h hpc rfl hj
  | ifGoto name =>
      simp only [StackProgram.execute] at ht
      by_cases hzero : s.ram.popped = 0#16
      · rw [if_pos hzero] at ht
        cases ht
        exact leadsTo_ifGoto hf h hpc rfl (by rw [if_pos hzero])
      · rw [if_neg hzero] at ht
        obtain ⟨j, hj, rfl⟩ := Option.map_eq_some_iff.mp ht
        exact leadsTo_ifGoto hf h hpc rfl (by rw [if_neg hzero]; exact hj)
  | function name locals =>
      cases ht
      exact leadsTo_function hf h hpc rfl
  | call name args =>
      obtain ⟨j, hj, rfl⟩ := Option.map_eq_some_iff.mp ht
      have hname := hs.functions _ (mem_origins hf) name rfl
      have hcode : code = callCode name args (l.scope file i).returnSymbol := code_eq hf h rfl
      exact leadsTo_call h hf hpc hcode (isReserved_returnSymbol _) (lookup_function h hname hj)
  | ret =>
      obtain ⟨j, hj, rfl⟩ := Option.map_eq_some_iff.mp ht
      have hcode : code = returnCode := code_eq hf h rfl
      have hframe : ∀ k, 1 ≤ k → k ≤ frameSize →
          ¬ IsScratch (s.ram Reg.lcl - BitVec.ofNat 16 k) := fun k hk hk' =>
        hoff _ (List.mem_cons_of_mem _ (List.mem_cons_of_mem _ (sub_mem_cellsFrom _ hk hk')))
      exact leadsTo_ret h hf hpc hcode (hoff _ List.mem_cons_self)
        (hoff _ (List.mem_cons_of_mem _ List.mem_cons_self)) hframe
        (StackProgram.rom_of_indexAt? hj)

end

/-! ## §2. One step. -/

section
variable {file : String} {l : Lowered} {asm : Assembly} (h : Installed file l asm)
  (hs : Sound file l)
include h hs

/-- **A clear step of the stack machine leads the CPU to the next command.** -/
theorem leadsTo_of_step {i : Nat} {s : Cpu} (hpc : s.pc = romOf l.fragments i)
    (hclear : (stackProgram file l asm).Clear ⟨i, s.ram⟩) {t : StackState}
    (ht : (stackProgram file l asm).step ⟨i, s.ram⟩ = some t) : LeadsTo l asm s i t := by
  unfold StackProgram.step at ht
  unfold StackProgram.Clear StackProgram.reach at hclear
  cases ho : (stackProgram file l asm).origins[i]? with
  | none => simp [ho] at ht
  | some o =>
      obtain ⟨⟨origin, code⟩, hf, rfl⟩ := fragment_of_origin ho
      cases origin with
      | bootstrap =>
          simp only [ho] at ht
          obtain ⟨j, hj, rfl⟩ := Option.map_eq_some_iff.mp ht
          exact leadsTo_bootstrap h hf hpc (h.lowers i _ hf) (isReserved_returnSymbol _)
            (lookup_function h (by decide) hj)
      | command line c =>
          simp only [ho] at ht hclear
          exact leadsTo_of_execute hf h hpc hs hclear ht

/-- The temporaries, the pointers and the statics are off the scratch, `LCL` and `ARG`. -/
theorem fixedClear : (stackProgram file l asm).FixedClear := by
  intro line c segment index m cell hmem hcell? hbased hcell
  obtain ⟨i, hi⟩ := List.mem_iff_getElem?.mp hmem
  obtain ⟨⟨origin, code⟩, hf, rfl⟩ := fragment_of_origin hi
  have hcheck : segment ≠ .constant → segment.checkIndex index = .ok () := by
    have hwell : c.WellFormed := (h.lowers i _ hf).1
    intro hne
    cases c with
    | push s k => cases hcell?; exact hwell.check
    | pop s k =>
        cases hcell?
        have hchecked := hwell.check
        cases segment <;> first | exact hchecked | exact absurd rfl hne
    | arithmetic | label | goto | ifGoto | function | call | ret => cases hcell?
  cases segment with
  | constant => cases hcell
  | locals | argument | this | that => simp [StackProgram.basedCell, hcell] at hbased
  | temp =>
      cases hcell
      have h7 : index ≤ 7 := checkIndex_eq_ok_iff.mp (hcheck (by decide))
      unfold IsScratch tempBase
      refine ⟨?_, ?_, ?_⟩ <;> bv_omega
  | pointer =>
      cases hcell
      split <;> decide
  | static =>
      cases hcell
      obtain ⟨v, hv, hbase, hstatic⟩ :=
        lookup_staticSymbol h hf rfl hcell? (hs.statics _ hmem index (static?_of_cell? hcell?))
      have hsmall := h.small _ v hv
      rw [hstatic]
      unfold variableBase at hbase
      unfold maxAddress at hsmall
      unfold IsScratch
      refine ⟨?_, ?_, ?_⟩ <;> bv_omega

end

/-- The return address of a call is a ROM address. -/
theorem rom_lt_of_call {file : String} {l : Lowered} {asm : Assembly} (h : Installed file l asm)
    {i args : Nat} {name : String}
    (hcall : (stackProgram file l asm).command? i = some (.call name args)) :
    (stackProgram file l asm).rom (i + 1) < 65536 := by
  obtain ⟨line, ho⟩ := StackProgram.origin_of_command hcall
  obtain ⟨⟨origin, code⟩, hf, rfl⟩ := fragment_of_origin ho
  let ret := (l.scope file i).returnSymbol
  have hcode : code = callCode name args ret := code_eq hf h rfl
  have hends : code = (callSetup name args ret ++ [goNow]) ++ [.label ret] := hcode.trans rfl
  have hsmall := h.small _ _ (lookup_end h hf hends (isReserved_returnSymbol _))
  unfold maxAddress at hsmall
  show romOf l.fragments (i + 1) < 65536
  omega

/-! ## §3. Runs. -/

/-- The CPU is at the fragment of the command that the stack machine is at, on the same
memory but for the scratch. -/
structure Matches (p : StackProgram) (v : StackState) (s : Cpu) : Prop where
  /-- The program counter is where the fragment starts. -/
  pc : s.pc = p.rom v.index
  /-- The memories agree. -/
  ram : Agree v.ram s.ram

/-- Jumps and calls have somewhere to go. -/
structure Closed (p : StackProgram) : Prop where
  /-- A label that is jumped to is defined in the same function. -/
  labels : ∀ i < p.origins.length, ∀ name ∈ p.origins[i]?.bind Origin.target?,
    ∃ j < p.origins.length, p.command? j = some (.label name)
      ∧ enclosing p.origins j = enclosing p.origins i
  /-- A function that is called is defined. -/
  functions : ∀ o ∈ p.origins, ∀ name ∈ o.callee?, ∃ o' ∈ p.origins, o'.function? = some name

instance (p : StackProgram) : Decidable (Closed p) :=
  decidable_of_iff ((∀ i < p.origins.length, ∀ name ∈ p.origins[i]?.bind Origin.target?,
      ∃ j < p.origins.length, p.command? j = some (.label name)
        ∧ enclosing p.origins j = enclosing p.origins i)
      ∧ ∀ o ∈ p.origins, ∀ name ∈ o.callee?, ∃ o' ∈ p.origins, o'.function? = some name)
    ⟨fun h => ⟨h.1, h.2⟩, fun h => ⟨h.labels, h.functions⟩⟩

section
variable {file : String} {l : Lowered} {asm : Assembly} (h : Installed file l asm)
include h

/-- **A command of a closed program can be executed**, but for a return to an address at
which no command starts. -/
theorem exists_step (hclosed : Closed (stackProgram file l asm)) {v : StackState}
    (hindex : v.index < (stackProgram file l asm).origins.length)
    (hret : (stackProgram file l asm).command? v.index = some .ret →
      ∃ j ≤ (stackProgram file l asm).origins.length,
        (stackProgram file l asm).rom j = v.ram.returnAddress.toNat) :
    ∃ t, (stackProgram file l asm).step v = some t := by
  have ho := List.getElem?_eq_getElem hindex
  generalize (stackProgram file l asm).origins[v.index] = o at ho
  have hmem := List.mem_of_getElem? ho
  -- only jumps, calls and returns look for another command
  have hcallee : ∀ name, o.callee? = some name →
      ∃ j, (stackProgram file l asm).functionIndex? name = some j := by
    intro name hname
    obtain ⟨o', ho', hfunction⟩ := hclosed.functions o hmem name hname
    exact StackProgram.exists_functionIndex ho' hfunction
  have htarget : ∀ name, o.target? = some name →
      ∃ j, (stackProgram file l asm).labelIndex? v.index name = some j := by
    intro name hname
    obtain ⟨j, hj, hlabel, hsame⟩ :=
      hclosed.labels v.index hindex name (by rw [ho]; exact hname)
    exact StackProgram.exists_labelIndex hj hlabel hsame
  unfold StackProgram.step
  cases o with
  | bootstrap =>
      obtain ⟨j, hj⟩ := hcallee _ rfl
      simp only [ho, StackProgram.call, hj]
      exact ⟨_, rfl⟩
  | command line c =>
      simp only [ho]
      cases c with
      | arithmetic | push | label | function => exact ⟨_, rfl⟩
      | pop segment index =>
          obtain ⟨⟨origin, code⟩, hf, rfl⟩ := fragment_of_origin ho
          have hcheck := (h.lowers v.index _ hf).1.check
          cases segment with
          | constant => cases hcheck
          | locals | argument | this | that | temp | pointer | static => exact ⟨_, rfl⟩
      | goto name =>
          obtain ⟨j, hj⟩ := htarget name rfl
          exact ⟨_, Option.map_eq_some_iff.mpr ⟨j, hj, rfl⟩⟩
      | ifGoto name =>
          obtain ⟨j, hj⟩ := htarget name rfl
          simp only [StackProgram.execute]
          split
          · exact ⟨_, rfl⟩
          · exact ⟨_, Option.map_eq_some_iff.mpr ⟨j, hj, rfl⟩⟩
      | call name args =>
          obtain ⟨j, hj⟩ := hcallee name rfl
          exact ⟨_, Option.map_eq_some_iff.mpr ⟨j, hj, rfl⟩⟩
      | ret =>
          have hcommand : (stackProgram file l asm).command? v.index = some .ret := by
            unfold StackProgram.command?
            rw [ho]
            rfl
          obtain ⟨j, hj, hrom⟩ := hret hcommand
          obtain ⟨k, hk⟩ := StackProgram.exists_indexAt hj hrom
          exact ⟨_, Option.map_eq_some_iff.mpr ⟨k, hk, rfl⟩⟩

variable (hs : Sound file l)
include hs

/-- **One clear step keeps the machines together.**  Where the CPU takes no step, the
stack machine went on to the next command. -/
theorem Matches.step {v t : StackState} {s : Cpu}
    (hm : Matches (stackProgram file l asm) v s) (hclear : (stackProgram file l asm).Clear v)
    (ht : (stackProgram file l asm).step v = some t) :
    ∃ k u, runFor (Cpu.step asm.words) k s = some u ∧ Matches (stackProgram file l asm) t u
      ∧ (k = 0 → t.index = v.index + 1) := by
  obtain ⟨i, m⟩ := v
  -- the same step on the memory of the CPU
  obtain ⟨r, hr, hagree⟩ := StackProgram.step_agree hm.ram (fixedClear h hs) hclear ht
  obtain ⟨k, u, hrun, hpc, hram, hzero⟩ :=
    leadsTo_of_step h hs hm.pc (StackProgram.clear_agree hm.ram hclear) hr
  exact ⟨k, u, hrun, ⟨hpc, hagree.trans hram⟩, hzero⟩

/-- **A clear run keeps the machines together.**  The CPU takes more steps the longer the
run is, for only commands without code take it none. -/
theorem Matches.run {n : Nat} {v t : StackState} (hrun : (stackProgram file l asm).Runs n v t)
    {s : Cpu} (hm : Matches (stackProgram file l asm) v s) :
    ∃ k u, runFor (Cpu.step asm.words) k s = some u ∧ Matches (stackProgram file l asm) t u
      ∧ n + v.index ≤ k * ((stackProgram file l asm).origins.length + 1) + t.index := by
  induction hrun generalizing s with
  | refl v => exact ⟨0, s, rfl, hm, by omega⟩
  | step hclear hstep _ ih =>
      obtain ⟨k, u, hrun, hmatch, hzero⟩ := hm.step h hs hclear hstep
      obtain ⟨k', u', hrun', hmatch', hcount⟩ := ih hmatch
      refine ⟨k + k', u', runFor_trans hrun hrun', hmatch', ?_⟩
      -- a step that takes the CPU none has moved the index on by one
      have hindex := StackProgram.lt_of_step hstep
      rw [Nat.add_mul]
      by_cases hk : k = 0
      · rw [hk, Nat.zero_mul]
        have := hzero hk
        omega
      · have := Nat.le_mul_of_pos_left ((stackProgram file l asm).origins.length + 1)
          (Nat.pos_of_ne_zero hk)
        omega

end

/-! ## §4. A program that runs. -/

/-- A function that calls itself once, without arguments, and moves `this` meanwhile. -/
def sample : List SourceLine :=
  SourceLine.ofRawLines ["call M.f 0", "label END", "goto END", "function M.f 1",
    "push static 0", "if-goto DONE", "push constant 1", "pop static 0", "call M.f 0",
    "pop pointer 0", "label DONE", "push static 0", "neg", "return"]

/-- An empty stack. -/
def sampleRam : Ram := Ram.write (fun _ => 0#16) Reg.sp 256#16

/-- What the stack machine makes of it. -/
def sampleChecks (l : Lowered) (asm : Assembly) : Bool :=
  let p := stackProgram "M" l asm
  decide (Sound "M" l ∧ Closed p ∧ p.rom 1 = 47
    ∧ (∃ t ∈ p.runClear 19 ⟨0, sampleRam⟩, t.index = 1 ∧ t.ram 256#16 = -1#16)
    ∧ p.Within [] ⟨0, sampleRam⟩ (.call "M.f" 0)
    ∧ ∃ t ∈ p.step ⟨0, sampleRam⟩, ∃ u ∈ p.toReturn 20 [256#16] t,
        p.Leaves 256#16 [] u ∧ u.ram.popped = -1#16)

theorem sample_checked : ∃ l asm, lowerFile "M" ⟨false, true⟩ sample = .ok l
    ∧ assemble (SourceLine.ofText l.text) = .ok asm ∧ sampleChecks l asm = true :=
  exists_assembled (by decide +kernel)

/-! ## §5. The main statements. -/

/-- **The words run as the commands do.**  For a file that is lowered and assembled, whose
jumps and calls have somewhere to go and whose names are not taken for others:
the words end where the fragments end; a command can always be executed, but for a
return to an address at which none starts; and after every clear run of the commands,
from every state, the words have run to the same command and the same memory. -/
theorem commands_run_in_words {file : String} {options : Options} {lines : List SourceLine}
    {l : Lowered} (hl : lowerFile file options lines = .ok l) {asm : Assembly}
    (ha : assemble (SourceLine.ofText l.text) = .ok asm) (hs : Sound file l)
    (hclosed : Closed (stackProgram file l asm)) :
    (stackProgram file l asm).rom (stackProgram file l asm).origins.length = asm.words.length
      ∧ (∀ v : StackState, v.index < (stackProgram file l asm).origins.length →
          ((stackProgram file l asm).command? v.index = some .ret →
            ∃ j ≤ (stackProgram file l asm).origins.length,
              (stackProgram file l asm).rom j = v.ram.returnAddress.toNat) →
          ∃ t, (stackProgram file l asm).step v = some t)
      ∧ ∀ n v t s, (stackProgram file l asm).Runs n v t → Matches (stackProgram file l asm) v s →
          ∃ k u, runFor (Cpu.step asm.words) k s = some u ∧ Matches (stackProgram file l asm) t u
            ∧ n + v.index ≤ k * ((stackProgram file l asm).origins.length + 1) + t.index := by
  have h := installed hl ha
  refine ⟨?_, fun v hindex hret => exists_step h hclosed hindex hret,
    fun n v t s hrun hm => Matches.run h hs hrun hm⟩
  show romOf l.fragments (l.fragments.map (·.origin)).length = asm.words.length
  rw [List.length_map]
  exact h.length

/-- From an empty stack the sample gets to its second command with -1 on the stack. -/
theorem commands_run_in_words_sample : ∃ l asm, lowerFile "M" ⟨false, true⟩ sample = .ok l
    ∧ assemble (SourceLine.ofText l.text) = .ok asm ∧ Sound "M" l
    ∧ Closed (stackProgram "M" l asm)
    ∧ ∃ k u, runFor (Cpu.step asm.words) k ⟨0, 0, sampleRam, 0⟩ = some u ∧ u.pc = 47
        ∧ u.ram 256#16 = -1#16 := by
  obtain ⟨l, asm, hl, ha, hchecks⟩ := sample_checked
  obtain ⟨hs, hclosed, hrom, ⟨t, ht, hindex, htop⟩, -⟩ := of_decide_eq_true hchecks
  refine ⟨l, asm, hl, ha, hs, hclosed, ?_⟩
  have hstart : Matches (stackProgram "M" l asm) ⟨0, sampleRam⟩ ⟨0, 0, sampleRam, 0⟩ :=
    ⟨rfl, .refl _⟩
  obtain ⟨k, u, hrun, hmatch, -⟩ := (commands_run_in_words hl ha hs hclosed).2.2 19
    ⟨0, sampleRam⟩ t _ (StackProgram.runs_of_runClear _ ht) hstart
  refine ⟨k, u, hrun, ?_, ?_⟩
  · rw [hmatch.pc, hindex, hrom]
  · rw [← hmatch.ram _ (by decide), htop]

/-- **A caller has its own back once its call has returned.**  For a file that is lowered and
assembled, and whose names are not taken for others: from the start of a call's fragment,
on any memory, through a balanced run of the commands to the return that ends it, the
words run to that return, and from there to behind the call, where the registers are what
they were and the result is in place of the arguments. -/
theorem call_returns_in_words {file : String} {options : Options} {lines : List SourceLine}
    {l : Lowered} (hl : lowerFile file options lines = .ok l) {asm : Assembly}
    (ha : assemble (SourceLine.ofText l.text) = .ok asm) (hs : Sound file l) {i args : Nat}
    {name : String} {s : Cpu} (hpc : s.pc = (stackProgram file l asm).rom i)
    (henters : (stackProgram file l asm).Within [] ⟨i, s.ram⟩ (.call name args))
    {t u : StackState} (henter : (stackProgram file l asm).step ⟨i, s.ram⟩ = some t)
    (hrun : (stackProgram file l asm).Balanced [s.ram Reg.sp] t u)
    (hleaves : (stackProgram file l asm).Leaves (s.ram Reg.sp) [] u) :
    ∃ j r k w, runFor (Cpu.step asm.words) j s = some r ∧ Matches (stackProgram file l asm) u r
      ∧ runFor (Cpu.step asm.words) k r = some w ∧ w.pc = (stackProgram file l asm).rom (i + 1)
      ∧ Returned s.ram args r.ram.popped w.ram := by
  have h := installed hl ha
  have hrom := rom_lt_of_call h henters.command
  obtain ⟨v, hleave, hback, habove, hreturned⟩ := StackProgram.balanced_returned (fixedClear h hs)
    henters henter hrun hleaves hrom
  obtain ⟨n, hruns⟩ := hrun.runs
  -- the CPU at the return, and then behind the call
  have hstart : Matches (stackProgram file l asm) ⟨i, s.ram⟩ s := ⟨hpc, .refl _⟩
  obtain ⟨j, r, hj, hr, -⟩ :=
    Matches.run h hs ((StackProgram.Runs.one henters.clear henter).trans hruns) hstart
  obtain ⟨k, w, hk, hw, -⟩ := hr.step h hs hleaves.toWithin.clear hleave
  refine ⟨j, r, k, w, hj, hr, hk, hw.pc.trans hback, ?_⟩
  rw [← hr.ram.popped (StackProgram.not_isScratch_of_le hleaves.above_top)]
  exact hreturned.agree hw.ram (StackProgram.not_isScratch_of_le habove)

/-- The sample's first call, within which the function calls itself. -/
theorem call_returns_in_words_sample : ∃ l asm, lowerFile "M" ⟨false, true⟩ sample = .ok l
    ∧ assemble (SourceLine.ofText l.text) = .ok asm ∧ Sound "M" l
    ∧ ∃ k w, runFor (Cpu.step asm.words) k ⟨0, 0, sampleRam, 0⟩ = some w ∧ w.pc = 47
        ∧ Returned sampleRam 0 (-1#16) w.ram := by
  obtain ⟨l, asm, hl, ha, hchecks⟩ := sample_checked
  obtain ⟨hs, -, hrom, -, henters, t, henter, u, hu, hleaves, hresult⟩ := of_decide_eq_true hchecks
  refine ⟨l, asm, hl, ha, hs, ?_⟩
  obtain ⟨j, r, k, w, hj, hr, hk, hpc, hreturned⟩ := call_returns_in_words hl ha hs
    (s := ⟨0, 0, sampleRam, 0⟩) rfl henters henter (StackProgram.balanced_of_toReturn hu) hleaves
  refine ⟨j + k, w, runFor_trans hj hk, hpc.trans hrom, ?_⟩
  have hpopped := hr.ram.popped (StackProgram.not_isScratch_of_le hleaves.above_top)
  rwa [← hpopped, hresult] at hreturned

end HackPlatform.Vm
