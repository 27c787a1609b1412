/-
  HackPlatform.Proofs.Vm.StackMachine
  ────────────────────────────────
  **THE STACK MACHINE: commands executed one per step.**

  The state is the index of the next command and the whole RAM.  Arithmetic is
  modulo 2^16.

      StackProgram         the commands, where statics lie, where fragments start
      StackProgram.step    one command; `none` if there is no next one
      StackProgram.reach   the cells a command reaches through the registers
      StackProgram.Runs    runs that keep off `SP`, `R13` and `R14`

  The words of a return address are ROM addresses: that is all the machine knows
  of the code its commands are lowered to.
-/
import HackPlatform.Vm.Lowered
import HackPlatform.Proofs.Vm.Stack

namespace HackPlatform

open Asm (Word)

namespace Vm

/-! ## §1. Arithmetic. -/

/-- What an arithmetic command computes. -/
inductive Operator where
  /-- From the top of the stack, in place. -/
  | unary (f : Word → Word)
  /-- From the value below the top and the top, which is popped. -/
  | binary (f : Word → Word → Word)

/-- True is -1, false is 0. -/
def truth (b : Bool) : Word := if b then -1#16 else 0#16

/-- The operator of an arithmetic command.  Comparisons judge the sign of the 16-bit
difference. -/
def Arithmetic.operator : Arithmetic → Operator
  | add => .binary fun x y => x + y
  | sub => .binary fun x y => x - y
  | neg => .unary fun y => -y
  | eq => .binary fun x y => truth (decide ((x - y).toInt = 0))
  | gt => .binary fun x y => truth (decide (0 < (x - y).toInt))
  | lt => .binary fun x y => truth (decide ((x - y).toInt < 0))
  | and => .binary fun x y => x &&& y
  | or => .binary fun x y => x ||| y
  | not => .unary fun y => ~~~y

/-- Apply an operator to the top of the stack. -/
def Operator.apply (m : Ram) : Operator → Ram
  | unary f =>
      let top := m Reg.sp - 1#16
      m.write top (f (m top))
  | binary f =>
      let y := m.popped
      let m := m.drop
      let top := m Reg.sp - 1#16
      m.write top (f (m top) y)

/-- The cells of the stack that an operator reaches. -/
def Operator.reach (m : Ram) : Operator → List Word
  | unary _ => [m Reg.sp - 1#16]
  | binary _ => [m Reg.sp - 1#16, m Reg.sp - 2#16]

/-! ## §2. Programs. -/

/-- The cell that a command moves a value from or to, by its segment. -/
def Command.cell? : Command → Option (Segment × Nat)
  | .push segment index | .pop segment index => some (segment, index)
  | _ => none

/-- The command of an origin. -/
def Origin.command? : Origin → Option Command
  | bootstrap => none
  | command _ c => some c

/-- The function that an origin enters. -/
def Origin.function? : Origin → Option String
  | command _ (.function name _) => some name
  | _ => none

/-- The function that an origin calls. -/
def Origin.callee? : Origin → Option String
  | bootstrap => some Scope.entryPoint
  | command _ (.call name _) => some name
  | _ => none

/-- The static variable that an origin uses. -/
def Origin.static? : Origin → Option Nat
  | command _ (.push .static index) => some index
  | command _ (.pop .static index) => some index
  | _ => none

/-- The label that an origin jumps to. -/
def Origin.target? : Origin → Option String
  | command _ (.goto name) => some name
  | command _ (.ifGoto name) => some name
  | _ => none

/-- The function that the command at an index belongs to: the last one entered before. -/
def enclosing (origins : List Origin) (index : Nat) : Option String :=
  ((origins.take index).filterMap Origin.function?).getLast?

/-- What the stack machine runs. -/
structure StackProgram where
  /-- The commands in order; a start-up stands first if there is one. -/
  origins : List Origin
  /-- The RAM cell of each static variable. -/
  static : Nat → Word
  /-- The ROM address at which the fragment of each command starts. -/
  rom : Nat → Nat

/-- The state of the stack machine. -/
structure StackState where
  /-- The index of the next command. -/
  index : Nat
  /-- The memory. -/
  ram : Ram

namespace StackProgram

variable (p : StackProgram)

/-- The command at an index. -/
def command? (index : Nat) : Option Command := p.origins[index]?.bind Origin.command?

/-- Where a label of the function that encloses an index is defined. -/
def labelIndex? (index : Nat) (name : String) : Option Nat :=
  (List.range p.origins.length).find? fun j =>
    p.command? j == some (.label name) && enclosing p.origins j == enclosing p.origins index

/-- Where a function is defined. -/
def functionIndex? (name : String) : Option Nat :=
  (List.range p.origins.length).find? fun j => p.origins[j]?.bind Origin.function? == some name

/-- The command whose fragment starts at a ROM address; the end of the program counts. -/
def indexAt? (address : Nat) : Option Nat :=
  (List.range (p.origins.length + 1)).find? fun j => p.rom j == address

/-- The RAM cell of a segment's index; a constant has none. -/
def cell? (m : Ram) (segment : Segment) (index : Nat) : Option Word :=
  match segment with
  | .constant => none
  | .locals => some (m Reg.lcl + BitVec.ofNat 16 index)
  | .argument => some (m Reg.arg + BitVec.ofNat 16 index)
  | .this => some (m Reg.this + BitVec.ofNat 16 index)
  | .that => some (m Reg.that + BitVec.ofNat 16 index)
  | .temp => some (BitVec.ofNat 16 (tempBase + index))
  | .pointer => some (if index = 0 then Reg.this else Reg.that)
  | .static => some (p.static index)

/-- What a push puts on the stack: a cell, or the constant. -/
def value (m : Ram) (segment : Segment) (index : Nat) : Word :=
  match p.cell? m segment index with
  | some cell => m cell
  | none => BitVec.ofNat 16 index

/-! ## §3. Steps. -/

/-- Call a function from the command at an index. -/
def call (index : Nat) (m : Ram) (name : String) (args : Nat) : Option StackState :=
  (p.functionIndex? name).map fun j =>
    ⟨j, m.called (BitVec.ofNat 16 (p.rom (index + 1))) args⟩

/-- Execute a command that stands at an index. -/
def execute (index : Nat) (m : Ram) : Command → Option StackState
  | .arithmetic op => some ⟨index + 1, op.operator.apply m⟩
  | .push segment i => some ⟨index + 1, m.push (p.value m segment i)⟩
  | .pop segment i => (p.cell? m segment i).map fun cell => ⟨index + 1, m.drop.write cell m.popped⟩
  | .label _ => some ⟨index + 1, m⟩
  | .goto name => (p.labelIndex? index name).map fun j => ⟨j, m⟩
  | .ifGoto name =>
      if m.popped = 0#16 then some ⟨index + 1, m.drop⟩
      else (p.labelIndex? index name).map fun j => ⟨j, m.drop⟩
  | .function _ locals => some ⟨index + 1, m.pushZeros locals⟩
  | .call name args => p.call index m name args
  | .ret => (p.indexAt? m.returnAddress.toNat).map fun j => ⟨j, m.returned⟩

/-- Execute the next command; the start-up sets `SP` and calls the entry point. -/
def step (s : StackState) : Option StackState :=
  match p.origins[s.index]? with
  | none => none
  | some .bootstrap =>
      p.call s.index (s.ram.write Reg.sp (BitVec.ofNat 16 Scope.stackBase)) Scope.entryPoint 0
  | some (.command _ c) => p.execute s.index s.ram c

section
variable {p}

theorem lt_of_step {v t : StackState} (h : p.step v = some t) : v.index < p.origins.length := by
  by_cases hlt : v.index < p.origins.length
  · exact hlt
  · unfold step at h
    rw [List.getElem?_eq_none (Nat.le_of_not_lt hlt)] at h
    cases h

/-- What is found at a ROM address starts there. -/
theorem rom_of_indexAt? {address j : Nat} (h : p.indexAt? address = some j) :
    p.rom j = address := by
  have hfound := List.find?_some h
  exact beq_iff_eq.mp hfound

theorem exists_labelIndex {i j : Nat} {name : String} (hj : j < p.origins.length)
    (hlabel : p.command? j = some (.label name))
    (hsame : enclosing p.origins j = enclosing p.origins i) :
    ∃ k, p.labelIndex? i name = some k := by
  rw [← Option.isSome_iff_exists]
  unfold labelIndex?
  rw [List.find?_isSome]
  refine ⟨j, List.mem_range.mpr hj, ?_⟩
  rw [hlabel, hsame, Bool.and_eq_true]
  exact ⟨beq_self_eq_true _, beq_self_eq_true _⟩

theorem exists_functionIndex {o : Origin} (ho : o ∈ p.origins) {name : String}
    (hname : o.function? = some name) : ∃ j, p.functionIndex? name = some j := by
  obtain ⟨j, hj⟩ := List.mem_iff_getElem?.mp ho
  have hlt : j < p.origins.length := (List.getElem?_eq_some_iff.mp hj).1
  rw [← Option.isSome_iff_exists]
  unfold functionIndex?
  rw [List.find?_isSome]
  refine ⟨j, List.mem_range.mpr hlt, ?_⟩
  rw [hj, Option.bind_some, hname]
  exact beq_self_eq_true _

theorem exists_indexAt {address j : Nat} (hj : j ≤ p.origins.length) (h : p.rom j = address) :
    ∃ k, p.indexAt? address = some k := by
  rw [← Option.isSome_iff_exists]
  unfold indexAt?
  rw [List.find?_isSome]
  exact ⟨j, List.mem_range.mpr (Nat.lt_succ_of_le hj), beq_iff_eq.mpr h⟩

end

/-! ## §4. What a command reaches. -/

/-- That many cells from an address up. -/
def cellsFrom (address : Word) (n : Nat) : List Word :=
  (List.range n).map fun i => address + BitVec.ofNat 16 i

/-- The cell of a segment, if it is reached through a register. -/
def basedCell (m : Ram) (segment : Segment) (index : Nat) : List Word :=
  match segment with
  | .locals | .argument | .this | .that => (p.cell? m segment index).toList
  | _ => []

/-- The cells that a command reaches through `SP`, `LCL`, `ARG`, `THIS` and `THAT`. -/
def reachOf (m : Ram) : Command → List Word
  | .arithmetic op => op.operator.reach m
  | .push segment i => m Reg.sp :: p.basedCell m segment i
  | .pop segment i => (m Reg.sp - 1#16) :: p.basedCell m segment i
  | .label _ | .goto _ => []
  | .ifGoto _ => [m Reg.sp - 1#16]
  | .function _ locals => cellsFrom (m Reg.sp) locals
  | .call _ _ => cellsFrom (m Reg.sp) frameSize
  | .ret => (m Reg.sp - 1#16) :: m Reg.arg :: cellsFrom (m Reg.lcl - 5#16) frameSize

/-- The cells that the next command reaches through the registers. -/
def reach (s : StackState) : List Word :=
  match p.origins[s.index]? with
  | none => []
  | some .bootstrap => cellsFrom (BitVec.ofNat 16 Scope.stackBase) frameSize
  | some (.command _ c) => p.reachOf s.ram c

/-- The cells that commands name without a register are no scratch, and hold no frame in
place. -/
def FixedClear : Prop :=
  ∀ line c segment index m cell, .command line c ∈ p.origins → c.cell? = some (segment, index) →
    p.basedCell m segment index = [] → p.cell? m segment index = some cell →
      ¬ IsScratch cell ∧ cell ≠ Reg.lcl ∧ cell ≠ Reg.arg

/-- The next command keeps off `SP` itself and off the scratch of the generated code. -/
def Clear (s : StackState) : Prop := ∀ a ∈ p.reach s, a ≠ Reg.sp ∧ ¬ IsScratch a

/-- Runs of so many steps, each of them clear. -/
inductive Runs : Nat → StackState → StackState → Prop where
  /-- No step. -/
  | refl (s : StackState) : Runs 0 s s
  /-- One step and a run. -/
  | step {n : Nat} {s t u : StackState} (clear : p.Clear s) (step : p.step s = some t)
      (rest : Runs n t u) : Runs (n + 1) s u

-- by the list of cells, not by all words
instance (s : StackState) : Decidable (p.Clear s) :=
  List.decidableBAll (fun a => a ≠ Reg.sp ∧ ¬ IsScratch a) (p.reach s)

/-- The state after so many clear steps, if there are so many. -/
def runClear : Nat → StackState → Option StackState
  | 0, s => some s
  | n + 1, s => if p.Clear s then (p.step s).bind (runClear n) else none

/-- Clear runs can be computed. -/
theorem runs_of_runClear {n : Nat} {s t : StackState} (h : p.runClear n s = some t) :
    p.Runs n s t := by
  induction n generalizing s with
  | zero => cases h; exact .refl _
  | succ n ih =>
      unfold runClear at h
      by_cases hclear : p.Clear s
      · rw [if_pos hclear] at h
        obtain ⟨u, hstep, hrest⟩ := Option.bind_eq_some_iff.mp h
        exact .step hclear hstep (ih hrest)
      · rw [if_neg hclear] at h
        cases h

end StackProgram

end Vm

end HackPlatform
