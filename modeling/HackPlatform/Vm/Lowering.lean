/-
  HackPlatform.Vm.Lowering
  ────────────────────────────────
  **LOWERING COMMANDS TO ASSEMBLY.**

  `SP` always holds the address of the first free cell of the stack.  Pushing
  writes there and then raises it; popping lowers it and then reads.  `R13` and
  `R14` belong to the code produced here.  A call leaves this frame on the
  stack, with `ARG` and `LCL` pointing into it:

      ARG  →  argument 0 … argument n-1
              return address
              saved LCL, ARG, THIS, THAT
      LCL  →  local 0 …
      SP   →  first free cell

  Names are made so that they stay inside the assembler's alphabet: a label of
  a function `f` becomes `f$L`, a static of a file `F` becomes `F.i`, a
  comparison jumps to `F.CMP.n` and a call returns to `f$ret.n`, where `n` counts
  up through the whole file.
-/
import HackPlatform.Asm.Instruction
import HackPlatform.Vm.Fault

namespace HackPlatform.Vm

open Asm

/-! ## §1. Pieces of assembly. -/

/-- Load the value of a symbol. -/
def load (name : String) : Instruction := .address (.symbol name)

/-- Load a number. -/
def loadNumber (n : Nat) : Instruction := .address (.literal n)

/-- Compute into register A. -/
def intoA (c : Comp) : Instruction := .compute ⟨true, false, false⟩ c .never

/-- Compute into register D. -/
def intoD (c : Comp) : Instruction := .compute ⟨false, true, false⟩ c .never

/-- Compute into the cell that A points at. -/
def intoM (c : Comp) : Instruction := .compute ⟨false, false, true⟩ c .never

/-- Compute into register A and the cell that it pointed at. -/
def intoAM (c : Comp) : Instruction := .compute ⟨true, false, true⟩ c .never

/-- Go to the address in A. -/
def goNow : Instruction := .compute .nowhere .zero .always

/-- Go to the address in A if D has the sign asked for. -/
def goIfD (jump : Jump) : Instruction := .compute .nowhere .d jump

/-- Push D. -/
def pushD : List Instruction :=
  [load "SP", intoA (.y .m), intoM .d, load "SP", intoM (.yPlusOne .m)]

/-- Pop into D; A is left pointing at the cell popped. -/
def popD : List Instruction := [load "SP", intoAM (.yMinusOne .m), intoD (.y .m)]

/-! ## §2. Scopes. -/

/-- Where in a file a command stands, as far as names depend on it. -/
structure Scope where
  /-- The symbol that stands for the file. -/
  file : String
  /-- The function the command belongs to. -/
  function : Option String
  /-- The number of labels generated before. -/
  labels : Nat
  deriving DecidableEq, Repr

namespace Scope

/-- The start of a file. -/
def start (file : String) : Scope := ⟨file, none, 0⟩

/-- The function, or the file before its first function. -/
def owner (s : Scope) : String := s.function.getD s.file

/-- The symbol of a label of this scope. -/
def labelSymbol (s : Scope) (name : String) : String := s.owner ++ "$" ++ name

/-- The symbol of a static variable. -/
def staticSymbol (s : Scope) (index : Nat) : String := s.file ++ "." ++ toString index

/-- The label that the next comparison jumps to. -/
def compareSymbol (s : Scope) : String := s.file ++ ".CMP." ++ toString s.labels

/-- The label that the next call returns to. -/
def returnSymbol (s : Scope) : String := s.owner ++ "$ret." ++ toString s.labels

end Scope

/-! ## §3. Memory. -/

/-- Where a cell of a segment lies. -/
inductive Place where
  /-- At an index from the address held by a base register. -/
  | based (base : String)
  /-- At a fixed address. -/
  | fixed (operand : Operand)
  deriving DecidableEq, Repr

/-- The RAM address of `temp 0`. -/
def tempBase : Nat := 5

/-- Where a cell lies; a constant lies nowhere. -/
def Scope.place? (s : Scope) (segment : Segment) (index : Nat) : Option Place :=
  match segment with
  | .constant => none
  | .locals => some (.based "LCL")
  | .argument => some (.based "ARG")
  | .this => some (.based "THIS")
  | .that => some (.based "THAT")
  | .temp => some (.fixed (.literal (tempBase + index)))
  | .pointer => some (.fixed (.symbol (if index = 0 then "THIS" else "THAT")))
  | .static => some (.fixed (.symbol (s.staticSymbol index)))

/-- Fetch a cell into D and push it. -/
def pushCode (place : Option Place) (index : Nat) : List Instruction :=
  (match place with
    | none => [loadNumber index, intoD (.y .a)]
    | some (.based base) =>
        [load base, intoD (.y .m), loadNumber index, intoA (.dPlusY .a), intoD (.y .m)]
    | some (.fixed operand) => [.address operand, intoD (.y .m)])
  ++ pushD

/-- Pop into a cell.  The address of a based cell waits in `R13` while D carries the
value. -/
def popCode (place : Place) (index : Nat) : List Instruction :=
  match place with
  | .based base =>
      [load base, intoD (.y .m), loadNumber index, intoD (.dPlusY .a), load "R13", intoM .d]
        ++ popD ++ [load "R13", intoA (.y .m), intoM .d]
  | .fixed operand => popD ++ [.address operand, intoM .d]

/-! ## §4. Arithmetic. -/

/-- How an arithmetic command is carried out on the top of the stack. -/
inductive Shape where
  /-- In place on the top. -/
  | unary (c : Comp)
  /-- The top, in D, into the value below it. -/
  | binary (c : Comp)
  /-- The sign of a difference. -/
  | compare (jump : Jump)
  deriving DecidableEq, Repr

/-- The shape of an arithmetic command. -/
def Arithmetic.shape : Arithmetic → Shape
  | .add => .binary (.dPlusY .m)
  | .sub => .binary (.yMinusD .m)
  | .neg => .unary (.negY .m)
  | .eq => .compare .eq
  | .gt => .compare .gt
  | .lt => .compare .lt
  | .and => .binary (.dAndY .m)
  | .or => .binary (.dOrY .m)
  | .not => .unary (.notY .m)

/-- Pop into D, and let A point at the new top. -/
def takeTop : List Instruction := popD ++ [intoA (.yMinusOne .a)]

/-- Replace the two topmost values by -1 if their difference has the sign, else by 0.
The jump over the 0 goes to `symbol`. -/
def compareCode (jump : Jump) (symbol : String) : List Instruction :=
  takeTop ++ [intoD (.yMinusD .m), intoM .minusOne, load symbol, goIfD jump,
    load "SP", intoA (.yMinusOne .m), intoM .zero, .label symbol]

/-- Carry out an arithmetic command. -/
def arithmeticCode (s : Scope) (op : Arithmetic) : List Instruction :=
  match op.shape with
  | .unary c => [load "SP", intoA (.yMinusOne .m), intoM c]
  | .binary c => takeTop ++ [intoM c]
  | .compare jump => compareCode jump s.compareSymbol

/-! ## §5. Control flow and functions. -/

/-- Pop, and go to a symbol if the value is not zero. -/
def ifGotoCode (symbol : String) : List Instruction := popD ++ [load symbol, goIfD .ne]

/-- Enter a function and push a zero for each of its local variables. -/
def functionCode (name : String) (locals : Nat) : List Instruction :=
  .label name :: (List.replicate locals (intoD .zero :: pushD)).flatten

/-- Push the value of a register. -/
def pushRegister (register : String) : List Instruction :=
  [load register, intoD (.y .m)] ++ pushD

/-- Save the caller's frame, set up the callee's and go there; come back to `ret`. -/
def callCode (name : String) (args : Nat) (ret : String) : List Instruction :=
  [load ret, intoD (.y .a)] ++ pushD
    ++ ["LCL", "ARG", "THIS", "THAT"].flatMap pushRegister
    ++ [load "SP", intoD (.y .m), loadNumber (frameSize + args), intoD (.dMinusY .a),
        load "ARG", intoM .d, load "SP", intoD (.y .m), load "LCL", intoM .d,
        load name, goNow, .label ret]

/-- Take the word below the one that `R13` points at into a register, and let `R13`
point at it. -/
def restoreRegister (register : String) : List Instruction :=
  [load "R13", intoAM (.yMinusOne .m), intoD (.y .m), load register, intoM .d]

/-- Keep the frame's end in `R13` and the return address in `R14`, put the result where
the caller's arguments began, restore the caller's registers and go back. -/
def returnCode : List Instruction :=
  [load "LCL", intoD (.y .m), load "R13", intoM .d,
   loadNumber frameSize, intoA (.dMinusY .a), intoD (.y .m), load "R14", intoM .d]
    ++ popD
    ++ [load "ARG", intoA (.y .m), intoM .d, load "ARG", intoD (.yPlusOne .m),
        load "SP", intoM .d]
    ++ ["THAT", "THIS", "ARG", "LCL"].flatMap restoreRegister
    ++ [load "R14", intoA (.y .m), goNow]

/-! ## §6. Commands. -/

namespace Scope

/-- The assembly of a command that stands here. -/
def code (s : Scope) : Command → Except Fault (List Instruction)
  | .arithmetic op => .ok (arithmeticCode s op)
  | .push segment index => .ok (pushCode (s.place? segment index) index)
  | .pop segment index =>
      match s.place? segment index with
      | some place => .ok (popCode place index)
      | none => .error .popConstant
  | .label name => .ok [.label (s.labelSymbol name)]
  | .goto name => .ok [load (s.labelSymbol name), goNow]
  | .ifGoto name => .ok (ifGotoCode (s.labelSymbol name))
  | .function name locals => .ok (functionCode name locals)
  | .call name args => .ok (callCode name args s.returnSymbol)
  | .ret => .ok returnCode

/-- One generated label more. -/
def nextLabel (s : Scope) : Scope := { s with labels := s.labels + 1 }

/-- Where the command after a command stands. -/
def after (s : Scope) : Command → Scope
  | .arithmetic op =>
      match op.shape with
      | .compare _ => s.nextLabel
      | _ => s
  | .call _ _ => s.nextLabel
  | .function name _ => { s with function := some name }
  | _ => s

/-- Lower one command: its assembly, and where the next one stands. -/
def lower (s : Scope) (command : Command) : Except Fault (List Instruction × Scope) := do
  command.check
  let code ← s.code command
  return (code, s.after command)

/-- The function a program starts with. -/
def entryPoint : String := "Sys.init"

/-- The first cell of the stack. -/
def stackBase : Nat := 256

/-- Set up the stack and call the entry point. -/
def bootstrap (s : Scope) : List Instruction × Scope :=
  ([loadNumber stackBase, intoD (.y .a), load "SP", intoM .d]
    ++ callCode entryPoint 0 s.returnSymbol, s.nextLabel)

end Scope

end HackPlatform.Vm
