/-
  HackPlatform.Vm.Command
  ────────────────────────────────
  **COMMANDS OF THE STACK MACHINE and how they are written.**

      add sub neg eq gt lt and or not     arithmetic and logic
      push segment i, pop segment i       memory access
      label L, goto L, if-goto L          control flow in one function
      function f k, call f n, return      functions

  A command is written with single blanks between its tokens; `Command.render`
  fixes that form.
-/

namespace HackPlatform.Vm

/-! ## §1. Arithmetic and segments. -/

/-- The commands that work on the top of the stack alone. -/
inductive Arithmetic where
  /-- Sum of the two topmost values. -/
  | add
  /-- The value below the top minus the top. -/
  | sub
  /-- The top negated. -/
  | neg
  /-- Whether the two topmost values are equal. -/
  | eq
  /-- Whether the value below the top is greater than the top. -/
  | gt
  /-- Whether the value below the top is less than the top. -/
  | lt
  /-- Bitwise and. -/
  | and
  /-- Bitwise or. -/
  | or
  /-- The top with every bit flipped. -/
  | not
  deriving DecidableEq, Repr

namespace Arithmetic

/-- The spelling. -/
def mnemonic : Arithmetic → String
  | add => "add"
  | sub => "sub"
  | neg => "neg"
  | eq => "eq"
  | gt => "gt"
  | lt => "lt"
  | and => "and"
  | or => "or"
  | not => "not"

/-- All nine of them. -/
def all : List Arithmetic := [add, sub, neg, eq, gt, lt, and, or, not]

/-- The command of a spelling. -/
def ofMnemonic? (s : String) : Option Arithmetic := all.find? (·.mnemonic == s)

end Arithmetic

/-- A part of memory that a command can name. -/
inductive Segment where
  /-- The arguments of the running function. -/
  | argument
  /-- The local variables of the running function. -/
  | locals
  /-- The variables of the file. -/
  | static
  /-- Not memory: the index itself. -/
  | constant
  /-- The cells from where `pointer 0` points. -/
  | this
  /-- The cells from where `pointer 1` points. -/
  | that
  /-- The two bases of `this` and `that`. -/
  | pointer
  /-- Eight fixed cells. -/
  | temp
  deriving DecidableEq, Repr

namespace Segment

/-- The spelling. -/
def name : Segment → String
  | argument => "argument"
  | locals => "local"
  | static => "static"
  | constant => "constant"
  | this => "this"
  | that => "that"
  | pointer => "pointer"
  | temp => "temp"

/-- All eight of them. -/
def all : List Segment := [argument, locals, static, constant, this, that, pointer, temp]

/-- The segment of a spelling. -/
def ofName? (s : String) : Option Segment := all.find? (·.name == s)

/-- The last index of a segment of fixed size. -/
def maxIndex? : Segment → Option Nat
  | pointer => some 1
  | temp => some 7
  | _ => none

end Segment

/-! ## §2. Commands. -/

/-- One command. -/
inductive Command where
  /-- Work on the top of the stack. -/
  | arithmetic (op : Arithmetic)
  /-- Put a memory cell, or a constant, on the stack. -/
  | push (segment : Segment) (index : Nat)
  /-- Take the top of the stack into a memory cell. -/
  | pop (segment : Segment) (index : Nat)
  /-- A place in the running function that can be jumped to. -/
  | label (name : String)
  /-- Jump to a label of the running function. -/
  | goto (name : String)
  /-- Take the top of the stack and jump if it is not zero. -/
  | ifGoto (name : String)
  /-- The start of a function, with its number of local variables. -/
  | function (name : String) (locals : Nat)
  /-- Call a function on that many values from the top of the stack. -/
  | call (name : String) (args : Nat)
  /-- Go back to the caller with the top of the stack as the result. -/
  | ret
  deriving DecidableEq, Repr

/-- The text of a command. -/
def Command.render : Command → String
  | arithmetic op => op.mnemonic
  | push segment index => "push " ++ segment.name ++ " " ++ toString index
  | pop segment index => "pop " ++ segment.name ++ " " ++ toString index
  | label name => "label " ++ name
  | goto name => "goto " ++ name
  | ifGoto name => "if-goto " ++ name
  | function name locals => "function " ++ name ++ " " ++ toString locals
  | call name args => "call " ++ name ++ " " ++ toString args
  | ret => "return"

end HackPlatform.Vm
