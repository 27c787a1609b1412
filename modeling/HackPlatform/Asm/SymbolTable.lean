/-
  HackPlatform.Asm.SymbolTable
  ────────────────────────────────
  **THE SYMBOL TABLE of one assembly.**

  A new table knows the 23 symbols of the platform.  Labels are bound to ROM
  addresses; a symbol met for the first time as an operand becomes a variable
  and gets the next free RAM address, from 16 up to 32767.  A binding never
  changes once it is made.

      bind       bind a label; refused if it is bound elsewhere
      resolve    the value of an operand, allocating a variable for a new symbol
      entries    all bindings in the order of their names
-/
import Std.Data.TreeMap
import HackPlatform.Asm.Fault

namespace HackPlatform.Asm

/-! ## §1. The platform's symbols. -/

/-- The symbols every program can use, with their values. -/
def reservedSymbols : List (String × Nat) :=
  [("SP", 0), ("LCL", 1), ("ARG", 2), ("THIS", 3), ("THAT", 4),
   ("R0", 0), ("R1", 1), ("R2", 2), ("R3", 3), ("R4", 4), ("R5", 5),
   ("R6", 6), ("R7", 7), ("R8", 8), ("R9", 9), ("R10", 10),
   ("R11", 11), ("R12", 12), ("R13", 13), ("R14", 14), ("R15", 15),
   ("SCREEN", 16384), ("KBD", 24576)]

/-- The name is one of the platform's symbols. -/
def isReserved (name : String) : Bool := reservedSymbols.any (·.1 == name)

/-- The RAM address of the first variable. -/
def variableBase : Nat := 16

/-! ## §2. The table. -/

/-- The bindings made so far, and the address the next variable will get. -/
structure SymbolTable where
  /-- Values by name. -/
  bindings : Std.TreeMap String Nat
  /-- The next free RAM address. -/
  nextVariable : Nat

namespace SymbolTable

/-- The table a program starts with. -/
def platform : SymbolTable where
  bindings := Std.TreeMap.ofList reservedSymbols
  nextVariable := variableBase

/-- The value of a name, if it has one. -/
def lookup (t : SymbolTable) (name : String) : Option Nat := t.bindings[name]?

/-- The number of names that have a value. -/
def size (t : SymbolTable) : Nat := t.bindings.size

/-- All bindings, in the order of their names. -/
def entries (t : SymbolTable) : List (String × Nat) := t.bindings.toList

/-- Bind a name to an address.  If it is bound to another address already, that
address is returned and nothing changes. -/
def bind (t : SymbolTable) (name : String) (address : Nat) : Except Nat SymbolTable :=
  match t.lookup name with
  | none => .ok { t with bindings := t.bindings.insert name address }
  | some existing => if existing = address then .ok t else .error existing

/-- The value of an operand.  A name without one becomes a variable, if a RAM
address is left for it. -/
def resolve (t : SymbolTable) (name : String) : Option (Nat × SymbolTable) :=
  match t.lookup name with
  | some value => some (value, t)
  | none =>
      if t.nextVariable ≤ maxAddress then
        some (t.nextVariable,
          { bindings := t.bindings.insert name t.nextVariable
            nextVariable := t.nextVariable + 1 })
      else none

end SymbolTable

end HackPlatform.Asm
