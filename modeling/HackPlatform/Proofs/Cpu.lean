/-
  HackPlatform.Proofs.Cpu
  ────────────────────────────────
  **THE CPU: what machine words do.**

  The CPU has two registers of 16 bits, A and D, a RAM of 2^16 cells of 16 bits,
  and a program counter into ROM.  A word whose highest bit is clear is loaded
  into A.  Any other word is taken as

      111a cccc ccdd djjj

  D and a second operand (A, or the RAM cell at A where the a bit is set) go
  through the arithmetic unit, the d bits store what comes out, and the j bits
  decide by its sign whether to jump.  Stores and jumps all use the old A.

      alu            the arithmetic unit
      Cpu.execute    one word
      Cpu.step       fetch and execute; `none` past the end of ROM
      runFor         that many steps of any machine
-/
import HackPlatform.Asm.Word

namespace HackPlatform

open Asm (Word)

/-! ## §1. Runs of a machine. -/

/-- The state after `n` steps; `none` if the machine stops before. -/
def runFor {σ : Type} (step : σ → Option σ) : Nat → σ → Option σ
  | 0, s => some s
  | n + 1, s => (step s).bind (runFor step n)

section
variable {σ : Type} {step : σ → Option σ}

theorem runFor_succ {n : Nat} {s t : σ} (h : step s = some t) :
    runFor step (n + 1) s = runFor step n t := by
  simp only [runFor, h, Option.bind_some]

theorem runFor_one {s t : σ} (h : step s = some t) : runFor step 1 s = some t := runFor_succ h

theorem runFor_add (m n : Nat) (s : σ) :
    runFor step (m + n) s = (runFor step m s).bind (runFor step n) := by
  induction m generalizing s with
  | zero => simp only [Nat.zero_add, runFor, Option.bind_some]
  | succ m ih =>
      rw [show m + 1 + n = (m + n) + 1 by omega]
      simp only [runFor]
      cases step s with
      | none => rfl
      | some t => exact ih t

/-- Two runs, one after the other, are one run. -/
theorem runFor_trans {m n : Nat} {s t u : σ} (hst : runFor step m s = some t)
    (htu : runFor step n t = some u) : runFor step (m + n) s = some u := by
  rw [runFor_add, hst, Option.bind_some, htu]

/-- Machines that step alike from every state run alike. -/
theorem runFor_congr {step' : σ → Option σ} (h : ∀ s, step s = step' s) (n : Nat) (s : σ) :
    runFor step n s = runFor step' n s := by
  rw [show step = step' from funext h]

end

/-! ## §2. Memory. -/

/-- The 2^16 cells of RAM. -/
abbrev Ram := Word → Word

namespace Ram

/-- The RAM after a value is written to one cell. -/
def write (m : Ram) (address value : Word) : Ram :=
  fun a => if a = address then value else m a

@[simp] theorem write_same (m : Ram) (a v : Word) : m.write a v a = v := if_pos rfl

theorem write_other (m : Ram) {a b : Word} (v : Word) (h : b ≠ a) : m.write a v b = m b :=
  if_neg h

/-- Of two writes to one cell the later one stays. -/
theorem write_write (m : Ram) (a v w : Word) : (m.write a v).write a w = m.write a w := by
  funext b
  unfold write
  by_cases h : b = a
  · rw [if_pos h, if_pos h]
  · rw [if_neg h, if_neg h, if_neg h]

end Ram

/-! ## §3. The arithmetic unit. -/

/-- The arithmetic unit.  From high to low, the control bits zero the first operand,
flip it, zero the second, flip it, add rather than and, and flip the result. -/
def alu (x y : Word) (control : BitVec 6) : Word :=
  let x := if control.getLsbD 5 then 0#16 else x
  let x := if control.getLsbD 4 then ~~~x else x
  let y := if control.getLsbD 3 then 0#16 else y
  let y := if control.getLsbD 2 then ~~~y else y
  let out := if control.getLsbD 1 then x + y else x &&& y
  if control.getLsbD 0 then ~~~out else out

/-- Whether jump bits accept the sign of a value: negative, zero, positive from high to
low. -/
def jumpTaken (jump : BitVec 3) (value : Word) : Bool :=
  (jump.getLsbD 2 && decide (value.toInt < 0))
    || (jump.getLsbD 1 && decide (value.toInt = 0))
    || (jump.getLsbD 0 && decide (0 < value.toInt))

/-! ## §4. The CPU. -/

/-- The state of the CPU. -/
structure Cpu where
  /-- Register A. -/
  a : Word
  /-- Register D. -/
  d : Word
  /-- The memory. -/
  ram : Ram
  /-- The ROM address of the next word. -/
  pc : Nat

namespace Cpu

/-- Load a value into A and go on. -/
def load (s : Cpu) (value : Word) : Cpu := { s with a := value, pc := s.pc + 1 }

/-- Store a value where asked, M at the old A, and jump to the old A or go on. -/
def store (s : Cpu) (intoA intoD intoM jump : Bool) (value : Word) : Cpu where
  a := if intoA then value else s.a
  d := if intoD then value else s.d
  ram := if intoM then s.ram.write s.a value else s.ram
  pc := if jump then s.a.toNat else s.pc + 1

/-- Execute one word. -/
def execute (s : Cpu) (word : Word) : Cpu :=
  if word.getLsbD 15 then
    let y := if word.getLsbD 12 then s.ram s.a else s.a
    let out := alu s.d y (word.extractLsb' 6 6)
    s.store (word.getLsbD 5) (word.getLsbD 4) (word.getLsbD 3)
      (jumpTaken (word.extractLsb' 0 3) out) out
  else s.load word

/-- Execute the word at the program counter; `none` past the end of ROM. -/
def step (rom : List Word) (s : Cpu) : Option Cpu := rom[s.pc]?.map s.execute

end Cpu

end HackPlatform
