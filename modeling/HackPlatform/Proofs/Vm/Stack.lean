/-
  HackPlatform.Proofs.Vm.Stack
  ────────────────────────────────
  **THE STACK IN RAM: what the registers make of the memory.**

  Nothing is kept but the RAM: the stack, the frames and the segments are what the
  five registers in its first cells make of it.  Pushing writes at `SP` and then
  raises it; popping lowers it and then reads.  A call leaves the frame

      ARG  →  argument 0 … argument n-1
              return address
              saved LCL, ARG, THIS, THAT
      LCL  →  local 0 …
      SP   →  first free cell

  and `return` takes it down again: it puts the result where the arguments began
  and restores the registers from the words below `LCL`.  Addresses and values are
  words.
-/
import HackPlatform.Vm.Lowering
import HackPlatform.Proofs.Cpu

namespace HackPlatform

open Asm (Word)

/-! ## §1. Registers. -/

namespace Reg

/-- The first free cell of the stack. -/
abbrev sp : Word := 0#16
/-- Local 0 of the running function. -/
abbrev lcl : Word := 1#16
/-- Argument 0 of the running function. -/
abbrev arg : Word := 2#16
/-- Where `this` starts. -/
abbrev this : Word := 3#16
/-- Where `that` starts. -/
abbrev that : Word := 4#16
/-- Scratch of the generated code. -/
abbrev r13 : Word := 13#16
/-- Scratch of the generated code. -/
abbrev r14 : Word := 14#16

end Reg

/-- The cells that the generated code keeps for itself. -/
def IsScratch (a : Word) : Prop := a = Reg.r13 ∨ a = Reg.r14

instance : DecidablePred IsScratch := fun a => inferInstanceAs (Decidable (a = _ ∨ a = _))

/-! ## §2. The stack in RAM. -/

namespace Ram

/-- Write at `SP`, then raise it. -/
def push (m : Ram) (value : Word) : Ram :=
  let m := m.write (m Reg.sp) value
  m.write Reg.sp (m Reg.sp + 1#16)

/-- Lower `SP`. -/
def drop (m : Ram) : Ram := m.write Reg.sp (m Reg.sp - 1#16)

theorem drop_sp (m : Ram) : m.drop Reg.sp = m Reg.sp - 1#16 := write_same ..

theorem drop_other (m : Ram) {a : Word} (ha : a ≠ Reg.sp) : m.drop a = m a := write_other _ _ ha

/-- What a pop reads after lowering `SP`. -/
def popped (m : Ram) : Word := m.drop (m.drop Reg.sp)

/-- Push what a register holds. -/
def pushCell (m : Ram) (register : Word) : Ram := m.push (m register)

/-- Push that many zeros. -/
def pushZeros (m : Ram) : Nat → Ram
  | 0 => m
  | n + 1 => (m.push 0#16).pushZeros n

/-- Copy one cell into another. -/
def copy (m : Ram) (target source : Word) : Ram := m.write target (m source)

/-- Push the return address and the caller's registers. -/
def saved (m : Ram) (ret : Word) : Ram :=
  ((((m.push ret).pushCell Reg.lcl).pushCell Reg.arg).pushCell Reg.this).pushCell Reg.that

/-- Save the caller's frame, and let `ARG` and `LCL` point into the new one. -/
def called (m : Ram) (ret : Word) (args : Nat) : Ram :=
  let m := m.saved ret
  (m.write Reg.arg (m Reg.sp - BitVec.ofNat 16 (Vm.frameSize + args))).copy Reg.lcl Reg.sp

/-- Pop the result to where the arguments began, and let `SP` follow it. -/
def answered (m : Ram) : Ram :=
  let m := m.drop.write (m.drop Reg.arg) m.popped
  m.write Reg.sp (m Reg.arg + 1#16)

/-- Restore the caller's registers from the frame that ends at an address. -/
def restored (m : Ram) (frame : Word) : Ram :=
  (((m.copy Reg.that (frame - 1#16)).copy Reg.this (frame - 2#16)).copy Reg.arg
    (frame - 3#16)).copy Reg.lcl (frame - 4#16)

/-- Leave the result to the caller and restore its registers from the frame that ends at
`LCL`. -/
def returned (m : Ram) : Ram := m.answered.restored (m Reg.lcl)

/-- The return address in the frame that ends at `LCL`. -/
def returnAddress (m : Ram) : Word := m (m Reg.lcl - 5#16)

/-! ## §3. What the operations leave in a cell. -/

section
variable {m : Ram}

theorem push_sp (htop : m Reg.sp ≠ Reg.sp) (v : Word) : m.push v Reg.sp = m Reg.sp + 1#16 := by
  have hsp : (m.write (m Reg.sp) v) Reg.sp = m Reg.sp := write_other _ _ htop.symm
  show ((m.write (m Reg.sp) v).write Reg.sp (_ + 1#16)) Reg.sp = _
  rw [write_same, hsp]

theorem push_top (htop : m Reg.sp ≠ Reg.sp) (v : Word) : m.push v (m Reg.sp) = v :=
  (write_other _ _ htop).trans (write_same ..)

theorem push_other {a : Word} (ha : a ≠ Reg.sp) (htop : a ≠ m Reg.sp) (v : Word) :
    m.push v a = m a :=
  (write_other _ _ ha).trans (write_other _ _ htop)

/-- Once the frame is saved, only `LCL` and `ARG` are moved. -/
theorem called_other {a : Word} (hlcl : a ≠ Reg.lcl) (harg : a ≠ Reg.arg) (ret : Word)
    (args : Nat) : m.called ret args a = m.saved ret a := by
  unfold called
  generalize m.saved ret = r
  exact (write_other _ _ hlcl).trans (write_other _ _ harg)

theorem called_lcl (ret : Word) (args : Nat) :
    m.called ret args Reg.lcl = m.saved ret Reg.sp := by
  unfold called
  generalize m.saved ret = r
  exact (write_same ..).trans (write_other _ _ (by decide))

theorem called_arg (ret : Word) (args : Nat) :
    m.called ret args Reg.arg = m.saved ret Reg.sp - BitVec.ofNat 16 (Vm.frameSize + args) := by
  unfold called
  generalize m.saved ret = r
  exact (write_other _ _ (by decide)).trans (write_same ..)

theorem copy_same (target source : Word) : m.copy target source target = m source :=
  write_same ..

theorem copy_other {target a : Word} (h : a ≠ target) (source : Word) :
    m.copy target source a = m a :=
  write_other _ _ h

theorem answered_other {a : Word} (ha : a ≠ Reg.sp) (harg : a ≠ m Reg.arg) :
    m.answered a = m a := by
  have htarget : m.drop Reg.arg = m Reg.arg := drop_other _ (by decide)
  unfold answered
  rw [htarget]
  exact (write_other _ _ ha).trans ((write_other _ _ harg).trans (drop_other _ ha))

theorem answered_sp (harg : m Reg.arg ≠ Reg.arg) : m.answered Reg.sp = m Reg.arg + 1#16 := by
  have htarget : m.drop Reg.arg = m Reg.arg := drop_other _ (by decide)
  have hkept : (m.drop.write (m Reg.arg) m.popped) Reg.arg = m Reg.arg :=
    (write_other _ _ harg.symm).trans htarget
  unfold answered
  rw [htarget]
  show (Ram.write _ Reg.sp (_ + 1#16)) Reg.sp = _
  rw [write_same, hkept]

theorem answered_result (harg : m Reg.arg ≠ Reg.sp) : m.answered (m Reg.arg) = m.popped := by
  have htarget : m.drop Reg.arg = m Reg.arg := drop_other _ (by decide)
  unfold answered
  rw [htarget]
  exact (write_other _ _ harg).trans (write_same ..)

theorem restored_other {a frame : Word} (hthat : a ≠ Reg.that) (hthis : a ≠ Reg.this)
    (harg : a ≠ Reg.arg) (hlcl : a ≠ Reg.lcl) : m.restored frame a = m a := by
  unfold restored
  rw [copy_other hlcl, copy_other harg, copy_other hthis, copy_other hthat]

/-- Each register comes from its own word, for no word is a register. -/
theorem restored_registers {frame : Word}
    (hframe : ∀ k, 1 ≤ k → k ≤ 4 → 16 ≤ (frame - BitVec.ofNat 16 k).toNat) :
    m.restored frame Reg.that = m (frame - 1#16) ∧ m.restored frame Reg.this = m (frame - 2#16)
      ∧ m.restored frame Reg.arg = m (frame - 3#16)
      ∧ m.restored frame Reg.lcl = m (frame - 4#16) := by
  -- no word of the frame is a register, so no restore changes what the next one reads
  have hoff : ∀ k, 1 ≤ k → k ≤ 4 → ∀ register : Word, register.toNat < 16 →
      frame - BitVec.ofNat 16 k ≠ register := by
    intro k hk hk' register hregister he
    have := hframe k hk hk'
    rw [he] at this
    omega
  have h2 := hoff 2 (by decide) (by decide)
  have h3 := hoff 3 (by decide) (by decide)
  have h4 := hoff 4 (by decide) (by decide)
  unfold restored
  refine ⟨?_, ?_, ?_, ?_⟩
  · rw [copy_other (by decide), copy_other (by decide), copy_other (by decide), copy_same]
  · rw [copy_other (by decide), copy_other (by decide), copy_same,
      copy_other (h2 Reg.that (by decide))]
  · rw [copy_other (by decide), copy_same, copy_other (h3 Reg.this (by decide)),
      copy_other (h3 Reg.that (by decide))]
  · rw [copy_same, copy_other (h4 Reg.arg (by decide)), copy_other (h4 Reg.this (by decide)),
      copy_other (h4 Reg.that (by decide))]

end

end Ram

end HackPlatform
