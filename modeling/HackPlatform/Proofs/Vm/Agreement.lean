/-
  HackPlatform.Proofs.Vm.Agreement
  ────────────────────────────────
  **MEMORIES THAT AGREE BUT FOR THE SCRATCH CELLS.**

  The generated code leaves its own values in `R13` and `R14`, so memory under the
  CPU and memory under the stack machine are equal everywhere else only.  Every
  operation of the stack machine keeps that agreement, as long as it does not read
  a scratch cell; and a clear command never does.

      Agree           equal but for `R13` and `R14`
      execute_agree   a clear command on agreeing memories
      step_agree      a clear step on agreeing memories
-/
import HackPlatform.Proofs.Vm.StackMachine

namespace HackPlatform

open Asm (Word)

/-- The memories are equal but for the scratch cells. -/
def Agree (m m' : Ram) : Prop := ∀ a, ¬ IsScratch a → m a = m' a

namespace Agree

/-! ## §1. Operations on agreeing memories. -/

theorem refl (m : Ram) : Agree m m := fun _ _ => rfl

theorem symm {m m' : Ram} (h : Agree m m') : Agree m' m := fun a ha => (h a ha).symm

theorem trans {m m' m'' : Ram} (h : Agree m m') (h' : Agree m' m'') : Agree m m'' :=
  fun a ha => (h a ha).trans (h' a ha)

/-- Writing to a scratch cell changes nothing that matters. -/
theorem write_scratch (m : Ram) {a : Word} (ha : IsScratch a) (v : Word) :
    Agree (m.write a v) m := by
  intro b hb
  have hne : b ≠ a := fun he => hb (he ▸ ha)
  exact Ram.write_other m v hne

section
variable {m m' : Ram} (h : Agree m m')
include h

theorem write (a v : Word) : Agree (m.write a v) (m'.write a v) := by
  intro b hb
  unfold Ram.write
  by_cases he : b = a
  · rw [if_pos he, if_pos he]
  · rw [if_neg he, if_neg he]
    exact h b hb

theorem sp : m Reg.sp = m' Reg.sp := h _ (by decide)

theorem lcl : m Reg.lcl = m' Reg.lcl := h _ (by decide)

theorem arg : m Reg.arg = m' Reg.arg := h _ (by decide)

theorem this : m Reg.this = m' Reg.this := h _ (by decide)

theorem that : m Reg.that = m' Reg.that := h _ (by decide)

theorem push (v : Word) : Agree (m.push v) (m'.push v) := by
  have hcell : Agree (m.write (m Reg.sp) v) (m'.write (m' Reg.sp) v) := by
    rw [h.sp]
    exact h.write _ v
  unfold Ram.push
  simp only
  rw [hcell.sp]
  exact hcell.write Reg.sp _

/-- Copying from a cell that is no scratch. -/
theorem copy (target : Word) {source : Word} (hsource : ¬ IsScratch source) :
    Agree (m.copy target source) (m'.copy target source) := by
  unfold Ram.copy
  rw [h source hsource]
  exact h.write target _

theorem pushCell {a : Word} (ha : ¬ IsScratch a) : Agree (m.pushCell a) (m'.pushCell a) := by
  unfold Ram.pushCell
  rw [h a ha]
  exact h.push _

theorem drop : Agree m.drop m'.drop := by
  unfold Ram.drop
  rw [h.sp]
  exact h.write Reg.sp _

theorem popped (htop : ¬ IsScratch (m Reg.sp - 1#16)) : m.popped = m'.popped := by
  unfold Ram.popped
  rw [← h.drop.sp, Ram.drop_sp]
  exact h.drop _ htop

theorem saved (ret : Word) : Agree (m.saved ret) (m'.saved ret) := by
  have hlcl := (h.push ret).pushCell (show ¬ IsScratch Reg.lcl by decide)
  have harg := hlcl.pushCell (show ¬ IsScratch Reg.arg by decide)
  have hthis := harg.pushCell (show ¬ IsScratch Reg.this by decide)
  exact hthis.pushCell (show ¬ IsScratch Reg.that by decide)

theorem called (ret : Word) (args : Nat) : Agree (m.called ret args) (m'.called ret args) := by
  have hsaved := h.saved ret
  unfold Ram.called
  simp only
  rw [hsaved.sp]
  exact (hsaved.write Reg.arg _).copy Reg.lcl (by decide)

theorem answered (htop : ¬ IsScratch (m Reg.sp - 1#16)) : Agree m.answered m'.answered := by
  have hresult : Agree (m.drop.write (m.drop Reg.arg) m.popped)
      (m'.drop.write (m'.drop Reg.arg) m'.popped) := by
    rw [h.popped htop, h.drop.arg]
    exact h.drop.write _ _
  unfold Ram.answered
  simp only
  rw [hresult.arg]
  exact hresult.write Reg.sp _

theorem restored {frame : Word} (hframe : ∀ k, 1 ≤ k → k ≤ 4 →
    ¬ IsScratch (frame - BitVec.ofNat 16 k)) : Agree (m.restored frame) (m'.restored frame) := by
  have hthat := h.copy Reg.that (hframe 1 (by decide) (by decide))
  have hthis := hthat.copy Reg.this (hframe 2 (by decide) (by decide))
  have harg := hthis.copy Reg.arg (hframe 3 (by decide) (by decide))
  exact harg.copy Reg.lcl (hframe 4 (by decide) (by decide))

theorem returned (htop : ¬ IsScratch (m Reg.sp - 1#16))
    (hframe : ∀ k, 1 ≤ k → k ≤ 4 → ¬ IsScratch (m Reg.lcl - BitVec.ofNat 16 k)) :
    Agree m.returned m'.returned := by
  unfold Ram.returned
  rw [← h.lcl]
  exact (h.answered htop).restored hframe

theorem returnAddress (hret : ¬ IsScratch (m Reg.lcl - 5#16)) :
    m.returnAddress = m'.returnAddress := by
  unfold Ram.returnAddress
  rw [← h.lcl]
  exact h _ hret

end

theorem pushZeros {m m' : Ram} (h : Agree m m') (n : Nat) :
    Agree (m.pushZeros n) (m'.pushZeros n) := by
  induction n generalizing m m' with
  | zero => exact h
  | succ n ih => exact ih (h.push 0#16)

end Agree

namespace Vm

/-! ## §2. Commands on agreeing memories. -/

theorem mem_cellsFrom {a base : Word} {n : Nat} :
    a ∈ StackProgram.cellsFrom base n ↔ ∃ i < n, base + BitVec.ofNat 16 i = a := by
  unfold StackProgram.cellsFrom
  simp only [List.mem_map, List.mem_range]

/-- The words of a frame, counted down from its end. -/
theorem sub_mem_cellsFrom (frame : Word) {k : Nat} (hk : 1 ≤ k) (hk' : k ≤ frameSize) :
    frame - BitVec.ofNat 16 k ∈ StackProgram.cellsFrom (frame - 5#16) frameSize := by
  unfold frameSize at hk' ⊢
  refine mem_cellsFrom.mpr ⟨5 - k, by omega, ?_⟩
  bv_omega

theorem Operator.apply_agree {m m' : Ram} (h : Agree m m') (op : Operator)
    (hclear : ∀ a ∈ op.reach m, ¬ IsScratch a) : Agree (op.apply m) (op.apply m') := by
  cases op with
  | unary f =>
      have htop : ¬ IsScratch (m Reg.sp - 1#16) := hclear _ List.mem_cons_self
      show Agree (m.write _ (f (m _))) (m'.write _ (f (m' _)))
      rw [← h.sp, h _ htop]
      exact h.write _ _
  | binary f =>
      have htop : ¬ IsScratch (m Reg.sp - 1#16) := hclear _ List.mem_cons_self
      have hbelow : ¬ IsScratch (m.drop Reg.sp - 1#16) := by
        have hdrop : m.drop Reg.sp - 1#16 = m Reg.sp - 2#16 := by
          rw [Ram.drop_sp]
          bv_omega
        rw [hdrop]
        exact hclear _ (List.mem_cons_of_mem _ List.mem_cons_self)
      show Agree (m.drop.write _ (f (m.drop _) m.popped))
        (m'.drop.write _ (f (m'.drop _) m'.popped))
      rw [← h.drop.sp, ← h.popped htop, h.drop _ hbelow]
      exact h.drop.write _ _

namespace StackProgram

/-- A cell that is reached through a register is the one found there. -/
theorem mem_basedCell {p : StackProgram} {m : Ram} {segment : Segment} {index : Nat}
    (hbased : p.basedCell m segment index ≠ []) {cell : Word}
    (hcell : p.cell? m segment index = some cell) : cell ∈ p.basedCell m segment index := by
  cases segment with
  | locals | argument | this | that =>
      simp only [basedCell, hcell]
      exact List.mem_cons_self
  | temp | pointer | static | constant => exact absurd rfl hbased

section
variable {p : StackProgram} {m m' : Ram} (h : Agree m m')
include h

theorem cell?_agree (segment : Segment) (index : Nat) :
    p.cell? m segment index = p.cell? m' segment index := by
  unfold cell?
  rw [h.lcl, h.arg, h.this, h.that]

theorem basedCell_agree (segment : Segment) (index : Nat) :
    p.basedCell m segment index = p.basedCell m' segment index := by
  cases segment with
  | locals | argument | this | that => simp only [basedCell, cell?_agree h]
  | temp | pointer | static | constant => rfl

/-- What a command reaches does not depend on the scratch cells. -/
theorem reachOf_agree (c : Command) : p.reachOf m c = p.reachOf m' c := by
  cases c with
  | arithmetic op =>
      show op.operator.reach m = op.operator.reach m'
      unfold Operator.reach
      rw [h.sp]
  | push segment index | pop segment index => simp only [reachOf, h.sp, basedCell_agree h]
  | label name | goto name => rfl
  | ifGoto name | function name count | call name count => simp only [reachOf, h.sp]
  | ret => simp only [reachOf, h.sp, h.arg, h.lcl]

theorem clear_agree {index : Nat} (hclear : p.Clear ⟨index, m⟩) : p.Clear ⟨index, m'⟩ := by
  unfold Clear reach at hclear ⊢
  split
  next ho => simpa only [ho] using hclear
  next ho => simpa only [ho] using hclear
  next line c ho =>
    simp only [ho] at hclear
    rwa [← reachOf_agree h]

theorem value_agree {segment : Segment} {index : Nat}
    (hcell : ∀ cell, p.cell? m segment index = some cell → ¬ IsScratch cell) :
    p.value m segment index = p.value m' segment index := by
  unfold value
  rw [← cell?_agree h]
  cases hc : p.cell? m segment index with
  | none => rfl
  | some cell => exact h cell (hcell cell hc)

/-- **A command that keeps off the scratch does the same on agreeing memories.** -/
theorem execute_agree {index : Nat} {c : Command}
    (hclear : ∀ a ∈ p.reachOf m c, ¬ IsScratch a)
    (hcell : ∀ segment i cell, c.cell? = some (segment, i) → p.cell? m segment i = some cell →
      ¬ IsScratch cell)
    {t : StackState} (ht : p.execute index m c = some t) :
    ∃ r, p.execute index m' c = some ⟨t.index, r⟩ ∧ Agree t.ram r := by
  cases c with
  | arithmetic op =>
      cases ht
      exact ⟨_, rfl, op.operator.apply_agree h hclear⟩
  | push segment i =>
      cases ht
      refine ⟨_, rfl, ?_⟩
      rw [value_agree h fun cell hc => hcell segment i cell rfl hc]
      exact h.push _
  | pop segment i =>
      obtain ⟨cell, hc, rfl⟩ := Option.map_eq_some_iff.mp ht
      refine ⟨m'.drop.write cell m'.popped, ?_, ?_⟩
      · exact Option.map_eq_some_iff.mpr ⟨cell, (cell?_agree h segment i).symm.trans hc, rfl⟩
      · rw [← h.popped (hclear _ List.mem_cons_self)]
        exact h.drop.write _ _
  | label name =>
      cases ht
      exact ⟨_, rfl, h⟩
  | goto name =>
      obtain ⟨j, hj, rfl⟩ := Option.map_eq_some_iff.mp ht
      exact ⟨m', Option.map_eq_some_iff.mpr ⟨j, hj, rfl⟩, h⟩
  | ifGoto name =>
      -- both memories take the same branch
      have hpopped := h.popped (hclear _ List.mem_cons_self)
      simp only [execute, ← hpopped] at ht ⊢
      by_cases hzero : m.popped = 0#16
      · rw [if_pos hzero] at ht ⊢
        cases ht
        exact ⟨_, rfl, h.drop⟩
      · rw [if_neg hzero] at ht ⊢
        obtain ⟨j, hj, rfl⟩ := Option.map_eq_some_iff.mp ht
        exact ⟨m'.drop, Option.map_eq_some_iff.mpr ⟨j, hj, rfl⟩, h.drop⟩
  | function name locals =>
      cases ht
      exact ⟨_, rfl, h.pushZeros locals⟩
  | call name args =>
      obtain ⟨j, hj, rfl⟩ := Option.map_eq_some_iff.mp ht
      exact ⟨_, Option.map_eq_some_iff.mpr ⟨j, hj, rfl⟩, h.called _ args⟩
  | ret =>
      have hframe : ∀ k, 1 ≤ k → k ≤ frameSize → ¬ IsScratch (m Reg.lcl - BitVec.ofNat 16 k) :=
        fun k hk hk' => hclear _ (List.mem_cons_of_mem _
          (List.mem_cons_of_mem _ (sub_mem_cellsFrom _ hk hk')))
      obtain ⟨j, hj, rfl⟩ := Option.map_eq_some_iff.mp ht
      rw [h.returnAddress (hframe 5 (by decide) (by decide))] at hj
      refine ⟨_, Option.map_eq_some_iff.mpr ⟨j, hj, rfl⟩, ?_⟩
      exact h.returned (hclear _ List.mem_cons_self)
        fun k hk hk' => hframe k hk (Nat.le_succ_of_le hk')

/-- **A clear step does the same on agreeing memories.** -/
theorem step_agree (hfixed : p.FixedClear) {index : Nat} (hclear : p.Clear ⟨index, m⟩)
    {t : StackState} (ht : p.step ⟨index, m⟩ = some t) :
    ∃ r, p.step ⟨index, m'⟩ = some ⟨t.index, r⟩ ∧ Agree t.ram r := by
  unfold step at ht ⊢
  unfold Clear reach at hclear
  cases ho : p.origins[index]? with
  | none => simp [ho] at ht
  | some o =>
      cases o with
      | bootstrap =>
          simp only [ho] at ht ⊢
          obtain ⟨j, hj, rfl⟩ := Option.map_eq_some_iff.mp ht
          refine ⟨_, Option.map_eq_some_iff.mpr ⟨j, hj, rfl⟩, ?_⟩
          exact (h.write Reg.sp _).called _ 0
      | command line c =>
          simp only [ho] at ht hclear ⊢
          have hoff : ∀ a ∈ p.reachOf m c, ¬ IsScratch a := fun a ha => (hclear a ha).2
          refine execute_agree h hoff ?_ ht
          intro segment i cell hc hcell
          -- a cell is reached through a register, or it is fixed
          by_cases hbased : p.basedCell m segment i = []
          · exact (hfixed line c segment i m cell (List.mem_of_getElem? ho) hc hbased hcell).1
          · have hmem := mem_basedCell hbased hcell
            apply hoff
            cases c with
            | push s k | pop s k =>
                cases hc
                exact List.mem_cons_of_mem _ hmem
            | arithmetic | label | goto | ifGoto | function | call | ret => cases hc

end

end StackProgram

end Vm

end HackPlatform
