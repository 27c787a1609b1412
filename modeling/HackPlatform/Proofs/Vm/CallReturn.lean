/-
  HackPlatform.Proofs.Vm.CallReturn
  ────────────────────────────────
  **A RETURN GIVES THE CALLER BACK WHAT IT HAD, HOWEVER DEEP THE CALLS BETWEEN.**

  A call leaves five words on the stack and moves `LCL` and `ARG`.  Between it and
  its return every other call has its own return, the registers `THIS` and `THAT`
  may be moved at will, and only the words of active frames have to be spared.
  Then `LCL` and `ARG` are back whenever a call has returned, and so each return
  finds its own frame.  A call without arguments gets its result where its return
  address was, which the return has read by then.

      writesOf              the cells that a command writes
      Balanced              runs in which every call has returned
      Keeps                 what they leave alone
      Frame, Returned       after a call, after its return

  Main result: `balanced_returned`.
-/
import HackPlatform.Proofs.Vm.Agreement

namespace HackPlatform

open Asm (Word)

namespace Vm

open StackProgram (cellsFrom)

/-! ## §1. Values on the stack. -/

theorem mem_cellsFrom_of_le {a base : Word} {n k : Nat} (hnk : n ≤ k) (h : a ∈ cellsFrom base n) :
    a ∈ cellsFrom base k := by
  obtain ⟨i, hi, rfl⟩ := mem_cellsFrom.mp h
  exact mem_cellsFrom.mpr ⟨i, by omega, rfl⟩

theorem top_mem_cellsFrom (base : Word) (n : Nat) :
    base + BitVec.ofNat 16 n ∈ cellsFrom base (n + 1) :=
  mem_cellsFrom.mpr ⟨n, Nat.lt_succ_self n, rfl⟩

theorem cellsFrom_succ (base : Word) (n : Nat) :
    cellsFrom base (n + 1) = base :: cellsFrom (base + 1#16) n := by
  unfold cellsFrom
  rw [List.range_succ_eq_map, List.map_cons, List.map_map]
  congr 1
  · bv_omega
  · apply List.map_congr_left
    intro i _
    show base + BitVec.ofNat 16 (i + 1) = base + 1#16 + BitVec.ofNat 16 i
    bv_omega

/-- Values lie one above the other from where `SP` was, and nothing else has changed. -/
structure Pushed (m : Ram) (values : List Word) (m' : Ram) : Prop where
  /-- `SP` points above them. -/
  sp : m' Reg.sp = m Reg.sp + BitVec.ofNat 16 values.length
  /-- Each is in its cell. -/
  cells : ∀ i v, values[i]? = some v → m' (m Reg.sp + BitVec.ofNat 16 i) = v
  /-- The other cells are as before. -/
  others : ∀ a, a ≠ Reg.sp → a ∉ cellsFrom (m Reg.sp) values.length → m' a = m a

theorem Pushed.nil (m : Ram) : Pushed m [] m where
  sp := (BitVec.add_zero _).symm
  cells _ _ h := by cases h
  others _ _ _ := rfl

theorem Pushed.push {m m' : Ram} {values : List Word} (h : Pushed m values m')
    (hlen : values.length < 65536)
    (hroom : Reg.sp ∉ cellsFrom (m Reg.sp) (values.length + 1)) (v : Word) :
    Pushed m (values ++ [v]) (m'.push v) := by
  have hmem : m' Reg.sp ∈ cellsFrom (m Reg.sp) (values.length + 1) := by
    rw [h.sp]
    exact top_mem_cellsFrom _ _
  have htop : m' Reg.sp ≠ Reg.sp := by
    intro he
    rw [he] at hmem
    exact hroom hmem
  refine ⟨?_, ?_, ?_⟩
  · rw [Ram.push_sp htop, h.sp, List.length_append, List.length_singleton]
    bv_omega
  · intro i w hi
    by_cases hlast : i < values.length
    · rw [List.getElem?_append_left hlast] at hi
      have hsp : m Reg.sp + BitVec.ofNat 16 i ≠ Reg.sp := by
        intro he
        exact hroom (mem_cellsFrom.mpr ⟨i, by omega, he⟩)
      -- the new cell lies above those of the values before
      have hother : m Reg.sp + BitVec.ofNat 16 i ≠ m' Reg.sp := by
        rw [h.sp]
        bv_omega
      rw [Ram.push_other hsp hother, h.cells i w hi]
    · rw [List.getElem?_append_right (by omega), List.getElem?_singleton] at hi
      obtain ⟨hlen', hw⟩ := Option.ite_none_right_eq_some.mp hi
      have hi' : i = values.length := by omega
      rw [hi', ← h.sp, Ram.push_top htop]
      exact Option.some.inj hw
  · intro a ha hcells
    rw [List.length_append, List.length_singleton] at hcells
    have hother : a ≠ m' Reg.sp := by
      intro he
      exact hcells (he ▸ hmem)
    rw [Ram.push_other ha hother]
    exact h.others a ha fun hmem => hcells (mem_cellsFrom_of_le (Nat.le_succ _) hmem)

theorem pushZeros_other {m : Ram} {n : Nat} (hroom : Reg.sp ∉ cellsFrom (m Reg.sp) n) {a : Word}
    (ha : a ≠ Reg.sp) (hcells : a ∉ cellsFrom (m Reg.sp) n) : m.pushZeros n a = m a := by
  induction n generalizing m with
  | zero => rfl
  | succ n ih =>
      rw [cellsFrom_succ, List.mem_cons, not_or] at hroom hcells
      have hsp : m.push 0#16 Reg.sp = m Reg.sp + 1#16 := Ram.push_sp (Ne.symm hroom.1) _
      rw [← hsp] at hroom hcells
      exact (ih hroom.2 hcells.2).trans (Ram.push_other ha hcells.1 _)

/-! ## §2. Frames. -/

/-- The words that a call saves. -/
def savedWords (m : Ram) (ret : Word) : List Word :=
  [ret, m Reg.lcl, m Reg.arg, m Reg.this, m Reg.that]

/-- The frame of a call from memory `m₀` is in place. -/
structure Frame (m₀ : Ram) (ret : Word) (args : Nat) (m : Ram) : Prop where
  /-- The locals lie above the frame. -/
  lcl : m Reg.lcl = m₀ Reg.sp + 5#16
  /-- The arguments lie below it. -/
  arg : m Reg.arg = m₀ Reg.sp - BitVec.ofNat 16 args
  /-- The frame itself. -/
  words : ∀ i v, (savedWords m₀ ret)[i]? = some v → m (m₀ Reg.sp + BitVec.ofNat 16 i) = v

/-- What a caller finds after the return. -/
structure Returned (m₀ : Ram) (args : Nat) (result : Word) (m : Ram) : Prop where
  /-- Its locals. -/
  lcl : m Reg.lcl = m₀ Reg.lcl
  /-- Its arguments. -/
  arg : m Reg.arg = m₀ Reg.arg
  /-- Its `this`. -/
  this : m Reg.this = m₀ Reg.this
  /-- Its `that`. -/
  that : m Reg.that = m₀ Reg.that
  /-- One value has taken the place of the arguments. -/
  sp : m Reg.sp = m₀ Reg.sp - BitVec.ofNat 16 args + 1#16
  /-- It is the result. -/
  result : m (m₀ Reg.sp - BitVec.ofNat 16 args) = result

theorem Returned.agree {m₀ m m' : Ram} {args : Nat} {result : Word}
    (h : Returned m₀ args result m) (hagree : Agree m m')
    (hcell : ¬ IsScratch (m₀ Reg.sp - BitVec.ofNat 16 args)) : Returned m₀ args result m' where
  lcl := hagree.lcl.symm.trans h.lcl
  arg := hagree.arg.symm.trans h.arg
  this := hagree.this.symm.trans h.this
  that := hagree.that.symm.trans h.that
  sp := hagree.sp.symm.trans h.sp
  result := (hagree _ hcell).symm.trans h.result

/-- The cells of a list lie above the registers. -/
def AboveRegisters (cells : List Word) : Prop := ∀ a ∈ cells, 16 ≤ a.toNat

theorem AboveRegisters.not_mem {cells : List Word} (h : AboveRegisters cells) {a : Word}
    (ha : a.toNat < 16) : a ∉ cells := by
  intro hmem
  have := h a hmem
  omega

section
variable {m₀ m : Ram} {ret : Word} {args : Nat}
  (hroom : AboveRegisters (cellsFrom (m₀ Reg.sp) frameSize))
include hroom

theorem not_mem_cellsFrom {n : Nat} (hn : n ≤ frameSize) {a : Word} (ha : a.toNat < 16) :
    a ∉ cellsFrom (m₀ Reg.sp) n :=
  fun hmem => hroom.not_mem ha (mem_cellsFrom_of_le hn hmem)

/-- A register is pushed with the value it had before anything was. -/
theorem Pushed.register {m' : Ram} {values : List Word} (h : Pushed m₀ values m')
    (hlen : values.length < frameSize) (register : Word) (hsp : register ≠ Reg.sp)
    (hlow : register.toNat < 16) : Pushed m₀ (values ++ [m₀ register]) (m'.pushCell register) := by
  unfold frameSize at hlen
  unfold Ram.pushCell
  rw [h.others register hsp (not_mem_cellsFrom hroom (Nat.le_of_lt hlen) hlow)]
  exact h.push (by omega) (not_mem_cellsFrom hroom hlen (by decide)) _

theorem pushed_saved (ret : Word) : Pushed m₀ (savedWords m₀ ret) (m₀.saved ret) := by
  have hret : Pushed m₀ [ret] (m₀.push ret) :=
    (Pushed.nil m₀).push (by decide) (not_mem_cellsFrom hroom (by decide) (by decide)) ret
  have hlcl := hret.register hroom (show 1 < 5 by decide) Reg.lcl (by decide) (by decide)
  have harg := hlcl.register hroom (show 2 < 5 by decide) Reg.arg (by decide) (by decide)
  have hthis := harg.register hroom (show 3 < 5 by decide) Reg.this (by decide) (by decide)
  exact hthis.register hroom (show 4 < 5 by decide) Reg.that (by decide) (by decide)

/-- A call puts its frame in place. -/
theorem frame_called (ret : Word) (args : Nat) : Frame m₀ ret args (m₀.called ret args) := by
  have hsaved := pushed_saved hroom ret
  have hsp : m₀.saved ret Reg.sp = m₀ Reg.sp + 5#16 := hsaved.sp
  refine ⟨?_, ?_, ?_⟩
  · rw [Ram.called_lcl, hsp]
  · rw [Ram.called_arg, hsp]
    unfold frameSize
    bv_omega
  · intro i v hi
    have hlt : i < frameSize := (List.getElem?_eq_some_iff.mp hi).1
    have hcell : 16 ≤ (m₀ Reg.sp + BitVec.ofNat 16 i).toNat :=
      hroom _ (mem_cellsFrom.mpr ⟨i, hlt, rfl⟩)
    have hlcl : m₀ Reg.sp + BitVec.ofNat 16 i ≠ Reg.lcl := by bv_omega
    have harg : m₀ Reg.sp + BitVec.ofNat 16 i ≠ Reg.arg := by bv_omega
    rw [Ram.called_other hlcl harg, hsaved.cells i v hi]

/-- **A return takes the frame down**, if its result spares the saved registers. -/
theorem Frame.returned (h : Frame m₀ ret args m) (harg : 16 ≤ (m Reg.arg).toNat)
    (hspared : m Reg.arg ∉ cellsFrom (m₀ Reg.sp + 1#16) 4) :
    m.returnAddress = ret ∧ Returned m₀ args m.popped m.returned := by
  -- the words of the frame, counted down from `LCL`
  have hword : ∀ k, 1 ≤ k → k ≤ frameSize →
      m Reg.lcl - BitVec.ofNat 16 k = m₀ Reg.sp + BitVec.ofNat 16 (5 - k) := by
    intro k hk hk'
    unfold frameSize at hk'
    rw [h.lcl]
    bv_omega
  have hframe : ∀ k, 1 ≤ k → k ≤ frameSize → 16 ≤ (m Reg.lcl - BitVec.ofNat 16 k).toNat := by
    intro k hk hk'
    rw [hword k hk hk']
    unfold frameSize at hk'
    exact hroom _ (mem_cellsFrom.mpr ⟨5 - k, by unfold frameSize; omega, rfl⟩)
  -- the result leaves the saved registers alone
  have hsaved : ∀ k, 1 ≤ k → k ≤ 4 → ∀ v, (savedWords m₀ ret)[5 - k]? = some v →
      m.answered (m Reg.lcl - BitVec.ofNat 16 k) = v := by
    intro k hk hk' v hv
    have hlow := hframe k hk (Nat.le_succ_of_le hk')
    have hsp : m Reg.lcl - BitVec.ofNat 16 k ≠ Reg.sp := by bv_omega
    have hother : m Reg.lcl - BitVec.ofNat 16 k ≠ m Reg.arg := by
      intro he
      apply hspared
      rw [← he, hword k hk (Nat.le_succ_of_le hk')]
      exact mem_cellsFrom.mpr ⟨4 - k, by omega, by bv_omega⟩
    rw [Ram.answered_other hsp hother, hword k hk (Nat.le_succ_of_le hk')]
    exact h.words _ _ hv
  obtain ⟨hthat, hthis, harg', hlcl⟩ := Ram.restored_registers (m := m.answered)
    fun k hk hk' => hframe k hk (Nat.le_succ_of_le hk')
  refine ⟨?_, hlcl.trans ?_, harg'.trans ?_, hthis.trans ?_, hthat.trans ?_, ?_, ?_⟩
  · show m (m Reg.lcl - 5#16) = ret
    rw [hword 5 (by decide) (by decide)]
    exact h.words 0 ret rfl
  · exact hsaved 4 (by decide) (by decide) _ rfl
  · exact hsaved 3 (by decide) (by decide) _ rfl
  · exact hsaved 2 (by decide) (by decide) _ rfl
  · exact hsaved 1 (by decide) (by decide) _ rfl
  · have hne : m Reg.arg ≠ Reg.arg := by bv_omega
    unfold Ram.returned
    rw [Ram.restored_other (by decide) (by decide) (by decide) (by decide), Ram.answered_sp hne,
      h.arg]
  · have hsp : m Reg.arg ≠ Reg.sp := by bv_omega
    unfold Ram.returned
    rw [← h.arg, Ram.restored_other (by bv_omega) (by bv_omega) (by bv_omega) (by bv_omega),
      Ram.answered_result hsp]

end

/-! ## §3. What a command writes. -/

/-- The cells that an operator writes. -/
def Operator.writes (m : Ram) : Operator → List Word
  | unary _ => [m Reg.sp - 1#16]
  | binary _ => [Reg.sp, m Reg.sp - 2#16]

/-- A command that neither calls nor returns. -/
def Command.isLocal : Command → Bool
  | .call _ _ | .ret => false
  | _ => true

namespace StackProgram

variable (p : StackProgram)

/-- The cells that a command writes. -/
def writesOf (m : Ram) : Command → List Word
  | .arithmetic op => op.operator.writes m
  | .push _ _ => [Reg.sp, m Reg.sp]
  | .pop segment i => Reg.sp :: (p.cell? m segment i).toList
  | .label _ | .goto _ => []
  | .ifGoto _ => [Reg.sp]
  | .function _ locals => Reg.sp :: cellsFrom (m Reg.sp) locals
  | .call _ _ => Reg.sp :: Reg.lcl :: Reg.arg :: cellsFrom (m Reg.sp) frameSize
  | .ret => [m Reg.arg, Reg.sp, Reg.lcl, Reg.arg, Reg.this, Reg.that]

variable {p}

theorem apply_other {m : Ram} {op : Operator} {a : Word} (ha : a ∉ op.writes m) :
    op.apply m a = m a := by
  cases op with
  | unary f => exact Ram.write_other _ _ (List.ne_of_not_mem_cons ha)
  | binary f =>
      have hsp : a ≠ Reg.sp := List.ne_of_not_mem_cons ha
      have htop : a ≠ m.drop Reg.sp - 1#16 := by
        rw [Ram.drop_sp]
        have := List.ne_of_not_mem_cons (List.not_mem_of_not_mem_cons ha)
        bv_omega
      exact (Ram.write_other _ _ htop).trans (Ram.drop_other _ hsp)

theorem returned_other {m : Ram} {a : Word} (ha : a ∉ p.writesOf m .ret) :
    m.returned a = m a := by
  simp only [writesOf, List.mem_cons, List.not_mem_nil, or_false, not_or] at ha
  obtain ⟨hresult, hsp, hlcl, harg, hthis, hthat⟩ := ha
  exact (Ram.restored_other hthat hthis harg hlcl).trans (Ram.answered_other hsp hresult)

/-- **A command leaves the cells alone that it does not write.** -/
theorem execute_other {index : Nat} {m : Ram} {c : Command}
    (hreach : AboveRegisters (p.reachOf m c)) {t : StackState}
    (ht : p.execute index m c = some t) {a : Word} (ha : a ∉ p.writesOf m c) :
    t.ram a = m a := by
  cases c with
  | arithmetic op =>
      cases ht
      exact apply_other ha
  | push segment i =>
      cases ht
      have hsp : a ≠ Reg.sp := List.ne_of_not_mem_cons ha
      exact Ram.push_other hsp (List.ne_of_not_mem_cons (List.not_mem_of_not_mem_cons ha)) _
  | pop segment i =>
      obtain ⟨cell, hcell, rfl⟩ := Option.map_eq_some_iff.mp ht
      have hsp : a ≠ Reg.sp := List.ne_of_not_mem_cons ha
      have hother : a ≠ cell := by
        rintro rfl
        exact ha (List.mem_cons_of_mem _ (Option.mem_toList.mpr hcell))
      exact (Ram.write_other _ _ hother).trans (Ram.drop_other _ hsp)
  | label name =>
      cases ht
      rfl
  | goto name =>
      obtain ⟨j, hj, rfl⟩ := Option.map_eq_some_iff.mp ht
      rfl
  | ifGoto name =>
      have hsp : a ≠ Reg.sp := List.ne_of_not_mem_cons ha
      have hdrop : t.ram = m.drop := by
        simp only [execute] at ht
        split at ht
        · cases ht
          rfl
        · obtain ⟨j, hj, rfl⟩ := Option.map_eq_some_iff.mp ht
          rfl
      rw [hdrop, Ram.drop_other _ hsp]
  | function name locals =>
      cases ht
      have hsp : a ≠ Reg.sp := List.ne_of_not_mem_cons ha
      exact pushZeros_other (hreach.not_mem (by decide)) hsp (List.not_mem_of_not_mem_cons ha)
  | call name args =>
      obtain ⟨j, hj, rfl⟩ := Option.map_eq_some_iff.mp ht
      simp only [writesOf, List.mem_cons, not_or] at ha
      obtain ⟨hsp, hlcl, harg, hcells⟩ := ha
      show m.called _ args a = m a
      rw [Ram.called_other hlcl harg]
      exact (pushed_saved hreach _).others a hsp hcells
  | ret =>
      obtain ⟨j, hj, rfl⟩ := Option.map_eq_some_iff.mp ht
      exact returned_other ha

/-- Local commands write where they reach; else they write `SP` or a cell of their own. -/
theorem mem_writesOf_local {m : Ram} {c : Command} (hlocal : c.isLocal = true) {a : Word}
    (ha : a ∈ p.writesOf m c) : a = Reg.sp ∨ a ∈ p.reachOf m c
      ∨ ∃ segment i, c.cell? = some (segment, i) ∧ p.basedCell m segment i = []
          ∧ p.cell? m segment i = some a := by
  cases c with
  | arithmetic op =>
      replace ha : a ∈ op.operator.writes m := ha
      show _ ∨ a ∈ op.operator.reach m ∨ _
      cases hop : op.operator with
      | unary f =>
          rw [hop] at ha
          exact .inr (.inl ha)
      | binary f =>
          rw [hop] at ha
          exact (List.mem_cons.mp ha).imp_right fun h => .inl (List.mem_cons_of_mem _ h)
  | push segment i =>
      refine (List.mem_cons.mp ha).imp_right fun h => .inl ?_
      rw [List.mem_singleton.mp h]
      exact List.mem_cons_self
  | pop segment i =>
      refine (List.mem_cons.mp ha).imp_right fun h => ?_
      have hcell : p.cell? m segment i = some a := Option.mem_toList.mp h
      by_cases hbased : p.basedCell m segment i = []
      · exact .inr ⟨segment, i, rfl, hbased, hcell⟩
      · exact .inl (List.mem_cons_of_mem _ (mem_basedCell hbased hcell))
  | label | goto => cases ha
  | ifGoto name => exact .inl (List.mem_singleton.mp ha)
  | function name locals => exact (List.mem_cons.mp ha).imp_right .inl
  | call | ret => cases hlocal

/-! ## §4. Balanced runs. -/

variable (p)

/-- The next command reaches nothing below the stack through the registers. -/
def Safe (s : StackState) : Prop := AboveRegisters (p.reach s)

/-- A command writes no word of the frames that start at these addresses. -/
def Spares (frames : List Word) (m : Ram) (c : Command) : Prop :=
  ∀ frame ∈ frames, ∀ a ∈ cellsFrom frame frameSize, a ∉ p.writesOf m c

/-- A command within a function, with the active frames. -/
structure Within (frames : List Word) (s : StackState) (c : Command) : Prop where
  /-- It is the next one. -/
  command : p.command? s.index = some c
  /-- What it reaches lies in the stack or above. -/
  safe : p.Safe s
  /-- It spares the frames. -/
  spares : p.Spares frames s.ram c

/-- A return from the frame at an address, to the other active frames. -/
structure Leaves (own : Word) (frames : List Word) (s : StackState) : Prop
    extends p.Within frames s .ret where
  /-- The result spares the saved registers; it may take the place of the return address. -/
  kept : ∀ a ∈ cellsFrom (own + 1#16) 4, a ∉ p.writesOf s.ram .ret

/-- Runs in which every call has its return, with the frames that are active meanwhile. -/
inductive Balanced : List Word → StackState → StackState → Prop where
  /-- No step. -/
  | refl (frames : List Word) (s : StackState) : Balanced frames s s
  /-- A command that neither calls nor returns. -/
  | inside {frames : List Word} {s t u : StackState} {c : Command} (hlocal : c.isLocal = true)
      (within : p.Within frames s c) (step : p.step s = some t) (rest : Balanced frames t u) :
      Balanced frames s u
  /-- A call, a balanced run of the function, and its return. -/
  | call {frames : List Word} {s t u v w : StackState} {name : String} {args : Nat}
      (enters : p.Within frames s (.call name args)) (enter : p.step s = some t)
      (run : Balanced (s.ram Reg.sp :: frames) t u) (leaves : p.Leaves (s.ram Reg.sp) frames u)
      (leave : p.step u = some v) (rest : Balanced frames v w) : Balanced frames s w

/-- One memory has of another the running function and the words of frames. -/
structure Keeps (frames : List Word) (m m' : Ram) : Prop where
  /-- The locals are where they were. -/
  lcl : m' Reg.lcl = m Reg.lcl
  /-- The arguments are where they were. -/
  arg : m' Reg.arg = m Reg.arg
  /-- The frames are as they were. -/
  words : ∀ frame ∈ frames, ∀ a ∈ cellsFrom frame frameSize, m' a = m a

variable {p}

theorem Keeps.refl (frames : List Word) (m : Ram) : Keeps frames m m :=
  ⟨rfl, rfl, fun _ _ _ _ => rfl⟩

theorem Keeps.trans {frames : List Word} {m m' m'' : Ram} (h : Keeps frames m m')
    (h' : Keeps frames m' m'') : Keeps frames m m'' :=
  ⟨h'.lcl.trans h.lcl, h'.arg.trans h.arg,
    fun frame hframe a ha => (h'.words frame hframe a ha).trans (h.words frame hframe a ha)⟩

/-- What is kept of the memory just after a call keeps the frame in place. -/
theorem Keeps.frame {m₀ m m' : Ram} {ret : Word} {args : Nat} {frames : List Word}
    (h : Keeps (m₀ Reg.sp :: frames) m m') (hframe : Frame m₀ ret args m) :
    Frame m₀ ret args m' := by
  refine ⟨h.lcl.trans hframe.lcl, h.arg.trans hframe.arg, ?_⟩
  intro i v hi
  have hlt : i < frameSize := (List.getElem?_eq_some_iff.mp hi).1
  rw [h.words _ List.mem_cons_self _ (mem_cellsFrom.mpr ⟨i, hlt, rfl⟩)]
  exact hframe.words i v hi

theorem origin_of_command {index : Nat} {c : Command} (h : p.command? index = some c) :
    ∃ line, p.origins[index]? = some (.command line c) := by
  obtain ⟨o, ho, hc⟩ := Option.bind_eq_some_iff.mp h
  cases o with
  | bootstrap => cases hc
  | command line c' =>
      cases hc
      exact ⟨line, ho⟩

section
variable {s : StackState} {c : Command} (hcommand : p.command? s.index = some c)
include hcommand

theorem step_of_command : p.step s = p.execute s.index s.ram c := by
  obtain ⟨line, ho⟩ := origin_of_command hcommand
  unfold step
  rw [ho]

theorem reach_of_command : p.reach s = p.reachOf s.ram c := by
  obtain ⟨line, ho⟩ := origin_of_command hcommand
  unfold reach
  rw [ho]

end

section
variable {frames : List Word} {s t : StackState} {c : Command} (h : p.Within frames s c)
include h

theorem Within.aboveRegisters : AboveRegisters (p.reachOf s.ram c) := by
  rw [← reach_of_command h.command]
  exact h.safe

theorem Within.other (hstep : p.step s = some t) {a : Word} (ha : a ∉ p.writesOf s.ram c) :
    t.ram a = s.ram a := by
  rw [step_of_command h.command] at hstep
  exact execute_other h.aboveRegisters hstep ha

theorem Within.frameWords (hstep : p.step s = some t) :
    ∀ frame ∈ frames, ∀ a ∈ cellsFrom frame frameSize, t.ram a = s.ram a :=
  fun frame hframe a ha => h.other hstep (h.spares frame hframe a ha)

/-- **A local command keeps the running function and the frames.** -/
theorem Within.keeps (hfixed : p.FixedClear) (hlocal : c.isLocal = true)
    (hstep : p.step s = some t) : Keeps frames s.ram t.ram := by
  obtain ⟨line, ho⟩ := origin_of_command h.command
  -- `SP`, a cell reached through a register, or one that lies fixed: never `LCL` or `ARG`
  have hoff : ∀ a ∈ p.writesOf s.ram c, a ≠ Reg.lcl ∧ a ≠ Reg.arg := by
    intro a ha
    rcases mem_writesOf_local hlocal ha with rfl | hreach | ⟨segment, i, hc, hbased, hcell⟩
    · decide
    · have := h.aboveRegisters a hreach
      constructor <;> bv_omega
    · exact (hfixed line c segment i _ a (List.mem_of_getElem? ho) hc hbased hcell).2
  refine ⟨h.other hstep ?_, h.other hstep ?_, h.frameWords hstep⟩
  · exact fun hmem => (hoff _ hmem).1 rfl
  · exact fun hmem => (hoff _ hmem).2 rfl

end

/-- A call leaves the callee with its frame in place. -/
theorem Within.frame {frames : List Word} {s t : StackState} {name : String} {args : Nat}
    (h : p.Within frames s (.call name args)) (hstep : p.step s = some t) :
    Frame s.ram (BitVec.ofNat 16 (p.rom (s.index + 1))) args t.ram := by
  rw [step_of_command h.command] at hstep
  obtain ⟨j, hj, rfl⟩ := Option.map_eq_some_iff.mp hstep
  exact frame_called h.aboveRegisters _ args

theorem Leaves.above_top {own : Word} {frames : List Word} {u : StackState}
    (h : p.Leaves own frames u) : 16 ≤ (u.ram Reg.sp - 1#16).toNat :=
  h.toWithin.aboveRegisters _ List.mem_cons_self

theorem Leaves.above_arg {own : Word} {frames : List Word} {u : StackState}
    (h : p.Leaves own frames u) : 16 ≤ (u.ram Reg.arg).toNat :=
  h.toWithin.aboveRegisters _ (List.mem_cons_of_mem _ List.mem_cons_self)

/-- A return from a frame that is in place gives the caller back what it had. -/
theorem Leaves.returned {frames : List Word} {m₀ : Ram} {ret : Word} {args : Nat}
    {u v : StackState} (h : p.Leaves (m₀ Reg.sp) frames u)
    (hroom : AboveRegisters (cellsFrom (m₀ Reg.sp) frameSize)) (hframe : Frame m₀ ret args u.ram)
    (hstep : p.step u = some v) :
    p.indexAt? ret.toNat = some v.index ∧ Returned m₀ args u.ram.popped v.ram := by
  rw [step_of_command h.command] at hstep
  obtain ⟨j, hj, rfl⟩ := Option.map_eq_some_iff.mp hstep
  have hspared : u.ram Reg.arg ∉ cellsFrom (m₀ Reg.sp + 1#16) 4 :=
    fun hmem => h.kept _ hmem List.mem_cons_self
  obtain ⟨hret, hreturned⟩ := hframe.returned hroom h.above_arg hspared
  exact ⟨hret ▸ hj, hreturned⟩

/-- **A balanced run keeps the running function and the frames.** -/
theorem Balanced.keeps (hfixed : p.FixedClear) {frames : List Word} {s t : StackState}
    (h : p.Balanced frames s t) : Keeps frames s.ram t.ram := by
  induction h with
  | refl frames s => exact .refl frames _
  | inside hlocal hwithin hstep _ ih => exact (hwithin.keeps hfixed hlocal hstep).trans ih
  | call henters henter _ hleaves hleave _ ihrun ihrest =>
      refine Keeps.trans ?_ ihrest
      -- the callee's frame is still in place at the return
      have hframe := ihrun.frame (henters.frame henter)
      have hreturned := (hleaves.returned henters.aboveRegisters hframe hleave).2
      refine ⟨hreturned.lcl, hreturned.arg, ?_⟩
      intro frame hmem a ha
      rw [hleaves.toWithin.frameWords hleave frame hmem a ha,
        ihrun.words frame (List.mem_cons_of_mem _ hmem) a ha,
        henters.frameWords henter frame hmem a ha]

/-- **A call and its return are symmetric.**  After a call, a balanced run and the return
that is then met, the caller goes on behind its call, with its registers as they were and
the result in place of the arguments. -/
theorem balanced_returned (hfixed : p.FixedClear) {frames : List Word} {s t u : StackState}
    {name : String} {args : Nat} (henters : p.Within frames s (.call name args))
    (henter : p.step s = some t) (hrun : p.Balanced (s.ram Reg.sp :: frames) t u)
    (hleaves : p.Leaves (s.ram Reg.sp) frames u) (hrom : p.rom (s.index + 1) < 65536) :
    ∃ v, p.step u = some v ∧ p.rom v.index = p.rom (s.index + 1)
      ∧ 16 ≤ (s.ram Reg.sp - BitVec.ofNat 16 args).toNat
      ∧ Returned s.ram args u.ram.popped v.ram := by
  have hframe := (hrun.keeps hfixed).frame (henters.frame henter)
  -- the return address is the first word of the frame, and still there
  have hret : u.ram.returnAddress = BitVec.ofNat 16 (p.rom (s.index + 1)) := by
    show u.ram (u.ram Reg.lcl - 5#16) = _
    rw [hframe.lcl, BitVec.add_sub_cancel, ← hframe.words 0 _ rfl]
    exact congrArg u.ram (BitVec.add_zero _).symm
  have haddress : u.ram.returnAddress.toNat = p.rom (s.index + 1) := by
    rw [hret, BitVec.toNat_ofNat, Nat.mod_eq_of_lt hrom]
  obtain ⟨j, hj⟩ := exists_indexAt (lt_of_step henter) haddress.symm
  have hstep : p.step u = some ⟨j, u.ram.returned⟩ := by
    rw [step_of_command hleaves.command]
    exact Option.map_eq_some_iff.mpr ⟨j, hj, rfl⟩
  refine ⟨_, hstep, (rom_of_indexAt? hj).trans haddress, ?_, ?_⟩
  · rw [← hframe.arg]
    exact hleaves.above_arg
  · exact (hleaves.returned henters.aboveRegisters hframe hstep).2

/-! ## §5. Balanced runs are clear runs. -/

theorem not_isScratch_of_le {a : Word} (ha : 16 ≤ a.toNat) : ¬ IsScratch a := by
  unfold IsScratch
  bv_omega

theorem Within.clear {frames : List Word} {s : StackState} {c : Command}
    (h : p.Within frames s c) : p.Clear s := by
  intro a ha
  have hlow : 16 ≤ a.toNat := h.safe a ha
  exact ⟨by bv_omega, not_isScratch_of_le hlow⟩

theorem Runs.trans {n k : Nat} {s t u : StackState} (h : p.Runs n s t) (h' : p.Runs k t u) :
    p.Runs (n + k) s u := by
  induction h with
  | refl s => rwa [Nat.zero_add]
  | step hclear hstep _ ih =>
      rw [Nat.add_right_comm]
      exact .step hclear hstep (ih h')

theorem Runs.one {s t : StackState} (hclear : p.Clear s) (hstep : p.step s = some t) :
    p.Runs 1 s t :=
  .step hclear hstep (.refl t)

theorem Balanced.runs {frames : List Word} {s t : StackState} (h : p.Balanced frames s t) :
    ∃ n, p.Runs n s t := by
  induction h with
  | refl frames s => exact ⟨0, .refl s⟩
  | inside _ hwithin hstep _ ih =>
      obtain ⟨n, hn⟩ := ih
      exact ⟨n + 1, .step hwithin.clear hstep hn⟩
  | call henters henter _ hleaves hleave _ ihrun ihrest =>
      obtain ⟨n, hn⟩ := ihrun
      obtain ⟨k, hk⟩ := ihrest
      have hthere := (Runs.one henters.clear henter).trans hn
      have hback := (Runs.one hleaves.toWithin.clear hleave).trans hk
      exact ⟨_, hthere.trans hback⟩

variable (p)

-- by the lists of cells, not by all words
instance (s : StackState) : Decidable (p.Safe s) :=
  List.decidableBAll (fun a : Word => 16 ≤ a.toNat) (p.reach s)

/-- Whether no cell of one list is in another. -/
abbrev decidableSpared (cells written : List Word) : Decidable (∀ a ∈ cells, a ∉ written) :=
  List.decidableBAll (fun a => a ∉ written) cells

instance (frames : List Word) (m : Ram) (c : Command) : Decidable (p.Spares frames m c) :=
  @List.decidableBAll _ _ (fun frame => decidableSpared (cellsFrom frame frameSize) _) frames

instance (frames : List Word) (s : StackState) (c : Command) : Decidable (p.Within frames s c) :=
  decidable_of_iff (p.command? s.index = some c ∧ p.Safe s ∧ p.Spares frames s.ram c)
    ⟨fun h => ⟨h.1, h.2.1, h.2.2⟩, fun h => ⟨h.command, h.safe, h.spares⟩⟩

instance (own : Word) (frames : List Word) (s : StackState) : Decidable (p.Leaves own frames s) :=
  haveI := decidableSpared (cellsFrom (own + 1#16) 4) (p.writesOf s.ram .ret)
  decidable_of_iff (p.Within frames s .ret
      ∧ ∀ a ∈ cellsFrom (own + 1#16) 4, a ∉ p.writesOf s.ram .ret)
    ⟨fun h => ⟨h.1, h.2⟩, fun h => ⟨h.toWithin, h.kept⟩⟩

/-- Run to the first return that has no call, if what is run is balanced. -/
def toReturn : Nat → List Word → StackState → Option StackState
  | 0, _, _ => none
  | n + 1, frames, s =>
      match p.command? s.index with
      | none => none
      | some c =>
          if c = .ret then some s
          else if p.Within frames s c then
            (p.step s).bind fun t =>
              if c.isLocal then toReturn n frames t
              else (toReturn n (s.ram Reg.sp :: frames) t).bind fun u =>
                if p.Leaves (s.ram Reg.sp) frames u then (p.step u).bind (toReturn n frames)
                else none
          else none

variable {p}

/-- Balanced runs can be computed. -/
theorem balanced_of_toReturn {n : Nat} {frames : List Word} {s u : StackState}
    (h : p.toReturn n frames s = some u) : p.Balanced frames s u := by
  -- on the number of steps, for the function that is called and for what follows alike
  induction n generalizing frames s u with
  | zero => cases h
  | succ n ih =>
      unfold toReturn at h
      split at h
      next => cases h
      next c hc =>
        by_cases hret : c = .ret
        · rw [if_pos hret] at h
          cases h
          exact .refl _ _
        · rw [if_neg hret] at h
          obtain ⟨hwithin, h⟩ := Option.ite_none_right_eq_some.mp h
          obtain ⟨t, hstep, h⟩ := Option.bind_eq_some_iff.mp h
          by_cases hlocal : c.isLocal = true
          · rw [if_pos hlocal] at h
            exact .inside hlocal hwithin hstep (ih h)
          · rw [if_neg hlocal] at h
            obtain ⟨r, hrun, h⟩ := Option.bind_eq_some_iff.mp h
            obtain ⟨hleaves, h⟩ := Option.ite_none_right_eq_some.mp h
            obtain ⟨v, hleave, hrest⟩ := Option.bind_eq_some_iff.mp h
            cases c with
            | call name args => exact .call hwithin hstep (ih hrun) hleaves hleave (ih hrest)
            | ret => exact absurd rfl hret
            | arithmetic | push | pop | label | goto | ifGoto | function => exact absurd rfl hlocal

end StackProgram

end Vm

end HackPlatform
