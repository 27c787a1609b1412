/-
  HackPlatform.Proofs.Vm.Placement
  ────────────────────────────────
  **WHERE THE CODE OF A COMMAND LIES, AND WHAT ITS SYMBOLS STAND FOR.**

  Once the text of a lowered file is assembled, the fragment of each command lies
  in ROM behind the fragments before it, and each of its labels has the address
  that it stands at.  So a jump to a label of the same function, a call and a
  return address all lead to the start of a fragment.

      Placed         code lies in ROM from an address on
      romOf          where the fragment at an index starts
      stackProgram   the commands of a lowered and assembled file
      Installed      all that the simulation needs to know of the assembly

  Main result: `installed`.
-/
import HackPlatform.Proofs.Asm.Lockstep
import HackPlatform.Proofs.Vm.Listing

namespace HackPlatform.Vm

open Asm

/-! ## §1. Code in ROM. -/

/-- The room that an instruction takes in ROM. -/
def width (i : Instruction) : Nat := if i.isLabel then 0 else 1

/-- The room that code takes in ROM. -/
def romSize : List Instruction → Nat
  | [] => 0
  | i :: code => width i + romSize code

@[simp] theorem romSize_nil : romSize [] = 0 := rfl

@[simp] theorem romSize_cons (i : Instruction) (code : List Instruction) :
    romSize (i :: code) = width i + romSize code := rfl

@[simp] theorem romSize_append (code more : List Instruction) :
    romSize (code ++ more) = romSize code + romSize more := by
  induction code with
  | nil => exact (Nat.zero_add _).symm
  | cons i code ih => rw [List.cons_append, romSize_cons, romSize_cons, ih, Nat.add_assoc]

/-- An instruction lies at an address; a label has the address as its value. -/
def StandsAt (asm : Assembly) (pc : Nat) : Instruction → Prop
  | .label name => isReserved name = false → asm.table.lookup name = some pc
  | i => ∃ line, asm.statements[pc]? = some ⟨line, i⟩

/-- Code lies in ROM from an address on. -/
def Placed (asm : Assembly) : Nat → List Instruction → Prop
  | _, [] => True
  | pc, i :: code => StandsAt asm pc i ∧ Placed asm (pc + width i) code

theorem placed_append {asm : Assembly} {pc : Nat} {code more : List Instruction} :
    Placed asm pc (code ++ more) ↔ Placed asm pc code ∧ Placed asm (pc + romSize code) more := by
  induction code generalizing pc with
  | nil => exact (iff_of_eq (true_and _)).symm
  | cons i code ih =>
      show StandsAt asm pc i ∧ Placed asm _ (code ++ more) ↔ (StandsAt asm pc i ∧ _) ∧ _
      rw [ih, romSize_cons, Nat.add_assoc, and_assoc]

/-- What passes a filter stands behind those that passed before it. -/
theorem getElem?_filter_countP {α : Type} {p : α → Bool} {x : α} (hp : p x = true) :
    ∀ {items : List α} {k : Nat}, items[k]? = some x →
      (items.filter p)[(items.take k).countP p]? = some x
  | [], _, h => by simp at h
  | y :: items, 0, h => by
      cases h
      rw [List.filter_cons_of_pos hp]
      rfl
  | y :: items, k + 1, h => by
      have hrest : items[k]? = some x := h
      have ih := getElem?_filter_countP hp hrest
      rw [List.take_succ_cons, List.countP_cons]
      by_cases hy : p y = true
      · rw [List.filter_cons_of_pos hy, if_pos hy, List.getElem?_cons_succ, ih]
      · rw [List.filter_cons_of_neg hy, if_neg hy, Nat.add_zero, ih]

theorem codeSize_eq_romSize (program : List Statement) :
    codeSize program = romSize (program.map (·.instruction)) := by
  induction program with
  | nil => rfl
  | cons s program ih =>
      unfold codeSize at ih ⊢
      rw [List.countP_cons, ih, List.map_cons, romSize_cons, Nat.add_comm]
      unfold Statement.isCode width
      cases s.instruction.isLabel <;> rfl

/-- Every instruction of an assembled program stands behind those before it. -/
theorem standsAt_of_assembled {program : List Statement} {asm : Assembly}
    (h : Assembled program asm) {before after : List Instruction} {i : Instruction}
    (hsplit : program.map (·.instruction) = before ++ i :: after) :
    StandsAt asm (romSize before) i := by
  have hat : (program.map (·.instruction))[before.length]? = some i := by
    rw [hsplit, List.getElem?_append_right (Nat.le_refl _), Nat.sub_self, List.getElem?_cons_zero]
  rw [List.getElem?_map] at hat
  obtain ⟨s, hs, hi⟩ := Option.map_eq_some_iff.mp hat
  obtain ⟨line, i'⟩ := s
  cases hi
  -- labels before it take no room
  have hsize : codeSize (program.take before.length) = romSize before := by
    rw [codeSize_eq_romSize, List.map_take, hsplit, List.take_left]
  cases hinstruction : i' with
  | label name =>
      intro hname
      rw [h.labels before.length line name (hinstruction ▸ hs) hname, hsize]
  | address operand | compute dest comp jump =>
      subst hinstruction
      refine ⟨line, ?_⟩
      rw [h.statements, ← hsize]
      exact getElem?_filter_countP rfl hs

theorem placed_of_assembled {program : List Statement} {asm : Assembly}
    (h : Assembled program asm) {code : List Instruction} :
    ∀ {before after : List Instruction},
      program.map (·.instruction) = before ++ code ++ after → Placed asm (romSize before) code := by
  induction code with
  | nil => exact fun _ => trivial
  | cons i code ih =>
      intro before after hsplit
      have hhead : program.map (·.instruction) = before ++ i :: (code ++ after) := by
        rw [hsplit, List.append_assoc, List.cons_append]
      have htail : program.map (·.instruction) = (before ++ [i]) ++ code ++ after := by
        rw [hhead, List.append_assoc, List.append_assoc, List.singleton_append]
      have hrest := ih htail
      rw [romSize_append, romSize_cons, romSize_nil, Nat.add_zero] at hrest
      exact ⟨standsAt_of_assembled h hhead, hrest⟩

/-! ## §2. Fragments in ROM. -/

/-- The ROM address at which the fragment at an index starts. -/
def romOf (fragments : List Fragment) (index : Nat) : Nat :=
  romSize ((fragments.take index).flatMap (·.code))

theorem romOf_succ {fragments : List Fragment} {i : Nat} {f : Fragment}
    (h : fragments[i]? = some f) :
    romOf fragments (i + 1) = romOf fragments i + romSize f.code := by
  unfold romOf
  rw [List.take_add_one, h, List.flatMap_append, romSize_append]
  simp

/-- The fragment at an index has its place between those before and those behind it. -/
theorem flatMap_code_split {fragments : List Fragment} {i : Nat} {f : Fragment}
    (h : fragments[i]? = some f) :
    fragments.flatMap (·.code) = (fragments.take i).flatMap (·.code) ++ f.code
      ++ (fragments.drop (i + 1)).flatMap (·.code) := by
  conv_lhs => rw [eq_take_cons_drop h]
  rw [List.flatMap_append, List.flatMap_cons, List.append_assoc]

/-! ## §3. The assembly of a lowered file. -/

/-- The commands of a lowered file, with statics and fragments where its assembly has
them. -/
def stackProgram (file : String) (l : Lowered) (asm : Assembly) : StackProgram where
  origins := l.fragments.map (·.origin)
  static i := BitVec.ofNat 16
    ((asm.table.lookup ((Scope.start (toSymbol file)).staticSymbol i)).getD 0)
  rom := romOf l.fragments

/-- The origins of a lowered file. -/
def Lowered.origins (l : Lowered) : List Origin := l.fragments.map (·.origin)

/-- Where the command at an index stands. -/
def Lowered.scope (l : Lowered) (file : String) (index : Nat) : Scope :=
  scopeAfter (toSymbol file) ((l.fragments.take index).map (·.origin))

/-- The assembly of a lowered file, as the commands see it. -/
structure Installed (file : String) (l : Lowered) (asm : Assembly) : Prop where
  /-- Each fragment is what its command is lowered to. -/
  lowers : ∀ i f, l.fragments[i]? = some f → (l.scope file i).Lowers f
  /-- It lies in ROM behind those before it. -/
  placed : ∀ i f, l.fragments[i]? = some f → Placed asm (romOf l.fragments i) f.code
  /-- Nothing follows the last one. -/
  length : romOf l.fragments l.fragments.length = asm.words.length
  /-- The words do what the statements say. -/
  step : ∀ s, Cpu.step asm.words s = stepStatements asm.table asm.statements s
  /-- Platform symbols have their values. -/
  platform : ∀ name v, reservedSymbols.lookup name = some v → asm.table.lookup name = some v
  /-- Whatever is loaded has a value. -/
  loaded : ∀ name, load name ∈ l.code → ∃ v, asm.table.lookup name = some v
  /-- A name that is loaded and is no label is a variable. -/
  allocated : ∀ name, isReserved name = false → .label name ∉ l.code → load name ∈ l.code →
    ∃ v, asm.table.lookup name = some v ∧ variableBase ≤ v
  /-- Values fit in 15 bits. -/
  small : ∀ name v, asm.table.lookup name = some v → v ≤ maxAddress

/-- A name that is loaded, and that nothing else gives a value, is a variable. -/
theorem mem_variableReferences {program : List Statement} {name : String}
    (hname : isReserved name = false) (hlabel : .label name ∉ program.map (·.instruction))
    (hload : load name ∈ program.map (·.instruction)) : name ∈ variableReferences program := by
  have hlab : hasLabel program name = false := by
    rw [← Bool.not_eq_true]
    intro hlab
    obtain ⟨s, hs, he⟩ := List.any_eq_true.mp hlab
    exact hlabel (List.mem_map.mpr ⟨s, hs, beq_iff_eq.mp he⟩)
  obtain ⟨s, hs, he⟩ := List.mem_map.mp hload
  have hr : s.reference? = some name := by
    unfold Statement.reference?
    rw [he]
    rfl
  refine List.mem_filter.mpr ⟨List.mem_filterMap.mpr ⟨s, hs, hr⟩, ?_⟩
  rw [hname, hlab]
  rfl

theorem lookup_variable {program : List Statement} {asm : Assembly} (h : Assembled program asm)
    {name : String} (hmem : name ∈ variableReferences program) :
    asm.table.lookup name = some (variableAddress program name) := by
  obtain ⟨-, hfree⟩ := List.mem_filter.mp hmem
  rw [Bool.and_eq_true, Bool.not_eq_true', Bool.not_eq_true', isReserved_eq_false_iff] at hfree
  rw [h.values]
  unfold declaredValue
  rw [hfree.1, hfree.2, if_pos hmem]
  rfl

theorem exists_variable {program : List Statement} {asm : Assembly} (h : Assembled program asm)
    {name : String} (hname : isReserved name = false)
    (hlabel : .label name ∉ program.map (·.instruction))
    (hload : load name ∈ program.map (·.instruction)) :
    ∃ v, asm.table.lookup name = some v ∧ variableBase ≤ v :=
  ⟨_, lookup_variable h (mem_variableReferences hname hlabel hload), Nat.le_add_right _ _⟩

/-- The platform's symbols keep their values. -/
theorem lookup_of_reserved {program : List Statement} {asm : Assembly} (h : Assembled program asm)
    {name : String} {v : Nat} (hv : reservedSymbols.lookup name = some v) :
    asm.table.lookup name = some v := by
  rw [h.values]
  unfold declaredValue
  rw [hv]

theorem exists_value {program : List Statement} {asm : Assembly} (h : Assembled program asm)
    {name : String} (hload : load name ∈ program.map (·.instruction)) :
    ∃ v, asm.table.lookup name = some v := by
  -- a name that is loaded is a label, a platform symbol or a variable
  by_cases hlabel : .label name ∈ program.map (·.instruction)
  · obtain ⟨s, hs, he⟩ := List.mem_map.mp hlabel
    have hlab : hasLabel program name = true :=
      List.any_eq_true.mpr ⟨s, hs, beq_iff_eq.mpr he⟩
    rw [h.values]
    unfold declaredValue
    cases reservedSymbols.lookup name with
    | some v => exact ⟨v, rfl⟩
    | none => exact ⟨_, if_pos hlab⟩
  · cases hname : isReserved name with
    | true =>
        obtain ⟨v, hv⟩ := (isReserved_iff name).mp hname
        exact ⟨v, lookup_of_reserved h hv⟩
    | false =>
        obtain ⟨v, hv, -⟩ := exists_variable h hname hlabel hload
        exact ⟨v, hv⟩

/-- **The text of a lowered file, once assembled, is installed.** -/
theorem installed {file : String} {options : Options} {lines : List SourceLine} {l : Lowered}
    (hl : lowerFile file options lines = .ok l) {asm : Assembly}
    (ha : assemble (SourceLine.ofText l.text) = .ok asm) : Installed file l asm := by
  obtain ⟨program, hcode, hasm⟩ := assembled_of_text hl ha
  refine ⟨lowers_of_lowerFile hl, ?_, ?_, step_eq_step ha, ?_, ?_, ?_, hasm.small⟩
  · intro i f hf
    exact placed_of_assembled hasm (hcode.trans (flatMap_code_split hf))
  -- one word for each statement, and labels are no statements
  · have hwords : asm.words.length = asm.statements.length := (map_some_eq_map hasm.words).1
    rw [hwords, hasm.statements, ← List.countP_eq_length_filter]
    unfold romOf
    rw [List.take_length]
    exact (hcode ▸ codeSize_eq_romSize program).symm
  · intro name v hv
    exact lookup_of_reserved hasm hv
  · intro name hload
    exact exists_value hasm (hcode ▸ hload)
  · intro name hname hlabel hload
    exact exists_variable hasm hname (hcode ▸ hlabel) (hcode ▸ hload)

/-! ## §4. What generated names stand for. -/

theorem isReserved_labelSymbol (s : Scope) (name : String) :
    isReserved (s.labelSymbol name) = false := by
  apply isReserved_eq_false_of_mem (c := '$') _ (.inl rfl)
  simp [Scope.labelSymbol, String.toList_append]

theorem isReserved_returnSymbol (s : Scope) : isReserved s.returnSymbol = false := by
  apply isReserved_eq_false_of_mem (c := '$') _ (.inl rfl)
  simp [Scope.returnSymbol, String.toList_append]

theorem mem_compareSymbol (s : Scope) : '.' ∈ s.compareSymbol.toList := by
  simp [Scope.compareSymbol, String.toList_append]

theorem isReserved_compareSymbol (s : Scope) : isReserved s.compareSymbol = false :=
  isReserved_eq_false_of_mem (mem_compareSymbol s) (.inr rfl)

theorem isReserved_staticSymbol (s : Scope) (index : Nat) :
    isReserved (s.staticSymbol index) = false := by
  apply isReserved_eq_false_of_mem (c := '.') _ (.inr rfl)
  simp [Scope.staticSymbol, String.toList_append]

theorem scopeAfter_file (file : String) (origins : List Origin) :
    (scopeAfter file origins).file = file := by
  induction origins using List.reverseRecOn with
  | nil => rfl
  | append_singleton origins o ih => rw [scopeAfter_append, Scope.pass_file, ih]

/-- The function that a scope names is the last one entered. -/
theorem scopeAfter_function (file : String) (origins : List Origin) :
    (scopeAfter file origins).function = (origins.filterMap Origin.function?).getLast? := by
  induction origins using List.reverseRecOn with
  | nil => rfl
  | append_singleton origins o ih =>
      rw [scopeAfter_append, Scope.pass_function, ih, List.filterMap_append]
      cases ho : o.function? with
      | none => rw [List.filterMap_cons_none ho, List.filterMap_nil, List.append_nil]; rfl
      | some name => rw [List.filterMap_cons_some ho, List.filterMap_nil, List.getLast?_concat]; rfl

theorem scope_function (l : Lowered) (file : String) (i : Nat) :
    (l.scope file i).function = enclosing l.origins i := by
  unfold Lowered.scope Lowered.origins enclosing
  rw [scopeAfter_function, List.map_take]

/-- Commands of the same function give a label the same symbol. -/
theorem labelSymbol_eq {l : Lowered} {file : String} {i j : Nat}
    (h : enclosing l.origins i = enclosing l.origins j) (name : String) :
    (l.scope file i).labelSymbol name = (l.scope file j).labelSymbol name := by
  have hfile : (l.scope file i).file = (l.scope file j).file := by
    unfold Lowered.scope
    rw [scopeAfter_file, scopeAfter_file]
  have hfunction : (l.scope file i).function = (l.scope file j).function := by
    rw [scope_function, scope_function, h]
  unfold Scope.labelSymbol Scope.owner
  rw [hfile, hfunction]

/-- A label behind some code has the address where the code ends. -/
theorem lookup_of_placed {asm : Assembly} {pc : Nat} {code more : List Instruction}
    {name : String} (h : Placed asm pc (code ++ .label name :: more))
    (hname : isReserved name = false) : asm.table.lookup name = some (pc + romSize code) :=
  (placed_append.mp h).2.1 hname

section
variable {file : String} {l : Lowered} {asm : Assembly}

theorem fragment_of_origin {i : Nat} {o : Origin} (h : l.origins[i]? = some o) :
    ∃ f, l.fragments[i]? = some f ∧ f.origin = o := by
  unfold Lowered.origins at h
  rw [List.getElem?_map] at h
  exact Option.map_eq_some_iff.mp h

/-- The fragment of a command is what it is lowered to where it stands. -/
theorem code_eq {i line : Nat} {c : Command} {code code' : List Instruction}
    (hf : l.fragments[i]? = some ⟨.command line c, code⟩) (h : Installed file l asm)
    (hcode : (l.scope file i).code c = .ok code') : code = code' := by
  have hlowers : (l.scope file i).code c = .ok code := (h.lowers i _ hf).2
  exact Except.ok.inj (hlowers.symm.trans hcode)

variable (h : Installed file l asm)
include h

theorem fragment_of_command {i line : Nat} {c : Command}
    (hi : l.origins[i]? = some (.command line c)) {code : List Instruction}
    (hcode : (l.scope file i).code c = .ok code) :
    l.fragments[i]? = some ⟨.command line c, code⟩ := by
  obtain ⟨⟨origin, code'⟩, hf, rfl⟩ := fragment_of_origin hi
  rw [hf, code_eq hf h hcode]

/-- A label leads to the fragment of its definition, from everywhere in the same function. -/
theorem lookup_label {i j line : Nat} {name : String}
    (hj : l.origins[j]? = some (.command line (.label name)))
    (hsame : enclosing l.origins j = enclosing l.origins i) :
    asm.table.lookup ((l.scope file i).labelSymbol name) = some (romOf l.fragments j) := by
  have hf := fragment_of_command h hj rfl
  have hplaced := h.placed j _ hf
  rw [labelSymbol_eq hsame.symm]
  exact hplaced.1 (isReserved_labelSymbol _ _)

/-- A label that is found leads to the fragment of its definition. -/
theorem lookup_labelSymbol {i j : Nat} {name : String}
    (hj : (stackProgram file l asm).labelIndex? i name = some j) :
    asm.table.lookup ((l.scope file i).labelSymbol name) = some (romOf l.fragments j) := by
  have hfound := List.find?_some hj
  rw [Bool.and_eq_true, beq_iff_eq, beq_iff_eq] at hfound
  obtain ⟨hcommand, hsame⟩ := hfound
  obtain ⟨o, ho, hc⟩ := Option.bind_eq_some_iff.mp hcommand
  cases o with
  | bootstrap => cases hc
  | command line c => cases hc; exact lookup_label h ho hsame

/-- A function's name leads to the fragment of its definition. -/
theorem lookup_entry {j : Nat} {o : Origin} {name : String} (hname : isReserved name = false)
    (hj : l.origins[j]? = some o) (hentry : o.function? = some name) :
    asm.table.lookup name = some (romOf l.fragments j) := by
  cases o with
  | bootstrap => cases hentry
  | command line c =>
      cases c with
      | function n locals =>
          cases hentry
          have hplaced := h.placed j _ (fragment_of_command h hj rfl)
          exact hplaced.1 hname
      | arithmetic | push | pop | label | goto | ifGoto | call | ret => cases hentry

/-- A function that is found leads to the fragment of its definition. -/
theorem lookup_function {j : Nat} {name : String} (hname : isReserved name = false)
    (hj : (stackProgram file l asm).functionIndex? name = some j) :
    asm.table.lookup name = some (romOf l.fragments j) := by
  have hfound := List.find?_some hj
  rw [beq_iff_eq] at hfound
  obtain ⟨o, ho, hfun⟩ := Option.bind_eq_some_iff.mp hfound
  exact lookup_entry h hname ho hfun

/-- A label that ends a fragment leads to the next one. -/
theorem lookup_end {i : Nat} {f : Fragment} (hf : l.fragments[i]? = some f)
    {code : List Instruction} {name : String} (hcode : f.code = code ++ [.label name])
    (hname : isReserved name = false) :
    asm.table.lookup name = some (romOf l.fragments (i + 1)) := by
  have hplaced := h.placed i f hf
  rw [hcode] at hplaced
  rw [lookup_of_placed hplaced hname, romOf_succ hf, hcode, romSize_append]
  rfl

omit h in
/-- The symbol of a static is the same in the whole file. -/
theorem staticSymbol_scope (i index : Nat) : (l.scope file i).staticSymbol index
    = (Scope.start (toSymbol file)).staticSymbol index := by
  unfold Scope.staticSymbol Lowered.scope
  rw [scopeAfter_file]
  rfl

/-- A static that a command uses is loaded by its fragment. -/
theorem load_static_mem {i line : Nat} {c : Command} {index : Nat}
    (hi : l.origins[i]? = some (.command line c)) (hcell : c.cell? = some (.static, index)) :
    load ((Scope.start (toSymbol file)).staticSymbol index) ∈ l.code := by
  rw [← staticSymbol_scope i]
  cases c with
  | push segment k =>
      cases hcell
      have hf := fragment_of_command h hi rfl
      exact List.mem_flatMap.mpr ⟨_, List.mem_of_getElem? hf, List.mem_cons_self⟩
  | pop segment k =>
      cases hcell
      have hf := fragment_of_command h hi rfl
      exact List.mem_flatMap.mpr
        ⟨_, List.mem_of_getElem? hf, List.mem_append_right popD List.mem_cons_self⟩
  | arithmetic | label | goto | ifGoto | function | call | ret => cases hcell

/-- A static that is used, and is no label, has a cell above the registers. -/
theorem lookup_staticSymbol {i : Nat} {f : Fragment} (hf : l.fragments[i]? = some f)
    {line : Nat} {c : Command} (horigin : f.origin = .command line c) {index : Nat}
    (hcell : c.cell? = some (.static, index))
    (hlabel : .label ((Scope.start (toSymbol file)).staticSymbol index) ∉ l.code) :
    ∃ v, asm.table.lookup ((l.scope file i).staticSymbol index) = some v ∧ variableBase ≤ v
      ∧ (stackProgram file l asm).static index = BitVec.ofNat 16 v := by
  have hi : l.origins[i]? = some (.command line c) := by
    unfold Lowered.origins
    rw [List.getElem?_map, hf, Option.map_some, horigin]
  obtain ⟨v, hv, hle⟩ :=
    h.allocated _ (isReserved_staticSymbol _ _) hlabel (load_static_mem h hi hcell)
  refine ⟨v, by rw [staticSymbol_scope, hv], hle, ?_⟩
  show BitVec.ofNat 16 ((asm.table.lookup _).getD 0) = _
  rw [hv]
  rfl

end

end HackPlatform.Vm
