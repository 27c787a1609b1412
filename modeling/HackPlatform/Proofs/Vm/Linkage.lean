/-
  HackPlatform.Proofs.Vm.Linkage
  ────────────────────────────────
  **WHAT THE SYMBOLS OF GENERATED CODE RESOLVE TO.**

  Five families of names share one table with the platform's symbols.  Read off the
  words in ROM, each still stands for what the commands mean by it: a call loads the
  start of its function, a jump the place of its label, a return address and the
  target of a comparison lie behind their fragments, and the static variables have
  RAM cells of their own.

  Two families are not kept apart from what a program may define.  A function can be
  named like a platform symbol, and a call then loads the platform's value.  A label
  can be named like a static variable, and the variable then has the address of the
  label for its cell.

      LoadsThen   two words: a number is loaded, and something is done with it
      OwnStatic   a static variable whose name is no label
      Linked      what the commands of a file load

  Main result: `lowered_linked`.
-/
import HackPlatform.Proofs.Vm.Labels
import HackPlatform.Proofs.Vm.Frames

namespace HackPlatform.Vm

open Asm
open SourceLine (ofText)

/-! ## §1. Words in ROM. -/

/-- At an address a number is loaded, and the word behind is that of an instruction. -/
structure LoadsThen (asm : Assembly) (pc value : Nat) (next : Instruction) : Prop where
  /-- The number fits in a word. -/
  fits : value ≤ maxAddress
  /-- The first word loads it. -/
  loads : asm.words[pc]? = some (.address value)
  /-- The second word is that of the instruction. -/
  next : asm.words[pc + 1]? = next.word? asm.table

/-- An instruction that stands in ROM stands there as its word. -/
theorem word_of_standsAt {program : List Statement} {asm : Assembly} (h : Assembled program asm)
    {pc : Nat} {i : Instruction} (hi : i.isLabel = false) (hat : StandsAt asm pc i) :
    asm.words[pc]? = i.word? asm.table := by
  have hline : ∃ line, asm.statements[pc]? = some ⟨line, i⟩ := by
    cases i with
    | label name => cases hi
    | address operand | compute dest comp jump => exact hat
  obtain ⟨line, hline⟩ := hline
  have hwords : (asm.words.map some)[pc]? = some (i.word? asm.table) := by
    rw [h.words, List.getElem?_map, hline]
    rfl
  rw [List.getElem?_map] at hwords
  obtain ⟨w, hw, hsame⟩ := Option.map_eq_some_iff.mp hwords
  rw [hw, hsame]

/-- Variables are told apart by their addresses. -/
theorem variable_eq_of_lookup {program : List Statement} {asm : Assembly}
    (h : Assembled program asm) {name name' : String}
    (hmem : name ∈ variableReferences program) (hmem' : name' ∈ variableReferences program)
    (hsame : asm.table.lookup name = asm.table.lookup name') : name = name' := by
  rw [lookup_variable h hmem, lookup_variable h hmem'] at hsame
  exact variableAddress_inj hmem hmem' (Option.some.inj hsame)

/-! ## §2. What the commands of a file load. -/

/-- The symbol of a static variable of a file. -/
def staticName (file : String) (index : Nat) : String :=
  (Scope.start (toSymbol file)).staticSymbol index

/-- A static variable that is used, and whose symbol is no label. -/
structure OwnStatic (file : String) (l : Lowered) (index : Nat) : Prop where
  /-- A command uses it. -/
  used : ∃ o ∈ l.origins, o.static? = some index
  /-- No label is named like it. -/
  unlabelled : .label (staticName file index) ∉ l.code

/-- The instructions of an origin before the return address of its call. -/
def Origin.prologue : Origin → Nat
  | bootstrap => 4
  | command _ _ => 0

/-- What the commands of a file load in ROM. -/
structure Linked (file : String) (l : Lowered) (asm : Assembly) : Prop where
  /-- The last two words of a call, or of the start-up, load the address at which the function
  starts, wherever it is defined, and jump. -/
  calls : ∀ i j caller callee name, l.origins[i]? = some caller → caller.callee? = some name →
    l.origins[j]? = some callee → callee.function? = some name → isReserved name = false →
      LoadsThen asm (romOf l.fragments (i + 1) - 2) (romOf l.fragments j) goNow
  /-- So do the words of a `goto`, with the address of the label in the same function. -/
  gotos : ∀ i j line line' name, l.origins[i]? = some (.command line (.goto name)) →
    l.origins[j]? = some (.command line' (.label name)) →
    enclosing l.origins j = enclosing l.origins i →
      LoadsThen asm (romOf l.fragments (i + 1) - 2) (romOf l.fragments j) goNow
  /-- And the last two of an `if-goto`, where the jump depends on D. -/
  branches : ∀ i j line line' name, l.origins[i]? = some (.command line (.ifGoto name)) →
    l.origins[j]? = some (.command line' (.label name)) →
    enclosing l.origins j = enclosing l.origins i →
      LoadsThen asm (romOf l.fragments (i + 1) - 2) (romOf l.fragments j) (goIfD .ne)
  /-- The first seven words of a call push the address behind its fragment. -/
  returns : ∀ i caller, l.origins[i]? = some caller → caller.callee?.isSome →
    romOf l.fragments (i + 1) ≤ maxAddress
      ∧ ∀ s : Cpu, s.pc = romOf l.fragments i + caller.prologue →
          runFor (Cpu.step asm.words) 7 s = some ⟨Reg.sp, BitVec.ofNat 16 (romOf l.fragments (i + 1)),
            s.ram.push (BitVec.ofNat 16 (romOf l.fragments (i + 1))), s.pc + 7⟩
  /-- A comparison jumps behind its fragment. -/
  comparisons : ∀ i line op jump, l.origins[i]? = some (.command line (.arithmetic op)) →
    op.shape = .compare jump →
      LoadsThen asm (romOf l.fragments i + 6) (romOf l.fragments (i + 1)) (goIfD jump)
  /-- A static variable is left for a variable: it has a RAM cell, and all commands that use it
  load the address of that cell. -/
  statics : ∀ index, OwnStatic file l index → ∃ a, variableBase ≤ a
    ∧ staticName file index ∈ openSymbols l.code
    ∧ asm.table.lookup (staticName file index) = some a
    ∧ (∀ i line, l.origins[i]? = some (.command line (.push .static index)) →
        LoadsThen asm (romOf l.fragments i) a (intoD (.y .m)))
    ∧ ∀ i line, l.origins[i]? = some (.command line (.pop .static index)) →
        LoadsThen asm (romOf l.fragments (i + 1) - 2) a (intoM .d)
  /-- Different static variables have different cells. -/
  apart : ∀ index index', OwnStatic file l index → OwnStatic file l index' →
    asm.table.lookup (staticName file index) = asm.table.lookup (staticName file index') →
      index = index'

/-! ## §3. One fragment. -/

section
variable {file : String} {l : Lowered} {asm : Assembly} {program : List Statement}
  (h : Installed file l asm) (hasm : Assembled program asm)
include h hasm

/-- A symbol that a fragment loads is loaded in ROM, behind the words before it. -/
theorem loadsThen_of_code {i : Nat} {f : Fragment} (hf : l.fragments[i]? = some f)
    {before after : List Instruction} {name : String} {next : Instruction}
    (hcode : f.code = before ++ load name :: next :: after) (hnext : next.isLabel = false)
    {v : Nat} (hv : asm.table.lookup name = some v) :
    LoadsThen asm (romOf l.fragments i + romSize before) v next := by
  have hplaced := h.placed i f hf
  rw [hcode, placed_append] at hplaced
  obtain ⟨-, hload, hthen, -⟩ := hplaced
  have hword := word_of_standsAt hasm rfl hload
  refine ⟨hasm.small name v hv, ?_, word_of_standsAt hasm hnext hthen⟩
  rw [hword]
  show (asm.table.lookup name).map Word.address = _
  rw [hv]
  rfl

/-- The same, where only labels follow. -/
theorem loadsThen_end {i : Nat} {f : Fragment} (hf : l.fragments[i]? = some f)
    {before after : List Instruction} {name : String} {next : Instruction}
    (hcode : f.code = before ++ load name :: next :: after) (hnext : next.isLabel = false)
    (hafter : romSize after = 0) {v : Nat} (hv : asm.table.lookup name = some v) :
    LoadsThen asm (romOf l.fragments (i + 1) - 2) v next := by
  have hloads := loadsThen_of_code h hasm hf hcode hnext hv
  have hwidth : width (load name) = 1 := rfl
  have hwidth' : width next = 1 := by
    unfold width
    rw [hnext]
    rfl
  have hend : romOf l.fragments (i + 1) = romOf l.fragments i + romSize before + 2 := by
    rw [romOf_succ hf, hcode, romSize_append, romSize_cons, romSize_cons, hafter]
    omega
  rw [hend, Nat.add_sub_cancel]
  exact hloads

end

section
variable {file : String} {l : Lowered} {asm : Assembly} (h : Installed file l asm)
include h

/-- The fragment of an origin that calls is a call, behind its prologue. -/
theorem exists_call {i : Nat} {caller : Origin} (hi : l.origins[i]? = some caller) {name : String}
    (hcall : caller.callee? = some name) :
    ∃ f prologue args, l.fragments[i]? = some f ∧ romSize prologue = caller.prologue
      ∧ f.code = prologue ++ callCode name args (l.scope file i).returnSymbol := by
  cases caller with
  | bootstrap =>
      cases hcall
      obtain ⟨⟨origin, code⟩, hf, rfl⟩ := fragment_of_origin hi
      have hcode : code = (l.scope file i).bootstrap.1 := h.lowers i _ hf
      exact ⟨_, [loadNumber Scope.stackBase, intoD (.y .a), load "SP", intoM .d], 0, hf, rfl, hcode⟩
  | command line c =>
      cases c with
      | call n args =>
          cases hcall
          exact ⟨_, [], args, fragment_of_command h hi rfl, rfl, rfl⟩
      | arithmetic | push | pop | label | goto | ifGoto | function | ret => cases hcall

/-- The label behind a call leads to the next fragment. -/
theorem lookup_return {i : Nat} {f : Fragment} (hf : l.fragments[i]? = some f)
    {prologue : List Instruction} {args : Nat} {name : String}
    (hcode : f.code = prologue ++ callCode name args (l.scope file i).returnSymbol) :
    asm.table.lookup (l.scope file i).returnSymbol = some (romOf l.fragments (i + 1)) := by
  have hend : f.code = (prologue ++ (callSetup name args (l.scope file i).returnSymbol
      ++ [goNow])) ++ [.label (l.scope file i).returnSymbol] := by
    rw [hcode, List.append_assoc]
    rfl
  exact lookup_end h hf hend (isReserved_returnSymbol _)

/-- The CPU pushes the return address. -/
theorem run_pushReturn {i : Nat} {f : Fragment} (hf : l.fragments[i]? = some f)
    {prologue : List Instruction} {args : Nat} {name : String}
    (hcode : f.code = prologue ++ callCode name args (l.scope file i).returnSymbol) {s : Cpu}
    (hpc : s.pc = romOf l.fragments i + romSize prologue) :
    runFor (Cpu.step asm.words) 7 s = some ⟨Reg.sp, BitVec.ofNat 16 (romOf l.fragments (i + 1)),
      s.ram.push (BitVec.ofNat 16 (romOf l.fragments (i + 1))), s.pc + 7⟩ := by
  have hret := lookup_return h hf hcode
  have hplaced := h.placed i f hf
  rw [hcode, placed_append, ← hpc] at hplaced
  -- the first seven words of the call
  have hpush : Placed asm s.pc
      ([load (l.scope file i).returnSymbol, intoD (.y .a)] ++ (pushD ++ [])) :=
    (placed_append.mp (show Placed asm s.pc
      (([load (l.scope file i).returnSymbol, intoD (.y .a)] ++ (pushD ++ [])) ++ _) from
        hplaced.2)).1
  have hrun : runStraight asm.table
      ([load (l.scope file i).returnSymbol, intoD (.y .a)] ++ (pushD ++ [])) s
      = some ⟨Reg.sp, BitVec.ofNat 16 (romOf l.fragments (i + 1)),
          s.ram.push (BitVec.ofNat 16 (romOf l.fragments (i + 1))), s.pc + 7⟩ := by
    show runStraight asm.table (load _ :: intoD (.y .a) :: (pushD ++ [])) s = _
    rw [runStraight_load _ _ hret, runStraight_intoD, runStraight_pushD h.platform]
    rfl
  exact (run_straight h.step hpush hrun).1

end

/-! ## §4. All fragments. -/

/-- What uses a static variable moves a value from or to it. -/
theorem cell?_of_static? {line : Nat} {c : Command} {index : Nat}
    (h : (Origin.command line c).static? = some index) : c.cell? = some (.static, index) := by
  cases c with
  | push segment k | pop segment k =>
      cases segment with
      | static => cases h; rfl
      | argument | locals | constant | this | that | pointer | temp => cases h
  | arithmetic | label | goto | ifGoto | function | call | ret => cases h

section
variable {file : String} {l : Lowered} {asm : Assembly} {program : List Statement}
  (h : Installed file l asm) (hasm : Assembled program asm)
include h hasm

theorem loadsThen_call {i j : Nat} {caller callee : Origin} {name : String}
    (hi : l.origins[i]? = some caller) (hcall : caller.callee? = some name)
    (hj : l.origins[j]? = some callee) (hentry : callee.function? = some name)
    (hname : isReserved name = false) :
    LoadsThen asm (romOf l.fragments (i + 1) - 2) (romOf l.fragments j) goNow := by
  obtain ⟨f, prologue, args, hf, -, hcode⟩ := exists_call h hi hcall
  -- the last word of the set-up loads the address of the function
  have hend : f.code = (prologue ++ (callSetup name args (l.scope file i).returnSymbol).dropLast)
      ++ load name :: goNow :: [.label (l.scope file i).returnSymbol] := by
    rw [hcode, List.append_assoc]
    rfl
  exact loadsThen_end h hasm hf hend rfl rfl (lookup_entry h hname hj hentry)

theorem loadsThen_goto {i j line line' : Nat} {name : String}
    (hi : l.origins[i]? = some (.command line (.goto name)))
    (hj : l.origins[j]? = some (.command line' (.label name)))
    (hsame : enclosing l.origins j = enclosing l.origins i) :
    LoadsThen asm (romOf l.fragments (i + 1) - 2) (romOf l.fragments j) goNow := by
  let symbol := (l.scope file i).labelSymbol name
  have hcode : [load symbol, goNow] = [] ++ load symbol :: goNow :: [] := rfl
  exact loadsThen_end h hasm (fragment_of_command h hi rfl) hcode rfl rfl (lookup_label h hj hsame)

theorem loadsThen_ifGoto {i j line line' : Nat} {name : String}
    (hi : l.origins[i]? = some (.command line (.ifGoto name)))
    (hj : l.origins[j]? = some (.command line' (.label name)))
    (hsame : enclosing l.origins j = enclosing l.origins i) :
    LoadsThen asm (romOf l.fragments (i + 1) - 2) (romOf l.fragments j) (goIfD .ne) := by
  let symbol := (l.scope file i).labelSymbol name
  have hcode : ifGotoCode symbol = popD ++ load symbol :: goIfD .ne :: [] := rfl
  exact loadsThen_end h hasm (fragment_of_command h hi rfl) hcode rfl rfl (lookup_label h hj hsame)

theorem loadsThen_compare {i line : Nat} {op : Arithmetic} {jump : Jump}
    (hi : l.origins[i]? = some (.command line (.arithmetic op))) (hop : op.shape = .compare jump) :
    LoadsThen asm (romOf l.fragments i + 6) (romOf l.fragments (i + 1)) (goIfD jump) := by
  let symbol := (l.scope file i).compareSymbol
  -- the words up to the jump, and those that it may skip
  let test : List Instruction := takeTop ++ [intoD (.yMinusD .m), intoM .minusOne]
  let skipped : List Instruction := [load "SP", intoA (.yMinusOne .m), intoM .zero]
  have hcode : arithmeticCode (l.scope file i) op = compareCode jump symbol := by
    unfold arithmeticCode
    rw [hop]
  have hjump : arithmeticCode (l.scope file i) op
      = test ++ load symbol :: goIfD jump :: (skipped ++ [.label symbol]) := hcode.trans rfl
  have hend : arithmeticCode (l.scope file i) op
      = (test ++ load symbol :: goIfD jump :: skipped) ++ [.label symbol] := hcode.trans rfl
  have hf := fragment_of_command h hi rfl
  exact loadsThen_of_code h hasm hf hjump rfl (lookup_end h hf hend (isReserved_compareSymbol _))

/-- All commands that use a static variable load the value of its symbol. -/
theorem loadsThen_static {index a : Nat}
    (ha : asm.table.lookup (staticName file index) = some a) {i line : Nat} :
    (l.origins[i]? = some (.command line (.push .static index)) →
        LoadsThen asm (romOf l.fragments i) a (intoD (.y .m)))
      ∧ (l.origins[i]? = some (.command line (.pop .static index)) →
        LoadsThen asm (romOf l.fragments (i + 1) - 2) a (intoM .d)) := by
  let symbol := (l.scope file i).staticSymbol index
  have hsymbol : asm.table.lookup symbol = some a := by
    show asm.table.lookup ((l.scope file i).staticSymbol index) = some a
    rw [staticSymbol_scope]
    exact ha
  constructor
  · intro hi
    have hcode : pushCode (some (.fixed (.symbol symbol))) index
        = [] ++ load symbol :: intoD (.y .m) :: pushD := rfl
    exact loadsThen_of_code h hasm (fragment_of_command h hi rfl) hcode rfl hsymbol
  · intro hi
    have hcode : popCode (.fixed (.symbol symbol)) index
        = popD ++ load symbol :: intoM .d :: [] := rfl
    exact loadsThen_end h hasm (fragment_of_command h hi rfl) hcode rfl rfl hsymbol

end

section
variable {file : String} {l : Lowered} {asm : Assembly}

/-- The symbol of a static that is no label is loaded, and left for a variable. -/
theorem OwnStatic.mem_openSymbols (h : Installed file l asm) {index : Nat}
    (hown : OwnStatic file l index) : staticName file index ∈ openSymbols l.code := by
  obtain ⟨o, ho, hstatic⟩ := hown.used
  obtain ⟨i, hi⟩ := List.mem_iff_getElem?.mp ho
  cases o with
  | bootstrap => cases hstatic
  | command line c =>
      have hload := load_static_mem h hi (cell?_of_static? hstatic)
      unfold openSymbols
      rw [List.mem_toFinset, List.mem_filter]
      refine ⟨List.mem_filterMap.mpr ⟨_, hload, rfl⟩, ?_⟩
      have hfree : isReserved (staticName file index) = false := isReserved_staticSymbol _ _
      rw [hfree, Bool.not_false, Bool.true_and, Bool.not_eq_true', ← Bool.not_eq_true,
        List.contains_iff_mem]
      exact hown.unlabelled

/-- Static variables are told apart by their symbols. -/
theorem index_eq_of_staticName {index index' : Nat}
    (h : staticName file index = staticName file index') : index = index' := eq_of_numbered h

end

/-- **The symbols of generated code resolve to what the commands mean by them**, for every
function that is not named like a platform symbol and every static variable that is not
named like a label. -/
theorem lowered_linked {file : String} {options : Options} {lines : List SourceLine} {l : Lowered}
    (hl : lowerFile file options lines = .ok l) {asm : Assembly}
    (ha : assemble (ofText l.text) = .ok asm) : Linked file l asm := by
  have h := installed hl ha
  obtain ⟨program, hcode, hasm⟩ := assembled_of_text hl ha
  -- a static of its own is one of the program's variables
  have hvariable : ∀ {index : Nat}, OwnStatic file l index →
      staticName file index ∈ variableReferences program := by
    intro index hown
    have hopen := hown.mem_openSymbols h
    rwa [← hcode, ← variableReferences_toFinset, List.mem_toFinset] at hopen
  refine ⟨?_, ?_, ?_, ?_, ?_, ?_, ?_⟩
  · exact fun i j caller callee name hi hcall hj hentry hname =>
      loadsThen_call h hasm hi hcall hj hentry hname
  · exact fun i j line line' name hi hj hsame => loadsThen_goto h hasm hi hj hsame
  · exact fun i j line line' name hi hj hsame => loadsThen_ifGoto h hasm hi hj hsame
  · intro i caller hi hcalls
    obtain ⟨name, hcall⟩ := Option.isSome_iff_exists.mp hcalls
    obtain ⟨f, prologue, args, hf, hsize, hfragment⟩ := exists_call h hi hcall
    refine ⟨h.small _ _ (lookup_return h hf hfragment), fun s hpc => ?_⟩
    exact run_pushReturn h hf hfragment (hsize ▸ hpc)
  · exact fun i line op jump hi hop => loadsThen_compare h hasm hi hop
  · intro index hown
    have hvalue := lookup_variable hasm (hvariable hown)
    refine ⟨_, Nat.le_add_right _ _, hown.mem_openSymbols h, hvalue, ?_, ?_⟩
    · exact fun i line => (loadsThen_static h hasm hvalue).1
    · exact fun i line => (loadsThen_static h hasm hvalue).2
  · intro index index' hown hown' hsame
    exact index_eq_of_staticName
      (variable_eq_of_lookup hasm (hvariable hown) (hvariable hown') hsame)

/-- An entry point that loops, with two static variables and a comparison. -/
def looping : List SourceLine :=
  ofText "function Sys.init 0\nlabel TOP\npush static 3\npop static 1\npush static 1\nlt\nif-goto TOP"

/-- Where things are in the loop. -/
def loopingChecks (l : Lowered) (asm : Assembly) : Bool :=
  decide (l.origins[0]? = some .bootstrap
    ∧ l.origins[1]? = some (.command 1 (.function "Sys.init" 0))
    ∧ l.origins[3]? = some (.command 3 (.push .static 3))
    ∧ romOf l.fragments 1 = 51 ∧ romOf l.fragments 3 = 51
    ∧ .label (staticName "M" 3) ∉ l.code ∧ asm.table.lookup (staticName "M" 3) = some 16)

/-- The entry point starts behind the 51 words of the start-up, which load 51 and jump; `static 3`
is met first and has the cell 16. -/
theorem lowered_linked_looping : ∃ l asm, lowerFile "M" ⟨true, false⟩ looping = .ok l
    ∧ assemble (ofText l.text) = .ok asm ∧ Linked "M" l asm ∧ LoadsThen asm 49 51 goNow
    ∧ OwnStatic "M" l 3 ∧ asm.table.lookup (staticName "M" 3) = some 16
    ∧ LoadsThen asm 51 16 (intoD (.y .m)) := by
  obtain ⟨l, asm, hl, ha, hchecks⟩ : ∃ l asm, lowerFile "M" ⟨true, false⟩ looping = .ok l
      ∧ assemble (ofText l.text) = .ok asm ∧ loopingChecks l asm = true :=
    exists_assembled (by decide +kernel)
  obtain ⟨hstart, hentry, hpush, hrom, hrom', hlabel, hcell⟩ := of_decide_eq_true hchecks
  have hlinked := lowered_linked hl ha
  have hown : OwnStatic "M" l 3 := ⟨⟨_, List.mem_of_getElem? hpush, rfl⟩, hlabel⟩
  have hcall := hlinked.calls 0 1 _ _ "Sys.init" hstart rfl hentry rfl (by decide)
  obtain ⟨a, -, -, hvalue, hpushes, -⟩ := hlinked.statics 3 hown
  have hloads := hpushes 3 3 hpush
  cases hcell.symm.trans hvalue
  rw [Nat.zero_add, hrom] at hcall
  rw [hrom'] at hloads
  exact ⟨l, asm, hl, ha, hlinked, hcall, hown, hcell, hloads⟩

/-- A function that is named like a register, and one that is named like a static variable. -/
def misnamed : List SourceLine :=
  ofText "call R5 0\nfunction R5 0\npush static 0\nfunction M.0 0"

/-- Where things are among the misnamed functions. -/
def misnamedChecks (l : Lowered) (asm : Assembly) : Bool :=
  decide (l.origins[0]? = some (.command 1 (.call "R5" 0))
    ∧ l.origins[1]? = some (.command 2 (.function "R5" 0))
    ∧ l.origins[2]? = some (.command 3 (.push .static 0))
    ∧ romOf l.fragments 1 = 47 ∧ romOf l.fragments 2 = 47 ∧ romOf l.fragments 3 = 54
    ∧ l.code[56]? = some (.label (staticName "M" 0)) ∧ romSize (l.code.take 56) = 54
    ∧ asm.words[45]? = some (.address 5) ∧ asm.words[46]? = goNow.word? asm.table
    ∧ asm.words[47]? = some (.address 54) ∧ asm.words[48]? = (intoD (.y .m)).word? asm.table)

/-- The text assembles, but the call of `R5` loads 5, and not the 47 at which the function
starts; and `push static 0` loads the address of the label `M.0`, which lies in ROM. -/
theorem links_astray : ∃ l asm, lowerFile "M" ⟨false, false⟩ misnamed = .ok l
    ∧ assemble (ofText l.text) = .ok asm
    ∧ (l.origins[0]? = some (.command 1 (.call "R5" 0))
      ∧ l.origins[1]? = some (.command 2 (.function "R5" 0))
      ∧ romOf l.fragments 1 = 47 ∧ LoadsThen asm 45 5 goNow ∧ ¬ LoadsThen asm 45 47 goNow)
    ∧ (l.origins[2]? = some (.command 3 (.push .static 0))
      ∧ LabelStandsAt l.code (staticName "M" 0) (romOf l.fragments 3)
      ∧ LoadsThen asm (romOf l.fragments 2) (romOf l.fragments 3) (intoD (.y .m))) := by
  obtain ⟨l, asm, hl, ha, hchecks⟩ : ∃ l asm, lowerFile "M" ⟨false, false⟩ misnamed = .ok l
      ∧ assemble (ofText l.text) = .ok asm ∧ misnamedChecks l asm = true :=
    exists_assembled (by decide +kernel)
  obtain ⟨hcall, hentry, hpush, hrom, hrom', hrom'', hlabel, hsize, hfive, hgo, hload, htake⟩ :=
    of_decide_eq_true hchecks
  refine ⟨l, asm, hl, ha, ⟨hcall, hentry, hrom, ⟨by decide, hfive, hgo⟩, ?_⟩, hpush, ?_, ?_⟩
  · -- the word cannot load both
    intro hloads
    have hwords : Word.address 5 = .address 47 :=
      Option.some.inj (hfive.symm.trans hloads.loads)
    revert hwords
    decide
  · rw [hrom'']
    exact ⟨_, _, eq_take_cons_drop hlabel, hsize⟩
  · rw [hrom', hrom'']
    exact ⟨by decide, hload, htake⟩

end HackPlatform.Vm
