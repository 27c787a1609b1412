/-
  HackPlatform.Proofs.Vm.Lowering
  ────────────────────────────────
  **WHAT A LOWERED FILE IS.**

  Lowering reads one command per line and threads one scope through the file.
  Looking back, the fragment at an index is what its command is lowered to in the
  scope that the commands before it leave behind; that is `Lowers`, and nothing
  after this module looks at the lowering loop again.

      Command.WellFormed   what reading promises of a command
      Lowers               what lowering promises of the fragments

  Main results: `lowers_of_lowerFile`, `wellSpelt_code`.
-/
import HackPlatform.Proofs.Symbol
import HackPlatform.Proofs.Asm.Resolution
import HackPlatform.Proofs.Vm.Grammar
import HackPlatform.Proofs.Vm.StackMachine

namespace HackPlatform.Vm

open Asm Text

/-! ## §1. Well-formed commands. -/

/-- The name that a command holds, if it holds one. -/
def Command.name? : Command → Option String
  | .label name | .goto name | .ifGoto name | .function name _ | .call name _ => some name
  | _ => none

/-- What reading promises of a command. -/
structure Command.WellFormed (c : Command) : Prop where
  /-- Its name is a symbol. -/
  symbol : ∀ name, c.name? = some name → isSymbol name = true
  /-- It keeps within the limits of the machine. -/
  check : c.check = .ok ()

/-- A name is spelt by a symbol only. -/
theorem SpellsTokens.isSymbol {tokens : List String} {c : Command} (h : SpellsTokens tokens c) :
    ∀ name, c.name? = some name → isSymbol name = true := by
  intro name hname
  cases h with
  | arithmetic | push | pop | ret => cases hname
  | label symbol | goto symbol | ifGoto symbol | function symbol | call symbol =>
      cases hname
      exact symbol

/-- **Only well-formed commands are read.** -/
theorem wellFormed_of_read {line : String} {c : Command} (h : Command.read line = .ok c) :
    c.WellFormed := by
  obtain ⟨hspells, hrange⟩ := Command.read_eq_ok_iff.mp h
  exact ⟨hspells.isSymbol, check_eq_ok_iff.mpr hrange⟩

/-! ## §2. Fragments and where they stand. -/

/-- Where the next origin stands, after an origin that stands here. -/
def Scope.pass (s : Scope) : Origin → Scope
  | .bootstrap => s.nextLabel
  | .command _ c => s.after c

/-- Where the origin after some origins of a file stands. -/
def scopeAfter (file : String) (origins : List Origin) : Scope :=
  origins.foldl Scope.pass (.start file)

/-- A fragment is what its origin is lowered to here. -/
def Scope.Lowers (s : Scope) (f : Fragment) : Prop :=
  match f.origin with
  | .bootstrap => f.code = s.bootstrap.1
  | .command _ c => c.WellFormed ∧ s.code c = .ok f.code

/-- Each fragment is what its origin is lowered to, after the origins before it. -/
def Lowers (file : String) (fragments : List Fragment) : Prop :=
  ∀ i f, fragments[i]? = some f →
    (scopeAfter file ((fragments.take i).map (·.origin))).Lowers f

/-- What is known while a file is lowered. -/
structure Progress.Valid (file : String) (p : Progress) : Prop where
  /-- The scope is the one that the fragments leave behind. -/
  scope : p.scope = scopeAfter file (p.fragments.toList.map (·.origin))
  /-- The fragments are what their origins are lowered to. -/
  lowers : Lowers file p.fragments.toList

@[simp] theorem Scope.pass_file (s : Scope) (o : Origin) : (s.pass o).file = s.file := by
  cases o with
  | bootstrap => rfl
  | command line c =>
      cases c with
      | arithmetic op => cases op <;> rfl
      | push | pop | label | goto | ifGoto | function | call | ret => rfl

/-- Only entering a function changes the function. -/
theorem Scope.pass_function (s : Scope) (o : Origin) :
    (s.pass o).function = o.function?.or s.function := by
  cases o with
  | bootstrap => rfl
  | command line c =>
      cases c with
      | arithmetic op => cases op <;> rfl
      | push | pop | label | goto | ifGoto | function | call | ret => rfl

theorem scopeAfter_append (file : String) (origins : List Origin) (o : Origin) :
    scopeAfter file (origins ++ [o]) = (scopeAfter file origins).pass o := by
  unfold scopeAfter
  rw [List.foldl_append]
  rfl

/-- One more fragment, lowered in the scope that the others leave behind. -/
theorem Progress.Valid.push {file : String} {p : Progress} (h : p.Valid file) {f : Fragment}
    (hf : p.scope.Lowers f) : Progress.Valid file ⟨p.scope.pass f.origin, p.fragments.push f⟩ := by
  have hlist : (p.fragments.push f).toList = p.fragments.toList ++ [f] := Array.toList_push
  refine ⟨?_, ?_⟩
  · show p.scope.pass f.origin = _
    rw [hlist, List.map_append, List.map_singleton, scopeAfter_append, ← h.scope]
  · show Lowers file (p.fragments.push f).toList
    rw [hlist]
    intro i g hg
    -- the scope of a fragment depends on the origins before it only
    rcases getElem?_append_singleton hg with ⟨hold, htake⟩ | ⟨rfl, htake⟩
    · rw [htake]
      exact h.lowers i g hold
    · rw [htake, ← h.scope]
      exact hf

theorem valid_start (file : String) (bootstrap : Bool) :
    (Progress.start file bootstrap).Valid file := by
  have hempty : Progress.Valid file ⟨.start file, #[]⟩ := ⟨rfl, fun i f h => by simp at h⟩
  cases bootstrap with
  | false => exact hempty
  | true => exact hempty.push (f := ⟨.bootstrap, (Scope.start file).bootstrap.1⟩) rfl

theorem addLine_eq_push {p p' : Progress} {line : SourceLine} (h : p.addLine line = .ok p') :
    ∃ f, p.scope.Lowers f ∧ p' = ⟨p.scope.pass f.origin, p.fragments.push f⟩ := by
  unfold Progress.addLine at h
  obtain ⟨c, hread, h⟩ := bind_eq_ok_iff.mp (mapError_eq_ok_iff.mp h)
  obtain ⟨⟨code, s'⟩, hlower, h⟩ := bind_eq_ok_iff.mp h
  cases h
  unfold Scope.lower at hlower
  obtain ⟨-, -, hlower⟩ := bind_eq_ok_iff.mp hlower
  obtain ⟨code, hcode, hlower⟩ := bind_eq_ok_iff.mp hlower
  cases hlower
  exact ⟨⟨.command line.number c, code⟩, ⟨wellFormed_of_read hread, hcode⟩, rfl⟩

/-- **Lowering one more line keeps the invariant.** -/
theorem Progress.Valid.addLine {file : String} {p p' : Progress} (h : p.Valid file)
    {line : SourceLine} (hadd : p.addLine line = .ok p') : p'.Valid file := by
  obtain ⟨f, hf, rfl⟩ := addLine_eq_push hadd
  exact h.push hf

/-- **Every fragment of a lowered file is what its command is lowered to there.** -/
theorem lowers_of_lowerFile {file : String} {options : Options} {lines : List SourceLine}
    {l : Lowered} (h : lowerFile file options lines = .ok l) :
    Lowers (toSymbol file) l.fragments := by
  unfold lowerFile at h
  obtain ⟨p, hfold, h⟩ := bind_eq_ok_iff.mp h
  cases h
  have hvalid : p.Valid (toSymbol file) :=
    inv_of_foldlM (fun _ p => p.Valid (toSymbol file))
      (fun _ _ _ _ hdone hadd => hdone.addLine hadd) (valid_start _ _) hfold
  exact hvalid.lowers

/-! ## §3. The instructions are well spelt. -/

/-- The names that a scope puts in front of others are symbols. -/
structure Scope.Spelt (s : Scope) : Prop where
  /-- The file. -/
  file : isSymbol s.file = true
  /-- The function. -/
  function : ∀ name, s.function = some name → isSymbol name = true

theorem Scope.Spelt.owner {s : Scope} (h : s.Spelt) : isSymbol s.owner = true := by
  unfold Scope.owner
  cases hf : s.function with
  | none => exact h.file
  | some name => exact h.function name hf

/-- A name behind a mark, both behind a symbol. -/
theorem isSymbol_joined {owner mark name : String} (howner : isSymbol owner = true)
    (hmark : ∀ c ∈ mark.toList, isSymbolChar c = true)
    (hname : ∀ c ∈ name.toList, isSymbolChar c = true) :
    isSymbol (owner ++ mark ++ name) = true :=
  isSymbol_append (isSymbol_append howner hmark) hname

section
variable {s : Scope} (h : s.Spelt)
include h

theorem isSymbol_labelSymbol {name : String} (hname : isSymbol name = true) :
    isSymbol (s.labelSymbol name) = true :=
  isSymbol_joined h.owner (List.all_eq_true.mp (by decide)) (isSymbolChar_of_isSymbol hname)

theorem isSymbol_staticSymbol (index : Nat) : isSymbol (s.staticSymbol index) = true :=
  isSymbol_joined h.file (List.all_eq_true.mp (by decide)) (isSymbolChar_toString index)

theorem isSymbol_compareSymbol : isSymbol s.compareSymbol = true :=
  isSymbol_joined h.file (List.all_eq_true.mp (by decide)) (isSymbolChar_toString s.labels)

theorem isSymbol_returnSymbol : isSymbol s.returnSymbol = true :=
  isSymbol_joined h.owner (List.all_eq_true.mp (by decide)) (isSymbolChar_toString s.labels)

end

/-- The platform's symbols that the generated code uses are symbols. -/
theorem isSymbol_registers : isSymbol "SP" = true ∧ isSymbol "LCL" = true
    ∧ isSymbol "ARG" = true ∧ isSymbol "THIS" = true ∧ isSymbol "THAT" = true
    ∧ isSymbol "R13" = true ∧ isSymbol "R14" = true := by decide

/-- Every instruction is well spelt. -/
def WellSpeltCode (code : List Instruction) : Prop := ∀ i ∈ code, i.WellSpelt

@[simp] theorem wellSpeltCode_nil : WellSpeltCode [] := fun _ h => by cases h

@[simp] theorem wellSpeltCode_cons (i : Instruction) (code : List Instruction) :
    WellSpeltCode (i :: code) ↔ i.WellSpelt ∧ WellSpeltCode code := List.forall_mem_cons

@[simp] theorem wellSpeltCode_append (code more : List Instruction) :
    WellSpeltCode (code ++ more) ↔ WellSpeltCode code ∧ WellSpeltCode more :=
  List.forall_mem_append

@[simp] theorem wellSpelt_load (name : String) :
    (load name).WellSpelt ↔ isSymbol name = true := Iff.rfl

@[simp] theorem wellSpelt_loadNumber (n : Nat) :
    (loadNumber n).WellSpelt ↔ n ≤ maxAddress := Iff.rfl

@[simp] theorem wellSpelt_label (name : String) :
    (Instruction.label name).WellSpelt ↔ isSymbol name = true := Iff.rfl

@[simp] theorem wellSpelt_intoA (c : Comp) : (intoA c).WellSpelt := trivial

@[simp] theorem wellSpelt_intoD (c : Comp) : (intoD c).WellSpelt := trivial

@[simp] theorem wellSpelt_intoM (c : Comp) : (intoM c).WellSpelt := trivial

@[simp] theorem wellSpelt_intoAM (c : Comp) : (intoAM c).WellSpelt := trivial

@[simp] theorem wellSpelt_goNow : goNow.WellSpelt := trivial

@[simp] theorem wellSpelt_goIfD (jump : Jump) : (goIfD jump).WellSpelt := trivial

@[simp] theorem wellSpelt_pushD : WellSpeltCode pushD := by
  simp [pushD, isSymbol_registers]

@[simp] theorem wellSpelt_popD : WellSpeltCode popD := by
  simp [popD, isSymbol_registers]

/-- An index that was checked can be loaded. -/
theorem le_maxAddress_of_checkIndex {segment : Segment} {index : Nat}
    (h : segment.checkIndex index = .ok ()) : index ≤ maxAddress :=
  (checkIndex_eq_ok_iff.mp h).trans (lastIndex_le_maxAddress segment)

/-- A base register is a symbol. -/
theorem isSymbol_base {s : Scope} {segment : Segment} {index : Nat} {base : String}
    (h : s.place? segment index = some (.based base)) : isSymbol base = true := by
  unfold Scope.place? at h
  cases segment <;> cases h <;> decide

/-- A fixed address can be loaded. -/
theorem wellSpelt_fixed {s : Scope} (hs : s.Spelt) {segment : Segment} {index : Nat}
    (hindex : segment.checkIndex index = .ok ()) {operand : Operand}
    (h : s.place? segment index = some (.fixed operand)) :
    (Instruction.address operand).WellSpelt := by
  unfold Scope.place? at h
  cases segment with
  | constant | locals | argument | this | that => cases h
  | temp =>
      cases h
      have h7 : index ≤ 7 := checkIndex_eq_ok_iff.mp hindex
      show tempBase + index ≤ maxAddress
      unfold tempBase maxAddress
      omega
  | pointer =>
      cases h
      show isSymbol (if index = 0 then "THIS" else "THAT") = true
      split <;> decide
  | static =>
      cases h
      exact isSymbol_staticSymbol hs index

section
variable {s : Scope} (hs : s.Spelt)
include hs

theorem wellSpelt_pushCode {segment : Segment} {index : Nat}
    (hindex : segment.checkIndex index = .ok ()) :
    WellSpeltCode (pushCode (s.place? segment index) index) := by
  have hle := le_maxAddress_of_checkIndex hindex
  cases hp : s.place? segment index with
  | none => simp [pushCode, hle]
  | some place =>
      cases place with
      | based base => simp [pushCode, isSymbol_base hp, hle]
      | fixed operand => simp [pushCode, wellSpelt_fixed hs hindex hp]

theorem wellSpelt_popCode {segment : Segment} {index : Nat}
    (hindex : segment.checkIndex index = .ok ()) {place : Place}
    (hp : s.place? segment index = some place) : WellSpeltCode (popCode place index) := by
  have hle := le_maxAddress_of_checkIndex hindex
  cases place with
  | based base => simp [popCode, isSymbol_base hp, isSymbol_registers, hle]
  | fixed operand => simp [popCode, wellSpelt_fixed hs hindex hp]

theorem wellSpelt_arithmeticCode (op : Arithmetic) : WellSpeltCode (arithmeticCode s op) := by
  have hcompare := isSymbol_compareSymbol hs
  unfold arithmeticCode
  split
  next => simp [isSymbol_registers]
  next => simp [takeTop]
  next => simp [compareCode, takeTop, isSymbol_registers, hcompare]

end

theorem wellSpelt_pushZeros (locals : Nat) :
    WellSpeltCode (List.replicate locals (intoD .zero :: pushD)).flatten := by
  induction locals with
  | zero => simp
  | succ locals ih => simp [List.replicate_succ, ih]

theorem wellSpelt_callCode {name ret : String} {args : Nat} (hname : isSymbol name = true)
    (hret : isSymbol ret = true) (hargs : frameSize + args ≤ maxAddress) :
    WellSpeltCode (callCode name args ret) := by
  simp [callCode, pushRegister, isSymbol_registers, hname, hret, hargs]

theorem wellSpelt_returnCode : WellSpeltCode returnCode := by
  have hframe : frameSize ≤ maxAddress := by decide
  simp [returnCode, restoreRegister, isSymbol_registers, hframe]

/-- A command that is well formed is lowered to instructions that are well spelt. -/
theorem wellSpelt_of_code {s : Scope} (hs : s.Spelt) {c : Command} (hc : c.WellFormed)
    {code : List Instruction} (h : s.code c = .ok code) : WellSpeltCode code := by
  have hcheck := hc.check
  cases c with
  | arithmetic op =>
      cases h
      exact wellSpelt_arithmeticCode hs op
  | push segment index =>
      cases h
      exact wellSpelt_pushCode hs hcheck
  | pop segment index =>
      -- a constant cannot be popped to; the other segments have their index checked
      have hindex : segment.checkIndex index = .ok () := by
        cases segment <;> first | exact hcheck | cases hcheck
      cases hp : s.place? segment index with
      | none => simp [Scope.code, hp] at h
      | some place =>
          simp only [Scope.code, hp] at h
          cases h
          exact wellSpelt_popCode hs hindex hp
  | label name =>
      cases h
      simp [isSymbol_labelSymbol hs (hc.symbol name rfl)]
  | goto name =>
      cases h
      simp [isSymbol_labelSymbol hs (hc.symbol name rfl)]
  | ifGoto name =>
      cases h
      simp [ifGotoCode, isSymbol_labelSymbol hs (hc.symbol name rfl)]
  | function name locals =>
      cases h
      simp [functionCode, hc.symbol name rfl, wellSpelt_pushZeros]
  | call name args =>
      cases h
      -- the frame and the arguments are skipped by one number, so it was checked
      have hargs : frameSize + args ≤ maxAddress := by
        have hrange : args ≤ 32762 := check_eq_ok_iff.mp hcheck
        unfold frameSize maxAddress
        omega
      exact wellSpelt_callCode (hc.symbol name rfl) (isSymbol_returnSymbol hs) hargs
  | ret =>
      cases h
      exact wellSpelt_returnCode

/-- The start-up is well spelt too. -/
theorem wellSpelt_bootstrap {s : Scope} (hs : s.Spelt) : WellSpeltCode s.bootstrap.1 := by
  have hbase : Scope.stackBase ≤ maxAddress := by decide
  have hentry : isSymbol Scope.entryPoint = true := by decide
  have hcall := wellSpelt_callCode hentry (isSymbol_returnSymbol hs)
    (show frameSize + 0 ≤ maxAddress by decide)
  simp [Scope.bootstrap, isSymbol_registers, hbase, hcall]

theorem wellSpelt_of_lowers {s : Scope} (hs : s.Spelt) {f : Fragment} (h : s.Lowers f) :
    WellSpeltCode f.code := by
  obtain ⟨origin, code⟩ := f
  cases origin with
  | bootstrap =>
      replace h : code = s.bootstrap.1 := h
      rw [h]
      exact wellSpelt_bootstrap hs
  | command line c => exact wellSpelt_of_code hs h.1 h.2

theorem isSymbol_of_function? {s : Scope} {f : Fragment} (h : s.Lowers f) {name : String}
    (hname : f.origin.function? = some name) : isSymbol name = true := by
  obtain ⟨origin, code⟩ := f
  cases origin with
  | bootstrap => cases hname
  | command line c =>
      cases c with
      | function n locals => cases hname; exact h.1.symbol name rfl
      | arithmetic | push | pop | label | goto | ifGoto | call | ret => cases hname

theorem Scope.Spelt.pass {s : Scope} (hs : s.Spelt) {f : Fragment} (h : s.Lowers f) :
    (s.pass f.origin).Spelt := by
  refine ⟨(s.pass_file f.origin).symm ▸ hs.file, fun name hname => ?_⟩
  rw [Scope.pass_function] at hname
  cases hf : f.origin.function? with
  | some n =>
      rw [hf] at hname
      exact Option.some.inj hname ▸ isSymbol_of_function? h hf
  | none =>
      rw [hf] at hname
      exact hs.function name hname

section
variable {file : String} {fragments : List Fragment} (hfile : isSymbol file = true)
  (h : Lowers file fragments)
include hfile h

theorem spelt_scopeAfter (i : Nat) :
    (scopeAfter file ((fragments.take i).map (·.origin))).Spelt := by
  induction i with
  | zero => exact ⟨hfile, fun name hname => by cases hname⟩
  | succ i ih =>
      rw [List.take_add_one, List.map_append]
      cases hf : fragments[i]? with
      | none => simpa using ih
      | some f =>
          show (scopeAfter file (_ ++ [f.origin])).Spelt
          rw [scopeAfter_append]
          exact ih.pass (h i f hf)

/-- **All instructions of a lowered file are well spelt.** -/
theorem wellSpelt_code : ∀ f ∈ fragments, WellSpeltCode f.code := by
  intro f hf
  obtain ⟨i, hi⟩ := List.mem_iff_getElem?.mp hf
  exact wellSpelt_of_lowers (spelt_scopeAfter hfile h i) (h i f hi)

end

end HackPlatform.Vm
