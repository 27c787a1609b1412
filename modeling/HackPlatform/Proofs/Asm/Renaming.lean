/-
  HackPlatform.Proofs.Asm.Renaming
  ────────────────────────────────
  **NAMES ARE ONLY TOLD APART: under other names a program is the same program.**

  The assembler never looks into a name.  It asks whether a name is the platform's,
  and whether two names are the same one; the answers do not change when each symbol
  of a program gets a new name of its own that is none of the platform's.  So the
  words stay as they are, the table has the new names for the old ones, and a program
  that is refused is refused on the same line for the same reason.

      newName        a symbol under its new name
      Renamed        the lines with the new names in them, however they are written
      SameButNames   two programs come to the same, but for names

  The two runs go side by side through both passes.  Their tables hold the same values
  under different names, and are ordered differently, so they are related and not
  equal: `TablesRenamed` is kept by every step.

  Main results:
    * `bind_renamed`, `resolve_renamed`, what tables answer about old and new names;
    * `ofLines_renamed`, `ofStatements_renamed`, both passes;
    * `assembly_renamed`, the whole assembly.
-/
import HackPlatform.Proofs.Asm.Failure

namespace HackPlatform.Asm

/-! ## §1. New names. -/

/-- The symbol that an instruction defines or loads, if it has one. -/
def Instruction.symbol? : Instruction → Option String
  | .address (.symbol name) | .label name => some name
  | _ => none

/-- The symbols that stand in lines and are none of the platform's. -/
def freeSymbols (lines : List SourceLine) : List String :=
  ((readProgram lines).filterMap fun s => s.instruction.symbol?).filter (!isReserved ·)

section
variable (ρ : String → String)

/-- A symbol under its new name; the platform's symbols keep theirs. -/
def newName (name : String) : String := if isReserved name then name else ρ name

/-- An instruction with the new name in it. -/
def Instruction.rename : Instruction → Instruction
  | .address (.symbol name) => .address (.symbol (newName ρ name))
  | .label name => .label (newName ρ name)
  | i => i

/-- A statement with the new name in it. -/
def Statement.rename (s : Statement) : Statement :=
  { s with instruction := s.instruction.rename ρ }

/-- The misuse of a symbol, told of its new name. -/
def Fault.rename : Fault → Fault
  | .labelPastEnd name => .labelPastEnd (newName ρ name)
  | .labelRebound name address => .labelRebound (newName ρ name) address
  | .ramExhausted name => .ramExhausted (newName ρ name)
  | fault => fault

/-- The same on the line it was found on. -/
def renameFault (e : Located Fault) : Located Fault := ⟨e.line, e.fault.rename ρ⟩

/-- A line written anew, with the new name in it. -/
def renameLine (line : SourceLine) : SourceLine :=
  match Instruction.read line.text with
  | .ok i => ⟨line.number, (i.rename ρ).render⟩
  | .error _ => line

/-- Lines that read as the renamed instructions of others, under the same numbers. -/
def Renamed (lines lines' : List SourceLine) : Prop :=
  List.Forall₂ (fun line line' => line'.number = line.number
    ∧ ∃ i, Instruction.read line.text = .ok i ∧ Instruction.read line'.text = .ok (i.rename ρ))
    lines lines'

/-- New names for the symbols of lines: symbols again, none of them the platform's, and
no two of them the same. -/
structure RenamesIn (lines : List SourceLine) : Prop where
  /-- They are symbols. -/
  symbol : ∀ name ∈ freeSymbols lines, isSymbol (ρ name) = true
  /-- None is the platform's. -/
  free : ∀ name ∈ freeSymbols lines, isReserved (ρ name) = false
  /-- They are told apart. -/
  injective : ∀ a ∈ freeSymbols lines, ∀ b ∈ freeSymbols lines, ρ a = ρ b → a = b

/-- Two assemblies are the same, but for names. -/
structure SameAssembly (asm asm' : Assembly) : Prop where
  /-- The words are the same. -/
  words : asm'.words = asm.words
  /-- The table has the new names for the old ones. -/
  entries : asm'.table.entries.Perm (asm.table.entries.map fun (name, v) => (newName ρ name, v))
  /-- As many variables are allocated. -/
  next : asm'.table.nextVariable = asm.table.nextVariable
  /-- The statements have the new names in them. -/
  statements : asm'.statements = asm.statements.map (Statement.rename ρ)

/-- Two programs come to the same, but for names. -/
inductive SameButNames :
    Except (Located Fault) Assembly → Except (Located Fault) Assembly → Prop where
  /-- Both are assembled. -/
  | assembled {asm asm' : Assembly} (same : SameAssembly ρ asm asm') :
      SameButNames (.ok asm) (.ok asm')
  /-- Both misuse a symbol, on the same line. -/
  | refused {e e' : Located Fault} (line : e'.line = e.line) (fault : e'.fault = e.fault.rename ρ)
      (misuse : ∃ reason, e.fault.diagnosis = .misuse reason)
      (misuse' : ∃ reason, e'.fault.diagnosis = .misuse reason) :
      SameButNames (.error e) (.error e')

/-! ## §2. What makes new names as good as the old ones. -/

/-- The names of a program are told apart by their new names, from each other and from
the platform's. -/
structure Faithful (known : String → Prop) : Prop where
  /-- The platform's symbols are among them. -/
  platform : ∀ name, isReserved name = true → known name
  /-- A new name is the platform's iff the old one is. -/
  reserved : ∀ name, known name → isReserved (newName ρ name) = isReserved name
  /-- No two have the same new name. -/
  injective : ∀ a b, known a → known b → newName ρ a = newName ρ b → a = b

end

variable {ρ : String → String}

theorem newName_reserved {name : String} (h : isReserved name = true) : newName ρ name = name :=
  if_pos h

theorem newName_free {name : String} (h : isReserved name = false) : newName ρ name = ρ name :=
  if_neg (by rw [h]; exact Bool.false_ne_true)

theorem faithful_of_renamesIn {lines : List SourceLine} (h : RenamesIn ρ lines) :
    Faithful ρ fun name => isReserved name = true ∨ name ∈ freeSymbols lines := by
  have hfree : ∀ name ∈ freeSymbols lines, isReserved name = false := by
    intro name hname
    simpa using (List.mem_filter.mp hname).2
  -- the platform's symbols stay, and the others do not become any of them
  have hreserved : ∀ name, isReserved name = true ∨ name ∈ freeSymbols lines →
      isReserved (newName ρ name) = isReserved name := by
    rintro name (hname | hname)
    · rw [newName_reserved hname]
    · rw [newName_free (hfree name hname), h.free name hname, hfree name hname]
  refine ⟨fun name hname => .inl hname, hreserved, ?_⟩
  intro a b ha hb hsame
  -- a platform symbol and another one cannot have the same new name
  have hkind : isReserved a = isReserved b := by
    rw [← hreserved a ha, ← hreserved b hb, hsame]
  cases hres : isReserved a with
  | true =>
      rw [newName_reserved hres, newName_reserved (hkind ▸ hres)] at hsame
      exact hsame
  | false =>
      have hres' : isReserved b = false := hkind ▸ hres
      rw [newName_free hres, newName_free hres'] at hsame
      have hina : a ∈ freeSymbols lines := ha.resolve_left (by rw [hres]; exact Bool.false_ne_true)
      have hinb : b ∈ freeSymbols lines := hb.resolve_left (by rw [hres']; exact Bool.false_ne_true)
      exact h.injective a hina b hinb hsame

/-! ## §3. Tables. -/

/-- The second table holds under the new names what the first holds under the old ones. -/
structure TablesRenamed (ρ : String → String) (known : String → Prop) (t t' : SymbolTable) :
    Prop where
  /-- A name has the same value under both. -/
  values : ∀ name, known name → t'.lookup (newName ρ name) = t.lookup name
  /-- The first holds known names only, -/
  old : ∀ name v, t.lookup name = some v → known name
  /-- and the second their new names only. -/
  new : ∀ name' v, t'.lookup name' = some v → ∃ name, known name ∧ newName ρ name = name'
  /-- Both have allocated as many variables. -/
  next : t'.nextVariable = t.nextVariable

section
variable {known : String → Prop} (hρ : Faithful ρ known)
include hρ

theorem tablesRenamed_platform : TablesRenamed ρ known .platform .platform where
  values name hname := by
    rw [SymbolTable.lookup_platform, SymbolTable.lookup_platform]
    cases hres : isReserved name with
    | true => rw [newName_reserved hres]
    | false =>
        have hnew := (hρ.reserved name hname).trans hres
        rw [(isReserved_eq_false_iff _).mp hres, (isReserved_eq_false_iff _).mp hnew]
  old name v hv := by
    rw [SymbolTable.lookup_platform] at hv
    exact hρ.platform name ((isReserved_iff name).mpr ⟨v, hv⟩)
  new name v hv := by
    rw [SymbolTable.lookup_platform] at hv
    have hres := (isReserved_iff name).mpr ⟨v, hv⟩
    exact ⟨name, hρ.platform name hres, newName_reserved hres⟩
  next := rfl

variable {t t' : SymbolTable} (h : TablesRenamed ρ known t t') {name : String} (hname : known name)
include h hname

theorem TablesRenamed.insert (v next : Nat) :
    TablesRenamed ρ known ⟨t.bindings.insert name v, next⟩
      ⟨t'.bindings.insert (newName ρ name) v, next⟩ where
  values n hn := by
    rw [SymbolTable.lookup_insert, SymbolTable.lookup_insert]
    by_cases he : n = name
    · rw [if_pos he, if_pos (congrArg (newName ρ) he)]
    · rw [if_neg he, if_neg fun hsame => he (hρ.injective n name hn hname hsame), h.values n hn]
  old n w hw := by
    rw [SymbolTable.lookup_insert] at hw
    by_cases he : n = name
    · exact he ▸ hname
    · rw [if_neg he] at hw
      exact h.old n w hw
  new n w hw := by
    rw [SymbolTable.lookup_insert] at hw
    by_cases he : n = newName ρ name
    · exact ⟨name, hname, he.symm⟩
    · rw [if_neg he] at hw
      exact h.new n w hw
  next := rfl

/-- A name is bound under both tables, or is refused under both for the same address. -/
theorem bind_renamed (address : Nat) :
    (∃ u u', t.bind name address = .ok u ∧ t'.bind (newName ρ name) address = .ok u'
        ∧ TablesRenamed ρ known u u')
      ∨ ∃ existing, t.bind name address = .error existing
        ∧ t'.bind (newName ρ name) address = .error existing := by
  have hsame := h.values name hname
  cases hv : t.lookup name with
  | none =>
      rw [hv] at hsame
      refine .inl ⟨_, _, SymbolTable.bind_of_none hv address,
        SymbolTable.bind_of_none hsame address, ?_⟩
      rw [h.next]
      exact h.insert hρ hname address t.nextVariable
  | some v =>
      rw [hv] at hsame
      rw [SymbolTable.bind_of_some hv, SymbolTable.bind_of_some hsame]
      by_cases he : v = address
      · rw [if_pos he, if_pos he]
        exact .inl ⟨t, t', rfl, rfl, h⟩
      · rw [if_neg he, if_neg he]
        exact .inr ⟨v, rfl, rfl⟩

/-- A name has the same value under both tables, or under neither. -/
theorem resolve_renamed :
    (∃ v u u', t.resolve name = some (v, u) ∧ t'.resolve (newName ρ name) = some (v, u')
        ∧ TablesRenamed ρ known u u')
      ∨ t.resolve name = none ∧ t'.resolve (newName ρ name) = none := by
  have hsame := h.values name hname
  cases hv : t.lookup name with
  | none =>
      rw [hv] at hsame
      rw [SymbolTable.resolve_of_none hv, SymbolTable.resolve_of_none hsame, h.next]
      by_cases hleft : t.nextVariable ≤ maxAddress
      · rw [if_pos hleft, if_pos hleft]
        exact .inl ⟨_, _, _, rfl, rfl, h.insert hρ hname _ _⟩
      · rw [if_neg hleft, if_neg hleft]
        exact .inr ⟨rfl, rfl⟩
  | some v =>
      rw [hv] at hsame
      exact .inl ⟨v, t, t', SymbolTable.resolve_of_some hv, SymbolTable.resolve_of_some hsame, h⟩

end

/-- The entries are the same, under the new names; only their order may differ. -/
theorem TablesRenamed.entries_perm {known : String → Prop} {t t' : SymbolTable}
    (h : TablesRenamed ρ known t t') (hρ : Faithful ρ known) :
    t'.entries.Perm (t.entries.map fun (name, v) => (newName ρ name, v)) := by
  have hnodup : ∀ table : SymbolTable, table.entries.Nodup := by
    intro table
    refine table.entries_sorted.imp ?_
    intro p q hlt he
    rw [he] at hlt
    exact String.lt_irrefl _ hlt
  have hmap : (t.entries.map fun (name, v) => (newName ρ name, v)).Nodup := by
    apply List.Nodup.map_on _ (hnodup t)
    rintro ⟨a, v⟩ ha ⟨b, w⟩ hb hsame
    obtain ⟨hnames, rfl⟩ := Prod.mk.inj hsame
    have hka := h.old a v ((t.mem_entries a v).mp ha)
    have hkb := h.old b v ((t.mem_entries b v).mp hb)
    rw [hρ.injective a b hka hkb hnames]
  -- the entries of each table are ordered by its own names, so only membership is compared
  rw [List.perm_ext_iff_of_nodup (hnodup t') hmap]
  rintro ⟨name', v⟩
  rw [SymbolTable.mem_entries, List.mem_map]
  constructor
  · intro hv
    obtain ⟨name, hname, rfl⟩ := h.new name' v hv
    rw [h.values name hname] at hv
    exact ⟨(name, v), (t.mem_entries name v).mpr hv, rfl⟩
  · rintro ⟨⟨name, w⟩, hmem, hsame⟩
    obtain ⟨rfl, rfl⟩ := Prod.mk.inj hsame
    have hv := (t.mem_entries name w).mp hmem
    rw [h.values name (h.old name w hv), hv]

/-! ## §4. Folds that go side by side. -/

/-- Two outcomes are of the same kind: related results, or the same fault but for the
name that it tells of. -/
inductive OutcomesRenamed (ρ : String → String) {β β' : Type} (R : β → β' → Prop) :
    Except (Located Fault) β → Except (Located Fault) β' → Prop where
  /-- Both succeed. -/
  | ok {b : β} {b' : β'} (related : R b b') : OutcomesRenamed ρ R (.ok b) (.ok b')
  /-- Both fail. -/
  | error (e : Located Fault) : OutcomesRenamed ρ R (.error e) (.error (renameFault ρ e))

/-- What is done with related results comes to outcomes of the same kind. -/
theorem OutcomesRenamed.bind {β β' γ γ' : Type} {R : β → β' → Prop} {S : γ → γ' → Prop}
    {x : Except (Located Fault) β} {x' : Except (Located Fault) β'}
    {f : β → Except (Located Fault) γ} {f' : β' → Except (Located Fault) γ'}
    (h : OutcomesRenamed ρ R x x') (hf : ∀ b b', R b b' → OutcomesRenamed ρ S (f b) (f' b')) :
    OutcomesRenamed ρ S (x >>= f) (x' >>= f') := by
  cases h with
  | ok related => exact hf _ _ related
  | error e => exact .error e

/-- Folds over related items go side by side if their steps do. -/
theorem foldlM_renamed {α α' β β' : Type} {step : β → α → Except (Located Fault) β}
    {step' : β' → α' → Except (Located Fault) β'} {R : β → β' → Prop} {I : α → α' → Prop}
    (hstep : ∀ b b' a a', R b b' → I a a' → OutcomesRenamed ρ R (step b a) (step' b' a'))
    {items : List α} {items' : List α'} (hitems : List.Forall₂ I items items') :
    ∀ {b : β} {b' : β'}, R b b' →
      OutcomesRenamed ρ R (items.foldlM step b) (items'.foldlM step' b') := by
  -- for all related states at once: the rest goes on from what the first steps came to
  induction hitems with
  | nil => intro b b' h; exact .ok h
  | @cons a a' items items' hhead _ ih =>
      intro b b' h
      rw [List.foldlM_cons, List.foldlM_cons]
      exact (hstep b b' a a' h hhead).bind fun _ _ hnext => ih hnext

/-! ## §5. The first pass. -/

/-- The symbol of an instruction, if it has one, is a known name. -/
def Instruction.Knows (known : String → Prop) (i : Instruction) : Prop :=
  ∀ name, i.symbol? = some name → known name

/-- A statement and its renamed copy. -/
def StatementsRenamed (ρ : String → String) (known : String → Prop) (s s' : Statement) : Prop :=
  s' = s.rename ρ ∧ s.instruction.Knows known

/-- The layouts of two programs have the same instructions in place, but for names. -/
structure LayoutsRenamed (ρ : String → String) (known : String → Prop) (l l' : Layout) :
    Prop where
  /-- Their tables hold the same values. -/
  tables : TablesRenamed ρ known l.table l'.table
  /-- Their statements are the same. -/
  statements : List.Forall₂ (StatementsRenamed ρ known) l.statements.toList l'.statements.toList

section
variable {known : String → Prop} (hρ : Faithful ρ known) {l l' : Layout}
  (h : LayoutsRenamed ρ known l l') (n : Nat)
include h

theorem LayoutsRenamed.size : l'.statements.size = l.statements.size := by
  rw [← Array.length_toList, ← Array.length_toList, h.statements.length_eq]

theorem LayoutsRenamed.push {i : Instruction} (hi : i.Knows known) :
    LayoutsRenamed ρ known { l with statements := l.statements.push ⟨n, i⟩ }
      { l' with statements := l'.statements.push ⟨n, i.rename ρ⟩ } where
  tables := h.tables
  statements := by
    rw [Array.toList_push, Array.toList_push]
    exact List.rel_append h.statements (.cons ⟨rfl, hi⟩ .nil)

include hρ

theorem bindLabel_renamed {name : String} (hname : known name) :
    (∃ m m', l.bindLabel name = .ok m ∧ l'.bindLabel (newName ρ name) = .ok m'
        ∧ LayoutsRenamed ρ known m m')
      ∨ ∃ fault, l.bindLabel name = .error fault
        ∧ l'.bindLabel (newName ρ name) = .error (fault.rename ρ) := by
  -- both labels stand behind as many instructions, and both are reserved or neither is
  have hsize := h.size
  unfold Layout.bindLabel
  rw [hρ.reserved name hname, hsize]
  by_cases hres : isReserved name = true
  · rw [if_pos hres, if_pos hres]
    exact .inl ⟨l, l', rfl, rfl, h⟩
  · rw [if_neg hres, if_neg hres]
    by_cases hpast : l.statements.size > maxAddress
    · rw [if_pos hpast, if_pos hpast]
      exact .inr ⟨_, rfl, rfl⟩
    · rw [if_neg hpast, if_neg hpast]
      rcases bind_renamed hρ h.tables hname l.statements.size with
        ⟨u, u', hu, hu', htables⟩ | ⟨existing, hu, hu'⟩
      · rw [hu, hu']
        exact .inl ⟨_, _, rfl, rfl, htables, h.statements⟩
      · rw [hu, hu']
        exact .inr ⟨_, rfl, rfl⟩

theorem place_renamed {i : Instruction} (hi : i.Knows known) :
    (∃ m m', l.place n i = .ok m ∧ l'.place n (i.rename ρ) = .ok m' ∧ LayoutsRenamed ρ known m m')
      ∨ ∃ fault, l.place n i = .error fault ∧ l'.place n (i.rename ρ) = .error (fault.rename ρ) := by
  cases i with
  | address operand =>
      cases operand with
      | literal value => exact .inl ⟨_, _, rfl, rfl, h.push n hi⟩
      | symbol name => exact .inl ⟨_, _, rfl, rfl, h.push n hi⟩
  | compute dest comp jump => exact .inl ⟨_, _, rfl, rfl, h.push n hi⟩
  | label name => exact bindLabel_renamed hρ h (hi name rfl)

/-- **A line and its renamed copy are laid out alike.** -/
theorem addLine_renamed {line line' : SourceLine} (hnumber : line'.number = line.number)
    {i : Instruction} (hi : i.Knows known) (hread : Instruction.read line.text = .ok i)
    (hread' : Instruction.read line'.text = .ok (i.rename ρ)) :
    OutcomesRenamed ρ (LayoutsRenamed ρ known) (l.addLine line) (l'.addLine line') := by
  unfold Layout.addLine
  rw [hread, hread', hnumber]
  show OutcomesRenamed ρ _ ((l.place line.number i).mapError _)
    ((l'.place line.number (i.rename ρ)).mapError _)
  -- both lines are read, so what is left of `addLine` is to place the instruction
  rcases place_renamed hρ h line.number hi with ⟨m, m', hm, hm', hrel⟩ | ⟨fault, hm, hm'⟩
  · rw [hm, hm']
    exact .ok hrel
  · rw [hm, hm']
    exact .error _

end

theorem symbol_known_of_mem {lines : List SourceLine} {line : SourceLine} (hmem : line ∈ lines)
    {i : Instruction} (hread : Instruction.read line.text = .ok i) :
    i.Knows fun name => isReserved name = true ∨ name ∈ freeSymbols lines := by
  intro name hname
  cases hres : isReserved name with
  | true => exact .inl rfl
  | false =>
      have hs : (⟨line.number, i⟩ : Statement) ∈ readProgram lines :=
        List.mem_filterMap.mpr ⟨line, hmem, by rw [hread]; rfl⟩
      refine .inr (List.mem_filter.mpr ⟨List.mem_filterMap.mpr ⟨_, hs, hname⟩, ?_⟩)
      rw [hres]
      rfl

/-- **The first pass treats a program and its renamed copy alike.** -/
theorem ofLines_renamed {lines lines' : List SourceLine} (hρ : RenamesIn ρ lines)
    (h : Renamed ρ lines lines') :
    OutcomesRenamed ρ
      (LayoutsRenamed ρ fun name => isReserved name = true ∨ name ∈ freeSymbols lines)
      (Layout.ofLines .platform lines) (Layout.ofLines .platform lines') := by
  have hfaithful := faithful_of_renamesIn hρ
  -- a line is also one of the lines, so that its symbol is a known name
  have hboth := (List.forall₂_and_left lines lines').mpr ⟨fun _ hm => hm, h⟩
  refine foldlM_renamed ?_ hboth ⟨tablesRenamed_platform hfaithful, .nil⟩
  rintro l l' line line' hl ⟨hmem, hnumber, i, hread, hread'⟩
  exact addLine_renamed hfaithful hl hnumber (symbol_known_of_mem hmem hread) hread hread'

/-! ## §6. The second pass. -/

/-- The images of two programs have the same words. -/
structure ImagesRenamed (ρ : String → String) (known : String → Prop) (img img' : Image) :
    Prop where
  /-- Their tables hold the same values. -/
  tables : TablesRenamed ρ known img.table img'.table
  /-- Their words are the same. -/
  words : img'.words = img.words

section
variable {known : String → Prop} (hρ : Faithful ρ known) {img img' : Image}
  (h : ImagesRenamed ρ known img img')
include h

theorem ImagesRenamed.push {t t' : SymbolTable} (ht : TablesRenamed ρ known t t') (w : Word) :
    ImagesRenamed ρ known ({ img with table := t }.push w) ({ img' with table := t' }.push w) where
  tables := ht
  words := congrArg (·.push w) h.words

include hρ

/-- **A statement and its renamed copy are encoded alike.** -/
theorem addStatement_renamed {s s' : Statement} (hs : StatementsRenamed ρ known s s') :
    OutcomesRenamed ρ (ImagesRenamed ρ known) (img.addStatement s) (img'.addStatement s') := by
  obtain ⟨rfl, hknown⟩ := hs
  obtain ⟨line, i⟩ := s
  cases i with
  | address operand =>
      cases operand with
      | literal value => exact .ok (h.push h.tables (.address value))
      | symbol name =>
          unfold Image.addStatement
          simp only [Statement.rename, Instruction.rename, Image.encode]
          rcases resolve_renamed hρ h.tables (hknown name rfl) with
            ⟨v, u, u', hu, hu', htables⟩ | ⟨hu, hu'⟩
          · rw [hu, hu']
            exact .ok (h.push htables (.address v))
          · rw [hu, hu']
            exact .error _
  | compute dest comp jump => exact .ok (h.push h.tables (.compute dest comp jump))
  | label name => exact .ok h

end

/-- **The second pass treats statements and their renamed copies alike.** -/
theorem ofStatements_renamed {known : String → Prop} (hρ : Faithful ρ known) {l l' : Layout}
    (h : LayoutsRenamed ρ known l l') :
    OutcomesRenamed ρ (ImagesRenamed ρ known) (Image.ofStatements l.table l.statements.toList)
      (Image.ofStatements l'.table l'.statements.toList) := by
  have hstep : ∀ img img' s s', ImagesRenamed ρ known img img' → StatementsRenamed ρ known s s' →
      OutcomesRenamed ρ (ImagesRenamed ρ known) (img.addStatement s) (img'.addStatement s') :=
    fun _ _ _ _ himg hs => addStatement_renamed hρ himg hs
  exact foldlM_renamed hstep h.statements ⟨h.tables, rfl⟩

theorem LayoutsRenamed.statements_eq {known : String → Prop} {l l' : Layout}
    (h : LayoutsRenamed ρ known l l') :
    l'.statements.toList = l.statements.toList.map (Statement.rename ρ) := by
  have hall := h.statements
  generalize l.statements.toList = statements at hall
  generalize l'.statements.toList = statements' at hall
  induction hall with
  | nil => rfl
  | cons hs _ ih => rw [List.map_cons, ← ih, hs.1]

/-! ## §7. The whole assembly. -/

theorem assemble_renamed {lines lines' : List SourceLine} (hρ : RenamesIn ρ lines)
    (h : Renamed ρ lines lines') :
    OutcomesRenamed ρ (SameAssembly ρ) (assemble lines) (assemble lines') := by
  have hfaithful := faithful_of_renamesIn hρ
  refine (ofLines_renamed hρ h).bind ?_
  intro l l' hl
  refine (ofStatements_renamed hfaithful hl).bind ?_
  intro img img' himg
  exact .ok
    { words := congrArg Array.toList himg.words
      entries := himg.tables.entries_perm hfaithful
      next := himg.tables.next
      statements := hl.statements_eq }

/-- The renamed copies can be read as well. -/
theorem Renamed.readable {lines lines' : List SourceLine} (h : Renamed ρ lines lines') :
    ∀ line' ∈ lines', ∃ i, Instruction.read line'.text = .ok i := by
  induction h with
  | nil => intro line' hmem; cases hmem
  | cons hline _ ih =>
      obtain ⟨-, i, -, hread'⟩ := hline
      exact List.forall_mem_cons.mpr ⟨⟨_, hread'⟩, ih⟩

/-- A symbol is a symbol under its new name as well. -/
theorem isSymbol_newName {lines : List SourceLine} (hρ : RenamesIn ρ lines) {name : String}
    (hname : isSymbol name = true) (hknown : isReserved name = true ∨ name ∈ freeSymbols lines) :
    isSymbol (newName ρ name) = true := by
  cases hres : isReserved name with
  | true => rw [newName_reserved hres]; exact hname
  | false =>
      rw [newName_free hres]
      exact hρ.symbol name (hknown.resolve_left (by rw [hres]; exact Bool.false_ne_true))

theorem wellSpelt_rename {lines : List SourceLine} (hρ : RenamesIn ρ lines) {i : Instruction}
    (hi : i.WellSpelt)
    (hknown : i.Knows fun name => isReserved name = true ∨ name ∈ freeSymbols lines) :
    (i.rename ρ).WellSpelt := by
  cases i with
  | address operand =>
      cases operand with
      | literal value => exact hi
      | symbol name => exact isSymbol_newName hρ hi (hknown name rfl)
  | label name => exact isSymbol_newName hρ hi (hknown name rfl)
  | compute dest comp jump => trivial

/-- Lines that are written anew are renamed. -/
theorem renamed_renameLine {lines : List SourceLine}
    (hread : ∀ line ∈ lines, ∃ i, Instruction.read line.text = .ok i) (hρ : RenamesIn ρ lines) :
    Renamed ρ lines (lines.map (renameLine ρ)) := by
  unfold Renamed
  rw [List.forall₂_map_right_iff, List.forall₂_same]
  intro line hmem
  obtain ⟨i, hi⟩ := hread line hmem
  have hspelt := wellSpelt_rename hρ (wellSpelt_of_read hi) (symbol_known_of_mem hmem hi)
  unfold renameLine
  rw [hi]
  exact ⟨rfl, i, rfl, read_render hspelt⟩

theorem OutcomesRenamed.sameButNames {o o' : Except (Located Fault) Assembly}
    (h : OutcomesRenamed ρ (SameAssembly ρ) o o')
    (hmisuse : ∀ e, o = .error e → ∃ reason, e.fault.diagnosis = .misuse reason)
    (hmisuse' : ∀ e, o' = .error e → ∃ reason, e.fault.diagnosis = .misuse reason) :
    SameButNames ρ o o' := by
  cases h with
  | ok same => exact .assembled same
  | error e => exact .refused rfl rfl (hmisuse e rfl) (hmisuse' _ rfl)

/-- What comes to the same as an assembly is an assembly. -/
theorem SameButNames.exists_ok {o o' : Except (Located Fault) Assembly} {asm : Assembly}
    (h : SameButNames ρ o o') (ho : o = .ok asm) :
    ∃ asm', o' = .ok asm' ∧ SameAssembly ρ asm asm' := by
  cases h with
  | assembled same => cases ho; exact ⟨_, rfl, same⟩
  | refused => cases ho

/-- **Assembly does not depend on what the symbols are called.**  Lines that can be read
are written anew under new names; and these, like all other lines that read as the
renamed instructions, come to what the first lines come to, but for names. -/
theorem assembly_renamed {lines : List SourceLine}
    (hread : ∀ line ∈ lines, ∃ i, Instruction.read line.text = .ok i) (hρ : RenamesIn ρ lines) :
    Renamed ρ lines (lines.map (renameLine ρ))
      ∧ ∀ lines', Renamed ρ lines lines' →
          SameButNames ρ (assemble lines) (assemble lines') := by
  refine ⟨renamed_renameLine hread hρ, ?_⟩
  intro lines' h
  exact (assemble_renamed hρ h).sameButNames (fun _ he => misuse_of_readable hread he)
    fun _ he => misuse_of_readable h.readable he

/-- Two labels and a variable exchange their names, another variable gets a longer one. -/
def exchangeNames : String → String
  | "END" => "x"
  | "x" => "LOOP"
  | "LOOP" => "END"
  | name => name ++ ".2"

theorem assembly_renamed_exchanged : RenamesIn exchangeNames mixedSource
    ∧ Renamed exchangeNames mixedSource (mixedSource.map (renameLine exchangeNames))
    ∧ ∃ asm asm', assemble mixedSource = .ok asm
      ∧ assemble (mixedSource.map (renameLine exchangeNames)) = .ok asm'
      ∧ SameAssembly exchangeNames asm asm' := by
  have hread : ∀ line ∈ mixedSource, ∃ i, Instruction.read line.text = .ok i := by
    have hall : ∀ line ∈ mixedSource,
        (Instruction.read line.text).toOption.map (fun _ => ()) = some () := by decide +kernel
    intro line hmem
    obtain ⟨i, hi, -⟩ := exists_ok_of_map (hall line hmem)
    exact ⟨i, hi⟩
  have hρ : RenamesIn exchangeNames mixedSource :=
    ⟨by decide +kernel, by decide +kernel, by decide +kernel⟩
  obtain ⟨hrenamed, hsame⟩ := assembly_renamed hread hρ
  have hrun : ((assemble mixedSource).toOption.map fun asm => asm.words.length) = some 8 := by
    decide +kernel
  obtain ⟨asm, hasm, -⟩ := exists_ok_of_map hrun
  obtain ⟨asm', hasm', hboth⟩ := (hsame _ hrenamed).exists_ok hasm
  exact ⟨hρ, hrenamed, asm, asm', hasm, hasm', hboth⟩

end HackPlatform.Asm
