/-
  HackPlatform.Proofs.Asm.Resolution
  ────────────────────────────────
  **WHAT SYMBOLS STAND FOR: a definition without passes.**

  The assembler reads a program twice and keeps a table.  Here the value of a
  symbol is written down at once, from the program as a whole:

      a platform symbol     the platform's value, whatever the program does
      a label               the number of instructions before its first definition
      any other operand     16 plus the number of distinct such operands that
                            are first met before it

  `Laid` is what the first pass keeps true while it reads lines, `Encoded` what
  the second keeps true while it encodes statements.

  Main results:
    * `laid_of_ofLines`, `encoded_of_ofStatements`, the invariants of the passes;
    * `assemble_eq_declared`, an assembly is the declared one.
-/
import Mathlib.Data.Finset.Card
import Mathlib.Data.Finset.Dedup
import Mathlib.Data.List.Forall2
import HackPlatform.Asm.Assembly
import HackPlatform.Proofs.Asm.Reading
import HackPlatform.Proofs.Asm.Table
import HackPlatform.Proofs.Asm.Word

namespace HackPlatform.Asm

/-! ## §1. Programs. -/

/-- The lines read as these statements, labels included, each with its line. -/
def ReadAs (lines : List SourceLine) (program : List Statement) : Prop :=
  List.Forall₂ (fun line s => s.line = line.number ∧ Instruction.read line.text = .ok s.instruction)
    lines program

/-- Takes room in ROM. -/
def Statement.isCode (s : Statement) : Bool := !s.instruction.isLabel

/-- The number of instructions that take room in ROM. -/
def codeSize (program : List Statement) : Nat := program.countP Statement.isCode

/-- The program defines a label of that name. -/
def hasLabel (program : List Statement) (name : String) : Bool :=
  program.any (·.instruction == .label name)

/-- The symbol that a statement loads, if it loads one. -/
def Statement.reference? (s : Statement) : Option String :=
  match s.instruction with
  | .address (.symbol name) => some name
  | _ => none

/-! ## §2. The declared values. -/

/-- The ROM address a label stands for: the number of instructions before its first
definition. -/
def labelAddress (program : List Statement) (name : String) : Nat :=
  codeSize (program.takeWhile (·.instruction != .label name))

/-- The operands that are variables, at each place they are met. -/
def variableReferences (program : List Statement) : List String :=
  (program.filterMap Statement.reference?).filter fun name =>
    !isReserved name && !hasLabel program name

/-- The RAM address of a variable: 16 plus the number of distinct variables met before
it is first met. -/
def variableAddress (program : List Statement) (name : String) : Nat :=
  variableBase + ((variableReferences program).takeWhile (· != name)).toFinset.card

/-- The value of a symbol in a program, if it has one. -/
def declaredValue (program : List Statement) (name : String) : Option Nat :=
  match reservedSymbols.lookup name with
  | some value => some value
  | none =>
      if hasLabel program name then some (labelAddress program name)
      else if name ∈ variableReferences program then some (variableAddress program name)
      else none

/-! ## §3. The first pass. -/

/-- What is known after the first pass has read a program. -/
structure Laid (program : List Statement) (l : Layout) : Prop where
  /-- All but the labels are placed, in order. -/
  placed : l.statements.toList = program.filter Statement.isCode
  /-- Platform symbols keep their values. -/
  reserved : ∀ name v, reservedSymbols.lookup name = some v → l.table.lookup name = some v
  /-- A label has the address of every place it is defined at. -/
  labels : ∀ i line name, program[i]? = some ⟨line, .label name⟩ → isReserved name = false →
    l.table.lookup name = some (codeSize (program.take i)) ∧ codeSize (program.take i) ≤ maxAddress
  /-- No other name has a value. -/
  others : ∀ name, isReserved name = false → hasLabel program name = false →
    l.table.lookup name = none
  /-- No variable is allocated. -/
  next : l.table.nextVariable = variableBase

theorem Laid.size {program : List Statement} {l : Layout} (h : Laid program l) :
    l.statements.size = codeSize program := by
  rw [← Array.length_toList, h.placed, codeSize, List.countP_eq_length_filter]

theorem laid_nil : Laid [] ⟨.platform, #[]⟩ where
  placed := rfl
  reserved := fun name v h => (SymbolTable.lookup_platform name).trans h
  labels := fun i line name h => by simp at h
  others := fun name h _ => by
    rw [SymbolTable.lookup_platform, ← isReserved_eq_false_iff, h]
  next := rfl

theorem hasLabel_append (program : List Statement) (s : Statement) (name : String) :
    hasLabel (program ++ [s]) name = (hasLabel program name || s.instruction == .label name) := by
  unfold hasLabel
  rw [List.any_append, List.any_cons, List.any_nil, Bool.or_false]

/-- What is found in a list with one more item is an old item or the new one. -/
theorem getElem?_append_singleton {α : Type} {items : List α} {s x : α} {i : Nat}
    (h : (items ++ [s])[i]? = some x) :
    (items[i]? = some x ∧ (items ++ [s]).take i = items.take i)
      ∨ (x = s ∧ (items ++ [s]).take i = items) := by
  rcases Nat.lt_trichotomy i items.length with hi | hi | hi
  · rw [List.getElem?_append_left hi] at h
    exact .inl ⟨h, List.take_append_of_le_length (by omega)⟩
  · subst hi
    rw [List.getElem?_append_right (Nat.le_refl _), Nat.sub_self] at h
    exact .inr ⟨(Option.some.inj h).symm, List.take_left⟩
  · rw [List.getElem?_eq_none (by simp; omega)] at h
    cases h

/-- What is found at an index stands between what is before and what is behind it. -/
theorem eq_take_cons_drop {α : Type} {items : List α} {i : Nat} {x : α}
    (h : items[i]? = some x) : items = items.take i ++ x :: items.drop (i + 1) := by
  obtain ⟨hi, rfl⟩ := List.getElem?_eq_some_iff.mp h
  rw [← List.drop_eq_getElem_cons hi, List.take_append_drop]

theorem Laid.place_code {program : List Statement} {l : Layout} (h : Laid program l)
    {s : Statement} (hs : s.isCode = true) :
    Laid (program ++ [s]) { l with statements := l.statements.push s } where
  placed := by
    rw [Array.toList_push, h.placed, List.filter_append, List.filter_cons_of_pos hs,
      List.filter_nil]
  reserved := h.reserved
  labels := fun i line name hi hname => by
    rcases getElem?_append_singleton hi with ⟨hold, htake⟩ | ⟨rfl, -⟩
    · rw [htake]
      exact h.labels i line name hold hname
    · cases hs
  others := fun name hname hno => by
    rw [hasLabel_append, Bool.or_eq_false_iff] at hno
    exact h.others name hname hno.1
  next := h.next

theorem Laid.place_reserved {program : List Statement} {l : Layout} (h : Laid program l)
    {line : Nat} {name : String} (hname : isReserved name = true) :
    Laid (program ++ [⟨line, .label name⟩]) l where
  placed := by
    rw [h.placed, List.filter_append, List.filter_cons_of_neg (by rintro ⟨⟩), List.filter_nil,
      List.append_nil]
  reserved := h.reserved
  labels := fun i line' name' hi hname' => by
    rcases getElem?_append_singleton hi with ⟨hold, htake⟩ | ⟨hx, -⟩
    · rw [htake]
      exact h.labels i line' name' hold hname'
    · cases hx
      rw [hname] at hname'
      cases hname'
  others := fun name' hname' hno => by
    rw [hasLabel_append, Bool.or_eq_false_iff] at hno
    exact h.others name' hname' hno.1
  next := h.next

theorem Laid.place_label {program : List Statement} {l : Layout} (h : Laid program l)
    {line : Nat} {name : String} (hname : isReserved name = false)
    (hsize : l.statements.size ≤ maxAddress) {table : SymbolTable}
    (hbind : l.table.bind name l.statements.size = .ok table) :
    Laid (program ++ [⟨line, .label name⟩]) { l with table := table } := by
  obtain ⟨hsame, hlookup, hnext⟩ := SymbolTable.bind_ok hbind
  refine ⟨?_, ?_, ?_, ?_, hnext.trans h.next⟩
  · rw [h.placed, List.filter_append, List.filter_cons_of_neg (by rintro ⟨⟩), List.filter_nil,
      List.append_nil]
  · intro name' v hv
    have hne : name' ≠ name := by
      rintro rfl
      rw [isReserved_eq_false_iff, hv] at hname
      cases hname
    rw [hlookup, if_neg hne]
    exact h.reserved name' v hv
  · intro i line' name' hi hname'
    rcases getElem?_append_singleton hi with ⟨hold, htake⟩ | ⟨hx, htake⟩
    · obtain ⟨hval, hle⟩ := h.labels i line' name' hold hname'
      rw [htake]
      refine ⟨?_, hle⟩
      by_cases he : name' = name
      -- the name is bound already, so `bind` was given the same address
      · rw [hlookup, if_pos he, ← hsame _ (he ▸ hval)]
      · rw [hlookup, if_neg he, hval]
    · cases hx
      rw [htake, ← h.size, hlookup, if_pos rfl]
      exact ⟨rfl, hsize⟩
  · intro name' hname' hno
    rw [hasLabel_append, Bool.or_eq_false_iff] at hno
    have hne : name' ≠ name := by
      rintro rfl
      simp at hno
    rw [hlookup, if_neg hne]
    exact h.others name' hname' hno.1

/-- All that binding a label can come to: it is one of the platform's and stays what it is,
or there is room for it and it has no other address. -/
theorem bindLabel_eq_ok_iff {l l' : Layout} {name : String} :
    l.bindLabel name = .ok l' ↔
      (isReserved name = true ∧ l' = l)
        ∨ (isReserved name = false ∧ l.statements.size ≤ maxAddress
          ∧ ∃ table, l.table.bind name l.statements.size = .ok table
            ∧ l' = { l with table := table }) := by
  unfold Layout.bindLabel
  cases hname : isReserved name with
  | true => simp [eq_comm]
  | false =>
      by_cases hsize : l.statements.size > maxAddress
      · have hroom : ¬ l.statements.size ≤ maxAddress := Nat.not_le_of_gt hsize
        simp [hsize, hroom]
      · have hroom : l.statements.size ≤ maxAddress := Nat.le_of_not_gt hsize
        cases l.table.bind name l.statements.size with
        | error existing => simp [hsize]
        | ok table => simp [hsize, hroom, eq_comm]

/-- A label is refused if it stands too far behind, or else if it has another address. -/
theorem bindLabel_eq_error_iff {l : Layout} {name : String} {fault : Fault} :
    l.bindLabel name = .error fault ↔
      isReserved name = false
        ∧ ((maxAddress < l.statements.size ∧ fault = .labelPastEnd name)
          ∨ (l.statements.size ≤ maxAddress
            ∧ ∃ v, l.table.lookup name = some v ∧ v ≠ l.statements.size
              ∧ fault = .labelRebound name v)) := by
  unfold Layout.bindLabel
  cases hname : isReserved name with
  | true => simp
  | false =>
      by_cases hsize : l.statements.size > maxAddress
      · have hroom : ¬ l.statements.size ≤ maxAddress := Nat.not_le_of_gt hsize
        simp [hsize, hroom, eq_comm]
      · have hroom : l.statements.size ≤ maxAddress := Nat.le_of_not_gt hsize
        cases hbind : l.table.bind name l.statements.size with
        | error existing =>
            obtain ⟨hlookup, hmoved⟩ := SymbolTable.bind_eq_error_iff.mp hbind
            simp [hsize, hroom, hlookup, hmoved, eq_comm]
        | ok table =>
            have hstays := (SymbolTable.bind_ok hbind).1
            simp +contextual [hsize, hstays]

/-- **Placing one more instruction keeps the first pass's invariant.** -/
theorem Laid.place {program : List Statement} {l l' : Layout} (h : Laid program l) {line : Nat}
    {i : Instruction} (hplace : l.place line i = .ok l') : Laid (program ++ [⟨line, i⟩]) l' := by
  cases i with
  | address operand => cases hplace; exact h.place_code rfl
  | compute dest comp jump => cases hplace; exact h.place_code rfl
  | label name =>
      rcases bindLabel_eq_ok_iff.mp hplace with ⟨hname, rfl⟩ | ⟨hname, hsize, table, hbind, rfl⟩
      · exact h.place_reserved hname
      · exact h.place_label hname hsize hbind

theorem addLine_ok {l l' : Layout} {line : SourceLine} (h : l.addLine line = .ok l') :
    ∃ i, Instruction.read line.text = .ok i ∧ l.place line.number i = .ok l' := by
  unfold Layout.addLine at h
  obtain ⟨i, hread, hplace⟩ := bind_eq_ok_iff.mp (mapError_eq_ok_iff.mp h)
  exact ⟨i, hread, hplace⟩

/-- **The first pass reads every line and lays the program out.** -/
theorem laid_of_ofLines {lines : List SourceLine} {l : Layout}
    (h : Layout.ofLines .platform lines = .ok l) :
    ∃ program, ReadAs lines program ∧ Laid program l := by
  refine inv_of_foldlM (fun done l => ∃ program, ReadAs done program ∧ Laid program l) ?_
    ⟨[], .nil, laid_nil⟩ h
  rintro done l₁ line l₂ ⟨program, hread, hlaid⟩ hline
  obtain ⟨i, hi, hplace⟩ := addLine_ok hline
  refine ⟨program ++ [⟨line.number, i⟩], ?_, hlaid.place hplace⟩
  exact List.rel_append hread (.cons ⟨rfl, hi⟩ .nil)

/-! ## §4. The second pass. -/

/-- The word of an instruction under a table, if it has one. -/
def Instruction.word? (table : SymbolTable) : Instruction → Option Word
  | .address (.literal value) => some (.address value)
  | .address (.symbol name) => (table.lookup name).map .address
  | .compute dest comp jump => some (.compute dest comp jump)
  | .label _ => none

/-- The operands that a table has no value for, at each place they are met. -/
def newReferences (base : SymbolTable) (statements : List Statement) : List String :=
  (statements.filterMap Statement.reference?).filter fun name => (base.lookup name).isNone

/-- What is known after the second pass has encoded some statements, starting from a
table. -/
structure Encoded (base : SymbolTable) (done : List Statement) (img : Image) : Prop where
  /-- Each statement but a label has its word under the table as it is now. -/
  words : img.words.toList.map some
    = (done.filter Statement.isCode).map (·.instruction.word? img.table)
  /-- The bindings of the first table are kept. -/
  kept : base.Extends img.table
  /-- A new operand has an address by the number of new operands met before it. -/
  fresh : ∀ name, base.lookup name = none → img.table.lookup name
    = if name ∈ newReferences base done then
        some (base.nextVariable + ((newReferences base done).takeWhile (· != name)).toFinset.card)
      else none
  /-- The addresses given to new operands fit in 15 bits. -/
  small : ∀ name v, base.lookup name = none → img.table.lookup name = some v → v ≤ maxAddress
  /-- Every new operand has taken one address. -/
  next : img.table.nextVariable = base.nextVariable + (newReferences base done).toFinset.card

theorem encoded_nil (base : SymbolTable) : Encoded base [] ⟨base, #[]⟩ where
  words := rfl
  kept := .refl base
  fresh := fun _ h => h
  small := fun name v hnone hsome => by rw [hnone] at hsome; cases hsome
  next := rfl

/-- A word does not change when the table grows. -/
theorem word?_of_extends {t t' : SymbolTable} (h : t.Extends t') {i : Instruction} {w : Word}
    (hw : i.word? t = some w) : i.word? t' = some w := by
  cases i with
  | address operand =>
      cases operand with
      | literal value => exact hw
      | symbol name =>
          obtain ⟨v, hv, rfl⟩ := Option.map_eq_some_iff.mp hw
          exact Option.map_eq_some_iff.mpr ⟨v, h name v hv, rfl⟩
  | compute dest comp jump => exact hw
  | label name => cases hw

theorem Encoded.words_of_extends {base t : SymbolTable} {done : List Statement} {img : Image}
    (h : Encoded base done img) (ht : img.table.Extends t) :
    img.words.toList.map some = (done.filter Statement.isCode).map (·.instruction.word? t) := by
  rw [h.words]
  apply List.map_congr_left
  intro s hs
  -- the word of `s` is one of those pushed, so it is there
  have hmem : s.instruction.word? img.table ∈ img.words.toList.map some := by
    rw [h.words]
    exact List.mem_map_of_mem hs
  obtain ⟨w, -, hw⟩ := List.mem_map.mp hmem
  rw [word?_of_extends ht hw.symm, hw]

theorem newReferences_append (base : SymbolTable) (done : List Statement) (s : Statement) :
    newReferences base (done ++ [s])
      = newReferences base done
        ++ (s.reference?.toList.filter fun n => (base.lookup n).isNone) := by
  unfold newReferences
  rw [List.filterMap_append, List.filter_append]
  cases hr : s.reference? with
  | none => rw [List.filterMap_cons_none hr]; rfl
  | some name => rw [List.filterMap_cons_some hr]; rfl

/-! What is met before a name depends on the list only up to its first occurrence. -/

theorem takeWhile_append_cons {name : String} {names : List String} (h : name ∉ names)
    (more : List String) : (names ++ name :: more).takeWhile (· != name) = names := by
  have hne : ∀ n ∈ names, (n != name) = true := fun n hn =>
    bne_iff_ne.mpr fun he => h (he ▸ hn)
  rw [List.takeWhile_append_of_pos hne]
  simp

theorem takeWhile_append_of_mem {name : String} {names : List String} (h : name ∈ names)
    (more : List String) :
    (names ++ more).takeWhile (· != name) = names.takeWhile (· != name) := by
  obtain ⟨before, after, rfl, hbefore⟩ := List.eq_append_cons_of_mem h
  rw [List.append_assoc, List.cons_append, takeWhile_append_cons hbefore,
    takeWhile_append_cons hbefore]

/-- A name that is met before another has fewer names before it. -/
theorem card_takeWhile_lt {names : List String} {x y : String}
    (h : x ∈ names.takeWhile (· != y)) :
    (names.takeWhile (· != x)).toFinset.card < (names.takeWhile (· != y)).toFinset.card := by
  obtain ⟨before, after, hsplit, hbefore⟩ := List.eq_append_cons_of_mem h
  have hnames : names = before ++ x :: (after ++ names.dropWhile (· != y)) := by
    conv_lhs => rw [← List.takeWhile_append_dropWhile (p := (· != y)) (l := names), hsplit]
    rw [List.append_assoc, List.cons_append]
  have hx : names.takeWhile (· != x) = before := by
    rw [hnames]
    exact takeWhile_append_cons hbefore _
  rw [hx, hsplit]
  have hsubset : insert x before.toFinset ⊆ (before ++ x :: after).toFinset := by
    intro n hn
    simp only [Finset.mem_insert, List.mem_toFinset, List.mem_append, List.mem_cons] at hn ⊢
    tauto
  have hcard := Finset.card_le_card hsubset
  rw [Finset.card_insert_of_notMem (by rwa [List.mem_toFinset])] at hcard
  omega

/-- Of two names, one is met before the other. -/
theorem mem_takeWhile_or {names : List String} {x y : String} (hx : x ∈ names) (hne : x ≠ y)
    (hy : y ∈ names) : x ∈ names.takeWhile (· != y) ∨ y ∈ names.takeWhile (· != x) := by
  obtain ⟨before, after, rfl, hbefore⟩ := List.eq_append_cons_of_mem hx
  by_cases hearlier : y ∈ before
  · right
    rwa [takeWhile_append_cons hbefore]
  · left
    obtain ⟨between, behind, hsplit, hbetween⟩ :=
      List.eq_append_cons_of_mem (show y ∈ x :: after by simpa [hearlier] using hy)
    rw [hsplit, ← List.append_assoc, takeWhile_append_cons (by simp [hearlier, hbetween])]
    cases between with
    | nil => exact absurd (List.cons.inj hsplit).1 hne
    | cons first between =>
        rw [(List.cons.inj hsplit).1]
        simp

/-- Names with as many names before them are the same. -/
theorem card_takeWhile_inj {names : List String} {x y : String} (hx : x ∈ names) (hy : y ∈ names)
    (h : (names.takeWhile (· != x)).toFinset.card = (names.takeWhile (· != y)).toFinset.card) :
    x = y := by
  by_contra hne
  rcases mem_takeWhile_or hx hne hy with hearlier | hearlier
  · have hlt := card_takeWhile_lt hearlier
    omega
  · have hlt := card_takeWhile_lt hearlier
    omega

/-- **Different variables have different addresses.** -/
theorem variableAddress_inj {program : List Statement} {x y : String}
    (hx : x ∈ variableReferences program) (hy : y ∈ variableReferences program)
    (h : variableAddress program x = variableAddress program y) : x = y :=
  card_takeWhile_inj hx hy (Nat.add_left_cancel h)

section
variable {base : SymbolTable} {done : List Statement} {img : Image}

/-- A statement with a word adds it, under any larger table. -/
theorem Encoded.words_push (h : Encoded base done img) {t : SymbolTable}
    (ht : img.table.Extends t) {s : Statement} (hs : s.isCode = true) {w : Word}
    (hw : s.instruction.word? t = some w) :
    (img.words.push w).toList.map some
      = ((done ++ [s]).filter Statement.isCode).map (·.instruction.word? t) := by
  rw [Array.toList_push, List.map_append, h.words_of_extends ht, List.filter_append,
    List.filter_cons_of_pos hs, List.filter_nil, List.map_append, List.map_singleton,
    List.map_singleton, hw]

/-- A statement that brings no new operand leaves the table as it is. -/
theorem Encoded.keep_table (h : Encoded base done img) {s : Statement}
    (hnew : newReferences base (done ++ [s]) = newReferences base done) {words : Array Word}
    (hwords : words.toList.map some
      = ((done ++ [s]).filter Statement.isCode).map (·.instruction.word? img.table)) :
    Encoded base (done ++ [s]) { img with words } := by
  refine ⟨hwords, h.kept, ?_, h.small, ?_⟩
  · rw [hnew]
    exact h.fresh
  · rw [hnew]
    exact h.next

theorem newReferences_of_none {s : Statement} (hr : s.reference? = none) :
    newReferences base (done ++ [s]) = newReferences base done := by
  rw [newReferences_append, hr]
  exact List.append_nil _

theorem Encoded.push_plain (h : Encoded base done img) {s : Statement} (hs : s.isCode = true)
    (hr : s.reference? = none) {w : Word} (hw : s.instruction.word? img.table = some w) :
    Encoded base (done ++ [s]) (img.push w) :=
  h.keep_table (newReferences_of_none hr) (h.words_push (.refl _) hs hw)

theorem Encoded.push_known (h : Encoded base done img) {s : Statement} {name : String}
    (hs : s.instruction = .address (.symbol name)) {v : Nat}
    (hv : img.table.lookup name = some v) :
    Encoded base (done ++ [s]) (img.push (.address v)) := by
  have hr : s.reference? = some name := by rw [Statement.reference?, hs]
  have hcode : s.isCode = true := by rw [Statement.isCode, hs]; rfl
  have hw : s.instruction.word? img.table = some (.address v) := by
    rw [hs]
    exact Option.map_eq_some_iff.mpr ⟨v, hv, rfl⟩
  have hwords := h.words_push (.refl _) hcode hw
  cases hbase : base.lookup name with
  | some _ =>
      have hnew : newReferences base (done ++ [s]) = newReferences base done := by
        rw [newReferences_append, hr]
        simp [hbase]
      exact h.keep_table hnew hwords
  | none =>
      -- it is new to the first table, but was met before: its address is there already
      have hnew : newReferences base (done ++ [s]) = newReferences base done ++ [name] := by
        rw [newReferences_append, hr]
        simp [hbase]
      have hmem : name ∈ newReferences base done := by
        by_contra hno
        have := h.fresh name hbase
        rw [if_neg hno, hv] at this
        cases this
      have hmem_iff : ∀ n, n ∈ newReferences base done ++ [name] ↔ n ∈ newReferences base done :=
        fun n => ⟨fun hn => (List.mem_append.mp hn).elim id
          fun he => List.mem_singleton.mp he ▸ hmem, fun hn => List.mem_append_left _ hn⟩
      refine ⟨hwords, h.kept, ?_, h.small, ?_⟩
      · intro n hn
        rw [hnew]
        show img.table.lookup n = _
        rw [h.fresh n hn]
        by_cases hin : n ∈ newReferences base done
        · rw [if_pos hin, if_pos ((hmem_iff n).mpr hin), takeWhile_append_of_mem hin]
        · rw [if_neg hin, if_neg (fun hc => hin ((hmem_iff n).mp hc))]
      · show img.table.nextVariable = _
        have hset : (newReferences base done ++ [name]).toFinset
            = (newReferences base done).toFinset := by
          ext n
          rw [List.mem_toFinset, List.mem_toFinset]
          exact hmem_iff n
        rw [hnew, hset, h.next]

theorem Encoded.push_new (h : Encoded base done img) {s : Statement} {name : String}
    (hs : s.instruction = .address (.symbol name)) (hnone : img.table.lookup name = none)
    (hle : img.table.nextVariable ≤ maxAddress) {t : SymbolTable}
    (ht : ∀ n, t.lookup n = if n = name then some img.table.nextVariable else img.table.lookup n)
    (hnext : t.nextVariable = img.table.nextVariable + 1) :
    Encoded base (done ++ [s])
      ({ img with table := t }.push (.address img.table.nextVariable)) := by
  have hr : s.reference? = some name := by rw [Statement.reference?, hs]
  have hcode : s.isCode = true := by rw [Statement.isCode, hs]; rfl
  have hext : img.table.Extends t := by
    intro n v hn
    rw [ht, if_neg (by rintro rfl; rw [hnone] at hn; cases hn), hn]
  have hw : s.instruction.word? t = some (.address img.table.nextVariable) := by
    rw [hs]
    exact Option.map_eq_some_iff.mpr ⟨_, (ht name).trans (if_pos rfl), rfl⟩
  have hbase : base.lookup name = none := by
    cases hb : base.lookup name with
    | none => rfl
    | some v =>
        have := h.kept name v hb
        rw [hnone] at this
        cases this
  have hnew : newReferences base (done ++ [s]) = newReferences base done ++ [name] := by
    rw [newReferences_append, hr]
    simp [hbase]
  have hno : name ∉ newReferences base done := by
    intro hmem
    have := h.fresh name hbase
    rw [if_pos hmem, hnone] at this
    cases this
  refine ⟨h.words_push hext hcode hw, h.kept.trans hext, ?_, ?_, ?_⟩
  · intro n hn
    rw [hnew]
    show t.lookup n = _
    rw [ht]
    by_cases he : n = name
    -- all operands met so far come before the one that is met now
    · subst he
      rw [if_pos rfl, if_pos (by simp), takeWhile_append_cons hno, h.next]
    · rw [if_neg he, h.fresh n hn]
      by_cases hin : n ∈ newReferences base done
      · rw [if_pos hin, if_pos (List.mem_append_left _ hin), takeWhile_append_of_mem hin]
      · rw [if_neg hin, if_neg (by simp [hin, he])]
  · intro n v hn hv
    replace hv : t.lookup n = some v := hv
    rw [ht] at hv
    split at hv
    · exact Option.some.inj hv ▸ hle
    · exact h.small n v hn hv
  · show t.nextVariable = _
    have hset : (newReferences base done ++ [name]).toFinset
        = insert name (newReferences base done).toFinset := by
      ext n
      simp
    rw [hnew, hset, Finset.card_insert_of_notMem (by rwa [List.mem_toFinset]), hnext, h.next,
      Nat.add_assoc]

theorem Encoded.skip_label (h : Encoded base done img) {s : Statement} {name : String}
    (hs : s.instruction = .label name) : Encoded base (done ++ [s]) img := by
  have hcode : ¬ s.isCode = true := by rw [Statement.isCode, hs]; rintro ⟨⟩
  have hr : s.reference? = none := by rw [Statement.reference?, hs]
  apply h.keep_table (newReferences_of_none hr)
  rw [h.words, List.filter_append, List.filter_cons_of_neg hcode, List.filter_nil, List.append_nil]

/-- An operand is encoded iff it is resolved. -/
theorem encode_symbol_eq_ok_iff {img img' : Image} {name : String} :
    img.encode (.address (.symbol name)) = .ok img' ↔
      ∃ v t, img.table.resolve name = some (v, t)
        ∧ img' = ({ img with table := t } : Image).push (.address v) := by
  unfold Image.encode
  cases h : img.table.resolve name with
  | none => simp [h]
  | some p =>
      obtain ⟨v, t⟩ := p
      simp only [h, Except.ok.injEq, Option.some.injEq, Prod.mk.injEq]
      constructor
      · rintro rfl
        exact ⟨v, t, ⟨rfl, rfl⟩, rfl⟩
      · rintro ⟨v', t', ⟨rfl, rfl⟩, rfl⟩
        rfl

/-- **Encoding one more statement keeps the second pass's invariant.** -/
theorem Encoded.addStatement (h : Encoded base done img) {s : Statement} {img' : Image}
    (hadd : img.addStatement s = .ok img') : Encoded base (done ++ [s]) img' := by
  unfold Image.addStatement at hadd
  cases henc : img.encode s.instruction with
  | error _ => rw [henc] at hadd; cases hadd
  | ok img'' =>
      rw [henc] at hadd
      cases hadd
      cases hi : s.instruction with
      | compute dest comp jump =>
          rw [hi] at henc
          cases henc
          exact h.push_plain (by rw [Statement.isCode, hi]; rfl) (by rw [Statement.reference?, hi])
            (by rw [hi]; rfl)
      | label name =>
          rw [hi] at henc
          cases henc
          exact h.skip_label hi
      | address operand =>
          cases operand with
          | literal value =>
              rw [hi] at henc
              cases henc
              exact h.push_plain (by rw [Statement.isCode, hi]; rfl)
                (by rw [Statement.reference?, hi]) (by rw [hi]; rfl)
          | symbol name =>
              rw [hi] at henc
              obtain ⟨v, t, hres, rfl⟩ := encode_symbol_eq_ok_iff.mp henc
              rcases SymbolTable.resolve_some hres with
                ⟨hv, rfl⟩ | ⟨hnone, rfl, hle, ht, hnext⟩
              · exact h.push_known hi hv
              · exact h.push_new hi hnone hle ht hnext

end

/-- **The second pass encodes every statement.** -/
theorem encoded_of_ofStatements {base : SymbolTable} {statements : List Statement} {img : Image}
    (h : Image.ofStatements base statements = .ok img) : Encoded base statements img :=
  inv_of_foldlM (Encoded base) (fun _ _ _ _ hdone hadd => hdone.addStatement hadd)
    (encoded_nil base) h

/-! ## §5. The assembly is the declared one. -/

/-- A label that is defined has a first definition. -/
theorem exists_of_hasLabel {program : List Statement} {name : String}
    (h : hasLabel program name = true) :
    ∃ i line, program[i]? = some ⟨line, .label name⟩
      ∧ codeSize (program.take i) = labelAddress program name := by
  induction program with
  | nil => cases h
  | cons s program ih =>
      obtain ⟨line, instruction⟩ := s
      by_cases hs : instruction = .label name
      · subst hs
        refine ⟨0, line, rfl, ?_⟩
        unfold labelAddress
        rw [List.takeWhile_cons_of_neg (by simp), List.take_zero]
      · have hrest : hasLabel program name = true := by
          unfold hasLabel at h ⊢
          rw [List.any_cons, Bool.or_eq_true] at h
          exact h.resolve_left fun he => hs (beq_iff_eq.mp he)
        obtain ⟨i, line', hi, hsize⟩ := ih hrest
        refine ⟨i + 1, line', hi, ?_⟩
        have hne : (instruction != .label name) = true := bne_iff_ne.mpr hs
        unfold labelAddress codeSize at hsize ⊢
        simp only [List.takeWhile_cons, hne, if_true, List.take_succ_cons, List.countP_cons, hsize]

theorem reference?_filter_isCode (program : List Statement) :
    (program.filter Statement.isCode).filterMap Statement.reference?
      = program.filterMap Statement.reference? := by
  induction program with
  | nil => rfl
  | cons s program ih =>
      by_cases hs : s.isCode = true
      · rw [List.filter_cons_of_pos hs, List.filterMap_cons, List.filterMap_cons, ih]
      · have hr : s.reference? = none := by
          unfold Statement.isCode at hs
          unfold Statement.reference?
          cases hi : s.instruction with
          | label name => rfl
          | address operand => rw [hi] at hs; exact absurd rfl hs
          | compute dest comp jump => rfl
        rw [List.filter_cons_of_neg hs, List.filterMap_cons_none hr, ih]

/-- What the first pass leaves open is neither reserved nor a label. -/
theorem Laid.isNone_lookup {program : List Statement} {l : Layout} (h : Laid program l)
    (name : String) :
    (l.table.lookup name).isNone = (!isReserved name && !hasLabel program name) := by
  cases hres : isReserved name with
  | true =>
      obtain ⟨v, hv⟩ := (isReserved_iff name).mp hres
      rw [h.reserved name v hv]
      rfl
  | false =>
      cases hlab : hasLabel program name with
      | true =>
          obtain ⟨i, line, hi, -⟩ := exists_of_hasLabel hlab
          rw [(h.labels i line name hi hres).1]
          rfl
      | false =>
          rw [h.others name hres hlab]
          rfl

/-- The new operands of some statements are those that are variables of the program. -/
theorem Laid.newReferences_filter {program : List Statement} {l : Layout} (h : Laid program l)
    (before : List Statement) :
    newReferences l.table (before.filter Statement.isCode)
      = (before.filterMap Statement.reference?).filter fun name =>
          !isReserved name && !hasLabel program name := by
  unfold newReferences
  rw [reference?_filter_isCode]
  exact List.filter_congr fun name _ => h.isNone_lookup name

/-- The operands that the first pass leaves open are the variables. -/
theorem Laid.newReferences_eq {program : List Statement} {l : Layout} (h : Laid program l) :
    newReferences l.table l.statements.toList = variableReferences program := by
  rw [h.placed, h.newReferences_filter]
  rfl

/-- What is known of an assembled program. -/
structure Assembled (program : List Statement) (asm : Assembly) : Prop where
  /-- The statements are the program without its labels. -/
  statements : asm.statements = program.filter Statement.isCode
  /-- Each statement has its word under the final table. -/
  words : asm.words.map some = asm.statements.map (·.instruction.word? asm.table)
  /-- A label has the address of every place it is defined at. -/
  labels : ∀ i line name, program[i]? = some ⟨line, .label name⟩ → isReserved name = false →
    asm.table.lookup name = some (codeSize (program.take i))
  /-- Each name has its declared value. -/
  values : ∀ name, asm.table.lookup name = declaredValue program name
  /-- Every value fits in 15 bits. -/
  small : ∀ name v, asm.table.lookup name = some v → v ≤ maxAddress

/-- Platform symbols and labels have values that fit in 15 bits. -/
theorem Laid.small {program : List Statement} {l : Layout} (h : Laid program l) {name : String}
    {v : Nat} (hv : l.table.lookup name = some v) : v ≤ maxAddress := by
  cases hres : reservedSymbols.lookup name with
  | some r =>
      have hr : r = v := Option.some.inj ((h.reserved name r hres).symm.trans hv)
      exact hr ▸ reservedSymbols_le hres
  | none =>
      rw [← isReserved_eq_false_iff] at hres
      by_cases hlab : hasLabel program name = true
      · obtain ⟨i, line, hat, -⟩ := exists_of_hasLabel hlab
        obtain ⟨hval, hle⟩ := h.labels i line name hat hres
        exact Option.some.inj (hval.symm.trans hv) ▸ hle
      · rw [h.others name hres (Bool.not_eq_true _ ▸ hlab)] at hv
        cases hv

theorem Laid.assembled {program : List Statement} {l : Layout} (hl : Laid program l) {img : Image}
    (hi : Encoded l.table l.statements.toList img) :
    Assembled program ⟨l.statements.toList, img.words.toList, img.table⟩ := by
  -- the second pass keeps what the first has bound
  have hlabels : ∀ i line name, program[i]? = some ⟨line, .label name⟩ →
      isReserved name = false → img.table.lookup name = some (codeSize (program.take i)) :=
    fun i line name hat hres => hi.kept name _ (hl.labels i line name hat hres).1
  have hnew := hl.newReferences_eq
  refine ⟨hl.placed, ?_, hlabels, ?_, ?_⟩
  · rw [hi.words, hl.placed, List.filter_filter]
    simp only [Bool.and_self]
  · intro name
    show img.table.lookup name = _
    -- platform symbols first, then labels: what is left was new to the second pass
    unfold declaredValue
    cases hres : reservedSymbols.lookup name with
    | some v => exact hi.kept name v (hl.reserved name v hres)
    | none =>
        rw [← isReserved_eq_false_iff] at hres
        by_cases hlab : hasLabel program name = true
        · obtain ⟨i, line, hat, hsize⟩ := exists_of_hasLabel hlab
          simp only [hlab, if_true]
          rw [hlabels i line name hat hres, hsize]
        · rw [Bool.not_eq_true] at hlab
          simp only [hlab, Bool.false_eq_true, if_false]
          rw [hi.fresh name (hl.others name hres hlab), hnew, hl.next]
          rfl
  · intro name v hv
    cases hbase : l.table.lookup name with
    | none => exact hi.small name v hbase hv
    | some w =>
        have hw : w = v := Option.some.inj ((hi.kept name w hbase).symm.trans hv)
        exact hw ▸ hl.small hbase

/-- **Whatever assembles is assembled as declared.** -/
theorem assembled_of_assemble {lines : List SourceLine} {asm : Assembly}
    (h : assemble lines = .ok asm) :
    ∃ program, ReadAs lines program ∧ Assembled program asm := by
  unfold assemble at h
  obtain ⟨l, hl, h⟩ := bind_eq_ok_iff.mp h
  obtain ⟨img, hi, h⟩ := bind_eq_ok_iff.mp h
  cases h
  obtain ⟨program, hread, hlaid⟩ := laid_of_ofLines hl
  exact ⟨program, hread, hlaid.assembled (encoded_of_ofStatements hi)⟩

/-! ## §6. The main statement. -/

theorem map_some_eq_map {α : Type} {words : List Word} {items : List α} {f : α → Option Word}
    (h : words.map some = items.map f) :
    words.length = items.length
      ∧ ∀ i (hw : i < words.length) (hi : i < items.length), f items[i] = some words[i] := by
  have hlen : words.length = items.length := by simpa using congrArg List.length h
  refine ⟨hlen, fun i hw hi => ?_⟩
  have hget : (words.map some)[i]? = (items.map f)[i]? := by rw [h]
  rw [List.getElem?_map, List.getElem?_map, List.getElem?_eq_getElem hw,
    List.getElem?_eq_getElem hi] at hget
  exact (Option.some.inj hget).symm

theorem ReadAs.wellSpelt {lines : List SourceLine} {program : List Statement}
    (h : ReadAs lines program) : ∀ s ∈ program, s.instruction.WellSpelt := by
  induction h with
  | nil => intro s hs; cases hs
  | cons hline _ ih =>
      intro s hs
      rcases List.mem_cons.mp hs with rfl | hs
      · exact wellSpelt_of_read hline.2
      · exact ih s hs

/-- What a word has to be for an instruction of a program. -/
def WordDeclared (program : List Statement) (word : Word) : Instruction → Prop
  | .address (.literal value) => word.toNat = value
  | .address (.symbol name) => declaredValue program name = some word.toNat
  | .compute dest comp jump => word = .compute dest comp jump
  | .label _ => False

/-- An assembly is what its program declares. -/
structure Declared (program : List Statement) (asm : Assembly) : Prop where
  /-- The statements are the instructions of the program, in order, each with its line. -/
  statements : asm.statements = program.filter fun s => !s.instruction.isLabel
  /-- Each has one word. -/
  length : asm.words.length = asm.statements.length
  /-- The word is the number, the declared value of the symbol, or the encoding. -/
  words : ∀ i (hw : i < asm.words.length) (hs : i < asm.statements.length),
    WordDeclared program asm.words[i] asm.statements[i].instruction
  /-- The final table gives every name its declared value, and no other name a value. -/
  table : ∀ name, asm.table.lookup name = declaredValue program name

/-- **Resolution and layout are the declared ones.** -/
theorem assemble_eq_declared {lines : List SourceLine} {asm : Assembly}
    (h : assemble lines = .ok asm) :
    ∃ program, ReadAs lines program ∧ Declared program asm := by
  obtain ⟨program, hread, hasm⟩ := assembled_of_assemble h
  obtain ⟨hlen, hget⟩ := map_some_eq_map hasm.words
  refine ⟨program, hread, hasm.statements, hlen, ?_, hasm.values⟩
  intro i hw hs
  have hword := hget i hw hs
  have hmem : asm.statements[i] ∈ program.filter Statement.isCode :=
    hasm.statements ▸ List.getElem_mem hs
  have hspelt := hread.wellSpelt _ (List.mem_of_mem_filter hmem)
  cases hi : asm.statements[i].instruction with
  | compute dest comp jump =>
      rw [hi] at hword
      exact (Option.some.inj hword).symm
  | label name =>
      rw [hi] at hword
      cases hword
  | address operand =>
      rw [hi] at hword hspelt
      cases operand with
      | literal value =>
          show asm.words[i].toNat = value
          rw [← Option.some.inj hword, Word.toNat_address hspelt]
      | symbol name =>
          obtain ⟨v, hv, hwv⟩ := Option.map_eq_some_iff.mp hword
          show declaredValue program name = some asm.words[i].toNat
          rw [← hwv, Word.toNat_address (hasm.small name v hv), ← hasm.values, hv]

/-- Forward and backward references, a label defined twice at one place, a shadowed
platform symbol, two variables and a label at the very end. -/
def mixedSource : List SourceLine :=
  SourceLine.ofText
    "@END\n(LOOP)\n(LOOP)\n@x\nD=M\n(R2)\n@R2\n@y // first met here\n@x\n@LOOP\n0;JMP\n(END)"

theorem assemble_eq_declared_mixed :
    ∃ asm, assemble mixedSource = .ok asm
      ∧ asm.words.map BitVec.toNat = [8, 16, 64528, 2, 17, 16, 1, 60039]
      ∧ ∃ program, ReadAs mixedSource program ∧ Declared program asm := by
  have hrun : ((assemble mixedSource).toOption.map fun asm => asm.words.map BitVec.toNat)
      = some [8, 16, 64528, 2, 17, 16, 1, 60039] := by decide +kernel
  obtain ⟨asm, h, hwords⟩ := exists_ok_of_map hrun
  exact ⟨asm, h, hwords, assemble_eq_declared h⟩

end HackPlatform.Asm
