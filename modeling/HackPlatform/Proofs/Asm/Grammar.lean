/-
  HackPlatform.Proofs.Asm.Grammar
  ────────────────────────────────
  **THE GRAMMAR OF ASSEMBLY: which texts spell which instruction.**

  Reading looks at the first character of a line, cuts the rest at its signs and gives
  up at the first part that is not spelt as it should be.  The grammar says the same
  without cutting anything, by what a text is put together from:

      @ number              blanks around the number, which may start with zeros
      @ symbol              blanks around the symbol
      ( symbol )            blanks around the symbol, but none behind the `)`
      [dest=]comp[;jump]    blanks anywhere, but it starts with neither `@` nor `(`

  A destination is spelt by its letters in any order.  Numbers are at most 32767.

      Spells            a text spells an instruction
      Fault.OfText      what a line can be refused for while it is read

  Main results:
    * `read_eq_ok_iff`, a line is read as the instruction that it spells;
    * `addLine_of_unread`, a line that is not read is reported by its own number;
    * `lines_read_by_grammar`, both together.
-/
import Mathlib.Data.List.Nodup
import HackPlatform.Asm.Layout
import HackPlatform.Proofs.Attempt
import HackPlatform.Proofs.Symbol

namespace HackPlatform.Asm

open Text

/-! ## §1. The grammar. -/

/-- A text spells an operand. -/
inductive SpellsOperand : List Char → Operand → Prop where
  /-- Digits, with blanks around them, spell the number that they denote. -/
  | literal {digits cs : List Char} (nonempty : digits ≠ [])
      (digit : ∀ c ∈ digits, c.isDigit = true) (blanks : Padded digits cs)
      (small : Nat.ofDigitChars 10 digits 0 ≤ maxAddress) :
      SpellsOperand cs (.literal (Nat.ofDigitChars 10 digits 0))
  /-- A symbol, with blanks around it, spells itself. -/
  | symbol {name : String} {cs : List Char} (symbol : isSymbol name = true)
      (blanks : Padded name.toList cs) : SpellsOperand cs (.symbol name)

/-- Letters spell a destination: `A`, `D` and `M` in any order, at least one of them and
none twice. -/
structure SpellsDest (cs : List Char) (dest : Dest) : Prop where
  /-- There is a letter. -/
  nonempty : cs ≠ []
  /-- There are no others. -/
  letter : ∀ c ∈ cs, c = 'A' ∨ c = 'D' ∨ c = 'M'
  /-- None comes twice. -/
  nodup : cs.Nodup
  /-- `A` stands for register A, -/
  a : dest.a = true ↔ 'A' ∈ cs
  /-- `D` for register D, -/
  d : dest.d = true ↔ 'D' ∈ cs
  /-- and `M` for the cell that A points at. -/
  m : dest.m = true ↔ 'M' ∈ cs

/-- What stands in front of a computation. -/
inductive SpellsFront : List Char → Dest → Prop where
  /-- Nothing, and nothing is stored. -/
  | absent : SpellsFront [] .nowhere
  /-- A destination and a `=`. -/
  | stored {cs : List Char} {dest : Dest} (letters : SpellsDest cs dest) :
      SpellsFront (cs ++ ['=']) dest

/-- What stands behind a computation. -/
inductive SpellsBack : List Char → Jump → Prop where
  /-- Nothing, and there is no jump. -/
  | absent : SpellsBack [] .never
  /-- A `;` and one of the seven jumps. -/
  | jumps {jump : Jump} (some : jump ≠ .never) : SpellsBack (';' :: jump.mnemonic.toList) jump

/-- A text without blanks spells a compute instruction. -/
inductive SpellsCompute : List Char → Instruction → Prop where
  /-- A computation, with what stands in front of it and behind it. -/
  | parts {before behind : List Char} {dest : Dest} {jump : Jump}
      (front : SpellsFront before dest) (comp : Comp) (back : SpellsBack behind jump) :
      SpellsCompute (before ++ (comp.mnemonic.toList ++ behind)) (.compute dest comp jump)

/-- A text spells an instruction. -/
inductive Spells : List Char → Instruction → Prop where
  /-- An address: a `@` and an operand. -/
  | address {cs : List Char} {operand : Operand} (spelt : SpellsOperand cs operand) :
      Spells ('@' :: cs) (.address operand)
  /-- A label: a symbol in parentheses, with blanks around it. -/
  | label {name : String} {cs : List Char} (symbol : isSymbol name = true)
      (blanks : Padded name.toList cs) : Spells ('(' :: cs ++ [')']) (.label name)
  /-- A compute instruction, once its blanks are struck out. -/
  | compute {cs : List Char} {i : Instruction} (notAddress : cs.head? ≠ some '@')
      (notLabel : cs.head? ≠ some '(') (parts : SpellsCompute (withoutBlanks cs) i) : Spells cs i

-- as many computations and jumps as the machine has, each spelt in its own way
example : Comp.all.length = 28 ∧ (Comp.all.map Comp.mnemonic).Nodup := by decide

example : Jump.spelt.length = 7 ∧ (Jump.spelt.map Jump.mnemonic).Nodup := by decide

/-! ## §2. Operands and labels. -/

theorem blank_free_of_digits {cs : List Char} (h : ∀ c ∈ cs, c.isDigit = true) :
    ∀ c ∈ cs, isBlank c = false := fun c hc => isBlank_of_isPlain (isPlain_of_isDigit (h c hc))

theorem blank_free_of_isSymbol {name : String} (h : isSymbol name = true) :
    ∀ c ∈ name.toList, isBlank c = false := fun c hc =>
  isBlank_of_isPlain (isPlain_of_isSymbol h c hc)

/-- Trimming leaves a symbol exactly where one stands between blanks. -/
theorem trim_eq_symbol_iff {name : String} (h : isSymbol name = true) {cs : List Char} :
    trim cs = name.toList ↔ Padded name.toList cs :=
  trim_eq_iff (trimmed_of_blank_free (blank_free_of_isSymbol h))

theorem spellsOperand_of_readOperand {cs : List Char} {operand : Operand}
    (h : readOperand cs = .ok operand) : SpellsOperand cs operand := by
  have hpad := padded_trim cs
  unfold readOperand at h
  split at h
  next => cases h
  next c rest htrim =>
    rw [htrim] at hpad
    simp only at h
    split at h
    next =>
      split at h
      next => cases h
      next hnumeral =>
        rw [Bool.not_eq_true, Bool.not_eq_false', isNumeral_iff] at hnumeral
        split at h
        next value hvalue =>
          cases h
          obtain ⟨rfl, hsmall⟩ := readUpTo_eq_some_iff.mp hvalue
          exact .literal hnumeral.1 hnumeral.2 hpad hsmall
        next => cases h
    next =>
      split at h
      next hsymbol =>
        cases h
        refine .symbol ((isSymbol_ofList _).trans hsymbol) ?_
        rwa [String.toList_ofList]
      next => cases h

theorem readOperand_of_spells {cs : List Char} {operand : Operand}
    (h : SpellsOperand cs operand) : readOperand cs = .ok operand := by
  cases h with
  | @literal digits _ hne hdigit hpad hsmall =>
      have htrim := trim_of_padded (trimmed_of_blank_free (blank_free_of_digits hdigit)) hpad
      have hnumeral := isNumeral_iff.mpr ⟨hne, hdigit⟩
      have hvalue := readUpTo_eq_some_iff.mpr ⟨rfl, hsmall⟩
      unfold readOperand
      rw [htrim]
      -- the first digit commits the operand to being a number
      cases digits with
      | nil => exact absurd rfl hne
      | cons c rest => simp [hdigit c List.mem_cons_self, hnumeral, hvalue]
  | @symbol name _ hsymbol hpad =>
      have htrim := (trim_eq_symbol_iff hsymbol).mpr hpad
      have htext : isSymbolText name.toList = true := hsymbol
      have hname := String.ofList_toList (s := name)
      unfold readOperand
      rw [htrim]
      cases hcs : name.toList with
      | nil => exact absurd hcs (toList_ne_nil_of_isSymbol hsymbol)
      | cons c rest =>
          rw [hcs] at htext hname
          simp [isDigit_head_of_isSymbolText htext, htext, hname]

theorem readOperand_eq_ok_iff {cs : List Char} {operand : Operand} :
    readOperand cs = .ok operand ↔ SpellsOperand cs operand :=
  ⟨spellsOperand_of_readOperand, readOperand_of_spells⟩

/-- A label is read from a symbol between blanks in front of the closing parenthesis. -/
theorem readLabel_eq_ok_iff {cs : List Char} {name : String} :
    readLabel cs = .ok name ↔
      isSymbol name = true ∧ ∃ inner, Padded name.toList inner ∧ cs = inner ++ [')'] := by
  constructor
  · intro h
    unfold readLabel at h
    split at h
    next hlast =>
      obtain ⟨inner, rfl⟩ := List.getLast?_eq_some_iff.mp hlast
      rw [List.dropLast_concat] at h
      simp only at h
      split at h
      next hsymbol =>
        cases h
        have hpad := padded_trim inner
        refine ⟨(isSymbol_ofList _).trans hsymbol, inner, ?_, rfl⟩
        rwa [String.toList_ofList]
      next => cases h
    next => cases h
  · rintro ⟨hsymbol, inner, hpad, rfl⟩
    have htrim := (trim_eq_symbol_iff hsymbol).mpr hpad
    have htext : isSymbolText name.toList = true := hsymbol
    unfold readLabel
    simp [htrim, htext]

/-! ## §3. The parts of a compute instruction. -/

/-- A character that mnemonics are made of. -/
def isMnemonicChar (c : Char) : Bool := isPlain c && !(['=', ';', '@', '('].contains c)

theorem isPlain_of_isMnemonicChar {c : Char} (h : isMnemonicChar c = true) :
    isPlain c = true := by
  unfold isMnemonicChar at h
  rw [Bool.and_eq_true] at h
  exact h.1

theorem isMnemonicChar_of_dest (dest : Dest) :
    ∀ c ∈ dest.mnemonic.toList, isMnemonicChar c = true := by
  obtain ⟨a, d, m⟩ := dest
  cases a <;> cases d <;> cases m <;> exact List.all_eq_true.mp (by decide)

theorem isMnemonicChar_of_comp (comp : Comp) :
    ∀ c ∈ comp.mnemonic.toList, isMnemonicChar c = true := by
  cases comp with
  | zero | one | minusOne | d | notD | negD | dPlusOne | dMinusOne =>
      exact List.all_eq_true.mp (by decide)
  | y src | notY src | negY src | yPlusOne src | yMinusOne src
  | dPlusY src | dMinusY src | yMinusD src | dAndY src | dOrY src =>
      cases src <;> exact List.all_eq_true.mp (by decide)

theorem isMnemonicChar_of_jump (jump : Jump) :
    ∀ c ∈ jump.mnemonic.toList, isMnemonicChar c = true := by
  cases jump <;> exact List.all_eq_true.mp (by decide)

theorem SpellsDest.isMnemonicChar {cs : List Char} {dest : Dest} (h : SpellsDest cs dest) :
    ∀ c ∈ cs, isMnemonicChar c = true := by
  intro c hc
  rcases h.letter c hc with rfl | rfl | rfl <;> decide

/-- A sign that no mnemonic holds does not occur in a text of mnemonic characters. -/
theorem not_mem_of_isMnemonicChar {cs : List Char} (h : ∀ c ∈ cs, isMnemonicChar c = true)
    {sign : Char} (hsign : isMnemonicChar sign = false) : sign ∉ cs := by
  intro hm
  have := h sign hm
  rw [hsign] at this
  cases this

/-- The letters that are taken for a destination spell it. -/
theorem ofLetters?_eq_some_iff {cs : List Char} {dest : Dest} :
    Dest.ofLetters? cs = some dest ↔ SpellsDest cs dest := by
  have hletters : (∀ c ∈ cs, Dest.letters.contains c = true)
      ↔ ∀ c ∈ cs, c = 'A' ∨ c = 'D' ∨ c = 'M' := by
    simp [Dest.letters]
  unfold Dest.ofLetters?
  constructor
  · intro h
    split at h
    next hcs =>
      cases h
      simp only [Bool.and_eq_true, Bool.not_eq_true', List.isEmpty_eq_false_iff, List.all_eq_true,
        decide_eq_true_eq] at hcs
      obtain ⟨⟨hne, hall⟩, hcount⟩ := hcs
      refine ⟨hne, hletters.mp hall, ?_, List.contains_iff_mem, List.contains_iff_mem,
        List.contains_iff_mem⟩
      -- a letter comes at most once, and anything else not at all
      rw [List.nodup_iff_count_le_one]
      intro c
      by_cases hc : c ∈ cs
      · exact hcount c (List.contains_iff_mem.mp (hall c hc))
      · rw [List.count_eq_zero_of_not_mem hc]
        exact Nat.zero_le 1
    next => cases h
  · intro h
    have hcount : ∀ c ∈ Dest.letters, cs.count c ≤ 1 := fun c _ =>
      List.nodup_iff_count_le_one.mp h.nodup c
    have hdest : dest = ⟨cs.contains 'A', cs.contains 'D', cs.contains 'M'⟩ := by
      obtain ⟨a, d, m⟩ := dest
      have ha : a = cs.contains 'A' := Bool.eq_iff_iff.mpr (h.a.trans List.contains_iff_mem.symm)
      have hd : d = cs.contains 'D' := Bool.eq_iff_iff.mpr (h.d.trans List.contains_iff_mem.symm)
      have hm : m = cs.contains 'M' := Bool.eq_iff_iff.mpr (h.m.trans List.contains_iff_mem.symm)
      rw [ha, hd, hm]
    rw [if_pos, hdest]
    simp only [Bool.and_eq_true, Bool.not_eq_true', List.isEmpty_eq_false_iff, List.all_eq_true,
      decide_eq_true_eq]
    exact ⟨⟨h.nonempty, hletters.mpr h.letter⟩, hcount⟩

theorem spellsDest_mnemonic {dest : Dest} (h : dest ≠ .nowhere) :
    SpellsDest dest.mnemonic.toList dest := by
  rw [← ofLetters?_eq_some_iff]
  obtain ⟨a, d, m⟩ := dest
  cases a <;> cases d <;> cases m <;> first | rfl | exact absurd rfl h

theorem readDest_some_iff {cs : List Char} {dest : Dest} :
    readDest (some cs) = .ok dest ↔ SpellsDest cs dest := by
  rw [← ofLetters?_eq_some_iff]
  cases cs with
  | nil => simp [readDest, Dest.ofLetters?]
  | cons c cs =>
      simp only [readDest]
      cases Dest.ofLetters? (c :: cs) <;> simp

theorem readComp_eq_ok_iff {cs : List Char} {comp : Comp} :
    readComp cs = .ok comp ↔ cs = comp.mnemonic.toList := by
  constructor
  · intro h
    unfold readComp at h
    split at h
    next => cases h
    next =>
      split at h
      next found hfound =>
        cases h
        have hsame := List.find?_some hfound
        rw [beq_iff_eq.mp hsame, String.toList_ofList]
      next => cases h
  · rintro rfl
    cases comp with
    | zero | one | minusOne | d | notD | negD | dPlusOne | dMinusOne => rfl
    | y src | notY src | negY src | yPlusOne src | yMinusOne src
    | dPlusY src | dMinusY src | yMinusD src | dAndY src | dOrY src => cases src <;> rfl

theorem readJump_some_iff {cs : List Char} {jump : Jump} :
    readJump (some cs) = .ok jump ↔ jump ≠ .never ∧ cs = jump.mnemonic.toList := by
  constructor
  · intro h
    cases cs with
    | nil => cases h
    | cons c cs =>
        simp only [readJump] at h
        split at h
        next found hfound =>
          cases h
          have hspelt : ∀ j ∈ Jump.spelt, j ≠ .never := by decide
          have hsame := List.find?_some hfound
          refine ⟨hspelt _ (List.mem_of_find?_eq_some hfound), ?_⟩
          rw [beq_iff_eq.mp hsame, String.toList_ofList]
        next => cases h
  · rintro ⟨hsome, rfl⟩
    cases jump <;> first | rfl | exact absurd rfl hsome

/-! ## §4. Compute instructions. -/

/-- A destination as it stands in front of a computation. -/
def frontOf : Option (List Char) → List Char
  | none => []
  | some letters => letters ++ ['=']

/-- A jump as it stands behind a computation. -/
def backOf : Option (List Char) → List Char
  | none => []
  | some letters => ';' :: letters

theorem spellsFront_iff {before : List Char} {dest : Dest} :
    SpellsFront before dest ↔ ∃ letters?, before = frontOf letters? ∧ readDest letters? = .ok dest := by
  constructor
  · intro h
    cases h with
    | absent => exact ⟨none, rfl, rfl⟩
    | stored letters => exact ⟨some _, rfl, readDest_some_iff.mpr letters⟩
  · rintro ⟨letters?, rfl, hread⟩
    cases letters? with
    | none => cases hread; exact .absent
    | some letters => exact .stored (readDest_some_iff.mp hread)

theorem spellsBack_iff {behind : List Char} {jump : Jump} :
    SpellsBack behind jump ↔ ∃ letters?, behind = backOf letters? ∧ readJump letters? = .ok jump := by
  constructor
  · intro h
    cases h with
    | absent => exact ⟨none, rfl, rfl⟩
    | jumps some => exact ⟨_, rfl, readJump_some_iff.mpr ⟨some, rfl⟩⟩
  · rintro ⟨letters?, rfl, hread⟩
    cases letters? with
    | none => cases hread; exact .absent
    | some letters =>
        obtain ⟨hsome, rfl⟩ := readJump_some_iff.mp hread
        exact .jumps hsome

/-- The text that parts are cut out of. -/
def ComputeText.joined (parts : ComputeText) : List Char :=
  frontOf parts.dest ++ (parts.comp ++ backOf parts.jump)

/-- A cut goes through the first `=` and the first `;` behind it, and there is no second
one of either. -/
structure ComputeText.Apart (parts : ComputeText) : Prop where
  /-- What stands before the `=` holds none. -/
  dest : ∀ letters, parts.dest = some letters → '=' ∉ letters
  /-- What stands behind it holds none either. -/
  rest : '=' ∉ parts.comp ++ backOf parts.jump
  /-- What stands before the `;` holds none, -/
  comp : ';' ∉ parts.comp
  /-- and what stands behind it holds none either. -/
  jump : ∀ letters, parts.jump = some letters → ';' ∉ letters

/-- What follows the destination, cut at its `;`. -/
def splitRest (dest : Option (List Char)) (rest : List Char) : Except Fault ComputeText :=
  if rest.contains '=' then .error .secondEquals
  else if ((splitAtFirst ';' rest).2.getD []).contains ';' then .error .secondSemicolon
  else .ok ⟨dest, (splitAtFirst ';' rest).1, (splitAtFirst ';' rest).2⟩

theorem split_of_not_mem {cs : List Char} (h : '=' ∉ cs) :
    ComputeText.split cs = splitRest none cs := by
  unfold ComputeText.split
  rw [splitAtFirst_none h]
  rfl

theorem split_of_append {letters : List Char} (h : '=' ∉ letters) (rest : List Char) :
    ComputeText.split (letters ++ '=' :: rest) = splitRest (some letters) rest := by
  unfold ComputeText.split
  rw [splitAtFirst_append h]
  rfl

theorem splitRest_of_apart {parts : ComputeText} (h : parts.Apart) :
    splitRest parts.dest (parts.comp ++ backOf parts.jump) = .ok parts := by
  have hrest := h.rest
  have hcomp := h.comp
  have hjump := h.jump
  obtain ⟨dest, comp, jump⟩ := parts
  unfold splitRest
  rw [if_neg (by rwa [List.contains_iff_mem])]
  cases jump with
  | none =>
      have hcut : splitAtFirst ';' (comp ++ backOf none) = (comp, none) := by
        rw [backOf, List.append_nil, splitAtFirst_none hcomp]
      rw [hcut]
      rfl
  | some letters =>
      have hcut : splitAtFirst ';' (comp ++ backOf (some letters)) = (comp, some letters) :=
        splitAtFirst_append hcomp letters
      rw [hcut, if_neg (by rw [List.contains_iff_mem]; exact hjump letters rfl)]

theorem apart_of_splitRest {dest : Option (List Char)} {rest : List Char} {parts : ComputeText}
    (hdest : ∀ letters, dest = some letters → '=' ∉ letters)
    (h : splitRest dest rest = .ok parts) :
    parts.Apart ∧ parts.joined = frontOf dest ++ rest := by
  unfold splitRest at h
  split at h
  next => cases h
  next hrest =>
    rw [List.contains_iff_mem] at hrest
    split at h
    next => cases h
    next hjump =>
      rw [List.contains_iff_mem] at hjump
      rcases splitAtFirst_cases ';' rest with ⟨hno, hcut⟩ | ⟨comp, jump, hcomp, rfl, hcut⟩
      · rw [hcut] at h
        cases h
        have hjoined : rest ++ backOf none = rest := List.append_nil rest
        exact ⟨⟨hdest, by rwa [hjoined], hno, by simp⟩, congrArg (frontOf dest ++ ·) hjoined⟩
      · rw [hcut] at h hjump
        cases h
        refine ⟨⟨hdest, hrest, hcomp, ?_⟩, rfl⟩
        rintro letters ⟨⟩
        exact hjump

/-- A text is cut into parts that it is put together from, and that hold no sign more. -/
theorem split_eq_ok_iff {cs : List Char} {parts : ComputeText} :
    ComputeText.split cs = .ok parts ↔ parts.Apart ∧ parts.joined = cs := by
  constructor
  · intro h
    rcases splitAtFirst_cases '=' cs with ⟨hno, -⟩ | ⟨letters, rest, hletters, rfl, -⟩
    · rw [split_of_not_mem hno] at h
      exact apart_of_splitRest (by simp) h
    · rw [split_of_append hletters] at h
      obtain ⟨hparts, hjoined⟩ := apart_of_splitRest (by rintro _ ⟨⟩; exact hletters) h
      refine ⟨hparts, ?_⟩
      rw [hjoined]
      simp [frontOf]
  · rintro ⟨hparts, rfl⟩
    have hsplit := splitRest_of_apart hparts
    unfold ComputeText.joined
    cases hdest : parts.dest with
    | none =>
        rw [hdest] at hsplit
        exact (split_of_not_mem hparts.rest).trans hsplit
    | some letters =>
        rw [hdest] at hsplit
        rw [frontOf, List.append_assoc]
        exact (split_of_append (hparts.dest letters hdest) _).trans hsplit

/-- The mnemonics that are read as something hold none of the signs between them. -/
theorem apart_of_read {parts : ComputeText} {dest : Dest} {comp : Comp} {jump : Jump}
    (hdest : readDest parts.dest = .ok dest) (hcomp : readComp parts.comp = .ok comp)
    (hjump : readJump parts.jump = .ok jump) : parts.Apart := by
  have hsigns : isMnemonicChar '=' = false ∧ isMnemonicChar ';' = false := by decide
  have hcompChar : ∀ c ∈ parts.comp, isMnemonicChar c = true :=
    readComp_eq_ok_iff.mp hcomp ▸ isMnemonicChar_of_comp comp
  have hjumpChar : ∀ letters, parts.jump = some letters →
      ∀ c ∈ letters, isMnemonicChar c = true := by
    intro letters hletters
    rw [hletters, readJump_some_iff] at hjump
    exact hjump.2 ▸ isMnemonicChar_of_jump jump
  refine ⟨?_, ?_, not_mem_of_isMnemonicChar hcompChar hsigns.2, fun letters hletters =>
    not_mem_of_isMnemonicChar (hjumpChar letters hletters) hsigns.2⟩
  · intro letters hletters
    rw [hletters, readDest_some_iff] at hdest
    exact not_mem_of_isMnemonicChar hdest.isMnemonicChar hsigns.1
  · intro hmem
    rcases List.mem_append.mp hmem with hmem | hmem
    · exact not_mem_of_isMnemonicChar hcompChar hsigns.1 hmem
    · cases hletters : parts.jump with
      | none =>
          rw [hletters] at hmem
          cases hmem
      | some letters =>
          rw [hletters] at hmem
          rcases List.mem_cons.mp hmem with he | hmem
          · exact absurd he (by decide)
          · exact not_mem_of_isMnemonicChar (hjumpChar letters hletters) hsigns.1 hmem

/-- **A compute instruction is read from what spells it.** -/
theorem readCompute_eq_ok_iff {cs : List Char} {i : Instruction} :
    readCompute cs = .ok i ↔ SpellsCompute (withoutBlanks cs) i := by
  unfold readCompute
  constructor
  · intro h
    obtain ⟨parts, hsplit, h⟩ := bind_eq_ok_iff.mp h
    obtain ⟨dest, hdest, h⟩ := bind_eq_ok_iff.mp h
    obtain ⟨comp, hcomp, h⟩ := bind_eq_ok_iff.mp h
    obtain ⟨jump, hjump, h⟩ := bind_eq_ok_iff.mp h
    cases h
    obtain ⟨-, hjoined⟩ := split_eq_ok_iff.mp hsplit
    rw [← hjoined, ComputeText.joined, readComp_eq_ok_iff.mp hcomp]
    exact .parts (spellsFront_iff.mpr ⟨_, rfl, hdest⟩) comp (spellsBack_iff.mpr ⟨_, rfl, hjump⟩)
  · intro h
    generalize hcs : withoutBlanks cs = text at h
    cases h with
    | parts front comp back =>
        obtain ⟨dest?, rfl, hdest⟩ := spellsFront_iff.mp front
        obtain ⟨jump?, rfl, hjump⟩ := spellsBack_iff.mp back
        have hcomp := readComp_eq_ok_iff.mpr (rfl : comp.mnemonic.toList = _)
        have hparts : ComputeText.Apart ⟨dest?, comp.mnemonic.toList, jump?⟩ :=
          apart_of_read hdest hcomp hjump
        have hsplit := split_eq_ok_iff.mpr ⟨hparts, rfl⟩
        exact bind_eq_ok_iff.mpr ⟨_, hsplit, bind_eq_ok_iff.mpr ⟨_, hdest,
          bind_eq_ok_iff.mpr ⟨_, hcomp, bind_eq_ok_iff.mpr ⟨_, hjump, rfl⟩⟩⟩⟩

/-! ## §5. Lines. -/

/-- **A line is read as the instruction that it spells, and only then.** -/
theorem read_eq_ok_iff {line : String} {i : Instruction} :
    Instruction.read line = .ok i ↔ Spells line.toList i := by
  unfold Instruction.read
  constructor
  · intro h
    split at h
    next cs hcs =>
      obtain ⟨operand, hread, rfl⟩ := map_eq_ok_iff.mp h
      rw [hcs]
      exact .address (readOperand_eq_ok_iff.mp hread)
    next cs hcs =>
      obtain ⟨name, hread, rfl⟩ := map_eq_ok_iff.mp h
      obtain ⟨hsymbol, inner, hpad, rfl⟩ := readLabel_eq_ok_iff.mp hread
      rw [hcs]
      exact .label hsymbol hpad
    next cs hat hparen =>
      refine .compute ?_ ?_ (readCompute_eq_ok_iff.mp h)
      · intro hhead
        obtain ⟨rest, hrest⟩ := List.head?_eq_some_iff.mp hhead
        exact hat rest hrest
      · intro hhead
        obtain ⟨rest, hrest⟩ := List.head?_eq_some_iff.mp hhead
        exact hparen rest hrest
  · intro h
    generalize line.toList = cs at h
    cases h with
    | address spelt => exact map_eq_ok_iff.mpr ⟨_, readOperand_eq_ok_iff.mpr spelt, rfl⟩
    | @label name inner symbol blanks =>
        exact map_eq_ok_iff.mpr ⟨_, readLabel_eq_ok_iff.mpr ⟨symbol, inner, blanks, rfl⟩, rfl⟩
    | compute notAddress notLabel parts =>
        split
        next => exact absurd rfl notAddress
        next => exact absurd rfl notLabel
        next => exact readCompute_eq_ok_iff.mpr parts

/-! ## §6. Lines that are not read. -/

/-- A fault of the text of a line: it is malformed, or it names something unknown. -/
def Fault.IsOfText (fault : Fault) : Prop :=
  (∃ reason, fault.diagnosis = .malformed reason)
    ∨ ∃ kind token, fault.diagnosis = .unknown kind token

theorem isOfText_of_readOperand {cs : List Char} {fault : Fault}
    (h : readOperand cs = .error fault) : fault.IsOfText := by
  unfold readOperand at h
  split at h
  next =>
    cases h
    exact .inl ⟨_, rfl⟩
  next =>
    simp only at h
    split at h
    · split at h
      · cases h
        exact .inl ⟨_, rfl⟩
      · split at h
        · cases h
        · cases h
          exact .inl ⟨_, rfl⟩
    · split at h
      · cases h
      · cases h
        exact .inl ⟨_, rfl⟩

theorem isOfText_of_readLabel {cs : List Char} {fault : Fault}
    (h : readLabel cs = .error fault) : fault.IsOfText := by
  unfold readLabel at h
  split at h
  · simp only at h
    split at h
    · cases h
    · cases h
      exact .inl ⟨_, rfl⟩
  · cases h
    exact .inl ⟨_, rfl⟩

theorem isOfText_of_splitRest {dest : Option (List Char)} {rest : List Char} {fault : Fault}
    (h : splitRest dest rest = .error fault) : fault.IsOfText := by
  unfold splitRest at h
  split at h
  · cases h
    exact .inl ⟨_, rfl⟩
  · split at h
    · cases h
      exact .inl ⟨_, rfl⟩
    · cases h

theorem isOfText_of_split {cs : List Char} {fault : Fault}
    (h : ComputeText.split cs = .error fault) : fault.IsOfText := by
  rcases splitAtFirst_cases '=' cs with ⟨hno, -⟩ | ⟨letters, rest, hletters, rfl, -⟩
  · rw [split_of_not_mem hno] at h
    exact isOfText_of_splitRest h
  · rw [split_of_append hletters] at h
    exact isOfText_of_splitRest h

theorem isOfText_of_readDest {letters? : Option (List Char)} {fault : Fault}
    (h : readDest letters? = .error fault) : fault.IsOfText := by
  unfold readDest at h
  split at h
  · cases h
  · cases h
    exact .inl ⟨_, rfl⟩
  · split at h
    · cases h
    · cases h
      exact .inr ⟨_, _, rfl⟩

theorem isOfText_of_readComp {cs : List Char} {fault : Fault} (h : readComp cs = .error fault) :
    fault.IsOfText := by
  unfold readComp at h
  split at h
  · cases h
    exact .inl ⟨_, rfl⟩
  · split at h
    · cases h
    · cases h
      exact .inr ⟨_, _, rfl⟩

theorem isOfText_of_readJump {letters? : Option (List Char)} {fault : Fault}
    (h : readJump letters? = .error fault) : fault.IsOfText := by
  unfold readJump at h
  split at h
  · cases h
  · cases h
    exact .inl ⟨_, rfl⟩
  · split at h
    · cases h
    · cases h
      exact .inr ⟨_, _, rfl⟩

theorem isOfText_of_readCompute {cs : List Char} {fault : Fault}
    (h : readCompute cs = .error fault) : fault.IsOfText := by
  unfold readCompute at h
  rcases bind_eq_error_iff.mp h with hsplit | ⟨parts, -, h⟩
  · exact isOfText_of_split hsplit
  rcases bind_eq_error_iff.mp h with hdest | ⟨dest, -, h⟩
  · exact isOfText_of_readDest hdest
  rcases bind_eq_error_iff.mp h with hcomp | ⟨comp, -, h⟩
  · exact isOfText_of_readComp hcomp
  rcases bind_eq_error_iff.mp h with hjump | ⟨jump, -, h⟩
  · exact isOfText_of_readJump hjump
  cases h

/-- While a line is read it can only be refused for its text. -/
theorem isOfText_of_read {line : String} {fault : Fault}
    (h : Instruction.read line = .error fault) : fault.IsOfText := by
  unfold Instruction.read at h
  split at h
  · exact isOfText_of_readOperand (map_eq_error_iff.mp h)
  · exact isOfText_of_readLabel (map_eq_error_iff.mp h)
  · exact isOfText_of_readCompute h

/-- A line that is not read is reported by its own number, whatever stands before it. -/
theorem addLine_of_unread {line : SourceLine} {fault : Fault}
    (h : Instruction.read line.text = .error fault) (l : Layout) :
    l.addLine line = .error ⟨line.number, fault⟩ := by
  unfold Layout.addLine
  rw [h]
  rfl

/-- **Lines are read by the grammar.**  A line is read as an instruction iff its text
spells that instruction.  Any other line is refused as malformed, or for something
unknown, under its own number. -/
theorem lines_read_by_grammar (line : SourceLine) :
    (∀ i, Instruction.read line.text = .ok i ↔ Spells line.text.toList i)
      ∧ ((∃ i, Spells line.text.toList i)
        ∨ ∃ fault, Instruction.read line.text = .error fault ∧ fault.IsOfText
            ∧ ∀ l : Layout, l.addLine line = .error ⟨line.number, fault⟩) := by
  refine ⟨fun i => read_eq_ok_iff, ?_⟩
  cases h : Instruction.read line.text with
  | ok i => exact .inl ⟨i, read_eq_ok_iff.mp h⟩
  | error fault => exact .inr ⟨fault, rfl, isOfText_of_read h, addLine_of_unread h⟩

-- zeros in front and letters in any order are read; a `;` before the `=` is none of the jump's
example : Instruction.read "@ 007 " = .ok (.address (.literal 7)) := by decide

example : Instruction.read "MDA = D + 1 ; JGT"
    = .ok (.compute ⟨true, true, true⟩ .dPlusOne .gt) := by decide

example : Instruction.read "D;JMP=A" = .error (.unknownDest "D;JMP") := by decide

end HackPlatform.Asm
