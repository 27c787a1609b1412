/-
  HackPlatform.Proofs.Asm.Reading
  ────────────────────────────────
  **READING BACK WHAT WAS WRITTEN.**

  An instruction is well spelt when its number fits in 15 bits and its name is a
  symbol.  Reading gives well-spelt instructions only, and a well-spelt
  instruction is read back from its text.

      wellSpelt_of_read   what is read is well spelt
      spells_render       the text of what is well spelt spells it
      read_render         what is well spelt is read back
      cleanLine_render    its text is a line of code already
      eq_trimmed_of_read  of any text only the blanks around a symbol are lost
-/
import HackPlatform.Proofs.Asm.Grammar

namespace HackPlatform.Asm

open Text

/-! ## §1. Well-spelt instructions. -/

/-- The number fits in 15 bits, the name is a symbol. -/
def Instruction.WellSpelt : Instruction → Prop
  | .address (.literal value) => value ≤ maxAddress
  | .address (.symbol name) => isSymbol name = true
  | .label name => isSymbol name = true
  | .compute _ _ _ => True

theorem SpellsCompute.wellSpelt {cs : List Char} {i : Instruction} (h : SpellsCompute cs i) :
    i.WellSpelt := by
  cases h with
  | parts => exact trivial

theorem Spells.wellSpelt {cs : List Char} {i : Instruction} (h : Spells cs i) : i.WellSpelt := by
  cases h with
  | address spelt =>
      cases spelt with
      | literal _ _ _ small => exact small
      | symbol symbol => exact symbol
  | label symbol => exact symbol
  | compute _ _ parts => exact parts.wellSpelt

/-- **Only well-spelt instructions are read.** -/
theorem wellSpelt_of_read {line : String} {i : Instruction} (h : Instruction.read line = .ok i) :
    i.WellSpelt := (read_eq_ok_iff.mp h).wellSpelt

/-! ## §2. The text of a compute instruction. -/

/-- The characters of a compute instruction, by its parts. -/
def computeChars (dest : Dest) (comp : Comp) (jump : Jump) : List Char :=
  (if dest = .nowhere then [] else dest.mnemonic.toList ++ ['='])
    ++ (comp.mnemonic.toList ++ if jump = .never then [] else ';' :: jump.mnemonic.toList)

theorem toList_render_compute (dest : Dest) (comp : Comp) (jump : Jump) :
    (Instruction.compute dest comp jump).render.toList = computeChars dest comp jump := by
  unfold Instruction.render computeChars
  rw [String.toList_append, String.toList_append, List.append_assoc]
  congr 1
  · split
    · rfl
    · rw [String.toList_append]; rfl
  · congr 1
    split
    · rfl
    · rw [String.toList_append]; rfl

/-- The characters of a compute instruction are those of its mnemonics and two signs. -/
theorem forall_mem_computeChars {p : Char → Prop} (hmnemonic : ∀ c, isMnemonicChar c = true → p c)
    (hequals : p '=') (hsemicolon : p ';') (dest : Dest) (comp : Comp) (jump : Jump) :
    ∀ c ∈ computeChars dest comp jump, p c := by
  intro c hc
  unfold computeChars at hc
  rcases List.mem_append.mp hc with hc | hc
  · split at hc
    · cases hc
    · rcases List.mem_append.mp hc with hc | hc
      · exact hmnemonic c (isMnemonicChar_of_dest dest c hc)
      · rw [List.mem_singleton.mp hc]
        exact hequals
  · rcases List.mem_append.mp hc with hc | hc
    · exact hmnemonic c (isMnemonicChar_of_comp comp c hc)
    · split at hc
      · cases hc
      · rcases List.mem_cons.mp hc with rfl | hc
        · exact hsemicolon
        · exact hmnemonic c (isMnemonicChar_of_jump jump c hc)

theorem isPlain_computeChars (dest : Dest) (comp : Comp) (jump : Jump) :
    ∀ c ∈ computeChars dest comp jump, isPlain c = true :=
  forall_mem_computeChars (fun _ hc => isPlain_of_isMnemonicChar hc) (by decide) (by decide)
    dest comp jump

/-- The text of a compute instruction spells it. -/
theorem spellsCompute_computeChars (dest : Dest) (comp : Comp) (jump : Jump) :
    SpellsCompute (computeChars dest comp jump) (.compute dest comp jump) := by
  refine .parts ?_ comp ?_
  · by_cases hd : dest = .nowhere
    · rw [if_pos hd, hd]
      exact .absent
    · rw [if_neg hd]
      exact .stored (spellsDest_mnemonic hd)
  · by_cases hj : jump = .never
    · rw [if_pos hj, hj]
      exact .absent
    · rw [if_neg hj]
      exact .jumps hj

/-! ## §3. Instructions are read back. -/

theorem spellsOperand_render {operand : Operand} (h : (Instruction.address operand).WellSpelt) :
    SpellsOperand operand.render.toList operand := by
  cases operand with
  | literal value =>
      have hvalue := ofDigitChars_toDigits value
      have hspells : SpellsOperand (Nat.toDigits 10 value)
          (.literal (Nat.ofDigitChars 10 (Nat.toDigits 10 value) 0)) :=
        .literal Nat.toDigits_ne_nil (fun c hc => isDigit_of_mem_toDigits hc) (.refl _)
          (hvalue.symm ▸ h)
      rw [hvalue] at hspells
      show SpellsOperand (toString value).toList _
      rwa [toList_toString]
  | symbol name => exact .symbol h (.refl _)

/-- **The text of a well-spelt instruction spells it.** -/
theorem spells_render {i : Instruction} (h : i.WellSpelt) : Spells i.render.toList i := by
  cases i with
  | address operand =>
      unfold Instruction.render
      rw [String.toList_append]
      exact .address (spellsOperand_render h)
  | label name =>
      unfold Instruction.render
      rw [String.toList_append, String.toList_append]
      exact .label h (.refl _)
  | compute dest comp jump =>
      -- what is computed starts with a letter, a digit or an operator, not with `@` or `(`
      have hsigns : ∀ c, isMnemonicChar c = true → c ≠ '@' ∧ c ≠ '(' := fun c hc =>
        ⟨by rintro rfl; revert hc; decide, by rintro rfl; revert hc; decide⟩
      have hhead : ∀ c ∈ computeChars dest comp jump, c ≠ '@' ∧ c ≠ '(' :=
        forall_mem_computeChars hsigns (by decide) (by decide) dest comp jump
      have hblank : ∀ c ∈ computeChars dest comp jump, isBlank c = false := fun c hc =>
        isBlank_of_isPlain (isPlain_computeChars dest comp jump c hc)
      rw [toList_render_compute]
      refine .compute ?_ ?_ ?_
      · intro hat
        exact (hhead '@' (List.mem_of_head? hat)).1 rfl
      · intro hparen
        exact (hhead '(' (List.mem_of_head? hparen)).2 rfl
      · rw [withoutBlanks_eq_self hblank]
        exact spellsCompute_computeChars dest comp jump

/-- **A well-spelt instruction is read back from its text.** -/
theorem read_render {i : Instruction} (h : i.WellSpelt) : Instruction.read i.render = .ok i :=
  read_eq_ok_iff.mpr (spells_render h)

/-! ## §4. The text of an instruction is a line of code. -/

theorem isPlain_render {i : Instruction} (h : i.WellSpelt) :
    ∀ c ∈ i.render.toList, isPlain c = true := by
  cases i with
  | address operand =>
      intro c hc
      unfold Instruction.render at hc
      rw [String.toList_append] at hc
      rcases List.mem_cons.mp hc with rfl | hc
      · decide
      · cases operand with
        | literal value =>
            replace hc : c ∈ (toString value).toList := hc
            rw [toList_toString] at hc
            exact isPlain_of_isDigit (isDigit_of_mem_toDigits hc)
        | symbol name => exact isPlain_of_isSymbol h c hc
  | label name =>
      intro c hc
      unfold Instruction.render at hc
      rw [String.toList_append, String.toList_append] at hc
      rcases List.mem_append.mp hc with hc | hc
      · rcases List.mem_cons.mp hc with rfl | hc
        · decide
        · exact isPlain_of_isSymbol h c hc
      · rw [List.mem_singleton.mp hc]
        decide
  | compute dest comp jump =>
      rw [toList_render_compute]
      exact isPlain_computeChars dest comp jump

theorem render_ne_nil (i : Instruction) : i.render.toList ≠ [] := by
  cases i with
  | address operand => unfold Instruction.render; rw [String.toList_append]; simp
  | label name => unfold Instruction.render; rw [String.toList_append, String.toList_append]; simp
  | compute dest comp jump =>
      rw [toList_render_compute]
      unfold computeChars
      have hcomp : comp.mnemonic.toList ≠ [] := by
        cases comp with
        | zero | one | minusOne | d | notD | negD | dPlusOne | dMinusOne => decide
        | y src | notY src | negY src | yPlusOne src | yMinusOne src
        | dPlusY src | dMinusY src | yMinusD src | dAndY src | dOrY src => cases src <;> decide
      simp [hcomp]

/-- The text of a well-spelt instruction is a line of code as it stands. -/
theorem cleanLine_render {i : Instruction} (h : i.WellSpelt) :
    cleanLine i.render = some i.render :=
  cleanLine_of_plain (render_ne_nil i) (isPlain_render h)

/-! ## §5. Texts of what is not well spelt. -/

/-- A name without the blanks at either end. -/
def trimName (name : String) : String := String.ofList (trim name.toList)

/-- The instruction without the blanks around its symbol. -/
def Instruction.trimmed : Instruction → Instruction
  | .address (.symbol name) => .address (.symbol (trimName name))
  | .label name => .label (trimName name)
  | i => i

/-- Nothing but a symbol is addressed: there is a character in it that is neither a blank
nor a digit. -/
def Instruction.Named : Instruction → Prop
  | .address (.literal _) => False
  | .address (.symbol name) => ∃ c ∈ name.toList, isBlank c = false ∧ c.isDigit = false
  | _ => True

theorem trimName_of_padded {name padded : String} (hname : isSymbol name = true)
    (h : Padded name.toList padded.toList) : trimName padded = name := by
  unfold trimName
  rw [(trim_eq_symbol_iff hname).mpr h, String.ofList_toList]

/-- What is neither a blank nor a digit is in no numeral. -/
theorem not_digits_of_padded {digits cs : List Char} (hdigit : ∀ c ∈ digits, c.isDigit = true)
    (h : Padded digits cs) {c : Char} (hc : c ∈ cs) (hblank : isBlank c = false) :
    c.isDigit = true := by
  obtain ⟨before, behind, hbefore, hbehind, rfl⟩ := h
  rcases List.mem_append.mp hc with hc | hc
  · rcases List.mem_append.mp hc with hc | hc
    · rw [hbefore c hc] at hblank
      cases hblank
    · exact hdigit c hc
  · rw [hbehind c hc] at hblank
    cases hblank

/-- The text of an instruction is read as the instruction, without the blanks. -/
theorem eq_trimmed_of_read {i j : Instruction} (hi : i.Named)
    (h : Instruction.read i.render = .ok j) : j = i.trimmed := by
  cases i with
  | address operand =>
      cases operand with
      | literal value => exact hi.elim
      | symbol name =>
          obtain ⟨c, hc, hblank, hdigit⟩ := hi
          have hspells : Spells ('@' :: name.toList) j := by
            have hread := read_eq_ok_iff.mp h
            unfold Instruction.render at hread
            rwa [String.toList_append] at hread
          cases hspells with
          | address spelt =>
              cases spelt with
              | literal _ digit blanks =>
                  rw [not_digits_of_padded digit blanks hc hblank] at hdigit
                  cases hdigit
              | symbol hname blanks =>
                  show _ = Instruction.address (.symbol (trimName name))
                  rw [trimName_of_padded hname blanks]
          | compute notAddress _ _ => exact absurd rfl notAddress
  | label name =>
      have hspells : Spells ('(' :: (name.toList ++ [')'])) j := by
        have hread := read_eq_ok_iff.mp h
        unfold Instruction.render at hread
        rwa [String.toList_append, String.toList_append] at hread
      generalize hcs : '(' :: (name.toList ++ [')']) = cs at hspells
      cases hspells with
      | address => cases hcs
      | label hname blanks =>
          obtain ⟨rfl, -⟩ := List.append_inj' (List.cons.inj hcs).2 rfl
          show _ = Instruction.label (trimName name)
          rw [trimName_of_padded hname blanks]
      | compute _ notLabel _ => rw [← hcs] at notLabel; exact absurd rfl notLabel
  | compute dest comp jump =>
      have hread : Instruction.read (Instruction.compute dest comp jump).render = .ok _ :=
        read_render trivial
      exact Except.ok.inj (h.symm.trans hread)

end HackPlatform.Asm
