/-
  HackPlatform.Proofs.Symbol
  ────────────────────────────────
  **LAWS OF SYMBOLS.**

  A symbol is made of plain characters, so it stands in a line of code as it is.
  A symbol followed by symbol characters is a symbol again; that is how the names
  of generated labels and of static variables are made.

      isPlain_of_isSymbol   a symbol is plain
      isSymbol_append       a symbol with symbol characters after it
      isSymbol_toSymbol     every text has a symbol near it
-/
import HackPlatform.Proofs.Text

namespace HackPlatform

open Text

/-! ## §1. The characters of a symbol. -/

theorem isSymbol_ofList (cs : List Char) : isSymbol (String.ofList cs) = isSymbolText cs := by
  unfold isSymbol
  rw [String.toList_ofList]

theorem isSymbolChar_of_isSymbolText {cs : List Char} (h : isSymbolText cs = true) :
    ∀ c ∈ cs, isSymbolChar c = true := by
  cases cs with
  | nil => cases h
  | cons c cs =>
      unfold isSymbolText at h
      rw [Bool.and_eq_true, List.all_eq_true] at h
      intro d hd
      rcases List.mem_cons.mp hd with rfl | hd
      · have hstart := h.1
        unfold isSymbolStart at hstart
        unfold isSymbolChar Char.isAlphanum
        rw [Bool.or_eq_true] at hstart ⊢
        rcases hstart with hs | hs
        · exact .inl (by rw [hs, Bool.true_or])
        · exact .inr hs
      · exact h.2 d hd

theorem isPlain_of_isSymbol {name : String} (h : isSymbol name = true) :
    ∀ c ∈ name.toList, isPlain c = true := fun c hc =>
  isPlain_of_isSymbolChar (isSymbolChar_of_isSymbolText h c hc)

theorem toList_ne_nil_of_isSymbol {name : String} (h : isSymbol name = true) :
    name.toList ≠ [] := by
  intro hnil
  unfold isSymbol at h
  rw [hnil] at h
  cases h

/-- A symbol does not start with a digit. -/
theorem isDigit_head_of_isSymbolText {c : Char} {cs : List Char}
    (h : isSymbolText (c :: cs) = true) : c.isDigit = false := by
  unfold isSymbolText isSymbolStart at h
  rw [Bool.and_eq_true, Bool.or_eq_true] at h
  rcases h.1 with hs | hs
  · exact isDigit_of_isAlpha hs
  · have hall : ∀ c ∈ symbolMarks, (!c.isDigit) = true := List.all_eq_true.mp (by decide)
    exact Bool.not_eq_true' _ ▸ hall c (List.contains_iff_mem.mp hs)

/-! ## §2. Symbols made from parts. -/

theorem isSymbolChar_of_isSymbol {name : String} (h : isSymbol name = true) :
    ∀ c ∈ name.toList, isSymbolChar c = true := isSymbolChar_of_isSymbolText h

/-- Symbol characters may follow a symbol. -/
theorem isSymbol_append {name rest : String} (h : isSymbol name = true)
    (hrest : ∀ c ∈ rest.toList, isSymbolChar c = true) : isSymbol (name ++ rest) = true := by
  unfold isSymbol at h ⊢
  rw [String.toList_append]
  cases hn : name.toList with
  | nil => rw [hn] at h; cases h
  | cons c cs =>
      rw [hn] at h
      unfold isSymbolText at h ⊢
      rw [Bool.and_eq_true] at h
      show (isSymbolStart c && (cs ++ rest.toList).all isSymbolChar) = true
      rw [List.all_append, h.1, h.2, Bool.true_and, Bool.true_and, List.all_eq_true]
      exact hrest

theorem isSymbolChar_toString (n : Nat) : ∀ c ∈ (toString n).toList, isSymbolChar c = true := by
  intro c hc
  rw [toList_toString] at hc
  unfold isSymbolChar Char.isAlphanum
  rw [isDigit_of_mem_toDigits hc, Bool.or_true, Bool.true_or]

theorem isSymbolChar_symbolCharOf (c : Char) : isSymbolChar (symbolCharOf c) = true := by
  unfold symbolCharOf
  by_cases hc : isSymbolChar c = true
  · rwa [if_pos hc]
  · rw [if_neg hc]
    decide

/-- A symbol character that is no digit may start a symbol. -/
theorem isSymbolStart_of_isSymbolChar {c : Char} (h : isSymbolChar c = true)
    (hdigit : c.isDigit = false) : isSymbolStart c = true := by
  unfold isSymbolChar Char.isAlphanum at h
  unfold isSymbolStart
  rwa [hdigit, Bool.or_false] at h

/-- **Every text is made into a symbol.** -/
theorem isSymbol_toSymbol (text : String) : isSymbol (toSymbol text) = true := by
  have hall : ∀ c ∈ text.toList.map symbolCharOf, isSymbolChar c = true := by
    intro c hc
    obtain ⟨d, -, rfl⟩ := List.mem_map.mp hc
    exact isSymbolChar_symbolCharOf d
  unfold toSymbol
  rw [isSymbol_ofList]
  generalize text.toList.map symbolCharOf = cs at hall
  cases cs with
  | nil => decide
  | cons c cs =>
      show isSymbolText (if c.isDigit then '_' :: c :: cs else c :: cs) = true
      by_cases hdigit : c.isDigit = true
      · rw [if_pos hdigit]
        show (isSymbolStart '_' && (c :: cs).all isSymbolChar) = true
        rw [List.all_eq_true.mpr hall]
        decide
      · rw [if_neg hdigit]
        have hstart := isSymbolStart_of_isSymbolChar (hall c List.mem_cons_self)
          (Bool.eq_false_iff.mpr hdigit)
        show (isSymbolStart c && cs.all isSymbolChar) = true
        rw [hstart, Bool.true_and, List.all_eq_true]
        exact fun d hd => hall d (List.mem_cons_of_mem c hd)

end HackPlatform
