/-
  HackPlatform.Proofs.Vm.Naming
  ────────────────────────────────
  **NAMES: the pattern of a symbol, and the names that are made to fit it.**

  What a symbol is, is said twice.  A regular expression spells its alphabet out,

      [A-Za-z_.$:][A-Za-z0-9_.$:]*

  while `isSymbol` and `toSymbol` test one character after the other.  Here the two
  are proved to agree on every text, so that `toSymbol` lands in the pattern and
  leaves exactly the texts of the pattern as they are.  What is composed from the
  symbol of a file holds a `$` or a `.`, which no symbol of the platform does.

      symbolPattern    the regular expression
      ComposedName     the names that are composed from the symbol of a file

  Main results:
    * `isSymbol_iff_matches`, the two definitions agree;
    * `toSymbol_eq_self_iff`, which texts are left as they are;
    * `toSymbol_lands`, the laws of `toSymbol` and of the names composed from it.
-/
import Mathlib.Computability.RegularExpressions
import HackPlatform.Proofs.Vm.Placement

namespace HackPlatform

open Text

/-! ## §1. The pattern. -/

/-- The characters from one code point to another. -/
def between (first last : Char) : List Char :=
  (List.range' first.toNat (last.toNat + 1 - first.toNat)).map Char.ofNat

/-- Any one of some characters. -/
def anyOf (cs : List Char) : RegularExpression Char := cs.foldr (fun c p => .char c + p) 0

/-- `[A-Za-z_.$:]` -/
def symbolStarts : List Char := between 'A' 'Z' ++ between 'a' 'z' ++ ['_', '.', '$', ':']

/-- `[A-Za-z0-9_.$:]` -/
def symbolRests : List Char :=
  between 'A' 'Z' ++ between 'a' 'z' ++ between '0' '9' ++ ['_', '.', '$', ':']

/-- `[A-Za-z_.$:][A-Za-z0-9_.$:]*` -/
def symbolPattern : RegularExpression Char := anyOf symbolStarts * (anyOf symbolRests).star

/-- The whole text matches the pattern. -/
def MatchesSymbol (text : String) : Prop := text.toList ∈ symbolPattern.matches'

/-! ## §2. What the pattern matches. -/

/-- Characters below the surrogates lie between two others as their code points do. -/
theorem mem_between {first last c : Char} (hlast : last.toNat < 0xD800) :
    c ∈ between first last ↔ first.toNat ≤ c.toNat ∧ c.toNat ≤ last.toNat := by
  unfold between
  rw [List.mem_map]
  constructor
  · rintro ⟨n, hn, rfl⟩
    rw [List.mem_range'_1] at hn
    have hvalid : n.isValidChar := .inl (by omega)
    have hn' : (Char.ofNat n).toNat = n := by
      unfold Char.ofNat
      rw [dif_pos hvalid]
      rfl
    omega
  · rintro ⟨hle, hge⟩
    refine ⟨c.toNat, ?_, Char.ofNat_toNat c⟩
    rw [List.mem_range'_1]
    omega

theorem mem_symbolStarts (c : Char) : c ∈ symbolStarts ↔ isSymbolStart c = true := by
  have hupper : c ∈ between 'A' 'Z' ↔ 65 ≤ c.toNat ∧ c.toNat ≤ 90 := mem_between (by decide)
  have hlower : c ∈ between 'a' 'z' ↔ 97 ≤ c.toNat ∧ c.toNat ≤ 122 := mem_between (by decide)
  unfold symbolStarts isSymbolStart
  rw [List.mem_append, List.mem_append, hupper, hlower, Bool.or_eq_true, isAlpha_iff,
    List.contains_iff_mem]
  rfl

theorem mem_symbolRests (c : Char) : c ∈ symbolRests ↔ isSymbolChar c = true := by
  have hupper : c ∈ between 'A' 'Z' ↔ 65 ≤ c.toNat ∧ c.toNat ≤ 90 := mem_between (by decide)
  have hlower : c ∈ between 'a' 'z' ↔ 97 ≤ c.toNat ∧ c.toNat ≤ 122 := mem_between (by decide)
  have hdigit : c ∈ between '0' '9' ↔ 48 ≤ c.toNat ∧ c.toNat ≤ 57 := mem_between (by decide)
  unfold symbolRests isSymbolChar Char.isAlphanum
  rw [List.mem_append, List.mem_append, List.mem_append, hupper, hlower, hdigit, Bool.or_eq_true,
    Bool.or_eq_true, isAlpha_iff, Char.isDigit_iff_toNat, List.contains_iff_mem]
  rfl

theorem mem_anyOf {cs xs : List Char} : xs ∈ (anyOf cs).matches' ↔ ∃ c ∈ cs, xs = [c] := by
  induction cs with
  | nil => simp [anyOf, RegularExpression.matches'_zero]
  | cons c cs ih =>
      show xs ∈ (RegularExpression.char c + anyOf cs).matches' ↔ _
      rw [RegularExpression.matches'_add, Language.mem_add, ih, RegularExpression.matches'_char]
      simp only [List.mem_cons, exists_eq_or_imp]
      exact Iff.rfl

theorem mem_anyOf_star {cs xs : List Char} :
    xs ∈ (anyOf cs).star.matches' ↔ ∀ c ∈ xs, c ∈ cs := by
  rw [RegularExpression.matches'_star, Language.mem_kstar]
  constructor
  · rintro ⟨pieces, rfl, hpieces⟩ c hc
    obtain ⟨piece, hpiece, hc⟩ := List.mem_flatten.mp hc
    obtain ⟨d, hd, rfl⟩ := mem_anyOf.mp (hpieces piece hpiece)
    rwa [List.mem_singleton.mp hc]
  · intro h
    -- one piece for each character
    refine ⟨xs.map fun c => [c], (List.flatMap_singleton' xs).symm, ?_⟩
    intro piece hpiece
    obtain ⟨c, hc, rfl⟩ := List.mem_map.mp hpiece
    exact mem_anyOf.mpr ⟨c, h c hc, rfl⟩

/-- **The pattern matches exactly the symbols.** -/
theorem isSymbol_iff_matches (text : String) : isSymbol text = true ↔ MatchesSymbol text := by
  unfold isSymbol MatchesSymbol symbolPattern
  rw [RegularExpression.matches'_mul, Language.mem_mul]
  constructor
  · intro h
    cases hcs : text.toList with
    | nil => rw [hcs] at h; cases h
    | cons c cs =>
        rw [hcs] at h
        unfold isSymbolText at h
        rw [Bool.and_eq_true, List.all_eq_true] at h
        refine ⟨[c], mem_anyOf.mpr ⟨c, (mem_symbolStarts c).mpr h.1, rfl⟩, cs, ?_, rfl⟩
        exact mem_anyOf_star.mpr fun d hd => (mem_symbolRests d).mpr (h.2 d hd)
  · rintro ⟨start, hstart, rest, hrest, htext⟩
    obtain ⟨c, hc, rfl⟩ := mem_anyOf.mp hstart
    rw [← htext]
    show (isSymbolStart c && rest.all isSymbolChar) = true
    rw [Bool.and_eq_true, List.all_eq_true]
    exact ⟨(mem_symbolStarts c).mp hc, fun d hd =>
      (mem_symbolRests d).mp (mem_anyOf_star.mp hrest d hd)⟩

/-! ## §3. Texts made symbols. -/

/-- A symbol is left as it is. -/
theorem toSymbol_of_isSymbol {text : String} (h : isSymbol text = true) : toSymbol text = text := by
  have hsame : text.toList.map symbolCharOf = text.toList := by
    conv_rhs => rw [← List.map_id text.toList]
    apply List.map_congr_left
    intro c hc
    unfold symbolCharOf
    rw [if_pos (isSymbolChar_of_isSymbol h c hc)]
    rfl
  have hstart : guardStart text.toList = text.toList := by
    unfold isSymbol at h
    cases hcs : text.toList with
    | nil => rw [hcs] at h; cases h
    | cons c cs =>
        rw [hcs] at h
        show (if c.isDigit then '_' :: c :: cs else c :: cs) = c :: cs
        rw [isDigit_head_of_isSymbolText h, if_neg Bool.false_ne_true]
  unfold toSymbol
  rw [hsame, hstart, String.ofList_toList]

/-- **Exactly the symbols are left as they are.** -/
theorem toSymbol_eq_self_iff (text : String) : toSymbol text = text ↔ isSymbol text = true :=
  ⟨fun h => h ▸ isSymbol_toSymbol text, toSymbol_of_isSymbol⟩

/-! ## §4. Names composed from the symbol of a file. -/

namespace Vm

open Asm

/-- The names that are composed from the symbol of a file, while no function has been entered and
whatever the number of labels that were generated before. -/
inductive ComposedName (file : String) : String → Prop where
  /-- A label, by any name that a command can be read with. -/
  | label {line name : String} {c : Command} (labels : Nat) (read : Command.read line = .ok c)
      (holds : c.name? = some name) :
      ComposedName file ((Scope.mk file none labels).labelSymbol name)
  /-- A static variable. -/
  | static (labels index : Nat) :
      ComposedName file ((Scope.mk file none labels).staticSymbol index)
  /-- Where a comparison jumps to. -/
  | comparison (labels : Nat) : ComposedName file (Scope.mk file none labels).compareSymbol
  /-- Where a call returns to. -/
  | answer (labels : Nat) : ComposedName file (Scope.mk file none labels).returnSymbol

/-- A name composed from a symbol is a symbol, but none of the platform's. -/
theorem ComposedName.isSymbol_and_free {file name : String} (hfile : isSymbol file = true)
    (h : ComposedName file name) : isSymbol name = true ∧ isReserved name = false := by
  have hspelt : ∀ labels, (Scope.mk file none labels).Spelt := fun labels =>
    ⟨hfile, fun f hf => by cases hf⟩
  cases h with
  | label labels read holds =>
      have hname := (wellFormed_of_read read).symbol _ holds
      exact ⟨isSymbol_labelSymbol (hspelt labels) hname, isReserved_labelSymbol _ _⟩
  | static labels index =>
      exact ⟨isSymbol_staticSymbol (hspelt labels) index, isReserved_staticSymbol _ index⟩
  | comparison labels =>
      exact ⟨isSymbol_compareSymbol (hspelt labels), isReserved_compareSymbol _⟩
  | answer labels => exact ⟨isSymbol_returnSymbol (hspelt labels), isReserved_returnSymbol _⟩

-- `M$L`, `M.7`, `M.CMP.3` and `M$ret.3`
example : ((Scope.mk "M" none 3).labelSymbol "L", (Scope.mk "M" none 3).staticSymbol 7,
    (Scope.mk "M" none 3).compareSymbol, (Scope.mk "M" none 3).returnSymbol)
      = ("M$L", "M.7", "M.CMP.3", "M$ret.3") := by decide

/-- **Every text is made a symbol, a symbol is left as it is and nothing else is, and what is
composed from the symbol of a file is a symbol that the platform does not use.** -/
theorem toSymbol_lands (text : String) :
    MatchesSymbol (toSymbol text)
    ∧ (toSymbol text = text ↔ MatchesSymbol text)
    ∧ toSymbol (toSymbol text) = toSymbol text
    ∧ ∀ name, ComposedName (toSymbol text) name → MatchesSymbol name ∧ isReserved name = false := by
  have hsymbol := isSymbol_toSymbol text
  refine ⟨(isSymbol_iff_matches _).mp hsymbol, ?_, toSymbol_of_isSymbol hsymbol, ?_⟩
  · rw [toSymbol_eq_self_iff, isSymbol_iff_matches]
  · intro name hname
    obtain ⟨hcomposed, hfree⟩ := hname.isSymbol_and_free hsymbol
    exact ⟨(isSymbol_iff_matches name).mp hcomposed, hfree⟩

theorem toSymbol_lands_numbered :
    toSymbol "07-test" = "_07_test" ∧ ¬ MatchesSymbol "07-test"
    ∧ MatchesSymbol "_07_test$LOOP" ∧ isReserved "_07_test$LOOP" = false := by
  have hname : toSymbol "07-test" = "_07_test" := by decide
  have hread : Command.read "goto LOOP" = .ok (.goto "LOOP") := by decide
  have hlabel : ComposedName "_07_test" "_07_test$LOOP" := .label 0 hread rfl
  obtain ⟨-, hfixed, -, hcomposed⟩ := toSymbol_lands "07-test"
  rw [hname] at hfixed hcomposed
  refine ⟨hname, ?_, hcomposed _ hlabel⟩
  intro hmatches
  exact absurd (hfixed.mpr hmatches) (by decide)

end Vm

end HackPlatform
