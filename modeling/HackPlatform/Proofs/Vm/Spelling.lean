/-
  HackPlatform.Proofs.Vm.Spelling
  ────────────────────────────────
  **COMMANDS ARE READ BACK FROM THEIR TEXTS.**

  A command is written as its tokens with single blanks between them.  If its name is a
  symbol, none of the tokens is empty or holds a blank, so they are cut where they were
  joined, and they spell the command; if the command is within its limits too, it is read
  back.  A command that is not well-formed is never read from any text.

      spaced            tokens with single blanks between them
      Command.parts     the tokens that a command is written as

  Main results:
    * `madeOf_spaced`, tokens are cut where they were joined;
    * `Command.read_render_iff`, which commands are read back.
-/
import HackPlatform.Proofs.Vm.Lowering

namespace HackPlatform

namespace Text

/-! ## §1. Joined tokens. -/

/-- A token: it is not empty, and none of its characters is a blank or a slash. -/
def IsToken (cs : List Char) : Prop := cs ≠ [] ∧ ∀ c ∈ cs, isPlain c = true

instance (cs : List Char) : Decidable (IsToken cs) :=
  decidable_of_iff (cs ≠ [] ∧ cs.all isPlain = true) (and_congr_right fun _ => List.all_eq_true)

/-- Tokens with single blanks between them. -/
def spaced (tokens : List (List Char)) : List Char := [' '].intercalate tokens

@[simp] theorem spaced_nil : spaced [] = [] := rfl

@[simp] theorem spaced_singleton (token : List Char) : spaced [token] = token :=
  List.intercalate_singleton

theorem spaced_cons_cons (token next : List Char) (tokens : List (List Char)) :
    spaced (token :: next :: tokens) = token ++ ' ' :: spaced (next :: tokens) := by
  unfold spaced
  rw [List.intercalate_cons_cons, List.append_assoc]
  rfl

theorem IsToken.isBlank {token : List Char} (h : IsToken token) :
    ∀ c ∈ token, isBlank c = false := fun c hc => isBlank_of_isPlain (h.2 c hc)

section
variable {tokens : List (List Char)} (h : ∀ token ∈ tokens, IsToken token)
include h

/-- **Tokens are cut where they were joined.** -/
theorem madeOf_spaced : MadeOf (spaced tokens) tokens := by
  induction tokens with
  | nil => exact .blanks (by simp)
  | cons token tokens ih =>
      have htoken := h token List.mem_cons_self
      have hmore := ih fun t ht => h t (List.mem_cons_of_mem token ht)
      cases tokens with
      | nil =>
          have halone : MadeOf (token ++ []) [token] :=
            .start htoken.1 htoken.isBlank (by simp) (.blanks (by simp))
          rw [spaced_singleton]
          rwa [List.append_nil] at halone
      | cons next tokens =>
          have hblank : isBlank ' ' = true := by decide
          rw [spaced_cons_cons]
          refine .start htoken.1 htoken.isBlank ?_ (hmore.blank_cons hblank)
          intro c hc
          cases hc
          exact hblank

/-- Their characters are those of the tokens, and blanks. -/
theorem mem_spaced {c : Char} (hc : c ∈ spaced tokens) : c = ' ' ∨ isPlain c = true := by
  induction tokens with
  | nil => cases hc
  | cons token tokens ih =>
      have htoken := h token List.mem_cons_self
      have ih := ih fun t ht => h t (List.mem_cons_of_mem token ht)
      cases tokens with
      | nil =>
          rw [spaced_singleton] at hc
          exact .inr (htoken.2 c hc)
      | cons next tokens =>
          rw [spaced_cons_cons, List.mem_append, List.mem_cons] at hc
          rcases hc with hc | rfl | hc
          · exact .inr (htoken.2 c hc)
          · exact .inl rfl
          · exact ih hc

theorem not_mem_spaced {c : Char} (hblank : c ≠ ' ') (hplain : isPlain c = false) :
    c ∉ spaced tokens := by
  intro hc
  rcases mem_spaced h hc with rfl | hc
  · exact hblank rfl
  · rw [hplain] at hc
    cases hc

/-- Joined tokens start with a token, -/
theorem exists_first_spaced (hne : tokens ≠ []) :
    ∃ first rest, IsToken first ∧ spaced tokens = first ++ rest := by
  cases tokens with
  | nil => exact absurd rfl hne
  | cons token tokens =>
      have htoken := h token List.mem_cons_self
      cases tokens with
      | nil => exact ⟨token, [], htoken, by simp⟩
      | cons next tokens => exact ⟨token, _, htoken, spaced_cons_cons token next tokens⟩

/-- and end with one. -/
theorem exists_last_spaced (hne : tokens ≠ []) :
    ∃ front last, IsToken last ∧ spaced tokens = front ++ last := by
  induction tokens with
  | nil => exact absurd rfl hne
  | cons token tokens ih =>
      cases tokens with
      | nil => exact ⟨[], token, h token List.mem_cons_self, by simp⟩
      | cons next tokens =>
          obtain ⟨front, last, hlast, hspaced⟩ :=
            ih (fun t ht => h t (List.mem_cons_of_mem token ht)) (List.cons_ne_nil next tokens)
          refine ⟨token ++ ' ' :: front, last, hlast, ?_⟩
          rw [spaced_cons_cons, hspaced, List.append_assoc, List.cons_append]

/-- There is nothing to trim from them. -/
theorem trimmed_spaced (hne : tokens ≠ []) : Trimmed (spaced tokens) := by
  obtain ⟨first, rest, hfirst, hstart⟩ := exists_first_spaced h hne
  obtain ⟨front, last, hlast, hend⟩ := exists_last_spaced h hne
  refine ⟨fun c hc => ?_, fun c hc => ?_⟩
  · rw [hstart, List.head?_append_of_ne_nil _ hfirst.1] at hc
    exact hfirst.isBlank c (List.mem_of_mem_head? hc)
  · rw [hend, List.getLast?_append_of_ne_nil _ hlast.1] at hc
    exact hlast.isBlank c (List.mem_of_mem_getLast? hc)

end

end Text

open Text

/-- Joined tokens are a line of code as it stands. -/
theorem cleanLine_of_spaced {line : String} {tokens : List (List Char)}
    (hline : line.toList = spaced tokens) (h : ∀ token ∈ tokens, IsToken token)
    (hne : tokens ≠ []) : cleanLine line = some line := by
  have hslash : '/' ∉ spaced tokens := not_mem_spaced h (by decide) (by decide)
  obtain ⟨first, rest, hfirst, hstart⟩ := exists_first_spaced h hne
  apply IsCode.cleanLine_eq
  constructor <;> rw [hline]
  · rw [hstart]
    exact fun hnil => hfirst.1 (List.append_eq_nil_iff.mp hnil).1
  · exact uncommented_of_not_mem hslash
  · exact trimmed_spaced h hne

namespace Vm

/-! ## §2. One command. -/

namespace Command

/-- The tokens that a command is written as. -/
def parts : Command → List String
  | arithmetic op => [op.mnemonic]
  | push segment index => ["push", segment.name, toString index]
  | pop segment index => ["pop", segment.name, toString index]
  | label name => ["label", name]
  | goto name => ["goto", name]
  | ifGoto name => ["if-goto", name]
  | function name locals => ["function", name, toString locals]
  | call name args => ["call", name, toString args]
  | ret => ["return"]

theorem parts_ne_nil (c : Command) : c.parts ≠ [] := by
  cases c <;> exact List.cons_ne_nil _ _

/-- A command is written as its tokens, with single blanks between them. -/
theorem toList_render (c : Command) : c.render.toList = spaced (c.parts.map String.toList) := by
  cases c <;> simp [render, parts, spaced, String.toList_append]

end Command

theorem isToken_of_isSymbol {name : String} (h : isSymbol name = true) : IsToken name.toList :=
  ⟨toList_ne_nil_of_isSymbol h, isPlain_of_isSymbol h⟩

/-- A number is written as digits that denote it. -/
theorem spellsNumber_toString (n : Nat) : SpellsNumber (toString n) n := by
  refine ⟨?_, fun c hc => ?_, ?_⟩
  · rw [toList_toString]
    exact Nat.toDigits_ne_nil
  · rw [toList_toString] at hc
    exact isDigit_of_mem_toDigits hc
  · rw [toList_toString]
    exact ofDigitChars_toDigits n

theorem SpellsNumber.isToken {token : String} {n : Nat} (h : SpellsNumber token n) :
    IsToken token.toList := ⟨h.nonempty, fun c hc => isPlain_of_isDigit (h.digit c hc)⟩

theorem isToken_mnemonic (op : Arithmetic) : IsToken op.mnemonic.toList := by
  cases op <;> decide

theorem isToken_segment (segment : Segment) : IsToken segment.name.toList := by
  cases segment <;> decide

/-- The tokens that spell a command are tokens. -/
theorem SpellsTokens.isToken {tokens : List String} {c : Command} (h : SpellsTokens tokens c) :
    ∀ token ∈ tokens.map String.toList, IsToken token := by
  rw [List.forall_mem_map]
  cases h with
  | arithmetic op => simpa using isToken_mnemonic op
  | push segment number | pop segment number =>
      refine List.forall_mem_cons.mpr ⟨by decide, ?_⟩
      simp [isToken_segment segment, number.isToken]
  | label symbol | goto symbol | ifGoto symbol =>
      refine List.forall_mem_cons.mpr ⟨by decide, ?_⟩
      simp [isToken_of_isSymbol symbol]
  | function symbol number | call symbol number =>
      refine List.forall_mem_cons.mpr ⟨by decide, ?_⟩
      simp [isToken_of_isSymbol symbol, number.isToken]
  | ret => decide

namespace Command

theorem spellsTokens_parts {c : Command}
    (h : ∀ name, c.name? = some name → isSymbol name = true) : SpellsTokens c.parts c := by
  cases c with
  | arithmetic op => exact .arithmetic op
  | push segment index => exact .push segment (spellsNumber_toString index)
  | pop segment index => exact .pop segment (spellsNumber_toString index)
  | label name => exact .label (h name rfl)
  | goto name => exact .goto (h name rfl)
  | ifGoto name => exact .ifGoto (h name rfl)
  | function name locals => exact .function (h name rfl) (spellsNumber_toString locals)
  | call name args => exact .call (h name rfl) (spellsNumber_toString args)
  | ret => exact .ret

/-- A command with a symbol for a name, written out, has the tokens that it is written as. -/
theorem tokens_render {c : Command} (h : ∀ name, c.name? = some name → isSymbol name = true) :
    tokens c.render = c.parts := by
  rw [tokens_eq_iff, toList_render]
  exact madeOf_spaced (spellsTokens_parts h).isToken

/-- **A command is read back from its text iff it is well-formed.** -/
theorem read_render_iff {c : Command} : read c.render = .ok c ↔ c.WellFormed := by
  constructor
  · exact wellFormed_of_read
  · intro h
    rw [read_eq_ok_iff, tokens_render h.symbol]
    exact ⟨spellsTokens_parts h.symbol, check_eq_ok_iff.mp h.check⟩

section
variable {c : Command} (h : c.WellFormed)
include h

/-- The text of a command is a line of code as it stands, -/
theorem cleanLine_render : cleanLine c.render = some c.render :=
  cleanLine_of_spaced c.toList_render (spellsTokens_parts h.symbol).isToken
    (by simpa using c.parts_ne_nil)

/-- and one line only. -/
theorem newline_not_mem_render : '\n' ∉ c.render.toList := by
  rw [toList_render]
  exact not_mem_spaced (spellsTokens_parts h.symbol).isToken (by decide) (by decide)

end

end Command

end Vm

end HackPlatform
