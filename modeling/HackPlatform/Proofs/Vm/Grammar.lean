/-
  HackPlatform.Proofs.Vm.Grammar
  ────────────────────────────────
  **THE GRAMMAR OF COMMANDS: which tokens spell which command.**

  The tokens of a line are what its blanks leave: none is empty or holds a blank, and
  a blank stands between any two of them.  Nothing else of the line plays a part.  A
  command is spelt by one of

      add sub neg eq gt lt and or not
      push segment number, pop segment number
      label symbol, goto symbol, if-goto symbol
      function symbol number, call symbol number
      return

  Numbers may start with zeros.  They are at most 32767, and less for a segment of fixed
  size and for the arguments of a call, which are counted together with the frame.

      MadeOf             a text and the words that it is made of
      SpellsTokens       tokens spell a command
      Command.InRange    the numbers that a command can have

  Main results:
    * `words_eq_iff`, a text is cut into the words that it is made of;
    * `check_eq_ok_iff`, the check keeps numbers in range;
    * `Command.read_eq_ok_iff`, a command is read from the tokens that spell it;
    * `commands_read_by_grammar`, for every line.
-/
import Mathlib.Data.List.Nodup
import HackPlatform.Vm.Reading
import HackPlatform.Proofs.Attempt
import HackPlatform.Proofs.Symbol

namespace HackPlatform

namespace Text

/-! ## §1. Words. -/

/-- A text is made of these words: they are not empty and hold no blank, and what stands
around them is blank, with at least one blank between any two. -/
inductive MadeOf : List Char → List (List Char) → Prop where
  /-- Blanks alone make no word. -/
  | blanks {gap : List Char} (blank : ∀ c ∈ gap, isBlank c = true) : MadeOf gap []
  /-- A word stands behind blanks, and ends with the text or in front of a blank. -/
  | word {gap word rest : List Char} {words : List (List Char)}
      (blank : ∀ c ∈ gap, isBlank c = true) (nonempty : word ≠ [])
      (blankFree : ∀ c ∈ word, isBlank c = false)
      (apart : ∀ c, rest.head? = some c → isBlank c = true) (more : MadeOf rest words) :
      MadeOf (gap ++ word ++ rest) (word :: words)

theorem splitAtEach_append {α : Type} {sep : α → Bool} {piece rest first : List α}
    {pieces : List (List α)} (hpiece : ∀ x ∈ piece, sep x = false)
    (hrest : splitAtEach sep rest = first :: pieces) :
    splitAtEach sep (piece ++ rest) = (piece ++ first) :: pieces := by
  induction piece with
  | nil => exact hrest
  | cons x piece ih =>
      have ih := ih fun y hy => hpiece y (List.mem_cons_of_mem x hy)
      have hx : ¬ sep x = true := Bool.eq_false_iff.mp (hpiece x List.mem_cons_self)
      show splitAtEach.piece sep x (splitAtEach sep (piece ++ rest)) = _
      rw [ih]
      unfold splitAtEach.piece
      rw [if_neg hx]
      rfl

theorem splitAtEach_cons {α : Type} {sep : α → Bool} {x : α} (hx : sep x = true) (xs : List α) :
    splitAtEach sep (x :: xs) = [] :: splitAtEach sep xs := by
  show splitAtEach.piece sep x (splitAtEach sep xs) = _
  unfold splitAtEach.piece
  rw [if_pos hx]

theorem words_blanks_append {gap : List Char} (h : ∀ c ∈ gap, isBlank c = true)
    (rest : List Char) : words (gap ++ rest) = words rest := by
  induction gap with
  | nil => rfl
  | cons c gap ih =>
      rw [← ih fun d hd => h d (List.mem_cons_of_mem c hd)]
      unfold words
      rw [List.cons_append, splitAtEach_cons (h c List.mem_cons_self), List.filter_cons_of_neg]
      simp

/-- A word is cut off where a blank or nothing follows. -/
theorem words_append {word rest : List Char} (hne : word ≠ [])
    (hfree : ∀ c ∈ word, isBlank c = false) (hrest : ∀ c, rest.head? = some c → isBlank c = true) :
    words (word ++ rest) = word :: words rest := by
  obtain ⟨pieces, hpieces⟩ : ∃ pieces, splitAtEach isBlank rest = [] :: pieces := by
    cases rest with
    | nil => exact ⟨[], rfl⟩
    | cons c rest => exact ⟨_, splitAtEach_cons (hrest c rfl) rest⟩
  unfold words
  rw [splitAtEach_append hfree hpieces, hpieces, List.append_nil, List.filter_cons_of_pos (by simp [hne]),
    List.filter_cons_of_neg (by simp)]

theorem MadeOf.words_eq {cs : List Char} {ws : List (List Char)} (h : MadeOf cs ws) :
    words cs = ws := by
  induction h with
  | @blanks gap blank =>
      have hgap := words_blanks_append blank []
      rwa [List.append_nil] at hgap
  | word blank nonempty blankFree apart _ ih =>
      rw [List.append_assoc, words_blanks_append blank, words_append nonempty blankFree apart, ih]

/-- A text may start with a word. -/
theorem MadeOf.start {word rest : List Char} {words : List (List Char)} (nonempty : word ≠ [])
    (blankFree : ∀ c ∈ word, isBlank c = false)
    (apart : ∀ c, rest.head? = some c → isBlank c = true) (more : MadeOf rest words) :
    MadeOf (word ++ rest) (word :: words) := by
  show MadeOf ([] ++ word ++ rest) (word :: words)
  exact .word (by simp) nonempty blankFree apart more

/-- A blank in front widens the first gap. -/
theorem MadeOf.blank_cons {cs : List Char} {ws : List (List Char)} (h : MadeOf cs ws) {c : Char}
    (hc : isBlank c = true) : MadeOf (c :: cs) ws := by
  have hgap : ∀ gap : List Char, (∀ d ∈ gap, isBlank d = true) →
      ∀ d ∈ c :: gap, isBlank d = true := fun gap hgap => List.forall_mem_cons.mpr ⟨hc, hgap⟩
  cases h with
  | blanks blank => exact .blanks (hgap cs blank)
  | @word gap _ _ _ blank nonempty blankFree apart more =>
      exact .word (hgap gap blank) nonempty blankFree apart more

/-- One character more: a blank widens the first gap, any other starts a word or belongs to the
first one. -/
theorem MadeOf.cons {cs : List Char} {ws : List (List Char)} (h : MadeOf cs ws) (c : Char) :
    ∃ ws', MadeOf (c :: cs) ws' := by
  by_cases hc : isBlank c = true
  · exact ⟨ws, h.blank_cons hc⟩
  · rw [Bool.not_eq_true] at hc
    -- a word of this character alone, where a blank or nothing follows
    have halone : (∀ d, cs.head? = some d → isBlank d = true) → MadeOf (c :: cs) ([c] :: ws) :=
      fun hcs => .start (List.cons_ne_nil c []) (by simpa using hc) hcs h
    cases h with
    | blanks blank => exact ⟨_, halone fun d hd => blank d (List.mem_of_head? hd)⟩
    | @word gap word rest words blank nonempty blankFree apart more =>
        cases gap with
        | nil =>
            exact ⟨(c :: word) :: words, .start (List.cons_ne_nil c word)
              (List.forall_mem_cons.mpr ⟨hc, blankFree⟩) apart more⟩
        | cons b gap =>
            refine ⟨_, halone fun d hd => ?_⟩
            cases hd
            exact blank b List.mem_cons_self

theorem exists_madeOf (cs : List Char) : ∃ ws, MadeOf cs ws := by
  induction cs with
  | nil => exact ⟨[], .blanks (by simp)⟩
  | cons c cs ih =>
      obtain ⟨ws, h⟩ := ih
      exact h.cons c

/-- **A text is cut into the words that it is made of.** -/
theorem words_eq_iff {cs : List Char} {ws : List (List Char)} :
    words cs = ws ↔ MadeOf cs ws := by
  constructor
  · rintro rfl
    obtain ⟨ws, h⟩ := exists_madeOf cs
    rwa [h.words_eq]
  · exact MadeOf.words_eq

end Text

namespace Vm

open Text

/-- The tokens of a line are the words that it is made of. -/
theorem tokens_eq_iff {line : String} {tokens : List String} :
    Command.tokens line = tokens ↔ MadeOf line.toList (tokens.map String.toList) := by
  rw [← words_eq_iff]
  unfold Command.tokens
  constructor
  · rintro rfl
    rw [List.map_map]
    exact ((List.map_congr_left fun _ _ => String.toList_ofList).trans (List.map_id _)).symm
  · intro h
    rw [h, List.map_map]
    exact (List.map_congr_left fun _ _ => String.ofList_toList).trans (List.map_id _)

/-! ## §2. The grammar. -/

/-- A token spells a number: it is made of digits, and they denote it. -/
structure SpellsNumber (token : String) (n : Nat) : Prop where
  /-- There is a digit. -/
  nonempty : token.toList ≠ []
  /-- There is nothing else. -/
  digit : ∀ c ∈ token.toList, c.isDigit = true
  /-- The digits denote the number. -/
  value : Nat.ofDigitChars 10 token.toList 0 = n

/-- Tokens spell a command. -/
inductive SpellsTokens : List String → Command → Prop where
  /-- An arithmetic command is its mnemonic. -/
  | arithmetic (op : Arithmetic) : SpellsTokens [op.mnemonic] (.arithmetic op)
  /-- A cell is pushed, by its segment and its index, -/
  | push (segment : Segment) {token : String} {n : Nat} (number : SpellsNumber token n) :
      SpellsTokens ["push", segment.name, token] (.push segment n)
  /-- or popped to. -/
  | pop (segment : Segment) {token : String} {n : Nat} (number : SpellsNumber token n) :
      SpellsTokens ["pop", segment.name, token] (.pop segment n)
  /-- A symbol is a label, -/
  | label {name : String} (symbol : isSymbol name = true) :
      SpellsTokens ["label", name] (.label name)
  /-- or jumped to, -/
  | goto {name : String} (symbol : isSymbol name = true) : SpellsTokens ["goto", name] (.goto name)
  /-- perhaps. -/
  | ifGoto {name : String} (symbol : isSymbol name = true) :
      SpellsTokens ["if-goto", name] (.ifGoto name)
  /-- A function is entered, with the number of its local variables, -/
  | function {name token : String} {n : Nat} (symbol : isSymbol name = true)
      (number : SpellsNumber token n) : SpellsTokens ["function", name, token] (.function name n)
  /-- or called, with the number of its arguments, -/
  | call {name token : String} {n : Nat} (symbol : isSymbol name = true)
      (number : SpellsNumber token n) : SpellsTokens ["call", name, token] (.call name n)
  /-- or left. -/
  | ret : SpellsTokens ["return"] .ret

/-- The last index of a segment. -/
def Segment.lastIndex : Segment → Nat
  | pointer => 1
  | temp => 7
  | argument | locals | static | constant | this | that => 32767

/-- The numbers that a command can have; and a constant cannot be popped to. -/
def Command.InRange : Command → Prop
  | .push segment index => index ≤ segment.lastIndex
  | .pop segment index => segment ≠ .constant ∧ index ≤ segment.lastIndex
  | .function _ locals => locals ≤ 32767
  | .call _ args => args ≤ 32762
  | _ => True

/-! ## §3. Operands. -/

theorem readName_eq_ok_iff {token name : String} :
    readName token = .ok name ↔ isSymbol name = true ∧ token = name := by
  unfold readName
  constructor
  · intro h
    split at h
    next hsymbol =>
      cases h
      exact ⟨hsymbol, rfl⟩
    next => cases h
  · rintro ⟨hsymbol, rfl⟩
    rw [if_pos hsymbol]

theorem readNumber_eq_ok_iff {token : String} {n : Nat} :
    readNumber token = .ok n ↔ SpellsNumber token n ∧ n ≤ maxNumber := by
  unfold readNumber
  constructor
  · intro h
    split at h
    next hnumeral =>
      obtain ⟨hne, hdigit⟩ := isNumeral_iff.mp hnumeral
      split at h
      next value hvalue =>
        cases h
        obtain ⟨hvalue, hle⟩ := readUpTo_eq_some_iff.mp hvalue
        exact ⟨⟨hne, hdigit, hvalue⟩, hle⟩
      next => cases h
    next => cases h
  · rintro ⟨⟨hne, hdigit, hvalue⟩, hle⟩
    rw [if_pos (isNumeral_iff.mpr ⟨hne, hdigit⟩), readUpTo_eq_some_iff.mpr ⟨hvalue, hle⟩]

theorem readSegment_eq_ok_iff {token : String} {segment : Segment} :
    readSegment token = .ok segment ↔ token = segment.name := by
  unfold readSegment
  constructor
  · intro h
    split at h
    next found hfound =>
      cases h
      have hsame := List.find?_some (p := fun s : Segment => s.name == token) hfound
      exact (beq_iff_eq.mp hsame).symm
    next => cases h
  · rintro rfl
    cases segment <;> rfl

theorem ofMnemonic?_eq_some_iff {token : String} {op : Arithmetic} :
    Arithmetic.ofMnemonic? token = some op ↔ token = op.mnemonic := by
  constructor
  · intro h
    have hsame := List.find?_some (p := fun op : Arithmetic => op.mnemonic == token) h
    exact (beq_iff_eq.mp hsame).symm
  · rintro rfl
    cases op <;> rfl

section
variable {args : List String} {c : Command}

theorem readNone_eq_ok_iff {c' : Command} : readNone c' args = .ok c ↔ args = [] ∧ c = c' := by
  cases args with
  | nil => simp [readNone, eq_comm]
  | cons => simp [readNone]

theorem readOne_eq_ok_iff {make : String → Command} :
    readOne make args = .ok c ↔ ∃ name, isSymbol name = true ∧ args = [name] ∧ c = make name := by
  unfold readOne
  constructor
  · intro h
    split at h
    next token =>
      obtain ⟨name, hname, rfl⟩ := map_eq_ok_iff.mp h
      obtain ⟨hsymbol, rfl⟩ := readName_eq_ok_iff.mp hname
      exact ⟨token, hsymbol, rfl, rfl⟩
    next => cases h
  · rintro ⟨name, hsymbol, rfl, rfl⟩
    exact map_eq_ok_iff.mpr ⟨name, readName_eq_ok_iff.mpr ⟨hsymbol, rfl⟩, rfl⟩

theorem readCell_eq_ok_iff {make : Segment → Nat → Command} :
    readCell make args = .ok c ↔ ∃ segment token n, SpellsNumber token n ∧ n ≤ maxNumber
      ∧ args = [segment.name, token] ∧ c = make segment n := by
  unfold readCell
  constructor
  · intro h
    split at h
    next =>
      obtain ⟨segment, hsegment, h⟩ := bind_eq_ok_iff.mp h
      obtain ⟨n, hn, h⟩ := bind_eq_ok_iff.mp h
      cases h
      cases readSegment_eq_ok_iff.mp hsegment
      obtain ⟨hspells, hle⟩ := readNumber_eq_ok_iff.mp hn
      exact ⟨segment, _, n, hspells, hle, rfl, rfl⟩
    next => cases h
  · rintro ⟨segment, token, n, hspells, hle, rfl, rfl⟩
    exact bind_eq_ok_iff.mpr ⟨segment, readSegment_eq_ok_iff.mpr rfl,
      bind_eq_ok_iff.mpr ⟨n, readNumber_eq_ok_iff.mpr ⟨hspells, hle⟩, rfl⟩⟩

theorem readCounted_eq_ok_iff {make : String → Nat → Command} :
    readCounted make args = .ok c ↔ ∃ name token n, isSymbol name = true ∧ SpellsNumber token n
      ∧ n ≤ maxNumber ∧ args = [name, token] ∧ c = make name n := by
  unfold readCounted
  constructor
  · intro h
    split at h
    next =>
      obtain ⟨name, hname, h⟩ := bind_eq_ok_iff.mp h
      obtain ⟨n, hn, h⟩ := bind_eq_ok_iff.mp h
      cases h
      obtain ⟨hsymbol, rfl⟩ := readName_eq_ok_iff.mp hname
      obtain ⟨hspells, hle⟩ := readNumber_eq_ok_iff.mp hn
      exact ⟨_, _, n, hsymbol, hspells, hle, rfl, rfl⟩
    next => cases h
  · rintro ⟨name, token, n, hsymbol, hspells, hle, rfl, rfl⟩
    exact bind_eq_ok_iff.mpr ⟨name, readName_eq_ok_iff.mpr ⟨hsymbol, rfl⟩,
      bind_eq_ok_iff.mpr ⟨n, readNumber_eq_ok_iff.mpr ⟨hspells, hle⟩, rfl⟩⟩

end

/-! ## §4. Limits. -/

theorem checkIndex_eq_ok_iff {segment : Segment} {index : Nat} :
    segment.checkIndex index = .ok () ↔ index ≤ segment.lastIndex := by
  unfold Segment.checkIndex Asm.maxAddress
  cases segment with
  | argument | locals | static | constant | this | that | pointer | temp =>
      simp only [Segment.maxIndex?, Segment.lastIndex]
      split_ifs <;> simp <;> omega

/-- **The check keeps the numbers of a command in range.** -/
theorem check_eq_ok_iff {c : Command} : c.check = .ok () ↔ c.InRange := by
  cases c with
  | push segment index => exact checkIndex_eq_ok_iff
  | pop segment index =>
      cases segment with
      | constant => simp [Command.check, Command.InRange]
      | argument | locals | static | this | that | pointer | temp =>
          show _ ↔ _ ≠ _ ∧ _
          rw [← checkIndex_eq_ok_iff]
          simp [Command.check]
  | function name locals =>
      show (if locals > 32767 then _ else _) = _ ↔ locals ≤ 32767
      split_ifs <;> simp <;> omega
  | call name args =>
      show (if 5 + args > 32767 then _ else _) = _ ↔ args ≤ 32762
      split_ifs <;> simp <;> omega
  | arithmetic | label | goto | ifGoto | ret => exact iff_of_true rfl trivial

/-- An index in range can be loaded. -/
theorem lastIndex_le_maxAddress (segment : Segment) : segment.lastIndex ≤ Asm.maxAddress := by
  cases segment <;> decide

/-- It is small enough to be read in the first place. -/
theorem le_maxNumber_of_le_lastIndex {segment : Segment} {index : Nat}
    (h : index ≤ segment.lastIndex) : index ≤ maxNumber :=
  Nat.le_trans (Nat.le_trans h (lastIndex_le_maxAddress segment)) (by decide)

/-! ## §5. Commands. -/

theorem spellsTokens_of_ofTokens {tokens : List String} {c : Command}
    (h : Command.ofTokens tokens = .ok c) : SpellsTokens tokens c := by
  unfold Command.ofTokens at h
  split at h
  next => cases h
  next op args =>
    split at h
    next found hop =>
      cases ofMnemonic?_eq_some_iff.mp hop
      obtain ⟨rfl, rfl⟩ := readNone_eq_ok_iff.mp h
      exact .arithmetic found
    next =>
      -- by the first token, in the order in which they are tried
      split at h
      next =>
        obtain ⟨segment, token, n, hn, -, rfl, rfl⟩ := readCell_eq_ok_iff.mp h
        exact .push segment hn
      next =>
        obtain ⟨segment, token, n, hn, -, rfl, rfl⟩ := readCell_eq_ok_iff.mp h
        exact .pop segment hn
      next =>
        obtain ⟨name, hname, rfl, rfl⟩ := readOne_eq_ok_iff.mp h
        exact .label hname
      next =>
        obtain ⟨name, hname, rfl, rfl⟩ := readOne_eq_ok_iff.mp h
        exact .goto hname
      next =>
        obtain ⟨name, hname, rfl, rfl⟩ := readOne_eq_ok_iff.mp h
        exact .ifGoto hname
      next =>
        obtain ⟨name, token, n, hname, hn, -, rfl, rfl⟩ := readCounted_eq_ok_iff.mp h
        exact .function hname hn
      next =>
        obtain ⟨name, token, n, hname, hn, -, rfl, rfl⟩ := readCounted_eq_ok_iff.mp h
        exact .call hname hn
      next =>
        obtain ⟨rfl, rfl⟩ := readNone_eq_ok_iff.mp h
        exact .ret
      next => cases h

/-- Tokens are read as the command that they spell, if its number is in range. -/
theorem ofTokens_of_spells {tokens : List String} {c : Command} (h : SpellsTokens tokens c)
    (hrange : c.InRange) : Command.ofTokens tokens = .ok c := by
  cases h with
  | arithmetic op => cases op <;> rfl
  | @push segment token n number =>
      have hle := le_maxNumber_of_le_lastIndex hrange
      show readCell .push [segment.name, token] = _
      exact readCell_eq_ok_iff.mpr ⟨segment, token, n, number, hle, rfl, rfl⟩
  | @pop segment token n number =>
      have hle := le_maxNumber_of_le_lastIndex hrange.2
      show readCell .pop [segment.name, token] = _
      exact readCell_eq_ok_iff.mpr ⟨segment, token, n, number, hle, rfl, rfl⟩
  | @label name symbol =>
      show readOne .label [name] = _
      exact readOne_eq_ok_iff.mpr ⟨name, symbol, rfl, rfl⟩
  | @goto name symbol =>
      show readOne .goto [name] = _
      exact readOne_eq_ok_iff.mpr ⟨name, symbol, rfl, rfl⟩
  | @ifGoto name symbol =>
      show readOne .ifGoto [name] = _
      exact readOne_eq_ok_iff.mpr ⟨name, symbol, rfl, rfl⟩
  | @function name token n symbol number =>
      have hle : n ≤ maxNumber := Nat.le_trans hrange (by decide)
      show readCounted .function [name, token] = _
      exact readCounted_eq_ok_iff.mpr ⟨name, token, n, symbol, number, hle, rfl, rfl⟩
  | @call name token n symbol number =>
      have hle : n ≤ maxNumber := Nat.le_trans hrange (by decide)
      show readCounted .call [name, token] = _
      exact readCounted_eq_ok_iff.mpr ⟨name, token, n, symbol, number, hle, rfl, rfl⟩
  | ret => rfl

namespace Command

/-- **A command is read from the tokens that spell it**, if its number is in range. -/
theorem read_eq_ok_iff {line : String} {c : Command} :
    read line = .ok c ↔ SpellsTokens (tokens line) c ∧ c.InRange := by
  unfold read
  constructor
  · intro h
    obtain ⟨c', htokens, h⟩ := bind_eq_ok_iff.mp h
    obtain ⟨_, hcheck, h⟩ := bind_eq_ok_iff.mp h
    cases h
    exact ⟨spellsTokens_of_ofTokens htokens, check_eq_ok_iff.mp hcheck⟩
  · rintro ⟨hspells, hrange⟩
    exact bind_eq_ok_iff.mpr ⟨c, ofTokens_of_spells hspells hrange,
      bind_eq_ok_iff.mpr ⟨(), check_eq_ok_iff.mpr hrange, rfl⟩⟩

end Command

/-- What a line is read as, by the tokens that it is made of. -/
structure ReadByGrammar (line : String) (tokens : List String) : Prop where
  /-- The line is made of these tokens and of no others. -/
  tokens_iff : ∀ ts, MadeOf line.toList (ts.map String.toList) ↔ ts = tokens
  /-- It is read as a command iff the tokens spell it and its number is in range. -/
  read_iff : ∀ c, Command.read line = .ok c ↔ SpellsTokens tokens c ∧ c.InRange
  /-- What is read passes the check. -/
  checked : ∀ c, Command.read line = .ok c → c.check = .ok ()
  /-- A line whose tokens spell no command in range is refused. -/
  refused : (¬ ∃ c : Command, SpellsTokens tokens c ∧ c.InRange) →
    ∃ fault, Command.read line = .error fault

/-- **Commands are read by the grammar.**  Every line is made of certain tokens, and is read as
the command that they spell, if they spell one and its number is in range. -/
theorem commands_read_by_grammar (line : String) : ∃ tokens, ReadByGrammar line tokens := by
  refine ⟨Command.tokens line, fun ts => ?_, fun c => Command.read_eq_ok_iff, ?_, ?_⟩
  · rw [← tokens_eq_iff, eq_comm]
  · intro c h
    exact check_eq_ok_iff.mpr (Command.read_eq_ok_iff.mp h).2
  · intro hno
    cases h : Command.read line with
    | error fault => exact ⟨fault, rfl⟩
    | ok c => exact absurd ⟨c, Command.read_eq_ok_iff.mp h⟩ hno

-- an ideographic space and a tab part tokens, and zeros in front do not count
example : Command.read " call\u3000f\t0032762" = .ok (.call "f" 32762) := by decide +kernel

example : Command.read "call f 32763" = .error (.tooManyArguments "f" 32763) := by decide +kernel

end Vm

end HackPlatform
