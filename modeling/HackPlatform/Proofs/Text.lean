/-
  HackPlatform.Proofs.Text
  ────────────────────────────────
  **LAWS OF TEXT: blanks, comments, numerals, lines.**

  The texts that the tools write are made of plain characters: neither blank nor
  a slash.  Reading such a text back changes nothing, since there is nothing to
  trim and no comment to drop.

      Trimmed, Padded                         no blanks at the ends, blanks added there
      trim_eq_iff, trim_padded                what trimming leaves, and what it takes away
      splitAtFirst_cases                      cutting at a separator
      readUpTo_eq_some_iff                    the number that digits are read as
      toList_toString, readUpTo_toDigits      a number and its digits
      linesBy_flatMap                         closed lines are cut where they were joined
      exists_lines, closed_linesBy            lines, and what they were cut from
      Uncommented, beforeComment_cases        a line without a comment, and one with a comment
      cleanLine_eq_some_iff, IsCode           what a line is cleaned to
      cleanLine_of_padded                     blanks around a line make no difference
      rawLines_join                           a text of closed lines has just these lines
      exists_raw                              a line of code and the raw line it stands on
-/
import Mathlib.Data.List.TakeWhile
import HackPlatform.Source
import HackPlatform.Symbol
import HackPlatform.Text.Decimal

namespace HackPlatform

namespace Text

/-! ## §1. Plain characters. -/

/-- Neither a blank nor the character that comments start with. -/
def isPlain (c : Char) : Bool := !isBlank c && c != '/'

theorem isBlank_of_isPlain {c : Char} (h : isPlain c = true) : isBlank c = false := by
  unfold isPlain at h
  rw [Bool.and_eq_true, Bool.not_eq_true'] at h
  exact h.1

theorem ne_slash_of_isPlain {c : Char} (h : isPlain c = true) : c ≠ '/' := by
  unfold isPlain at h
  rw [Bool.and_eq_true, bne_iff_ne] at h
  exact h.2

theorem newline_not_mem_of_plain {cs : List Char} (h : ∀ c ∈ cs, isPlain c = true) :
    '\n' ∉ cs := by
  intro hm
  have hnewline : isPlain '\n' = false := by decide
  have hplain := h '\n' hm
  rw [hnewline] at hplain
  cases hplain

/-- Letters by their code points. -/
theorem isAlpha_iff {c : Char} : c.isAlpha = true ↔
    (65 ≤ c.toNat ∧ c.toNat ≤ 90) ∨ (97 ≤ c.toNat ∧ c.toNat ≤ 122) := by
  show (decide (65 ≤ c.val ∧ c.val ≤ 90) || (97 ≤ c.val && c.val ≤ 122)) = true ↔ _
  simp only [Bool.or_eq_true, Bool.and_eq_true, decide_eq_true_eq, UInt32.le_iff_toNat_le]
  exact Iff.rfl

theorem toNat_of_isAlphanum {c : Char} (h : c.isAlphanum = true) :
    (48 ≤ c.toNat ∧ c.toNat ≤ 57) ∨ (65 ≤ c.toNat ∧ c.toNat ≤ 90)
      ∨ (97 ≤ c.toNat ∧ c.toNat ≤ 122) := by
  have hsplit : (c.isAlpha || c.isDigit) = true := h
  rw [Bool.or_eq_true] at hsplit
  rcases hsplit with hletter | hdigit
  · exact .inr (isAlpha_iff.mp hletter)
  · exact .inl (Char.isDigit_iff_toNat.mp hdigit)

/-- No letter and no digit is a blank or a slash. -/
theorem isPlain_of_isAlphanum {c : Char} (h : c.isAlphanum = true) : isPlain c = true := by
  have hrange := toNat_of_isAlphanum h
  have hslash : c ≠ '/' := by
    rintro rfl
    revert h
    decide
  unfold isPlain isBlank
  simp only [Bool.and_eq_true, Bool.not_eq_true', bne_iff_ne, ne_eq, hslash, not_false_eq_true,
    and_true, Bool.or_eq_false_iff, Bool.and_eq_false_iff, decide_eq_false_iff_not,
    beq_eq_false_iff_ne]
  omega

/-- No letter is a digit. -/
theorem isDigit_of_isAlpha {c : Char} (h : c.isAlpha = true) : c.isDigit = false := by
  have hletter := isAlpha_iff.mp h
  rw [← Bool.not_eq_true]
  intro hdigit
  have hrange : 48 ≤ c.toNat ∧ c.toNat ≤ 57 := Char.isDigit_iff_toNat.mp hdigit
  omega

theorem isPlain_of_isDigit {c : Char} (h : c.isDigit = true) : isPlain c = true :=
  isPlain_of_isAlphanum (by unfold Char.isAlphanum; rw [h, Bool.or_true])

theorem isPlain_of_isSymbolChar {c : Char} (h : isSymbolChar c = true) : isPlain c = true := by
  unfold isSymbolChar at h
  rw [Bool.or_eq_true] at h
  rcases h with h | h
  · exact isPlain_of_isAlphanum h
  · have hall : ∀ c ∈ symbolMarks, isPlain c = true := List.all_eq_true.mp (by decide)
    exact hall c (List.contains_iff_mem.mp h)

/-! ## §2. Blanks. -/

/-- A text with blanks around it. -/
def Padded (cs padded : List Char) : Prop :=
  ∃ before behind, (∀ c ∈ before, isBlank c = true) ∧ (∀ c ∈ behind, isBlank c = true)
    ∧ padded = before ++ cs ++ behind

theorem Padded.refl (cs : List Char) : Padded cs cs :=
  ⟨[], [], by simp, by simp, by simp⟩

theorem Padded.trans {cs padded wider : List Char} (h : Padded cs padded)
    (hwider : Padded padded wider) : Padded cs wider := by
  obtain ⟨before, behind, hbefore, hbehind, rfl⟩ := h
  obtain ⟨before', behind', hbefore', hbehind', rfl⟩ := hwider
  refine ⟨before' ++ before, behind ++ behind', ?_, ?_, by simp only [List.append_assoc]⟩
  · intro c hc
    exact (List.mem_append.mp hc).elim (hbefore' c) (hbefore c)
  · intro c hc
    exact (List.mem_append.mp hc).elim (hbehind c) (hbehind' c)

/-- Trimming takes away nothing but blanks. -/
theorem padded_trim (cs : List Char) : Padded (trim cs) cs := by
  let rest := cs.dropWhile isBlank
  have hall : ∀ xs : List Char, ∀ c ∈ xs.takeWhile isBlank, isBlank c = true :=
    fun xs => List.all_eq_true.mp List.all_takeWhile
  refine ⟨cs.takeWhile isBlank, (rest.reverse.takeWhile isBlank).reverse, hall cs, ?_, ?_⟩
  · intro c hc
    exact hall rest.reverse c (List.mem_reverse.mp hc)
  · show cs = cs.takeWhile isBlank ++ (rest.reverse.dropWhile isBlank).reverse
      ++ (rest.reverse.takeWhile isBlank).reverse
    rw [List.append_assoc, ← List.reverse_append, List.takeWhile_append_dropWhile,
      List.reverse_reverse, List.takeWhile_append_dropWhile]

/-- A text that neither starts nor ends with a blank. -/
structure Trimmed (cs : List Char) : Prop where
  /-- Its first character is none, -/
  first : ∀ c ∈ cs.head?, isBlank c = false
  /-- and so is its last. -/
  last : ∀ c ∈ cs.getLast?, isBlank c = false

theorem trimmed_of_blank_free {cs : List Char} (h : ∀ c ∈ cs, isBlank c = false) : Trimmed cs :=
  ⟨fun c hc => h c (List.mem_of_mem_head? hc), fun c hc => h c (List.mem_of_mem_getLast? hc)⟩

/-- Trimming leaves a trimmed text. -/
theorem trimmed_trim (cs : List Char) : Trimmed (trim cs) := by
  let rest := cs.dropWhile isBlank
  -- what is left starts with a character that is to stay
  have hfirst : ∀ {cs : List Char}, ∀ c ∈ (cs.dropWhile isBlank).head?, isBlank c = false := by
    intro cs c hc
    have hstays := List.head?_dropWhile_not isBlank cs
    rwa [Option.mem_def.mp hc] at hstays
  refine ⟨?_, ?_⟩
  · intro c hc
    -- the last blanks are gone too, but the first character that stays is the same
    have hrest : rest = trim cs ++ (rest.reverse.takeWhile isBlank).reverse := by
      show rest = (rest.reverse.dropWhile isBlank).reverse ++ _
      rw [← List.reverse_append, List.takeWhile_append_dropWhile, List.reverse_reverse]
    apply hfirst c
    show c ∈ rest.head?
    rw [hrest, List.head?_append, Option.mem_def.mp hc]
    rfl
  · intro c hc
    apply hfirst c
    show c ∈ (rest.reverse.dropWhile isBlank).head?
    rwa [← List.getLast?_reverse]

/-- A trimmed text is what is left when the blanks around it are taken away. -/
theorem trim_of_padded {cs padded : List Char} (htrimmed : Trimmed cs) (h : Padded cs padded) :
    trim padded = cs := by
  obtain ⟨before, behind, hbefore, hbehind, rfl⟩ := h
  have hbehind' : ∀ c ∈ behind.reverse, isBlank c = true := fun c hc =>
    hbehind c (List.mem_reverse.mp hc)
  unfold trim trimRight trimLeft
  rw [List.append_assoc, List.dropWhile_append_of_pos hbefore]
  cases cs with
  | nil =>
      -- all is blank, so nothing is left
      have hnone : (behind ++ []).dropWhile isBlank = [] := List.dropWhile_append_of_pos hbehind
      rw [List.append_nil] at hnone
      rw [List.nil_append, hnone]
      rfl
  | cons c cs =>
      have hleft : (c :: cs ++ behind).dropWhile isBlank = c :: cs ++ behind :=
        List.dropWhile_eq_self_iff.mpr fun _ => Bool.eq_false_iff.mp (htrimmed.first c rfl)
      have hright : (c :: cs).reverse.dropWhile isBlank = (c :: cs).reverse := by
        refine List.dropWhile_eq_self_iff.mpr fun hl => Bool.eq_false_iff.mp (htrimmed.last _ ?_)
        rw [← List.head?_reverse, List.head?_eq_getElem?, List.getElem?_eq_getElem hl]
        rfl
      rw [hleft, List.reverse_append, List.dropWhile_append_of_pos hbehind', hright,
        List.reverse_reverse]

theorem trim_eq_iff {cs padded : List Char} (h : Trimmed cs) :
    trim padded = cs ↔ Padded cs padded :=
  ⟨fun htrim => htrim ▸ padded_trim padded, trim_of_padded h⟩

theorem trim_eq_self {cs : List Char} (h : Trimmed cs) : trim cs = cs :=
  trim_of_padded h (.refl cs)

/-- Blanks around a text make no difference to trimming. -/
theorem trim_padded {cs padded : List Char} (h : Padded cs padded) : trim padded = trim cs :=
  trim_of_padded (trimmed_trim cs) ((padded_trim cs).trans h)

theorem withoutBlanks_eq_self {cs : List Char} (h : ∀ c ∈ cs, isBlank c = false) :
    withoutBlanks cs = cs := by
  unfold withoutBlanks
  rw [List.filter_eq_self]
  intro c hc
  rw [h c hc]
  rfl

/-! ## §3. Separators and lines. -/

theorem splitAtFirst_none {sep : Char} {cs : List Char} (h : sep ∉ cs) :
    splitAtFirst sep cs = (cs, none) := by
  have hne : ∀ c ∈ cs, (c != sep) = true := fun c hc =>
    bne_iff_ne.mpr fun he => h (he ▸ hc)
  have hdrop : (cs ++ []).dropWhile (· != sep) = [] := List.dropWhile_append_of_pos hne
  rw [List.append_nil] at hdrop
  unfold splitAtFirst
  rw [hdrop]

theorem splitAtFirst_append {sep : Char} {cs : List Char} (h : sep ∉ cs) (rest : List Char) :
    splitAtFirst sep (cs ++ sep :: rest) = (cs, some rest) := by
  have hne : ∀ c ∈ cs, (c != sep) = true := fun c hc =>
    bne_iff_ne.mpr fun he => h (he ▸ hc)
  unfold splitAtFirst
  rw [List.dropWhile_append_of_pos hne, List.takeWhile_append_of_pos hne]
  simp

/-- A text is cut at its first separator, if it has one. -/
theorem splitAtFirst_cases (sep : Char) (cs : List Char) :
    (sep ∉ cs ∧ splitAtFirst sep cs = (cs, none))
      ∨ ∃ before after, sep ∉ before ∧ cs = before ++ sep :: after
          ∧ splitAtFirst sep cs = (before, some after) := by
  by_cases hsep : sep ∈ cs
  · obtain ⟨before, after, rfl, hbefore⟩ := List.eq_append_cons_of_mem hsep
    exact .inr ⟨before, after, hbefore, rfl, splitAtFirst_append hbefore after⟩
  · exact .inl ⟨hsep, splitAtFirst_none hsep⟩

/-- Two cuts of one list are at the same place, or one is before the other. -/
theorem cuts_of_append_cons {α : Type} {xs ys before behind : List α} {c d : α}
    (h : before ++ c :: xs = behind ++ d :: ys) :
    (before = behind ∧ c = d ∧ xs = ys) ∨ (∃ rest, behind = before ++ c :: rest)
      ∨ ∃ rest, before = behind ++ d :: rest := by
  rcases List.append_eq_append_iff.mp h with ⟨gap, hbehind, hgap⟩ | ⟨gap, hbefore, hgap⟩
  · cases gap with
    | nil =>
        obtain ⟨hcd, hxs⟩ := List.cons.inj hgap
        exact .inl ⟨by rw [hbehind, List.append_nil], hcd, hxs⟩
    | cons e rest =>
        obtain ⟨rfl, -⟩ := List.cons.inj hgap
        exact .inr (.inl ⟨rest, hbehind⟩)
  · cases gap with
    | nil =>
        obtain ⟨hdc, hys⟩ := List.cons.inj hgap
        exact .inl ⟨by rw [hbefore, List.append_nil], hdc.symm, hys.symm⟩
    | cons e rest =>
        obtain ⟨rfl, -⟩ := List.cons.inj hgap
        exact .inr (.inr ⟨rest, hbefore⟩)

theorem linesBy_cons_line {α : Type} {stop : α → Bool} {line : List α} {close : α}
    (hline : ∀ x ∈ line, stop x = false) (hclose : stop close = true) (rest : List α) :
    linesBy stop (line ++ close :: rest) = line :: linesBy stop rest := by
  induction line with
  | nil =>
      show linesBy.extend stop close (linesBy stop rest) = [] :: linesBy stop rest
      unfold linesBy.extend
      rw [if_pos hclose]
  | cons x line ih =>
      have hx : stop x = false := hline x List.mem_cons_self
      have ih := ih fun y hy => hline y (List.mem_cons_of_mem x hy)
      show linesBy.extend stop x (linesBy stop (line ++ close :: rest)) = _
      rw [ih]
      unfold linesBy.extend
      rw [if_neg (by rw [hx]; exact Bool.false_ne_true)]

section
variable {α : Type} {stop : α → Bool} {close : α}

/-- Lines that were each closed are cut off from what follows them. -/
theorem linesBy_closed (hclose : stop close = true) {lines : List (List α)}
    (h : ∀ line ∈ lines, ∀ x ∈ line, stop x = false) (rest : List α) :
    linesBy stop (lines.flatMap (· ++ [close]) ++ rest) = lines ++ linesBy stop rest := by
  induction lines with
  | nil => rfl
  | cons line lines ih =>
      have hline := linesBy_cons_line (h line List.mem_cons_self) hclose
        (lines.flatMap (· ++ [close]) ++ rest)
      rw [ih fun l hl => h l (List.mem_cons_of_mem line hl)] at hline
      rw [List.flatMap_cons, List.append_assoc, List.append_assoc]
      exact hline

/-- Lines that were each closed are cut where they were joined. -/
theorem linesBy_flatMap (hclose : stop close = true) {lines : List (List α)}
    (h : ∀ line ∈ lines, ∀ x ∈ line, stop x = false) :
    linesBy stop (lines.flatMap (· ++ [close])) = lines := by
  have hclosed := linesBy_closed hclose h []
  rw [List.append_nil] at hclosed
  rw [hclosed]
  exact List.append_nil lines

/-- A line that is not closed is one only if something is there. -/
theorem linesBy_open {last : List α} (h : ∀ x ∈ last, stop x = false) :
    linesBy stop last = if last.isEmpty then [] else [last] := by
  induction last with
  | nil => rfl
  | cons x last ih =>
      have hx : stop x = false := h x List.mem_cons_self
      show linesBy.extend stop x (linesBy stop last) = [x :: last]
      rw [ih fun y hy => h y (List.mem_cons_of_mem x hy)]
      unfold linesBy.extend
      rw [hx, if_neg Bool.false_ne_true]
      cases last <;> rfl

/-- **Everything is closed lines with an open one behind them.** -/
theorem exists_lines (hstop : ∀ x, stop x = true ↔ x = close) (xs : List α) :
    ∃ (lines : List (List α)) (last : List α), (∀ line ∈ lines, ∀ x ∈ line, stop x = false)
      ∧ (∀ x ∈ last, stop x = false) ∧ xs = lines.flatMap (· ++ [close]) ++ last := by
  induction xs with
  | nil => exact ⟨[], [], by simp, by simp, rfl⟩
  | cons x xs ih =>
      obtain ⟨lines, last, hlines, hlast, rfl⟩ := ih
      by_cases hx : stop x = true
      · obtain rfl := (hstop x).mp hx
        exact ⟨[] :: lines, last, List.forall_mem_cons.mpr ⟨by simp, hlines⟩, hlast, rfl⟩
      · have hx' := Bool.eq_false_iff.mpr hx
        -- `x` belongs to the first line there is
        cases lines with
        | nil => exact ⟨[], x :: last, by simp, List.forall_mem_cons.mpr ⟨hx', hlast⟩, rfl⟩
        | cons line lines =>
            obtain ⟨hline, hmore⟩ := List.forall_mem_cons.mp hlines
            exact ⟨(x :: line) :: lines, last,
              List.forall_mem_cons.mpr ⟨List.forall_mem_cons.mpr ⟨hx', hline⟩, hmore⟩, hlast, rfl⟩

/-- **Lines, each closed, are what they were cut from**, which may lack the last close. -/
theorem closed_linesBy (hstop : ∀ x, stop x = true ↔ x = close) (xs : List α) :
    xs = (linesBy stop xs).flatMap (· ++ [close])
      ∨ xs ++ [close] = (linesBy stop xs).flatMap (· ++ [close]) := by
  obtain ⟨lines, last, hlines, hlast, rfl⟩ := exists_lines hstop xs
  rw [linesBy_closed ((hstop close).mpr rfl) hlines, linesBy_open hlast]
  cases last with
  | nil => left; simp
  | cons x last => right; simp

/-- No line that was cut holds what closes one. -/
theorem not_stop_of_mem_linesBy (hstop : ∀ x, stop x = true ↔ x = close) {xs line : List α}
    (hline : line ∈ linesBy stop xs) : ∀ x ∈ line, stop x = false := by
  obtain ⟨lines, last, hlines, hlast, rfl⟩ := exists_lines hstop xs
  rw [linesBy_closed ((hstop close).mpr rfl) hlines, linesBy_open hlast, List.mem_append] at hline
  rcases hline with hline | hline
  · exact hlines line hline
  · cases last with
    | nil => cases hline
    | cons x last =>
        obtain rfl := List.mem_singleton.mp hline
        exact hlast

end

/-! ## §4. Numerals. -/

/-- Digits after a number never make it smaller. -/
theorem le_ofDigitChars (cs : List Char) (n : Nat) : n ≤ Nat.ofDigitChars 10 cs n := by
  induction cs generalizing n with
  | nil => exact Nat.le_refl n
  | cons c cs ih =>
      have hrest := ih (10 * n + (c.toNat - '0'.toNat))
      rw [Nat.ofDigitChars_cons]
      omega

theorem readUpToFrom_eq_some_iff {bound : Nat} {cs : List Char} {n v : Nat} (hn : n ≤ bound) :
    readUpToFrom bound n cs = some v ↔ Nat.ofDigitChars 10 cs n = v ∧ v ≤ bound := by
  induction cs generalizing n with
  | nil =>
      constructor
      · rintro ⟨⟩
        exact ⟨rfl, hn⟩
      · rintro ⟨rfl, -⟩
        rfl
  | cons c cs ih =>
      have hgrows := le_ofDigitChars cs (10 * n + (c.toNat - '0'.toNat))
      rw [Nat.ofDigitChars_cons]
      simp only [readUpToFrom]
      by_cases hle : 10 * n + (c.toNat - '0'.toNat) ≤ bound
      · rw [if_pos hle, ih hle]
      · -- the bound is passed already, and what follows cannot mend it
        rw [if_neg hle]
        constructor
        · intro h
          cases h
        · rintro ⟨rfl, hv⟩
          omega

/-- Digits are read as the number that they denote, if it does not exceed the bound. -/
theorem readUpTo_eq_some_iff {bound : Nat} {cs : List Char} {v : Nat} :
    readUpTo bound cs = some v ↔ Nat.ofDigitChars 10 cs 0 = v ∧ v ≤ bound :=
  readUpToFrom_eq_some_iff (Nat.zero_le bound)

/-- A number is written with its decimal digits, -/
theorem toList_toString (n : Nat) : (toString n).toList = Nat.toDigits 10 n := by
  rw [Nat.toString_eq_ofList_toDigits, String.toList_ofList]

/-- which denote it, -/
theorem ofDigitChars_toDigits (n : Nat) : Nat.ofDigitChars 10 (Nat.toDigits 10 n) 0 = n :=
  Nat.ofDigitChars_toDigits (by omega) (by omega)

/-- and from which it is read back. -/
theorem readUpTo_toDigits {bound n : Nat} (h : n ≤ bound) :
    readUpTo bound (Nat.toDigits 10 n) = some n :=
  readUpTo_eq_some_iff.mpr ⟨ofDigitChars_toDigits n, h⟩

/-- Numbers are told apart by their digits. -/
theorem eq_of_toDigits_eq {n k : Nat} (h : Nat.toDigits 10 n = Nat.toDigits 10 k) : n = k := by
  have hn := readUpTo_toDigits (Nat.le_max_left n k)
  have hk := readUpTo_toDigits (Nat.le_max_right n k)
  rw [h, hk] at hn
  exact (Option.some.inj hn).symm

theorem isDigit_of_mem_toDigits {c : Char} {n : Nat} (h : c ∈ Nat.toDigits 10 n) :
    c.isDigit = true := Nat.isDigit_of_mem_toDigits (by omega) (by omega) h

theorem not_mem_toDigits {c : Char} (h : c.isDigit = false) (n : Nat) : c ∉ Nat.toDigits 10 n := by
  intro hm
  rw [isDigit_of_mem_toDigits hm] at h
  cases h

theorem isNumeral_iff {cs : List Char} :
    isNumeral cs = true ↔ cs ≠ [] ∧ ∀ c ∈ cs, c.isDigit = true := by
  unfold isNumeral
  rw [Bool.and_eq_true, List.all_eq_true]
  cases cs with
  | nil => simp
  | cons c cs => simp

end Text

open Text

/-! ## §5. Source lines. -/

/-- Holds no `//`. -/
def Uncommented (cs : List Char) : Prop := ¬ ['/', '/'] <:+: cs

theorem uncommented_of_not_mem {cs : List Char} (h : '/' ∉ cs) : Uncommented cs :=
  fun hslashes => h (hslashes.subset List.mem_cons_self)

theorem uncommented_cons_iff {c : Char} {cs : List Char} :
    Uncommented (c :: cs) ↔ ¬ ['/', '/'] <+: c :: cs ∧ Uncommented cs := by
  unfold Uncommented
  rw [List.infix_cons_iff, not_or]

/-- One more character makes a `//` only as the second of two slashes. -/
theorem uncommented_concat_iff {c : Char} {cs : List Char} :
    Uncommented (cs ++ [c]) ↔ Uncommented cs ∧ ¬ (c = '/' ∧ cs.getLast? = some '/') := by
  unfold Uncommented
  rw [List.infix_concat_iff, not_or, and_comm]
  have hlast : ['/', '/'] <:+ cs ++ [c] ↔ c = '/' ∧ cs.getLast? = some '/' := by
    rw [List.suffix_concat_iff]
    constructor
    · rintro (h | ⟨front, hfront, before, rfl⟩)
      · cases h
      · obtain ⟨rfl, rfl⟩ : front = ['/'] ∧ c = '/' := by
          have hsplit := List.append_inj' (hfront.symm.trans (List.singleton_append ..).symm) rfl
          exact ⟨hsplit.1, (List.cons.inj hsplit.2).1⟩
        simp
    · rintro ⟨rfl, h⟩
      obtain ⟨before, rfl⟩ := List.getLast?_eq_some_iff.mp h
      exact .inr ⟨['/'], rfl, before, rfl⟩
  rw [hlast]

/-- What has no slash makes no `//` with what stands before it. -/
theorem uncommented_append {cs behind : List Char} (h : Uncommented cs) (hbehind : '/' ∉ behind) :
    Uncommented (cs ++ behind) := by
  induction behind generalizing cs with
  | nil => rwa [List.append_nil]
  | cons c behind ih =>
      have hc : c ≠ '/' := fun he => hbehind (he ▸ List.mem_cons_self)
      rw [← List.singleton_append, ← List.append_assoc]
      exact ih (uncommented_concat_iff.mpr ⟨h, fun hslash => hc hslash.1⟩)
        fun hmem => hbehind (List.mem_cons_of_mem c hmem)

theorem beforeComment_cons {c : Char} {cs : List Char} (h : ¬ ['/', '/'] <+: c :: cs) :
    beforeComment (c :: cs) = c :: beforeComment cs := by
  have hgo : ∀ code cs, beforeComment.go code cs = code.reverse ++ beforeComment cs := by
    intro code cs
    induction cs generalizing code with
    | nil => simp [beforeComment, beforeComment.go]
    | cons c cs ih =>
        unfold beforeComment
        by_cases hslashes : ['/', '/'] <+: c :: cs
        · obtain ⟨rest, hrest⟩ := hslashes
          cases hrest
          simp [beforeComment.go]
        · have hfirst : ∀ rest, c = '/' → cs = '/' :: rest → False := by
            rintro rest rfl rfl
            exact hslashes ⟨rest, rfl⟩
          rw [beforeComment.go, beforeComment.go, ih, ih [c]]
          · simp
          · exact hfirst
          · exact hfirst
  unfold beforeComment
  rw [beforeComment.go, hgo]
  · rfl
  · rintro rest rfl rfl
    exact h ⟨rest, rfl⟩

/-- Where there is no comment, all is code. -/
theorem beforeComment_eq_self {cs : List Char} (h : Uncommented cs) : beforeComment cs = cs := by
  induction cs with
  | nil => rfl
  | cons c cs ih =>
      obtain ⟨hfirst, hrest⟩ := uncommented_cons_iff.mp h
      rw [beforeComment_cons hfirst, ih hrest]

/-- The first `//` ends the code. -/
theorem beforeComment_append {code : List Char} (h : Uncommented (code ++ ['/']))
    (comment : List Char) : beforeComment (code ++ '/' :: '/' :: comment) = code := by
  induction code with
  | nil => rfl
  | cons c code ih =>
      rw [List.cons_append, uncommented_cons_iff] at h
      have hfirst : ¬ ['/', '/'] <+: c :: (code ++ '/' :: '/' :: comment) := by
        intro hslashes
        -- two slashes at the start would be there in `code` and the first slash of the comment
        apply h.1
        cases code with
        | nil =>
            obtain ⟨rest, hrest⟩ := hslashes
            cases hrest
            exact List.prefix_refl _
        | cons d code =>
            obtain ⟨rest, hrest⟩ := hslashes
            cases hrest
            exact ⟨_, rfl⟩
      rw [List.cons_append, beforeComment_cons hfirst, ih h.2]

/-- A line is all code, or its first `//` ends its code. -/
theorem beforeComment_cases (cs : List Char) :
    Uncommented cs ∨ ∃ code comment, cs = code ++ '/' :: '/' :: comment
      ∧ Uncommented (code ++ ['/']) := by
  induction cs with
  | nil => exact .inl (uncommented_of_not_mem (by simp))
  | cons c cs ih =>
      by_cases hslashes : ['/', '/'] <+: c :: cs
      · obtain ⟨comment, hcomment⟩ := hslashes
        refine .inr ⟨[], comment, hcomment.symm, ?_⟩
        unfold Uncommented
        decide
      · rcases ih with hrest | ⟨code, comment, rfl, hcode⟩
        · exact .inl (uncommented_cons_iff.mpr ⟨hslashes, hrest⟩)
        · refine .inr ⟨c :: code, comment, rfl, uncommented_cons_iff.mpr ⟨fun hfirst => ?_, hcode⟩⟩
          apply hslashes
          refine hfirst.trans ⟨'/' :: comment, ?_⟩
          simp

/-- There is no `//` in the code. -/
theorem uncommented_beforeComment (cs : List Char) : Uncommented (beforeComment cs) := by
  rcases beforeComment_cases cs with h | ⟨code, comment, rfl, h⟩
  · rwa [beforeComment_eq_self h]
  · rw [beforeComment_append h]
    exact (uncommented_concat_iff.mp h).1

theorem slash_not_mem_blanks {cs : List Char} (h : ∀ c ∈ cs, isBlank c = true) : '/' ∉ cs :=
  fun hmem => absurd (h _ hmem) (by decide)

/-- Blanks around a line are blanks around its code, unless they are part of its comment. -/
theorem padded_beforeComment {cs padded : List Char} (h : Padded cs padded) :
    Padded (beforeComment cs) (beforeComment padded) := by
  obtain ⟨before, behind, hbefore, hbehind, rfl⟩ := h
  have hfront : ∀ rest, beforeComment (before ++ rest) = before ++ beforeComment rest := by
    intro rest
    have hslash := slash_not_mem_blanks hbefore
    clear hbefore
    induction before with
    | nil => rfl
    | cons c before ih =>
        have hc : c ≠ '/' := fun he => hslash (he ▸ List.mem_cons_self)
        rw [List.cons_append, beforeComment_cons, ih fun hm => hslash (List.mem_cons_of_mem c hm)]
        · rfl
        · rintro ⟨_, hfirst⟩
          exact hc (List.cons.inj hfirst).1.symm
  rw [List.append_assoc, hfront]
  rcases beforeComment_cases cs with hcode | ⟨code, comment, rfl, hcode⟩
  · have hall := uncommented_append hcode (slash_not_mem_blanks hbehind)
    rw [beforeComment_eq_self hcode, beforeComment_eq_self hall]
    exact ⟨before, behind, hbefore, hbehind, (List.append_assoc ..).symm⟩
  · -- what stands behind is in the comment
    rw [List.append_assoc, List.cons_append, List.cons_append, beforeComment_append hcode,
      beforeComment_append hcode]
    exact ⟨before, [], hbefore, by simp, by simp⟩

/-- Lines with the same code between blanks are cleaned alike. -/
theorem cleanLine_congr {raw raw' : String}
    (h : trim (beforeComment raw.toList) = trim (beforeComment raw'.toList)) :
    cleanLine raw = cleanLine raw' := by
  unfold cleanLine
  rw [h]

/-- Blanks around a line make no difference. -/
theorem cleanLine_of_padded {raw raw' : String} (h : Padded raw.toList raw'.toList) :
    cleanLine raw' = cleanLine raw := cleanLine_congr (trim_padded (padded_beforeComment h))

theorem cleanLine_eq_some_iff {raw code : String} :
    cleanLine raw = some code ↔ code.toList ≠ [] ∧ trim (beforeComment raw.toList) = code.toList := by
  unfold cleanLine
  cases h : trim (beforeComment raw.toList) with
  | nil =>
      constructor
      · intro hnone
        cases hnone
      · rintro ⟨hne, hnil⟩
        exact absurd hnil.symm hne
  | cons c cs =>
      show some (String.ofList (c :: cs)) = some code ↔ _
      constructor
      · intro hcode
        cases hcode
        rw [String.toList_ofList]
        exact ⟨List.cons_ne_nil c cs, rfl⟩
      · rintro ⟨-, hcode⟩
        rw [hcode, String.ofList_toList]

/-- What a line is cleaned to: some code, without a comment and without blanks around it. -/
structure IsCode (line : String) : Prop where
  /-- There is some code. -/
  nonempty : line.toList ≠ []
  /-- There is no comment. -/
  uncommented : Uncommented line.toList
  /-- There are no blanks around it. -/
  trimmed : Trimmed line.toList

/-- A line that is clean is left as it is. -/
theorem IsCode.cleanLine_eq {line : String} (h : IsCode line) : cleanLine line = some line := by
  rw [cleanLine_eq_some_iff, beforeComment_eq_self h.uncommented, trim_eq_self h.trimmed]
  exact ⟨h.nonempty, rfl⟩

/-- A line of plain characters is all code. -/
theorem cleanLine_of_plain {line : String} (hne : line.toList ≠ [])
    (h : ∀ c ∈ line.toList, isPlain c = true) : cleanLine line = some line :=
  IsCode.cleanLine_eq
    { nonempty := hne
      uncommented := uncommented_of_not_mem fun hm => ne_slash_of_isPlain (h _ hm) rfl
      trimmed := trimmed_of_blank_free fun c hc => isBlank_of_isPlain (h c hc) }

/-- A line that starts with a comment has no code. -/
theorem cleanLine_comment (text : String) : cleanLine ("// " ++ text) = none := by
  unfold cleanLine
  rw [String.toList_append]
  rfl

/-! ## §6. Raw lines and their numbers. -/

/-- The raw lines of a text. -/
def rawLines (text : String) : List String :=
  (linesBy (· == '\n') text.toList).map String.ofList

/-- Lines without newlines are cut where they were closed. -/
theorem rawLines_join {lines : List String} (h : ∀ line ∈ lines, '\n' ∉ line.toList) :
    rawLines (String.join (lines.map (· ++ "\n"))) = lines := by
  have htext : (String.join (lines.map (· ++ "\n"))).toList
      = (lines.map String.toList).flatMap (· ++ ['\n']) := by
    rw [String.toList_join, List.flatMap_map, List.flatMap_map]
    congr 1
    funext line
    exact String.toList_append
  -- lines are cut at newlines, and none of them holds one
  have hclosed : ∀ line ∈ lines.map String.toList, ∀ c ∈ line, (c == '\n') = false := by
    intro line hline c hc
    obtain ⟨s, hs, rfl⟩ := List.mem_map.mp hline
    rw [beq_eq_false_iff_ne]
    rintro rfl
    exact h s hs hc
  unfold rawLines
  rw [htext, linesBy_flatMap (by decide) hclosed, List.map_map]
  exact (List.map_congr_left fun s _ => String.ofList_toList).trans (List.map_id _)

namespace SourceLine

/-- The code lines of raw lines that stand behind `n` others. -/
def ofRawLinesFrom (n : Nat) (raws : List String) : List SourceLine :=
  (raws.zipIdx n).filterMap fun raw => (cleanLine raw.1).map fun code => ⟨raw.2 + 1, code⟩

theorem ofText_eq (text : String) : ofText text = ofRawLinesFrom 0 (rawLines text) := rfl

section
variable {raw : String} (n : Nat) (raws : List String)

theorem ofRawLinesFrom_none (h : cleanLine raw = none) :
    ofRawLinesFrom n (raw :: raws) = ofRawLinesFrom (n + 1) raws := by
  unfold ofRawLinesFrom
  rw [List.zipIdx_cons, List.filterMap_cons_none (by simp [h])]

theorem ofRawLinesFrom_some {code : String} (h : cleanLine raw = some code) :
    ofRawLinesFrom n (raw :: raws) = ⟨n + 1, code⟩ :: ofRawLinesFrom (n + 1) raws := by
  unfold ofRawLinesFrom
  rw [List.zipIdx_cons, List.filterMap_cons_some (b := ⟨n + 1, code⟩) (by simp [h])]

end

/-- The texts of the lines of code do not depend on their numbers. -/
theorem map_text_ofRawLinesFrom (n : Nat) (raws : List String) :
    (ofRawLinesFrom n raws).map (·.text) = raws.filterMap cleanLine := by
  induction raws generalizing n with
  | nil => rfl
  | cons raw raws ih =>
      cases hclean : cleanLine raw with
      | none => rw [ofRawLinesFrom_none n raws hclean, List.filterMap_cons_none hclean, ih]
      | some code =>
          rw [ofRawLinesFrom_some n raws hclean, List.filterMap_cons_some hclean, List.map_cons, ih]

theorem ofRawLinesFrom_append (n : Nat) (raws more : List String) :
    ofRawLinesFrom n (raws ++ more)
      = ofRawLinesFrom n raws ++ ofRawLinesFrom (n + raws.length) more := by
  unfold ofRawLinesFrom
  rw [List.zipIdx_append, List.filterMap_append]

/-- A line of code is numbered by where it stands; the lines of code up to it are those of
the raw lines up to there. -/
theorem exists_raw {raws : List String} {n k : Nat} {line : SourceLine}
    (h : (ofRawLinesFrom n raws)[k]? = some line) :
    ∃ i raw, line.number = n + i + 1 ∧ raws[i]? = some raw ∧ cleanLine raw = some line.text
      ∧ (ofRawLinesFrom n raws).take (k + 1) = ofRawLinesFrom n (raws.take (i + 1)) := by
  induction raws generalizing n k with
  | nil => simp [ofRawLinesFrom] at h
  | cons raw raws ih =>
      cases hclean : cleanLine raw with
      | none =>
          rw [ofRawLinesFrom_none n raws hclean] at h ⊢
          obtain ⟨i, raw', hnumber, hraw, hcode, htake⟩ := ih h
          refine ⟨i + 1, raw', by omega, hraw, hcode, ?_⟩
          rw [htake, List.take_succ_cons, ofRawLinesFrom_none n _ hclean]
      | some code =>
          rw [ofRawLinesFrom_some n raws hclean] at h ⊢
          cases k with
          | zero =>
              cases h
              refine ⟨0, raw, rfl, rfl, hclean, ?_⟩
              rw [List.take_succ_cons, List.take_succ_cons, ofRawLinesFrom_some n _ hclean]
              rfl
          | succ k =>
              obtain ⟨i, raw', hnumber, hraw, hcode, htake⟩ := ih h
              refine ⟨i + 1, raw', by omega, hraw, hcode, ?_⟩
              rw [List.take_succ_cons, htake, List.take_succ_cons,
                ofRawLinesFrom_some n _ hclean]

/-- Texts with the same raw lines up to a line of code have the same lines of code up to it. -/
theorem ofText_of_take_eq {text text' : String} {k : Nat} {line : SourceLine}
    (h : (ofText text)[k]? = some line)
    (hsame : (rawLines text').take line.number = (rawLines text).take line.number) :
    ∃ more, ofText text' = (ofText text).take (k + 1) ++ more := by
  rw [ofText_eq] at h
  obtain ⟨i, -, hnumber, -, -, htake⟩ := exists_raw h
  rw [Nat.zero_add] at hnumber
  refine ⟨ofRawLinesFrom (0 + ((rawLines text').take (i + 1)).length)
    ((rawLines text').drop (i + 1)), ?_⟩
  rw [ofText_eq, ofText_eq, htake, ← hnumber, ← hsame, ← ofRawLinesFrom_append,
    List.take_append_drop]

end SourceLine

end HackPlatform
