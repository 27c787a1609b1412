/-
  HackPlatform.Proofs.Source.Cleaning
  ────────────────────────────────
  **CLEANING IS A NORMAL FORM: what is left of a text, and what may be added to it.**

  The lines of code of a text carry no comment and no blanks around them, so written
  out again, one below the other, they are the lines of code of what was written.  And
  whatever cleaning takes away may be put in: lines that are blank or hold a comment
  only, blanks around a line, a comment behind its code.

      codeOf (xs ++ "\n" ++ ys)  =  codeOf xs ++ codeOf ys

  carries all of it.  A newline parts the code of a text wherever it stands, so an
  addition within one line, or of one line, is judged by that line alone.

      codeOf       the texts of the lines of code of a text
      Added        a line with something added to it
      Inserted     a text with something inserted in it, in one place
      NormalForm   the laws of cleaning

  Main results:
    * `isCode_of_cleanLine`, what is left of a line;
    * `codeOf_append`, a newline parts the code;
    * `Added.cleanLine_eq`, `Inserted.codeOf_eq`, what an addition leaves as it is;
    * `cleaning_normal`, the laws of cleaning.
-/
import Mathlib.Logic.Relation
import HackPlatform.Proofs.Text

namespace HackPlatform

open Text

/-! ## §1. What is left of a line. -/

section
variable {raw code : String} (h : cleanLine raw = some code)
include h

/-- The code of a line is a part of what stands before its comment. -/
theorem infix_of_cleanLine : code.toList <:+: beforeComment raw.toList := by
  obtain ⟨before, behind, -, -, hpadded⟩ := padded_trim (beforeComment raw.toList)
  rw [(cleanLine_eq_some_iff.mp h).2] at hpadded
  exact ⟨before, behind, hpadded.symm⟩

/-- **What is left of a line is code.** -/
theorem isCode_of_cleanLine : IsCode code where
  nonempty := (cleanLine_eq_some_iff.mp h).1
  uncommented := fun hslashes =>
    uncommented_beforeComment raw.toList (hslashes.trans (infix_of_cleanLine h))
  trimmed := (cleanLine_eq_some_iff.mp h).2 ▸ trimmed_trim _

/-- What is not in a line is not in its code. -/
theorem not_mem_of_cleanLine {c : Char} (hc : c ∉ raw.toList) : c ∉ code.toList := by
  intro hcode
  have hbefore := (infix_of_cleanLine h).subset hcode
  apply hc
  rcases beforeComment_cases raw.toList with hall | ⟨front, comment, hraw, hfront⟩
  · rwa [beforeComment_eq_self hall] at hbefore
  · rw [hraw, beforeComment_append hfront] at hbefore
    rw [hraw]
    exact List.mem_append_left _ hbefore

end

/-! ## §2. The lines of code of a text. -/

theorem newline_not_mem_rawLines {text raw : String} (h : raw ∈ rawLines text) :
    '\n' ∉ raw.toList := by
  obtain ⟨line, hline, rfl⟩ := List.mem_map.mp h
  rw [String.toList_ofList]
  intro hnewline
  have hne := not_stop_of_mem_linesBy (fun c => beq_iff_eq (a := c)) hline '\n' hnewline
  cases hne

namespace SourceLine

/-- The texts of the lines of code of a text. -/
def codeOf (text : String) : List String := (ofText text).map (·.text)

theorem codeOf_eq (text : String) : codeOf text = (rawLines text).filterMap cleanLine :=
  map_text_ofRawLinesFrom 0 (rawLines text)

/-- A line of code is what is left of a raw line. -/
theorem exists_of_mem_codeOf {text code : String} (h : code ∈ codeOf text) :
    ∃ raw ∈ rawLines text, cleanLine raw = some code := by
  rwa [codeOf_eq, List.mem_filterMap] at h

theorem isCode_of_mem_codeOf {text code : String} (h : code ∈ codeOf text) : IsCode code := by
  obtain ⟨raw, -, hclean⟩ := exists_of_mem_codeOf h
  exact isCode_of_cleanLine hclean

theorem newline_not_mem_codeOf {text code : String} (h : code ∈ codeOf text) :
    '\n' ∉ code.toList := by
  obtain ⟨raw, hraw, hclean⟩ := exists_of_mem_codeOf h
  exact not_mem_of_cleanLine hclean (newline_not_mem_rawLines hraw)

/-- **Numbers go up.**  They are also above the number of the lines that stand before. -/
theorem numbers_ofRawLinesFrom (n : Nat) (raws : List String) :
    (∀ line ∈ ofRawLinesFrom n raws, n < line.number)
      ∧ (ofRawLinesFrom n raws).Pairwise fun a b => a.number < b.number := by
  induction raws generalizing n with
  | nil => exact ⟨List.forall_mem_nil _, .nil⟩
  | cons raw raws ih =>
      obtain ⟨habove, hup⟩ := ih (n + 1)
      cases hclean : cleanLine raw with
      | none =>
          rw [ofRawLinesFrom_none n raws hclean]
          exact ⟨fun line hline => Nat.lt_of_succ_lt (habove line hline), hup⟩
      | some code =>
          rw [ofRawLinesFrom_some n raws hclean]
          refine ⟨List.forall_mem_cons.mpr ⟨Nat.lt_succ_self n, fun line hline => ?_⟩,
            List.pairwise_cons.mpr ⟨habove, hup⟩⟩
          exact Nat.lt_of_succ_lt (habove line hline)

/-! ## §3. Code written out again. -/

/-- Texts as lines, `n` of which stand before the first. -/
def numberedFrom (n : Nat) (texts : List String) : List SourceLine :=
  (texts.zipIdx n).map fun text => ⟨text.2 + 1, text.1⟩

/-- Raw lines that are all code are the lines of code, and none is skipped. -/
theorem ofRawLinesFrom_of_isCode {raws : List String} (h : ∀ raw ∈ raws, IsCode raw) (n : Nat) :
    ofRawLinesFrom n raws = numberedFrom n raws := by
  induction raws generalizing n with
  | nil => rfl
  | cons raw raws ih =>
      have hclean := (h raw List.mem_cons_self).cleanLine_eq
      rw [ofRawLinesFrom_some n raws hclean, ih fun r hr => h r (List.mem_cons_of_mem raw hr)]
      rfl

/-- Lines that are not empty are cut where newlines were put between them. -/
theorem rawLines_intercalate {lines : List String} (hne : ∀ line ∈ lines, line.toList ≠ [])
    (h : ∀ line ∈ lines, '\n' ∉ line.toList) : rawLines ("\n".intercalate lines) = lines := by
  have hopen : ∀ line ∈ lines, ∀ c ∈ line.toList, (c == '\n') = false := fun line hline c hc =>
    beq_eq_false_iff_ne.mpr fun he => h line hline (he ▸ hc)
  clear h
  induction lines with
  | nil => rfl
  | cons line lines ih =>
      have hline := hopen line List.mem_cons_self
      cases lines with
      | nil =>
          unfold rawLines
          rw [String.intercalate_singleton, linesBy_open hline, if_neg]
          · rw [List.map_singleton, String.ofList_toList]
          · simpa using hne line List.mem_cons_self
      | cons next lines =>
          have htext : ("\n".intercalate (line :: next :: lines)).toList
              = line.toList ++ '\n' :: ("\n".intercalate (next :: lines)).toList := by
            rw [String.intercalate_cons_cons, String.toList_append, String.toList_append,
              List.append_assoc]
            rfl
          have ih := ih (fun l hl => hne l (List.mem_cons_of_mem line hl))
            fun l hl => hopen l (List.mem_cons_of_mem line hl)
          unfold rawLines at ih ⊢
          rw [htext, linesBy_cons_line hline (by decide), List.map_cons, ih, String.ofList_toList]

/-- **Written out again, the code is read as it is, numbered from 1.** -/
theorem ofText_intercalate_codeOf (text : String) :
    ofText ("\n".intercalate (codeOf text)) = numberedFrom 0 (codeOf text) := by
  rw [ofText_eq, rawLines_intercalate (fun code hcode => (isCode_of_mem_codeOf hcode).nonempty)
    fun code hcode => newline_not_mem_codeOf hcode]
  exact ofRawLinesFrom_of_isCode (fun code hcode => isCode_of_mem_codeOf hcode) 0

/-! ## §4. Newlines part the code. -/

/-- The code of a single line. -/
theorem codeOf_line {line : String} (h : '\n' ∉ line.toList) :
    codeOf line = (cleanLine line).toList := by
  have hopen : ∀ c ∈ line.toList, (c == '\n') = false := fun c hc =>
    beq_eq_false_iff_ne.mpr fun he => h (he ▸ hc)
  rw [codeOf_eq]
  unfold rawLines
  rw [linesBy_open hopen]
  by_cases hempty : line.toList.isEmpty = true
  · -- there is no line at all, and no code in an empty one
    obtain rfl := String.toList_eq_nil_iff.mp (List.isEmpty_iff.mp hempty)
    rfl
  · rw [if_neg hempty, List.map_singleton, String.ofList_toList]
    cases hclean : cleanLine line with
    | none => rw [List.filterMap_cons_none hclean]; rfl
    | some code => rw [List.filterMap_cons_some hclean]; rfl

/-- **A newline parts the code of a text.** -/
theorem codeOf_append (xs ys : String) : codeOf (xs ++ "\n" ++ ys) = codeOf xs ++ codeOf ys := by
  obtain ⟨lines, last, hlines, hlast, hxs⟩ :=
    exists_lines (fun c => beq_iff_eq (a := c) (b := '\n')) xs.toList
  have hcut : ∀ rest, linesBy (· == '\n') (lines.flatMap (· ++ ['\n']) ++ rest) = lines ++ _ :=
    linesBy_closed (by decide) hlines
  have htext : (xs ++ "\n" ++ ys).toList
      = lines.flatMap (· ++ ['\n']) ++ (last ++ '\n' :: ys.toList) := by
    rw [String.toList_append, String.toList_append, hxs, List.append_assoc, List.append_assoc]
    rfl
  -- what is not closed in `xs` alone is one line there, if it is anything
  have hlastCode : (linesBy (· == '\n') last).filterMap (cleanLine ∘ String.ofList)
      = [last].filterMap (cleanLine ∘ String.ofList) := by
    rw [linesBy_open hlast]
    cases last <;> rfl
  rw [codeOf_eq, codeOf_eq, codeOf_eq]
  unfold rawLines
  rw [htext, hxs, hcut, hcut, linesBy_cons_line hlast (by decide), List.filterMap_map,
    List.filterMap_map, List.filterMap_map, List.filterMap_append, List.filterMap_append, hlastCode,
    ← List.singleton_append, List.filterMap_append, List.append_assoc]

end SourceLine

open SourceLine

/-! ## §5. Additions. -/

/-- Nothing but blanks. -/
def Blanks (s : String) : Prop := ∀ c ∈ s.toList, isBlank c = true

/-- A line with something added to it. -/
inductive Added : String → String → Prop where
  /-- Blanks at either end, also in the midst of blanks that stand there. -/
  | blanks {left right blanks : String} (blank : Blanks blanks) (aside : Blanks left ∨ Blanks right) :
      Added (left ++ right) (left ++ blanks ++ right)
  /-- A comment behind the code, which may have blanks behind it.  There must be no comment yet,
  and the code must not end with a slash. -/
  | comment {code margin : String} (comment : String) (uncommented : Uncommented code.toList)
      (unslashed : code.toList.getLast? ≠ some '/') (aside : Blanks margin) :
      Added (code ++ margin) (code ++ "//" ++ comment ++ margin)
  /-- Blanks between the code and its comment, also in front of blanks that stand there.  Again the
  code must not end with a slash, or more of it would stand before the first `//`. -/
  | between {code blanks margin : String} (comment : String) (uncommented : Uncommented code.toList)
      (unslashed : code.toList.getLast? ≠ some '/') (blank : Blanks blanks) (aside : Blanks margin) :
      Added (code ++ margin ++ "//" ++ comment) (code ++ (blanks ++ margin) ++ "//" ++ comment)

/-- A line without code: nothing but blanks, or a comment behind blanks. -/
inductive Codeless : String → Prop where
  /-- A blank line, or an empty one. -/
  | blanks {line : String} (blank : Blanks line) : Codeless line
  /-- A comment. -/
  | comment {margin : String} (comment : String) (aside : Blanks margin) :
      Codeless (margin ++ "//" ++ comment)

/-- A line starts here: nothing stands before it, or a newline. -/
def StartsLine (before : String) : Prop := before = "" ∨ ∃ front, before = front ++ "\n"

/-- A line ends here: nothing stands behind it, or a newline. -/
def EndsLine (behind : String) : Prop := behind = "" ∨ ∃ rest, behind = "\n" ++ rest

/-- A text with something inserted in it, in one place.  What is inserted within a line holds no
newline. -/
inductive Inserted : String → String → Prop where
  /-- Something is added to a line. -/
  | within {before line line' behind : String} (starts : StartsLine before) (ends : EndsLine behind)
      (single : '\n' ∉ line.toList) (single' : '\n' ∉ line'.toList) (added : Added line line') :
      Inserted (before ++ line ++ behind) (before ++ line' ++ behind)
  /-- A line without code is put in where a line starts. -/
  | above {before line behind : String} (starts : StartsLine before) (single : '\n' ∉ line.toList)
      (codeless : Codeless line) : Inserted (before ++ behind) (before ++ (line ++ "\n") ++ behind)
  /-- A line without code is put in where a line ends. -/
  | below {before line behind : String} (ends : EndsLine behind) (single : '\n' ∉ line.toList)
      (codeless : Codeless line) : Inserted (before ++ behind) (before ++ ("\n" ++ line) ++ behind)

/-! ## §6. What additions leave as it is. -/

theorem blanks_append {xs ys : String} (hxs : Blanks xs) (hys : Blanks ys) : Blanks (xs ++ ys) := by
  unfold Blanks
  rw [String.toList_append]
  intro c hc
  exact (List.mem_append.mp hc).elim (hxs c) (hys c)

/-- Blanks in front of a line make no difference, -/
theorem cleanLine_blanks_append {blanks : String} (h : Blanks blanks) (line : String) :
    cleanLine (blanks ++ line) = cleanLine line := by
  apply cleanLine_of_padded
  rw [String.toList_append]
  exact ⟨blanks.toList, [], h, by simp, by simp⟩

/-- nor do blanks behind it. -/
theorem cleanLine_append_blanks {blanks : String} (h : Blanks blanks) (line : String) :
    cleanLine (line ++ blanks) = cleanLine line := by
  apply cleanLine_of_padded
  rw [String.toList_append]
  exact ⟨[], blanks.toList, by simp, h, by simp⟩

section
variable {code : String} (h : Uncommented code.toList) (hlast : code.toList.getLast? ≠ some '/')
  (comment : String)
include h hlast

/-- A comment behind code makes no difference, -/
theorem cleanLine_append_comment : cleanLine (code ++ "//" ++ comment) = cleanLine code := by
  have hcode : Uncommented (code.toList ++ ['/']) :=
    uncommented_concat_iff.mpr ⟨h, fun hslash => hlast hslash.2⟩
  apply cleanLine_congr
  rw [String.toList_append, String.toList_append, List.append_assoc]
  show trim (beforeComment (code.toList ++ '/' :: '/' :: comment.toList)) = _
  rw [beforeComment_append hcode, beforeComment_eq_self h]

/-- and a margin between them makes none. -/
theorem cleanLine_margin_comment {margin : String} (hmargin : Blanks margin) :
    cleanLine (code ++ margin ++ "//" ++ comment) = cleanLine code := by
  have hslash : '/' ∉ margin.toList := slash_not_mem_blanks hmargin
  have hwider : Uncommented (code ++ margin).toList := by
    rw [String.toList_append]
    exact uncommented_append h hslash
  have hwiderLast : (code ++ margin).toList.getLast? ≠ some '/' := by
    rw [String.toList_append, List.getLast?_append]
    cases hl : margin.toList.getLast? with
    | none => exact hlast
    | some c =>
        rintro ⟨⟩
        exact hslash (List.mem_of_mem_getLast? hl)
  rw [cleanLine_append_comment hwider hwiderLast, cleanLine_append_blanks hmargin]

end

/-- **What is added to a line leaves its code as it is.** -/
theorem Added.cleanLine_eq {line line' : String} (h : Added line line') :
    cleanLine line' = cleanLine line := by
  cases h with
  | blanks blank aside =>
      rcases aside with hleft | hright
      · rw [cleanLine_blanks_append (blanks_append hleft blank), cleanLine_blanks_append hleft]
      · rw [String.append_assoc, cleanLine_append_blanks (blanks_append blank hright),
          cleanLine_append_blanks hright]
  | comment comment uncommented unslashed aside =>
      rw [cleanLine_append_blanks aside, cleanLine_append_blanks aside,
        cleanLine_append_comment uncommented unslashed]
  | between comment uncommented unslashed blank aside =>
      rw [cleanLine_margin_comment uncommented unslashed comment (blanks_append blank aside),
        cleanLine_margin_comment uncommented unslashed comment aside]

theorem Codeless.cleanLine_eq {line : String} (h : Codeless line) : cleanLine line = none := by
  cases h with
  | blanks blank =>
      have hblank := cleanLine_append_blanks blank ""
      rwa [String.empty_append] at hblank
  | comment comment aside =>
      rw [String.append_assoc, cleanLine_blanks_append aside]
      unfold cleanLine
      rw [String.toList_append]
      rfl

/-- Where a line starts the code of a text is parted, -/
theorem StartsLine.codeOf_append {before : String} (h : StartsLine before) (rest : String) :
    codeOf (before ++ rest) = codeOf before ++ codeOf rest := by
  rcases h with rfl | ⟨front, rfl⟩
  · rw [String.empty_append]
    rfl
  · have hnone := SourceLine.codeOf_append front ""
    rw [String.append_empty] at hnone
    rw [SourceLine.codeOf_append, hnone, List.append_assoc]
    rfl

/-- and where a line ends. -/
theorem EndsLine.codeOf_append {behind : String} (h : EndsLine behind) (front : String) :
    codeOf (front ++ behind) = codeOf front ++ codeOf behind := by
  rcases h with rfl | ⟨rest, rfl⟩
  · rw [String.append_empty]
    exact (List.append_nil _).symm
  · have hnone := SourceLine.codeOf_append "" rest
    rw [String.empty_append] at hnone
    rw [← String.append_assoc, SourceLine.codeOf_append, hnone]
    rfl

/-- **What is inserted in a text leaves its code as it is.** -/
theorem Inserted.codeOf_eq {text text' : String} (h : Inserted text text') :
    codeOf text' = codeOf text := by
  cases h with
  | @within before line line' behind starts ends single single' added =>
      rw [ends.codeOf_append, ends.codeOf_append, starts.codeOf_append, starts.codeOf_append,
        codeOf_line single, codeOf_line single', added.cleanLine_eq]
  | @above before line behind starts single codeless =>
      have hline : codeOf line = [] := by rw [codeOf_line single, codeless.cleanLine_eq]; rfl
      rw [← String.append_assoc, SourceLine.codeOf_append, starts.codeOf_append,
        starts.codeOf_append, hline, List.append_nil]
  | @below before line behind ends single codeless =>
      have hline : codeOf line = [] := by rw [codeOf_line single, codeless.cleanLine_eq]; rfl
      rw [ends.codeOf_append, ends.codeOf_append, ← String.append_assoc,
        SourceLine.codeOf_append, hline, List.append_nil]

/-! ## §7. The laws of cleaning. -/

/-- The laws of cleaning, of one text. -/
structure NormalForm (text : String) : Prop where
  /-- A line of code is not empty, holds no comment and no newline, has no blank at either end,
  and cleaning leaves it as it is. -/
  lines : ∀ line ∈ ofText text, IsCode line.text ∧ '\n' ∉ line.text.toList
    ∧ cleanLine line.text = some line.text
  /-- The numbers go up. -/
  numbers : (ofText text).Pairwise fun a b => a.number < b.number
  /-- Written out with newlines between them, the lines of code are read again, numbered from 1. -/
  again : ofText ("\n".intercalate (codeOf text)) = numberedFrom 0 (codeOf text)
  /-- A text whose lines are all code is read as it stands. -/
  whole : (∀ raw ∈ rawLines text, IsCode raw) → ofText text = numberedFrom 0 (rawLines text)
  /-- The code stays the same whatever is inserted, in any number of places. -/
  kept : ∀ text', Relation.ReflTransGen Inserted text text' → codeOf text' = codeOf text

/-- **Cleaning is a normal form.** -/
theorem cleaning_normal (text : String) : NormalForm text where
  lines line hline := by
    have hcode : line.text ∈ codeOf text := List.mem_map_of_mem hline
    exact ⟨isCode_of_mem_codeOf hcode, newline_not_mem_codeOf hcode,
      (isCode_of_mem_codeOf hcode).cleanLine_eq⟩
  numbers := (numbers_ofRawLinesFrom 0 (rawLines text)).2
  again := ofText_intercalate_codeOf text
  whole h := ofRawLinesFrom_of_isCode h 0
  kept text' h := by
    induction h with
    | refl => rfl
    | tail _ hinserted ih => rw [hinserted.codeOf_eq, ih]

/-- A comment is put behind code that ends with a slash and a blank, then a blank line above it. -/
theorem cleaning_normal_commented :
    codeOf "@1\n\t\r\nD=A/ // load/" = ["@1", "D=A/"]
    ∧ ofText "@1\nD=A/" = [⟨1, "@1"⟩, ⟨2, "D=A/"⟩] := by
  have hcode : codeOf "@1\nD=A/ " = ["@1", "D=A/"] := by decide +kernel
  have hcomment : Added "D=A/ " "D=A/ // load/" :=
    @Added.comment "D=A/ " "" " load/" (by unfold Uncommented; decide) (by decide)
      (List.all_eq_true.mp (by decide))
  have hstarts : StartsLine "@1\n" := .inr ⟨"@1", by decide⟩
  have hbehind : Inserted "@1\nD=A/ " "@1\nD=A/ // load/" :=
    @Inserted.within "@1\n" _ _ "" hstarts (.inl rfl) (by decide) (by decide) hcomment
  have habove : Inserted "@1\nD=A/ // load/" "@1\n\t\r\nD=A/ // load/" :=
    @Inserted.above "@1\n" "\t\r" "D=A/ // load/" hstarts (by decide)
      (.blanks (List.all_eq_true.mp (by decide)))
  obtain ⟨-, -, hagain, -, hkept⟩ := cleaning_normal "@1\nD=A/ "
  rw [hcode] at hagain hkept
  exact ⟨hkept _ (.tail (.single hbehind) habove), hagain⟩

end HackPlatform
