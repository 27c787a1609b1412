/-
  HackPlatform.Proofs.Vm.Generation
  ────────────────────────────────
  **LOWERING AS A MACHINE: one scope, asked for code again and again.**

  A scope can be asked for the code of any command, also of one that was never read
  from a line: its name may be any text and its numbers any numbers.  What the check
  refuses is refused, and leaves no trace.  What is accepted moves the scope on, so
  the scope always tells how many labels were generated and which function is open.

  Labels of comparisons start with the file and those of calls with the function
  that calls, and both names may be any texts.  The labels differ all the same: the
  digits behind the last dot are the number that was given out, and a number is
  given out once.

      Scope.generate        one answer, and the scope afterwards
      scopeFrom             the scope after some answers
      answersFrom           the answers
      numberedLabelLines    the label lines of comparisons, calls and start-ups

  Main results:
    * `generate_refused`, `generate_accepted`, what one answer is;
    * `scopeFrom_eq`, refused commands leave no trace;
    * `generation_sound`, the laws of every run.
-/
import HackPlatform.Proofs.Vm.Labels

namespace HackPlatform.Vm

open Asm

/-! ## §1. The machine. -/

/-- Lower what is asked for here, and say where the next thing stands.  What is refused leaves
the scope as it is. -/
def Scope.generate (s : Scope) : Origin → Except (Located Fault) (List Instruction) × Scope
  | .bootstrap => (.ok s.bootstrap.1, s.bootstrap.2)
  | .command line c =>
      match s.lower c with
      | .ok (code, s') => (.ok code, s')
      | .error fault => (.error ⟨line, fault⟩, s)

/-- The scope after some answers. -/
def scopeFrom (s : Scope) (asked : List Origin) : Scope :=
  asked.foldl (fun s o => (s.generate o).2) s

/-- The answers, in order. -/
def answersFrom : Scope → List Origin → List (Except (Located Fault) (List Instruction))
  | _, [] => []
  | s, o :: asked => (s.generate o).1 :: answersFrom (s.generate o).2 asked

/-- A start-up, or a command that passes its check. -/
def Origin.accepted : Origin → Bool
  | bootstrap => true
  | command _ c => c.check.isOk

/-- The lines of an answer that are label lines. -/
def answerLabelLines : Except (Located Fault) (List Instruction) → List String
  | .ok code => (code.map Instruction.render).filter isLabelLine
  | .error _ => []

/-- The label lines in the answers to start-ups, comparisons and calls. -/
def numberedLabelLines (s : Scope) (asked : List Origin) : List String :=
  ((asked.zip (answersFrom s asked)).filter (·.1.numbered)).flatMap fun answer =>
    answerLabelLines answer.2

/-! ## §2. One answer. -/

section
variable {s : Scope}

theorem generate_refused {c : Command} {fault : Fault} (h : c.check = .error fault) (line : Nat) :
    s.generate (.command line c) = (.error ⟨line, fault⟩, s) := by
  have hlower : s.lower c = .error fault := by
    unfold Scope.lower
    rw [h]
    rfl
  simp only [Scope.generate, hlower]

/-- A command that passes its check has code. -/
theorem exists_code {c : Command} (h : c.check = .ok ()) : ∃ code, s.code c = .ok code := by
  cases c with
  | pop segment index =>
      -- a constant has no place, and is the one that the check keeps out
      cases segment with
      | constant => cases h
      | argument | locals | static | this | that | pointer | temp => exact ⟨_, rfl⟩
  | arithmetic | push | label | goto | ifGoto | function | call | ret => exact ⟨_, rfl⟩

/-- Past its check, a command is lowered to its code, and the scope moves on. -/
theorem lower_of_check {c : Command} {code : List Instruction} (hcheck : c.check = .ok ())
    (hcode : s.code c = .ok code) : s.lower c = .ok (code, s.after c) := by
  unfold Scope.lower
  rw [hcheck, hcode]
  rfl

theorem generate_of_lower {c : Command} {code : List Instruction} {s' : Scope}
    (h : s.lower c = .ok (code, s')) (line : Nat) :
    s.generate (.command line c) = (.ok code, s') := by
  simp only [Scope.generate, h]

/-- What is accepted has the label of its mark, and the scope passes on. -/
theorem generate_accepted {o : Origin} (h : o.accepted = true) :
    ∃ code, s.generate o = (.ok code, s.pass o)
      ∧ labelNames code = ((s.mark? o).map (Mark.symbol s.file)).toList := by
  cases o with
  | bootstrap => exact ⟨s.bootstrap.1, rfl, rfl⟩
  | command line c =>
      replace h : c.check.isOk = true := h
      cases hcheck : c.check with
      | error fault =>
          rw [hcheck] at h
          cases h
      | ok _ =>
          obtain ⟨code, hcode⟩ := exists_code (s := s) hcheck
          exact ⟨code, generate_of_lower (lower_of_check hcheck hcode) line,
            labelNames_of_code hcode line⟩

/-- What is not accepted is a command that its check refuses. -/
theorem refused_of_not_accepted {o : Origin} (h : o.accepted = false) :
    ∃ line c fault, o = .command line c ∧ c.check = .error fault := by
  cases o with
  | bootstrap => cases h
  | command line c =>
      replace h : c.check.isOk = false := h
      cases hcheck : c.check with
      | ok _ =>
          rw [hcheck] at h
          cases h
      | error fault => exact ⟨line, c, fault, rfl, hcheck⟩

end

/-! ## §3. Many answers. -/

theorem answersFrom_append (s : Scope) (asked more : List Origin) :
    answersFrom s (asked ++ more)
      = answersFrom s asked ++ answersFrom (scopeFrom s asked) more := by
  induction asked generalizing s with
  | nil => rfl
  | cons o asked ih =>
      show (s.generate o).1 :: answersFrom (s.generate o).2 (asked ++ more) = _
      rw [ih]
      rfl

theorem length_answersFrom (s : Scope) (asked : List Origin) :
    (answersFrom s asked).length = asked.length := by
  induction asked generalizing s with
  | nil => rfl
  | cons o asked ih =>
      show (answersFrom (s.generate o).2 asked).length + 1 = asked.length + 1
      rw [ih]

/-- **Only what is accepted leaves a trace.** -/
theorem scopeFrom_eq (s : Scope) (asked : List Origin) :
    scopeFrom s asked = (asked.filter Origin.accepted).foldl Scope.pass s := by
  induction asked generalizing s with
  | nil => rfl
  | cons o asked ih =>
      show scopeFrom (s.generate o).2 asked = _
      rw [ih]
      cases ho : o.accepted with
      | true =>
          obtain ⟨code, hanswer, -⟩ := generate_accepted (s := s) ho
          rw [hanswer, List.filter_cons_of_pos ho]
          rfl
      | false =>
          obtain ⟨line, c, fault, rfl, hcheck⟩ := refused_of_not_accepted ho
          rw [generate_refused hcheck, List.filter_cons_of_neg (by rw [ho]; exact Bool.false_ne_true)]

/-- The number of generated labels, by what was accepted. -/
theorem labels_foldl_pass (s : Scope) (origins : List Origin) :
    (origins.foldl Scope.pass s).labels = s.labels + origins.countP Origin.numbered := by
  induction origins generalizing s with
  | nil => rfl
  | cons o origins ih =>
      rw [List.foldl_cons, ih, s.pass_labels, List.countP_cons]
      omega

/-! ## §4. Label lines. -/

/-- Behind the last dot stand the digits of a number. -/
theorem eq_of_last_number {a b : String} {n k : Nat}
    (h : a ++ "." ++ toString n = b ++ "." ++ toString k) : n = k := by
  have hnodot : ∀ n : Nat, '.' ∉ Nat.toDigits 10 n := Text.not_mem_toDigits (by decide)
  have hlist : a.toList ++ '.' :: Nat.toDigits 10 n = b.toList ++ '.' :: Nat.toDigits 10 k := by
    simpa [String.toList_append, Text.toList_toString] using congrArg String.toList h
  rcases Text.cuts_of_append_cons hlist with ⟨-, -, hdigits⟩ | ⟨rest, hb⟩ | ⟨rest, ha⟩
  · exact Text.eq_of_toDigits_eq hdigits
  -- a dot further right would stand among the digits of the other number
  · rw [hb, List.append_assoc, List.append_cancel_left_eq, List.cons_append] at hlist
    exact absurd (by rw [(List.cons.inj hlist).2]; simp) (hnodot n)
  · rw [ha, List.append_assoc, List.append_cancel_left_eq, List.cons_append] at hlist
    exact absurd (by rw [← (List.cons.inj hlist).2]; simp) (hnodot k)

/-- A generated label ends in a dot and its number. -/
theorem Mark.symbol_of_number {m : Mark} {n : Nat} (h : m.number? = some n) (file : String) :
    ∃ base, m.symbol file = base ++ "." ++ toString n := by
  cases m with
  | entry | user => cases h
  | back owner n =>
      cases h
      have hmark : "$ret." = "$ret" ++ "." := by decide
      refine ⟨owner ++ "$ret", ?_⟩
      show owner ++ "$ret." ++ toString n = _
      rw [hmark]
      simp only [String.append_assoc]
  | compare n =>
      cases h
      have hmark : ".CMP." = ".CMP" ++ "." := by decide
      refine ⟨file ++ ".CMP", ?_⟩
      show file ++ ".CMP." ++ toString n = _
      rw [hmark]
      simp only [String.append_assoc]

/-- The marks of what was accepted that have a number. -/
def numberedMarks (s : Scope) (asked : List Origin) : List Mark :=
  (marksFrom s (asked.filter Origin.accepted)).filter (·.number?.isSome)

/-- A label line. -/
def labelLine (name : String) : String := "(" ++ name ++ ")"

theorem answerLabelLines_ok {code : List Instruction} {name : Option String}
    (h : labelNames code = name.toList) :
    answerLabelLines (.ok code) = (name.map labelLine).toList := by
  show (code.map Instruction.render).filter isLabelLine = _
  rw [filter_render, h]
  cases name <;> rfl

/-- One answer more. -/
theorem numberedLabelLines_cons (s : Scope) (o : Origin) (asked : List Origin) :
    numberedLabelLines s (o :: asked)
      = (if o.numbered then answerLabelLines (s.generate o).1 else [])
        ++ numberedLabelLines (s.generate o).2 asked := by
  show (((o, (s.generate o).1) :: asked.zip (answersFrom (s.generate o).2 asked)).filter
    fun answer => answer.1.numbered).flatMap (fun answer => answerLabelLines answer.2) = _
  cases hn : o.numbered with
  | true => simp only [List.filter_cons, hn, if_true, List.flatMap_cons]; rfl
  | false => simp only [List.filter_cons, hn]; rfl

/-- What is numbered places the line of its mark, and it is its mark that has a number. -/
theorem answerLabelLines_numbered {s : Scope} {o : Origin} {code : List Instruction}
    (h : labelNames code = ((s.mark? o).map (Mark.symbol s.file)).toList) :
    (if o.numbered then answerLabelLines (.ok code) else [])
      = ((s.mark? o).toList.filter (·.number?.isSome)).map fun m =>
          labelLine (m.symbol s.file) := by
  have hnumber := number_of_mark? s o
  rw [answerLabelLines_ok h]
  cases hmark : s.mark? o with
  | none =>
      rw [hmark] at hnumber
      cases hn : o.numbered with
      | true => rw [hn] at hnumber; cases hnumber
      | false => rfl
  | some m =>
      rw [hmark, Option.bind_some] at hnumber
      cases hn : o.numbered with
      | true => simp [hnumber, hn]
      | false => simp [hnumber, hn]

/-- The label lines are those of the marks with a number. -/
theorem numberedLabelLines_eq (s : Scope) (asked : List Origin) :
    numberedLabelLines s asked
      = (numberedMarks s asked).map fun m => labelLine (m.symbol s.file) := by
  -- for every scope at once; what is refused leaves both sides as they are
  induction asked generalizing s with
  | nil => rfl
  | cons o asked ih =>
      rw [numberedLabelLines_cons]
      cases ho : o.accepted with
      | false =>
          obtain ⟨line, c, fault, rfl, hcheck⟩ := refused_of_not_accepted ho
          have hmarks : numberedMarks s (.command line c :: asked) = numberedMarks s asked := by
            unfold numberedMarks
            rw [List.filter_cons_of_neg (by rw [ho]; exact Bool.false_ne_true)]
          rw [generate_refused hcheck, hmarks, ih]
          show (if _ then [] else []) ++ _ = _
          rw [ite_self, List.nil_append]
      | true =>
          obtain ⟨code, hanswer, hlabels⟩ := generate_accepted (s := s) ho
          have hmarks : numberedMarks s (o :: asked)
              = (s.mark? o).toList.filter (·.number?.isSome) ++ numberedMarks (s.pass o) asked := by
            unfold numberedMarks
            rw [List.filter_cons_of_pos ho, marksFrom, List.filter_append]
          rw [hanswer, hmarks, ih, Scope.pass_file, List.map_append,
            answerLabelLines_numbered hlabels]

/-- The numbers of the marks, one for each. -/
theorem filterMap_number (s : Scope) (asked : List Origin) :
    (numberedMarks s asked).filterMap Mark.number?
      = List.range' s.labels ((asked.filter Origin.accepted).countP Origin.numbered) := by
  rw [← numbers_marksFrom]
  unfold numberedMarks
  rw [List.filterMap_filter]
  apply List.filterMap_congr
  intro m _
  cases h : m.number? <;> simp

/-- Each number that was given out stands in one label line. -/
theorem length_numberedLabelLines (s : Scope) (asked : List Origin) :
    s.labels + (numberedLabelLines s asked).length = (scopeFrom s asked).labels := by
  have hlength : ((numberedMarks s asked).filterMap Mark.number?).length
      = (numberedMarks s asked).length :=
    List.filterMap_length_eq_length.mpr fun m hm => (List.mem_filter.mp hm).2
  rw [filterMap_number, List.length_range'] at hlength
  rw [numberedLabelLines_eq, List.length_map, scopeFrom_eq, labels_foldl_pass, hlength]

/-- **No two generated labels are the same**, whatever the file and the functions are
called. -/
theorem nodup_numberedLabelLines (s : Scope) (asked : List Origin) :
    (numberedLabelLines s asked).Nodup := by
  rw [numberedLabelLines_eq, List.nodup_iff_pairwise_ne, List.pairwise_map]
  -- the numbers are different, and the number can be read off the line
  have hnumbers : ((numberedMarks s asked).filterMap Mark.number?).Nodup := by
    rw [filterMap_number]
    exact List.nodup_range'
  rw [List.nodup_iff_pairwise_ne, List.pairwise_filterMap] at hnumbers
  refine hnumbers.imp_of_mem fun {m m'} hm hm' hne heq => ?_
  obtain ⟨k, hk⟩ := Option.isSome_iff_exists.mp (List.mem_filter.mp hm).2
  obtain ⟨k', hk'⟩ := Option.isSome_iff_exists.mp (List.mem_filter.mp hm').2
  obtain ⟨base, hbase⟩ := Mark.symbol_of_number hk s.file
  obtain ⟨base', hbase'⟩ := Mark.symbol_of_number hk' s.file
  have hsymbol : m.symbol s.file = m'.symbol s.file := by
    have hchars := congrArg String.toList heq
    simp only [labelLine, String.toList_append, List.append_cancel_right_eq,
      List.append_cancel_left_eq] at hchars
    exact String.toList_inj.mp hchars
  rw [hbase, hbase'] at hsymbol
  exact hne k hk k' hk' (eq_of_last_number hsymbol)

/-! ## §5. Every run. -/

/-- What holds of every run from the start of a file, whatever the file is called and
whatever is asked for. -/
structure SoundRun (file : String) (asked : List Origin) : Prop where
  /-- A command is refused exactly when its check refuses it, and for the same fault. -/
  refused_iff : ∀ line c e,
    ((scopeFrom (.start file) asked).generate (.command line c)).1 = .error e
      ↔ c.check = .error e.fault ∧ e.line = line
  /-- A start-up is never refused. -/
  started : ((scopeFrom (.start file) asked).generate .bootstrap).1.isOk = true
  /-- What is refused leaves the scope as it is, and the answers to all that is asked for later
  are those of the run without it. -/
  traceless : ∀ line c fault more, c.check = .error fault →
    ((scopeFrom (.start file) asked).generate (.command line c)).2
        = scopeFrom (.start file) asked
      ∧ answersFrom (.start file) (asked ++ .command line c :: more)
        = answersFrom (.start file) asked ++ .error ⟨line, fault⟩
          :: (answersFrom (.start file) (asked ++ more)).drop asked.length
  /-- One label was generated for each comparison, call and start-up that was accepted. -/
  counted : (scopeFrom (.start file) asked).labels
    = asked.countP fun o => o.accepted && o.numbered
  /-- The open function is the last one that was accepted. -/
  current : (scopeFrom (.start file) asked).function
    = ((asked.filter Origin.accepted).filterMap Origin.function?).getLast?
  /-- Each generated label was placed in one line. -/
  placed : (numberedLabelLines (.start file) asked).length = (scopeFrom (.start file) asked).labels
  /-- No two of these lines are the same. -/
  distinct : (numberedLabelLines (.start file) asked).Nodup

section
variable {s : Scope}

theorem generate_error_iff {line : Nat} {c : Command} {e : Located Fault} :
    (s.generate (.command line c)).1 = .error e ↔ c.check = .error e.fault ∧ e.line = line := by
  constructor
  · intro h
    cases hcheck : c.check with
    | error fault =>
        rw [generate_refused hcheck] at h
        cases h
        exact ⟨rfl, rfl⟩
    | ok _ =>
        have haccepted : (Origin.command line c).accepted = true := by
          show c.check.isOk = true
          rw [hcheck]
          rfl
        obtain ⟨code, hanswer, -⟩ := generate_accepted (s := s) haccepted
        rw [hanswer] at h
        cases h
  · rintro ⟨hcheck, rfl⟩
    rw [generate_refused hcheck]

theorem answersFrom_refused {line : Nat} {c : Command} {fault : Fault}
    (h : c.check = .error fault) (asked more : List Origin) :
    answersFrom s (asked ++ .command line c :: more)
      = answersFrom s asked ++ .error ⟨line, fault⟩
        :: (answersFrom s (asked ++ more)).drop asked.length := by
  have hdrop : (answersFrom s (asked ++ more)).drop asked.length
      = answersFrom (scopeFrom s asked) more := by
    rw [answersFrom_append, ← length_answersFrom s asked, List.drop_left]
  rw [hdrop, answersFrom_append, answersFrom, generate_refused h]

end

/-- **Lowering is sound in every run**: what is refused leaves no trace, what is accepted is
counted, and generated labels never meet. -/
theorem generation_sound (file : String) (asked : List Origin) : SoundRun file asked where
  refused_iff _ _ _ := generate_error_iff
  started := rfl
  traceless _ _ _ more h := ⟨by rw [generate_refused h], answersFrom_refused h asked more⟩
  counted := by
    rw [scopeFrom_eq, labels_foldl_pass, List.countP_filter]
    show 0 + _ = _
    rw [Nat.zero_add]
    exact List.countP_congr fun o _ => by rw [Bool.and_comm]
  current := by
    rw [scopeFrom_eq]
    exact scopeAfter_function file (asked.filter Origin.accepted)
  placed := by
    rw [← length_numberedLabelLines]
    exact (Nat.zero_add _).symm
  distinct := nodup_numberedLabelLines (.start file) asked

-- what is refused has no label, and takes no number away from the call behind it
example : numberedLabelLines (.start "F") [.command 1 (.arithmetic .eq),
    .command 2 (.pop .constant 0), .command 3 (.call "g" 0)] = ["(F.CMP.0)", "(F$ret.1)"] := by
  decide +kernel

end HackPlatform.Vm
