/-
  HackPlatform.Proofs.Vm.Labels
  ────────────────────────────────
  **NO LABEL IS EMITTED TWICE, unless a name of the source is that of another label.**

  A file gets labels of four kinds: the entries of its functions, the labels of its
  source, and two that are generated, behind calls and comparisons.  The generated
  ones are numbered through, so they never clash among themselves.  The others are
  made by joining names with `$`, and a name made so can be that of another label:

      a function `f$L`             where `f` owns a label `L`
      a label `g$L` of `f`         where `f$g` owns a label `L`
      a label `ret.0`              where the call 0 of its owner returns to
      a function `F.CMP.0`         the target of the comparison 0 in the file `F`
      a label `b.CMP.0` of `A`     the same target, in a file called `A$b`

  It is not the form of a name that counts but whether the other label is there: a file
  with functions `f` and `f$g` is fine if no label meets another.

      Mark           what a label is for
      marksFrom      the marks of a list of commands
      Mimics         a label takes the name of another, in one of these ways
      NamesApart     no label of a file does

  Main results:
    * `numbers_marksFrom`, generated labels are numbered through;
    * `Mark.symbol_eq_iff`, there are no other ways for two labels to have one name;
    * `lowered_labels_apart`, the labels of the text are pairwise different exactly if no
      label takes the name of another.
-/
import HackPlatform.Proofs.Vm.Acceptance

namespace HackPlatform.Vm

open Asm
open SourceLine (ofText)

/-! ## §1. Labels of code. -/

/-- The name of a label. -/
def labelName? : Instruction → Option String
  | .label name => some name
  | _ => none

/-- The names of the labels of code, in order. -/
def labelNames (code : List Instruction) : List String := code.filterMap labelName?

@[simp] theorem labelNames_append (code more : List Instruction) :
    labelNames (code ++ more) = labelNames code ++ labelNames more := List.filterMap_append

@[simp] theorem labelNames_label (name : String) (code : List Instruction) :
    labelNames (.label name :: code) = name :: labelNames code := rfl

theorem mem_labelNames {name : String} {code : List Instruction} (h : .label name ∈ code) :
    name ∈ labelNames code := List.mem_filterMap.mpr ⟨_, h, rfl⟩

/-- Where no label is emitted twice, each has one address. -/
theorem LabelStandsAt.unique {code : List Instruction} (hnodup : (labelNames code).Nodup)
    {name : String} {a b : Nat} (ha : LabelStandsAt code name a) (hb : LabelStandsAt code name b) :
    a = b := by
  obtain ⟨before, after, rfl, rfl⟩ := ha
  obtain ⟨before', after', hcode, rfl⟩ := hb
  rw [labelNames_append, labelNames_label, List.nodup_middle, List.nodup_cons, List.mem_append,
    not_or] at hnodup
  obtain ⟨⟨hbefore, hafter⟩, -⟩ := hnodup
  have hsplit := (List.append_cons_inj_of_notMem (fun hm => hbefore (mem_labelNames hm))
    fun hm => hafter (mem_labelNames hm)).mp hcode
  rw [hsplit.1]

/-! ## §2. Marks. -/

/-- What a label is for. -/
inductive Mark where
  /-- To enter a function. -/
  | entry (function : String)
  /-- To be jumped to by commands of the same owner, a function or the file. -/
  | user (owner name : String)
  /-- To return to the owner of a call. -/
  | back (owner : String) (number : Nat)
  /-- To leave a comparison early. -/
  | compare (number : Nat)
  deriving DecidableEq, Repr

namespace Mark

/-- The name of the label. -/
def symbol (file : String) : Mark → String
  | entry function => function
  | user owner name => owner ++ "$" ++ name
  | back owner number => owner ++ "$ret." ++ toString number
  | compare number => file ++ ".CMP." ++ toString number

/-- The number of a generated label. -/
def number? : Mark → Option Nat
  | back _ number | compare number => some number
  | _ => none

/-- The function that is entered. -/
def entry? : Mark → Option String
  | entry function => some function
  | _ => none

/-- A label of the source, with its owner. -/
def user? : Mark → Option (String × String)
  | user owner name => some (owner, name)
  | _ => none

/-- The owner of a label that has one. -/
def owner? : Mark → Option String
  | user owner _ | back owner _ => some owner
  | _ => none

end Mark

/-- The label that is emitted for an origin that stands here. -/
def Scope.mark? (s : Scope) : Origin → Option Mark
  | .bootstrap => some (.back s.owner s.labels)
  | .command _ (.arithmetic op) =>
      match op.shape with
      | .compare _ => some (.compare s.labels)
      | _ => none
  | .command _ (.label name) => some (.user s.owner name)
  | .command _ (.function name _) => some (.entry name)
  | .command _ (.call _ _) => some (.back s.owner s.labels)
  | .command _ _ => none

/-- The labels that are emitted for origins, the first of which stands here. -/
def marksFrom : Scope → List Origin → List Mark
  | _, [] => []
  | s, o :: origins => (s.mark? o).toList ++ marksFrom (s.pass o) origins

section
variable (place : Option Place) (index : Nat)

theorem labelNames_pushCode : labelNames (pushCode place index) = [] := by
  cases place with
  | none => rfl
  | some place => cases place <;> rfl

theorem labelNames_popCode (place : Place) : labelNames (popCode place index) = [] := by
  cases place <;> rfl

end

theorem labelNames_functionCode (name : String) (locals : Nat) :
    labelNames (functionCode name locals) = [name] := by
  have hzeros : labelNames (List.replicate locals (intoD .zero :: pushD)).flatten = [] := by
    induction locals with
    | zero => rfl
    | succ locals ih =>
        rw [List.replicate_succ, List.flatten_cons, labelNames_append, ih]
        rfl
  unfold functionCode
  rw [labelNames_label, hzeros]

/-- The code of a command has the label of its mark, and no other. -/
theorem labelNames_of_code {s : Scope} {c : Command} {code : List Instruction}
    (h : s.code c = .ok code) (line : Nat) :
    labelNames code = ((s.mark? (.command line c)).map (Mark.symbol s.file)).toList := by
  cases c with
  | arithmetic op => cases h; cases op <;> rfl
  | push segment index => cases h; exact labelNames_pushCode _ _
  | pop segment index =>
      -- a constant is not popped to, so there is code only if there is a place
      simp only [Scope.code] at h
      split at h
      next place _ => cases h; exact labelNames_popCode index place
      next => cases h
  | function name locals => cases h; exact labelNames_functionCode name locals
  | label name | goto name | ifGoto name | call name args | ret => cases h; rfl

/-- A fragment has the label of its mark, and no other. -/
theorem labelNames_of_lowers {s : Scope} {f : Fragment} (h : s.Lowers f) :
    labelNames f.code = ((s.mark? f.origin).map (Mark.symbol s.file)).toList := by
  obtain ⟨origin, code⟩ := f
  cases origin with
  | bootstrap =>
      replace h : code = s.bootstrap.1 := h
      subst h
      rfl
  | command line c => exact labelNames_of_code h.2 line

/-- **The labels of the fragments are those of the marks.** -/
theorem labelNames_flatMap {fragments : List Fragment} {s : Scope}
    (h : ∀ i f, fragments[i]? = some f →
      (((fragments.take i).map (·.origin)).foldl Scope.pass s).Lowers f) :
    labelNames (fragments.flatMap (·.code))
      = (marksFrom s (fragments.map (·.origin))).map (Mark.symbol s.file) := by
  induction fragments generalizing s with
  | nil => rfl
  | cons f fragments ih =>
      have hhead : s.Lowers f := h 0 f rfl
      have hrest := ih (s := s.pass f.origin) fun i g hg => h (i + 1) g hg
      rw [Scope.pass_file] at hrest
      rw [List.flatMap_cons, labelNames_append, hrest, labelNames_of_lowers hhead,
        List.map_cons, marksFrom, List.map_append, Option.toList_map]

/-! ## §3. Numbers and entries. -/

/-- A start-up, a comparison or a call. -/
def Origin.numbered : Origin → Bool
  | bootstrap | command _ (.call _ _) => true
  | command _ (.arithmetic op) => [Arithmetic.eq, .gt, .lt].contains op
  | command _ _ => false

/-- The mark of a start-up, a comparison or a call has the next number; no other has one. -/
theorem number_of_mark? (s : Scope) (o : Origin) :
    (s.mark? o).bind Mark.number? = if o.numbered then some s.labels else none := by
  cases o with
  | bootstrap => rfl
  | command line c =>
      cases c with
      | arithmetic op => cases op <;> rfl
      | push | pop | label | goto | ifGoto | function | call | ret => rfl

/-- The scope counts on exactly where a mark has a number. -/
theorem Scope.pass_labels (s : Scope) (o : Origin) :
    (s.pass o).labels = s.labels + if o.numbered then 1 else 0 := by
  cases o with
  | bootstrap => rfl
  | command line c =>
      cases c with
      | arithmetic op => cases op <;> rfl
      | push | pop | label | goto | ifGoto | function | call | ret => rfl

theorem filterMap_toList {α β : Type} (f : α → Option β) (x : Option α) :
    x.toList.filterMap f = (x.bind f).toList := by
  cases x with
  | none => rfl
  | some a => cases h : f a <;> simp [h]

/-- **Generated labels are numbered through.** -/
theorem numbers_marksFrom (origins : List Origin) (s : Scope) :
    (marksFrom s origins).filterMap Mark.number?
      = List.range' s.labels (origins.countP Origin.numbered) := by
  -- for every scope at once: the count goes on from wherever the first origin leaves it
  induction origins generalizing s with
  | nil => rfl
  | cons o origins ih =>
      rw [marksFrom, List.filterMap_append, filterMap_toList, ih, number_of_mark?, s.pass_labels,
        List.countP_cons]
      cases o.numbered with
      | true => rw [if_pos rfl, if_pos rfl, List.range'_succ]; rfl
      | false => rfl

theorem entries_marksFrom (origins : List Origin) (s : Scope) :
    (marksFrom s origins).filterMap Mark.entry? = origins.filterMap Origin.function? := by
  induction origins generalizing s with
  | nil => rfl
  | cons o origins ih =>
      have hmark : (s.mark? o).bind Mark.entry? = o.function? := by
        cases o with
        | bootstrap => rfl
        | command line c =>
            cases c with
            | arithmetic op => cases op <;> rfl
            | push | pop | label | goto | ifGoto | function | call | ret => rfl
      rw [marksFrom, List.filterMap_append, filterMap_toList, ih, hmark]
      cases hfunction : o.function? with
      | none => rw [List.filterMap_cons_none hfunction]; rfl
      | some name => rw [List.filterMap_cons_some hfunction]; rfl

/-! ## §4. Labels of one name. -/

namespace Mark

/-- What stands behind the owner of a label. -/
def rest : Mark → String
  | user _ name => name
  | back _ number => "ret." ++ toString number
  | _ => ""

theorem symbol_of_owner {m : Mark} {owner : String} (h : m.owner? = some owner) (file : String) :
    m.symbol file = owner ++ "$" ++ m.rest := by
  cases m with
  | entry function => cases h
  | user o name => cases h; rfl
  | back o number =>
      cases h
      have hjoined : "$ret." = "$" ++ "ret." := by decide
      show owner ++ "$ret." ++ toString number = owner ++ "$" ++ ("ret." ++ toString number)
      rw [hjoined]
      simp only [String.append_assoc]
  | compare number => cases h

/-- A label of the source takes the name of another label. -/
inductive Mimics (file : String) : Mark → Mark → Prop where
  /-- A label `ret.3` stands where the call with the number 3 returns to. -/
  | back {owner : String} {number : Nat} :
      Mimics file (.user owner ("ret." ++ toString number)) (.back owner number)
  /-- A function of the file `F` is called `F.CMP.3`, and a comparison has the number 3. -/
  | compare {number : Nat} :
      Mimics file (.entry (file ++ ".CMP." ++ toString number)) (.compare number)
  /-- A function is called `f$L`, and `f` owns a label `L`. -/
  | entry {m : Mark} {owner : String} (owned : m.owner? = some owner) :
      Mimics file (.entry (owner ++ "$" ++ m.rest)) m
  /-- `f` owns a label `g$L`, and `f$g` owns a label `L`. -/
  | inner {m : Mark} {owner inner : String} (owned : m.owner? = some (owner ++ "$" ++ inner)) :
      Mimics file (.user owner (inner ++ "$" ++ m.rest)) m
  /-- `A` owns a label `b.CMP.3`, the file is called `A$b`, and a comparison has the number 3. -/
  | stem {owner inner : String} {number : Nat} (continues : file = owner ++ "$" ++ inner) :
      Mimics file (.user owner (inner ++ ".CMP." ++ toString number)) (.compare number)

theorem Mimics.symbol_eq {file : String} {m m' : Mark} (h : Mimics file m m') :
    m.symbol file = m'.symbol file := by
  cases h with
  | back =>
      rw [symbol_of_owner rfl, symbol_of_owner rfl]
      rfl
  | compare => rfl
  | entry owned => rw [symbol_of_owner owned]; rfl
  | inner owned =>
      rw [symbol_of_owner owned, symbol_of_owner rfl]
      simp only [rest, String.append_assoc]
  | stem continues =>
      subst continues
      rw [symbol_of_owner rfl]
      simp only [rest, symbol, String.append_assoc]

theorem Mimics.ne {file : String} {m m' : Mark} (h : Mimics file m m') : m ≠ m' := by
  cases h with
  | back | compare | stem => nofun
  | entry owned =>
      -- an entry has no owner
      intro heq
      rw [← heq] at owned
      cases owned
  | @inner _ owner inner owned =>
      -- a name is shorter than what continues it
      intro heq
      rw [← heq] at owned
      have hlength := congrArg String.length (Option.some.inj owned)
      rw [String.length_append, String.length_append] at hlength
      have hdollar : "$".length = 1 := rfl
      omega

end Mark

/-- Names that are joined with a `$` are the same part by part, unless one of the first parts
continues the other with a `$`. -/
theorem joined_cases {a b x y : String} (h : a ++ "$" ++ x = b ++ "$" ++ y) :
    (a = b ∧ x = y) ∨ (∃ inner, b = a ++ "$" ++ inner ∧ x = inner ++ "$" ++ y)
      ∨ ∃ inner, a = b ++ "$" ++ inner ∧ y = inner ++ "$" ++ x := by
  have hlist : a.toList ++ '$' :: x.toList = b.toList ++ '$' :: y.toList := by
    simpa [String.toList_append] using congrArg String.toList h
  -- what is left when the shorter of the first parts is struck off
  have hcut : ∀ {a b x y : String} {rest : List Char}, a ++ "$" ++ x = b ++ "$" ++ y →
      b.toList = a.toList ++ '$' :: rest →
        ∃ inner, b = a ++ "$" ++ inner ∧ x = inner ++ "$" ++ y := by
    intro a b x y rest h hb
    obtain rfl : b = a ++ "$" ++ String.ofList rest := by
      apply String.toList_inj.mp
      rw [hb]
      simp [String.toList_append]
    refine ⟨String.ofList rest, rfl, (String.append_right_inj (a ++ "$")).mp ?_⟩
    rw [h]
    simp only [String.append_assoc]
  rcases Text.cuts_of_append_cons hlist with ⟨hab, -, hxy⟩ | ⟨rest, hb⟩ | ⟨rest, ha⟩
  · exact .inl ⟨String.toList_inj.mp hab, String.toList_inj.mp hxy⟩
  · exact .inr (.inl (hcut h hb))
  · exact .inr (.inr (hcut h.symm ha))

/-- A name with a `$` is none without, unless the `$` is in what the other starts with. -/
theorem continues_of_eq {a b x rest : String} (h : a ++ "$" ++ x = b ++ rest)
    (hrest : '$' ∉ rest.toList) : ∃ inner, b = a ++ "$" ++ inner ∧ x = inner ++ rest := by
  have hlist : a.toList ++ '$' :: x.toList = b.toList ++ rest.toList := by
    simpa [String.toList_append] using congrArg String.toList h
  -- the `$` cannot be behind `b`, so it is inside
  rcases List.append_eq_append_iff.mp hlist with ⟨gap, hb, hgap⟩ | ⟨gap, -, hgap⟩
  · cases gap with
    | nil => exact absurd (by rw [← List.nil_append rest.toList, ← hgap]; simp) hrest
    | cons c gap =>
        obtain ⟨rfl, hx⟩ := List.cons.inj hgap
        refine ⟨String.ofList gap, String.toList_inj.mp ?_, String.toList_inj.mp ?_⟩
        · rw [hb]
          simp [String.toList_append]
        · rw [hx, String.toList_append, String.toList_ofList]
          rfl
  · exact absurd (by rw [hgap]; simp) hrest

/-- Only the text in front of a number has characters that are no digits. -/
theorem not_mem_numbered {c : Char} (hdigit : c.isDigit = false) {base : String}
    (hbase : c ∉ base.toList) (number : Nat) : c ∉ (base ++ toString number).toList := by
  rw [String.toList_append, Text.toList_toString, List.mem_append, not_or]
  exact ⟨hbase, Text.not_mem_toDigits hdigit number⟩

/-- Behind the same text, numbers are told apart by their digits. -/
theorem eq_of_numbered {base : String} {n k : Nat} (h : base ++ toString n = base ++ toString k) :
    n = k := by
  have hdigits := congrArg String.toList h
  simp only [String.toList_append, List.append_cancel_left_eq, Text.toList_toString] at hdigits
  exact Text.eq_of_toDigits_eq hdigits

namespace Mark

section
variable {file owner owner' : String} {m m' : Mark} (ho : m.owner? = some owner)
include ho

/-- A label whose rest has a character that no return address has is one of the source. -/
theorem eq_user {c : Char} (hdigit : c.isDigit = false) (hret : c ∉ "ret.".toList)
    (hc : c ∈ m.rest.toList) : m = .user owner m.rest := by
  cases m with
  | entry | compare => cases ho
  | user o name => cases ho; rfl
  | back o number => exact absurd hc (not_mem_numbered hdigit hret number)

/-- Labels of one name and one owner. -/
theorem eq_or_mimics_of_rest (ho' : m'.owner? = some owner) (hrest : m.rest = m'.rest) :
    m = m' ∨ Mimics file m m' ∨ Mimics file m' m := by
  cases m with
  | entry | compare => cases ho
  | user o name =>
      cases ho
      cases m' with
      | entry | compare => cases ho'
      | user o' name' => cases ho'; exact .inl (congrArg (Mark.user owner) hrest)
      | back o' number =>
          cases ho'
          obtain rfl : name = "ret." ++ toString number := hrest
          exact .inr (.inl .back)
  | back o number =>
      cases ho
      cases m' with
      | entry | compare => cases ho'
      | user o' name =>
          cases ho'
          obtain rfl : "ret." ++ toString number = name := hrest
          exact .inr (.inr .back)
      | back o' number' =>
          cases ho'
          rw [eq_of_numbered hrest]
          exact .inl rfl

/-- Labels of one name, the owner of one of which continues that of the other. -/
theorem mimics_of_continues {inner : String} (ho' : m'.owner? = some (owner ++ "$" ++ inner))
    (hrest : m.rest = inner ++ "$" ++ m'.rest) : Mimics file m m' := by
  have hdollar : '$' ∈ m.rest.toList := by
    rw [hrest]
    simp [String.toList_append]
  rw [eq_user ho (by decide) (by decide) hdollar, hrest]
  exact .inner ho'

/-- Labels of one name, one of which has no owner. -/
theorem mimics_of_no_owner (hnone : m'.owner? = none) (heq : m.symbol file = m'.symbol file) :
    Mimics file m m' ∨ Mimics file m' m := by
  rw [symbol_of_owner ho] at heq
  cases m' with
  | user | back => cases hnone
  | entry function =>
      obtain rfl : owner ++ "$" ++ m.rest = function := heq
      exact .inr (.entry ho)
  | compare number =>
      have hjoined : file ++ ".CMP." ++ toString number = file ++ (".CMP." ++ toString number) :=
        String.append_assoc
      replace heq : owner ++ "$" ++ m.rest = file ++ ".CMP." ++ toString number := heq
      rw [hjoined] at heq
      obtain ⟨inner, hfile, hrest⟩ :=
        continues_of_eq heq (not_mem_numbered (by decide) (by decide) number)
      have hletter : 'C' ∈ m.rest.toList := by
        rw [hrest]
        simp [String.toList_append]
      rw [eq_user ho (by decide) (by decide) hletter, hrest, ← String.append_assoc]
      exact .inl (.stem hfile)

end

/-- **Two labels have one name iff one of them, a label of the source, takes the name of the
other.** -/
theorem symbol_eq_iff {file : String} {m m' : Mark} :
    m.symbol file = m'.symbol file ↔ m = m' ∨ Mimics file m m' ∨ Mimics file m' m := by
  constructor
  · intro heq
    cases ho : m.owner? with
    | some owner =>
        cases ho' : m'.owner? with
        | some owner' =>
            have hjoined := heq
            rw [symbol_of_owner ho, symbol_of_owner ho'] at hjoined
            rcases joined_cases hjoined with
              ⟨rfl, hrest⟩ | ⟨inner, rfl, hrest⟩ | ⟨inner, rfl, hrest⟩
            · exact eq_or_mimics_of_rest ho ho' hrest
            · exact .inr (.inl (mimics_of_continues ho ho' hrest))
            · exact .inr (.inr (mimics_of_continues ho' ho hrest))
        | none => exact .inr (mimics_of_no_owner ho ho' heq)
    | none =>
        cases ho' : m'.owner? with
        | some owner' => exact .inr (mimics_of_no_owner ho' ho heq.symm).symm
        | none =>
            cases m with
            | user | back => cases ho
            | entry function =>
                cases m' with
                | user | back => cases ho'
                | entry function' => exact .inl (congrArg Mark.entry heq)
                | compare number =>
                    obtain rfl : function = file ++ ".CMP." ++ toString number := heq
                    exact .inr (.inl .compare)
            | compare number =>
                cases m' with
                | user | back => cases ho'
                | entry function =>
                    obtain rfl : file ++ ".CMP." ++ toString number = function := heq
                    exact .inr (.inr .compare)
                | compare number' => exact .inl (congrArg Mark.compare (eq_of_numbered heq))
  · rintro (rfl | h | h)
    · rfl
    · exact h.symbol_eq
    · exact h.symbol_eq.symm

end Mark

/-- The labels of a file. -/
def Lowered.marks (l : Lowered) (file : String) : List Mark :=
  marksFrom (Scope.start (toSymbol file)) l.origins

/-- The functions of a file. -/
def Lowered.functions (l : Lowered) : List String := l.origins.filterMap Origin.function?

/-- No label of the source takes the name of another label of its file. -/
structure NamesApart (file : String) (l : Lowered) : Prop where
  /-- No function is defined twice. -/
  functions : l.functions.Nodup
  /-- No label of the source is defined twice for one owner, a function or the file. -/
  labels : ((l.marks file).filterMap Mark.user?).Nodup
  /-- None takes the name of another, in any of the ways there are. -/
  apart : ∀ m ∈ l.marks file, ∀ m' ∈ l.marks file, ¬ Mark.Mimics (toSymbol file) m m'

section
variable {file : String} {l : Lowered}

theorem functions_eq : (l.marks file).filterMap Mark.entry? = l.functions :=
  entries_marksFrom l.origins (Scope.start (toSymbol file))

/-- No label is there twice: neither one of the source nor one that is numbered. -/
theorem marks_nodup_iff : (l.marks file).Nodup ↔
    l.functions.Nodup ∧ ((l.marks file).filterMap Mark.user?).Nodup := by
  rw [← functions_eq]
  constructor
  · intro hmarks
    refine ⟨hmarks.filterMap ?_, hmarks.filterMap ?_⟩
    · intro m m' function h h'
      cases m with
      | user | back | compare => cases h
      | entry =>
          cases m' with
          | user | back | compare => cases h'
          | entry => cases h; cases h'; rfl
    · intro m m' label h h'
      cases m with
      | entry | back | compare => cases h
      | user =>
          cases m' with
          | entry | back | compare => cases h'
          | user => cases h; cases h'; rfl
  · rintro ⟨hfunctions, hlabels⟩
    rw [List.nodup_iff_sublist]
    intro m htwice
    cases m with
    | entry function =>
        exact List.nodup_iff_sublist.mp hfunctions function (htwice.filterMap Mark.entry?)
    | user owner name =>
        exact List.nodup_iff_sublist.mp hlabels (owner, name) (htwice.filterMap Mark.user?)
    | back _ number | compare number =>
        have hkind := htwice.filterMap Mark.number?
        unfold Lowered.marks at hkind
        rw [numbers_marksFrom] at hkind
        exact List.nodup_iff_sublist.mp List.nodup_range' number hkind

/-- **The names of labels are pairwise different iff none of the source takes another's.** -/
theorem symbols_nodup_iff :
    ((l.marks file).map (Mark.symbol (toSymbol file))).Nodup ↔ NamesApart file l := by
  constructor
  · intro hsymbols
    obtain ⟨hfunctions, hlabels⟩ := marks_nodup_iff.mp hsymbols.of_map
    refine ⟨hfunctions, hlabels, fun m hm m' hm' h => ?_⟩
    exact h.ne (List.inj_on_of_nodup_map hsymbols hm hm' h.symbol_eq)
  · intro h
    have hmarks := marks_nodup_iff.mpr ⟨h.functions, h.labels⟩
    rw [List.nodup_map_iff_inj_on hmarks]
    intro m hm m' hm' heq
    rcases Mark.symbol_eq_iff.mp heq with hsame | hmimics | hmimics
    · exact hsame
    · exact absurd hmimics (h.apart m hm m' hm')
    · exact absurd hmimics (h.apart m' hm' m hm)

end

/-! ## §5. The label lines of the text. -/

/-- A raw line that opens with a parenthesis. -/
def isLabelLine (raw : String) : Bool := raw.toList.head? == some '('

/-- The label lines of a text. -/
def labelLines (text : String) : List String := (rawLines text).filter isLabelLine

theorem isLabelLine_render (i : Instruction) : isLabelLine i.render = i.isLabel := by
  unfold isLabelLine
  cases i with
  | address operand =>
      unfold Instruction.render
      rw [String.toList_append]
      rfl
  | label name =>
      unfold Instruction.render
      rw [String.toList_append, String.toList_append]
      rfl
  | compute dest comp jump =>
      -- no part of a computation is spelt with a parenthesis
      have hne : ∀ c ∈ computeChars dest comp jump, c ≠ '(' := by
        refine forall_mem_computeChars ?_ (by decide) (by decide) dest comp jump
        intro c hc
        rintro rfl
        revert hc
        decide
      rw [toList_render_compute]
      show (_ == _) = false
      rw [beq_eq_false_iff_ne]
      intro hhead
      exact hne '(' (List.mem_of_mem_head? hhead) rfl

theorem filter_render (code : List Instruction) :
    (code.map Instruction.render).filter isLabelLine
      = (labelNames code).map fun name => "(" ++ name ++ ")" := by
  induction code with
  | nil => rfl
  | cons i code ih =>
      have hline := isLabelLine_render i
      rw [List.map_cons]
      cases i with
      | label name => rw [List.filter_cons_of_pos hline, ih]; rfl
      | address operand | compute dest comp jump =>
          rw [List.filter_cons_of_neg (by rw [hline]; exact Bool.false_ne_true), ih]
          rfl

/-- A comment is no label line. -/
theorem filter_fragment_lines (f : Fragment) (annotated : Bool) :
    (f.lines annotated).filter isLabelLine
      = (labelNames f.code).map fun name => "(" ++ name ++ ")" := by
  unfold Fragment.lines
  cases annotated with
  | false => exact filter_render f.code
  | true =>
      have hcomment : isLabelLine ("// " ++ f.origin.render) = false := by
        unfold isLabelLine
        rw [String.toList_append]
        rfl
      show (("// " ++ f.origin.render) :: _).filter isLabelLine = _
      rw [List.filter_cons_of_neg (by rw [hcomment]; exact Bool.false_ne_true)]
      exact filter_render f.code

/-- A label that is reported as bound is defined at two places. -/
theorem definedAt_of_rebound {lines : List SourceLine}
    (hread : ∀ line ∈ lines, ∃ i, Instruction.read line.text = .ok i) {e : Located Asm.Fault}
    (h : assemble lines = .error e) {name : String} {address : Nat}
    (he : e.fault = .labelRebound name address) :
    DefinedAt lines name address ∧ ∃ b, DefinedAt lines name b ∧ address ≠ b := by
  rcases assemble_error_iff.mp h with hl | ⟨l, hl, hi⟩
  · obtain ⟨k, -, -, -, -, line, hline, hfault⟩ := firstFault_of_error hl
    have hlines := eq_take_cons_drop hline
    rw [he] at hfault
    cases hfault with
    | unreadable read =>
        obtain ⟨i, hi⟩ := hread line (List.mem_of_getElem? hline)
        rw [hi] at read
        cases read
    | rebound read free defined moved =>
        have hbefore := defined.append (line :: lines.drop (k + 1))
        rw [← hlines] at hbefore
        exact ⟨hbefore, _, ⟨_, line, _, hlines, read, rfl⟩, moved⟩
  · -- the second pass reports variables only
    obtain ⟨k, line, name', -, -, rfl⟩ := exhaustedAt_of_error hl hi
    cases he

/-- No label of a text is taken for another. -/
structure LabelsApart (text : String) : Prop where
  /-- The label lines are pairwise different. -/
  lines : (labelLines text).Nodup
  /-- No label is reported as bound already. -/
  bound : ∀ e, assemble (ofText text) = .error e → ∀ name address,
    e.fault ≠ .labelRebound name address

section
variable {file : String} {options : Options} {lines : List SourceLine} {l : Lowered}
  (hl : lowerFile file options lines = .ok l)
include hl

theorem labelLines_text :
    labelLines l.text = (labelNames l.code).map fun name => "(" ++ name ++ ")" := by
  unfold labelLines labelNames Lowered.code
  rw [rawLines_text hl]
  unfold Lowered.lines
  rw [List.filter_flatMap, List.filterMap_flatMap, List.map_flatMap]
  apply List.flatMap_congr
  intro f _
  exact filter_fragment_lines f l.annotated

theorem labelNames_code :
    labelNames l.code = (l.marks file).map (Mark.symbol (toSymbol file)) :=
  labelNames_flatMap (s := .start (toSymbol file)) (lowers_of_lowerFile hl)

/-- **The labels of a lowered file are pairwise different, and none is reported as bound, exactly
if no label of the source takes the name of another.** -/
theorem lowered_labels_apart : LabelsApart l.text ↔ NamesApart file l := by
  have hlabels : ∀ {name name' : String}, "(" ++ name ++ ")" = "(" ++ name' ++ ")" →
      name = name' := by
    intro name name' heq
    rw [String.append_left_inj, String.append_right_inj] at heq
    exact heq
  have hlines : (labelLines l.text).Nodup ↔ (labelNames l.code).Nodup := by
    rw [labelLines_text hl]
    exact ⟨fun h => h.of_map, fun h => h.map fun _ _ heq => hlabels heq⟩
  rw [← symbols_nodup_iff, ← labelNames_code hl]
  constructor
  · intro h
    exact hlines.mp h.lines
  · intro hnames
    refine ⟨hlines.mpr hnames, ?_⟩
    -- a label that is bound already would stand at two addresses
    intro e he name address hfault
    obtain ⟨ha, b, hb, hne⟩ := definedAt_of_rebound (readable_text hl) he hfault
    rw [definedAt_iff (readProgram_text hl)] at ha hb
    exact hne (ha.unique hnames hb)

end

instance (file : String) (l : Lowered) : Decidable (NamesApart file l) :=
  decidable_of_iff _ symbols_nodup_iff

/-- Labels of one name for three owners, names that continue another with a `$`, and names that
look like those of generated labels; no two of them meet. -/
def labelled : List SourceLine :=
  ofText ("label L\nfunction f 0\nlabel L\nfunction f$g 1\nlabel K\neq\nlabel ret.1\n"
    ++ "call f$g 0\nfunction M.CMP.0 0\nlabel L\nfunction M$init 0")

theorem lowered_labels_apart_labelled : ∃ l, lowerFile "M" ⟨true, true⟩ labelled = .ok l
    ∧ NamesApart "M" l ∧ (l.marks "M").length = 12 ∧ LabelsApart l.text := by
  have hrun : ((lowerFile "M" ⟨true, true⟩ labelled).toOption.map fun l =>
      decide (NamesApart "M" l ∧ (l.marks "M").length = 12)) = some true := by decide +kernel
  obtain ⟨l, hl, hchecks⟩ := exists_ok_of_map hrun
  obtain ⟨h, hlength⟩ := of_decide_eq_true hchecks
  exact ⟨l, hl, h, hlength, (lowered_labels_apart hl).mpr h⟩

/-! ## §6. Names that are mistaken. -/

/-- The labels of the source, each with the function that it stands in. -/
def sourceLabels (origins : List Origin) : List (Option String × String) :=
  origins.zipIdx.filterMap fun
    | (.command _ (.label name), i) => some (enclosing origins i, name)
    | _ => none

/-- The text is refused for a label that is bound already. -/
def isRebound : Except (Located Asm.Fault) Assembly → Bool
  | .error ⟨_, .labelRebound _ _⟩ => true
  | _ => false

/-- No function is defined twice, and no label twice in one function or before the first; and
still two label lines are the same, and the second is refused. -/
def Clash (file text : String) : Prop :=
  ∃ l, lowerFile file ⟨false, false⟩ (ofText text) = .ok l ∧ l.functions.Nodup
    ∧ (sourceLabels l.origins).Nodup ∧ ¬ (labelLines l.text).Nodup
    ∧ ∃ e name address, assemble (ofText l.text) = .error e ∧ e.fault = .labelRebound name address

/-- Whether the names of a file clash. -/
def clashes (file text : String) : Bool :=
  match lowerFile file ⟨false, false⟩ (ofText text) with
  | .error _ => false
  | .ok l =>
      decide (l.functions.Nodup ∧ (sourceLabels l.origins).Nodup
        ∧ ¬ (l.lines.filter isLabelLine).Nodup)
      && isRebound (assemble (SourceLine.ofRawLines l.lines))

theorem exists_of_isRebound {x : Except (Located Asm.Fault) Assembly} (h : isRebound x = true) :
    ∃ e name address, x = .error e ∧ e.fault = .labelRebound name address := by
  unfold isRebound at h
  split at h
  next line name address => exact ⟨⟨line, .labelRebound name address⟩, name, address, rfl, rfl⟩
  next => cases h

theorem clash_of_clashes {file text : String} (h : clashes file text = true) :
    Clash file text := by
  unfold clashes at h
  cases hl : lowerFile file ⟨false, false⟩ (ofText text) with
  | error _ => rw [hl] at h; cases h
  | ok l =>
      rw [hl] at h
      replace h : (_ && _) = true := h
      rw [Bool.and_eq_true, decide_eq_true_eq] at h
      obtain ⟨⟨hfunctions, hlabels, hlines⟩, hrebound⟩ := h
      rw [← rawLines_text hl] at hlines
      rw [← ofText_text hl] at hrebound
      exact ⟨l, hl, hfunctions, hlabels, hlines, exists_of_isRebound hrebound⟩

/-- Each of the ways in which a name can be read twice makes labels clash: a label named like
a return address; a function named like the file; a function named like a label; a label named
like one of a function that continues its own; a function named like the target of a
comparison; and a label named so in a file that continues the name of a function. -/
theorem names_clash :
    Clash "M" "function f 0\nlabel ret.0\ncall f 0"
      ∧ Clash "M" "label L\npush constant 0\nfunction M 0\nlabel L"
      ∧ Clash "M" "function f 0\nlabel L\npush constant 0\nfunction f$L 0"
      ∧ Clash "M" "function f 0\nlabel g$L\npush constant 0\nfunction f$g 0\nlabel L"
      ∧ Clash "M" "function M.CMP.0 0\neq"
      ∧ Clash "A$b" "function A 0\nlabel b.CMP.0\neq" := by
  refine ⟨?_, ?_, ?_, ?_, ?_, ?_⟩ <;> exact clash_of_clashes (by decide +kernel)

end HackPlatform.Vm
