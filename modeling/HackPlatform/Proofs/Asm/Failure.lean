/-
  HackPlatform.Proofs.Asm.Failure
  ────────────────────────────────
  **WHEN A PROGRAM IS REFUSED, AND FOR WHICH LINE.**

  A line is at fault for what it is or for what stands before it: it cannot be
  read, its label would name an address past the end of ROM, or its label names
  another address already.  The first such line is reported, and nothing behind it
  plays a part.  Only if there is none can the variables be too many; then the
  line is reported that loads the first one without a RAM address.

      FaultAfter        what is at fault with a line, by the lines before it
      FaultAt           the same, for the line at an index
      variablesBefore   the variables that are met before an index

  Main results:
    * `ofLines_of_firstFault`, the first pass stops at the first line at fault;
    * `exhaustedAt_of_error`, the second stops at the first variable too many;
    * `assemble_diagnosed`, both together, for a source text.
-/
import Mathlib.Data.Nat.Find
import HackPlatform.Proofs.Asm.Resolution
import HackPlatform.Proofs.Text

namespace HackPlatform.Asm

open SourceLine (ofText)

/-! ## §1. Lines at fault. -/

/-- The statements that lines read as; a line that cannot be read gives none. -/
def readProgram (lines : List SourceLine) : List Statement :=
  lines.filterMap fun line => (Instruction.read line.text).toOption.map (⟨line.number, ·⟩)

/-- The lines define a label behind that many instructions. -/
def DefinedAt (lines : List SourceLine) (name : String) (address : Nat) : Prop :=
  ∃ before line after, lines = before ++ line :: after
    ∧ Instruction.read line.text = .ok (.label name) ∧ codeSize (readProgram before) = address

/-- What is at fault with a line that stands behind others. -/
inductive FaultAfter (before : List SourceLine) (line : SourceLine) : Fault → Prop where
  /-- It cannot be read. -/
  | unreadable {fault : Fault} (read : Instruction.read line.text = .error fault) :
      FaultAfter before line fault
  /-- Its label stands behind more instructions than there are addresses. -/
  | pastEnd {name : String} (read : Instruction.read line.text = .ok (.label name))
      (free : isReserved name = false) (size : maxAddress < codeSize (readProgram before)) :
      FaultAfter before line (.labelPastEnd name)
  /-- Its label was defined behind another number of instructions. -/
  | rebound {name : String} {address : Nat} (read : Instruction.read line.text = .ok (.label name))
      (free : isReserved name = false) (defined : DefinedAt before name address)
      (moved : address ≠ codeSize (readProgram before)) :
      FaultAfter before line (.labelRebound name address)

/-- What is at fault with the line at an index. -/
def FaultAt (lines : List SourceLine) (k : Nat) (fault : Fault) : Prop :=
  ∃ line, lines[k]? = some line ∧ FaultAfter (lines.take k) line fault

/-- The line at an index is at fault, and no line before it is. -/
structure FirstFault (lines : List SourceLine) (k : Nat) : Prop where
  /-- There is a fault. -/
  fault : ∃ fault, FaultAt lines k fault
  /-- There is none before. -/
  first : ∀ j < k, ¬ ∃ fault, FaultAt lines j fault

/-- If lines are at fault, one of them is the first. -/
theorem exists_firstFault {lines : List SourceLine} (h : ∃ k fault, FaultAt lines k fault) :
    ∃ k, FirstFault lines k := by
  classical
  exact ⟨Nat.find h, Nat.find_spec h, fun _ hj => Nat.find_min h hj⟩

/-- A line that can be read can only misuse its label. -/
theorem FaultAfter.misuse {before : List SourceLine} {line : SourceLine} {fault : Fault}
    (h : FaultAfter before line fault) {i : Instruction}
    (hi : Instruction.read line.text = .ok i) : ∃ reason, fault.diagnosis = .misuse reason := by
  cases h with
  | unreadable read => rw [read] at hi; cases hi
  | pastEnd => exact ⟨_, rfl⟩
  | rebound => exact ⟨_, rfl⟩

/-- A line that cannot be read has no other fault. -/
theorem FaultAfter.eq_of_unread {before : List SourceLine} {line : SourceLine} {fault : Fault}
    (h : FaultAfter before line fault) {unread : Fault}
    (hunread : Instruction.read line.text = .error unread) : fault = unread := by
  cases h with
  | unreadable read => exact Except.error.inj (read.symm.trans hunread)
  | pastEnd read => rw [read] at hunread; cases hunread
  | rebound read => rw [read] at hunread; cases hunread

/-- Whether a line is at fault depends on the lines up to it. -/
theorem faultAt_take {lines : List SourceLine} {j k : Nat} (hj : j < k) {fault : Fault} :
    FaultAt (lines.take k) j fault ↔ FaultAt lines j fault := by
  unfold FaultAt
  rw [List.getElem?_take_of_lt hj, List.take_take, Nat.min_eq_left (Nat.le_of_lt hj)]

theorem faultAt_append {before after : List SourceLine} {line : SourceLine} {fault : Fault} :
    FaultAt (before ++ line :: after) before.length fault ↔ FaultAfter before line fault := by
  unfold FaultAt
  rw [List.getElem?_append_right (Nat.le_refl _), Nat.sub_self, List.take_left]
  simp

/-! ## §2. What lines read as. -/

theorem readProgram_append (lines more : List SourceLine) :
    readProgram (lines ++ more) = readProgram lines ++ readProgram more := List.filterMap_append

theorem readProgram_cons {line : SourceLine} {i : Instruction}
    (h : Instruction.read line.text = .ok i) (lines : List SourceLine) :
    readProgram (line :: lines) = ⟨line.number, i⟩ :: readProgram lines := by
  unfold readProgram
  rw [List.filterMap_cons_some (b := ⟨line.number, i⟩) (by rw [h]; rfl)]

/-- Lines that can all be read read as that program. -/
theorem ReadAs.readProgram_eq {lines : List SourceLine} {program : List Statement}
    (h : ReadAs lines program) : readProgram lines = program := by
  induction h with
  | nil => rfl
  | cons hline _ ih => rw [readProgram_cons hline.2, ih, ← hline.1]

theorem ReadAs.readable {lines : List SourceLine} {program : List Statement}
    (h : ReadAs lines program) : ∀ line ∈ lines, ∃ i, Instruction.read line.text = .ok i := by
  induction h with
  | nil => intro line hline; cases hline
  | cons hline _ ih => exact List.forall_mem_cons.mpr ⟨⟨_, hline.2⟩, ih⟩

/-- A statement is read from a line, those before it from the lines before. -/
theorem exists_of_readProgram {lines : List SourceLine} {before after : List Statement}
    {s : Statement} (h : readProgram lines = before ++ s :: after) :
    ∃ earlier line later, lines = earlier ++ line :: later ∧ readProgram earlier = before
      ∧ Instruction.read line.text = .ok s.instruction ∧ line.number = s.line := by
  obtain ⟨first, rest, rfl, hfirst, hrest⟩ := List.filterMap_eq_append_iff.mp h
  obtain ⟨skipped, line, later, rfl, hskipped, hline, -⟩ := List.filterMap_eq_cons_iff.mp hrest
  have hearlier : readProgram (first ++ skipped) = before := by
    have hnone : readProgram skipped = [] := List.filterMap_eq_nil_iff.mpr hskipped
    have hsome : readProgram first = before := hfirst
    rw [readProgram_append, hnone, List.append_nil, hsome]
  refine ⟨first ++ skipped, line, later, by rw [List.append_assoc], hearlier, ?_⟩
  cases hread : Instruction.read line.text with
  | error _ => rw [hread] at hline; cases hline
  | ok i => rw [hread] at hline; cases hline; exact ⟨rfl, rfl⟩

/-! ## §3. The first pass. -/

theorem laid_readProgram {lines : List SourceLine} {l : Layout}
    (h : Layout.ofLines .platform lines = .ok l) : Laid (readProgram lines) l := by
  obtain ⟨program, hread, hlaid⟩ := laid_of_ofLines h
  rwa [hread.readProgram_eq]

section
variable {before : List SourceLine} {l : Layout} (h : Layout.ofLines .platform before = .ok l)
include h

theorem lookup_of_definedAt {name : String} (hname : isReserved name = false) {address : Nat}
    (hdefined : DefinedAt before name address) : l.table.lookup name = some address := by
  obtain ⟨earlier, line, later, rfl, hread, rfl⟩ := hdefined
  have hlaid := laid_readProgram h
  rw [readProgram_append, readProgram_cons hread] at hlaid
  have hat := (hlaid.labels (readProgram earlier).length line.number name (by simp) hname).1
  rwa [List.take_left] at hat

/-- What is bound, besides the platform's symbols, are the labels of the lines. -/
theorem definedAt_of_lookup {name : String} (hname : isReserved name = false) {address : Nat}
    (hlookup : l.table.lookup name = some address) : DefinedAt before name address := by
  have hlaid := laid_readProgram h
  have hlabel : hasLabel (readProgram before) name = true := by
    by_contra hno
    rw [hlaid.others name hname (Bool.not_eq_true _ ▸ hno)] at hlookup
    cases hlookup
  obtain ⟨i, number, hi, -⟩ := exists_of_hasLabel hlabel
  have haddress := (hlaid.labels i number name hi hname).1
  obtain ⟨earlier, line, later, hlines, hearlier, hread, -⟩ :=
    exists_of_readProgram (eq_take_cons_drop hi)
  refine ⟨earlier, line, later, hlines, hread, ?_⟩
  rw [hearlier]
  exact Option.some.inj (haddress.symm.trans hlookup)

/-- A label that cannot be bound is at fault. -/
theorem faultAfter_of_bindLabel {line : SourceLine} {name : String} {fault : Fault}
    (hread : Instruction.read line.text = .ok (.label name))
    (hbind : l.bindLabel name = .error fault) : FaultAfter before line fault := by
  have hsize := (laid_readProgram h).size
  obtain ⟨hname, ⟨hgt, rfl⟩ | ⟨-, address, hlookup, hmoved, rfl⟩⟩ := bindLabel_eq_error_iff.mp hbind
  · exact .pastEnd hread hname (hsize ▸ hgt)
  · exact .rebound hread hname (definedAt_of_lookup h hname hlookup) (hsize ▸ hmoved)

/-- **A line that is not laid out is at fault.** -/
theorem faultAfter_of_addLine {line : SourceLine} {e : Located Fault}
    (hadd : l.addLine line = .error e) :
    e.line = line.number ∧ FaultAfter before line e.fault := by
  unfold Layout.addLine at hadd
  obtain ⟨fault, hfails, rfl⟩ := mapError_eq_error_iff.mp hadd
  refine ⟨rfl, ?_⟩
  rcases bind_eq_error_iff.mp hfails with hread | ⟨i, hread, hplace⟩
  · exact .unreadable hread
  · cases i with
    | address operand => cases hplace
    | compute dest comp jump => cases hplace
    | label name => exact faultAfter_of_bindLabel h hread hplace

/-- **A line at fault is not laid out.** -/
theorem FaultAfter.not_addLine {line : SourceLine} {fault : Fault}
    (hfault : FaultAfter before line fault) {l' : Layout} : l.addLine line ≠ .ok l' := by
  intro hadd
  obtain ⟨i, hread, hplace⟩ := addLine_ok hadd
  have hsize := (laid_readProgram h).size
  cases hfault with
  | unreadable read => rw [hread] at read; cases read
  | pastEnd read free size =>
      cases hread.symm.trans read
      rcases bindLabel_eq_ok_iff.mp hplace with ⟨hname, -⟩ | ⟨-, hroom, -⟩
      · rw [free] at hname; cases hname
      · exact absurd (hsize ▸ hroom) (Nat.not_le_of_gt size)
  | rebound read free defined moved =>
      cases hread.symm.trans read
      rcases bindLabel_eq_ok_iff.mp hplace with ⟨hname, -⟩ | ⟨-, -, table, hbind, -⟩
      · rw [free] at hname; cases hname
      · have hstays := (SymbolTable.bind_ok hbind).1 _ (lookup_of_definedAt h free defined)
        exact moved (hstays.trans hsize)

end

/-- Where the first pass succeeds, no line is at fault. -/
theorem not_faultAt_of_ok {lines : List SourceLine} {l : Layout}
    (h : Layout.ofLines .platform lines = .ok l) {k : Nat} {fault : Fault} :
    ¬ FaultAt lines k fault := by
  rintro ⟨line, hline, hfault⟩
  have hsplit := eq_take_cons_drop hline
  unfold Layout.ofLines at h
  rw [hsplit, List.foldlM_append] at h
  cases hbefore : (lines.take k).foldlM Layout.addLine ⟨.platform, #[]⟩ with
  | error _ => rw [hbefore] at h; cases h
  | ok l' =>
      rw [hbefore] at h
      replace h : (line :: lines.drop (k + 1)).foldlM Layout.addLine l' = .ok l := h
      rw [List.foldlM_cons] at h
      cases hadd : l'.addLine line with
      | error _ => rw [hadd] at h; cases h
      | ok _ => exact hfault.not_addLine hbefore hadd

/-- **Where the first pass fails, it is for the first line at fault.** -/
theorem firstFault_of_error {lines : List SourceLine} {e : Located Fault}
    (h : Layout.ofLines .platform lines = .error e) :
    ∃ k line, FirstFault lines k ∧ lines[k]? = some line ∧ e.line = line.number
      ∧ FaultAt lines k e.fault := by
  obtain ⟨before, line, after, l, rfl, hbefore, hadd⟩ := exists_of_foldlM_error h
  obtain ⟨hnumber, hfault⟩ := faultAfter_of_addLine hbefore hadd
  have hat : FaultAt (before ++ line :: after) before.length e.fault := faultAt_append.mpr hfault
  refine ⟨before.length, line, ⟨⟨_, hat⟩, ?_⟩, by simp, hnumber, hat⟩
  rintro j hj ⟨fault, hearlier⟩
  rw [← faultAt_take hj, List.take_left] at hearlier
  exact not_faultAt_of_ok hbefore hearlier

/-- **The first pass stops at the first line at fault, whatever follows it.** -/
theorem ofLines_of_firstFault {lines : List SourceLine} {k : Nat} (h : FirstFault lines k) :
    ∃ line fault, lines[k]? = some line ∧ FaultAt lines k fault
      ∧ ∀ more, Layout.ofLines .platform (lines.take (k + 1) ++ more)
          = .error ⟨line.number, fault⟩ := by
  obtain ⟨_, line, hline, hfault⟩ := h.fault
  cases hbefore : Layout.ofLines .platform (lines.take k) with
  | error e =>
      obtain ⟨j, _, hfirst, hat, -, hj⟩ := firstFault_of_error hbefore
      have hlt : j < k := by
        have := (List.getElem?_eq_some_iff.mp hat).1
        rw [List.length_take] at this
        omega
      exact absurd ⟨_, (faultAt_take hlt).mp hj⟩ (h.first j hlt)
  | ok l =>
      cases hadd : l.addLine line with
      | ok l' => exact absurd hadd (hfault.not_addLine hbefore)
      | error e =>
          obtain ⟨hnumber, hreported⟩ := faultAfter_of_addLine hbefore hadd
          refine ⟨line, e.fault, hline, ⟨line, hline, hreported⟩, fun more => ?_⟩
          rw [List.take_add_one, hline, List.append_assoc]
          have hstop := foldlM_error hbefore hadd more
          rw [← hnumber]
          exact hstop

/-! ## §4. The second pass. -/

/-- The variables of a program that are met on the lines before an index. -/
def variablesBefore (lines : List SourceLine) (k : Nat) : Finset String :=
  (((readProgram (lines.take k)).filterMap Statement.reference?).filter fun name =>
    !isReserved name && !hasLabel (readProgram lines) name).toFinset

/-- The line at an index loads a variable for which no RAM address is left. -/
structure ExhaustedAt (lines : List SourceLine) (k : Nat) (name : String) : Prop where
  /-- The line loads it. -/
  loads : ∃ line, lines[k]? = some line
    ∧ Instruction.read line.text = .ok (.address (.symbol name))
  /-- It is no symbol of the platform. -/
  free : isReserved name = false
  /-- It is no label. -/
  unbound : hasLabel (readProgram lines) name = false
  /-- It is met for the first time. -/
  fresh : name ∉ variablesBefore lines k
  /-- All addresses are taken. -/
  full : (variablesBefore lines k).card = maxVariables

theorem variablesBefore_length (lines : List SourceLine) :
    variablesBefore lines lines.length = (variableReferences (readProgram lines)).toFinset := by
  unfold variablesBefore variableReferences
  rw [List.take_length]

/-- One variable more makes them too many. -/
theorem ExhaustedAt.lt_card {lines : List SourceLine} {k : Nat} {name : String}
    (h : ExhaustedAt lines k name) : maxVariables < (variablesBefore lines lines.length).card := by
  obtain ⟨line, hline, hread⟩ := h.loads
  have hsplit := eq_take_cons_drop hline
  have hreference : (⟨line.number, .address (.symbol name)⟩ : Statement).reference? = some name :=
    rfl
  have hall : (readProgram lines).filterMap Statement.reference?
      = (readProgram (lines.take k)).filterMap Statement.reference?
        ++ name :: (readProgram (lines.drop (k + 1))).filterMap Statement.reference? := by
    conv_lhs => rw [hsplit]
    rw [readProgram_append, readProgram_cons hread, List.filterMap_append,
      List.filterMap_cons_some hreference]
  have hsubset : insert name (variablesBefore lines k) ⊆ variablesBefore lines lines.length := by
    intro n hn
    have hfree := h.free
    have hunbound := h.unbound
    rw [variablesBefore_length]
    unfold variableReferences
    rw [hall]
    unfold variablesBefore at hn
    simp only [Finset.mem_insert, List.mem_toFinset, List.mem_filter, List.mem_append,
      List.mem_cons] at hn ⊢
    rcases hn with rfl | ⟨hmem, hvariable⟩
    · simp [hfree, hunbound]
    · exact ⟨.inl hmem, hvariable⟩
  have hcard := Finset.card_le_card hsubset
  rw [Finset.card_insert_of_notMem h.fresh, h.full] at hcard
  omega

/-- Encoding a statement keeps the table or resolves an operand. -/
theorem table_of_addStatement {img img' : Image} {s : Statement}
    (h : img.addStatement s = .ok img') :
    img'.table = img.table ∨ ∃ name v, img.table.resolve name = some (v, img'.table) := by
  unfold Image.addStatement Image.encode at h
  split at h
  · cases h; exact .inl rfl
  · next name _ =>
    cases hres : img.table.resolve name with
    | none => rw [hres] at h; cases h
    | some p => rw [hres] at h; cases h; exact .inr ⟨name, p.1, hres⟩
  · cases h; exact .inl rfl
  · cases h; exact .inl rfl

/-- A statement is not encoded only if its operand cannot be resolved. -/
theorem addStatement_error {img : Image} {s : Statement} {e : Located Fault}
    (h : img.addStatement s = .error e) :
    ∃ name, s.instruction = .address (.symbol name) ∧ img.table.resolve name = none
      ∧ e = ⟨s.line, .ramExhausted name⟩ := by
  unfold Image.addStatement Image.encode at h
  split at h
  · cases h
  · next name hs =>
    cases hres : img.table.resolve name with
    | none => rw [hres] at h; cases h; exact ⟨name, hs, hres, rfl⟩
    | some p => rw [hres] at h; cases h
  · cases h
  · cases h

/-- The next address is at most the first that is none. -/
theorem nextVariable_le {base : SymbolTable} (hbase : base.nextVariable ≤ maxAddress + 1)
    {statements : List Statement} {img : Image}
    (h : Image.ofStatements base statements = .ok img) :
    img.table.nextVariable ≤ maxAddress + 1 := by
  refine inv_of_foldlM (fun _ img => img.table.nextVariable ≤ maxAddress + 1) ?_ hbase h
  intro _ img s img' hle hadd
  rcases table_of_addStatement hadd with hsame | ⟨name, v, hres⟩
  · rwa [hsame]
  · rcases SymbolTable.resolve_some hres with ⟨-, hsame⟩ | ⟨-, -, hv, -, hnext⟩
    · rwa [hsame]
    · rw [hnext]
      omega

section
variable {lines : List SourceLine} {l : Layout} (hl : Layout.ofLines .platform lines = .ok l)
include hl

/-- **Where the second pass fails, it is for the first variable without an address.** -/
theorem exhaustedAt_of_error {e : Located Fault}
    (h : Image.ofStatements l.table l.statements.toList = .error e) :
    ∃ k line name, ExhaustedAt lines k name ∧ lines[k]? = some line
      ∧ e = ⟨line.number, .ramExhausted name⟩ := by
  have hlaid := laid_readProgram hl
  obtain ⟨done, s, after, img, hsplit, hdone, hadd⟩ := exists_of_foldlM_error h
  obtain ⟨name, hs, hres, rfl⟩ := addStatement_error hadd
  obtain ⟨hnone, hgt⟩ := SymbolTable.resolve_none hres
  have hencoded := encoded_of_ofStatements hdone
  have hle := nextVariable_le (hlaid.next.le.trans (by decide)) hdone
  -- the statement among all that were read, and its line
  rw [hlaid.placed] at hsplit
  obtain ⟨first, rest, hprogram, hfirst, hrest⟩ := List.filter_eq_append_iff.mp hsplit
  obtain ⟨labels, later, rfl, hlabels, -, -⟩ := List.filter_eq_cons_iff.mp hrest
  rw [← List.append_assoc] at hprogram
  obtain ⟨earlier, line, behind, hlines, hearlier, hread, hnumber⟩ :=
    exists_of_readProgram hprogram
  have hline : lines[earlier.length]? = some line := by rw [hlines]; simp
  have htake : lines.take earlier.length = earlier := by rw [hlines]; exact List.take_left
  have hcode : (first ++ labels).filter Statement.isCode = done := by
    rw [List.filter_append, hfirst, List.filter_eq_nil_iff.mpr hlabels, List.append_nil]
  have hnew : variablesBefore lines earlier.length = (newReferences l.table done).toFinset := by
    unfold variablesBefore
    rw [htake, hearlier, ← hcode, hlaid.newReferences_filter]
  -- the operand has no value, so the first pass gave it none either
  have hbase : l.table.lookup name = none := by
    cases hb : l.table.lookup name with
    | none => rfl
    | some v => rw [hencoded.kept name v hb] at hnone; cases hnone
  have hvariable := hlaid.isNone_lookup name
  rw [hbase, Option.isNone_none, eq_comm, Bool.and_eq_true, Bool.not_eq_true', Bool.not_eq_true']
    at hvariable
  refine ⟨earlier.length, line, name, ⟨⟨line, hline, hs ▸ hread⟩, hvariable.1, hvariable.2, ?_, ?_⟩,
    hline, by rw [hnumber]⟩
  · rw [hnew, List.mem_toFinset]
    intro hmem
    have hvalue := hencoded.fresh name hbase
    rw [if_pos hmem, hnone] at hvalue
    cases hvalue
  · have hnext := hencoded.next
    rw [hlaid.next] at hnext
    rw [hnew]
    unfold maxVariables
    omega

/-- Where the second pass succeeds, the variables are not too many. -/
theorem card_variables_le {img : Image}
    (h : Image.ofStatements l.table l.statements.toList = .ok img) :
    (variablesBefore lines lines.length).card ≤ maxVariables := by
  have hlaid := laid_readProgram hl
  have hnext := (encoded_of_ofStatements h).next
  have hle := nextVariable_le (hlaid.next.le.trans (by decide)) h
  rw [hlaid.newReferences_eq, hlaid.next] at hnext
  rw [variablesBefore_length]
  unfold maxVariables
  omega

end

/-! ## §5. Both passes. -/

/-- Assembling fails where one of the passes does. -/
theorem assemble_error_iff {lines : List SourceLine} {e : Located Fault} :
    assemble lines = .error e ↔ Layout.ofLines .platform lines = .error e
      ∨ ∃ l, Layout.ofLines .platform lines = .ok l
        ∧ Image.ofStatements l.table l.statements.toList = .error e := by
  unfold assemble
  rw [bind_eq_error_iff]
  -- the first pass fails, or it succeeds and the second one fails
  refine or_congr Iff.rfl (exists_congr fun l => and_congr_right fun _ => ?_)
  rw [bind_eq_error_iff]
  constructor
  · rintro (himage | ⟨img, -, h⟩)
    · exact himage
    · cases h
  · exact .inl

/-- Assembling fails iff a line is at fault, or none is and the variables are too many. -/
theorem exists_error_iff (lines : List SourceLine) :
    (∃ e, assemble lines = .error e) ↔ (∃ k fault, FaultAt lines k fault)
      ∨ (¬ ∃ k fault, FaultAt lines k fault)
        ∧ maxVariables < (variablesBefore lines lines.length).card := by
  cases hl : Layout.ofLines .platform lines with
  | error e =>
      obtain ⟨k, -, -, -, -, hfault⟩ := firstFault_of_error hl
      exact iff_of_true ⟨e, assemble_error_iff.mpr (.inl hl)⟩ (.inl ⟨k, _, hfault⟩)
  | ok l =>
      have hnone : ¬ ∃ k fault, FaultAt lines k fault := by
        rintro ⟨k, fault, hfault⟩
        exact not_faultAt_of_ok hl hfault
      cases hi : Image.ofStatements l.table l.statements.toList with
      | error e =>
          obtain ⟨k, line, name, hexhausted, -, -⟩ := exhaustedAt_of_error hl hi
          exact iff_of_true ⟨e, assemble_error_iff.mpr (.inr ⟨l, hl, hi⟩)⟩
            (.inr ⟨hnone, hexhausted.lt_card⟩)
      | ok img =>
          have hcard := card_variables_le hl hi
          refine iff_of_false ?_ ?_
          · rintro ⟨e, he⟩
            simp [assemble_error_iff, hl, hi] at he
          · rintro (hfault | ⟨-, hmany⟩)
            · exact hnone hfault
            · exact Nat.not_lt_of_le hcard hmany

/-- Lines that can all be read can only be refused for the misuse of a symbol. -/
theorem misuse_of_readable {lines : List SourceLine}
    (hread : ∀ line ∈ lines, ∃ i, Instruction.read line.text = .ok i) {e : Located Fault}
    (h : assemble lines = .error e) : ∃ reason, e.fault.diagnosis = .misuse reason := by
  rcases assemble_error_iff.mp h with hl | ⟨l, hl, hi⟩
  · obtain ⟨k, line, -, hline, -, line', hline', hfault⟩ := firstFault_of_error hl
    obtain ⟨i, hi⟩ := hread line' (List.mem_of_getElem? hline')
    exact hfault.misuse hi
  · obtain ⟨k, line, name, -, -, rfl⟩ := exhaustedAt_of_error hl hi
    exact ⟨_, rfl⟩

/-- Where no line is at fault, the first variable too many is reported. -/
theorem assemble_of_exhausted {lines : List SourceLine}
    (hnone : ¬ ∃ k fault, FaultAt lines k fault)
    (hmany : maxVariables < (variablesBefore lines lines.length).card) :
    ∃ k line name, ExhaustedAt lines k name ∧ lines[k]? = some line
      ∧ assemble lines = .error ⟨line.number, .ramExhausted name⟩ := by
  obtain ⟨e, he⟩ := (exists_error_iff lines).mpr (.inr ⟨hnone, hmany⟩)
  rcases assemble_error_iff.mp he with hl | ⟨l, hl, hi⟩
  · obtain ⟨k, -, -, -, -, hfault⟩ := firstFault_of_error hl
    exact absurd ⟨k, _, hfault⟩ hnone
  · obtain ⟨k, line, name, hexhausted, hline, rfl⟩ := exhaustedAt_of_error hl hi
    exact ⟨k, line, name, hexhausted, hline, he⟩

/-- What is reported about a text. -/
structure Diagnosed (text : String) : Prop where
  /-- There is an error iff a line is at fault, or none is and the variables are too many. -/
  fails_iff : (∃ e, assemble (ofText text) = .error e) ↔
    (∃ k fault, FaultAt (ofText text) k fault)
      ∨ (¬ ∃ k fault, FaultAt (ofText text) k fault)
        ∧ maxVariables < (variablesBefore (ofText text) (ofText text).length).card
  /-- The number of a line is where it stands in the text, counted from 1. -/
  numbers : ∀ (k : Nat) (line : SourceLine), (ofText text)[k]? = some line → 0 < line.number
    ∧ ∃ raw, (rawLines text)[line.number - 1]? = some raw ∧ cleanLine raw = some line.text
  /-- If lines are at fault the first of them is reported, whatever follows it: the fault in
  reading it if it cannot be read, else the misuse of its label. -/
  first : (∃ k fault, FaultAt (ofText text) k fault) → ∃ (k : Nat) (line : SourceLine)
    (fault : Fault), FirstFault (ofText text) k ∧ (ofText text)[k]? = some line
      ∧ FaultAt (ofText text) k fault
      ∧ (∀ unread, Instruction.read line.text = .error unread → fault = unread)
      ∧ (∀ i, Instruction.read line.text = .ok i → ∃ reason, fault.diagnosis = .misuse reason)
      ∧ ∀ text', (rawLines text').take line.number = (rawLines text).take line.number →
          assemble (ofText text') = .error ⟨line.number, fault⟩
  /-- If no line is at fault, the first variable too many is reported where it is first met. -/
  exhausted : (¬ ∃ k fault, FaultAt (ofText text) k fault) →
    maxVariables < (variablesBefore (ofText text) (ofText text).length).card →
      ∃ (k : Nat) (line : SourceLine) (name : String), ExhaustedAt (ofText text) k name
        ∧ (ofText text)[k]? = some line
        ∧ assemble (ofText text) = .error ⟨line.number, .ramExhausted name⟩
        ∧ ∃ reason, (Fault.ramExhausted name).diagnosis = .misuse reason

/-- **Assembling a text fails exactly when it should, for the line that it should.** -/
theorem assemble_diagnosed (text : String) : Diagnosed text where
  fails_iff := exists_error_iff _
  numbers := by
    intro k line hline
    rw [SourceLine.ofText_eq] at hline
    obtain ⟨i, raw, hnumber, hraw, hcode, -⟩ := SourceLine.exists_raw hline
    have hindex : line.number - 1 = i := by omega
    exact ⟨by omega, raw, by rw [hindex, hraw], hcode⟩
  first := by
    intro hexists
    obtain ⟨k, hfirst⟩ := exists_firstFault hexists
    obtain ⟨line, fault, hline, hfault, hstop⟩ := ofLines_of_firstFault hfirst
    obtain ⟨line', hline', hafter⟩ := hfault
    cases hline.symm.trans hline'
    refine ⟨k, line, fault, hfirst, hline, ⟨line, hline, hafter⟩, ?_,
      fun i hi => hafter.misuse hi, ?_⟩
    · exact fun unread hunread => hafter.eq_of_unread hunread
    · intro text' hsame
      obtain ⟨more, hmore⟩ := SourceLine.ofText_of_take_eq hline hsame
      rw [hmore]
      exact assemble_error_iff.mpr (.inl (hstop more))
  exhausted := by
    intro hnone hmany
    obtain ⟨k, line, name, hexhausted, hline, herror⟩ := assemble_of_exhausted hnone hmany
    exact ⟨k, line, name, hexhausted, hline, herror, _, rfl⟩

-- the label of the fifth line has moved, so the sixth is not looked at
example : (match assemble (ofText "@1\n\n(X) // here\n@2\n(X)\nD=Q") with
    | .error e => e == ⟨5, .labelRebound "X" 1⟩
    | .ok _ => false) = true := by decide +kernel

end HackPlatform.Asm
