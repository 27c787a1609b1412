/-
  HackPlatform.Proofs.Asm.Repetition
  ────────────────────────────────
  **THE PASSES REPEATED: a second run finds nothing left to do.**

  A pass only adds to the table it starts from.  So whatever a line was answered on
  the way, the table at the end answers too: a label is bound where it is asked to
  be, an operand has the address it was given.  Run once more from a table that
  holds all this, the pass takes the same lines to the same result and adds nothing.
  That is said of every table that extends the last one, since an induction over the
  lines meets the tables in between.

      withTable u      the state of a pass, with `u` in place of its table
      NewApart         names that are new to a table have different values

  Main results:
    * `addLine_again`, `addStatement_again`, one step met again;
    * `ofLines_again`, `ofStatements_again`, a whole pass met again;
    * `passes_repeat`, what each pass does to its table, and the second run.
-/
import HackPlatform.Proofs.Asm.Resolution
import HackPlatform.Proofs.Asm.TableRun

namespace HackPlatform.Asm

/-! ## §1. The first pass. -/

namespace Layout

/-- The layout, with another table. -/
def withTable (u : SymbolTable) (l : Layout) : Layout := { l with table := u }

/-- A label that was bound is bound already in any table that extends the one after it. -/
theorem bindLabel_again {l l' : Layout} {u : SymbolTable} {name : String}
    (h : l.bindLabel name = .ok l') (hu : l'.table.Extends u) :
    l.table.Extends u ∧ (l.withTable u).bindLabel name = .ok (l'.withTable u) := by
  rcases bindLabel_eq_ok_iff.mp h with ⟨hname, rfl⟩ | ⟨hname, hsize, table, hbind, rfl⟩
  · exact ⟨hu, bindLabel_eq_ok_iff.mpr (.inl ⟨hname, rfl⟩)⟩
  · obtain ⟨-, hlookup, -⟩ := SymbolTable.bind_ok hbind
    have hbound : u.lookup name = some l.statements.size :=
      hu _ _ ((hlookup name).trans (if_pos rfl))
    have hagain : u.bind name l.statements.size = .ok u := by
      rw [SymbolTable.bind_of_some hbound, if_pos rfl]
    exact ⟨(SymbolTable.extends_bind hbind).trans hu,
      bindLabel_eq_ok_iff.mpr (.inr ⟨hname, hsize, u, hagain, rfl⟩)⟩

/-- **A line that was laid out is laid out so again.** -/
theorem addLine_again {l l' : Layout} {u : SymbolTable} {line : SourceLine}
    (h : l.addLine line = .ok l') (hu : l'.table.Extends u) :
    l.table.Extends u ∧ (l.withTable u).addLine line = .ok (l'.withTable u) := by
  obtain ⟨i, hread, hplace⟩ := addLine_ok h
  suffices hagain : l.table.Extends u
      ∧ (l.withTable u).place line.number i = .ok (l'.withTable u) by
    refine ⟨hagain.1, mapError_eq_ok_iff.mpr ?_⟩
    rw [hread]
    exact hagain.2
  cases i with
  | address operand =>
      cases hplace
      exact ⟨hu, rfl⟩
  | compute dest comp jump =>
      cases hplace
      exact ⟨hu, rfl⟩
  | label name => exact bindLabel_again hplace hu

/-- A line takes no address for a variable. -/
theorem nextVariable_addLine {l l' : Layout} {line : SourceLine} (h : l.addLine line = .ok l') :
    l'.table.nextVariable = l.table.nextVariable := by
  obtain ⟨i, -, hplace⟩ := addLine_ok h
  cases i with
  | address operand => cases hplace; rfl
  | compute dest comp jump => cases hplace; rfl
  | label name =>
      rcases bindLabel_eq_ok_iff.mp hplace with ⟨-, rfl⟩ | ⟨-, -, table, hbind, rfl⟩
      · rfl
      · exact (SymbolTable.bind_ok hbind).2.2

section
variable {table : SymbolTable} {lines : List SourceLine} {l : Layout}
  (h : ofLines table lines = .ok l)
include h

/-- **Lines that were laid out are laid out so again, from any table that has their
labels.** -/
theorem ofLines_again {u : SymbolTable} (hu : l.table.Extends u) :
    table.Extends u ∧ ofLines u lines = .ok (l.withTable u) :=
  foldlM_again (fun l => l.table.Extends u) (withTable u)
    (fun _ _ _ hadd hu => addLine_again hadd hu) h hu

/-- Laying out takes no address for a variable. -/
theorem nextVariable_ofLines : l.table.nextVariable = table.nextVariable :=
  inv_of_foldlM (fun _ l => l.table.nextVariable = table.nextVariable)
    (fun _ _ _ _ hsame hadd => (nextVariable_addLine hadd).trans hsame) rfl h

end

end Layout

/-! ## §2. The second pass. -/

namespace Image

/-- The image, with another table. -/
def withTable (u : SymbolTable) (img : Image) : Image := { img with table := u }

/-- **A statement that was encoded is encoded so again.** -/
theorem addStatement_again {img img' : Image} {u : SymbolTable} {s : Statement}
    (h : img.addStatement s = .ok img') (hu : img'.table.Extends u) :
    img.table.Extends u ∧ (img.withTable u).addStatement s = .ok (img'.withTable u) := by
  have hencode : img.encode s.instruction = .ok img' := mapError_eq_ok_iff.mp h
  suffices hagain : img.table.Extends u
      ∧ (img.withTable u).encode s.instruction = .ok (img'.withTable u) from
    ⟨hagain.1, mapError_eq_ok_iff.mpr hagain.2⟩
  generalize s.instruction = i at hencode
  cases i with
  | compute dest comp jump =>
      cases hencode
      exact ⟨hu, rfl⟩
  | label name =>
      cases hencode
      exact ⟨hu, rfl⟩
  | address operand =>
      cases operand with
      | literal value =>
          cases hencode
          exact ⟨hu, rfl⟩
      | symbol name =>
          obtain ⟨v, t, hresolve, rfl⟩ := encode_symbol_eq_ok_iff.mp hencode
          obtain ⟨hgrows, hv⟩ := SymbolTable.extends_resolve hresolve
          have hagain : u.resolve name = some (v, u) := SymbolTable.resolve_of_some (hu name v hv)
          exact ⟨hgrows.trans hu, encode_symbol_eq_ok_iff.mpr ⟨v, u, hagain, rfl⟩⟩

/-- **Statements that were encoded are encoded so again, from any table that has their
operands.** -/
theorem ofStatements_again {table u : SymbolTable} {statements : List Statement} {img : Image}
    (h : ofStatements table statements = .ok img) (hu : img.table.Extends u) :
    table.Extends u ∧ ofStatements u statements = .ok (img.withTable u) :=
  foldlM_again (fun img => img.table.Extends u) (withTable u)
    (fun _ _ _ hadd hu => addStatement_again hadd hu) h hu

end Image

/-- Names that have a value in the second table, and none in the first, have different values. -/
def SymbolTable.NewApart (t t' : SymbolTable) : Prop :=
  ∀ x y v, t.lookup x = none → t.lookup y = none → t'.lookup x = some v → t'.lookup y = some v →
    x = y

/-- Operands that are new to a table are told apart by the number of new ones before them. -/
theorem Encoded.newApart {base : SymbolTable} {statements : List Statement} {img : Image}
    (h : Encoded base statements img) : base.NewApart img.table := by
  -- a name with a value now was met, and its value counts those that were met before it
  have hmet : ∀ n v, base.lookup n = none → img.table.lookup n = some v →
      n ∈ newReferences base statements ∧ v = base.nextVariable
        + ((newReferences base statements).takeWhile (· != n)).toFinset.card := by
    intro n v hnew hv
    have hfresh := h.fresh n hnew
    rw [hv] at hfresh
    by_cases hmem : n ∈ newReferences base statements
    · rw [if_pos hmem] at hfresh
      exact ⟨hmem, Option.some.inj hfresh⟩
    · rw [if_neg hmem] at hfresh
      cases hfresh
  intro x y v hx hy hxv hyv
  obtain ⟨hxmem, hxcount⟩ := hmet x v hx hxv
  obtain ⟨hymem, hycount⟩ := hmet y v hy hyv
  exact card_takeWhile_inj hxmem hymem (Nat.add_left_cancel (hxcount.symm.trans hycount))

/-! ## §3. Both passes. -/

/-- **Each pass extends its table and, run on what it left, leaves just that again.**  The table
may be any, so it may be one that labels and variables have been put into in any order, and the
statements need not come from any lines. -/
theorem passes_repeat (table : SymbolTable) :
    (∀ lines l, Layout.ofLines table lines = .ok l →
      table.Extends l.table ∧ l.table.nextVariable = table.nextVariable
        ∧ Layout.ofLines l.table lines = .ok l)
    ∧ ∀ statements img, Image.ofStatements table statements = .ok img →
      table.Extends img.table ∧ table.NewApart img.table
        ∧ Image.ofStatements img.table statements = .ok img := by
  constructor
  · intro lines l h
    obtain ⟨hgrows, hagain⟩ := Layout.ofLines_again h (.refl l.table)
    exact ⟨hgrows, Layout.nextVariable_ofLines h, hagain⟩
  · intro statements img h
    obtain ⟨hgrows, hagain⟩ := Image.ofStatements_again h (.refl img.table)
    exact ⟨hgrows, (encoded_of_ofStatements h).newApart, hagain⟩

/-- A table in use: a label at 1, a label where no ROM address is, and a variable that has the
address of another label. -/
def usedTable : SymbolTable :=
  tableAfter [.bind "LOOP" 1, .bind "far" 40000, .bind "END" 16, .resolve "a"]

/-- A label that is bound already, a new one, a shadowed one, and references to all. -/
def usedLines : List SourceLine :=
  SourceLine.ofText "@b\n(LOOP)\n(R1)\n@far // no jump\n(NEW)\n@NEW"

/-- Built by hand: a label, a number that is too large, new names and old ones. -/
def usedStatements : List Statement :=
  [⟨1, .label "c"⟩, ⟨2, .address (.literal 40000)⟩, ⟨3, .address (.symbol "b")⟩,
    ⟨4, .address (.symbol "a")⟩, ⟨5, .address (.symbol "c")⟩, ⟨6, .address (.symbol "b")⟩]

theorem passes_repeat_used :
    (∃ l, Layout.ofLines usedTable usedLines = .ok l
      ∧ l.table.lookup "NEW" = some 2 ∧ usedTable.Extends l.table
      ∧ Layout.ofLines l.table usedLines = .ok l)
    ∧ ∃ img, Image.ofStatements usedTable usedStatements = .ok img
      ∧ img.words.toList.map BitVec.toNat = [7232, 17, 16, 18, 17]
      ∧ usedTable.NewApart img.table
      ∧ Image.ofStatements img.table usedStatements = .ok img := by
  have hlines : ((Layout.ofLines usedTable usedLines).toOption.map fun l => l.table.lookup "NEW")
      = some (some 2) := by decide +kernel
  have hstatements : ((Image.ofStatements usedTable usedStatements).toOption.map fun img =>
      img.words.toList.map BitVec.toNat) = some [7232, 17, 16, 18, 17] := by decide +kernel
  obtain ⟨l, hl, hnew⟩ := exists_ok_of_map hlines
  obtain ⟨img, himg, hwords⟩ := exists_ok_of_map hstatements
  obtain ⟨hfirst, hsecond⟩ := passes_repeat usedTable
  obtain ⟨hgrows, -, hagain⟩ := hfirst usedLines l hl
  obtain ⟨-, hapart, hagain'⟩ := hsecond usedStatements img himg
  exact ⟨⟨l, hl, hnew, hgrows, hagain⟩, img, himg, hwords, hapart, hagain'⟩

end HackPlatform.Asm
