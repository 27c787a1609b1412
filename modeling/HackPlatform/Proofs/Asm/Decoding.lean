/-
  HackPlatform.Proofs.Asm.Decoding
  ────────────────────────────────
  **WORDS ARE READ BACK: the `.hack` text tells the whole program.**

  A word that starts with a 0 loads the number made of its other bits; one that
  starts with 111 computes, and its fields are the bits of one computation, one
  destination and one jump.  No other words are written.  So a `.hack` text can be
  decoded line by line, and what comes out is the program as it was resolved: each
  symbol has become the number that the final table gives it.

      Word.StandsFor        the fields of a word are the bits of an instruction
      Word.decode?          the instruction that a word stands for
      decodeText?           the instructions of a `.hack` text
      Assembly.resolved?    the statements, each symbol replaced by its value
      listing               instructions written out as assembly again

  Main results:
    * `decode?_eq_some_iff`, a word stands for one instruction at most;
    * `ofBinary?_toBinary`, a word is read back from its digits;
    * `assemble_decodes`, a program is decoded from its text.
-/
import HackPlatform.Proofs.Asm.Resolution

namespace HackPlatform.Asm

open Text

/-! ## §1. Fields. -/

/-- The computation with these bits. -/
def Comp.ofBits? (bits : BitVec 7) : Option Comp := all.find? (·.bits == bits)

/-- The jump with these bits. -/
def Jump.ofBits? (bits : BitVec 3) : Option Jump := (never :: spelt).find? (·.bits == bits)

/-- The destination with these bits. -/
def Dest.ofBits (bits : BitVec 3) : Dest := ⟨bits.getLsbD 2, bits.getLsbD 1, bits.getLsbD 0⟩

theorem Comp.ofBits?_bits (comp : Comp) : Comp.ofBits? comp.bits = some comp := by
  cases comp with
  | zero | one | minusOne | d | notD | negD | dPlusOne | dMinusOne => rfl
  | y src | notY src | negY src | yPlusOne src | yMinusOne src
  | dPlusY src | dMinusY src | yMinusD src | dAndY src | dOrY src => cases src <;> rfl

/-- **The bits of computations are all different.** -/
theorem Comp.ofBits?_eq_some_iff {bits : BitVec 7} {comp : Comp} :
    Comp.ofBits? bits = some comp ↔ comp.bits = bits := by
  constructor
  · intro h
    have hfound := List.find?_some (p := fun c : Comp => c.bits == bits) h
    exact beq_iff_eq.mp hfound
  · rintro rfl
    exact comp.ofBits?_bits

theorem Jump.ofBits?_eq_some_iff {bits : BitVec 3} {jump : Jump} :
    Jump.ofBits? bits = some jump ↔ jump.bits = bits := by
  constructor
  · intro h
    have hfound := List.find?_some (p := fun j : Jump => j.bits == bits) h
    exact beq_iff_eq.mp hfound
  · rintro rfl
    cases jump <;> rfl

theorem Dest.ofBits_eq_iff {bits : BitVec 3} {dest : Dest} :
    Dest.ofBits bits = dest ↔ dest.bits = bits := by
  constructor
  · rintro rfl
    revert bits
    decide
  · rintro rfl
    obtain ⟨a, d, m⟩ := dest
    cases a <;> cases d <;> cases m <;> rfl

/-! ## §2. Words. -/

/-- The fields of a word are the bits of an instruction: a 0 and the number, or 111 and the bits
of what is computed, where it goes and when to jump. -/
def Word.StandsFor (w : Word) : Instruction → Prop
  | .address (.literal value) => w.extractLsb' 15 1 = 0b0#1 ∧ (w.extractLsb' 0 15).toNat = value
  | .compute dest comp jump =>
      w.extractLsb' 13 3 = 0b111#3 ∧ comp.bits = w.extractLsb' 6 7
        ∧ dest.bits = w.extractLsb' 3 3 ∧ jump.bits = w.extractLsb' 0 3
  | _ => False

/-- The instruction that a word stands for, if it stands for one. -/
def Word.decode? (w : Word) : Option Instruction :=
  if w.extractLsb' 15 1 = 0b0#1 then some (.address (.literal (w.extractLsb' 0 15).toNat))
  else if w.extractLsb' 13 3 = 0b111#3 then do
    let comp ← Comp.ofBits? (w.extractLsb' 6 7)
    let jump ← Jump.ofBits? (w.extractLsb' 0 3)
    return .compute (.ofBits (w.extractLsb' 3 3)) comp jump
  else none

namespace Word

/-- Three leading ones are not one leading zero. -/
theorem not_zero_of_ones {w : Word} (h : w.extractLsb' 13 3 = 0b111#3) :
    w.extractLsb' 15 1 ≠ 0b0#1 := by
  intro hzero
  have hone : w.getLsbD 15 = true := by
    simpa [BitVec.getLsbD_extractLsb'] using congrArg (fun bits => bits.getLsbD 2) h
  have hnone : w.getLsbD 15 = false := by
    simpa [BitVec.getLsbD_extractLsb'] using congrArg (fun bits => bits.getLsbD 0) hzero
  rw [hone] at hnone
  cases hnone

/-- **A word stands for one instruction at most**, which is the one that is decoded. -/
theorem decode?_eq_some_iff {w : Word} {i : Instruction} :
    w.decode? = some i ↔ w.StandsFor i := by
  unfold decode?
  by_cases hzero : w.extractLsb' 15 1 = 0b0#1
  -- a leading 0: a number is loaded, and a compute word would have a 1 there
  · rw [if_pos hzero]
    constructor
    · intro h
      cases h
      exact ⟨hzero, rfl⟩
    · intro h
      cases i with
      | address operand =>
          cases operand with
          | literal value => rw [h.2]
          | symbol name => exact h.elim
      | compute dest comp jump => exact absurd hzero (not_zero_of_ones h.1)
      | label name => exact h.elim
  -- a leading 1: three of them, and each field has the bits of one part
  · rw [if_neg hzero]
    constructor
    · intro h
      split at h
      next hones =>
        obtain ⟨comp, hcomp, h⟩ := Option.bind_eq_some_iff.mp h
        obtain ⟨jump, hjump, h⟩ := Option.bind_eq_some_iff.mp h
        cases h
        exact ⟨hones, Comp.ofBits?_eq_some_iff.mp hcomp, Dest.ofBits_eq_iff.mp rfl,
          Jump.ofBits?_eq_some_iff.mp hjump⟩
      next => cases h
    · intro h
      cases i with
      | address operand =>
          cases operand with
          | literal value => exact absurd h.1 hzero
          | symbol name => exact h.elim
      | compute dest comp jump =>
          obtain ⟨hones, hcomp, hdest, hjump⟩ := h
          rw [if_pos hones, Comp.ofBits?_eq_some_iff.mpr hcomp, Jump.ofBits?_eq_some_iff.mpr hjump,
            Dest.ofBits_eq_iff.mpr hdest]
          rfl
      | label name => exact h.elim

/-- The word of a compute instruction stands for it. -/
theorem compute_standsFor (dest : Dest) (comp : Comp) (jump : Jump) :
    (compute dest comp jump).StandsFor (.compute dest comp jump) :=
  ⟨compute_ones dest comp jump, (compute_comp dest comp jump).symm,
    (compute_dest_bits dest comp jump).symm, (compute_jump dest comp jump).symm⟩

/-- The word that loads a number of 15 bits stands for that. -/
theorem address_standsFor {value : Nat} (h : value ≤ maxAddress) :
    (address value).StandsFor (.address (.literal value)) := by
  have hzero : (address value).extractLsb' 15 1 = 0b0#1 := by
    apply BitVec.eq_of_getLsbD_eq
    intro i hi
    rw [BitVec.getLsbD_extractLsb', show 15 + i = 15 by omega, address_high, Bool.and_false]
    simp
  refine ⟨hzero, ?_⟩
  rw [BitVec.extractLsb'_toNat, toNat_address h, Nat.shiftRight_zero]
  unfold maxAddress at h
  exact Nat.mod_eq_of_lt (by omega)

end Word

/-! ## §3. Digits. -/

/-- The value of a binary digit. -/
def binaryDigit? : Char → Option Nat
  | '0' => some 0
  | '1' => some 1
  | _ => none

/-- The number that is written in binary, behind the digits of `n`. -/
def readBinaryFrom (n : Nat) (cs : List Char) : Option Nat :=
  cs.foldlM (fun n c => (binaryDigit? c).map (2 * n + ·)) n

/-- The word that sixteen binary digits write. -/
def Word.ofBinary? (line : String) : Option Word :=
  if line.length = 16 then (readBinaryFrom 0 line.toList).map (BitVec.ofNat 16) else none

/-- The instructions of a `.hack` text, if each of its lines is the word of one. -/
def decodeText? (text : String) : Option (List Instruction) :=
  (rawLines text).mapM fun line => (Word.ofBinary? line).bind Word.decode?

namespace Word

/-- The first digits of a word write its number without the lower bits. -/
theorem readBinaryFrom_digits (w : Word) {k : Nat} (hk : k ≤ 16) :
    readBinaryFrom 0 ((List.range k).map fun i => if w.getMsbD i then '1' else '0')
      = some (w.toNat >>> (16 - k)) := by
  unfold readBinaryFrom
  induction k with
  | zero =>
      have hnone : w.toNat >>> 16 = 0 := by
        rw [Nat.shiftRight_eq_div_pow]
        exact Nat.div_eq_of_lt w.isLt
      rw [Nat.sub_zero, hnone]
      rfl
  | succ k ih =>
      rw [List.range_succ, List.map_append, List.foldlM_append, ih (by omega)]
      -- what is left of the number has the next digit as its last one
      have hbit : w.getMsbD k = decide (w.toNat >>> (15 - k) % 2 = 1) := by
        rw [BitVec.getMsbD_eq_getLsbD, decide_eq_true (by omega), Bool.true_and,
          Nat.shiftRight_eq_div_pow, ← Nat.testBit_eq_decide_div_mod_eq]
        rfl
      have hhalf : w.toNat >>> (16 - k) = w.toNat >>> (15 - k) / 2 := by
        rw [show 16 - k = 15 - k + 1 by omega, Nat.shiftRight_succ]
      rw [hhalf, show 16 - (k + 1) = 15 - k by omega, List.map_singleton, hbit]
      generalize w.toNat >>> (15 - k) = rest
      by_cases hodd : rest % 2 = 1
      · rw [decide_eq_true hodd]
        show some (2 * (rest / 2) + 1) = some rest
        congr 1
        omega
      · rw [decide_eq_false hodd]
        show some (2 * (rest / 2) + 0) = some rest
        congr 1
        omega

theorem length_toBinary (w : Word) : w.toBinary.length = 16 := by
  show (String.ofList w.digits).length = 16
  rw [String.length_ofList, digits, List.length_map, List.length_range]

theorem mem_toBinary {w : Word} {c : Char} (h : c ∈ w.toBinary.toList) : c = '0' ∨ c = '1' := by
  rw [toBinary, String.toList_ofList] at h
  obtain ⟨i, -, rfl⟩ := List.mem_map.mp h
  split
  · exact .inr rfl
  · exact .inl rfl

/-- **A word is read back from its digits.** -/
theorem ofBinary?_toBinary (w : Word) : Word.ofBinary? w.toBinary = some w := by
  have hread := w.readBinaryFrom_digits (Nat.le_refl 16)
  rw [Nat.sub_self, Nat.shiftRight_zero] at hread
  unfold ofBinary?
  rw [if_pos w.length_toBinary, toBinary, String.toList_ofList, digits, hread, Option.map_some,
    BitVec.ofNat_toNat, BitVec.setWidth_eq]

end Word

/-- A text of words has their digits as its lines. -/
theorem Assembly.rawLines_text (asm : Assembly) : rawLines asm.text = asm.words.map Word.toBinary := by
  have htext : asm.text = String.join ((asm.words.map Word.toBinary).map (· ++ "\n")) := by
    rw [List.map_map]
    rfl
  rw [htext]
  apply rawLines_join
  intro line hline hnewline
  obtain ⟨w, -, rfl⟩ := List.mem_map.mp hline
  rcases Word.mem_toBinary hnewline with h | h <;> cases h

theorem Assembly.decodeText?_text (asm : Assembly) :
    decodeText? asm.text = asm.words.mapM Word.decode? := by
  unfold decodeText?
  rw [asm.rawLines_text, List.mapM_map]
  congr 1
  funext w
  show (Word.ofBinary? w.toBinary).bind Word.decode? = _
  rw [Word.ofBinary?_toBinary, Option.bind_some]

/-! ## §4. Resolved instructions. -/

/-- The instruction with its symbol replaced by the value that a table gives it. -/
def Instruction.resolved? (table : SymbolTable) : Instruction → Option Instruction
  | .address (.symbol name) => (table.lookup name).map fun value => .address (.literal value)
  | i => some i

/-- The statements of an assembly, each symbol replaced by its value in the final table. -/
def Assembly.resolved? (asm : Assembly) : Option (List Instruction) :=
  asm.statements.mapM fun s => s.instruction.resolved? asm.table

/-- Nothing is left to resolve: a number of 15 bits is loaded, or something is computed. -/
def Instruction.Resolved : Instruction → Prop
  | .address (.literal value) => value ≤ maxAddress
  | .compute _ _ _ => True
  | _ => False

theorem Instruction.Resolved.wellSpelt {i : Instruction} (h : i.Resolved) : i.WellSpelt := by
  cases i with
  | address operand =>
      cases operand with
      | literal value => exact h
      | symbol name => exact h.elim
  | compute dest comp jump => trivial
  | label name => exact h.elim

/-- A resolved instruction and its word, each of which gives the other, whatever the table. -/
structure Coded (r : Instruction) (w : Word) : Prop where
  /-- Nothing is left to resolve. -/
  resolved : r.Resolved
  /-- The instruction is encoded as the word. -/
  encoded : ∀ table, r.word? table = some w
  /-- The word is decoded to the instruction. -/
  decoded : w.decode? = some r

theorem coded_address {value : Nat} (h : value ≤ maxAddress) :
    Coded (.address (.literal value)) (.address value) where
  resolved := h
  encoded _ := rfl
  decoded := Word.decode?_eq_some_iff.mpr (Word.address_standsFor h)

theorem coded_compute (dest : Dest) (comp : Comp) (jump : Jump) :
    Coded (.compute dest comp jump) (.compute dest comp jump) where
  resolved := trivial
  encoded _ := rfl
  decoded := Word.decode?_eq_some_iff.mpr (Word.compute_standsFor dest comp jump)

/-- A statement that has a word is resolved to what the word stands for. -/
theorem exists_resolved {table : SymbolTable}
    (hsmall : ∀ name v, table.lookup name = some v → v ≤ maxAddress) {i : Instruction}
    (hspelt : i.WellSpelt) {w : Word} (hw : i.word? table = some w) :
    ∃ r, i.resolved? table = some r ∧ Coded r w := by
  cases i with
  | address operand =>
      cases operand with
      | literal value =>
          cases hw
          exact ⟨_, rfl, coded_address hspelt⟩
      | symbol name =>
          -- the value is the table's, so it fits in 15 bits and its word stands for it
          obtain ⟨value, hvalue, rfl⟩ := Option.map_eq_some_iff.mp hw
          refine ⟨.address (.literal value), ?_, coded_address (hsmall name value hvalue)⟩
          show (table.lookup name).map _ = _
          rw [hvalue]
          rfl
  | compute dest comp jump =>
      cases hw
      exact ⟨_, rfl, coded_compute dest comp jump⟩
  | label name => cases hw

section
variable {α β γ : Type} {xs : List α} {ys : List β} {zs : List γ}

/-- A list is mapped if each item is. -/
theorem exists_mapM {f : α → Option γ} {P : γ → β → Prop}
    (h : List.Forall₂ (fun x y => ∃ z, f x = some z ∧ P z y) xs ys) :
    ∃ zs, xs.mapM f = some zs ∧ List.Forall₂ P zs ys := by
  induction h with
  | nil => exact ⟨[], rfl, .nil⟩
  | cons hxy _ ih =>
      obtain ⟨z, hf, hz⟩ := hxy
      obtain ⟨zs, hfs, hzs⟩ := ih
      refine ⟨z :: zs, ?_, .cons hz hzs⟩
      rw [List.mapM_cons, hf, hfs]
      rfl

theorem mapM_of_forall₂ {g : β → Option γ}
    (h : List.Forall₂ (fun z y => g y = some z) zs ys) : ys.mapM g = some zs := by
  induction h with
  | nil => rfl
  | cons hz _ ih =>
      rw [List.mapM_cons, hz, ih]
      rfl

end

/-- **An assembly resolves to instructions whose words are its own.** -/
theorem Assembled.exists_code {program : List Statement} {asm : Assembly}
    (h : Assembled program asm) (hspelt : ∀ s ∈ program, s.instruction.WellSpelt) :
    ∃ code, asm.resolved? = some code ∧ List.Forall₂ Coded code asm.words := by
  apply exists_mapM
  have hwords : List.Forall₂ (fun s w => s.instruction.word? asm.table = some w)
      asm.statements asm.words := by
    have heq : List.Forall₂ (· = ·) (asm.statements.map (·.instruction.word? asm.table))
        (asm.words.map some) := by
      rw [List.forall₂_eq_eq_eq]
      exact h.words.symm
    rwa [List.forall₂_map_left_iff, List.forall₂_map_right_iff] at heq
  refine List.forall₂_iff_zip.mpr ⟨hwords.length_eq, ?_⟩
  intro s w hsw
  have hs : s ∈ program.filter Statement.isCode := h.statements ▸ (List.of_mem_zip hsw).1
  exact exists_resolved h.small (hspelt s (List.mem_of_mem_filter hs))
    ((List.forall₂_iff_zip.mp hwords).2 hsw)

/-! ## §5. Resolved instructions assembled again. -/

/-- Instructions written out, one a line. -/
def listing (code : List Instruction) : String :=
  String.join ((code.map Instruction.render).map (· ++ "\n"))

/-- Written out, well-spelt instructions are read as themselves. -/
theorem readAs_render {code : List Instruction} (h : ∀ i ∈ code, i.WellSpelt) (n : Nat) :
    ∃ program, ReadAs (SourceLine.ofRawLinesFrom n (code.map Instruction.render)) program
      ∧ program.map (·.instruction) = code := by
  induction code generalizing n with
  | nil => exact ⟨[], .nil, rfl⟩
  | cons i code ih =>
      obtain ⟨program, hread, hcode⟩ := ih (fun j hj => h j (List.mem_cons_of_mem i hj)) (n + 1)
      have hi := h i List.mem_cons_self
      refine ⟨⟨n + 1, i⟩ :: program, ?_, by rw [List.map_cons, hcode]⟩
      rw [List.map_cons, SourceLine.ofRawLinesFrom_some n _ (cleanLine_render hi)]
      exact .cons ⟨rfl, read_render hi⟩ hread

theorem readAs_listing {code : List Instruction} (h : ∀ i ∈ code, i.WellSpelt) :
    ∃ program, ReadAs (SourceLine.ofText (listing code)) program
      ∧ program.map (·.instruction) = code := by
  have hlines : rawLines (listing code) = code.map Instruction.render := by
    apply rawLines_join
    intro line hline
    obtain ⟨i, hi, rfl⟩ := List.mem_map.mp hline
    exact newline_not_mem_of_plain (isPlain_render (h i hi))
  rw [SourceLine.ofText_eq, hlines]
  exact readAs_render h 0

/-- What is resolved is placed as it stands. -/
theorem addLine_of_resolved {line : SourceLine} {s : Statement}
    (hline : s.line = line.number ∧ Instruction.read line.text = .ok s.instruction)
    (h : s.instruction.Resolved) (l : Layout) :
    l.addLine line = .ok { l with statements := l.statements.push s } := by
  obtain ⟨number, i⟩ := s
  obtain ⟨rfl, hread⟩ := hline
  have hplace : l.place line.number i
      = .ok { l with statements := l.statements.push ⟨line.number, i⟩ } := by
    cases i with
    | address operand | compute dest comp jump => rfl
    | label name => exact h.elim
  unfold Layout.addLine
  rw [hread]
  show (l.place line.number i).mapError _ = _
  rw [hplace]
  rfl

theorem foldlM_addLine_of_resolved {lines : List SourceLine} {program : List Statement}
    (hread : ReadAs lines program) (h : ∀ s ∈ program, s.instruction.Resolved) (l : Layout) :
    lines.foldlM Layout.addLine l = .ok { l with statements := l.statements ++ program.toArray } := by
  induction hread generalizing l with
  | nil => simp [pure, Except.pure]
  | @cons line s lines program hline _ ih =>
      rw [List.foldlM_cons, addLine_of_resolved hline (h s List.mem_cons_self)]
      show lines.foldlM Layout.addLine _ = _
      rw [ih fun s hs => h s (List.mem_cons_of_mem _ hs)]
      simp

/-- What is resolved has its word, and the table plays no part. -/
theorem addStatement_of_coded {s : Statement} {w : Word} (h : Coded s.instruction w)
    (img : Image) : img.addStatement s = .ok (img.push w) := by
  have hresolved := h.resolved
  have hword := h.encoded img.table
  unfold Image.addStatement
  cases hi : s.instruction with
  | address operand =>
      rw [hi] at hresolved hword
      cases operand with
      | literal value =>
          cases hword
          rfl
      | symbol name => exact hresolved.elim
  | compute dest comp jump =>
      rw [hi] at hword
      cases hword
      rfl
  | label name =>
      rw [hi] at hresolved
      exact hresolved.elim

theorem foldlM_addStatement_of_coded {program : List Statement} {words : List Word}
    (h : List.Forall₂ (fun s w => Coded s.instruction w) program words) (img : Image) :
    program.foldlM Image.addStatement img
      = .ok { img with words := img.words ++ words.toArray } := by
  induction h generalizing img with
  | nil => simp [pure, Except.pure]
  | @cons s w program words hsw _ ih =>
      rw [List.foldlM_cons, addStatement_of_coded hsw]
      show program.foldlM Image.addStatement (img.push w) = _
      rw [ih]
      simp [Image.push]

/-- **Resolved instructions are assembled to their words.** -/
theorem assemble_listing {code : List Instruction} {words : List Word}
    (h : List.Forall₂ Coded code words) :
    ∃ asm, assemble (SourceLine.ofText (listing code)) = .ok asm ∧ asm.words = words := by
  have hboth : List.Forall₂ (fun r w => r.Resolved ∧ Coded r w) code words :=
    h.imp fun r w hrw => ⟨hrw.resolved, hrw⟩
  obtain ⟨hresolved, -⟩ := (List.forall₂_and_left _ _).mp hboth
  obtain ⟨program, hread, hcode⟩ := readAs_listing fun r hr => (hresolved r hr).wellSpelt
  subst hcode
  rw [List.forall₂_map_left_iff] at h
  have hlayout := foldlM_addLine_of_resolved hread
    (fun s hs => hresolved _ (List.mem_map_of_mem hs)) ⟨.platform, #[]⟩
  have himage := foldlM_addStatement_of_coded h ⟨.platform, #[]⟩
  refine ⟨⟨program, words, .platform⟩, ?_, rfl⟩
  unfold assemble Layout.ofLines Image.ofStatements
  -- no label is bound and no variable allocated, so the table is the platform's throughout
  rw [hlayout]
  simp only [bind, Except.bind, Array.empty_append, List.toList_toArray, himage, pure, Except.pure]

/-! ## §6. The text tells the program. -/

/-- What a `.hack` text tells of the program it was made from. -/
structure Decodes (asm : Assembly) (code : List Instruction) : Prop where
  /-- The instructions are the statements, with the values that the final table gives their
  symbols. -/
  resolved : asm.resolved? = some code
  /-- Every line of the text is closed. -/
  closed : asm.text = String.join ((rawLines asm.text).map (· ++ "\n"))
  /-- There is one line for each statement. -/
  count : (rawLines asm.text).length = asm.statements.length
  /-- It has sixteen binary digits. -/
  digits : ∀ line ∈ rawLines asm.text, line.length = 16 ∧ ∀ c ∈ line.toList, c = '0' ∨ c = '1'
  /-- Read as a number, it stands for the instruction and for no other. -/
  stands : List.Forall₂ (fun line i => ∃ w, Word.ofBinary? line = some w ∧ w.StandsFor i
    ∧ ∀ j, w.StandsFor j → j = i) (rawLines asm.text) code
  /-- So the text is decoded to the instructions. -/
  decoded : decodeText? asm.text = some code
  /-- Written out, they are assembled to the same words again. -/
  again : ∃ asm', assemble (SourceLine.ofText (listing code)) = .ok asm' ∧ asm'.words = asm.words
  /-- Whatever else has this text resolves to the same instructions. -/
  told : ∀ lines' asm', assemble lines' = .ok asm' → asm'.text = asm.text →
    asm'.resolved? = some code

/-- An assembly resolves to what its text is decoded to. -/
theorem exists_decoded {lines : List SourceLine} {asm : Assembly} (h : assemble lines = .ok asm) :
    ∃ code, asm.resolved? = some code ∧ decodeText? asm.text = some code
      ∧ List.Forall₂ Coded code asm.words := by
  obtain ⟨program, hread, hasm⟩ := assembled_of_assemble h
  obtain ⟨code, hresolved, hcoded⟩ := hasm.exists_code hread.wellSpelt
  refine ⟨code, hresolved, ?_, hcoded⟩
  rw [asm.decodeText?_text]
  exact mapM_of_forall₂ (hcoded.imp fun r w hrw => hrw.decoded)

/-- **Whatever assembles is decoded from its text**, and assembles from there to the same words
again. -/
theorem assemble_decodes {lines : List SourceLine} {asm : Assembly}
    (h : assemble lines = .ok asm) : ∃ code, Decodes asm code := by
  obtain ⟨code, hresolved, hdecoded, hcoded⟩ := exists_decoded h
  have hstatements : asm.words.length = asm.statements.length := by
    obtain ⟨program, -, hasm⟩ := assembled_of_assemble h
    exact (map_some_eq_map hasm.words).1
  have hlines := asm.rawLines_text
  refine ⟨code, hresolved, ?_, ?_, ?_, ?_, hdecoded, assemble_listing hcoded, ?_⟩
  · rw [hlines, List.map_map]
    rfl
  · rw [hlines, List.length_map, hstatements]
  · intro line hline
    rw [hlines] at hline
    obtain ⟨w, -, rfl⟩ := List.mem_map.mp hline
    exact ⟨w.length_toBinary, fun c hc => Word.mem_toBinary hc⟩
  · rw [hlines, List.forall₂_map_left_iff]
    refine hcoded.flip.imp fun w i hiw => ⟨w, w.ofBinary?_toBinary, ?_, ?_⟩
    · exact Word.decode?_eq_some_iff.mp hiw.decoded
    · intro j hj
      have hboth := (Word.decode?_eq_some_iff.mpr hj).symm.trans hiw.decoded
      exact Option.some.inj hboth
  · intro lines' asm' h' htext
    -- the other assembly resolves to what the same text is decoded to
    obtain ⟨code', hresolved', hdecoded', -⟩ := exists_decoded h'
    rw [htext, hdecoded] at hdecoded'
    rw [hresolved', ← hdecoded']

theorem assemble_decodes_mixed :
    ∃ asm, assemble mixedSource = .ok asm
      ∧ asm.resolved?.map listing = some "@8\n@16\nD=M\n@2\n@17\n@16\n@1\n0;JMP\n"
      ∧ ∃ code, Decodes asm code := by
  have hrun : ((assemble mixedSource).toOption.map fun asm => asm.resolved?.map listing)
      = some (some "@8\n@16\nD=M\n@2\n@17\n@16\n@1\n0;JMP\n") := by decide +kernel
  obtain ⟨asm, h, hlisting⟩ := exists_ok_of_map hrun
  exact ⟨asm, h, hlisting, assemble_decodes h⟩

end HackPlatform.Asm
