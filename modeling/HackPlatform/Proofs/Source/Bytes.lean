/-
  HackPlatform.Proofs.Source.Bytes
  ────────────────────────────────
  **A FILE READ BYTE BY BYTE: the lines of its bytes are those of its text.**

  A file is cut at the newline byte before anything is decoded, a text is cut at its
  newlines.  No character but the newline holds the newline byte when it is encoded,
  so both cuts are at the same places:

      bytes   ──cut──▶   lines of bytes   ──decode each──▶   lines of characters
      bytes   ──decode──▶   text          ──cut──▶           lines of characters

  If the bytes are no UTF-8 as a whole, some line of them is none either, since valid
  lines make valid bytes again when they are closed.  Carriage returns need no rule of
  their own: at the end of a line they are blanks, or belong to its comment.

      bytesOf            the UTF-8 encoding of characters
      ReturnsDropped     raw lines, some without the carriage return that ended them

  Main results:
    * `linesBy_encoded`, cutting an encoded text;
    * `valid_of_rawLinesOf?`, valid lines make valid bytes;
    * `bytes_read_as_text`, the lines of a file.
-/
import Mathlib.Data.List.Basic
import Mathlib.Data.List.Forall2
import HackPlatform.Proofs.Text

namespace HackPlatform

namespace Text

/-! ## §1. Cutting, encoded or not. -/

/-- **An encoded text is cut where the text is**, if what closes a line is encoded by what closes
one, and nothing else by anything that holds it. -/
theorem linesBy_encoded {α β : Type} {stop : α → Bool} {stop' : β → Bool} {close : α} {close' : β}
    {encode : α → List β} (hstop : ∀ x, stop x = true ↔ x = close) (hclose : encode close = [close'])
    (hstop' : stop' close' = true)
    (hother : ∀ x, stop x = false → encode x ≠ [] ∧ ∀ y ∈ encode x, stop' y = false)
    (xs : List α) :
    linesBy stop' (xs.flatMap encode) = (linesBy stop xs).map (·.flatMap encode) := by
  obtain ⟨lines, last, hlines, hlast, rfl⟩ := exists_lines hstop xs
  have hencoded : ∀ line : List α, (∀ x ∈ line, stop x = false) →
      ∀ y ∈ line.flatMap encode, stop' y = false := by
    intro line hline y hy
    obtain ⟨x, hx, hy⟩ := List.mem_flatMap.mp hy
    exact (hother x (hline x hx)).2 y hy
  have hsplit : (lines.flatMap (· ++ [close]) ++ last).flatMap encode
      = (lines.map (·.flatMap encode)).flatMap (· ++ [close']) ++ last.flatMap encode := by
    rw [List.flatMap_append, List.flatMap_assoc, List.flatMap_map]
    congr 2
    funext line
    rw [List.flatMap_append, List.flatMap_singleton, hclose]
  have hempty : (last.flatMap encode).isEmpty = last.isEmpty := by
    cases last with
    | nil => rfl
    | cons x last => simp [(hother x (hlast x List.mem_cons_self)).1]
  rw [hsplit, linesBy_closed hstop' (List.forall_mem_map.mpr fun l hl => hencoded l (hlines l hl)),
    linesBy_closed ((hstop close).mpr rfl) hlines, linesBy_open (hencoded last hlast),
    linesBy_open hlast, hempty, List.map_append]
  congr 1
  split <;> rfl

/-! ## §2. Bytes. -/

/-- The UTF-8 encoding of characters. -/
def bytesOf (cs : List Char) : List UInt8 := cs.flatMap String.utf8EncodeChar

/-- Only the newline is encoded with the newline byte. -/
theorem newline_not_mem_utf8EncodeChar {c : Char} (h : c ≠ '\n') :
    ∀ b ∈ String.utf8EncodeChar c, (b == (0x0A : UInt8)) = false := by
  have hcode : c.val.toNat ≠ 10 := fun he => h (Char.ext (UInt32.toNat_inj.mp he))
  have hne : ∀ n, n % 256 ≠ 10 → (UInt8.ofNat n == (0x0A : UInt8)) = false := by
    intro n hn
    rw [beq_eq_false_iff_ne]
    exact fun he => hn (congrArg UInt8.toNat he)
  -- one byte below 128 is the code itself, and all bytes of longer encodings are above it
  intro b hb
  unfold String.utf8EncodeChar at hb
  simp only at hb
  split at hb
  · obtain rfl := List.mem_singleton.mp hb
    exact hne _ (by omega)
  · split at hb
    · simp only [List.mem_cons, List.not_mem_nil, or_false] at hb
      rcases hb with rfl | rfl <;> exact hne _ (by omega)
    · split at hb
      · simp only [List.mem_cons, List.not_mem_nil, or_false] at hb
        rcases hb with rfl | rfl | rfl <;> exact hne _ (by omega)
      · simp only [List.mem_cons, List.not_mem_nil, or_false] at hb
        rcases hb with rfl | rfl | rfl | rfl <;> exact hne _ (by omega)

/-- Encoded characters are cut where the characters are. -/
theorem linesBy_bytesOf (cs : List Char) :
    linesBy (· == (0x0A : UInt8)) (bytesOf cs) = (linesBy (· == '\n') cs).map bytesOf := by
  have hnewline : String.utf8EncodeChar '\n' = [0x0A] := by decide
  refine linesBy_encoded (fun _ => beq_iff_eq) hnewline (by decide) ?_ cs
  intro c hc
  exact ⟨String.utf8EncodeChar_ne_nil,
    newline_not_mem_utf8EncodeChar (beq_eq_false_iff_ne.mp hc)⟩

/-- Bytes are what a list of them says. -/
theorem eq_iff_data_toList {bytes bytes' : ByteArray} :
    bytes = bytes' ↔ bytes.data.toList = bytes'.data.toList := by
  rw [Array.toList_inj]
  exact ⟨congrArg ByteArray.data, ByteArray.ext⟩

theorem data_utf8Encode (cs : List Char) : cs.utf8Encode.data.toList = bytesOf cs :=
  List.toList_data_toByteArray

theorem data_toByteArray (text : String) : text.toByteArray.data.toList = bytesOf text.toList := by
  rw [← data_utf8Encode, ← String.toByteArray_ofList, String.ofList_toList]

/-- A newline byte at the end of encoded characters is a newline. -/
theorem exists_of_concat_newline {bytes : List UInt8} {cs : List Char}
    (h : bytes ++ [0x0A] = bytesOf cs) : ∃ front, bytes = bytesOf front := by
  rcases List.eq_nil_or_concat cs with rfl | ⟨front, c, rfl⟩
  · exact absurd (congrArg List.length h) (by simp [bytesOf])
  · have hsplit : bytes ++ [0x0A] = bytesOf front ++ String.utf8EncodeChar c := by
      rw [h]
      simp [bytesOf]
    by_cases hc : c = '\n'
    · subst hc
      exact ⟨front, (List.append_inj' hsplit rfl).1⟩
    · -- no other character ends with that byte
      have hlast : (String.utf8EncodeChar c).getLast? = some 0x0A := by
        rw [← List.getLast?_append_of_ne_nil (bytesOf front) String.utf8EncodeChar_ne_nil, ← hsplit]
        exact List.getLast?_concat
      have hbyte := newline_not_mem_utf8EncodeChar hc _ (List.mem_of_mem_getLast? hlast)
      cases hbyte

/-- Bytes are valid iff they are those of some characters. -/
theorem isValidUTF8_iff {bytes : ByteArray} :
    bytes.IsValidUTF8 ↔ ∃ cs, bytes.data.toList = bytesOf cs := by
  constructor
  · rintro ⟨cs, rfl⟩
    exact ⟨cs, data_utf8Encode cs⟩
  · rintro ⟨cs, hcs⟩
    exact ⟨cs, eq_iff_data_toList.mpr (hcs.trans (data_utf8Encode cs).symm)⟩

/-- Bytes are decoded to the text whose bytes they are. -/
theorem fromUTF8?_eq_some_iff {bytes : ByteArray} {text : String} :
    String.fromUTF8? bytes = some text ↔ bytes.data.toList = bytesOf text.toList := by
  rw [← data_toByteArray, ← eq_iff_data_toList]
  unfold String.fromUTF8?
  constructor
  · intro h
    split at h
    · cases h
      rfl
    · cases h
  · rintro rfl
    rw [dif_pos text.isValidUTF8]
    rfl

end Text

open Text

/-! ## §3. The lines of a file. -/

/-- A list is mapped to what is mapped back to it, if that is so of each item. -/
theorem mapM_eq_some_iff {α β : Type} {f : α → Option β} {g : β → α}
    (h : ∀ x y, f x = some y ↔ x = g y) {xs : List α} {ys : List β} :
    xs.mapM f = some ys ↔ xs = ys.map g := by
  induction xs generalizing ys with
  | nil =>
      rw [List.mapM_nil]
      cases ys <;> simp
  | cons x xs ih =>
      rw [List.mapM_cons]
      cases ys with
      | nil =>
          cases hx : f x with
          | none => simp
          | some y => cases xs.mapM f <;> simp
      | cons y ys =>
          rw [List.map_cons, List.cons.injEq, ← h, ← ih]
          cases f x with
          | none => simp
          | some y' => cases xs.mapM f <;> simp

namespace SourceLine

/-- The raw lines of a file, each decoded alone. -/
def rawLinesOf? (bytes : ByteArray) : Option (List String) :=
  (linesBy (· == (0x0A : UInt8)) bytes.data.toList).mapM fun line =>
    String.fromUTF8? ⟨line.toArray⟩

theorem ofBytes?_eq (bytes : ByteArray) : ofBytes? bytes = (rawLinesOf? bytes).map ofRawLines := rfl

/-- Raw lines are those of a file iff the lines of its bytes are their bytes. -/
theorem rawLinesOf?_eq_some_iff {bytes : ByteArray} {raws : List String} :
    rawLinesOf? bytes = some raws ↔
      linesBy (· == (0x0A : UInt8)) bytes.data.toList = raws.map fun raw => bytesOf raw.toList :=
  mapM_eq_some_iff fun _ _ => fromUTF8?_eq_some_iff

/-- **The raw lines of a file are those of its text.** -/
theorem rawLinesOf?_of_text {bytes : ByteArray} {text : String}
    (h : bytes.data.toList = bytesOf text.toList) : rawLinesOf? bytes = some (rawLines text) := by
  unfold rawLines
  rw [rawLinesOf?_eq_some_iff, h, linesBy_bytesOf, List.map_map]
  apply List.map_congr_left
  intro line _
  show bytesOf line = bytesOf (String.ofList line).toList
  rw [String.toList_ofList]

/-- **A file whose lines are valid is valid as a whole.** -/
theorem valid_of_rawLinesOf? {bytes : ByteArray} {raws : List String}
    (h : rawLinesOf? bytes = some raws) : bytes.IsValidUTF8 := by
  rw [rawLinesOf?_eq_some_iff] at h
  -- closed again, the lines are the bytes of the raw lines, each with a newline
  have hclosed : (linesBy (· == (0x0A : UInt8)) bytes.data.toList).flatMap (· ++ [0x0A])
      = bytesOf (raws.flatMap fun raw => raw.toList ++ ['\n']) := by
    unfold bytesOf at h ⊢
    rw [h, List.flatMap_map, List.flatMap_assoc]
    congr 1
    funext raw
    rw [List.flatMap_append]
    rfl
  rw [isValidUTF8_iff]
  rcases closed_linesBy (fun b => beq_iff_eq (a := b)) bytes.data.toList with hall | hlast
  · exact ⟨_, hall.trans hclosed⟩
  · exact exists_of_concat_newline (hlast.trans hclosed)

/-- The second lines are the first, some of them without the carriage return that they ended
with.  So they are when a carriage return counts as a part of the newline behind it, and also
when the last line may lose one without a newline. -/
def ReturnsDropped (raws raws' : List String) : Prop :=
  List.Forall₂ (fun raw raw' => raw' = raw ∨ raw = raw' ++ "\r") raws raws'

/-- A carriage return at the end of a line makes no difference. -/
theorem cleanLine_return (raw : String) : cleanLine (raw ++ "\r") = cleanLine raw := by
  apply cleanLine_of_padded
  rw [String.toList_append]
  refine ⟨[], ['\r'], by simp, ?_, rfl⟩
  intro c hc
  obtain rfl := List.mem_singleton.mp hc
  decide

/-- **Carriage returns at the ends of lines change no line of code and no number.** -/
theorem ofRawLinesFrom_of_returnsDropped {raws raws' : List String} (h : ReturnsDropped raws raws')
    (n : Nat) : ofRawLinesFrom n raws' = ofRawLinesFrom n raws := by
  induction h generalizing n with
  | nil => rfl
  | @cons raw raw' raws raws' hraw _ ih =>
      have hclean : cleanLine raw' = cleanLine raw := by
        rcases hraw with rfl | rfl
        · rfl
        · exact (cleanLine_return raw').symm
      cases hcode : cleanLine raw with
      | none => rw [ofRawLinesFrom_none n _ hcode, ofRawLinesFrom_none n _ (hclean.trans hcode), ih]
      | some code =>
          rw [ofRawLinesFrom_some n _ hcode, ofRawLinesFrom_some n _ (hclean.trans hcode), ih]

/-- **The lines of a file.**  They can be read iff its bytes are valid UTF-8 as a whole, and then
they are the lines of the text that the bytes encode, with the same numbers, whether a newline
takes the carriage return before it along or not.  Otherwise there are none at all. -/
theorem bytes_read_as_text (bytes : ByteArray) :
    ((ofBytes? bytes).isSome = true ↔ bytes.IsValidUTF8)
    ∧ ∀ text : String, text.toUTF8 = bytes →
        ofBytes? bytes = some (ofText text)
        ∧ ∀ raws, ReturnsDropped (rawLines text) raws → ofRawLines raws = ofText text := by
  have hread : ∀ text : String, text.toUTF8 = bytes → ofBytes? bytes = some (ofText text) := by
    intro text htext
    have hraws : rawLinesOf? bytes = some (rawLines text) :=
      rawLinesOf?_of_text (htext ▸ data_toByteArray text)
    rw [ofBytes?_eq, hraws]
    rfl
  refine ⟨⟨fun h => ?_, fun h => ?_⟩, fun text htext => ⟨hread text htext, fun raws hraws => ?_⟩⟩
  · obtain ⟨lines, hlines⟩ := Option.isSome_iff_exists.mp h
    obtain ⟨raws, hraws, -⟩ := Option.map_eq_some_iff.mp hlines
    exact valid_of_rawLinesOf? hraws
  · rw [hread (String.fromUTF8 bytes h) rfl]
    rfl
  · exact ofRawLinesFrom_of_returnsDropped hraws 0

/-- Both kinds of newline, a carriage return alone, and no newline at the end. -/
def mixedText : String := "@1\r\n\r\n D=A // ä\n\r@2\rx\r"

/-- A line of code, then a comment that ends in the midst of a character. -/
def cutBytes : ByteArray := ⟨#[0x40, 0x31, 0x0A, 0x2F, 0x2F, 0xC3]⟩

theorem bytes_read_as_text_mixed :
    ofBytes? mixedText.toUTF8 = some [⟨1, "@1"⟩, ⟨3, "D=A"⟩, ⟨4, "@2\rx"⟩]
    ∧ ofRawLines ["@1", "", " D=A // ä", "\r@2\rx\r"] = [⟨1, "@1"⟩, ⟨3, "D=A"⟩, ⟨4, "@2\rx"⟩]
    ∧ ofBytes? cutBytes = none ∧ ¬ cutBytes.IsValidUTF8 := by
  have hlines : ofText mixedText = [⟨1, "@1"⟩, ⟨3, "D=A"⟩, ⟨4, "@2\rx"⟩] := by decide +kernel
  have hreturns : ReturnsDropped (rawLines mixedText) ["@1", "", " D=A // ä", "\r@2\rx\r"] := by
    have hraws : rawLines mixedText = ["@1\r", "\r", " D=A // ä", "\r@2\rx\r"] := by decide +kernel
    rw [hraws]
    exact .cons (.inr rfl) (.cons (.inr rfl) (.cons (.inl rfl) (.cons (.inl rfl) .nil)))
  have hnone : ofBytes? cutBytes = none := by decide +kernel
  obtain ⟨hread, hdropped⟩ := (bytes_read_as_text mixedText.toUTF8).2 mixedText rfl
  refine ⟨hread.trans (congrArg some hlines), (hdropped _ hreturns).trans hlines, hnone, ?_⟩
  intro hvalid
  have hsome := (bytes_read_as_text cutBytes).1.mpr hvalid
  rw [hnone] at hsome
  cases hsome

end SourceLine

end HackPlatform
