import Mathlib
import Rill.Proofs.Text.Lines

/-!
# Positions count bytes

A position is read off the bytes before it: its line is one more than the newlines among them, and its
column one more than the bytes behind the last newline (`Position.behind`). No character but the newline
has a newline among its bytes, so this also holds inside a character.

1. What comes before an offset on a line is what comes before the line, and a part of the line without
   newlines; so the line map gives the position read off the bytes (`position_ofSource`).
2. One more byte moves the position on: to the next column, or to the first column of the next line
   (`Position.behind_concat`). So different offsets have different positions, in the same order.
3. Together with the texts of the lines this makes the line map exact (`lineMap_exact`).
-/

namespace Rill

/-! ## Bytes of a text -/

/-- The byte of a newline. -/
def newlineByte : UInt8 := 10

/-- The bytes of a source. -/
def bytesOf (source : String) : List UInt8 :=
  source.toUTF8.data.toList

/-- The position behind some bytes. -/
def Position.behind (bytes : List UInt8) : Position :=
  { line := bytes.count newlineByte + 1
    column := (bytes.rtakeWhile (· != newlineByte)).length + 1 }

/-- The bytes of characters. -/
def utf8 (cs : List Char) : List UInt8 :=
  cs.flatMap String.utf8EncodeChar

theorem utf8_append (xs ys : List Char) : utf8 (xs ++ ys) = utf8 xs ++ utf8 ys :=
  List.flatMap_append

theorem length_utf8 (cs : List Char) : (utf8 cs).length = Text.byteLength cs := by
  induction cs with
  | nil => rfl
  | cons c cs ih =>
      rw [utf8, List.flatMap_cons, List.length_append, String.length_utf8EncodeChar, Text.byteLength_cons,
        ← ih]
      rfl

theorem bytesOf_eq (source : String) : bytesOf source = utf8 source.toList := by
  have encoded : source.toUTF8 = source.toList.utf8Encode := by
    rw [← String.toByteArray_ofList, String.ofList_toList]
    rfl
  rw [bytesOf, encoded]
  exact List.toList_data_toByteArray

theorem byteLength_toList (source : String) : Text.byteLength source.toList = source.utf8ByteSize := by
  rw [← length_utf8, ← bytesOf_eq]
  rfl

theorem newlineByte_mem_utf8EncodeChar {c : Char} : newlineByte ∈ String.utf8EncodeChar c ↔ c = '\n' := by
  constructor
  · intro member
    have isTen {n : Nat} (same : newlineByte = UInt8.ofNat n) : n % 256 = 10 :=
      (congrArg UInt8.toNat same).symm
    simp only [String.utf8EncodeChar] at member
    -- Only one-byte characters have a byte below 128.
    split at member
    · next small =>
      have value := isTen (List.mem_singleton.mp member)
      have ten : c.val.toNat = '\n'.val.toNat := by
        show _ = 10
        omega
      exact Char.ext (UInt32.toNat_inj.mp ten)
    · split at member
      · simp only [List.mem_cons, List.not_mem_nil, or_false] at member
        rcases member with same | same <;> have := isTen same <;> omega
      · split at member <;> simp only [List.mem_cons, List.not_mem_nil, or_false] at member
        · rcases member with same | same | same <;> have := isTen same <;> omega
        · rcases member with same | same | same | same <;> have := isTen same <;> omega
  · rintro rfl
    decide

theorem newlineByte_notMem_utf8 {cs : List Char} (single : '\n' ∉ cs) : newlineByte ∉ utf8 cs := by
  intro member
  obtain ⟨c, isChar, inChar⟩ := List.mem_flatMap.mp member
  exact single (newlineByte_mem_utf8EncodeChar.mp inChar ▸ isChar)

/-- A text has as many newline bytes as newlines. -/
theorem count_utf8 (cs : List Char) : (utf8 cs).count newlineByte = cs.count '\n' := by
  induction cs with
  | nil => rfl
  | cons c cs ih =>
      rw [utf8, List.flatMap_cons, List.count_append, ← utf8, ih, Nat.add_comm]
      by_cases isNewline : c = '\n'
      · subst isNewline
        rw [List.count_cons_self]
        rfl
      · have others : newlineByte ∉ String.utf8EncodeChar c := mt newlineByte_mem_utf8EncodeChar.mp isNewline
        rw [List.count_cons_of_ne isNewline, List.count_eq_zero.mpr others]
        rfl

/-! ## Positions -/

/-- The column counts the bytes behind the last newline. -/
theorem rtakeWhile_append_newline {front back : List UInt8}
    (stops : front = [] ∨ ∃ earlier, front = earlier ++ [newlineByte]) (single : newlineByte ∉ back) :
    (front ++ back).rtakeWhile (· != newlineByte) = back := by
  induction back using List.reverseRecOn with
  | nil =>
      rw [List.append_nil]
      rcases stops with rfl | ⟨earlier, rfl⟩
      · rfl
      · rw [List.rtakeWhile_concat]
        rfl
  | append_singleton back byte ih =>
      simp only [List.mem_append, List.mem_singleton, not_or] at single
      rw [← List.append_assoc, List.rtakeWhile_concat, ih single.1, if_pos]
      simpa using Ne.symm single.2

namespace LineIn

variable {source : String} (line : LineIn source) {offset : Nat}

theorem utf8_before : utf8 line.before = [] ∨ ∃ earlier, utf8 line.before = earlier ++ [newlineByte] := by
  rcases line.isLine.begins with empty | ⟨earlier, isEarlier⟩
  · exact Or.inl (by rw [empty]; rfl)
  · exact Or.inr ⟨utf8 earlier, by rw [isEarlier, utf8_append]; rfl⟩

/-- The bytes before an offset on a line: those before the line, and some of the line. -/
theorem take_bytesOf (from_ : line.start ≤ offset) (upTo : offset ≤ line.stop) :
    ∃ part, (bytesOf source).take offset = utf8 line.before ++ part ∧ newlineByte ∉ part ∧
      part.length = offset - line.start := by
  have size : (utf8 line.before).length = line.start := length_utf8 line.before
  have sizePiece := length_utf8 line.piece
  rw [stop] at upTo
  refine ⟨(utf8 line.piece).take (offset - line.start), ?_, fun member => ?_, ?_⟩
  · rw [bytesOf_eq, line.toList_eq, utf8_append, utf8_append, List.append_assoc, List.take_append,
      List.take_of_length_le (size.trans_le from_), size, List.take_append_of_le_length (by omega)]
  · exact newlineByte_notMem_utf8 line.newline_notMem_piece (List.mem_of_mem_take member)
  · rw [List.length_take]
    omega

end LineIn

/-- The map puts every offset of a source where its bytes do. -/
theorem position_of_le {source : String} {offset : Nat} (inSource : offset ≤ source.utf8ByteSize) :
    (LineMap.ofSource source).position offset = .behind ((bytesOf source).take offset) := by
  rw [← byteLength_toList] at inSource
  obtain ⟨line, from_, upTo⟩ := exists_line_over inSource
  obtain ⟨part, bytes, single, length⟩ := line.take_bytesOf from_ upTo
  rw [line.position_eq from_ upTo, Position.behind, bytes,
    rtakeWhile_append_newline line.utf8_before single, length, List.count_append, count_utf8,
    List.count_eq_zero.mpr single]
  rfl

/-- One more byte moves the position to the next column, or to the start of the next line. -/
theorem Position.behind_concat (bytes : List UInt8) (byte : UInt8) :
    Position.behind (bytes ++ [byte]) =
      if byte = newlineByte then ⟨(Position.behind bytes).line + 1, 1⟩
      else ⟨(Position.behind bytes).line, (Position.behind bytes).column + 1⟩ := by
  rw [Position.behind, List.count_append, List.rtakeWhile_concat]
  by_cases isNewline : byte = newlineByte
  · simp [isNewline, Position.behind]
  · simp [isNewline, Position.behind]

/-- Positions of a source go up with the offset, by line and then by column. -/
theorem position_strictMonoOn (source : String) :
    StrictMonoOn (fun offset => toLex (((LineMap.ofSource source).position offset).line,
      ((LineMap.ofSource source).position offset).column)) (Set.Iic source.utf8ByteSize) := by
  refine strictMonoOn_of_lt_add_one Set.ordConnected_Iic fun offset _ inSource next => ?_
  rw [Set.mem_Iic] at inSource next
  have isByte : offset < (bytesOf source).length := next
  rw [position_of_le inSource, position_of_le next, List.take_add_one, List.getElem?_eq_getElem isByte,
    Option.toList_some, Position.behind_concat, Prod.Lex.toLex_lt_toLex]
  split
  · exact Or.inl (Nat.lt_succ_self _)
  · exact Or.inr ⟨rfl, Nat.lt_succ_self _⟩

theorem position_min (map : LineMap) (offset : Nat) :
    map.position offset = map.position (min offset map.size) := by
  rw [LineMap.position, LineMap.position, Nat.min_assoc, Nat.min_self]

/-! ## Exactness -/

/-- The map tells the lines and columns of a source exactly, and gives the texts of its lines. -/
structure LineMap.Exact (source : String) (map : LineMap) : Prop where
  position : ∀ offset,
    map.position offset = .behind ((bytesOf source).take (min offset source.utf8ByteSize))
  injective : Set.InjOn map.position (Set.Iic source.utf8ByteSize)
  monotone : MonotoneOn (fun offset => toLex ((map.position offset).line, (map.position offset).column))
    (Set.Iic source.utf8ByteSize)
  counted : map.lineCount = (source.toList.splitOn '\n').length
  present : ∀ n, (map.lineText? source n).isSome ↔ 1 ≤ n ∧ n ≤ map.lineCount
  shown : ∀ n text, map.lineText? source n = some text →
    '\n' ∉ text.toList ∧ text.toList.getLast? ≠ some '\r' ∧
      ∃ returns, (source.toList.splitOn '\n')[n - 1]? = some (text.toList ++ List.replicate returns '\r')
  joined : ['\n'].intercalate (source.toList.splitOn '\n') = source.toList

/-- A number is that of a line, or the map has no text for it. -/
theorem lineText?_cases (source : String) (n : Nat) :
    (∃ line : LineIn source, line.number = n ∧
      (source.toList.splitOn '\n')[n - 1]? = some line.piece) ∨
    (¬ (1 ≤ n ∧ n ≤ (LineMap.ofSource source).lineCount) ∧
      (LineMap.ofSource source).lineText? source n = none) := by
  by_cases inRange : 1 ≤ n ∧ n ≤ (LineMap.ofSource source).lineCount
  · rw [lineCount_ofSource] at inRange
    have isPiece := List.getElem?_eq_getElem (l := source.toList.splitOn '\n') (i := n - 1) (by omega)
    obtain ⟨line, isNumber, piece⟩ := exists_line_of_piece isPiece
    exact Or.inl ⟨line, by omega, by rw [isPiece, piece]⟩
  · refine Or.inr ⟨inRange, ?_⟩
    cases n with
    | zero => rfl
    | succ index =>
        have outside : (LineMap.ofSource source).starts[index]? = none := by
          rw [List.getElem?_eq_none_iff]
          rw [LineMap.lineCount] at inRange
          omega
        rw [LineMap.lineText?, outside]
        rfl

/-- The line map of every source is exact. -/
theorem lineMap_exact (source : String) : (LineMap.ofSource source).Exact source := by
  have increasing := position_strictMonoOn source
  refine ⟨fun offset => ?_, fun a inSource b inSource' same => ?_, increasing.monotoneOn,
    lineCount_ofSource source, fun n => ?_, fun n text isText => ?_, List.intercalate_splitOn '\n'⟩
  · have size : (LineMap.ofSource source).size = source.utf8ByteSize := byteLength_toList source
    rw [position_min, size, position_of_le (Nat.min_le_right _ _)]
  · exact increasing.injOn inSource inSource' (by simp only [same])
  · rcases lineText?_cases source n with ⟨line, rfl, isPiece⟩ | ⟨outside, noText⟩
    · rw [line.lineText?_eq, lineCount_ofSource]
      have inRange := (List.getElem?_eq_some_iff.mp isPiece).1
      have positive : 1 ≤ line.number := Nat.le_add_left 1 _
      simp only [Option.isSome_some, true_iff]
      omega
    · rw [noText]
      simpa using outside
  · rcases lineText?_cases source n with ⟨line, rfl, isPiece⟩ | ⟨_, noText⟩
    · rw [line.lineText?_eq] at isText
      cases isText
      rw [String.toList_ofList]
      refine ⟨fun member => ?_, line.trimmed, line.returns, isPiece⟩
      exact line.newline_notMem_piece (List.mem_append_left _ member)
    · cases noText.symm.trans isText

end Rill
