import Mathlib
import Rill.Text.LineMap

/-!
# Lines in their places

A source is cut at its newlines. Each line then stands between what comes before it, which is empty or
ends in a newline, and what comes behind it, which is empty or begins with one:

    source = before ++ shown ++ returns ++ behind

where `returns` are the carriage returns at the end of the line, which are not shown.

1. The starts that come before the line are those of `before`, and the last of them is the line's own
   (`LineIn.starts_eq`, `LineIn.getLast?_opened`).
2. So the map tells the line of every offset from its start to its end (`LineIn.position_eq`), and gives
   back what is shown of it (`LineIn.lineText?_eq`).
3. Every offset of the source is on a line (`exists_line_over`), and every piece between newlines is one
   (`exists_line_of_piece`).
-/

namespace Rill

open LineMap (laterStarts dropReturns)

/-- In the text, the piece is the line between what comes before and what comes behind. -/
structure IsLine (text before piece behind : List Char) : Prop where
  whole : text = before ++ piece ++ behind
  begins : before = [] ∨ ∃ earlier, before = earlier ++ ['\n']
  ends : behind = [] ∨ ∃ later, behind = '\n' :: later
  single : '\n' ∉ piece

/-- A line of a source in its place. -/
structure LineIn (source : String) where
  before : List Char
  /-- The line without the carriage returns at its end. -/
  shown : List Char
  returns : Nat
  behind : List Char
  isLine : IsLine source.toList before (shown ++ List.replicate returns '\r') behind
  trimmed : shown.getLast? ≠ some '\r'

/-! ## Carriage returns -/

theorem dropReturns_append {shown : List Char} (trimmed : shown.getLast? ≠ some '\r') (returns : Nat) :
    dropReturns (shown ++ List.replicate returns '\r') = shown := by
  have stops : shown.reverse.dropWhile (· == '\r') = shown.reverse := by
    cases reversed : shown.reverse with
    | nil => rfl
    | cons last rest =>
        rw [← List.head?_reverse, reversed] at trimmed
        exact List.dropWhile_cons_of_neg (by simpa using trimmed)
  rw [dropReturns, List.reverse_append, List.reverse_replicate, List.dropWhile_append_of_pos (by simp),
    stops, List.reverse_reverse]

/-- What is dropped from the end of a text is some copies of the character. -/
theorem exists_trailing (c : Char) (cs : List Char) :
    ∃ copies, cs = (cs.reverse.dropWhile (· == c)).reverse ++ List.replicate copies c := by
  obtain ⟨copies, areCopies⟩ : ∃ copies, cs.reverse.takeWhile (· == c) = List.replicate copies c :=
    ⟨_, List.eq_replicate_of_mem fun d member => by simpa using List.mem_takeWhile_imp member⟩
  refine ⟨copies, ?_⟩
  calc cs = (cs.reverse.takeWhile (· == c) ++ cs.reverse.dropWhile (· == c)).reverse := by
        rw [List.takeWhile_append_dropWhile, List.reverse_reverse]
    _ = (cs.reverse.dropWhile (· == c)).reverse ++ List.replicate copies c := by
        rw [areCopies, List.reverse_append, List.reverse_replicate]

theorem dropReturns_trimmed (piece : List Char) : (dropReturns piece).getLast? ≠ some '\r' := by
  rw [dropReturns, List.getLast?_reverse]
  intro isReturn
  simpa [isReturn] using List.head?_dropWhile_not (· == '\r') piece.reverse

/-! ## Starts of lines -/

@[simp]
theorem utf8Size_newline : '\n'.utf8Size = 1 :=
  rfl

theorem laterStarts_append (offset : Nat) (xs ys : List Char) :
    laterStarts offset (xs ++ ys) =
      laterStarts offset xs ++ laterStarts (offset + Text.byteLength xs) ys := by
  induction xs generalizing offset with
  | nil => rfl
  | cons c xs ih =>
      simp only [List.cons_append, laterStarts, ih, Text.byteLength_cons, Nat.add_assoc]
      split <;> rfl

theorem length_laterStarts (offset : Nat) (cs : List Char) :
    (laterStarts offset cs).length = cs.count '\n' := by
  induction cs generalizing offset with
  | nil => rfl
  | cons c cs ih =>
      rw [laterStarts, List.count_cons]
      split
      · next isNewline => simp [isNewline, ih]
      · next notNewline => simp [notNewline, ih]

theorem laterStarts_of_notMem {offset : Nat} {cs : List Char} (single : '\n' ∉ cs) :
    laterStarts offset cs = [] := by
  rw [← List.length_eq_zero_iff, length_laterStarts, List.count_eq_zero]
  exact single

/-- Later lines start behind the offset, and inside the text. -/
theorem mem_laterStarts {offset start : Nat} {cs : List Char} (member : start ∈ laterStarts offset cs) :
    offset < start ∧ start ≤ offset + Text.byteLength cs := by
  induction cs generalizing offset with
  | nil => cases member
  | cons c cs ih =>
      have size := Char.utf8Size_pos c
      rw [laterStarts] at member
      rw [Text.byteLength_cons]
      split at member
      · rcases List.mem_cons.mp member with rfl | later
        · omega
        · have := ih later
          omega
      · have := ih member
        omega

namespace LineIn

variable {source : String} (line : LineIn source)

/-- The line with the carriage returns at its end. -/
def piece : List Char :=
  line.shown ++ List.replicate line.returns '\r'

/-- The number of the line, counted from one. -/
def number : Nat :=
  line.before.count '\n' + 1

/-- The offset at which the line starts. -/
def start : Nat :=
  Text.byteLength line.before

/-- The offset at which the line ends, before its newline. -/
def stop : Nat :=
  line.start + Text.byteLength line.piece

/-- The starts of the lines up to this one. -/
def opened : List Nat :=
  0 :: laterStarts 0 line.before

theorem toList_eq : source.toList = line.before ++ line.piece ++ line.behind :=
  line.isLine.whole

theorem newline_notMem_piece : '\n' ∉ line.piece :=
  line.isLine.single

theorem stop_le_size : line.stop ≤ Text.byteLength source.toList := by
  rw [line.toList_eq, Text.byteLength_append, Text.byteLength_append]
  exact Nat.le_add_right _ _

theorem starts_eq :
    (LineMap.ofSource source).starts = line.opened ++ laterStarts line.stop line.behind := by
  rw [LineMap.ofSource, line.toList_eq, laterStarts_append, laterStarts_append,
    laterStarts_of_notMem line.newline_notMem_piece, List.append_nil, Text.byteLength_append, Nat.zero_add]
  rfl

theorem length_opened : line.opened.length = line.number := by
  rw [opened, List.length_cons, length_laterStarts]
  rfl

/-- The last of the starts up to a line is its own. -/
theorem getLast?_opened : line.opened.getLast? = some line.start := by
  rw [opened, start]
  rcases line.isLine.begins with empty | ⟨earlier, isEarlier⟩
  · rw [empty]
    rfl
  · rw [isEarlier, laterStarts_append, ← List.cons_append, List.getLast?_append]
    simp [laterStarts]

theorem opened_le {other : Nat} (member : other ∈ line.opened) : other ≤ line.start := by
  rcases List.mem_cons.mp member with rfl | later
  · exact Nat.zero_le _
  · simpa [start] using (mem_laterStarts later).2

/-- The map puts the offsets from a line's start to its end on this line. -/
theorem position_eq {offset : Nat} (from_ : line.start ≤ offset) (upTo : offset ≤ line.stop) :
    (LineMap.ofSource source).position offset = ⟨line.number, offset - line.start + 1⟩ := by
  have inSource : min offset (LineMap.ofSource source).size = offset :=
    Nat.min_eq_left (Nat.le_trans upTo line.stop_le_size)
  -- The starts up to the line are passed, and the next one is behind its end.
  have reached : (LineMap.ofSource source).starts.takeWhile (· ≤ offset) = line.opened := by
    have passed : ∀ other ∈ line.opened, decide (other ≤ offset) = true := fun other member =>
      decide_eq_true (Nat.le_trans (line.opened_le member) from_)
    have none : (laterStarts line.stop line.behind).takeWhile (· ≤ offset) = [] := by
      rw [List.takeWhile_eq_nil_iff]
      intro nonempty isReached
      have behind := (mem_laterStarts (List.get_mem _ ⟨0, nonempty⟩)).1
      exact absurd (of_decide_eq_true isReached) (by omega)
    rw [line.starts_eq, List.takeWhile_append_of_pos passed, none, List.append_nil]
  rw [LineMap.position, inSource, reached, line.length_opened, line.getLast?_opened]
  rfl

theorem starts_here : (LineMap.ofSource source).starts[line.before.count '\n']? = some line.start := by
  have last := line.getLast?_opened
  rw [List.getLast?_eq_getElem?, line.length_opened] at last
  rw [line.starts_eq, List.getElem?_append_left (by rw [line.length_opened, number]; omega)]
  exact last

theorem starts_next : (LineMap.ofSource source).starts[line.before.count '\n' + 1]? =
    (laterStarts line.stop line.behind)[0]? := by
  have length := line.length_opened
  rw [number] at length
  rw [line.starts_eq, List.getElem?_append_right (by omega), length, Nat.sub_self]

/-- The map gives back what is shown of a line. -/
theorem lineText?_eq :
    (LineMap.ofSource source).lineText? source line.number = some (String.ofList line.shown) := by
  have cut : Text.sliceBytes line.start line.stop source.toList = some line.piece := by
    rw [line.toList_eq]
    exact Text.sliceBytes_append _ _ _
  have shown : dropReturns line.piece = line.shown := dropReturns_append line.trimmed _
  simp only [LineMap.lineText?, number, line.starts_here, line.starts_next, Option.bind_eq_bind,
    Option.bind_some]
  -- The line is cut off at the end of the source, or one byte before the next line.
  rcases line.isLine.ends with empty | ⟨later, isLater⟩
  · have size : Text.byteLength source.toList = line.stop := by
      rw [line.toList_eq, empty, List.append_nil, Text.byteLength_append]
      rfl
    simp [empty, laterStarts, size, cut, shown]
  · simp [isLater, laterStarts, cut, shown]

end LineIn

/-! ## All lines of a text -/

/-- A text is a single line, or begins with one that a newline ends. -/
theorem lines_induction {motive : List Char → Prop} (last : ∀ piece, '\n' ∉ piece → motive piece)
    (next : ∀ piece rest, '\n' ∉ piece → motive rest → motive (piece ++ '\n' :: rest))
    (text : List Char) : motive text := by
  induction size : text.length using Nat.strong_induction_on generalizing text with
  | _ n ih =>
      by_cases more : '\n' ∈ text
      · obtain ⟨piece, rest, rfl, single⟩ := List.eq_append_cons_of_mem more
        refine next piece rest single (ih rest.length ?_ rest rfl)
        rw [← size, List.length_append, List.length_cons]
        omega
      · exact last text more

namespace IsLine

variable {text before piece behind first rest : List Char}

theorem only (single : '\n' ∉ piece) : IsLine piece [] piece [] :=
  ⟨by simp, Or.inl rfl, Or.inl rfl, single⟩

theorem head (single : '\n' ∉ first) : IsLine (first ++ '\n' :: rest) [] first ('\n' :: rest) :=
  ⟨rfl, Or.inl rfl, Or.inr ⟨rest, rfl⟩, single⟩

/-- A line of the rest is a line of the text. -/
theorem later (isLine : IsLine rest before piece behind) :
    IsLine (first ++ '\n' :: rest) (first ++ '\n' :: before) piece behind := by
  refine ⟨by simp [isLine.whole], Or.inr ?_, isLine.ends, isLine.single⟩
  rcases isLine.begins with rfl | ⟨earlier, rfl⟩
  · exact ⟨first, rfl⟩
  · exact ⟨first ++ '\n' :: earlier, by simp⟩

/-- A line of a source, apart from the carriage returns at its end. -/
theorem exists_lineIn {source : String} (isLine : IsLine source.toList before piece behind) :
    ∃ line : LineIn source, line.before = before ∧ line.piece = piece := by
  obtain ⟨returns, isPiece⟩ := exists_trailing '\r' piece
  replace isPiece : piece = dropReturns piece ++ List.replicate returns '\r' := isPiece
  exact ⟨⟨before, dropReturns piece, returns, behind, isPiece ▸ isLine, dropReturns_trimmed piece⟩, rfl,
    isPiece.symm⟩

end IsLine

theorem exists_isLine_over (text : List Char) : ∀ offset ≤ Text.byteLength text,
    ∃ before piece behind, IsLine text before piece behind ∧ Text.byteLength before ≤ offset ∧
      offset ≤ Text.byteLength before + Text.byteLength piece := by
  induction text using lines_induction with
  | last piece single =>
      exact fun offset inText => ⟨[], piece, [], .only single, Nat.zero_le _, by simpa using inText⟩
  | next first rest single ih =>
      intro offset inText
      by_cases here : offset ≤ Text.byteLength first
      · exact ⟨[], first, '\n' :: rest, .head single, Nat.zero_le _, by simpa using here⟩
      · -- Behind the first newline, the offset is on a line of the rest.
        simp only [Text.byteLength_append, Text.byteLength_cons, utf8Size_newline] at inText
        obtain ⟨before, piece, behind, isLine, from_, upTo⟩ :=
          ih (offset - (Text.byteLength first + 1)) (by omega)
        refine ⟨first ++ '\n' :: before, piece, behind, isLine.later, ?_, ?_⟩ <;>
          simp only [Text.byteLength_append, Text.byteLength_cons, utf8Size_newline] <;> omega

/-- Every offset of a source is on one of its lines. -/
theorem exists_line_over {source : String} {offset : Nat}
    (inSource : offset ≤ Text.byteLength source.toList) :
    ∃ line : LineIn source, line.start ≤ offset ∧ offset ≤ line.stop := by
  obtain ⟨before, piece, behind, isLine, from_, upTo⟩ := exists_isLine_over _ offset inSource
  obtain ⟨line, rfl, rfl⟩ := isLine.exists_lineIn
  exact ⟨line, from_, upTo⟩

theorem exists_isLine_of_piece {text piece : List Char} : ∀ {index : Nat},
    (text.splitOn '\n')[index]? = some piece →
      ∃ before behind, IsLine text before piece behind ∧ before.count '\n' = index := by
  induction text using lines_induction with
  | last first single =>
      intro index isPiece
      rw [List.splitOn_eq_singleton single, List.getElem?_singleton] at isPiece
      split at isPiece
      · next isFirst =>
        cases isPiece
        exact ⟨[], [], .only single, isFirst.symm⟩
      · cases isPiece
  | next first rest single ih =>
      intro index isPiece
      rw [List.splitOn_append_cons_self_of_not_mem single] at isPiece
      cases index with
      | zero =>
          cases isPiece
          exact ⟨[], '\n' :: rest, .head single, rfl⟩
      | succ index =>
          obtain ⟨before, behind, isLine, isIndex⟩ := ih isPiece
          refine ⟨first ++ '\n' :: before, behind, isLine.later, ?_⟩
          rw [List.count_append, List.count_eq_zero.mpr single, List.count_cons_self, isIndex, Nat.zero_add]

/-- Every piece between newlines is a line. -/
theorem exists_line_of_piece {source : String} {index : Nat} {piece : List Char}
    (isPiece : (source.toList.splitOn '\n')[index]? = some piece) :
    ∃ line : LineIn source, line.number = index + 1 ∧ line.piece = piece := by
  obtain ⟨before, behind, isLine, isIndex⟩ := exists_isLine_of_piece isPiece
  obtain ⟨line, rfl, rfl⟩ := isLine.exists_lineIn
  exact ⟨line, congrArg (· + 1) isIndex, rfl⟩

/-- A text has one more line than it has newlines. -/
theorem length_splitOn_newline (text : List Char) :
    (text.splitOn '\n').length = text.count '\n' + 1 := by
  induction text using lines_induction with
  | last piece single => rw [List.splitOn_eq_singleton single, List.count_eq_zero.mpr single]; rfl
  | next first rest single ih =>
      rw [List.splitOn_append_cons_self_of_not_mem single, List.length_cons, ih, List.count_append,
        List.count_eq_zero.mpr single, List.count_cons_self, Nat.zero_add]

theorem lineCount_ofSource (source : String) :
    (LineMap.ofSource source).lineCount = (source.toList.splitOn '\n').length := by
  rw [length_splitOn_newline, ← length_laterStarts 0]
  rfl

end Rill
