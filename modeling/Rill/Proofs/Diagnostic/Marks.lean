import Mathlib
import Rill.Diagnostic.Terminal
import Rill.Proofs.Basic
import Rill.Proofs.Text.Lines

/-!
# Marks under the text they mean

A label is shown on the line on which it starts. Below the line stands a row of marks:

      2 |   bc;
        |   ^^ not found

1. A label on a line is a highlight whose columns count from the start of the line (`annotate_eq`).
2. Dropping the spaces at the end of a row leaves every mark in its column (`marks_getElem?`), and so does
   painting it without colours (`paintMarks_plain`).
3. A line number and the spaces before it take as many columns as the spaces before the bar of the row
   below (`length_gutters`). So the marks stand under the text of the label (`carets_under_text`).
-/

namespace Rill

@[simp]
theorem Text.Style.paint_plain (style : Text.Style) (text : String) : style.paint false text = text :=
  rfl

/-- The span covers some bytes, and all of them are shown on the line. -/
structure LineIn.Shows {source : String} (line : LineIn source) (span : Span) : Prop where
  nonempty : span.start < span.stop
  begins : line.start ≤ span.start
  ends : span.stop ≤ line.start + Text.byteLength line.shown

namespace Terminal

/-! ## Rows of marks -/

/-- Without colours, painting run by run gives the row back. -/
theorem paintMarks_plain (row : List Char) : paintMarks false row = String.ofList row := by
  calc paintMarks false row = String.join ((row.splitBy (· == ·)).map String.ofList) :=
        congrArg String.join (List.map_congr_left fun run _ => by dsimp only; split <;> rfl)
    _ = String.ofList row := by simp [String.join_eq, Function.comp_def]

theorem mark_ne_space (role : LabelRole) : mark role ≠ ' ' := by
  cases role <;> decide

/-- Only spaces are dropped from the end of a row, so a mark stays in its column. -/
theorem marks_getElem? {ordered : List Highlight} {width column : Nat} {c : Char} (visible : c ≠ ' ') :
    (marks ordered width)[column]? = some c ↔ column < width + 2 ∧ markAt ordered column = c := by
  obtain ⟨copies, isRow⟩ := exists_trailing ' ' ((List.range (width + 2)).map (markAt ordered))
  have whole : ((List.range (width + 2)).map (markAt ordered))[column]? = some c ↔
      column < width + 2 ∧ markAt ordered column = c := by
    rw [List.getElem?_eq_some_iff]
    simp
  rw [← whole, isRow]
  change _ ↔ (marks ordered width ++ List.replicate copies ' ')[column]? = some c
  by_cases inRow : column < (marks ordered width).length
  · rw [List.getElem?_append_left inRow]
  · -- Behind the row there are only the spaces that were dropped.
    have behind := Nat.le_of_not_lt inRow
    rw [List.getElem?_eq_none behind, List.getElem?_append_right behind, List.getElem?_replicate]
    split <;> simp [Ne.symm visible]

theorem markAt_cases (ordered : List Highlight) (index : Nat) :
    markAt ordered index = ' ' ∨ ∃ role, markAt ordered index = mark role := by
  rw [markAt]
  induction ordered using List.reverseRecOn with
  | nil => exact Or.inl rfl
  | append_singleton ordered highlight ih =>
      rw [List.foldl_append, List.foldl_cons, List.foldl_nil]
      split
      · exact Or.inr ⟨highlight.role, rfl⟩
      · exact ih

/-- A row of marks does not go on over the end of its line. -/
theorem newline_not_mem_marks (ordered : List Highlight) (width : Nat) : '\n' ∉ marks ordered width := by
  intro member
  obtain ⟨column, isNewline⟩ := List.mem_iff_getElem?.mp member
  have shown := ((marks_getElem? (by decide)).mp isNewline).2
  rcases markAt_cases ordered column with isSpace | ⟨role, isMark⟩
  · cases isSpace.symm.trans shown
  · cases role <;> cases isMark.symm.trans shown

/-- A single highlight marks its own columns. -/
theorem markAt_singleton (highlight : Highlight) (column : Nat) :
    markAt [highlight] column = mark highlight.role ↔
      highlight.start - 1 ≤ column ∧ column < highlight.stop - 1 := by
  rw [markAt, List.foldl_cons, List.foldl_nil]
  split
  · next covered => simpa [Highlight.covers] using covered
  · next outside => simpa [Highlight.covers, Ne.symm (mark_ne_space _)] using outside

/-! ## Gutters -/

/-- What stands before a source line: spaces, its number and a bar. -/
def numberGutter (indent number : Nat) : String :=
  Text.spaces indent ++ Text.decimal number ++ " | "

/-- What stands before a row of marks: spaces and a bar. -/
def markGutter (width : Nat) : String :=
  Text.spaces width ++ " | "

theorem length_spaces (width : Nat) : (Text.spaces width).length = width := by
  simp [Text.spaces]

/-- Both gutters are equally wide when the number ends where the spaces of the other one end. -/
theorem length_gutters {indent number width : Nat}
    (aligned : indent + (Text.decimal number).length = width) :
    (numberGutter indent number).length = (markGutter width).length := by
  simp only [numberGutter, markGutter, String.length_append, length_spaces]
  omega

/-- The width of the line numbers up to the given one. -/
def gutterFor (number : Nat) : Nat :=
  max (Text.decimal number).length 2

theorem gutterWidth_singleton (line : AnnotatedLine) : gutterWidth [line] = gutterFor line.line :=
  rfl

theorem blankGutter_newline (gutter : Nat) :
    blankGutter false gutter ++ "\n" = Text.spaces (gutter + 1) ++ " |\n" := by
  rw [blankGutter, String.append_assoc, String.append_assoc]
  rfl

theorem bar_eq (text : String) : text ++ " " ++ bar false ++ " " = text ++ " | " := by
  rw [String.append_assoc, String.append_assoc]
  rfl

theorem sourceRow_plain (gutter : Nat) (line : AnnotatedLine) :
    sourceRow false gutter line =
      numberGutter (gutter + 1 - (Text.decimal line.line).length) line.line ++ line.text ++ "\n" := by
  rw [sourceRow, bar_eq]
  rfl

/-- The rows below a line with one highlight: its marks, and its message behind them. -/
theorem markRows_plain {gutter number : Nat} {shown : String} {highlight : Highlight}
    (marked : marks [highlight] (Text.byteLength shown.toList) ≠ []) :
    markRows false gutter ⟨number, shown, [highlight]⟩ =
      markGutter (gutter + 1) ++ String.ofList (marks [highlight] (Text.byteLength shown.toList)) ++
        highlight.message?.elim "" (" " ++ ·) ++ "\n" := by
  have ordered : inOrder [highlight] = [highlight] := List.mergeSort_singleton highlight
  have start : blankGutter false gutter ++ " " = markGutter (gutter + 1) := bar_eq _
  rw [markRows, ordered]
  simp only [List.isEmpty_iff, marked, start, if_false, paintMarks_plain]
  cases message : highlight.message? with
  | none => simp [message]
  | some text => simp [message, String.append_assoc]

/-! ## Labels on a line -/

/-- Every character of the source is one byte. -/
def IsAscii (source : String) : Prop :=
  ∀ c ∈ source.toList, c.toNat < 128

instance : DecidablePred IsAscii :=
  fun source => List.decidableBAll _ source.toList

theorem byteLength_of_ascii {cs : List Char} (ascii : ∀ c ∈ cs, c.toNat < 128) :
    Text.byteLength cs = cs.length := by
  induction cs with
  | nil => rfl
  | cons c cs ih =>
      have size : c.utf8Size = 1 := Char.utf8Size_eq_one_iff.mpr
        (UInt32.le_iff_toNat_le.mpr (Nat.le_of_lt_succ (ascii c List.mem_cons_self)))
      rw [Text.byteLength_cons, size, ih fun d member => ascii d (List.mem_cons_of_mem c member),
        List.length_cons, Nat.add_comm]

/-- A label as a highlight of the line that shows it. -/
def highlightOn {source : String} (line : LineIn source) (label : Label) : Highlight :=
  ⟨label.span.start - line.start + 1, label.span.stop - line.start + 1, label.role, label.message?⟩

section Single

variable {source : String} {line : LineIn source} {label : Label}

/-- A label is annotated on the line that shows it. -/
theorem annotate_eq (shows : line.Shows label.span) :
    annotate (LineMap.ofSource source) source label =
      ⟨line.number, String.ofList line.shown, [highlightOn line label]⟩ := by
  obtain ⟨nonempty, begins, ends⟩ := shows
  have upToEnd : label.span.stop ≤ line.stop := by
    rw [LineIn.stop, LineIn.piece, Text.byteLength_append]
    omega
  have later : max (label.span.stop - line.start + 1) (label.span.start - line.start + 1 + 1) =
      label.span.stop - line.start + 1 := Nat.max_eq_left (by omega)
  rw [annotate, line.position_eq begins (by omega), line.position_eq (by omega) upToEnd]
  simp [line.lineText?_eq, later, highlightOn]

/-- The marks of a label that a line shows stand in the columns of its span. -/
theorem marks_highlightOn (shows : line.Shows label.span) (column : Nat) :
    (marks [highlightOn line label] (Text.byteLength line.shown))[column]? = some (mark label.role) ↔
      label.span.start ≤ line.start + column ∧ line.start + column < label.span.stop := by
  obtain ⟨nonempty, begins, ends⟩ := shows
  rw [marks_getElem? (mark_ne_space _), show label.role = (highlightOn line label).role from rfl,
    markAt_singleton]
  simp only [highlightOn, Nat.add_sub_cancel]
  omega

/-- The text of a span that a line shows stands at the columns of the span. -/
theorem exists_shown (ascii : IsAscii source) (shows : line.Shows label.span) :
    ∃ left text right, line.shown = left ++ text ++ right ∧
      label.span.text? source = some (String.ofList text) ∧
      left.length = label.span.start - line.start ∧
      text.length = label.span.stop - label.span.start := by
  obtain ⟨nonempty, begins, ends⟩ := shows
  have asciiShown : ∀ c ∈ line.shown, c.toNat < 128 := fun c member => ascii c (by
    rw [line.toList_eq, LineIn.piece]
    simp [member])
  rw [byteLength_of_ascii asciiShown] at ends
  obtain ⟨left, text, right, isShown, leftSize, textSize⟩ :=
    exists_cut (show
      label.span.start - line.start + (label.span.stop - label.span.start) ≤ line.shown.length by omega)
  rw [isShown] at asciiShown
  have leftBytes := byteLength_of_ascii fun c member =>
    asciiShown c (List.mem_append_left _ (List.mem_append_left _ member))
  have textBytes := byteLength_of_ascii fun c member =>
    asciiShown c (List.mem_append_left _ (List.mem_append_right _ member))
  refine ⟨left, text, right, isShown, ?_, leftSize, textSize⟩
  have start : Text.byteLength (line.before ++ left) = label.span.start := by
    rw [Text.byteLength_append, leftBytes, leftSize]
    exact Nat.add_sub_cancel' begins
  have stop : Text.byteLength (line.before ++ left) + Text.byteLength text = label.span.stop := by
    rw [start, textBytes, textSize]
    exact Nat.add_sub_cancel' (Nat.le_of_lt nonempty)
  have cut := Text.sliceBytes_append (line.before ++ left) text
    (right ++ List.replicate line.returns '\r' ++ line.behind)
  rw [stop, start] at cut
  have whole : source.toList = line.before ++ left ++ text ++
      (right ++ List.replicate line.returns '\r' ++ line.behind) := by
    rw [line.toList_eq, LineIn.piece, isShown]
    simp only [List.append_assoc]
  rw [Span.text?, whole, cut]
  rfl

/-- The parts of a rendering with one label. -/
theorem render_single {d : Diagnostic} (single : d.labels = [label]) (shows : line.Shows label.span)
    (file? : Option String) :
    render false source file? d =
      header false d ++ arrow false (LineMap.ofSource source) (file?.getD "<source>") label line.number ++
        Text.spaces (gutterFor line.number + 1) ++ " |\n" ++
        sourceRow false (gutterFor line.number)
          ⟨line.number, String.ofList line.shown, [highlightOn line label]⟩ ++
        markRows false (gutterFor line.number)
          ⟨line.number, String.ofList line.shown, [highlightOn line label]⟩ ++
        ((if d.notes.isEmpty && d.help?.isNone then ""
          else blankGutter false (gutterFor line.number) ++ "\n") ++
        footer false (gutterFor line.number) d) := by
  have lines : annotatedLines (LineMap.ofSource source) source d.labels =
      [⟨line.number, String.ofList line.shown, [highlightOn line label]⟩] := by
    rw [single, annotatedLines, List.foldl_cons, List.foldl_nil, annotate_eq shows]
    rfl
  rw [render, lines, single]
  simp only [sourceRows, lead, gutterWidth_singleton, blankGutter_newline, String.append_assoc,
    String.append_empty]

end Single

/-- A line in a rendering, with the row of marks below it. -/
structure MarkedLine (rendering : String) (number : Nat) (shown : String) (message? : Option String) where
  above : String
  indent : Nat
  width : Nat
  row : List Char
  below : String
  oneRow : '\n' ∉ row
  rendered : rendering = above ++ (numberGutter indent number ++ shown ++ "\n") ++
    (markGutter width ++ String.ofList row ++ message?.elim "" (" " ++ ·) ++ "\n") ++ below

/-- In a source of single bytes, a diagnostic with one label is shown with marks under the text of the
label. The line stands behind its number, the row below it has a gutter of the same width, and its marks
stand in the columns in which the line shows the text. -/
theorem carets_under_text {source : String} (ascii : IsAscii source) (file? : Option String)
    {d : Diagnostic} {label : Label} (single : d.labels = [label]) (line : LineIn source)
    (shows : line.Shows label.span) :
    ∃ rows : MarkedLine (render false source file? d) line.number (String.ofList line.shown) label.message?,
      rows.above = header false d ++ arrow false (LineMap.ofSource source) (file?.getD "<source>") label
        line.number ++ Text.spaces rows.width ++ " |\n" ∧
      (numberGutter rows.indent line.number).length = (markGutter rows.width).length ∧
      ∃ left text right, line.shown = left ++ text ++ right ∧
        label.span.text? source = some (String.ofList text) ∧
        left.length = label.span.start - line.start ∧
        ∀ column, rows.row[column]? = some (mark label.role) ↔
          left.length ≤ column ∧ column < left.length + text.length := by
  obtain ⟨left, text, right, isShown, isText, leftSize, textSize⟩ := exists_shown ascii shows
  have columns := marks_highlightOn shows
  have rendered := render_single single shows file?
  have marked : marks [highlightOn line label] (Text.byteLength (String.ofList line.shown).toList) ≠ [] := by
    intro none
    have first := (columns (label.span.start - line.start)).mpr (by
      have := shows.begins
      have := shows.nonempty
      omega)
    rw [String.toList_ofList] at none
    simp [none] at first
  rw [sourceRow_plain, markRows_plain marked, String.toList_ofList] at rendered
  refine ⟨⟨_, _, _, _, _, newline_not_mem_marks _ _, rendered⟩, rfl, length_gutters ?_, left, text, right, isShown, isText, leftSize,
    fun column => ?_⟩
  · exact Nat.sub_add_cancel (Nat.le_succ_of_le (Nat.le_max_left _ _))
  · rw [columns, leftSize, textSize]
    have := shows.begins
    omega

/-- The second of two lines that end in a carriage return. -/
def indentedLine : LineIn "a;\r\n  bc;\r\n" where
  before := ['a', ';', '\r', '\n']
  shown := [' ', ' ', 'b', 'c', ';']
  returns := 1
  behind := ['\n']
  isLine := ⟨by decide, Or.inr ⟨['a', ';', '\r'], rfl⟩, Or.inr ⟨[], rfl⟩, by decide⟩
  trimmed := by decide

theorem carets_under_indented :
    IsAscii "a;\r\n  bc;\r\n" ∧ indentedLine.Shows ⟨6, 8⟩ ∧
    ∃ rows : MarkedLine
        (render false "a;\r\n  bc;\r\n" none ((Diagnostic.error "undefined").withPrimary ⟨6, 8⟩ "not found"))
        2 "  bc;" (some "not found"),
      (numberGutter rows.indent 2).length = (markGutter rows.width).length ∧
      ∀ column, rows.row[column]? = some '^' ↔ 2 ≤ column ∧ column < 4 := by
  have ascii : IsAscii "a;\r\n  bc;\r\n" := by decide
  have shows : indentedLine.Shows ⟨6, 8⟩ := ⟨by decide, by decide, by decide⟩
  obtain ⟨rows, _, gutters, left, text, right, isShown, isText, leftSize, columns⟩ :=
    carets_under_text ascii none
      (d := (Diagnostic.error "undefined").withPrimary ⟨6, 8⟩ "not found") rfl indentedLine shows
  have leftEq : left.length = 2 := leftSize
  have covered : (⟨6, 8⟩ : Span).text? "a;\r\n  bc;\r\n" = some "bc" := by decide +kernel
  have textEq : String.ofList text = "bc" := Option.some.inj (isText.symm.trans covered)
  have textSize : text.length = 2 := by
    rw [← String.length_ofList, textEq]
    rfl
  rw [leftEq, textSize] at columns
  exact ⟨ascii, shows, rows, gutters, columns⟩

end Terminal

end Rill
