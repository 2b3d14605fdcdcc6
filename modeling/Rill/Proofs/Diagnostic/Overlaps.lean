import Mathlib
import Rill.Proofs.Diagnostic.Gathering

/-!
# Marks that overlap

Labels of one line may underline the same columns. Their marks go into one row, those of the primary labels
first, and a later mark takes the place of an earlier one:

      1 | abcdef        primary label: column 3
        | ------        secondary label: columns 1 to 6

1. Primary highlights are marked before all secondary ones (`inOrder_primaryFirst`).
2. So a column shows `-` where a secondary label underlines it, and `^` where only primary ones do
   (`markAt_inOrder`).
3. A line shows all its primary labels exactly if no secondary label crosses one of them
   (`primary_shown_iff`). A primary label inside a secondary one is not shown at all (`primary_hidden`).
-/

namespace Rill

namespace Terminal

/-! ## The order of marks -/

theorem precedes_trans {a b c : Highlight} (first : precedes a b = true) (second : precedes b c = true) :
    precedes a c = true := by
  revert first second
  simp only [precedes]
  cases a.role <;> cases b.role <;> cases c.role <;> simp
  all_goals omega

theorem precedes_total (a b : Highlight) : (precedes a b || precedes b a) = true := by
  simp only [precedes]
  cases a.role <;> cases b.role <;> simp
  all_goals omega

theorem secondary_of_precedes {a b : Highlight} (before : precedes a b = true)
    (secondary : a.role = .secondary) : b.role = .secondary := by
  cases role : b.role with
  | secondary => rfl
  | primary => simp [precedes, secondary, role] at before

/-- In the order of marking, only secondary highlights come behind a secondary one. -/
theorem inOrder_primaryFirst (highlights : List Highlight) :
    (inOrder highlights).Pairwise fun a b => a.role = .secondary → b.role = .secondary := by
  have sorted := List.pairwise_mergeSort (fun a b c => @precedes_trans a b c) precedes_total highlights
  exact sorted.imp fun before => secondary_of_precedes before

/-- Whether some highlight of the role covers the index. -/
def crossed (role : LabelRole) (highlights : List Highlight) (index : Nat) : Bool :=
  highlights.any fun highlight => highlight.role == role && highlight.covers index

theorem crossed_cons (role : LabelRole) (first : Highlight) (rest : List Highlight) (index : Nat) :
    crossed role (first :: rest) index =
      (first.role == role && first.covers index || crossed role rest index) :=
  rfl

theorem crossed_iff {role : LabelRole} {highlights : List Highlight} {index : Nat} :
    crossed role highlights index = true ↔
      ∃ highlight ∈ highlights, highlight.role = role ∧ highlight.covers index = true := by
  simp [crossed]

theorem crossed_inOrder (role : LabelRole) (highlights : List Highlight) (index : Nat) :
    crossed role (inOrder highlights) index = crossed role highlights index := by
  rw [Bool.eq_iff_iff, crossed_iff, crossed_iff]
  simp only [inOrder, List.mem_mergeSort]

/-- Marking highlights over a character, the primary ones first: a secondary mark stays, else a primary one,
else the character. -/
theorem foldl_marks {ordered : List Highlight}
    (primaryFirst : ordered.Pairwise fun a b => a.role = .secondary → b.role = .secondary)
    (index : Nat) (current : Char) :
    ordered.foldl (fun current highlight =>
        if highlight.covers index then mark highlight.role else current) current =
      if crossed .secondary ordered index then '-'
      else if crossed .primary ordered index then '^' else current := by
  induction ordered generalizing current with
  | nil => rfl
  | cons first rest ih =>
      obtain ⟨behind, restFirst⟩ := List.pairwise_cons.mp primaryFirst
      rw [List.foldl_cons, ih restFirst, crossed_cons, crossed_cons]
      cases covered : first.covers index with
      | false => simp
      | true =>
          cases role : first.role with
          | primary => simp [mark]
          | secondary =>
              -- No primary highlight comes later, so nothing but `-` can take the place of this `-`.
              have noPrimary : crossed .primary rest index = false := by
                rw [← Bool.not_eq_true, crossed_iff]
                rintro ⟨later, member, primary, -⟩
                simp [behind later member role] at primary
              simp [mark, noPrimary]

/-- Secondary marks win over primary ones. -/
theorem markAt_inOrder (highlights : List Highlight) (index : Nat) :
    markAt (inOrder highlights) index =
      if crossed .secondary highlights index then '-'
      else if crossed .primary highlights index then '^' else ' ' := by
  rw [markAt, foldl_marks (inOrder_primaryFirst highlights), crossed_inOrder, crossed_inOrder]

/-! ## Columns of labels -/

/-- The columns, counted from one, that a label underlines on the line on which it starts: at least its first
one, and all up to its end, or up to the end of what is shown when it goes on over other lines. -/
def Underlines (source : String) (label : Label) (column : Nat) : Prop :=
  let start := startOf source label
  let stop := (LineMap.ofSource source).position label.span.stop
  column = start.column ∨ start.column ≤ column ∧
    if stop.line = start.line then column < stop.column
    else column ≤ Text.byteLength (shownLine source start.line).toList

/-- Some label of the role underlines the column of the line. -/
def Underlined (source : String) (labels : List Label) (role : LabelRole) (number column : Nat) : Prop :=
  ∃ label ∈ labels, label.role = role ∧ (startOf source label).line = number ∧
    Underlines source label column

instance (source : String) (label : Label) : DecidablePred (Underlines source label) :=
  fun _ => inferInstanceAs (Decidable (_ ∨ _))

instance (source : String) (labels : List Label) (role : LabelRole) (number column : Nat) :
    Decidable (Underlined source labels role number column) :=
  inferInstanceAs (Decidable (∃ label ∈ labels, _))

theorem Highlight.covers_iff {highlight : Highlight} {index : Nat} :
    highlight.covers index = true ↔ highlight.start - 1 ≤ index ∧ index < highlight.stop - 1 := by
  simp [Highlight.covers]

theorem covers_highlightOf {source : String} {label : Label} {index : Nat} :
    (highlightOf source label).covers index = true ↔ Underlines source label (index + 1) := by
  have positive : 0 < (startOf source label).column := Nat.succ_pos _
  simp only [Highlight.covers_iff, highlightOf, Underlines]
  by_cases single :
    ((LineMap.ofSource source).position label.span.stop).line = (startOf source label).line
  · rw [if_pos single, if_pos single]
    omega
  · rw [if_neg single, if_neg single]
    omega

theorem crossed_labelsOn {source : String} {labels : List Label} {role : LabelRole} {number index : Nat} :
    crossed role ((labelsOn source labels number).map (highlightOf source)) index = true ↔
      Underlined source labels role number (index + 1) := by
  rw [crossed_iff]
  constructor
  · rintro ⟨_, member, isRole, covered⟩
    obtain ⟨label, isOn, rfl⟩ := List.mem_map.mp member
    obtain ⟨isLabel, onLine⟩ := mem_labelsOn.mp isOn
    exact ⟨label, isLabel, isRole, onLine, covers_highlightOf.mp covered⟩
  · rintro ⟨label, isLabel, isRole, onLine, underlines⟩
    exact ⟨highlightOf source label, List.mem_map_of_mem (mem_labelsOn.mpr ⟨isLabel, onLine⟩), isRole,
      covers_highlightOf.mpr underlines⟩

/-! ## Rows in a rendering -/

/-- The number of columns that a row of marks may take: two more than the line. -/
def rowWidth (source : String) (number : Nat) : Nat :=
  Text.byteLength (shownLine source number).toList + 2

/-- The row of marks below a line. -/
def rowBelow (source : String) (labels : List Label) (number : Nat) : List Char :=
  marks (inOrder ((labelsOn source labels number).map (highlightOf source)))
    (Text.byteLength (shownLine source number).toList)

section Row

variable {source : String} {labels : List Label} {number index : Nat}

theorem rowBelow_secondary (inRow : index < rowWidth source number) :
    (rowBelow source labels number)[index]? = some '-' ↔
      Underlined source labels .secondary number (index + 1) := by
  rw [rowBelow, marks_getElem? (by decide), markAt_inOrder, ← crossed_labelsOn]
  constructor
  · rintro ⟨-, isMark⟩
    split at isMark
    · assumption
    · split at isMark <;> simp at isMark
  · exact fun secondary => ⟨inRow, by rw [if_pos secondary]⟩

theorem rowBelow_primary (inRow : index < rowWidth source number) :
    (rowBelow source labels number)[index]? = some '^' ↔
      Underlined source labels .primary number (index + 1) ∧
        ¬ Underlined source labels .secondary number (index + 1) := by
  rw [rowBelow, marks_getElem? (by decide), markAt_inOrder, ← crossed_labelsOn, ← crossed_labelsOn]
  constructor
  · rintro ⟨-, isMark⟩
    split at isMark
    · simp at isMark
    · next notSecondary =>
        split at isMark
        · next primary => exact ⟨primary, notSecondary⟩
        · simp at isMark
  · rintro ⟨primary, notSecondary⟩
    exact ⟨inRow, by rw [if_neg notSecondary, if_pos primary]⟩

/-- A row in which some column is underlined is not empty. -/
theorem rowBelow_ne_nil {role : LabelRole} (inRow : index < rowWidth source number)
    (underlined : Underlined source labels role number (index + 1)) : rowBelow source labels number ≠ [] := by
  intro empty
  by_cases secondary : Underlined source labels .secondary number (index + 1)
  · simpa [empty] using (rowBelow_secondary inRow).mpr secondary
  · cases role with
    | secondary => exact secondary underlined
    | primary => simpa [empty] using (rowBelow_primary inRow).mpr ⟨underlined, secondary⟩

end Row

/-- The rows below a line begin with its row of marks. -/
theorem markRows_eq {line : AnnotatedLine} (gutter : Nat)
    (marked : marks (inOrder line.highlights) (Text.byteLength line.text.toList) ≠ []) :
    ∃ (message? : Option String) (below : String), markRows false gutter line =
      markGutter (gutter + 1) ++
        String.ofList (marks (inOrder line.highlights) (Text.byteLength line.text.toList)) ++
        message?.elim "" (" " ++ ·) ++ "\n" ++ below := by
  have start : blankGutter false gutter ++ " " = markGutter (gutter + 1) := bar_eq _
  have noMessage (text : String) : text ++ (none : Option String).elim "" (" " ++ ·) = text :=
    String.append_empty
  rw [markRows]
  simp only [List.isEmpty_iff, marked, start, if_false, paintMarks_plain]
  split
  · exact ⟨none, "", by rw [noMessage, String.append_empty]⟩
  · next message _ => exact ⟨some message, "", by simp [String.append_assoc]⟩
  · exact ⟨none, _, congrArg (· ++ "\n" ++ _) (noMessage _).symm⟩

/-- A line on which some column is underlined is shown with its row of marks below it. -/
theorem exists_markedLine {source : String} (file? : Option String) {d : Diagnostic} {number index : Nat}
    {role : LabelRole} (inRow : index < rowWidth source number)
    (underlined : Underlined source d.labels role number (index + 1)) :
    ∃ (message? : Option String)
      (rows : MarkedLine (render false source file? d) number (shownLine source number) message?),
      rows.above = aboveLine source file? d number ∧ rows.row = rowBelow source d.labels number := by
  have nonempty := rowBelow_ne_nil inRow underlined
  obtain ⟨label, isLabel, -, onLine, -⟩ := underlined
  have gathers := annotatedLines_gathers source d.labels
  obtain ⟨line, member, isLine⟩ := List.mem_map.mp (gathers.all label isLabel)
  obtain ⟨text, highlights⟩ := gathers.each line member
  obtain ⟨below, rendered⟩ := render_eq_above file? member
  rw [isLine.trans onLine] at text highlights rendered
  have isRow : marks (inOrder line.highlights) (Text.byteLength line.text.toList) =
      rowBelow source d.labels number := by
    rw [text, highlights, rowBelow]
  let gutter := gutterWidth (annotatedLines (LineMap.ofSource source) source d.labels)
  obtain ⟨message?, more, rows⟩ := markRows_eq gutter (isRow ▸ nonempty)
  rw [rows, isRow, sourceRow_plain, text, isLine.trans onLine] at rendered
  refine ⟨message?, ⟨aboveLine source file? d number, gutter + 1 - (Text.decimal number).length, gutter + 1,
    rowBelow source d.labels number, more ++ below, newline_not_mem_marks _ _, ?_⟩, rfl, rfl⟩
  rw [rendered]
  simp only [String.append_assoc]
  rfl

/-- On a line where something is underlined, a column of the row of marks shows `-` if a secondary label
underlines it and `^` if only primary ones do. So all columns of primary labels show `^` exactly if no
secondary label underlines one of them. -/
theorem primary_shown_iff (source : String) (file? : Option String) {d : Diagnostic} {number : Nat}
    (marked : ∃ role, ∃ index < rowWidth source number, Underlined source d.labels role number (index + 1)) :
    ∃ (message? : Option String)
      (rows : MarkedLine (render false source file? d) number (shownLine source number) message?),
      rows.above = aboveLine source file? d number ∧
      (∀ index < rowWidth source number,
        (rows.row[index]? = some '-' ↔ Underlined source d.labels .secondary number (index + 1)) ∧
        (rows.row[index]? = some '^' ↔ Underlined source d.labels .primary number (index + 1) ∧
          ¬ Underlined source d.labels .secondary number (index + 1))) ∧
      ((∀ index < rowWidth source number, Underlined source d.labels .primary number (index + 1) →
          rows.row[index]? = some '^') ↔
        ∀ index < rowWidth source number, ¬ (Underlined source d.labels .primary number (index + 1) ∧
          Underlined source d.labels .secondary number (index + 1))) := by
  obtain ⟨role, index, inRow, underlined⟩ := marked
  obtain ⟨message?, rows, above, isRow⟩ := exists_markedLine file? inRow underlined
  refine ⟨message?, rows, above, fun index inRow => ?_, fun shown index inRow both => ?_,
    fun apart index inRow primary => ?_⟩
  · rw [isRow]
    exact ⟨rowBelow_secondary inRow, rowBelow_primary inRow⟩
  · have isMark := shown index inRow both.1
    rw [isRow, rowBelow_primary inRow] at isMark
    exact isMark.2 both.2
  · rw [isRow, rowBelow_primary inRow]
    exact ⟨primary, fun secondary => apart index inRow ⟨primary, secondary⟩⟩

/-- A primary label on columns 2 to 4 and a secondary one on columns 4 to 6. -/
def crossingLabels : Diagnostic :=
  { Diagnostic.error "mismatch" with
    labels := [⟨⟨1, 4⟩, .primary, none⟩, ⟨⟨3, 6⟩, .secondary, none⟩] }

theorem primary_shown_crossing :
    (∃ role, ∃ index < rowWidth "abcdef" 1, Underlined "abcdef" crossingLabels.labels role 1 (index + 1)) ∧
    ∃ (message? : Option String)
      (rows : MarkedLine (render false "abcdef" none crossingLabels) 1 (shownLine "abcdef" 1) message?),
      rows.row[1]? = some '^' ∧ rows.row[2]? = some '^' ∧ rows.row[3]? = some '-' := by
  have marked : ∃ role, ∃ index < rowWidth "abcdef" 1,
      Underlined "abcdef" crossingLabels.labels role 1 (index + 1) :=
    ⟨.primary, 1, by decide, by decide⟩
  obtain ⟨message?, rows, -, columns, -⟩ := primary_shown_iff "abcdef" none marked
  refine ⟨marked, message?, rows, ?_, ?_, ?_⟩
  · exact (columns 1 (by decide)).2.mpr (by decide)
  · exact (columns 2 (by decide)).2.mpr (by decide)
  · exact (columns 3 (by decide)).1.mpr (by decide)

/-- A primary label on column 3, inside a secondary one on columns 1 to 6. -/
def coveredLabels : Diagnostic :=
  { Diagnostic.error "mismatch" with
    labels := [⟨⟨2, 3⟩, .primary, none⟩, ⟨⟨0, 6⟩, .secondary, none⟩] }

/-- A primary label inside a secondary one has no mark of its own. -/
theorem primary_hidden :
    Underlined "abcdef" coveredLabels.labels .primary 1 3 ∧
    ∃ (message? : Option String)
      (rows : MarkedLine (render false "abcdef" none coveredLabels) 1 (shownLine "abcdef" 1) message?),
      rows.above = aboveLine "abcdef" none coveredLabels 1 ∧ rows.row[2]? = some '-' ∧
      ∀ index < rowWidth "abcdef" 1, rows.row[index]? ≠ some '^' := by
  have underlined : Underlined "abcdef" coveredLabels.labels .primary 1 (2 + 1) := by decide
  obtain ⟨message?, rows, above, isRow⟩ := exists_markedLine none (by decide) underlined
  have covered : ∀ index < rowWidth "abcdef" 1,
      ¬ (Underlined "abcdef" coveredLabels.labels .primary 1 (index + 1) ∧
        ¬ Underlined "abcdef" coveredLabels.labels .secondary 1 (index + 1)) := by
    decide
  refine ⟨underlined, message?, rows, above, ?_, fun index inRow => ?_⟩
  · rw [isRow, rowBelow_secondary (by decide)]
    decide
  · rw [isRow, Ne, rowBelow_primary inRow]
    exact covered index inRow

end Terminal

end Rill
