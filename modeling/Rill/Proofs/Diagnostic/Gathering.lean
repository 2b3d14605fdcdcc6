import Mathlib
import Rill.Proofs.Diagnostic.Location
import Rill.Proofs.Diagnostic.Marks

/-!
# Labels gathered line by line

The labels of a diagnostic are taken one after the other, each to the line on which it starts. A line that
is there already gets one more highlight, and a new line goes to its place among the others.

1. Adding a line to lines in order either joins it with one of them or puts it between them
   (`insertLine_inserted`).
2. So in the end the lines are in order, each once, and each has the highlights of just the labels that start
   on it, in the order of the labels (`annotatedLines_gathers`).
3. The rendering shows every line with its rows of marks directly below it (`render_eq_above`).
-/

namespace Rill

namespace Terminal

/-- What is shown of a line of the source. -/
def shownLine (source : String) (number : Nat) : String :=
  ((LineMap.ofSource source).lineText? source number).getD ""

/-- A label as a highlight of the line on which it starts. -/
def highlightOf (source : String) (label : Label) : Highlight :=
  let start := startOf source label
  let stop := (LineMap.ofSource source).position label.span.stop
  let column :=
    if stop.line = start.line then stop.column
    else Text.byteLength (shownLine source start.line).toList + 1
  ⟨start.column, max column (start.column + 1), label.role, label.message?⟩

theorem annotate_ofSource (source : String) (label : Label) :
    annotate (LineMap.ofSource source) source label =
      ⟨(startOf source label).line, shownLine source (startOf source label).line,
        [highlightOf source label]⟩ :=
  rfl

/-! ## Adding a line -/

/-- Adding `new` to some lines joins it with the one of the same number, or puts it between those before and
those after it. -/
inductive Inserted (new : AnnotatedLine) : List AnnotatedLine → List AnnotatedLine → Prop
  | joined (before : List AnnotatedLine) {after : List AnnotatedLine} {old : AnnotatedLine} :
      old.line = new.line →
      Inserted new (before ++ old :: after)
        (before ++ { old with highlights := old.highlights ++ new.highlights } :: after)
  | added (before : List AnnotatedLine) {after : List AnnotatedLine} :
      (∀ line ∈ before, line.line < new.line) → (∀ line ∈ after, new.line < line.line) →
      Inserted new (before ++ after) (before ++ new :: after)

theorem Inserted.cons {new first : AnnotatedLine} {lines after : List AnnotatedLine}
    (earlier : first.line < new.line) (inserted : Inserted new lines after) :
    Inserted new (first :: lines) (first :: after) := by
  cases inserted with
  | joined before same => exact .joined (first :: before) same
  | added before below above =>
      refine .added (first :: before) (fun line member => ?_) above
      rcases List.mem_cons.mp member with rfl | later
      · exact earlier
      · exact below line later

theorem insertLine_inserted (new : AnnotatedLine) {lines : List AnnotatedLine}
    (ordered : lines.Pairwise (·.line < ·.line)) : Inserted new lines (insertLine new lines) := by
  induction lines with
  | nil => exact .added [] (by simp) (by simp)
  | cons old rest ih =>
      obtain ⟨first, restOrdered⟩ := List.pairwise_cons.mp ordered
      rw [insertLine]
      split
      · next before =>
          refine .added [] (by simp) fun line member => ?_
          rcases List.mem_cons.mp member with rfl | later
          · exact before
          · exact Nat.lt_trans before (first line later)
      · next notBefore =>
          split
          · next same => exact .joined [] same.symm
          · next differs => exact (ih restOrdered).cons (by omega)

namespace Inserted

variable {new : AnnotatedLine} {lines after : List AnnotatedLine}

/-- Adding a line keeps lines in order. -/
theorem ordered (inserted : Inserted new lines after) (inOrder : lines.Pairwise (·.line < ·.line)) :
    after.Pairwise (·.line < ·.line) := by
  cases inserted with
  | @joined before later old same =>
      -- Only numbers are compared, and joining keeps the number.
      have numbers :
          (before ++ { old with highlights := old.highlights ++ new.highlights } :: later).map (·.line) =
            (before ++ old :: later).map (·.line) := by
        simp
      exact List.pairwise_map.mp (numbers ▸ List.pairwise_map.mpr inOrder)
  | added before below above =>
      obtain ⟨front, after, between⟩ := List.pairwise_append.mp inOrder
      refine List.pairwise_append.mpr ⟨front, List.pairwise_cons.mpr ⟨above, after⟩, ?_⟩
      intro line member other isOther
      rcases List.mem_cons.mp isOther with rfl | later
      · exact below line member
      · exact between line member other later

theorem mem_numbers (inserted : Inserted new lines after) {number : Nat} :
    number ∈ after.map (·.line) ↔ number ∈ lines.map (·.line) ∨ number = new.line := by
  cases inserted with
  | joined before same =>
      simp only [List.map_append, List.map_cons, List.mem_append, List.mem_cons, same]
      tauto
  | added =>
      simp only [List.map_append, List.map_cons, List.mem_append, List.mem_cons]
      tauto

/-- Each line afterwards is an old one with another number, the one that was joined, or the new one, when
there was none of its number. -/
theorem mem_cases (inserted : Inserted new lines after) (inOrder : lines.Pairwise (·.line < ·.line))
    {line : AnnotatedLine} (member : line ∈ after) :
    (line ∈ lines ∧ line.line ≠ new.line) ∨
      (∃ old ∈ lines, old.line = new.line ∧
        line = { old with highlights := old.highlights ++ new.highlights }) ∨
      (line = new ∧ new.line ∉ lines.map (·.line)) := by
  cases inserted with
  | @joined before later old same =>
      rw [List.pairwise_append, List.pairwise_cons] at inOrder
      obtain ⟨-, ⟨above, -⟩, below⟩ := inOrder
      rcases List.mem_append.mp member with isBefore | member
      · have less := below line isBefore old List.mem_cons_self
        exact .inl ⟨List.mem_append_left _ isBefore, same ▸ Nat.ne_of_lt less⟩
      rcases List.mem_cons.mp member with rfl | isLater
      · exact .inr (.inl ⟨old, List.mem_append_right _ List.mem_cons_self, same, rfl⟩)
      · have greater := above line isLater
        exact .inl ⟨List.mem_append_right _ (List.mem_cons_of_mem _ isLater), same ▸ Nat.ne_of_gt greater⟩
  | @added before later below above =>
      rcases List.mem_append.mp member with isBefore | member
      · exact .inl ⟨List.mem_append_left _ isBefore, Nat.ne_of_lt (below line isBefore)⟩
      rcases List.mem_cons.mp member with rfl | isLater
      · refine .inr (.inr ⟨rfl, fun isNumber => ?_⟩)
        obtain ⟨other, isOther, sameNumber⟩ := List.mem_map.mp isNumber
        rcases List.mem_append.mp isOther with isBefore | isLater
        · exact Nat.ne_of_lt (below other isBefore) sameNumber
        · exact Nat.ne_of_gt (above other isLater) sameNumber
      · exact .inl ⟨List.mem_append_right _ isLater, Nat.ne_of_gt (above line isLater)⟩

end Inserted

/-! ## Gathering all labels -/

/-- The labels that start on a line. -/
def labelsOn (source : String) (labels : List Label) (number : Nat) : List Label :=
  labels.filter fun label => (startOf source label).line == number

theorem mem_labelsOn {source : String} {labels : List Label} {number : Nat} {label : Label} :
    label ∈ labelsOn source labels number ↔ label ∈ labels ∧ (startOf source label).line = number := by
  simp [labelsOn]

theorem labelsOn_concat_same {source : String} {label : Label} {number : Nat}
    (same : (startOf source label).line = number) (labels : List Label) :
    labelsOn source (labels ++ [label]) number = labelsOn source labels number ++ [label] := by
  simp [labelsOn, same]

theorem labelsOn_concat_other {source : String} {label : Label} {number : Nat}
    (differs : (startOf source label).line ≠ number) (labels : List Label) :
    labelsOn source (labels ++ [label]) number = labelsOn source labels number := by
  simp [labelsOn, differs]

/-- Lines with what is shown of them and the highlights of the labels that start on them. -/
structure Gathers (source : String) (labels : List Label) (lines : List AnnotatedLine) : Prop where
  ordered : lines.Pairwise (·.line < ·.line)
  each : ∀ line ∈ lines, line.text = shownLine source line.line ∧
    line.highlights = (labelsOn source labels line.line).map (highlightOf source)
  all : ∀ label ∈ labels, (startOf source label).line ∈ lines.map (·.line)

theorem Gathers.concat {source : String} {labels : List Label} {lines after : List AnnotatedLine}
    (gathers : Gathers source labels lines) {label : Label}
    (inserted : Inserted (annotate (LineMap.ofSource source) source label) lines after) :
    Gathers source (labels ++ [label]) after := by
  obtain ⟨ordered, each, all⟩ := gathers
  refine ⟨inserted.ordered ordered, fun line member => ?_, fun other isOther => ?_⟩
  · rcases inserted.mem_cases ordered member with
      ⟨known, differs⟩ | ⟨old, known, same, rfl⟩ | ⟨rfl, isNew⟩
    · rw [labelsOn_concat_other (Ne.symm differs)]
      exact each line known
    · obtain ⟨text, highlights⟩ := each old known
      refine ⟨text, ?_⟩
      rw [labelsOn_concat_same same.symm, List.map_append, ← highlights]
      rfl
    · -- No label so far starts on the new line: the line would be there.
      have none : labelsOn source labels (startOf source label).line = [] := by
        refine List.eq_nil_iff_forall_not_mem.mpr fun other isOther => isNew ?_
        obtain ⟨known, sameLine⟩ := mem_labelsOn.mp isOther
        rw [annotate_ofSource, ← sameLine]
        exact all other known
      exact ⟨rfl, by simp [annotate_ofSource, labelsOn_concat_same, none]⟩
  · rw [inserted.mem_numbers]
    rcases List.mem_append.mp isOther with known | isNew
    · exact .inl (all other known)
    · rw [List.mem_singleton.mp isNew]
      exact .inr rfl

/-- The annotated lines gather all labels. -/
theorem annotatedLines_gathers (source : String) (labels : List Label) :
    Gathers source labels (annotatedLines (LineMap.ofSource source) source labels) := by
  induction labels using List.reverseRecOn with
  | nil => exact ⟨List.Pairwise.nil, by simp [annotatedLines], by simp⟩
  | append_singleton labels label ih =>
      rw [annotatedLines, List.foldl_append]
      exact ih.concat (insertLine_inserted _ ih.ordered)

/-! ## Lines in a rendering -/

theorem sourceRows_append (colored : Bool) (gutter : Nat) (previous? : Option Nat)
    (before : List AnnotatedLine) (line : AnnotatedLine) (after : List AnnotatedLine) :
    sourceRows colored gutter previous? (before ++ line :: after) =
      sourceRows colored gutter previous? before ++
        lead colored gutter ((before.getLast?.map (·.line)).or previous?) line.line ++
        sourceRow colored gutter line ++ markRows colored gutter line ++
        sourceRows colored gutter (some line.line) after := by
  induction before generalizing previous? with
  | nil => simp [sourceRows]
  | cons first rest ih =>
      have last : ((first :: rest).getLast?.map (·.line)).or previous? =
          (rest.getLast?.map (·.line)).or (some first.line) := by
        cases rest with
        | nil => rfl
        | cons second rest => simp [List.getLast?_cons]
      rw [List.cons_append, sourceRows, ih, sourceRows, last]
      simp only [String.append_assoc]

/-- What a rendering shows above a line: its header, its arrow and the earlier lines. -/
def aboveLine (source : String) (file? : Option String) (d : Diagnostic) (number : Nat) : String :=
  let map := LineMap.ofSource source
  let lines := annotatedLines map source d.labels
  let earlier := lines.filter (·.line < number)
  header false d ++
    (match d.labels, lines with
      | label :: _, first :: _ => arrow false map (file?.getD "<source>") label first.line
      | _, _ => "") ++
    sourceRows false (gutterWidth lines) none earlier ++
    lead false (gutterWidth lines) (earlier.getLast?.map (·.line)) number

theorem earlier_eq {before after : List AnnotatedLine} {line : AnnotatedLine}
    (ordered : (before ++ line :: after).Pairwise (·.line < ·.line)) :
    (before ++ line :: after).filter (·.line < line.line) = before := by
  rw [List.pairwise_append, List.pairwise_cons] at ordered
  obtain ⟨-, ⟨above, -⟩, below⟩ := ordered
  have kept : before.filter (·.line < line.line) = before :=
    List.filter_eq_self.mpr fun other member => by simpa using below other member line List.mem_cons_self
  have dropped : (line :: after).filter (·.line < line.line) = [] := by
    refine List.filter_eq_nil_iff.mpr fun other member => ?_
    rcases List.mem_cons.mp member with rfl | later
    · simp
    · simpa using Nat.le_of_lt (above other later)
  rw [List.filter_append, kept, dropped, List.append_nil]

/-- In a rendering, the rows of a line stand behind what is above it. -/
theorem render_eq_above {source : String} (file? : Option String) {d : Diagnostic} {line : AnnotatedLine}
    (member : line ∈ annotatedLines (LineMap.ofSource source) source d.labels) :
    ∃ below, render false source file? d =
      aboveLine source file? d line.line ++
        sourceRow false (gutterWidth (annotatedLines (LineMap.ofSource source) source d.labels)) line ++
        markRows false (gutterWidth (annotatedLines (LineMap.ofSource source) source d.labels)) line ++
        below := by
  have ordered := (annotatedLines_gathers source d.labels).ordered
  obtain ⟨before, after, split⟩ := List.append_of_mem member
  rw [aboveLine]
  cases labels : d.labels with
  | nil => simp [labels, annotatedLines] at member
  | cons label others =>
      obtain ⟨top, later, lines, -⟩ := top_annotatedLines source label others
      rw [labels] at split ordered
      have earlier : (top :: later).filter (·.line < line.line) = before := by
        rw [← lines, split]
        exact earlier_eq (split ▸ ordered)
      have rows := sourceRows_append false (gutterWidth (top :: later)) none before line after
      rw [← split, lines, Option.or_none] at rows
      rw [render]
      simp only [labels, lines, earlier, rows, String.append_assoc]
      exact ⟨_, rfl⟩

end Terminal

end Rill
