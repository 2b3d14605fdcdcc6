import Mathlib
import Rill.Diagnostic.Terminal

/-!
# The place behind the arrow

A rendering names one place of the source behind its arrow. The line is the first one on which a label
starts, but the column is that of the diagnostic's first label, wherever this one starts:

    ab          first label: 2:4        --> <source>:1:4
    cdef        second label: 1:1

1. Adding a label to the annotated lines makes their first line the smaller one (`top_insertLine`), so in
   the end it is the least line of all labels (`top_annotatedLines`).
2. Digits end where the colon or the newline stands, so a rendering names only one place
   (`NamesPlace.unique`).
3. The place is that of a label exactly if a label on the least line starts in the column of the first
   label (`location_is_label_iff`). Without this it can be no place of the source at all
   (`location_outside_source`).
-/

namespace Rill

namespace Terminal

/-- The place at which a label starts. -/
def startOf (source : String) (label : Label) : Position :=
  (LineMap.ofSource source).position label.span.start

/-- The line of a rendering that names a place. -/
def placeLine (colored : Bool) (file : String) (place : Position) : String :=
  "  " ++ (Text.Style.ofColor .blue).paint colored "-->" ++ " " ++ file ++ ":" ++
    Text.decimal place.line ++ ":" ++ Text.decimal place.column ++ "\n"

/-- Below its header, the rendering of the diagnostic names the place. -/
def NamesPlace (colored : Bool) (source : String) (file? : Option String) (d : Diagnostic)
    (place : Position) : Prop :=
  ∃ rest, render colored source file? d =
    header colored d ++ placeLine colored (file?.getD "<source>") place ++ rest

/-! ## The first annotated line -/

theorem top_insertLine (new old : AnnotatedLine) (rest : List AnnotatedLine) :
    ∃ top later, insertLine new (old :: rest) = top :: later ∧ top.line = min old.line new.line := by
  rw [insertLine]
  split
  · next before => exact ⟨new, old :: rest, rfl, (Nat.min_eq_right (Nat.le_of_lt before)).symm⟩
  · split
    · next same => exact ⟨_, rest, rfl, by rw [same, Nat.min_self]⟩
    · next notBefore _ => exact ⟨old, _, rfl, (Nat.min_eq_left (Nat.le_of_not_lt notBefore)).symm⟩

/-- Each label leaves the smaller line on top. -/
theorem top_foldl (source : String) (labels : List Label) (old : AnnotatedLine)
    (rest : List AnnotatedLine) :
    ∃ top later, labels.foldl (fun lines label =>
        insertLine (annotate (LineMap.ofSource source) source label) lines) (old :: rest) = top :: later ∧
      top.line = (labels.map fun label => (startOf source label).line).foldl min old.line := by
  induction labels generalizing old rest with
  | nil => exact ⟨old, rest, rfl, rfl⟩
  | cons label labels ih =>
      obtain ⟨middle, between, inserted, isMin⟩ :=
        top_insertLine (annotate (LineMap.ofSource source) source label) old rest
      rw [List.foldl_cons, inserted, List.map_cons, List.foldl_cons]
      obtain ⟨top, later, folded, isTop⟩ := ih middle between
      exact ⟨top, later, folded, by rw [isTop, isMin]; rfl⟩

/-- The first of the annotated lines is the least one on which a label starts. -/
theorem top_annotatedLines (source : String) (first : Label) (others : List Label) :
    ∃ top later, annotatedLines (LineMap.ofSource source) source (first :: others) = top :: later ∧
      ((first :: others).map fun label => (startOf source label).line).min? = some top.line := by
  obtain ⟨top, later, folded, isTop⟩ :=
    top_foldl source others (annotate (LineMap.ofSource source) source first) []
  exact ⟨top, later, folded, by rw [isTop, List.map_cons, List.min?_cons']; rfl⟩

/-! ## The named place -/

/-- A rendering names the least line of its labels, with the column of the first label. -/
theorem names_least_line (colored : Bool) (source : String) (file? : Option String) {d : Diagnostic}
    {first : Label} {others : List Label} (labelled : d.labels = first :: others) :
    ∃ line, (d.labels.map fun label => (startOf source label).line).min? = some line ∧
      NamesPlace colored source file? d ⟨line, (startOf source first).column⟩ := by
  obtain ⟨top, later, lines, isLeast⟩ := top_annotatedLines source first others
  refine ⟨top.line, by rw [labelled, isLeast], ?_⟩
  rw [NamesPlace, render, labelled, lines]
  exact ⟨_, by simp only [String.append_assoc]; rfl⟩

theorem isDigit_of_mem_decimal {n : Nat} {c : Char} (member : c ∈ (Text.decimal n).toList) :
    c.isDigit = true := by
  rw [Text.decimal, String.toList_ofList] at member
  exact Nat.isDigit_of_mem_toDigits (by decide) (by decide) member

/-- A number is read back up to a character that is no digit. -/
theorem decimal_inj {m n : Nat} {c : Char} {rest rest' : List Char} (stops : c.isDigit = false)
    (same : (Text.decimal m).toList ++ c :: rest = (Text.decimal n).toList ++ c :: rest') :
    m = n ∧ rest = rest' := by
  have digits (k : Nat) (tail : List Char) :
      ((Text.decimal k).toList ++ c :: tail).takeWhile Char.isDigit = (Text.decimal k).toList := by
    rw [List.takeWhile_append_of_pos fun d member => isDigit_of_mem_decimal member,
      List.takeWhile_cons_of_neg (by simp [stops]), List.append_nil]
  have numerals : (Text.decimal m).toList = (Text.decimal n).toList := by
    rw [← digits m rest, same, digits]
  have value (k : Nat) : Nat.ofDigitChars 10 (Text.decimal k).toList 0 = k := by
    rw [Text.decimal, String.toList_ofList]
    exact Nat.ofDigitChars_toDigits (by decide) (by decide)
  refine ⟨by rw [← value m, numerals, value], ?_⟩
  rw [numerals] at same
  exact (List.cons.inj (List.append_cancel_left same)).2

/-- A rendering names only one place. -/
theorem NamesPlace.unique {colored : Bool} {source : String} {file? : Option String} {d : Diagnostic}
    {place other : Position} (named : NamesPlace colored source file? d place)
    (also : NamesPlace colored source file? d other) : place = other := by
  obtain ⟨rest, rendered⟩ := named
  obtain ⟨rest', rendered'⟩ := also
  have same := congrArg String.toList (rendered.symm.trans rendered')
  simp only [placeLine, String.toList_append, List.append_assoc, List.append_cancel_left_eq] at same
  obtain ⟨sameLine, same⟩ := decimal_inj (c := ':') rfl same
  obtain ⟨sameColumn, _⟩ := decimal_inj (c := '\n') rfl same
  cases place
  cases other
  exact congrArg₂ Position.mk sameLine sameColumn

/-- A rendering with labels names the least line of the labels and the column of the first one. This is
where a label starts exactly if one on the least line starts in the column of the first label. -/
theorem location_is_label_iff (colored : Bool) (source : String) (file? : Option String) {d : Diagnostic}
    {first : Label} {others : List Label} (labelled : d.labels = first :: others) :
    (∃ line, (d.labels.map fun label => (startOf source label).line).min? = some line ∧
      NamesPlace colored source file? d ⟨line, (startOf source first).column⟩) ∧
    ((∃ label ∈ d.labels, NamesPlace colored source file? d (startOf source label)) ↔
      ∃ label ∈ d.labels, (startOf source label).column = (startOf source first).column ∧
        ∀ other ∈ d.labels, (startOf source label).line ≤ (startOf source other).line) := by
  obtain ⟨line, isLeast, named⟩ := names_least_line colored source file? labelled
  obtain ⟨attained, least⟩ := List.min?_eq_some_iff.mp isLeast
  replace least : ∀ other ∈ d.labels, line ≤ (startOf source other).line := fun other member =>
    least _ (List.mem_map_of_mem member)
  refine ⟨⟨line, isLeast, named⟩, ?_, ?_⟩
  · rintro ⟨label, member, isNamed⟩
    have place := isNamed.unique named
    refine ⟨label, member, ?_, ?_⟩
    · rw [place]
    · rwa [place]
  · rintro ⟨label, member, sameColumn, onTop⟩
    obtain ⟨topmost, isLabel, isTop⟩ := List.mem_map.mp attained
    have sameLine : line = (startOf source label).line :=
      Nat.le_antisymm (least label member) (isTop ▸ onTop topmost isLabel)
    rw [sameLine, ← sameColumn] at named
    exact ⟨label, member, named⟩

/-- Two labels: the first starts at 2:4 and the second at 1:1. -/
def upwardLabels : Diagnostic :=
  { Diagnostic.error "mismatch" with
    labels := [⟨⟨6, 7⟩, .primary, none⟩, ⟨⟨0, 1⟩, .secondary, none⟩] }

/-- The same labels, the one on the earlier line first. -/
def downwardLabels : Diagnostic :=
  { upwardLabels with labels := upwardLabels.labels.reverse }

theorem location_is_label_downward :
    ∃ label ∈ downwardLabels.labels, NamesPlace false "ab\ncdef" none downwardLabels
      (startOf "ab\ncdef" label) :=
  (location_is_label_iff false "ab\ncdef" none rfl).2.mpr
    ⟨⟨⟨0, 1⟩, .secondary, none⟩, by decide, rfl, by decide +kernel⟩

/-- With the later line first, the rendering names 1:4, where the line has no column and no label starts. -/
theorem location_outside_source :
    NamesPlace false "ab\ncdef" none upwardLabels ⟨1, 4⟩ ∧
    ¬ ∃ label ∈ upwardLabels.labels, NamesPlace false "ab\ncdef" none upwardLabels
      (startOf "ab\ncdef" label) := by
  have starts : upwardLabels.labels.map (startOf "ab\ncdef") = [⟨2, 4⟩, ⟨1, 1⟩] := by decide +kernel
  have named : NamesPlace false "ab\ncdef" none upwardLabels ⟨1, 4⟩ := by
    obtain ⟨line, isLeast, named⟩ := names_least_line false "ab\ncdef" none (d := upwardLabels) rfl
    have first : some line = some 1 := isLeast.symm.trans (by decide +kernel)
    cases first
    exact named
  refine ⟨named, ?_⟩
  rintro ⟨label, member, alsoNamed⟩
  have isStart : (⟨1, 4⟩ : Position) ∈ upwardLabels.labels.map (startOf "ab\ncdef") :=
    named.unique alsoNamed ▸ List.mem_map_of_mem member
  rw [starts] at isStart
  revert isStart
  decide

end Terminal

end Rill
