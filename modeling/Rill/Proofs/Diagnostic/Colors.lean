import Mathlib
import Rill.Proofs.Diagnostic.Overlaps
import Rill.Proofs.Text.Codes
import Rill.Proofs.Text.Positions

/-!
# Renderings with and without colours

Colours change nothing but colours: a rendering with colours, without its sequences of colour, is the
rendering without colours. The texts of the diagnostic and the source must not hold escapes of their own.

1. What is shown of a line comes from the source (`shownLine_free`), and what is written beside it from the
   labels (`lines_free`). So there are no escapes in them.
2. Each part of a rendering is shown as the same part without colours; the marks run by run
   (`shown_paintMarks`), and the lines one by one (`shown_sourceRows`).
-/

namespace Rill

open Text (EscapeFree ShownAs Style)

/-- None of the texts of a diagnostic has an escape. -/
structure Diagnostic.EscapeFree (d : Diagnostic) : Prop where
  code : ∀ code ∈ d.code?, Text.EscapeFree code
  message : Text.EscapeFree d.message
  labels : ∀ label ∈ d.labels, ∀ message ∈ label.message?, Text.EscapeFree message
  notes : ∀ note ∈ d.notes, Text.EscapeFree note
  help : ∀ help ∈ d.help?, Text.EscapeFree help

namespace Terminal

/-! ## Texts without escapes -/

theorem decimal_free (n : Nat) : EscapeFree (Text.decimal n) := fun member =>
  absurd (isDigit_of_mem_decimal member) (by decide)

theorem spaces_free (width : Nat) : EscapeFree (Text.spaces width) := by
  rw [EscapeFree, Text.spaces, String.toList_ofList]
  exact fun member => absurd (List.eq_of_mem_replicate member) (by decide)

theorem padLeft_free {text : String} (free : EscapeFree text) (width : Nat) :
    EscapeFree (Text.padLeft width text) :=
  (spaces_free _).append free

theorem severity_free (severity : Severity) : EscapeFree severity.name := by
  cases severity <;> decide

/-- What is shown of a line has no escapes when the source has none. -/
theorem shownLine_free {source : String} (free : EscapeFree source) (number : Nat) :
    EscapeFree (shownLine source number) := by
  rw [shownLine]
  rcases lineText?_cases source number with ⟨line, rfl, -⟩ | ⟨-, none⟩
  · rw [line.lineText?_eq, Option.getD_some, EscapeFree, String.toList_ofList]
    intro member
    refine free ?_
    rw [line.toList_eq, LineIn.piece]
    simp [member]
  · rw [none]
    decide

/-- A line whose text and whose messages have no escapes. -/
structure AnnotatedLine.EscapeFree (line : AnnotatedLine) : Prop where
  text : Text.EscapeFree line.text
  messages : ∀ highlight ∈ line.highlights, ∀ message ∈ highlight.message?, Text.EscapeFree message

theorem lines_free {source : String} (free : EscapeFree source) {d : Diagnostic} (texts : d.EscapeFree) :
    ∀ line ∈ annotatedLines (LineMap.ofSource source) source d.labels, line.EscapeFree := by
  intro line member
  obtain ⟨text, highlights⟩ := (annotatedLines_gathers source d.labels).each line member
  refine ⟨text ▸ shownLine_free free line.line, fun highlight isHighlight message isMessage => ?_⟩
  rw [highlights] at isHighlight
  obtain ⟨label, isOn, rfl⟩ := List.mem_map.mp isHighlight
  exact texts.labels label (mem_labelsOn.mp isOn).1 message isMessage

/-! ## Marks -/

/-- Rows of marks have nothing but marks and spaces. -/
theorem marks_free (highlights : List Highlight) (width : Nat) :
    '\x1b' ∉ marks (inOrder highlights) width := by
  intro member
  obtain ⟨index, isAt⟩ := List.mem_iff_getElem?.mp member
  obtain ⟨-, isMark⟩ := (marks_getElem? (by decide)).mp isAt
  rw [markAt_inOrder] at isMark
  repeat' split at isMark
  all_goals simp at isMark

theorem shown_paintMarks {row : List Char} (free : '\x1b' ∉ row) :
    ShownAs (paintMarks true row) (paintMarks false row) := by
  refine ShownAs.join fun run isRun => ?_
  have runFree : EscapeFree (String.ofList run) := by
    rw [EscapeFree, String.toList_ofList]
    intro member
    refine free ?_
    rw [← List.flatten_splitBy (· == ·) row]
    exact List.mem_flatten_of_mem isRun member
  dsimp only
  split
  · exact runFree.painted _
  · exact runFree.painted _
  · exact runFree.shown

/-! ## Parts of a rendering -/

theorem shown_space {colored plain : String} (shown : ShownAs colored plain) :
    ShownAs (colored ++ " ") (plain ++ " ") :=
  shown.append (EscapeFree.shown (by decide))

theorem shown_newline {colored plain : String} (shown : ShownAs colored plain) :
    ShownAs (colored ++ "\n") (plain ++ "\n") :=
  shown.append (EscapeFree.shown (by decide))

theorem shown_colon {colored plain : String} (shown : ShownAs colored plain) :
    ShownAs (colored ++ ": ") (plain ++ ": ") :=
  shown.append (EscapeFree.shown (by decide))

theorem shown_bar : ShownAs (bar true) (bar false) :=
  EscapeFree.painted (by decide) _

theorem shown_blankGutter (gutter : Nat) : ShownAs (blankGutter true gutter) (blankGutter false gutter) :=
  (shown_space (spaces_free _).shown).append shown_bar

theorem shown_markRows {line : AnnotatedLine} (free : line.EscapeFree) (gutter : Nat) :
    ShownAs (markRows true gutter line) (markRows false gutter line) := by
  have start := shown_space (shown_blankGutter gutter)
  have row := shown_paintMarks (marks_free line.highlights (Text.byteLength line.text.toList))
  have messages : ∀ entry ∈ (inOrder line.highlights).filterMap (fun highlight =>
      highlight.message?.map fun message => (highlight.start, highlight.role, message)),
      EscapeFree entry.2.2 := by
    intro entry member
    obtain ⟨highlight, isHighlight, isEntry⟩ := List.mem_filterMap.mp member
    obtain ⟨message, isMessage, rfl⟩ := Option.map_eq_some_iff.mp isEntry
    exact free.messages highlight (List.mem_mergeSort.mp isHighlight) message isMessage
  rw [markRows, markRows]
  dsimp only
  split
  · exact .empty
  · generalize (inOrder line.highlights).filterMap (fun highlight =>
      highlight.message?.map fun message => (highlight.start, highlight.role, message)) = entries at messages ⊢
    split
    · exact shown_newline (start.append row)
    · next column role message =>
        have message := (messages _ List.mem_cons_self).painted (roleStyle role)
        exact shown_newline ((shown_space (start.append row)).append message)
    · refine (shown_newline (start.append row)).append (ShownAs.join fun entry member => ?_)
      have message := (messages entry (List.mem_reverse.mp member)).painted (roleStyle entry.2.1)
      have line := EscapeFree.painted (by decide : EscapeFree "|") (roleStyle entry.2.1)
      exact shown_newline ((shown_space ((start.append (spaces_free _).shown).append line)).append message)

theorem shown_sourceRow {line : AnnotatedLine} (free : line.EscapeFree) (gutter : Nat) :
    ShownAs (sourceRow true gutter line) (sourceRow false gutter line) := by
  have number := (padLeft_free (decimal_free line.line) (gutter + 1)).painted (Style.ofBold .blue)
  exact shown_newline ((shown_space ((shown_space number).append shown_bar)).append free.text.shown)

theorem shown_lead (gutter : Nat) (previous? : Option Nat) (line : Nat) :
    ShownAs (lead true gutter previous? line) (lead false gutter previous? line) := by
  rw [lead.eq_def, lead.eq_def]
  split
  · exact shown_newline (shown_blankGutter gutter)
  · split
    · have dots := EscapeFree.painted (by decide : EscapeFree "...") (Style.ofColor .blue)
      exact shown_newline ((shown_space (spaces_free gutter).shown).append dots)
    · exact .empty

theorem shown_sourceRows {lines : List AnnotatedLine} (free : ∀ line ∈ lines, line.EscapeFree) (gutter : Nat)
    (previous? : Option Nat) :
    ShownAs (sourceRows true gutter previous? lines) (sourceRows false gutter previous? lines) := by
  induction lines generalizing previous? with
  | nil => exact .empty
  | cons line rest ih =>
      have lineFree := free line List.mem_cons_self
      rw [sourceRows, sourceRows]
      exact (((shown_lead gutter previous? line.line).append (shown_sourceRow lineFree gutter)).append
        (shown_markRows lineFree gutter)).append
          (ih (fun other member => free other (List.mem_cons_of_mem line member)) _)

section Diagnostic

variable {d : Diagnostic} (free : d.EscapeFree)
include free

theorem shown_header : ShownAs (header true d) (header false d) := by
  have code : ShownAs
      (d.code?.elim "" fun code => (Style.ofBold .red).paint true ("[" ++ code ++ "]"))
      (d.code?.elim "" fun code => (Style.ofBold .red).paint false ("[" ++ code ++ "]")) := by
    cases isCode : d.code? with
    | none => exact .empty
    | some code =>
        have bracketed : EscapeFree ("[" ++ code ++ "]") :=
          ((by decide : EscapeFree "[").append (free.code code isCode)).append (by decide)
        exact bracketed.painted _
  have named := (severity_free d.severity).painted (severityStyle d.severity)
  exact shown_newline ((shown_colon (named.append code)).append (free.message.painted _))

theorem shown_footer (gutter : Nat) : ShownAs (footer true gutter d) (footer false gutter d) := by
  have sign := EscapeFree.painted (by decide : EscapeFree "=") (Style.ofColor .cyan)
  have footerLine {kind text : String} (kindFree : EscapeFree kind) (textFree : EscapeFree text) :
      ShownAs (footerLine true gutter kind text) (footerLine false gutter kind text) := by
    have start := shown_space ((shown_space (spaces_free (gutter + 1)).shown).append sign)
    exact shown_newline ((shown_colon (start.append (kindFree.painted _))).append textFree.shown)
  refine (ShownAs.join fun note member => footerLine (by decide) (free.notes note member)).append ?_
  cases isHelp : d.help? with
  | none => exact .empty
  | some help => exact footerLine (by decide) (free.help help isHelp)

end Diagnostic

theorem shown_arrow {file : String} (free : EscapeFree file) (map : LineMap) (label : Label) (line : Nat) :
    ShownAs (arrow true map file label line) (arrow false map file label line) := by
  have sign := EscapeFree.painted (by decide : EscapeFree "-->") (Style.ofColor .blue)
  have start := (EscapeFree.shown (by decide : EscapeFree "  ")).append sign
  have colon : ShownAs ":" ":" := EscapeFree.shown (by decide)
  exact shown_newline (((((shown_space start).append free.shown).append colon).append
    (decimal_free line).shown).append colon |>.append (decimal_free _).shown)

/-- A diagnostic is rendered with colours as without them. -/
theorem shown_render {source : String} {file? : Option String} {d : Diagnostic} (sourceFree : EscapeFree source)
    (fileFree : ∀ file ∈ file?, EscapeFree file) (free : d.EscapeFree) :
    ShownAs (render true source file? d) (render false source file? d) := by
  have fileName : EscapeFree (file?.getD "<source>") := by
    cases file? with
    | none => decide
    | some file => exact fileFree file rfl
  have linesFree := lines_free sourceFree free
  rw [render, render]
  dsimp only
  split
  · next label others first later isLabels isLines =>
      have rows := shown_sourceRows linesFree
        (gutterWidth (annotatedLines (LineMap.ofSource source) source d.labels)) none
      have top := ((shown_header free).append (shown_arrow fileName (LineMap.ofSource source) label
        first.line)).append rows
      refine (top.append ?_).append (shown_footer free _)
      split
      · exact .empty
      · exact shown_newline (shown_blankGutter _)
  · exact (shown_header free).append (shown_footer free 2)

/-- Colours change nothing but colours: when neither the source nor the file name nor a text of the diagnostics
has an escape, a rendering with colours without its sequences of colour is the rendering without colours. -/
theorem colors_change_only_colors {source : String} {file? : Option String} {diagnostics : List Diagnostic}
    (sourceFree : EscapeFree source) (fileFree : ∀ file ∈ file?, EscapeFree file)
    (free : ∀ d ∈ diagnostics, d.EscapeFree) :
    Text.uncolored (renderAll true source file? diagnostics).toList =
      (renderAll false source file? diagnostics).toList := by
  have separator : ShownAs "\n" "\n" := EscapeFree.shown (by decide)
  exact (ShownAs.intercalate separator fun d member => shown_render sourceFree fileFree (free d member)).uncolored_eq

/-- A diagnostic with every kind of text, and two labels that cross. -/
def everyText : Diagnostic where
  severity := .warning
  code? := some "E0300"
  message := "mismatch"
  labels := [⟨⟨1, 4⟩, .primary, some "found u64"⟩, ⟨⟨3, 6⟩, .secondary, some "declared here"⟩]
  notes := ["named types are distinct"]
  help? := some "declare it first"

theorem colors_change_only_colors_of_everyText :
    EscapeFree "abcdef" ∧ everyText.EscapeFree ∧
    Text.uncolored (renderAll true "abcdef" (some "a.bk") [everyText, everyText]).toList =
      (renderAll false "abcdef" (some "a.bk") [everyText, everyText]).toList := by
  have sourceFree : EscapeFree "abcdef" := by decide
  have free : everyText.EscapeFree :=
    ⟨by decide, by decide, by decide, by decide, by decide⟩
  exact ⟨sourceFree, free, colors_change_only_colors sourceFree (by decide) (by simpa using free)⟩

end Terminal

end Rill
