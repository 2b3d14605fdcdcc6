import Mathlib
import Rill.Proofs.Token.Partition

/-!
# Parts of a source on their own

A source without lexical errors is cut again from the first of some lexemes to the last of them. Nothing
changes but the places: the excerpt has just these lexemes, shifted to its beginning (`exists_excerpt`).

Both ends need a reason. Scanning goes on from a piece as from the beginning of a text (`scan_drop`,
`scan_shift`), so nothing before an excerpt matters. And a piece stays one without the text behind it
(`scan_take`).
-/

namespace Rill

/-- The span that many bytes further on. -/
def Span.shift (distance : Nat) (span : Span) : Span :=
  ⟨distance + span.start, distance + span.stop⟩

namespace Lexeme

/-- The lexeme that many bytes further on. -/
def shift (distance : Nat) (lexeme : Lexeme) : Lexeme :=
  ⟨lexeme.token, lexeme.span.shift distance⟩

/-- The lexemes cover some bytes each, one behind the other. -/
structure InOrder (lexemes : List Lexeme) : Prop where
  nonempty : ∀ lexeme ∈ lexemes, lexeme.span.start < lexeme.span.stop
  apart : lexemes.Pairwise fun a b => a.span.stop ≤ b.span.start

namespace InOrder

variable {lexemes : List Lexeme} {i j : Nat} {a b : Lexeme}

theorem stop_le_start (inOrder : InOrder lexemes) (isFirst : lexemes[i]? = some a)
    (isSecond : lexemes[j]? = some b) (before : i < j) : a.span.stop ≤ b.span.start := by
  obtain ⟨_, rfl⟩ := List.getElem?_eq_some_iff.mp isFirst
  obtain ⟨_, rfl⟩ := List.getElem?_eq_some_iff.mp isSecond
  exact List.pairwise_iff_getElem.mp inOrder.apart i j _ _ before

theorem start_le_start (inOrder : InOrder lexemes) (isFirst : lexemes[i]? = some a)
    (isSecond : lexemes[j]? = some b) (notBehind : i ≤ j) : a.span.start ≤ b.span.start := by
  rcases Nat.eq_or_lt_of_le notBehind with rfl | before
  · cases isFirst.symm.trans isSecond
    exact Nat.le_refl _
  · have proper := inOrder.nonempty a (List.mem_of_getElem? isFirst)
    exact Nat.le_trans (Nat.le_of_lt proper) (inOrder.stop_le_start isFirst isSecond before)

theorem stop_le_stop (inOrder : InOrder lexemes) (isFirst : lexemes[i]? = some a)
    (isSecond : lexemes[j]? = some b) (notBehind : i ≤ j) : a.span.stop ≤ b.span.stop := by
  rcases Nat.eq_or_lt_of_le notBehind with rfl | before
  · cases isFirst.symm.trans isSecond
    exact Nat.le_refl _
  · have proper := inOrder.nonempty b (List.mem_of_getElem? isSecond)
    exact Nat.le_trans (inOrder.stop_le_start isFirst isSecond before) (Nat.le_of_lt proper)

end InOrder

end Lexeme

namespace Lexer

variable {source : String} {text : List Char}

/-! ## Where a scan begins -/

/-- The lexeme or the error that many bytes further on. -/
def Scanned.shift (distance : Nat) : Scanned → Scanned
  | .ok lexeme => .ok (lexeme.shift distance)
  | .error error => .error ⟨error.kind, error.span.shift distance⟩

theorem placeAt_shift (distance offset : Nat) (piece : List Char) (finding : Finding) :
    placeAt (distance + offset) piece finding = Scanned.shift distance (placeAt offset piece finding) := by
  cases finding <;>
    simp [placeAt, lexemeAt, Scanned.shift, Lexeme.shift, Span.shift, Nat.add_assoc]

/-- A text that begins further on is scanned in the same way. -/
theorem scan_shift (distance offset : Nat) (text : List Char) :
    scan (distance + offset) text = (scan offset text).map (Scanned.shift distance) := by
  induction text using pieces_induction generalizing offset with
  | nil => simp [scan]
  | next piece rest finding isPiece ih =>
      rw [scan_piece isPiece, scan_piece isPiece, List.map_append, Nat.add_assoc, ih]
      cases finding with
      | none => rfl
      | some finding => simp [placeAt_shift]

/-- A scan can go on from any piece. -/
theorem scan_drop (n offset : Nat) (text : List Char) : ∃ skipped rest, text = skipped ++ rest ∧
    (scan offset text).drop n = scan (offset + Text.byteLength skipped) rest ∧
    ∀ first ∈ ((scan offset text).drop n).head?,
      (Scanned.span first).start = offset + Text.byteLength skipped := by
  induction n generalizing offset text with
  | zero =>
      -- The gap in front is skipped, so that what is left begins with its first piece.
      rcases exists_gap text with final | ⟨gap, piece, rest, finding, rfl, isGap, isPiece⟩
      · refine ⟨[], text, rfl, rfl, ?_⟩
        rw [scan_finalGap final]
        rintro _ ⟨⟩
      · refine ⟨gap, piece ++ rest, rfl, scan_gap isGap offset _, ?_⟩
        rw [scan_found isGap isPiece]
        rintro _ ⟨⟩
        rw [span_placeAt]
  | succ n ih =>
      rcases exists_gap text with final | ⟨gap, piece, rest, finding, rfl, isGap, isPiece⟩
      · refine ⟨text, [], by simp, ?_, ?_⟩
        · rw [scan_finalGap final, scan, List.drop_nil]
        · rw [scan_finalGap final]
          rintro _ ⟨⟩
      · rw [scan_found isGap isPiece, List.drop_succ_cons]
        obtain ⟨skipped, rest, rfl, dropped, first⟩ := ih _ rest
        have place : offset + Text.byteLength (gap ++ (piece ++ skipped)) =
            offset + Text.byteLength gap + Text.byteLength piece + Text.byteLength skipped := by
          simp [Nat.add_assoc]
        rw [← place] at dropped first
        exact ⟨gap ++ (piece ++ skipped), rest, by simp, dropped, first⟩

/-! ## Where a scan ends -/

/-- A scan can stop behind any piece. -/
theorem scan_take (n offset : Nat) (text : List Char) : ∃ excerpt behind, text = excerpt ++ behind ∧
    scan offset excerpt = (scan offset text).take n ∧
    endFrom offset (((scan offset text).take n).map Scanned.span) = offset + Text.byteLength excerpt := by
  induction n generalizing offset text with
  | zero => exact ⟨[], text, rfl, by simp [scan], rfl⟩
  | succ n ih =>
      rcases exists_gap text with final | ⟨gap, piece, rest, finding, rfl, isGap, isPiece⟩
      · refine ⟨[], text, rfl, ?_⟩
        simp [scan, scan_finalGap final, endFrom]
      · obtain ⟨excerpt, behind, rfl, taken, ends⟩ :=
          ih (offset + Text.byteLength gap + Text.byteLength piece) rest
        refine ⟨gap ++ (piece ++ excerpt), behind, by simp, ?_, ?_⟩
        · rw [scan_found isGap isPiece.cut, scan_found isGap isPiece, taken, List.take_succ_cons]
        · rw [scan_found isGap isPiece, List.take_succ_cons, List.map_cons, span_placeAt, endFrom, ends]
          simp [Nat.add_assoc]

theorem endFrom_append_singleton (start : Nat) (spans : List Span) (last : Span) :
    endFrom start (spans ++ [last]) = last.stop := by
  induction spans generalizing start with
  | nil => rfl
  | cons span spans ih => exact ih span.stop

/-! ## Sources without errors -/

theorem map_ok_of_noErrors {pieces : List Scanned} (noErrors : (LexResult.ofScanned pieces).errors = []) :
    pieces = (LexResult.ofScanned pieces).lexemes.map .ok := by
  induction pieces with
  | nil => rfl
  | cons piece pieces ih =>
      cases piece with
      | ok lexeme => exact congrArg (.ok lexeme :: ·) (ih noErrors)
      | error error => cases noErrors

theorem scan_of_noErrors (noErrors : (tokenize source).errors = []) :
    scan 0 source.toList = (tokenize source).lexemes.map .ok := by
  rcases untilErrors_cases 19 (scan 0 source.toList) with ⟨_, all⟩ | ⟨many, _⟩
  · have whole : tokenize source = .ofScanned (scan 0 source.toList) := congrArg LexResult.ofScanned all
    rw [whole] at noErrors ⊢
    exact map_ok_of_noErrors noErrors
  · have none : (tokenize source).errors.length = 0 := congrArg List.length noErrors
    cases none.symm.trans many

/-- Lexemes that were met further on are met, shifted, at the beginning. -/
theorem tokenize_of_shift {distance : Nat} {lexemes : List Lexeme}
    (scanned : scan distance text = lexemes.map .ok) : (tokenize (String.ofList text)).errors = [] ∧
      (tokenize (String.ofList text)).lexemes.map (Lexeme.shift distance) = lexemes := by
  rw [← Nat.add_zero distance, scan_shift] at scanned
  have isOk : ∃ near : List Lexeme, scan 0 text = near.map .ok ∧ near.map (Lexeme.shift distance) = lexemes := by
    generalize scan 0 text = pieces at scanned
    induction pieces generalizing lexemes with
    | nil =>
        cases lexemes with
        | nil => exact ⟨[], rfl, rfl⟩
        | cons lexeme lexemes => cases scanned
    | cons piece pieces ih =>
        cases lexemes with
        | nil => cases scanned
        | cons lexeme lexemes =>
            obtain ⟨first, others⟩ := List.cons.inj scanned
            obtain ⟨near, rfl, rfl⟩ := ih others
            cases piece with
            | ok piece =>
                cases first
                exact ⟨piece :: near, rfl, rfl⟩
            | error error => cases first
  obtain ⟨near, isNear, shifted⟩ := isOk
  rw [tokenize, String.toList_ofList, isNear, maxErrors, untilErrors_ok, ofScanned_ok]
  exact ⟨rfl, shifted⟩

theorem inOrder_of_noErrors (noErrors : (tokenize source).errors = []) :
    Lexeme.InOrder (tokenize source).lexemes := by
  have partition := (partition_scan [] source.toList).1 _ List.prefix_rfl
  rw [Text.byteLength_nil, scan_of_noErrors noErrors] at partition
  refine ⟨fun lexeme member => ?_, ?_⟩
  · exact partition.nonempty (.ok lexeme) (List.mem_map_of_mem member)
  · have inOrder := partition.inOrder
    rw [List.map_map, List.pairwise_map] at inOrder
    exact inOrder

/-- The text from the first of some lexemes to the last of them has these lexemes. -/
theorem exists_excerpt (noErrors : (tokenize source).errors = []) {p n : Nat} {first last : Lexeme}
    (isFirst : (tokenize source).lexemes[p]? = some first)
    (isLast : (tokenize source).lexemes[p + n]? = some last) :
    ∃ text, (Span.mk first.span.start last.span.stop).text? source = some text ∧
      (tokenize text).errors = [] ∧ (tokenize text).lexemes.map (Lexeme.shift first.span.start) =
        ((tokenize source).lexemes.drop p).take (n + 1) := by
  have scanned := scan_of_noErrors noErrors
  generalize (tokenize source).lexemes = lexemes at *
  -- The source is cut in front of the first lexeme, and what is left behind the last one.
  obtain ⟨skipped, rest, isSource, dropped, starts⟩ := scan_drop p 0 source.toList
  obtain ⟨excerpt, behind, rfl, taken, ends⟩ := scan_take (n + 1) (0 + Text.byteLength skipped) rest
  rw [← dropped, scanned, ← List.map_drop, ← List.map_take] at taken ends
  rw [scanned] at starts
  rw [Nat.zero_add] at taken ends starts
  have start : first.span.start = Text.byteLength skipped :=
    starts (.ok first) (by simp [isFirst])
  have stop : last.span.stop = Text.byteLength skipped + Text.byteLength excerpt := by
    have lastOnes : (lexemes.drop p).take (n + 1) = (lexemes.drop p).take n ++ [last] := by
      rw [List.take_add_one, List.getElem?_drop, isLast]
      rfl
    rw [lastOnes, List.map_append, List.map_append] at ends
    exact (endFrom_append_singleton _ _ _).symm.trans ends
  have holds : (Span.mk first.span.start last.span.stop).Holds source.toList excerpt behind :=
    ⟨skipped, isSource, by rw [start, stop]⟩
  refine ⟨String.ofList excerpt, holds.text?, ?_⟩
  rw [start]
  exact tokenize_of_shift taken

end Lexer

end Rill
