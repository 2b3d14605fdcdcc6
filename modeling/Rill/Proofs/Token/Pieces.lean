import Mathlib
import Rill.Token.Lexer

/-!
# Pieces of a text

Scanning cuts a text into pieces, one behind the other: blanks, comments, numbers, words, symbols and
characters that start nothing. `IsPiece` says what a piece is, seen with the text behind it.

* A text that is not empty begins with a piece (`exists_piece`), and scanning takes it off
  (`scan_piece`).
* Blanks, and comments with the end of their line, make gaps, which are passed over (`scan_gap`). What a
  scan meets first is a piece behind a gap, or nothing at all (`exists_gap`). `scan_induction` goes from
  each piece that is found to the next.
* Only the next character can tell whether a piece goes on, so a piece stays one when the text behind
  it is cut off (`IsPiece.cut`).
-/

namespace Rill

namespace Lexer

variable {c : Char} {piece rest text tail : List Char} {offset : Nat}

/-! ## Characters -/

theorem continuesWord_of_blank (blank : isBlank c = true) : continuesWord c = false := by
  simp only [isBlank, Bool.or_eq_true, beq_iff_eq] at blank
  rcases blank with (((rfl | rfl) | rfl) | rfl) | rfl <;> rfl

theorem isBlank_of_continues (continues : continuesWord c = true) : isBlank c = false := by
  cases blank : isBlank c with
  | false => rfl
  | true => cases (continuesWord_of_blank blank).symm.trans continues

theorem isLetter_not_digit (letter : isLetter c = true) : isDigit c = false := by
  cases digit : isDigit c with
  | false => rfl
  | true =>
      simp only [isDigit, isLetter, Bool.or_eq_true, Bool.and_eq_true, decide_eq_true_eq, beq_iff_eq,
        Char.le_def, UInt32.le_iff_toNat_le] at digit letter
      rcases letter with (⟨low, _⟩ | ⟨low, _⟩) | rfl
      · exact absurd (low.trans digit.2) (by decide)
      · exact absurd (low.trans digit.2) (by decide)
      · exact absurd digit.2 (by decide)

theorem classify_letter (letter : isLetter c = true) : classify c = .letter := by
  have continues : continuesWord c = true := by simp [continuesWord, letter]
  simp [classify, isBlank_of_continues continues, isLetter_not_digit letter, letter]

theorem classify_digit (digit : isDigit c = true) : classify c = .digit := by
  have continues : continuesWord c = true := by simp [continuesWord, digit]
  simp [classify, isBlank_of_continues continues, digit]

theorem continuesWord_of_number (continues : continuesNumber c = true) : continuesWord c = true := by
  simp only [continuesNumber, Bool.or_eq_true, beq_iff_eq] at continues
  rcases continues with digit | rfl
  · simp [continuesWord, digit]
  · rfl

theorem classify_blank (blank : isBlank c = true) : classify c = .blank := by
  simp [classify, blank]

/-! ## Pieces -/

/-- The next character, if there is one, does not continue. -/
def Stops (continues : Char → Bool) (rest : List Char) : Prop :=
  ∀ next ∈ rest.head?, continues next = false

theorem Stops.mono {continues continues' : Char → Bool} (stops : Stops continues rest)
    (narrower : ∀ x, continues' x = true → continues x = true) : Stops continues' rest := by
  intro next isNext
  rw [Bool.eq_false_iff]
  intro more
  cases (stops next isNext).symm.trans (narrower next more)

/-- What a piece is found to be. -/
abbrev Finding := Except LexErrorKind Token

/-- What a whole number is found to be. -/
def numberFinding (cs : List Char) : Finding :=
  match numberToken? cs with
  | some token => .ok token
  | none => .error .invalidNumber

/-- The characters `piece`, with `rest` behind them, are one piece of a text. The finding is that of a
piece that is not dropped. -/
inductive IsPiece : (piece rest : List Char) → Option Finding → Prop
  | blank {c : Char} {rest : List Char} : classify c = .blank → IsPiece [c] rest none
  | comment {line rest : List Char} : '\n' ∉ line → Stops (· != '\n') rest →
      IsPiece ('/' :: '/' :: line) rest none
  | number {c : Char} {tail rest : List Char} : classify c = .digit →
      (∀ x ∈ tail, continuesNumber x = true) → Stops continuesNumber rest →
      IsPiece (c :: tail) rest (some (numberFinding (c :: tail)))
  | word {c : Char} {tail rest : List Char} : classify c = .letter →
      (∀ x ∈ tail, continuesWord x = true) → Stops continuesWord rest →
      IsPiece (c :: tail) rest (some (.ok (wordToken (String.ofList (c :: tail)))))
  | arrow {rest : List Char} : IsPiece ['-', '>'] rest (some (.ok .arrow))
  | doubleColon {rest : List Char} : IsPiece [':', ':'] rest (some (.ok .doubleColon))
  | colon {rest : List Char} : Stops (· == ':') rest → IsPiece [':'] rest (some (.ok .colon))
  | symbol {c : Char} {token : Token} {rest : List Char} : classify c = .symbol token →
      IsPiece [c] rest (some (.ok token))
  | slash {rest : List Char} : Stops (· == '/') rest →
      IsPiece ['/'] rest (some (.error (.unexpectedChar '/')))
  | dash {rest : List Char} : Stops (· == '>') rest →
      IsPiece ['-'] rest (some (.error (.unexpectedChar '-')))
  | stray {c : Char} {rest : List Char} : classify c = .other →
      IsPiece [c] rest (some (.error (.unexpectedChar c)))

/-- The finding with its place, for a piece that begins at byte `offset`. -/
def placeAt (offset : Nat) (piece : List Char) : Finding → Scanned
  | .ok token => lexemeAt offset token piece
  | .error kind => .error ⟨kind, ⟨offset, offset + Text.byteLength piece⟩⟩

/-- What a character of each class is. -/
theorem classify_spec (c : Char) : match classify c with
    | .blank => isBlank c = true
    | .digit => isDigit c = true
    | .letter => isLetter c = true
    | .slash => c = '/'
    | .dash => c = '-'
    | .colon => c = ':'
    | .symbol token => symbol? c = some token
    | .other => isBlank c = false ∧ continuesWord c = false ∧ c ≠ ':' ∧ symbol? c = none := by
  unfold classify
  by_cases blank : isBlank c = true
  · simp only [blank, if_true]
  by_cases digit : isDigit c = true
  · simp only [blank, digit, if_true, if_false, Bool.false_eq_true]
  by_cases letter : isLetter c = true
  · simp only [blank, digit, letter, if_true, if_false, Bool.false_eq_true]
  by_cases slash : c = '/'
  · subst slash; rfl
  by_cases dash : c = '-'
  · subst dash; rfl
  by_cases colon : c = ':'
  · subst colon; rfl
  simp only [blank, digit, letter, beq_iff_eq, slash, dash, colon, if_false, Bool.false_eq_true]
  cases symbol : symbol? c with
  | some token => rfl
  | none => simp [continuesWord, digit, letter, colon]

theorem takeWhile_stops {continues : Char → Bool} (inner : ∀ x ∈ tail, continues x = true)
    (stops : Stops continues rest) : (tail ++ rest).takeWhile continues = tail := by
  have noMore : rest.takeWhile continues = [] := by
    cases rest with
    | nil => rfl
    | cons next rest => simp [stops next rfl]
  rw [List.takeWhile_append_of_pos inner, noMore, List.append_nil]

theorem stops_dropWhile (continues : Char → Bool) (cs : List Char) :
    Stops continues (cs.dropWhile continues) := by
  intro next isNext
  have first := List.head?_dropWhile_not continues cs
  rw [Option.mem_def.mp isNext] at first
  simpa using first

/-- A text that is not empty begins with a piece. -/
theorem exists_piece (c : Char) (cs : List Char) : ∃ piece rest finding,
    c :: cs = piece ++ rest ∧ IsPiece piece rest finding := by
  have spec := classify_spec c
  have whole : ∀ continues : Char → Bool,
      c :: cs = (c :: cs.takeWhile continues) ++ cs.dropWhile continues := fun continues => by
    rw [List.cons_append, List.takeWhile_append_dropWhile]
  have inner : ∀ continues : Char → Bool, ∀ x ∈ cs.takeWhile continues, continues x = true :=
    fun _ _ => List.mem_takeWhile_imp
  -- A character alone, unless `next` comes behind it.
  have alone : ∀ next : Char, (∃ behind, cs = next :: behind) ∨ Stops (· == next) cs := by
    intro next
    cases cs with
    | nil => exact Or.inr nofun
    | cons d behind =>
        by_cases same : d = next
        · exact Or.inl ⟨behind, by rw [same]⟩
        · refine Or.inr fun e isNext => ?_
          cases isNext
          simpa using same
  cases class_ : classify c with
  | blank => exact ⟨[c], cs, none, rfl, .blank class_⟩
  | digit => exact ⟨_, _, _, whole continuesNumber, .number class_ (inner _) (stops_dropWhile _ cs)⟩
  | letter => exact ⟨_, _, _, whole continuesWord, .word class_ (inner _) (stops_dropWhile _ cs)⟩
  | symbol token => exact ⟨[c], cs, _, rfl, .symbol class_⟩
  | other => exact ⟨[c], cs, _, rfl, .stray class_⟩
  | slash =>
      rw [class_] at spec
      subst spec
      rcases alone '/' with ⟨behind, rfl⟩ | stops
      · refine ⟨'/' :: '/' :: behind.takeWhile (· != '\n'), behind.dropWhile (· != '\n'), none, ?_,
          .comment (fun inLine => ?_) (stops_dropWhile _ behind)⟩
        · simp [List.takeWhile_append_dropWhile]
        · simpa using List.mem_takeWhile_imp inLine
      · exact ⟨['/'], cs, _, rfl, .slash stops⟩
  | dash =>
      rw [class_] at spec
      subst spec
      rcases alone '>' with ⟨behind, rfl⟩ | stops
      · exact ⟨['-', '>'], behind, _, rfl, .arrow⟩
      · exact ⟨['-'], cs, _, rfl, .dash stops⟩
  | colon =>
      rw [class_] at spec
      subst spec
      rcases alone ':' with ⟨behind, rfl⟩ | stops
      · exact ⟨[':', ':'], behind, _, rfl, .doubleColon⟩
      · exact ⟨[':'], cs, _, rfl, .colon stops⟩

namespace IsPiece

variable {finding : Option Finding} {behind : List Char}

theorem ne_nil (isPiece : IsPiece piece rest finding) : piece ≠ [] := by
  cases isPiece <;> exact List.cons_ne_nil _ _

/-- A piece stays one when the text behind it is cut off. -/
theorem cut (isPiece : IsPiece piece (rest ++ behind) finding) : IsPiece piece rest finding := by
  -- The next character alone tells whether a piece ends.
  have stops : ∀ {continues : Char → Bool}, Stops continues (rest ++ behind) → Stops continues rest := by
    intro continues stops next isNext
    refine stops next ?_
    rw [List.head?_append, Option.mem_def.mp isNext]
    rfl
  cases isPiece with
  | blank class_ => exact .blank class_
  | comment inLine ends => exact .comment inLine (stops ends)
  | number class_ inner ends => exact .number class_ inner (stops ends)
  | word class_ inner ends => exact .word class_ inner (stops ends)
  | arrow => exact .arrow
  | doubleColon => exact .doubleColon
  | colon ends => exact .colon (stops ends)
  | symbol class_ => exact .symbol class_
  | slash ends => exact .slash (stops ends)
  | dash ends => exact .dash (stops ends)
  | stray class_ => exact .stray class_

/-- The step at the first character of a piece takes the whole piece. -/
theorem step_eq (isPiece : IsPiece piece rest finding) (offset : Nat) : ∃ c tail, piece = c :: tail ∧
    step offset c (tail ++ rest) = (finding.map (placeAt offset piece), tail.length) := by
  -- Of the two pieces that can begin alike, the longer one is not there.
  have other : ∀ {next : Char}, Stops (· == next) rest → ∀ more, rest ≠ next :: more := by
    rintro next stops more rfl
    simpa using stops next rfl
  cases isPiece with
  | @blank c _ class_ => exact ⟨c, [], rfl, by simp [step, class_]⟩
  | @comment line _ inLine ends =>
      refine ⟨'/', '/' :: line, rfl, ?_⟩
      have inner : ∀ x ∈ line, (x != '\n') = true := fun x member =>
        bne_iff_ne.mpr fun same => inLine (same ▸ member)
      show (none, 1 + ((line ++ rest).takeWhile (· != '\n')).length) = _
      rw [takeWhile_stops inner ends, Nat.add_comm]
      rfl
  | @number c tail _ class_ inner ends =>
      refine ⟨c, tail, rfl, ?_⟩
      unfold step
      simp only [class_, takeWhile_stops inner ends, Option.map_some]
      unfold numberAt numberFinding
      cases numberToken? (c :: tail) <;> rfl
  | @word c tail _ class_ inner ends =>
      refine ⟨c, tail, rfl, ?_⟩
      unfold step
      simp only [class_, takeWhile_stops inner ends]
      rfl
  | arrow => exact ⟨'-', ['>'], rfl, rfl⟩
  | doubleColon => exact ⟨':', [':'], rfl, rfl⟩
  | colon ends =>
      refine ⟨':', [], rfl, ?_⟩
      cases rest with
      | nil => rfl
      | cons next more =>
          have different := other ends more
          simp only [ne_eq, List.cons.injEq, and_true] at different
          simp [step, show classify ':' = .colon from rfl, different, placeAt]
  | @symbol c token _ class_ => exact ⟨c, [], rfl, by simp [step, class_, placeAt]⟩
  | slash ends =>
      refine ⟨'/', [], rfl, ?_⟩
      cases rest with
      | nil => rfl
      | cons next more =>
          have different := other ends more
          simp only [ne_eq, List.cons.injEq, and_true] at different
          simp [step, show classify '/' = .slash from rfl, different, placeAt, strayAt]
  | dash ends =>
      refine ⟨'-', [], rfl, ?_⟩
      cases rest with
      | nil => rfl
      | cons next more =>
          have different := other ends more
          simp only [ne_eq, List.cons.injEq, and_true] at different
          simp [step, show classify '-' = .dash from rfl, different, placeAt, strayAt]
  | @stray c _ class_ => exact ⟨c, [], rfl, by simp [step, class_, placeAt, strayAt]⟩

end IsPiece

/-- Scanning takes a piece off the text. -/
theorem scan_piece {finding : Option Finding} (isPiece : IsPiece piece rest finding) (offset : Nat) :
    scan offset (piece ++ rest) = (finding.map (placeAt offset piece)).toList ++
      scan (offset + Text.byteLength piece) rest := by
  obtain ⟨c, tail, rfl, steps⟩ := isPiece.step_eq offset
  rw [List.cons_append, scan, steps]
  simp only [List.take_left, List.drop_left]
  cases finding <;> rfl

/-- Induction along the pieces of a text. -/
theorem pieces_induction {motive : List Char → Prop} (nil : motive [])
    (next : ∀ piece rest finding, IsPiece piece rest finding → motive rest → motive (piece ++ rest))
    (text : List Char) : motive text := by
  induction size : text.length using Nat.strong_induction_on generalizing text with
  | _ n ih =>
    cases text with
    | nil => exact nil
    | cons c cs =>
        obtain ⟨piece, rest, finding, same, isPiece⟩ := exists_piece c cs
        have shorter : rest.length < n := by
          have nonempty := List.length_pos_iff.mpr isPiece.ne_nil
          rw [← size, same, List.length_append]
          omega
        rw [same]
        exact next piece rest finding isPiece (ih _ shorter rest rfl)

/-! ## Gaps -/

/-- A gap between pieces: blanks, and comments with the end of their line. -/
inductive Gap : List Char → Prop
  | nil : Gap []
  | blank {c : Char} {text : List Char} : isBlank c = true → Gap text → Gap (c :: text)
  | comment {line text : List Char} : '\n' ∉ line → Gap ('\n' :: text) →
      Gap ('/' :: '/' :: (line ++ '\n' :: text))

/-- What can stand behind the last piece: a gap, and perhaps a comment that the text ends in. -/
inductive FinalGap : List Char → Prop
  | gap {text : List Char} : Gap text → FinalGap text
  | comment {text line : List Char} : Gap text → '\n' ∉ line → FinalGap (text ++ '/' :: '/' :: line)

/-- Scanning passes over a gap. -/
theorem scan_gap (gap : Gap text) (offset : Nat) (rest : List Char) :
    scan offset (text ++ rest) = scan (offset + Text.byteLength text) rest := by
  induction gap generalizing offset with
  | nil => simp
  | @blank c text blank _ ih =>
      have first := scan_piece (.blank (classify_blank blank) : IsPiece [c] (text ++ rest) none) offset
      rw [List.singleton_append] at first
      rw [List.cons_append, first, Option.map_none, Option.toList_none, List.nil_append, ih]
      simp [Nat.add_assoc]
  | @comment line text inLine _ ih =>
      have stops : Stops (· != '\n') ('\n' :: (text ++ rest)) := by
        rintro _ ⟨⟩
        rfl
      have first := scan_piece (.comment inLine stops) offset
      have same : '/' :: '/' :: (line ++ '\n' :: text) ++ rest =
          '/' :: '/' :: line ++ '\n' :: (text ++ rest) := by simp
      rw [same, first, Option.map_none, Option.toList_none, List.nil_append, ← List.cons_append, ih]
      simp [Nat.add_assoc]

/-- A piece that is found does not begin with the end of a line. -/
theorem IsPiece.head_ne_newline {finding : Finding} (isPiece : IsPiece piece rest (some finding)) :
    piece.head? ≠ some '\n' := by
  have notBlank : ∀ {c : Char}, classify c ≠ .blank → (some c : Option Char) ≠ some '\n' := by
    rintro c other ⟨⟩
    exact other rfl
  cases isPiece with
  | number class_ | word class_ | symbol class_ | stray class_ =>
      exact notBlank (by simp [class_])
  | arrow | doubleColon | colon | slash | dash => exact notBlank (by decide)

theorem FinalGap.blank (blank : isBlank c = true) (final : FinalGap text) : FinalGap (c :: text) := by
  cases final with
  | gap gap => exact .gap (.blank blank gap)
  | comment gap inLine => exact .comment (.blank blank gap) inLine

theorem FinalGap.afterComment {line : List Char} (inLine : '\n' ∉ line) (final : FinalGap ('\n' :: text)) :
    FinalGap ('/' :: '/' :: (line ++ '\n' :: text)) := by
  generalize newline : '\n' :: text = rest at final ⊢
  cases final with
  | gap gap =>
      subst newline
      exact .gap (.comment inLine gap)
  | @comment between last gap inLast =>
      cases between with
      | nil => cases newline
      | cons d between =>
          obtain ⟨rfl, _⟩ := List.cons.inj newline
          have joined := FinalGap.comment (.comment inLine gap) inLast
          simpa using joined

/-- A text is a gap with a piece that is found behind it, or such a piece does not come. -/
theorem exists_gap (text : List Char) : FinalGap text ∨
    ∃ gap piece rest finding, text = gap ++ (piece ++ rest) ∧ Gap gap ∧ IsPiece piece rest (some finding) := by
  induction text using pieces_induction with
  | nil => exact Or.inl (.gap .nil)
  | next piece rest finding? isPiece ih =>
      cases finding? with
      | some finding => exact Or.inr ⟨[], piece, rest, finding, rfl, .nil, isPiece⟩
      | none =>
          cases isPiece with
          | @blank c _ class_ =>
              have blank : isBlank c = true := by
                have spec := classify_spec c
                rwa [class_] at spec
              rcases ih with final | ⟨gap, piece, behind, finding, rfl, isGap, isPiece⟩
              · exact Or.inl (final.blank blank)
              · exact Or.inr ⟨c :: gap, piece, behind, finding, rfl, .blank blank isGap, isPiece⟩
          | @comment line _ inLine stops =>
              cases rest with
              | nil =>
                  rw [List.append_nil]
                  exact Or.inl (.comment .nil inLine)
              | cons next more =>
                  have newline : next = '\n' := by simpa using stops next rfl
                  subst newline
                  rcases ih with final | ⟨gap, piece, behind, finding, same, isGap, isPiece⟩
                  · exact Or.inl (final.afterComment inLine)
                  · -- The end of the line belongs to the gap, because no piece begins with it.
                    cases gap with
                    | nil =>
                        obtain ⟨d, tail, rfl⟩ := List.exists_cons_of_ne_nil isPiece.ne_nil
                        obtain ⟨rfl, _⟩ := List.cons.inj same
                        exact absurd rfl isPiece.head_ne_newline
                    | cons d gap =>
                        obtain ⟨rfl, rfl⟩ := List.cons.inj same
                        exact Or.inr ⟨_, piece, behind, finding, by simp, .comment inLine isGap, isPiece⟩

/-- Nothing is met in what can stand behind the last piece. -/
theorem scan_finalGap (final : FinalGap text) (offset : Nat) : scan offset text = [] := by
  cases final with
  | gap gap =>
      have passed := scan_gap gap offset []
      rwa [List.append_nil, scan] at passed
  | comment gap inLine =>
      have dropped := scan_piece (.comment inLine (show Stops (· != '\n') [] by rintro _ ⟨⟩))
      rw [scan_gap gap, ← List.append_nil ('/' :: _), dropped, scan]
      rfl

/-- What a scan meets behind a gap is the piece there. -/
theorem scan_found {gap : List Char} {finding : Finding} (isGap : Gap gap)
    (isPiece : IsPiece piece rest (some finding)) (offset : Nat) :
    scan offset (gap ++ (piece ++ rest)) = placeAt (offset + Text.byteLength gap) piece finding ::
      scan (offset + Text.byteLength gap + Text.byteLength piece) rest := by
  rw [scan_gap isGap, scan_piece isPiece]
  rfl

/-- Induction along the pieces that a scan finds. `before` is the text that was scanned already. -/
theorem scan_induction {motive : (before text : List Char) → List Scanned → Prop}
    (final : ∀ before text, FinalGap text → motive before text [])
    (found : ∀ before gap piece rest finding later, Gap gap → IsPiece piece rest (some finding) →
      motive (before ++ gap ++ piece) rest later → motive before (gap ++ (piece ++ rest))
        (placeAt (Text.byteLength (before ++ gap)) piece finding :: later))
    (before text : List Char) : motive before text (scan (Text.byteLength before) text) := by
  induction size : text.length using Nat.strong_induction_on generalizing before text with
  | _ n ih =>
    rcases exists_gap text with isFinal | ⟨gap, piece, rest, finding, rfl, isGap, isPiece⟩
    · rw [scan_finalGap isFinal]
      exact final before text isFinal
    · have shorter : rest.length < n := by
        have nonempty := List.length_pos_iff.mpr isPiece.ne_nil
        rw [← size, List.length_append, List.length_append]
        omega
      rw [scan_found isGap isPiece, ← Text.byteLength_append, ← Text.byteLength_append]
      exact found before gap piece rest finding _ isGap isPiece (ih _ shorter _ rest rfl)

end Lexer

end Rill
