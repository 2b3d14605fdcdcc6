import Mathlib
import Rill.Proofs.Token.Pieces

/-!
# A source is cut into lexemes, errors and gaps

The lexemes and the errors of a source stand in it one behind the other, each on its own characters,
and what lies between them is blanks and comments (`tokenize_partitions`).

* `Spells` says which texts are found to be a token or an error, and `lengthens` which character would
  have to be part of the same piece.
* `Partition` says how pieces lie in a source. It holds of everything that a scan finds and of each
  beginning of that (`partition_scan`), so also of what is read up to the last error that is reported.
-/

namespace Rill

/-- The characters `text` of a source cover the span, and `behind` follows them. -/
def Span.Holds (span : Span) (source text behind : List Char) : Prop :=
  ∃ before, source = before ++ (text ++ behind) ∧
    span = ⟨Text.byteLength before, Text.byteLength before + Text.byteLength text⟩

theorem Span.Holds.text? {span : Span} {source : String} {text behind : List Char}
    (holds : span.Holds source.toList text behind) : span.text? source = some (String.ofList text) := by
  obtain ⟨before, isSource, rfl⟩ := holds
  rw [Span.text?, isSource, ← List.append_assoc, Text.sliceBytes_append, Option.map_some]

namespace Lexer

/-! ## What a piece spells -/

/-- A letter or underscore followed by letters, digits and underscores. -/
def isWord (text : String) : Bool :=
  match text.toList with
  | [] => false
  | c :: tail => isLetter c && tail.all continuesWord

/-- A digit followed by digits and underscores. -/
def isNumeral : List Char → Bool
  | [] => false
  | c :: tail => isDigit c && tail.all continuesNumber

/-- The number that the digits of a text denote. -/
def denoted (text : List Char) : Nat :=
  Nat.ofDigits 10 ((text.filter isDigit).reverse.map fun c => c.toNat - '0'.toNat)

/-- The tokens that are words but no identifiers. -/
def keywords : List Token :=
  [.void, .u64, .returnWord, .printWord]

/-- A word that is no keyword. -/
def isName (text : String) : Bool :=
  isWord text && !(keywords.map Token.text).contains text

/-- The text is one for which the token or the error is found. -/
def Spells (text : List Char) : Finding → Prop
  | .ok (.int value) => isNumeral text = true ∧ denoted text = value.toNat
  | .ok (.ident name) => isName name = true ∧ text = name.toList
  | .ok token => text = token.text.toList
  | .error .invalidNumber => isNumeral text = true ∧ 2 ^ 64 ≤ denoted text
  | .error (.unexpectedChar c) => text = [c] ∧ isBlank c = false ∧ continuesWord c = false ∧ c ≠ ':' ∧
      symbol? c = none

/-- Whether a character right behind a piece would have to be part of it. -/
def lengthens (finding : Finding) (next : Char) : Bool :=
  match finding with
  | .ok (.int _) | .error .invalidNumber => continuesNumber next
  | .ok (.ident _) | .ok .void | .ok .u64 | .ok .returnWord | .ok .printWord => continuesWord next
  | .ok .colon => next == ':'
  | .error (.unexpectedChar c) => c == '/' && next == '/' || c == '-' && next == '>'
  | _ => false

theorem exists_of_isWord {word : String} (isWord : isWord word = true) :
    ∃ c tail, word = String.ofList (c :: tail) ∧ isLetter c = true ∧ ∀ x ∈ tail, continuesWord x = true := by
  unfold Lexer.isWord at isWord
  cases chars : word.toList with
  | nil => simp [chars] at isWord
  | cons c tail =>
      simp only [chars, Bool.and_eq_true, List.all_eq_true] at isWord
      exact ⟨c, tail, by rw [← chars, String.ofList_toList], isWord.1, isWord.2⟩

theorem exists_of_isNumeral {text : List Char} (numeral : isNumeral text = true) :
    ∃ c tail, text = c :: tail ∧ isDigit c = true ∧ ∀ x ∈ tail, continuesNumber x = true := by
  cases text with
  | nil => cases numeral
  | cons c tail =>
      simp only [isNumeral, Bool.and_eq_true, List.all_eq_true] at numeral
      exact ⟨c, tail, rfl, numeral.1, numeral.2⟩

theorem numberValue_eq {text : List Char} (numeral : isNumeral text = true) :
    numberValue text = denoted text := by
  have digits : text.filter (· != '_') = text.filter isDigit := by
    refine List.filter_congr fun c member => ?_
    have continues : continuesNumber c = true := by
      obtain ⟨first, tail, rfl, digit, inner⟩ := exists_of_isNumeral numeral
      rcases List.mem_cons.mp member with rfl | inTail
      · simp [continuesNumber, digit]
      · exact inner c inTail
    by_cases underscore : c = '_'
    · subst underscore
      rfl
    · have isDigit : isDigit c = true := by simpa [continuesNumber, underscore] using continues
      rw [isDigit, bne_iff_ne.mpr underscore]
  rw [numberValue, denoted, digits]
  -- The first digit read is the last one of the list that `Nat.ofDigits` takes.
  induction text.filter isDigit using List.reverseRecOn with
  | nil => rfl
  | append_singleton cs c ih =>
      rw [List.foldl_append, ih, List.reverse_append, List.map_append, List.reverse_singleton,
        List.map_singleton, List.singleton_append, Nat.ofDigits_cons, Nat.add_comm]
      rfl

theorem numberFinding_of_lt {text : List Char} (numeral : isNumeral text = true)
    (fits : denoted text < UInt64.size) : numberFinding text = .ok (.int (UInt64.ofNat (denoted text))) := by
  simp [numberFinding, numberToken?, numberValue_eq numeral, fits]

theorem numberFinding_of_le {text : List Char} (numeral : isNumeral text = true)
    (large : UInt64.size ≤ denoted text) : numberFinding text = .error .invalidNumber := by
  simp [numberFinding, numberToken?, numberValue_eq numeral, Nat.not_lt.mpr large]

theorem spells_number {text : List Char} (numeral : isNumeral text = true) :
    Spells text (numberFinding text) := by
  rcases Nat.lt_or_ge (denoted text) UInt64.size with fits | large
  · rw [numberFinding_of_lt numeral fits]
    exact ⟨numeral, (UInt64.toNat_ofNat_of_lt fits).symm⟩
  · rw [numberFinding_of_le numeral large]
    exact ⟨numeral, large⟩

theorem lengthens_number (text : List Char) : lengthens (numberFinding text) = continuesNumber := by
  unfold numberFinding numberToken?
  dsimp only
  by_cases fits : numberValue text < UInt64.size
  · rw [if_pos fits]
    rfl
  · rw [if_neg fits]
    rfl

theorem lengthens_stray (c next : Char) : lengthens (.error (.unexpectedChar c)) next =
    (c == '/' && next == '/' || c == '-' && next == '>') := rfl

theorem wordToken_cases (word : String) :
    (wordToken word = .ident word ∧ word ∉ keywords.map Token.text) ∨
      (wordToken word ∈ keywords ∧ word = (wordToken word).text) := by
  unfold wordToken
  split_ifs with isVoid isU64 isReturn isPrint
  · exact Or.inr ⟨by simp [keywords], isVoid⟩
  · exact Or.inr ⟨by simp [keywords], isU64⟩
  · exact Or.inr ⟨by simp [keywords], isReturn⟩
  · exact Or.inr ⟨by simp [keywords], isPrint⟩
  · exact Or.inl ⟨rfl, by simp [keywords, Token.text, isVoid, isU64, isReturn, isPrint]⟩

/-- A name is a word, and read as an identifier. -/
theorem isName_spec {name : String} (valid : isName name = true) :
    isWord name = true ∧ wordToken name = .ident name := by
  simp only [isName, Bool.and_eq_true, Bool.not_eq_true', List.contains_eq_mem, decide_eq_false_iff_not] at valid
  refine ⟨valid.1, ?_⟩
  rcases wordToken_cases name with ⟨isIdent, _⟩ | ⟨isKeyword, written⟩
  · exact isIdent
  · exact absurd (List.mem_map.mpr ⟨_, isKeyword, written.symm⟩) valid.2

theorem spells_word {word : String} (isWord : isWord word = true) :
    Spells word.toList (.ok (wordToken word)) ∧ lengthens (.ok (wordToken word)) = continuesWord := by
  rcases wordToken_cases word with ⟨isIdent, other⟩ | ⟨isKeyword, written⟩
  · rw [isIdent]
    exact ⟨⟨by simp [isName, isWord, other], rfl⟩, rfl⟩
  · have chars := congrArg String.toList written
    generalize wordToken word = token at isKeyword chars
    simp only [keywords, List.mem_cons, List.not_mem_nil, or_false] at isKeyword
    rcases isKeyword with rfl | rfl | rfl | rfl <;> exact ⟨chars, rfl⟩

theorem spells_symbol {c : Char} {token : Token} (symbol : symbol? c = some token) :
    Spells [c] (.ok token) ∧ lengthens (.ok token) = fun _ => false := by
  unfold symbol? at symbol
  split at symbol <;> cases symbol <;> exact ⟨rfl, rfl⟩

/-- Only an error is spelled by a number that does not fit. -/
theorem Spells.invalidNumber {text : List Char} {finding : Finding} (spells : Spells text finding)
    (numeral : isNumeral text = true) (large : 2 ^ 64 ≤ denoted text) :
    finding = .error .invalidNumber := by
  cases finding with
  | error kind =>
      cases kind with
      | invalidNumber => rfl
      | unexpectedChar c =>
          obtain ⟨rfl, _, noWord, _⟩ := spells
          simp only [isNumeral, Bool.and_eq_true] at numeral
          simp [continuesWord, numeral.1] at noWord
  | ok token =>
      cases token with
      | int value =>
          have small : value.toNat < 2 ^ 64 := value.toNat_lt
          exact absurd (spells.2 ▸ large) (Nat.not_le.mpr small)
      | ident name =>
          obtain ⟨isName, rfl⟩ := spells
          obtain ⟨c, tail, rfl, letter, _⟩ := exists_of_isWord (isName_spec isName).1
          simp only [String.toList_ofList, isNumeral, Bool.and_eq_true] at numeral
          cases (isLetter_not_digit letter).symm.trans numeral.1
      | opening bracket | closing bracket => cases bracket <;> cases spells <;> cases numeral
      | _ =>
          cases spells
          cases numeral

/-- A piece spells what it is found to be, and it ends where it has to. -/
theorem IsPiece.spells {piece rest : List Char} {finding : Finding}
    (isPiece : IsPiece piece rest (some finding)) :
    Spells piece finding ∧ Stops (lengthens finding) rest := by
  cases isPiece with
  | @number c tail _ class_ inner stops =>
      have digit := classify_spec c
      rw [class_] at digit
      have numeral : isNumeral (c :: tail) = true := by simpa [isNumeral, digit] using inner
      exact ⟨spells_number numeral, lengthens_number (c :: tail) ▸ stops⟩
  | @word c tail _ class_ inner stops =>
      have letter := classify_spec c
      rw [class_] at letter
      have isWord : isWord (String.ofList (c :: tail)) = true := by
        simpa [Lexer.isWord, letter] using inner
      obtain ⟨spells, ends⟩ := spells_word isWord
      rw [String.toList_ofList] at spells
      exact ⟨spells, ends ▸ stops⟩
  | arrow | doubleColon => exact ⟨rfl, fun _ _ => rfl⟩
  | colon stops => exact ⟨rfl, stops⟩
  | @symbol c token _ class_ =>
      have symbol := classify_spec c
      rw [class_] at symbol
      obtain ⟨spells, ends⟩ := spells_symbol symbol
      exact ⟨spells, ends ▸ fun _ _ => rfl⟩
  | slash stops | dash stops =>
      exact ⟨⟨rfl, by decide⟩, fun next isNext => by simpa [lengthens_stray] using stops next isNext⟩
  | @stray c _ class_ =>
      have other := classify_spec c
      rw [class_] at other
      refine ⟨⟨rfl, other⟩, fun next _ => ?_⟩
      have noSlash : c ≠ '/' := by
        rintro rfl
        cases class_
      have noDash : c ≠ '-' := by
        rintro rfl
        cases class_
      simp [lengthens_stray, noSlash, noDash]

section Written

variable {text rest : List Char}

theorem isPiece_numeral (numeral : isNumeral text = true) (stops : Stops continuesNumber rest) :
    IsPiece text rest (some (numberFinding text)) := by
  obtain ⟨c, tail, rfl, digit, inner⟩ := exists_of_isNumeral numeral
  exact .number (classify_digit digit) inner stops

theorem isPiece_word (word : String) (isWord : isWord word = true) (stops : Stops continuesWord rest) :
    IsPiece word.toList rest (some (.ok (wordToken word))) := by
  obtain ⟨c, tail, rfl, letter, inner⟩ := exists_of_isWord isWord
  rw [String.toList_ofList]
  exact .word (classify_letter letter) inner stops

end Written

/-! ## How pieces lie in a source -/

/-- Where a lexeme or an error stands. -/
def Scanned.span : Scanned → Span
  | .ok lexeme => lexeme.span
  | .error error => error.span

/-- What a lexeme or an error was found to be. -/
def Scanned.finding : Scanned → Finding
  | .ok lexeme => .ok lexeme.token
  | .error error => .error error.kind

/-- The spans from byte `start` to the first of the given ones, and from each of them to the next. -/
def gapsFrom (start : Nat) : List Span → List Span
  | [] => []
  | span :: spans => ⟨start, span.start⟩ :: gapsFrom span.stop spans

/-- Where the last of the spans ends; without any, at byte `start`. -/
def endFrom (start : Nat) : List Span → Nat
  | [] => start
  | span :: spans => endFrom span.stop spans

/-- The pieces lie in a source from byte `start` on: in order and apart from each other, each on
characters that spell it and that could not be more, and with gaps between them. -/
structure Partition (source : List Char) (start : Nat) (pieces : List Scanned) : Prop where
  nonempty : ∀ piece ∈ pieces, (Scanned.span piece).start < (Scanned.span piece).stop
  behind : ∀ piece ∈ pieces, start ≤ (Scanned.span piece).start
  inOrder : (pieces.map Scanned.span).Pairwise fun a b => a.stop ≤ b.start
  spelled : ∀ piece ∈ pieces, ∃ text behind, (Scanned.span piece).Holds source text behind ∧
    Spells text (Scanned.finding piece) ∧ Stops (lengthens (Scanned.finding piece)) behind ∧
    (isNumeral text = true → 2 ^ 64 ≤ denoted text → Scanned.finding piece = .error .invalidNumber)
  gaps : ∀ gap ∈ gapsFrom start (pieces.map Scanned.span), ∃ text behind,
    gap.Holds source text behind ∧ Gap text

theorem span_placeAt (offset : Nat) (piece : List Char) (finding : Finding) :
    Scanned.span (placeAt offset piece finding) = ⟨offset, offset + Text.byteLength piece⟩ := by
  cases finding <;> rfl

theorem finding_placeAt (offset : Nat) (piece : List Char) (finding : Finding) :
    Scanned.finding (placeAt offset piece finding) = finding := by
  cases finding <;> rfl

theorem byteLength_pos {cs : List Char} (nonempty : cs ≠ []) : 0 < Text.byteLength cs :=
  Nat.lt_of_lt_of_le (List.length_pos_iff.mpr nonempty) (Text.length_le_byteLength cs)

theorem Partition.nil (source : List Char) (start : Nat) : Partition source start [] :=
  ⟨nofun, nofun, .nil, nofun, nofun⟩

/-- A piece behind a gap, before other pieces. -/
theorem Partition.cons {before gap piece rest : List Char} {finding : Finding} {later : List Scanned}
    (isGap : Gap gap) (isPiece : IsPiece piece rest (some finding))
    (others : Partition (before ++ (gap ++ (piece ++ rest)))
      (Text.byteLength (before ++ gap ++ piece)) later) :
    Partition (before ++ (gap ++ (piece ++ rest))) (Text.byteLength before)
      (placeAt (Text.byteLength (before ++ gap)) piece finding :: later) := by
  have size := byteLength_pos isPiece.ne_nil
  have stop : Text.byteLength (before ++ gap ++ piece) =
      Text.byteLength (before ++ gap) + Text.byteLength piece := Text.byteLength_append _ _
  have start : Text.byteLength (before ++ gap) = Text.byteLength before + Text.byteLength gap :=
    Text.byteLength_append _ _
  refine ⟨List.forall_mem_cons.mpr ⟨?_, others.nonempty⟩, List.forall_mem_cons.mpr ⟨?_, fun other member => ?_⟩,
    List.pairwise_cons.mpr ⟨?_, others.inOrder⟩, List.forall_mem_cons.mpr ⟨?_, others.spelled⟩, ?_⟩
  · rw [span_placeAt]
    exact Nat.lt_add_of_pos_right size
  · rw [span_placeAt]
    exact start ▸ Nat.le_add_right _ _
  · have later := others.behind other member
    omega
  · rw [span_placeAt, List.forall_mem_map]
    exact fun other member => stop ▸ others.behind other member
  · rw [span_placeAt, finding_placeAt]
    obtain ⟨spells, stops⟩ := isPiece.spells
    exact ⟨piece, rest, ⟨before ++ gap, by simp, rfl⟩, spells, stops, spells.invalidNumber⟩
  · rw [List.map_cons, span_placeAt, gapsFrom, ← stop]
    refine List.forall_mem_cons.mpr ⟨⟨gap, piece ++ rest, ⟨before, rfl, ?_⟩, isGap⟩, others.gaps⟩
    rw [start]

/-- Everything that a scan finds, and each beginning of it, lies in the source; behind all of it there
is no other piece. -/
theorem partition_scan (before text : List Char) :
    (∀ pieces, pieces <+: scan (Text.byteLength before) text →
      Partition (before ++ text) (Text.byteLength before) pieces) ∧
    ∃ last, (Span.mk (endFrom (Text.byteLength before)
        ((scan (Text.byteLength before) text).map Scanned.span)) (Text.byteLength (before ++ text))).Holds
      (before ++ text) last [] ∧ FinalGap last := by
  induction before, text using scan_induction with
  | final before text final =>
      refine ⟨fun pieces isPrefix => ?_, text, ⟨before, by simp, ?_⟩, final⟩
      · rw [List.prefix_nil.mp isPrefix]
        exact .nil _ _
      · rw [Text.byteLength_append]
        rfl
  | found before gap piece rest finding later isGap isPiece ih =>
      have source : before ++ (gap ++ (piece ++ rest)) = before ++ gap ++ piece ++ rest := by simp
      rw [← source] at ih
      refine ⟨fun pieces isPrefix => ?_, ?_⟩
      · cases pieces with
        | nil => exact .nil _ _
        | cons first more =>
            obtain ⟨rfl, more⟩ := List.cons_prefix_cons.mp isPrefix
            exact .cons isGap isPiece (ih.1 _ more)
      · rw [List.map_cons, span_placeAt, endFrom, ← Text.byteLength_append]
        exact ih.2

/-! ## Reading up to the last error -/

theorem untilErrors_ok (limit : Nat) (lexemes : List Lexeme) :
    untilErrors (limit + 1) (lexemes.map .ok) = lexemes.map .ok := by
  induction lexemes with
  | nil => rfl
  | cons lexeme lexemes ih => exact congrArg (Except.ok lexeme :: ·) ih

theorem ofScanned_ok (lexemes : List Lexeme) : LexResult.ofScanned (lexemes.map .ok) = ⟨lexemes, []⟩ := by
  induction lexemes with
  | nil => rfl
  | cons lexeme lexemes ih => rw [List.map_cons, LexResult.ofScanned, ih]

theorem untilErrors_initial (limit : Nat) (pieces : List Scanned) : untilErrors limit pieces <+: pieces := by
  fun_induction untilErrors limit pieces with
  | case1 => exact List.nil_prefix
  | case2 => exact List.prefix_rfl
  | case3 _ lexeme _ ih => exact List.cons_prefix_cons.mpr ⟨rfl, ih⟩
  | case4 _ error _ ih => exact List.cons_prefix_cons.mpr ⟨rfl, ih⟩

/-- Reading ends with the last error that is reported, or with the text. -/
theorem untilErrors_cases (limit : Nat) (pieces : List Scanned) :
    (LexResult.ofScanned (untilErrors (limit + 1) pieces)).errors.length < limit + 1 ∧
        untilErrors (limit + 1) pieces = pieces ∨
      (LexResult.ofScanned (untilErrors (limit + 1) pieces)).errors.length = limit + 1 ∧
        ∃ error, (untilErrors (limit + 1) pieces).getLast? = some (.error error) := by
  induction pieces generalizing limit with
  | nil => exact Or.inl ⟨Nat.succ_pos limit, rfl⟩
  | cons piece pieces ih =>
      cases piece with
      | ok lexeme =>
          rw [untilErrors, LexResult.ofScanned]
          rcases ih limit with ⟨few, all⟩ | ⟨many, error, last⟩
          · exact Or.inl ⟨few, by rw [all]⟩
          · exact Or.inr ⟨many, error, by rw [List.getLast?_cons, last]; rfl⟩
      | error error =>
          rw [untilErrors, LexResult.ofScanned]
          cases limit with
          | zero => exact Or.inr ⟨by rw [untilErrors]; rfl, error, by rw [untilErrors]; rfl⟩
          | succ limit =>
              rcases ih limit with ⟨few, all⟩ | ⟨many, other, last⟩
              · exact Or.inl ⟨Nat.succ_lt_succ few, by rw [all]⟩
              · exact Or.inr ⟨congrArg Nat.succ many, other, by rw [List.getLast?_cons, last]; rfl⟩

/-- Every source is cut into lexemes, errors and gaps. At most twenty errors are reported: with fewer,
what is behind the last piece is a gap too, and otherwise the last piece is the twentieth error. -/
theorem tokenize_partitions (source : String) :
    ∃ pieces, LexResult.ofScanned pieces = tokenize source ∧ Partition source.toList 0 pieces ∧
      ((tokenize source).errors.length < 20 ∧ (∃ last, (Span.mk (endFrom 0 (pieces.map Scanned.span))
          (Text.byteLength source.toList)).Holds source.toList last [] ∧ FinalGap last) ∨
        (tokenize source).errors.length = 20 ∧ ∃ error, pieces.getLast? = some (.error error)) := by
  obtain ⟨partition, final⟩ := partition_scan [] source.toList
  refine ⟨untilErrors maxErrors (scan 0 source.toList), rfl, partition _ (untilErrors_initial _ _), ?_⟩
  rcases untilErrors_cases 19 (scan 0 source.toList) with ⟨few, all⟩ | many
  · refine Or.inl ⟨few, ?_⟩
    rw [maxErrors, all]
    exact final
  · exact Or.inr many

end Lexer

end Rill
