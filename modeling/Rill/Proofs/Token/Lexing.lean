import Mathlib
import Rill.Proofs.Token.Partition

/-!
# Words in a text

A text that consists of words with blanks around them is cut into just these words. Blanks may be
missing wherever two words do not run together.

* `Reads` says what a word is read as: it is one piece of every text in which it stands apart. Words,
  numbers and symbols are read as their tokens (`reads_of_isWord`, `reads_numeral`, `reads_symbol`).
* `LaidOut` says that a text consists of given words; `tokenize_laidOut` is the result about such a
  text.
-/

namespace Rill

namespace Lexer

/-- What follows does not go on with the word. -/
def Apart (word rest : List Char) : Prop :=
  ∀ last ∈ word.getLast?, continuesWord last → ∀ next ∈ rest.head?, continuesWord next = false

/-- A text of words, in this order, with blanks around them. -/
inductive LaidOut : List (List Char) → List Char → Prop
  | done : LaidOut [] []
  | blank {words : List (List Char)} {text : List Char} {c : Char} : isBlank c = true →
      LaidOut words text → LaidOut words (c :: text)
  | word {word : List Char} {words : List (List Char)} {text : List Char} : Apart word text →
      LaidOut words text → LaidOut (word :: words) (word ++ text)

/-- The word is read as the token wherever it stands apart from what follows. -/
def Reads (word : List Char) (token : Token) : Prop :=
  ∀ rest, Apart word rest → IsPiece word rest (some (.ok token))

/-! ## Single words -/

section Words

variable {c : Char} {word rest : List Char} {token : Token}

/-- What stands apart from a word does not go on with it, if all characters of the word do. -/
theorem Apart.stops (apart : Apart word rest) (nonempty : word ≠ [])
    (inner : ∀ x ∈ word, continuesWord x = true) : Stops continuesWord rest :=
  apart _ (List.getLast?_eq_some_getLast nonempty) (inner _ (List.getLast_mem nonempty))

theorem reads_of_isWord {text : String} (isWord : isWord text = true) : Reads text.toList (wordToken text) := by
  intro rest apart
  refine isPiece_word text isWord ?_
  obtain ⟨c, tail, rfl, letter, inner⟩ := exists_of_isWord isWord
  rw [String.toList_ofList] at apart
  exact apart.stops (List.cons_ne_nil c tail)
    (List.forall_mem_cons.mpr ⟨by simp [continuesWord, letter], inner⟩)

theorem reads_numeral (numeral : isNumeral word = true) (isToken : numberFinding word = .ok token) :
    Reads word token := by
  intro rest apart
  rw [← isToken]
  refine isPiece_numeral numeral ?_
  obtain ⟨c, tail, rfl, digit, inner⟩ := exists_of_isNumeral numeral
  have continues : ∀ x ∈ c :: tail, continuesWord x = true := List.forall_mem_cons.mpr
    ⟨by simp [continuesWord, digit], fun x member => continuesWord_of_number (inner x member)⟩
  exact (apart.stops (List.cons_ne_nil c tail) continues).mono fun _ => continuesWord_of_number

theorem reads_symbol (symbol : classify c = .symbol token) : Reads [c] token :=
  fun _ _ => .symbol symbol

theorem reads_doubleColon : Reads [':', ':'] .doubleColon :=
  fun _ _ => .doubleColon

theorem reads_arrow : Reads ['-', '>'] .arrow :=
  fun _ _ => .arrow

end Words

/-! ## Texts -/

theorem scan_laidOut {words : List (List Char)} {text : List Char} (laid : LaidOut words text)
    {tokens : List Token} (reads : List.Forall₂ Reads words tokens) (offset : Nat) :
    ∃ lexemes : List Lexeme, scan offset text = lexemes.map .ok ∧
      lexemes.map (fun lexeme => lexeme.token) = tokens := by
  induction laid generalizing tokens offset with
  | done =>
      cases reads
      exact ⟨[], by rw [scan]; rfl, rfl⟩
  | blank blank _ ih =>
      obtain ⟨lexemes, scanned, same⟩ := ih reads _
      exact ⟨lexemes, (scan_gap (.blank blank .nil) offset _).trans scanned, same⟩
  | @word word _ _ apart _ ih =>
      cases reads with
      | @cons _ token _ _ first others =>
          obtain ⟨lexemes, scanned, same⟩ := ih others (offset + Text.byteLength word)
          refine ⟨⟨token, ⟨offset, offset + Text.byteLength word⟩⟩ :: lexemes, ?_, congrArg (token :: ·) same⟩
          rw [scan_piece (first _ apart), scanned]
          rfl

/-- A text of words is cut into their tokens, without an error. -/
theorem tokenize_laidOut {words : List (List Char)} {source : String} {tokens : List Token}
    (laid : LaidOut words source.toList) (reads : List.Forall₂ Reads words tokens) :
    ∃ lexemes : List Lexeme, tokenize source = ⟨lexemes, []⟩ ∧
      lexemes.map (fun lexeme => lexeme.token) = tokens := by
  obtain ⟨lexemes, scanned, same⟩ := scan_laidOut laid reads 0
  refine ⟨lexemes, ?_, same⟩
  rw [tokenize, scanned, maxErrors, untilErrors_ok, ofScanned_ok]

theorem apart_of_last {word rest : List Char} (symbol : ∀ last ∈ word.getLast?, continuesWord last = false) :
    Apart word rest := by
  intro last isLast continues
  cases (symbol last isLast).symm.trans continues

theorem apart_of_next {word rest : List Char} {next : Char} (stops : continuesWord next = false) :
    Apart word (next :: rest) := by
  rintro _ _ _ _ ⟨⟩
  exact stops

namespace LaidOut

variable {words : List (List Char)} {text : List Char}

theorem space (laid : LaidOut words text) : LaidOut words (' ' :: text) :=
  .blank rfl laid

theorem symbol {c : Char} (isSymbol : continuesWord c = false) (laid : LaidOut words text) :
    LaidOut ([c] :: words) (c :: text) :=
  .word (apart_of_last (by simpa using isSymbol)) laid

theorem symbols {c d : Char} (isSymbol : continuesWord d = false) (laid : LaidOut words text) :
    LaidOut ([c, d] :: words) (c :: d :: text) :=
  .word (apart_of_last (by simpa using isSymbol)) laid

/-- A word before something that does not go on with it. -/
theorem before {word : List Char} {next : Char} (stops : continuesWord next = false)
    (laid : LaidOut words (next :: text)) : LaidOut (word :: words) (word ++ next :: text) :=
  .word (apart_of_next stops) laid

end LaidOut

/-- A text is at least as long as it has tokens. -/
theorem LaidOut.length_le {words : List (List Char)} {text : List Char} {tokens : List Token}
    (laid : LaidOut words text) (reads : List.Forall₂ Reads words tokens) : tokens.length ≤ text.length := by
  induction laid generalizing tokens with
  | done =>
      cases reads
      exact Nat.le_refl _
  | blank _ _ ih => exact Nat.le_succ_of_le (ih reads)
  | word apart _ ih =>
      cases reads with
      | cons first others =>
          have size := List.length_pos_iff.mpr (first _ apart).ne_nil
          have := ih others
          simp only [List.length_cons, List.length_append]
          omega

end Lexer

end Rill
