import Mathlib
import Rill.Proofs.Token.Partition

/-!
# Writing tokens and reading them back

A list of tokens is written with a separator before, between and behind them: blanks and comments, at
least one character of them. Cutting the text gives back the tokens, each at the place where it was
written (`tokenize_written`).

The text of a token is one piece wherever it ends as it has to (`isPiece_text`), and no separator begins
with a character that goes on with a token (`stops_separator`).
-/

namespace Rill

/-- The token can be written so that it is read back. An identifier has to be a name. -/
def Token.IsWritable : Token → Prop
  | .ident name => Lexer.isName name = true
  | _ => True

/-- The lexeme of a token that is written right behind a text. -/
def Token.writtenBehind (token : Token) (before : String) : Lexeme :=
  ⟨token, ⟨Text.byteLength before.toList,
    Text.byteLength before.toList + Text.byteLength token.text.toList⟩⟩

namespace Lexer

variable {token : Token} {rest text : List Char}

/-- What can be written between tokens: blanks and comments, not nothing. -/
structure IsSeparator (text : String) : Prop where
  nonempty : text.toList ≠ []
  gap : Gap text.toList

/-- The text of the tokens, each with the separator behind it; `lead` comes before all. -/
def written (lead : String) : List (Token × String) → String
  | [] => lead
  | (token, separator) :: items => lead ++ (token.text ++ written separator items)

/-! ## Tokens -/

/-- Plain decimal digits are a number, and the one they are written for. -/
theorem numeral_toDigits (n : Nat) : isNumeral (Nat.toDigits 10 n) = true ∧
    denoted (Nat.toDigits 10 n) = n := by
  have digits : ∀ c ∈ Nat.toDigits 10 n, isDigit c = true := fun c member =>
    Nat.isDigit_of_mem_toDigits (by decide) (by decide) member
  have numeral : isNumeral (Nat.toDigits 10 n) = true := by
    cases chars : Nat.toDigits 10 n with
    | nil => exact absurd chars Nat.toDigits_ne_nil
    | cons c tail =>
        rw [chars] at digits
        obtain ⟨first, others⟩ := List.forall_mem_cons.mp digits
        simp only [isNumeral, first, Bool.true_and, List.all_eq_true]
        exact fun x member => by simp [continuesNumber, others x member]
  have noUnderscore : (Nat.toDigits 10 n).filter (· != '_') = Nat.toDigits 10 n := by
    refine List.filter_eq_self.mpr fun c member => bne_iff_ne.mpr ?_
    rintro rfl
    cases digits '_' member
  refine ⟨numeral, ?_⟩
  rw [← numberValue_eq numeral, numberValue, noUnderscore]
  exact Nat.ofDigitChars_toDigits (by decide) (by decide)

theorem numberFinding_toDigits (value : UInt64) :
    numberFinding (Nat.toDigits 10 value.toNat) = .ok (.int value) := by
  obtain ⟨numeral, isValue⟩ := numeral_toDigits value.toNat
  have fits : denoted (Nat.toDigits 10 value.toNat) < UInt64.size := isValue.trans_lt value.toNat_lt_size
  rw [numberFinding_of_lt numeral fits, isValue, UInt64.ofNat_toNat]

/-- The text of a token is one piece. -/
theorem isPiece_text (writable : token.IsWritable) (stops : Stops (lengthens (.ok token)) rest) :
    IsPiece token.text.toList rest (some (.ok token)) := by
  cases token with
  | int value =>
      rw [Token.text, Text.decimal, String.toList_ofList, ← numberFinding_toDigits value]
      exact isPiece_numeral (numeral_toDigits value.toNat).1 stops
  | ident name =>
      obtain ⟨isWord, isIdent⟩ := isName_spec writable
      have piece := isPiece_word name isWord stops
      rwa [isIdent] at piece
  | void => exact isPiece_word "void" (by decide) stops
  | u64 => exact isPiece_word "u64" (by decide) stops
  | returnWord => exact isPiece_word "return" (by decide) stops
  | printWord => exact isPiece_word "print_u64" (by decide) stops
  | colon => exact .colon stops
  | doubleColon => exact .doubleColon
  | arrow => exact .arrow
  | opening bracket | closing bracket => cases bracket <;> exact .symbol rfl
  | equals | plus | comma | semicolon => exact .symbol rfl

/-! ## Separators -/

/-- No separator begins with a character that makes a token longer. -/
theorem stops_separator {separator : String} (isSeparator : IsSeparator separator) :
    Stops (lengthens (.ok token)) (separator.toList ++ rest) := by
  have short : ∀ c : Char, continuesWord c = false → c ≠ ':' → lengthens (.ok token) c = false := by
    intro c noWord noColon
    have noNumber : continuesNumber c = false := by
      cases number : continuesNumber c with
      | false => rfl
      | true => exact (continuesWord_of_number number).symm.trans noWord
    cases token with
    | int value => exact noNumber
    | ident name => exact noWord
    | void | u64 | returnWord | printWord => exact noWord
    | colon => exact beq_false_of_ne noColon
    | _ => rfl
  obtain ⟨nonempty, gap⟩ := isSeparator
  generalize separator.toList = chars at nonempty gap
  intro next isNext
  cases gap with
  | nil => exact absurd rfl nonempty
  | blank blank _ =>
      cases isNext
      refine short next (continuesWord_of_blank blank) ?_
      rintro rfl
      cases blank
  | comment _ _ =>
      cases isNext
      exact short '/' rfl (by decide)

/-! ## Texts -/

/-- What is met in a text that was written behind the text `before`. -/
theorem scan_written (before : String) {lead : String} {items : List (Token × String)} (isLead : Gap lead.toList)
    (writable : ∀ item ∈ items, item.1.IsWritable ∧ IsSeparator item.2) :
    ∃ lexemes : List Lexeme,
      scan (Text.byteLength before.toList) (written lead items).toList = lexemes.map .ok ∧
      lexemes.map Lexeme.token = items.map Prod.fst ∧
      ∀ (i : Nat) token separator, items[i]? = some (token, separator) →
        lexemes[i]? = some (token.writtenBehind (before ++ written lead (items.take i))) := by
  induction items generalizing before lead with
  | nil => exact ⟨[], scan_finalGap (.gap isLead) _, rfl, nofun⟩
  | cons item items ih =>
      obtain ⟨token, separator⟩ := item
      obtain ⟨⟨tokenWritable, isSeparator⟩, others⟩ := List.forall_mem_cons.mp writable
      -- What is written behind the token begins with its separator, also if nothing else follows.
      have stops : Stops (lengthens (.ok token)) (written separator items).toList := by
        cases items with
        | nil =>
            have ends : Stops (lengthens (.ok token)) (separator.toList ++ []) :=
              stops_separator isSeparator
            rwa [List.append_nil] at ends
        | cons next items =>
            rw [written, String.toList_append]
            exact stops_separator isSeparator
      obtain ⟨lexemes, scanned, tokens, places⟩ := ih (before ++ lead ++ token.text)
        isSeparator.gap others
      refine ⟨token.writtenBehind (before ++ lead) :: lexemes, ?_, congrArg (token :: ·) tokens,
        fun i other behind isItem => ?_⟩
      · rw [written, String.toList_append, String.toList_append,
          scan_found isLead (isPiece_text tokenWritable stops)]
        simp only [String.toList_append, Text.byteLength_append] at scanned
        rw [scanned]
        simp [placeAt, lexemeAt, Token.writtenBehind, Text.byteLength_append]
      · cases i with
        | zero =>
            cases isItem
            rfl
        | succ i =>
            rw [List.getElem?_cons_succ, places i other behind isItem, List.take_succ_cons, written]
            simp only [String.append_assoc]

/-- Tokens that were written are read back, each from the text that was written for it. -/
theorem tokenize_written (lead : String) (items : List (Token × String)) (isLead : IsSeparator lead)
    (writable : ∀ item ∈ items, item.1.IsWritable ∧ IsSeparator item.2) :
    ∃ lexemes, tokenize (written lead items) = ⟨lexemes, []⟩ ∧
      lexemes.map Lexeme.token = items.map Prod.fst ∧
      ∀ (i : Nat) token separator, items[i]? = some (token, separator) →
        lexemes[i]? = some (token.writtenBehind (written lead (items.take i))) := by
  obtain ⟨lexemes, scanned, tokens, places⟩ := scan_written "" isLead.gap writable
  refine ⟨lexemes, ?_, tokens, fun i token separator isItem => ?_⟩
  · have scanned : scan 0 (written lead items).toList = lexemes.map .ok := scanned
    rw [tokenize, scanned, maxErrors, untilErrors_ok, ofScanned_ok]
  · rw [places i token separator isItem, String.empty_append]

/-- A word that begins with a keyword, colons that must not run together and the largest number, between
separators with comments that look like tokens. -/
theorem tokenize_written_apart :
    let items := [(.ident "u64x", "\x0c"), (.u64, "\t"), (.colon, " "), (.colon, "//::é\r\n"),
      (Token.int 18446744073709551615, "\n")]
    ∃ lexemes, tokenize (written "//é: 1\n" items) = ⟨lexemes, []⟩ ∧
      lexemes.map Lexeme.token = items.map Prod.fst ∧
      lexemes[4]? = some ⟨.int 18446744073709551615, ⟨28, 48⟩⟩ := by
  intro items
  have comment : IsSeparator "//é: 1\n" :=
    ⟨by decide, @Gap.comment "é: 1".toList [] (by decide) (.blank rfl .nil)⟩
  have later : IsSeparator "//::é\r\n" :=
    ⟨by decide, @Gap.comment "::é\r".toList [] (by decide) (.blank rfl .nil)⟩
  have blank : ∀ c, isBlank c = true → IsSeparator (String.singleton c) := fun c isBlank =>
    ⟨by simp, by simpa using .blank isBlank .nil⟩
  have writable : ∀ item ∈ items, item.1.IsWritable ∧ IsSeparator item.2 := by
    simp only [items, List.forall_mem_cons]
    exact ⟨⟨rfl, blank '\x0c' rfl⟩, ⟨trivial, blank '\t' rfl⟩, ⟨trivial, blank ' ' rfl⟩,
      ⟨trivial, later⟩, ⟨trivial, blank '\n' rfl⟩, nofun⟩
  obtain ⟨lexemes, read, tokens, places⟩ := tokenize_written "//é: 1\n" items comment writable
  refine ⟨lexemes, read, tokens, ?_⟩
  rw [places 4 _ _ rfl]
  decide

end Lexer

end Rill
