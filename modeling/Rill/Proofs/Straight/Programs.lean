import Mathlib
import Rill.Pipeline
import Rill.Proofs.Reduction.Grammar
import Rill.Proofs.Reduction.Renaming
import Rill.Proofs.Token.Lexing

/-!
# Straight-line programs

A straight-line program is a `main` whose statements bind sums to names, assign sums to names that are
bound, and print sums. An operand of a sum is a number or a name.

The meaning of such a program can be told without terms, tables and stores: `printed` keeps one map from
names to numbers and adds modulo 2^64.

The program is written with its words in any layout (`LaidOut`); `text` is the plainest one. All layouts
are read as the same form (`parse_laidOut`).
-/

namespace Rill

namespace Straight

open Lexer (LaidOut Reads Apart)

/-! ## Programs -/

/-- A name that can be bound. -/
structure Name where
  text : String
  isName : Lexer.isName text = true

/-- A number in decimal digits below 2^64. There may be underscores behind the first digit. -/
structure Literal where
  first : Fin 10
  others : List (Option (Fin 10))
  fits : Nat.ofDigits 10 ((first :: others.reduceOption).reverse.map Fin.val) < 2 ^ 64

/-- A summand. -/
inductive Operand where
  | number (literal : Literal)
  | variable (name : Name)

/-- One summand or more. -/
structure Sum where
  first : Operand
  others : List Operand

/-- A statement of a straight-line program. -/
inductive Statement where
  | bind (name : Name) (sum : Sum)
  | assign (name : Name) (sum : Sum)
  | print (sum : Sum)

/-- The sum with one more summand. -/
def Sum.add (sum : Sum) (operand : Operand) : Sum :=
  ⟨sum.first, sum.others ++ [operand]⟩

/-- A sum leans to the left: it is one summand, or a summand behind a sum. -/
@[elab_as_elim]
theorem Sum.induction {motive : Sum → Prop} (single : ∀ first, motive ⟨first, []⟩)
    (add : ∀ sum operand, motive sum → motive (Sum.add sum operand)) (sum : Sum) : motive sum := by
  obtain ⟨first, others⟩ := sum
  induction others using List.reverseRecOn with
  | nil => exact single first
  | append_singleton others last ih => exact add ⟨first, others⟩ last ih

/-! ## Meaning -/

/-- The number that is written. -/
def Literal.value (literal : Literal) : Nat :=
  Nat.ofDigits 10 ((literal.first :: literal.others.reduceOption).reverse.map Fin.val)

/-- The value of a summand, given those of the names. -/
def Operand.value (env : String → Nat) : Operand → Nat
  | number literal => literal.value
  | «variable» name => env name.text

/-- All summands. -/
def Sum.operands (sum : Sum) : List Operand :=
  sum.first :: sum.others

/-- The value of a sum, given those of the names. -/
def Sum.value (env : String → Nat) (sum : Sum) : Nat :=
  (sum.operands.map (Operand.value env)).sum % 2 ^ 64

/-- The values of the names behind a statement. -/
def Statement.update (env : String → Nat) : Statement → String → Nat
  | bind name sum | assign name sum => Function.update env name.text (sum.value env)
  | print _ => env

/-- What a statement prints. -/
def Statement.output (env : String → Nat) : Statement → String
  | print sum => toString (sum.value env)
  | bind .. | assign .. => ""

/-- What the statements print, given the values of the names. -/
def printed (env : String → Nat) : List Statement → String
  | [] => ""
  | statement :: rest => statement.output env ++ printed (statement.update env) rest

def Operand.names : Operand → List String
  | number _ => []
  | «variable» name => [name.text]

/-- The names that a sum reads. -/
def Sum.names (sum : Sum) : List String :=
  sum.operands.flatMap Operand.names

@[simp] theorem Sum.names_single (first : Operand) : Sum.names ⟨first, []⟩ = first.names := by
  simp [Sum.names, Sum.operands]

@[simp] theorem Sum.names_add (sum : Sum) (operand : Operand) :
    (sum.add operand).names = sum.names ++ operand.names := by
  simp [Sum.names, Sum.operands, Sum.add]

/-- The sum that a statement computes. -/
def Statement.sum : Statement → Sum
  | bind _ sum | assign _ sum | print sum => sum

/-- The names that a statement reads or assigns. -/
def Statement.uses : Statement → List String
  | bind _ sum | print sum => sum.names
  | assign name sum => name.text :: sum.names

/-- The names that a statement binds. -/
def Statement.binds : Statement → List String
  | bind name _ => [name.text]
  | assign .. | print _ => []

/-- Whether every name that is read or assigned is one of `bound` or was bound by an earlier
statement. -/
def wellScoped (bound : List String) : List Statement → Bool
  | [] => true
  | statement :: rest => statement.uses.all bound.contains && wellScoped (bound ++ statement.binds) rest

theorem wellScoped_cons_iff {bound : List String} {statement : Statement} {rest : List Statement} :
    wellScoped bound (statement :: rest) = true ↔
      statement.uses ⊆ bound ∧ wellScoped (bound ++ statement.binds) rest = true := by
  simp [wellScoped, List.subset_def]

/-! ## Words -/

/-- The digits and underscores of a number. -/
def Literal.word (literal : Literal) : List Char :=
  Nat.digitChar literal.first ::
    literal.others.map fun
      | some digit => Nat.digitChar digit
      | none => '_'

def Operand.word : Operand → List Char
  | number literal => literal.word
  | «variable» name => name.text.toList

def Sum.words (sum : Sum) : List (List Char) :=
  sum.first.word :: sum.others.flatMap fun operand => [['+'], operand.word]

def Statement.words : Statement → List (List Char)
  | bind name sum => name.text.toList :: [':', ':'] :: sum.words
  | assign name sum => name.text.toList :: ['='] :: sum.words
  | print sum => "print_u64".toList :: sum.words

/-- The words of a whole program. -/
def words (statements : List Statement) : List (List Char) :=
  "main".toList :: [':', ':'] :: ['('] :: [')'] :: ['-', '>'] :: "void".toList :: ['\x7b'] ::
    (statements.flatMap (fun statement => statement.words ++ [[';']]) ++ [['\x7d'], [';']])

/-! ## The plain text -/

def Operand.text (operand : Operand) : String :=
  String.ofList operand.word

def Sum.text (sum : Sum) : String :=
  sum.first.text ++ String.join (sum.others.map fun operand => " + " ++ operand.text)

def Statement.text : Statement → String
  | bind name sum => name.text ++ " :: " ++ sum.text ++ ";"
  | assign name sum => name.text ++ " = " ++ sum.text ++ ";"
  | print sum => "print_u64 " ++ sum.text ++ ";"

/-- A whole program on one line. -/
def text (statements : List Statement) : String :=
  "main :: () -> void \x7b" ++ String.join (statements.map fun statement => " " ++ statement.text) ++
    " \x7d;"

/-! ## Tokens -/

def Operand.token : Operand → Token
  | number literal => .int (UInt64.ofNat literal.value)
  | «variable» name => .ident name.text

def Sum.tokens (sum : Sum) : List Token :=
  sum.first.token :: sum.others.flatMap fun operand => [.plus, operand.token]

def Statement.tokens : Statement → List Token
  | bind name sum => .ident name.text :: .doubleColon :: sum.tokens
  | assign name sum => .ident name.text :: .equals :: sum.tokens
  | print sum => .printWord :: sum.tokens

/-- The tokens of a whole program. -/
def tokens (statements : List Statement) : List Token :=
  .ident entryName :: .doubleColon :: .opening .paren :: .closing .paren :: .arrow :: .void ::
    .opening .brace ::
    (statements.flatMap (fun statement => statement.tokens ++ [.semicolon]) ++ [.closing .brace, .semicolon])

theorem Name.reads (name : Name) : Reads name.text.toList (.ident name.text) := by
  obtain ⟨isWord, isIdent⟩ := Lexer.isName_spec name.isName
  rw [← isIdent]
  exact Lexer.reads_of_isWord isWord

theorem digit_of_digitChar : ∀ digit : Fin 10, Lexer.isDigit (Nat.digitChar digit) = true ∧
    (Nat.digitChar digit).toNat - '0'.toNat = digit := by
  decide

theorem Literal.isNumeral_word (literal : Literal) : Lexer.isNumeral literal.word = true := by
  simp only [Literal.word, Lexer.isNumeral, (digit_of_digitChar literal.first).1, Bool.true_and, List.all_eq_true,
    List.forall_mem_map]
  rintro (_ | digit) _
  · rfl
  · simp [Lexer.continuesNumber, (digit_of_digitChar digit).1]

/-- The digits of a number denote its value. -/
theorem Literal.denoted_word (literal : Literal) : Lexer.denoted literal.word = literal.value := by
  have digits : literal.word.filter Lexer.isDigit =
      (literal.first :: literal.others.reduceOption).map fun digit : Fin 10 => Nat.digitChar digit := by
    rw [Literal.word, List.filter_cons_of_pos (digit_of_digitChar literal.first).1, List.map_cons]
    congr 1
    induction literal.others with
    | nil => rfl
    | cons other others ih =>
        cases other with
        | none => simpa [show Lexer.isDigit '_' = false from rfl] using ih
        | some digit => simpa [(digit_of_digitChar digit).1] using ih
  rw [Lexer.denoted, digits, Literal.value, ← List.map_reverse, List.map_map]
  exact congrArg _ (List.map_congr_left fun digit _ => (digit_of_digitChar digit).2)

theorem Literal.reads (literal : Literal) : Reads literal.word (.int (UInt64.ofNat literal.value)) := by
  have fits : Lexer.denoted literal.word < UInt64.size := literal.denoted_word.trans_lt literal.fits
  rw [← literal.denoted_word]
  exact Lexer.reads_numeral literal.isNumeral_word (Lexer.numberFinding_of_lt literal.isNumeral_word fits)

theorem Operand.reads (operand : Operand) : Reads operand.word operand.token := by
  cases operand with
  | number literal => exact literal.reads
  | «variable» name => exact name.reads

theorem Sum.reads (sum : Sum) : List.Forall₂ Reads sum.words sum.tokens := by
  refine .cons sum.first.reads (List.rel_flatMap (R := Eq) (List.forall₂_refl _) ?_)
  rintro operand _ rfl
  exact .cons (Lexer.reads_symbol rfl) (.cons operand.reads .nil)

theorem reads_print : Reads "print_u64".toList .printWord :=
  Lexer.reads_of_isWord (by decide)

theorem Statement.reads (statement : Statement) :
    List.Forall₂ Reads statement.words statement.tokens := by
  cases statement with
  | bind name sum => exact .cons name.reads (.cons Lexer.reads_doubleColon sum.reads)
  | assign name sum => exact .cons name.reads (.cons (Lexer.reads_symbol rfl) sum.reads)
  | print sum => exact .cons reads_print sum.reads

/-- The words of a program are read as its tokens. -/
theorem reads_words (statements : List Statement) :
    List.Forall₂ Reads (words statements) (tokens statements) := by
  have symbol : ∀ {c : Char} {token : Token}, Lexer.classify c = .symbol token → Reads [c] token :=
    Lexer.reads_symbol
  have body : List.Forall₂ Reads (statements.flatMap fun statement => statement.words ++ [[';']])
      (statements.flatMap fun statement => statement.tokens ++ [.semicolon]) := by
    refine List.rel_flatMap (R := Eq) (List.forall₂_refl _) ?_
    rintro statement _ rfl
    exact List.rel_append statement.reads (.cons (symbol rfl) .nil)
  refine .cons (Lexer.reads_of_isWord (by decide)) (.cons Lexer.reads_doubleColon (.cons (symbol rfl)
    (.cons (symbol rfl) (.cons Lexer.reads_arrow (.cons (Lexer.reads_of_isWord (by decide))
      (.cons (symbol rfl) (List.rel_append body ?_)))))))
  exact .cons (symbol rfl) (.cons (symbol rfl) .nil)

/-! ## The plain layout -/

section Layout

variable {next : Char} {others : List (List Char)} {rest : List Char}

/-- The summands behind the first, followed by something that does not go on with a word. -/
theorem laidOut_summands (stops : Lexer.continuesWord next = false) (laid : LaidOut others (next :: rest))
    (operands : List Operand) :
    ∃ first tail, Lexer.continuesWord first = false ∧
      operands.flatMap (fun operand => ' ' :: '+' :: ' ' :: operand.word) ++ next :: rest = first :: tail ∧
      LaidOut (operands.flatMap (fun operand => [['+'], operand.word]) ++ others) (first :: tail) := by
  induction operands with
  | nil => exact ⟨next, rest, stops, rfl, laid⟩
  | cons operand operands ih =>
      obtain ⟨first, tail, stops, equal, laid⟩ := ih
      refine ⟨' ', '+' :: ' ' :: (operand.word ++ first :: tail), rfl, ?_,
        .space (.symbol rfl (.space (.before stops laid)))⟩
      simp [List.flatMap_cons, equal]

theorem Sum.laidOut (sum : Sum) (stops : Lexer.continuesWord next = false)
    (laid : LaidOut others (next :: rest)) :
    LaidOut (sum.words ++ others) (sum.text.toList ++ next :: rest) := by
  obtain ⟨first, tail, stops, equal, laid⟩ := laidOut_summands stops laid sum.others
  have chars : sum.text.toList ++ next :: rest = sum.first.word ++ first :: tail := by
    rw [← equal]
    simp [Sum.text, Operand.text, List.flatMap_map]
  rw [chars]
  exact .before stops laid

theorem Statement.laidOut (statement : Statement) (laid : LaidOut others rest) :
    LaidOut (statement.words ++ [';'] :: others) (statement.text.toList ++ rest) := by
  have ended : ∀ sum : Sum, LaidOut (sum.words ++ [';'] :: others) (sum.text.toList ++ ';' :: rest) :=
    fun sum => sum.laidOut rfl (.symbol rfl laid)
  cases statement with
  | bind name sum =>
      have chars : (bind name sum).text.toList ++ rest =
          name.text.toList ++ ' ' :: ':' :: ':' :: ' ' :: (sum.text.toList ++ ';' :: rest) := by
        simp [Statement.text]
      rw [chars]
      exact .before rfl (.space (.symbols rfl (.space (ended sum))))
  | assign name sum =>
      have chars : (assign name sum).text.toList ++ rest =
          name.text.toList ++ ' ' :: '=' :: ' ' :: (sum.text.toList ++ ';' :: rest) := by
        simp [Statement.text]
      rw [chars]
      exact .before rfl (.space (.symbol rfl (.space (ended sum))))
  | print sum =>
      have chars : (print sum).text.toList ++ rest =
          "print_u64".toList ++ ' ' :: (sum.text.toList ++ ';' :: rest) := by
        simp [Statement.text]
      rw [chars]
      exact .before rfl (.space (ended sum))

/-- The plain text has the words of the program. -/
theorem laidOut_text (statements : List Statement) :
    LaidOut (words statements) (text statements).toList := by
  have body : LaidOut (statements.flatMap (fun statement => statement.words ++ [[';']]) ++ [['\x7d'], [';']])
      (statements.flatMap (fun statement => ' ' :: statement.text.toList) ++ " \x7d;".toList) := by
    induction statements with
    | nil => exact .space (.symbol rfl (.symbol rfl .done))
    | cons statement statements ih =>
        have laid := (statement.laidOut ih).space
        simpa using laid
  have opens : "main :: () -> void \x7b".toList = "main".toList ++ ' ' :: ':' :: ':' :: ' ' :: '(' :: ')' ::
      ' ' :: '-' :: '>' :: ' ' :: ("void".toList ++ [' ', '\x7b']) := by
    decide
  have joined : (String.join (statements.map fun statement => " " ++ statement.text)).toList =
      statements.flatMap fun statement => ' ' :: statement.text.toList := by
    simp [List.flatMap_map]
  unfold text
  simp only [String.toList_append, opens, joined, List.append_assoc, List.cons_append, List.nil_append]
  refine .before rfl (.space (.symbols rfl (.space (.symbol rfl (.symbol rfl (.space (.symbols rfl
    (.space (.before rfl (.space (.symbol rfl ?_)))))))))))
  exact body

end Layout

/-! ## Phrases

The phrases of a program at no place in particular. The reader gives them their places, so what is read
has the same form. -/

/-- No place in particular. -/
def anywhere : Span := ⟨0, 0⟩

def Operand.phrase : Operand → Phrase
  | number literal => ⟨.int (UInt64.ofNat literal.value), anywhere⟩
  | «variable» name => ⟨.ident name.text, anywhere⟩

/-- A summand behind what is summed already. -/
def addend (left : Phrase) (operand : Operand) : Phrase :=
  ⟨.sum left operand.phrase, anywhere⟩

def Sum.phrase (sum : Sum) : Phrase :=
  sum.others.foldl addend sum.first.phrase

theorem Sum.phrase_add (sum : Sum) (operand : Operand) :
    (sum.add operand).phrase = addend sum.phrase operand := by
  simp [Sum.phrase, Sum.add]

def Statement.phrase : Statement → Phrase
  | bind name sum => ⟨.binding ⟨.ident name.text, anywhere⟩ none (some sum.phrase), anywhere⟩
  | assign name sum => ⟨.assign ⟨.ident name.text, anywhere⟩ sum.phrase, anywhere⟩
  | print sum => ⟨.printU64 sum.phrase, anywhere⟩

/-- The statements in the body of `main`. -/
def bodyPhrases (statements : List Statement) : List Phrase :=
  statements.map fun statement => ⟨.statement statement.phrase, anywhere⟩

/-- The function that `main` is bound to. -/
def mainPhrase (statements : List Statement) : Phrase :=
  ⟨.function ⟨.paren [], anywhere⟩ ⟨.void, anywhere⟩ ⟨.curly (bodyPhrases statements), anywhere⟩, anywhere⟩

/-- The only phrase of a program at the top level. -/
def phrase (statements : List Statement) : Phrase :=
  ⟨.statement ⟨.binding ⟨.ident entryName, anywhere⟩ none (some (mainPhrase statements)), anywhere⟩, anywhere⟩

theorem Operand.derives (operand : Operand) : Derives .operand ⟨[operand.token], operand.phrase.form⟩ := by
  cases operand with
  | number literal => exact .int
  | «variable» name => exact .typeOperand (.plainType .name)

theorem Sum.derives (sum : Sum) : Derives .value ⟨sum.tokens, sum.phrase.form⟩ := by
  induction sum using Sum.induction with
  | single first => exact .operandValue first.derives
  | add sum operand ih =>
      have tokens : (sum.add operand).tokens = sum.tokens ++ [.plus, operand.token] := by
        simp [Sum.tokens, Sum.add]
      rw [tokens, sum.phrase_add]
      exact .sum ih operand.derives

theorem Statement.derives (statement : Statement) :
    Derives .statement ⟨statement.tokens, statement.phrase.form⟩ := by
  cases statement with
  | bind name sum => exact .bindingStatement (.inferred sum.derives)
  | assign name sum => exact .assign sum.derives
  | print sum => exact .print sum.derives

/-- The program is a sentence of the grammar. -/
theorem derives_program (statements : List Statement) :
    Derives .program ⟨tokens statements, ⟨.root [(phrase statements).form]⟩⟩ := by
  have function := @Derives.function [] (statements.map fun statement => ⟨statement.tokens, statement.phrase.form⟩)
    _ (by simp) .void (List.forall_mem_map.mpr fun statement _ => statement.derives)
  have body : Sentence.inBraces (statements.map fun statement => ⟨statement.tokens, statement.phrase.form⟩) =
      ⟨.opening .brace :: (statements.flatMap (fun statement => statement.tokens ++ [.semicolon]) ++
        [.closing .brace]), ⟨.curly (Phrase.formList (bodyPhrases statements))⟩⟩ := by
    rw [Sentence.inBraces, Sentence.semicolonTokens, Sentence.semicolonForms, List.flatMap_map, List.map_map,
      Phrase.formList_eq_map, bodyPhrases, List.map_map]
    rfl
  rw [body] at function
  have program := @Derives.program [_]
    (List.forall_mem_singleton.mpr (@Derives.inferred entryName _ (.operandValue function)))
  simpa [Sentence.semicolonTokens, Sentence.semicolonForms, Sentence.inParens, Sentence.commaTokens,
    Sentence.commaForms, tokens, phrase, mainPhrase, Phrase.form, Phrase.formConstruct, Phrase.formOption,
    Phrase.formList] using program

/-- Every layout of the words of a program is read as its form. -/
theorem parse_laidOut {statements : List Statement} {source : String}
    (laid : LaidOut (words statements) source.toList) :
    ∃ tree phrases, Pipeline.parse source = .ok tree ∧ tree.topLevel = .ok phrases ∧
      phrases.map Phrase.form = [(phrase statements).form] := by
  obtain ⟨lexemes, tokenized, isTokens⟩ := Lexer.tokenize_laidOut laid (reads_words statements)
  have lexed : Pipeline.lex source = .ok lexemes := by
    rw [Pipeline.lex, tokenized]
    rfl
  have readable := (derives_program statements).readable
  have written := readable.written.trans isTokens.symm
  have items : Workspace.bareItems lexemes =
      (⟨.root [(phrase statements).form]⟩ : Form).tokens.map .token := by
    rw [written, List.map_map]
    rfl
  have reduced :=
    Items.reduce_tokens readable.well (n := lexemes.length) (by rw [written, List.length_map])
  have agrees := Workspace.reduce_agrees lexemes
  rw [items, reduced] at agrees
  obtain ⟨tree, isTree, w, forms, parsed⟩ := agrees.ok
  obtain ⟨phrases, top, sameForms⟩ := parsed.topLevel
  refine ⟨tree, phrases, ?_, top, sameForms⟩
  rw [Pipeline.parse, lexed]
  change Pipeline.parseLexemes lexemes = .ok tree
  rw [Pipeline.parseLexemes, isTree]
  rfl

end Straight

end Rill
