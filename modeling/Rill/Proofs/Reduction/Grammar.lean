import Mathlib
import Rill.Proofs.Reduction.Faithful
import Rill.Proofs.Reduction.Passes

/-!
# The grammar

Reduction has no grammar rules: what it accepts follows from the order and the direction of its
passes. Here are the rules, as derivations of sentences. A sentence is a list of tokens with the form
that they are to be read as.

    program   = (binding ';')*
    binding   = IDENT '::' value | IDENT ':' type ':' value | IDENT ':' type
    type      = plain | '(' arguments ')' '->' type
    plain     = 'void' | 'u64' | IDENT
    value     = operand | value '+' operand
    operand   = type | INT | IDENT '(' arguments ')'
              | '(' arguments ')' '->' plain '{' (statement ';')* '}'
    arguments = nothing | argument (',' argument)*
    argument  = binding | value
    statement = binding | IDENT '=' value | 'print_u64' value | 'return' value? | value

Every sentence of the grammar is written with the tokens of its form and is well-formed, so reduction
reads it back (`reduce_reads_program`).
-/

namespace Rill

/-! ## Sentences -/

/-- Tokens, and the form that they are to be read as. -/
structure Sentence where
  tokens : List Token
  form : Form

/-- What a sentence may be. -/
inductive Category where
  | plain
  | type
  | operand
  | value
  | binding
  | argument
  | statement
  | program

namespace Sentence

/-- Sentences with commas between them. -/
def commaTokens : List Sentence → List Token
  | [] => []
  | [sentence] => sentence.tokens
  | sentence :: next :: sentences => sentence.tokens ++ .comma :: commaTokens (next :: sentences)

/-- The forms of sentences with commas between them. -/
def commaForms : List Sentence → List Form
  | [] => []
  | [sentence] => [sentence.form]
  | sentence :: next :: sentences => ⟨.separator sentence.form⟩ :: commaForms (next :: sentences)

/-- Sentences with a semicolon behind each. -/
def semicolonTokens (sentences : List Sentence) : List Token :=
  sentences.flatMap fun sentence => sentence.tokens ++ [.semicolon]

/-- The forms of sentences with a semicolon behind each. -/
def semicolonForms (sentences : List Sentence) : List Form :=
  sentences.map fun sentence => ⟨.statement sentence.form⟩

/-- Arguments in parentheses. -/
def inParens (arguments : List Sentence) : Sentence :=
  ⟨.opening .paren :: (commaTokens arguments ++ [.closing .paren]), ⟨.paren (commaForms arguments)⟩⟩

/-- Statements in braces. -/
def inBraces (statements : List Sentence) : Sentence :=
  ⟨.opening .brace :: (semicolonTokens statements ++ [.closing .brace]),
    ⟨.curly (semicolonForms statements)⟩⟩

end Sentence

open Sentence

/-- The rules of the grammar. -/
inductive Derives : Category → Sentence → Prop
  | void : Derives .plain ⟨[.void], ⟨.void⟩⟩
  | u64 : Derives .plain ⟨[.u64], ⟨.u64⟩⟩
  | name {name : String} : Derives .plain ⟨[.ident name], ⟨.ident name⟩⟩
  | plainType {type : Sentence} : Derives .plain type → Derives .type type
  | functionType {arguments : List Sentence} {result : Sentence} :
      (∀ argument ∈ arguments, Derives .argument argument) → Derives .type result →
      Derives .type ⟨(inParens arguments).tokens ++ .arrow :: result.tokens,
        ⟨.functionType (inParens arguments).form result.form⟩⟩
  | typeOperand {type : Sentence} : Derives .type type → Derives .operand type
  | int {value : UInt64} : Derives .operand ⟨[.int value], ⟨.int value⟩⟩
  | call {name : String} {arguments : List Sentence} :
      (∀ argument ∈ arguments, Derives .argument argument) →
      Derives .operand ⟨.ident name :: (inParens arguments).tokens,
        ⟨.call ⟨.ident name⟩ (inParens arguments).form⟩⟩
  | function {arguments statements : List Sentence} {result : Sentence} :
      (∀ argument ∈ arguments, Derives .argument argument) → Derives .plain result →
      (∀ statement ∈ statements, Derives .statement statement) →
      Derives .operand
        ⟨(inParens arguments).tokens ++ .arrow :: (result.tokens ++ (inBraces statements).tokens),
          ⟨.function (inParens arguments).form result.form (inBraces statements).form⟩⟩
  | operandValue {operand : Sentence} : Derives .operand operand → Derives .value operand
  | sum {left right : Sentence} : Derives .value left → Derives .operand right →
      Derives .value ⟨left.tokens ++ .plus :: right.tokens, ⟨.sum left.form right.form⟩⟩
  | inferred {name : String} {value : Sentence} : Derives .value value →
      Derives .binding ⟨.ident name :: .doubleColon :: value.tokens,
        ⟨.binding ⟨.ident name⟩ none (some value.form)⟩⟩
  | annotated {name : String} {type value : Sentence} : Derives .type type → Derives .value value →
      Derives .binding ⟨.ident name :: .colon :: (type.tokens ++ .colon :: value.tokens),
        ⟨.binding ⟨.ident name⟩ (some type.form) (some value.form)⟩⟩
  | declared {name : String} {type : Sentence} : Derives .type type →
      Derives .binding ⟨.ident name :: .colon :: type.tokens,
        ⟨.binding ⟨.ident name⟩ (some type.form) none⟩⟩
  | bindingArgument {binding : Sentence} : Derives .binding binding → Derives .argument binding
  | valueArgument {value : Sentence} : Derives .value value → Derives .argument value
  | bindingStatement {binding : Sentence} : Derives .binding binding → Derives .statement binding
  | assign {name : String} {value : Sentence} : Derives .value value →
      Derives .statement ⟨.ident name :: .equals :: value.tokens, ⟨.assign ⟨.ident name⟩ value.form⟩⟩
  | print {value : Sentence} : Derives .value value →
      Derives .statement ⟨.printWord :: value.tokens, ⟨.printU64 value.form⟩⟩
  | returnNothing : Derives .statement ⟨[.returnWord], ⟨.returnWith none⟩⟩
  | returnValue {value : Sentence} : Derives .value value →
      Derives .statement ⟨.returnWord :: value.tokens, ⟨.returnWith (some value.form)⟩⟩
  | valueStatement {value : Sentence} : Derives .value value → Derives .statement value
  | program {bindings : List Sentence} : (∀ binding ∈ bindings, Derives .binding binding) →
      Derives .program ⟨semicolonTokens bindings, ⟨.root (semicolonForms bindings)⟩⟩

/-! ## Sentences are well-formed -/

/-- What the construct of a sentence is, by its category. -/
def Category.Admits : Category → Construct Form → Prop
  | plain, c => c.isType = true ∧ c.level = Group.leaf.level
  | type, c => c.isType = true
  | operand, c => c.isValue = true ∧ c.level < Group.sum.level
  | value, c => c.isValue = true
  | binding, c | argument, c | statement, c => c.isExpression = true
  | program, _ => True

/-- A sentence that can be read back. -/
structure Sentence.Readable (category : Category) (sentence : Sentence) : Prop where
  written : sentence.form.tokens = sentence.tokens
  well : sentence.form.Well
  admitted : category.Admits sentence.form.construct

namespace Sentence

theorem commaForms_tokens {sentences : List Sentence}
    (written : ∀ sentence ∈ sentences, sentence.form.tokens = sentence.tokens) :
    (commaForms sentences).flatMap Form.tokens = commaTokens sentences := by
  fun_induction commaForms sentences with
  | case1 => rfl
  | case2 sentence => simp [commaTokens, written]
  | case3 sentence next sentences ih =>
      rw [List.flatMap_cons, ih fun s member => written s (List.mem_cons_of_mem _ member), commaTokens,
        Form.tokens_mk, ← written sentence (by simp)]
      simp [Construct.layout, Piece.written]

theorem semicolonForms_tokens {sentences : List Sentence}
    (written : ∀ sentence ∈ sentences, sentence.form.tokens = sentence.tokens) :
    (semicolonForms sentences).flatMap Form.tokens = semicolonTokens sentences := by
  rw [semicolonForms, semicolonTokens, List.flatMap_map]
  refine List.flatMap_congr fun sentence member => ?_
  rw [Form.tokens_mk, ← written sentence member]
  simp [Construct.layout, Piece.written]

theorem commaForms_well {sentences : List Sentence}
    (readable : ∀ sentence ∈ sentences, sentence.Readable .argument) :
    Construct.Row (commaForms sentences) ∧ ∀ f ∈ commaForms sentences, f.Well := by
  fun_induction commaForms sentences with
  | case1 => simp [Construct.Row]
  | case2 sentence =>
      have here := readable sentence (by simp)
      simpa [Construct.Row] using ⟨Or.inr here.admitted, here.well⟩
  | case3 sentence next sentences ih =>
      have here := readable sentence (by simp)
      obtain ⟨row, wells⟩ := ih fun s member => readable s (List.mem_cons_of_mem _ member)
      have some : commaForms (next :: sentences) ≠ [] := by cases sentences <;> simp [commaForms]
      refine ⟨⟨fun f member => ?_, fun f member => ?_⟩, fun f member => ?_⟩
      · rcases List.mem_cons.mp member with rfl | later
        · exact Or.inl rfl
        · exact row.1 f later
      · rw [List.dropLast_cons_of_ne_nil some] at member
        rcases List.mem_cons.mp member with rfl | later
        · rfl
        · exact row.2 f later
      · rcases List.mem_cons.mp member with rfl | later
        · exact .mk here.admitted (by simpa [Construct.parts] using here.well)
        · exact wells f later

theorem semicolonForms_well {sentences : List Sentence}
    (readable : ∀ sentence ∈ sentences,
      sentence.form.Well ∧ sentence.form.construct.isExpression = true) :
    Construct.Row (semicolonForms sentences) ∧ ∀ f ∈ semicolonForms sentences, f.Well := by
  have terminated : ∀ f ∈ semicolonForms sentences, f.construct.isTerminated = true := by
    intro f member
    obtain ⟨sentence, _, rfl⟩ := List.mem_map.mp member
    rfl
  refine ⟨⟨fun f member => Or.inl (terminated f member),
    fun f member => terminated f (List.mem_of_mem_dropLast member)⟩, fun f member => ?_⟩
  obtain ⟨sentence, isSentence, rfl⟩ := List.mem_map.mp member
  obtain ⟨well, isExpression⟩ := readable sentence isSentence
  exact .mk isExpression (by simpa [Construct.parts] using well)

/-- Arguments in parentheses are written with the tokens of their form, and well-formed. -/
theorem inParens_readable {arguments : List Sentence}
    (readable : ∀ argument ∈ arguments, argument.Readable .argument) :
    (inParens arguments).form.tokens = (inParens arguments).tokens ∧ (inParens arguments).form.Well := by
  obtain ⟨row, wells⟩ := commaForms_well readable
  refine ⟨?_, .mk row wells⟩
  rw [inParens, Form.tokens_mk, ← commaForms_tokens fun s member => (readable s member).written]
  simp [Construct.layout, Piece.written, List.flatMap_map, List.flatMap_append]

theorem inBraces_readable {statements : List Sentence}
    (readable : ∀ statement ∈ statements, statement.Readable .statement) :
    (inBraces statements).form.tokens = (inBraces statements).tokens ∧
      (inBraces statements).form.Well := by
  obtain ⟨row, wells⟩ := semicolonForms_well fun s member =>
    ⟨(readable s member).well, (readable s member).admitted⟩
  refine ⟨?_, .mk row wells⟩
  rw [inBraces, Form.tokens_mk, ← semicolonForms_tokens fun s member => (readable s member).written]
  simp [Construct.layout, Piece.written, List.flatMap_map, List.flatMap_append]

end Sentence

theorem well_ident (name : String) : (⟨.ident name⟩ : Form).Well :=
  .mk trivial (by simp [Construct.parts])

/-- Every sentence of the grammar can be read back. -/
theorem Derives.readable {category : Category} {sentence : Sentence}
    (derived : Derives category sentence) : sentence.Readable category := by
  induction derived with
  | void | u64 | name =>
      refine ⟨?_, .mk trivial (by simp [Construct.parts]), rfl, rfl⟩
      rw [Form.tokens_mk]
      rfl
  | plainType _ ih => exact ⟨ih.written, ih.well, ih.admitted.1⟩
  | functionType _ _ ihArguments ih =>
      obtain ⟨written, well⟩ := inParens_readable ihArguments
      refine ⟨?_, .mk ⟨rfl, ih.admitted⟩ ?_, rfl⟩
      · rw [Form.tokens_mk, ← ih.written, ← written]
        simp [Construct.layout, Piece.written]
      · simpa [Construct.parts] using ⟨well, ih.well⟩
  | typeOperand _ ih =>
      refine ⟨ih.written, ih.well, Construct.isValue_of_isType ih.admitted, ?_⟩
      exact Nat.lt_succ_of_le (Construct.level_of_isType ih.admitted)
  | int =>
      refine ⟨?_, .mk trivial (by simp [Construct.parts]), rfl, Nat.lt_of_sub_eq_succ rfl⟩
      rw [Form.tokens_mk]
      rfl
  | call _ ihArguments =>
      obtain ⟨written, well⟩ := inParens_readable ihArguments
      refine ⟨?_, .mk ⟨rfl, rfl⟩ ?_, rfl, Nat.zero_lt_succ _⟩
      · rw [Form.tokens_mk, ← written]
        simp [Construct.layout, Piece.written, Form.tokens_mk (.ident _)]
      · simpa [Construct.parts] using ⟨well_ident _, well⟩
  | function _ _ _ ihArguments ihResult ihStatements =>
      obtain ⟨writtenArguments, wellArguments⟩ := inParens_readable ihArguments
      obtain ⟨writtenBody, wellBody⟩ := inBraces_readable ihStatements
      refine ⟨?_, .mk ⟨rfl, ihResult.admitted.1, ihResult.admitted.2, rfl⟩ ?_, rfl,
        Nat.lt_of_sub_eq_succ rfl⟩
      · rw [Form.tokens_mk, ← ihResult.written, ← writtenArguments, ← writtenBody]
        simp [Construct.layout, Piece.written]
      · simpa [Construct.parts] using ⟨wellArguments, ihResult.well, wellBody⟩
  | operandValue _ ih => exact ⟨ih.written, ih.well, ih.admitted.1⟩
  | sum _ _ ihLeft ihRight =>
      refine ⟨?_, .mk ⟨ihLeft.admitted, ihRight.admitted.1, ihRight.admitted.2⟩ ?_, rfl⟩
      · rw [Form.tokens_mk, ← ihLeft.written, ← ihRight.written]
        simp [Construct.layout, Piece.written]
      · simpa [Construct.parts] using ⟨ihLeft.well, ihRight.well⟩
  | inferred _ ih =>
      refine ⟨?_, .mk ⟨rfl, by simp, by simpa [Category.Admits] using ih.admitted, Or.inr rfl⟩ ?_, rfl⟩
      · rw [Form.tokens_mk, ← ih.written]
        simp [Construct.layout, Piece.written, Form.tokens_mk (.ident _)]
      · simpa [Construct.parts] using ⟨well_ident _, ih.well⟩
  | annotated _ _ ihType ihValue =>
      refine ⟨?_, .mk ⟨rfl, by simpa [Category.Admits] using ihType.admitted,
        by simpa [Category.Admits] using ihValue.admitted, Or.inl rfl⟩ ?_, rfl⟩
      · rw [Form.tokens_mk, ← ihType.written, ← ihValue.written]
        simp [Construct.layout, Piece.written, Form.tokens_mk (.ident _)]
      · simpa [Construct.parts] using ⟨well_ident _, ihType.well, ihValue.well⟩
  | declared _ ih =>
      refine ⟨?_, .mk ⟨rfl, by simpa [Category.Admits] using ih.admitted, by simp, Or.inl rfl⟩ ?_, rfl⟩
      · rw [Form.tokens_mk, ← ih.written]
        simp [Construct.layout, Piece.written, Form.tokens_mk (.ident _)]
      · simpa [Construct.parts] using ⟨well_ident _, ih.well⟩
  | bindingArgument _ ih | bindingStatement _ ih => exact ⟨ih.written, ih.well, ih.admitted⟩
  | valueArgument _ ih | valueStatement _ ih =>
      exact ⟨ih.written, ih.well, Construct.isExpression_of_isValue ih.admitted⟩
  | assign _ ih =>
      refine ⟨?_, .mk ⟨rfl, ih.admitted⟩ ?_, rfl⟩
      · rw [Form.tokens_mk, ← ih.written]
        simp [Construct.layout, Piece.written, Form.tokens_mk (.ident _)]
      · simpa [Construct.parts] using ⟨well_ident _, ih.well⟩
  | print _ ih =>
      refine ⟨?_, .mk ih.admitted ?_, rfl⟩
      · rw [Form.tokens_mk, ← ih.written]
        simp [Construct.layout, Piece.written]
      · simpa [Construct.parts] using ih.well
  | returnNothing =>
      refine ⟨?_, .mk (by simp [Construct.Fits]) (by simp [Construct.parts]), rfl⟩
      rw [Form.tokens_mk]
      rfl
  | returnValue _ ih =>
      refine ⟨?_, .mk (by simpa [Construct.Fits, Category.Admits] using ih.admitted) ?_, rfl⟩
      · rw [Form.tokens_mk, ← ih.written]
        simp [Construct.layout, Piece.written]
      · simpa [Construct.parts] using ih.well
  | program _ ih =>
      obtain ⟨row, wells⟩ := semicolonForms_well fun s member =>
        ⟨(ih s member).well, (ih s member).admitted⟩
      refine ⟨?_, .mk row wells, trivial⟩
      rw [Form.tokens_mk, ← semicolonForms_tokens fun s member => (ih s member).written]
      simp [Construct.layout, Piece.written, List.flatMap_map]

/-! ## The result -/

/-- Reduction reads every program of the grammar, wherever its tokens stand in the source. -/
theorem reduce_reads_program (program : Sentence) (derived : Derives .program program)
    (lexemes : List Lexeme) (written : (lexemes.map fun lexeme => lexeme.token) = program.tokens) :
    ∃ tree phrase, reduce lexemes = .ok tree ∧ tree.phrase? = .ok (some phrase) ∧
      phrase.form = program.form := by
  have readable := derived.readable
  cases derived with
  | @program bindings _ =>
      have tokens := readable.written.trans written.symm
      have items : Workspace.bareItems lexemes =
          (⟨.root (semicolonForms bindings)⟩ : Form).tokens.map .token := by
        rw [tokens, List.map_map]
        rfl
      have reduced :=
        Items.reduce_tokens readable.well (n := lexemes.length) (by rw [tokens, List.length_map])
      have agrees := Workspace.reduce_agrees lexemes
      rw [items, reduced] at agrees
      obtain ⟨tree, isTree, w, forms, parsed⟩ := agrees.ok
      obtain ⟨phrase, read, same⟩ := parsed.phrase
      exact ⟨tree, phrase, isTree, read, same⟩

/-- `printedSum` as the grammar has it. -/
def printedSumForm : Form :=
  let call : Form := ⟨.call ⟨.ident "f"⟩ ⟨.paren [⟨.separator ⟨.int 1⟩⟩, ⟨.int 2⟩]⟩⟩
  let body : Form := ⟨.curly [⟨.statement ⟨.printU64 ⟨.sum call ⟨.int 3⟩⟩⟩⟩]⟩
  ⟨.root [⟨.statement ⟨.binding ⟨.ident "main"⟩ none (some ⟨.function ⟨.paren []⟩ ⟨.void⟩ body⟩)⟩⟩]⟩

theorem reduce_reads_printedSum :
    Derives .program ⟨printedSum.map fun lexeme => lexeme.token, printedSumForm⟩ ∧
      ∃ tree phrase, reduce printedSum = .ok tree ∧ tree.phrase? = .ok (some phrase) ∧
        phrase.form = printedSumForm := by
  have literal (n : UInt64) : Derives .operand ⟨[.int n], ⟨.int n⟩⟩ := .int
  have argument (n : UInt64) : Derives .argument ⟨[.int n], ⟨.int n⟩⟩ :=
    .valueArgument (.operandValue (literal n))
  have call := @Derives.call "f" [⟨[.int 1], ⟨.int 1⟩⟩, ⟨[.int 2], ⟨.int 2⟩⟩] (by simp [argument])
  have statement := Derives.print (.sum (.operandValue call) (literal 3))
  have function := @Derives.function [] [_] _ (by simp) .void (List.forall_mem_singleton.mpr statement)
  have binding := @Derives.inferred "main" _ (.operandValue function)
  have program : Derives .program ⟨printedSum.map fun lexeme => lexeme.token, printedSumForm⟩ :=
    @Derives.program [_] (List.forall_mem_singleton.mpr binding)
  exact ⟨program, reduce_reads_program _ program printedSum rfl⟩

end Rill
