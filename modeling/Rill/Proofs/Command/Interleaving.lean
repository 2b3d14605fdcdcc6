import Mathlib
import Rill.Command.Config

/-!
# Options between words

Arguments are made of items: plain words, and options with the value they take along.

    check --format json a.bk --verbose      words: check, a.bk      options: --format json, --verbose

An option changes the settings or ends the reading, and never looks at the words. So items are read as if the options
came first: `readAll_items` says what they make, and `options_before_words` that the words may stand anywhere.
-/

namespace Rill

namespace Arguments

/-! ## Items -/

/-- A plain word does not start with a dash, or is the dash alone. -/
def IsWord (argument : String) : Prop :=
  argument.toList.head? ≠ some '-' ∨ argument = "-"

/-- The options that are known by their whole text. -/
def namedOptions : List String :=
  ["-h", "--help", "-V", "--version", "--verbose", "--assemble", "--format", "-o"]

/-- An option that is neither known by its whole text nor sets the format behind an equals sign. -/
def IsUnknown (argument : String) : Prop :=
  ¬ IsWord argument ∧ argument ∉ namedOptions ∧ ¬ "--format=".toList <+: argument.toList

instance (argument : String) : Decidable (IsWord argument) :=
  inferInstanceAs (Decidable (_ ∨ _))

instance (argument : String) : Decidable (IsUnknown argument) :=
  inferInstanceAs (Decidable (_ ∧ _))

/-- An option with all that belongs to it. -/
inductive CompleteOption where
  | help (argument : String) (isHelp : argument = "-h" ∨ argument = "--help")
  | version (argument : String) (isVersion : argument = "-V" ∨ argument = "--version")
  | verbose
  | assemble
  /-- The value is the next argument, whatever it looks like. -/
  | format (value : String)
  /-- The value stands behind an equals sign. -/
  | formatIs (value : String)
  | output (path : String)
  | unknown (argument : String) (isUnknown : IsUnknown argument)

/-- The arguments that an option is written with. -/
def CompleteOption.arguments : CompleteOption → List String
  | help argument _ | version argument _ | unknown argument _ => [argument]
  | verbose => ["--verbose"]
  | assemble => ["--assemble"]
  | format value => ["--format", value]
  | formatIs value => ["--format=" ++ value]
  | output path => ["-o", path]

/-- A word or a complete option. -/
inductive Item where
  | word (text : String) (isWord : IsWord text)
  | option (option : CompleteOption)

namespace Item

/-- The arguments that an item is written with. -/
def arguments : Item → List String
  | word text _ => [text]
  | option o => o.arguments

/-- The option, if the item is one. -/
def option? : Item → Option CompleteOption
  | word _ _ => none
  | option o => some o

/-- The word, if the item is one. -/
def word? : Item → Option String
  | word text _ => some text
  | option _ => none

@[simp] theorem option?_word (text : String) (isWord : IsWord text) :
    (word text isWord).option? = none := rfl

@[simp] theorem option?_option (o : CompleteOption) : (option o).option? = some o := rfl

@[simp] theorem word?_word (text : String) (isWord : IsWord text) :
    (word text isWord).word? = some text := rfl

@[simp] theorem word?_option (o : CompleteOption) : (option o).word? = none := rfl

end Item

/-- The arguments of a list of items. -/
def flatten (items : List Item) : List String :=
  items.flatMap Item.arguments

/-- All options in their order, then all words in theirs. -/
def optionsFirst (items : List Item) : List Item :=
  items.filter (·.option?.isSome) ++ items.filter (·.word?.isSome)

/-! ## What items make -/

/-- What an option does to the settings. An option that ends the reading gives the answer in place of
settings. -/
def CompleteOption.apply (config : Config) :
    CompleteOption → Except (Except UsageError (Command × Config)) Config
  | help _ _ => .error (.ok (.help, config))
  | version _ _ => .error (.ok (.version, config))
  | verbose => .ok { config with logFilter := "debug" }
  | assemble => .ok { config with assemble := true }
  | format value | formatIs value =>
      match Format.ofName value with
      | .ok known => .ok { config with format := known }
      | .error error => .error (.error error)
  | output path => .ok { config with output := some path }
  | unknown argument _ => .error (.error (.unknownOption argument))

/-- What is made of the settings, unless an option has ended the reading with an answer. -/
def unlessEnded {α ε : Type} (next : Config → Except ε α) : Except (Except ε α) Config → Except ε α
  | .error answer => answer
  | .ok config => next config

/-- What options and words make when the words are only looked at in the end. -/
def answer (config : Config) (options : List CompleteOption) (words : List String) :
    Except UsageError (Command × Config) :=
  unlessEnded (finish · words) (options.foldlM CompleteOption.apply config)

/-! ## Kinds of arguments -/

variable {argument : String}

theorem classify_unnamed (unnamed : argument ∉ namedOptions) :
    classify argument = ("--format=".toList.isPrefixOf? argument.toList).elim
      (if looksLikeOption argument then .unknownOption else .word) fun name =>
        .formatIs (String.ofList name) := by
  simp only [namedOptions, List.mem_cons, List.not_mem_nil, or_false, not_or] at unnamed
  simp only [classify, unnamed, or_self, if_false]
  cases "--format=".toList.isPrefixOf? argument.toList <;> rfl

theorem classify_formatIs (value : String) : classify ("--format=" ++ value) = .formatIs value := by
  have other : ∀ option ∈ namedOptions, ¬ "--format=".toList <+: option.toList := by decide
  have unnamed : "--format=" ++ value ∉ namedOptions := fun named =>
    other _ named ⟨value.toList, String.toList_append.symm⟩
  have split : "--format=".toList.isPrefixOf? ("--format=" ++ value).toList = some value.toList :=
    List.isPrefixOf?_eq_some_iff_append_eq.mpr String.toList_append.symm
  rw [classify_unnamed unnamed, split, Option.elim_some, String.ofList_toList]

/-- Every known option starts with a dash, so a word is none of them. -/
theorem classify_word (isWord : IsWord argument) : classify argument = .word := by
  rcases isWord with noDash | rfl
  · have dashed : ∀ option ∈ namedOptions, option.toList.head? = some '-' := by decide
    have noFormat : "--format=".toList.isPrefixOf? argument.toList = none := by
      rw [Option.eq_none_iff_forall_ne_some]
      intro name split
      rw [← List.isPrefixOf?_eq_some_iff_append_eq.mp split] at noDash
      exact noDash rfl
    have plain : looksLikeOption argument = false := by
      rw [looksLikeOption]
      split
      · next same => simp [same] at noDash
      · rfl
    rw [classify_unnamed fun named => noDash (dashed argument named), noFormat, Option.elim_none, plain]
    rfl
  · decide

theorem classify_unknown (isUnknown : IsUnknown argument) : classify argument = .unknownOption := by
  obtain ⟨noWord, unnamed, noFormat⟩ := isUnknown
  have split : "--format=".toList.isPrefixOf? argument.toList = none := by
    rw [Option.eq_none_iff_forall_ne_some]
    exact fun name split => noFormat ⟨name, List.isPrefixOf?_eq_some_iff_append_eq.mp split⟩
  have dashed : looksLikeOption argument = true := by
    simp only [IsWord, not_or, ne_eq, not_not, ← String.toList_inj] at noWord
    obtain ⟨dash, more⟩ := noWord
    obtain ⟨rest, text⟩ := List.head?_eq_some_iff.mp dash
    rw [looksLikeOption, text]
    cases rest with
    | nil => exact absurd text more
    | cons => rfl
  rw [classify_unnamed unnamed, split, Option.elim_none, dashed]
  rfl

/-! ## Reading -/

theorem readAll_word (isWord : IsWord argument) (config : Config) (words rest : List String) :
    readAll config words (argument :: rest) = readAll config (words ++ [argument]) rest := by
  rw [readAll.eq_def]
  simp only [classify_word isWord]

/-- An option is read without a look at the words. -/
theorem readAll_option (o : CompleteOption) (config : Config) (words rest : List String) :
    readAll config words (o.arguments ++ rest) =
      unlessEnded (fun config => readAll config words rest) (o.apply config) := by
  rw [readAll.eq_def]
  cases o with
  | help argument isHelp => rcases isHelp with rfl | rfl <;> rfl
  | version argument isVersion => rcases isVersion with rfl | rfl <;> rfl
  | verbose => rfl
  | assemble => rfl
  | format value =>
      show (Format.ofName value >>= fun format => readAll { config with format } words rest) = _
      rw [CompleteOption.apply]
      cases Format.ofName value <;> rfl
  | formatIs value =>
      simp only [CompleteOption.arguments, List.singleton_append, classify_formatIs, CompleteOption.apply]
      cases Format.ofName value <;> rfl
  | output path => rfl
  | unknown argument isUnknown =>
      simp only [CompleteOption.arguments, List.singleton_append, classify_unknown isUnknown]
      rfl

/-- The words that are met on the way wait until all options are read. -/
theorem readAll_items (items : List Item) (config : Config) (words : List String) :
    readAll config words (flatten items) =
      answer config (items.filterMap Item.option?) (words ++ items.filterMap Item.word?) := by
  induction items generalizing config words with
  | nil =>
      rw [List.filterMap_nil, List.filterMap_nil, List.append_nil]
      rfl
  | cons item items ih =>
      cases item with
      | word text isWord =>
          rw [List.filterMap_cons_none (Item.option?_word text isWord),
            List.filterMap_cons_some (Item.word?_word text isWord), List.append_cons, ← ih]
          exact readAll_word isWord config words (flatten items)
      | option o =>
          rw [List.filterMap_cons_some (Item.option?_option o),
            List.filterMap_cons_none (Item.word?_option o)]
          refine (readAll_option o config words (flatten items)).trans ?_
          rw [answer, List.foldlM_cons]
          cases o.apply config with
          -- Once an option has ended the reading, no later item counts on either side.
          | error ended => rfl
          | ok changed => exact ih changed words

/-- Putting the options first keeps the options and the words, each in their order. -/
theorem filterMap_optionsFirst (items : List Item) :
    (optionsFirst items).filterMap Item.option? = items.filterMap Item.option? ∧
      (optionsFirst items).filterMap Item.word? = items.filterMap Item.word? := by
  have noWord : ∀ item ∈ items.filter (·.option?.isSome), item.word? = none := by
    rintro (⟨text, isWord⟩ | o) member
    · simp at member
    · rfl
  have noOption : ∀ item ∈ items.filter (·.word?.isSome), item.option? = none := by
    rintro (⟨text, isWord⟩ | o) member
    · rfl
    · simp at member
  have options (item : Item) : (if item.option?.isSome then item.option? else none) = item.option? := by
    cases item <;> rfl
  have words (item : Item) : (if item.word?.isSome then item.word? else none) = item.word? := by
    cases item <;> rfl
  simp only [optionsFirst, List.filterMap_append, List.filterMap_eq_nil_iff.mpr noWord,
    List.filterMap_eq_nil_iff.mpr noOption, List.filterMap_filter, options, words, List.append_nil,
    List.nil_append, and_self]

/-- Options and words may be mixed: the arguments are read as if all options came first, with the same error or
the same command and settings. These are what the options make, and then the words. -/
theorem options_before_words (config : Config) (items : List Item) :
    config.parseArguments (flatten items) = config.parseArguments (flatten (optionsFirst items)) ∧
      config.parseArguments (flatten items) =
        answer config (items.filterMap Item.option?) (items.filterMap Item.word?) := by
  obtain ⟨sameOptions, sameWords⟩ := filterMap_optionsFirst items
  have read (items : List Item) : config.parseArguments (flatten items) =
      answer config (items.filterMap Item.option?) (items.filterMap Item.word?) :=
    readAll_items items config []
  refine ⟨?_, read items⟩
  rw [read, read, sameOptions, sameWords]

end Arguments

end Rill
