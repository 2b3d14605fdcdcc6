import Mathlib
import Rill.Proofs.Reduction.Grammar
import Rill.Proofs.Reduction.Locality

/-!
# Which arrow takes the braces

A function is written with an arrow before its result and braces behind it, and a function type with
an arrow before its result. The pass of arrows goes from right to left, and the first arrow that has
braces behind its result takes them. In the definition of a function whose result is a function type
this is the last arrow of the type, and not the arrow of the function.

1. The first pass pairs the brackets of the parameters, of the type and of the body, and leaves the rest
   of the definition as it is (`pass_definition`).
2. When the result is no function type there is only one arrow, and the definition is read as it is
   written (`framed_definition`).
3. When the result is a function type, its last arrow makes a function, and the arrow before finds this
   function in the place of a type (`scanLeft_braces_taken`).
4. So the definition is read if and only if the result is no function type
   (`definition_reads_iff_result_plain`).
-/

namespace Rill

/-- How types are written, with the forms that are meant. The arguments of a function type are lexemes
that are read by themselves. -/
inductive TypeText : List Token → Form → Prop
  | void : TypeText [.void] ⟨.void⟩
  | u64 : TypeText [.u64] ⟨.u64⟩
  | name (name : String) : TypeText [.ident name] ⟨.ident name⟩
  | function {args : List Lexeme} {children : List Form} {tokens : List Token} {result : Form} :
      ReadsAs args children → TypeText tokens result →
      TypeText (.opening .paren :: (args.map Lexeme.token ++ .closing .paren :: .arrow :: tokens))
        ⟨.functionType ⟨.paren children⟩ result⟩

/-- A type is made with the leaves or with the arrows. -/
theorem TypeText.level {tokens : List Token} {type : Form} (text : TypeText tokens type) :
    type.construct.level = Group.leaf.level ∨
      ∃ params result, type.construct = .functionType params result := by
  cases text with
  | function => exact Or.inr ⟨_, _, rfl⟩
  | _ => exact Or.inl rfl

theorem TypeText.isType {tokens : List Token} {type : Form} (text : TypeText tokens type) :
    type.construct.isType = true := by
  cases text <;> rfl

/-! ## Sentences of the grammar -/

section Sentences

variable {lexemes : List Lexeme} {children : List Form}

theorem reads_of_well (well : (⟨.root children⟩ : Form).Well)
    (written : (lexemes.map fun lexeme => lexeme.token) = (⟨.root children⟩ : Form).tokens) :
    ReadsAs lexemes children := by
  refine reads_of_items ?_
  rw [Workspace.bareItems_eq, written]
  exact Items.reduce_tokens well (by rw [← written, List.length_map])

/-- The arguments of the grammar are read by themselves. -/
theorem reads_arguments {arguments : List Sentence}
    (derived : ∀ argument ∈ arguments, Derives .argument argument)
    (written : (lexemes.map fun lexeme => lexeme.token) = Sentence.commaTokens arguments) :
    ReadsAs lexemes (Sentence.commaForms arguments) := by
  obtain ⟨row, wells⟩ := Sentence.commaForms_well fun s member => (derived s member).readable
  refine reads_of_well (.mk row wells) ?_
  rw [written, ← Sentence.commaForms_tokens fun s member => (derived s member).readable.written,
    Form.tokens_mk, Construct.layout, List.flatMap_map]
  rfl

/-- The statements of the grammar are read by themselves. -/
theorem reads_statements {statements : List Sentence}
    (derived : ∀ statement ∈ statements, Derives .statement statement)
    (written : (lexemes.map fun lexeme => lexeme.token) = Sentence.semicolonTokens statements) :
    ReadsAs lexemes (Sentence.semicolonForms statements) := by
  obtain ⟨row, wells⟩ := Sentence.semicolonForms_well fun s member =>
    ⟨(derived s member).readable.well, (derived s member).readable.admitted⟩
  refine reads_of_well (.mk row wells) ?_
  rw [written, ← Sentence.semicolonForms_tokens fun s member => (derived s member).readable.written,
    Form.tokens_mk, Construct.layout, List.flatMap_map]
  rfl

/-- The tokens as lexemes without places. -/
def unplaced (tokens : List Token) : List Lexeme :=
  tokens.map fun t => ⟨t, ⟨0, 0⟩⟩

theorem unplaced_tokens (tokens : List Token) :
    ((unplaced tokens).map fun lexeme => lexeme.token) = tokens := by
  rw [unplaced, List.map_map]
  exact List.map_id _

/-- The types of the grammar are written as `TypeText` says. -/
theorem typeText_of_derives {category : Category} {sentence : Sentence}
    (derived : Derives category sentence) (isType : category = .plain ∨ category = .type) :
    TypeText sentence.tokens sentence.form := by
  induction derived with
  | void => exact .void
  | u64 => exact .u64
  | name => exact .name _
  | plainType _ ih => exact ih (Or.inl rfl)
  | @functionType arguments result derived _ _ ih =>
      have args := reads_arguments derived (unplaced_tokens _)
      have text := TypeText.function args (ih (Or.inr rfl))
      rw [unplaced_tokens] at text
      simpa [Sentence.inParens] using text
  | _ => simp at isType

end Sentences

/-! ## The brackets of a definition -/

/-- The tokens of a definition that gives a function a name. -/
def definitionText (name : String) (params type body : List Token) : List Token :=
  .ident name :: .doubleColon :: .opening .paren :: (params ++ .closing .paren :: .arrow ::
    (type ++ .opening .brace :: (body ++ [.closing .brace, .semicolon])))

/-- The form of a definition that gives a function a name. -/
def definitionForm (name : String) (params : List Form) (type : Form) (body : List Form) : Form :=
  ⟨.statement ⟨.binding ⟨.ident name⟩ none (some ⟨.function ⟨.paren params⟩ type ⟨.curly body⟩⟩)⟩⟩

namespace Items

variable {inner : Inner} {left right : List Item} {tokens : List Token} {name : String}
  {type params body : Form} {ps bs : List Form} {d k : Nat}

theorem view_functionType {result : Form} (made : params.construct.level < k)
    (unmade : k ≤ Group.arrow.level) : (⟨.functionType params result⟩ : Form).view k =
      .part params :: .token .arrow :: result.view k := by
  rw [Form.view_unmade unmade]
  simp [Construct.layout, Form.shown, Form.view_made made]

/-- A definition in the passes before that of the arrows. -/
theorem view_definition (low : 0 < k) (high : k ≤ Group.arrow.level) :
    (⟨.root [definitionForm name ps type bs]⟩ : Form).view k =
      (⟨.ident name⟩ : Form).view k ++ .token .doubleColon :: .part ⟨.paren ps⟩ :: .token .arrow ::
        (type.view k ++ [.part ⟨.curly bs⟩, .token .semicolon]) := by
  have high : k ≤ 2 := high
  rw [Form.view_root _ (by simp [Group.level]; omega), List.flatMap_singleton, definitionForm,
    Form.view_unmade (by simp [Construct.level, Group.level]; omega)]
  have binding : ∀ value : Form, (⟨.binding ⟨.ident name⟩ none (some value)⟩ : Form).view k =
      (⟨.ident name⟩ : Form).view k ++ .token .doubleColon :: value.view k := by
    intro value
    rw [Form.view_unmade (by simp [Construct.level, Group.level]; omega)]
    simp [Construct.layout, Form.shown]
  have function : (⟨.function ⟨.paren ps⟩ type ⟨.curly bs⟩⟩ : Form).view k =
      .part ⟨.paren ps⟩ :: .token .arrow :: (type.view k ++ [.part ⟨.curly bs⟩]) := by
    rw [Form.view_unmade high]
    simp [Construct.layout, Form.shown, Form.view_made (f := ⟨.paren ps⟩) low,
      Form.view_made (f := ⟨.curly bs⟩) low]
  simp [Construct.layout, Form.shown, binding, function]

/-- The first pass over the tokens of a type pairs its brackets. -/
theorem scanRight_type (text : TypeText tokens type) (deep : tokens.length ≤ d) (noName : NoName left) :
    scanRight (reduce d) .bracket left (tokens.map .token ++ right) =
      scanRight (reduce d) .bracket ((type.view 1).reverse ++ left) right := by
  induction text generalizing left with
  | void | u64 | name =>
      rw [Form.view_unmade]
      · exact scanRight_other rfl
      · exact Nat.le_refl _
  | @function args children tokens result reads _ ih =>
      rw [List.length_cons, List.length_append, List.length_map, List.length_cons, List.length_cons] at deep
      have group : scanRight (reduce d) .bracket left (.token (.opening .paren) ::
          (Workspace.bareItems args ++ .token (.closing .paren) :: .token .arrow ::
            (tokens.map .token ++ right))) = _ :=
        scanRight_group reads (by omega) (Or.inl noName)
      have rest : scanRight (reduce d) .bracket (.token .arrow :: .part ⟨.paren children⟩ :: left) _ = _ :=
        ih (by omega) (noName_token (by simp))
      rw [view_functionType Nat.one_pos (by decide)]
      simp only [List.map_cons, List.map_append, List.map_map, List.cons_append, List.append_assoc,
        List.reverse_cons, List.nil_append]
      exact group.trans ((scanRight_other rfl).trans rest)

/-- The first pass over a definition pairs the brackets of its three parts. -/
theorem pass_definition {params body : List Lexeme} (readsParams : ReadsAs params ps)
    (readsBody : ReadsAs body bs) (text : TypeText tokens type)
    (deep : params.length + tokens.length + body.length < d) :
    pass (reduce d) ((definitionText name (params.map Lexeme.token) tokens
        (body.map Lexeme.token)).map .token) .bracket =
      .ok ((⟨.root [definitionForm name ps type bs]⟩ : Form).view 1) := by
  let named : List Item := [.token .doubleColon, .token (.ident name)]
  let arrowed : List Item := .token .arrow :: .part ⟨.paren ps⟩ :: named
  let braces : List Item := .token (.opening .brace) ::
    (Workspace.bareItems body ++ .token (.closing .brace) :: [.token .semicolon])
  let parens : List Item := .token (.opening .paren) :: (Workspace.bareItems params ++
    .token (.closing .paren) :: .token .arrow :: (tokens.map .token ++ braces))
  have items : (definitionText name (params.map Lexeme.token) tokens (body.map Lexeme.token)).map
      Piece.token = .token (.ident name) :: .token .doubleColon :: parens := by
    simp only [parens, braces, definitionText, Workspace.bareItems_eq, List.map_cons, List.map_append,
      List.map_nil]
  have view : (⟨.root [definitionForm name ps type bs]⟩ : Form).view 1 =
      (.token .semicolon :: .part ⟨.curly bs⟩ :: ((type.view 1).reverse ++ arrowed)).reverse := by
    rw [view_definition Nat.one_pos (by decide),
      Form.view_unmade (f := ⟨.ident name⟩) (k := 1) (Nat.le_refl _)]
    simp [Construct.layout, Form.shown, arrowed, named]
  have paramsGroup : scanRight (reduce d) .bracket named parens = _ :=
    scanRight_group readsParams (by omega) (Or.inl (noName_token (by simp)))
  have typeParts : scanRight (reduce d) .bracket arrowed (tokens.map .token ++ braces) = _ :=
    scanRight_type text (by omega) (noName_token (by simp))
  have bodyGroup : scanRight (reduce d) .bracket ((type.view 1).reverse ++ arrowed) braces = _ :=
    scanRight_group readsBody (by omega) (Or.inr rfl)
  show scanRight (reduce d) .bracket [] _ = _
  rw [items, scanRight_other rfl, scanRight_other rfl]
  refine paramsGroup.trans ((scanRight_other rfl).trans (typeParts.trans (bodyGroup.trans ?_)))
  rw [scanRight_other rfl, scanRight, view]
  rfl

/-! ## A result that is no function type -/

theorem framed_definition (isType : type.construct.isType = true)
    (plain : type.construct.level = Group.leaf.level) :
    (⟨.root [definitionForm name ps type bs]⟩ : Form).Framed := by
  have framed : type.Framed := by
    obtain ⟨c⟩ := type
    cases c with
    | void | u64 | ident => exact .mk trivial (by simp [Construct.parts])
    | functionType => cases plain
    | _ => cases isType
  have function : (⟨.function ⟨.paren ps⟩ type ⟨.curly bs⟩⟩ : Form).Framed := by
    refine .mk ⟨rfl, isType, plain, rfl⟩ fun g member => ?_
    simp only [Construct.parts, List.mem_cons, List.not_mem_nil, or_false] at member
    rcases member with rfl | rfl | rfl
    · exact .group rfl
    · exact framed
    · exact .group rfl
  have binding : (⟨.binding ⟨.ident name⟩ none
      (some ⟨.function ⟨.paren ps⟩ type ⟨.curly bs⟩⟩)⟩ : Form).Framed := by
    refine .mk ⟨rfl, by simp, by simp [Construct.isValue], by simp⟩ fun g member => ?_
    simp only [Construct.parts, Option.toList_none, Option.toList_some, List.nil_append, List.mem_cons,
      List.not_mem_nil, or_false] at member
    rcases member with rfl | rfl
    · exact .mk trivial (by simp [Construct.parts])
    · exact function
  have statement : (definitionForm name ps type bs).Framed :=
    .mk rfl (by simpa [Construct.parts, definitionForm] using binding)
  refine .mk ⟨by simp [definitionForm, Construct.isTerminated], by simp⟩ ?_
  simpa [Construct.parts] using statement

/-! ## A result that is a function type -/

/-- The pass of leaves makes every leaf, wherever it stands. -/
theorem settles_leaves (f : Form) : Settles inner .leaf f := by
  induction size : sizeOf f using Nat.strong_induction_on generalizing f with
  | _ size ih =>
    obtain ⟨c⟩ := f
    cases c with
    | paren | curly | call => exact settles_of_made (by simp [Construct.level, Group.level])
    | ident | int | void | u64 => exact settles_leaf rfl rfl (fun _ _ => rfl) rfl
    | _ =>
        refine settles_of_parts (by simp [Construct.level, Group.level]) (fun g member => ?_)
          fun right _ => spaced_of_clear fun items => ?_
        · exact ih (sizeOf g) (size ▸ Form.sizeOf_part_lt (Construct.part_mem_layout.mpr member)) g rfl
        · cases items with
          | nil => trivial
          | cons item items => cases item <;> simp [Clear]

theorem scanLeft_refused {group : Group} {t : Token} {kind : ReduceErrorKind}
    (accepted : group.accepts t = true) (refused : act inner left t right = .error kind) :
    scanLeft inner group right (.token t :: left) = .error kind := by
  rw [scanLeft, if_pos accepted, refused]
  rfl

theorem act_arrow_without_type {result : Form} (isParen : params.construct.isParen = true)
    (noType : result.construct.isType = false) :
    act inner (.part params :: left) .arrow (.part result :: right) = .error .missingReturnType := by
  have refused : first? Construct.isType (.part result :: right) = none := by
    simp [first?, Option.filter, noType]
  simp only [act, arrow, first?_part isParen, refused]
  rfl

/-- The last arrow of a function type takes the braces behind the type, and the arrow before the type is
left without a result. -/
theorem scanLeft_braces_taken (text : TypeText tokens type)
    (isFunctionType : type.construct.level = Group.arrow.level)
    (isParen : params.construct.isParen = true) (isCurly : body.construct.isCurly = true) :
    scanLeft inner .arrow (.part body :: right)
        ((type.view Group.arrow.level).reverse ++ .token .arrow :: .part params :: left) =
      .error .missingReturnType := by
  induction text generalizing params left with
  | void | u64 | name => cases isFunctionType
  | @function args children tokens result _ resultText ih =>
      rw [view_functionType Nat.two_pos (Nat.le_refl _)]
      simp only [List.reverse_cons, List.append_assoc, List.cons_append, List.nil_append]
      rcases resultText.level with plain | ⟨_, _, isFunctionType⟩
      · rw [Form.view_made (plain ▸ by decide)]
        show scanLeft inner .arrow _ (.part result :: .token .arrow :: .part ⟨.paren children⟩ :: _) = _
        rw [scanLeft_part, scanLeft_act rfl (act_function rfl resultText.isType isCurly)]
        exact scanLeft_refused rfl (act_arrow_without_type isParen rfl)
      · exact ih (by rw [isFunctionType]; rfl) rfl

/-- A definition whose brackets are paired is refused if its result is a function type. -/
theorem reduce_braces_taken {items : List Item} (text : TypeText tokens type)
    (isFunctionType : type.construct.level = Group.arrow.level)
    (paired : pass (reduce d) items .bracket =
      .ok ((⟨.root [definitionForm name ps type bs]⟩ : Form).view 1)) :
    reduce (d + 1) items = .error .missingReturnType := by
  have leaves : pass (reduce d) _ .leaf = _ :=
    pass_eq (settles_leaves ⟨.root [definitionForm name ps type bs]⟩)
  have arrows : pass (reduce d) ((⟨.root [definitionForm name ps type bs]⟩ : Form).view 2) .arrow =
      .error .missingReturnType := by
    rw [view_definition Nat.two_pos (Nat.le_refl _)]
    show scanLeft (reduce d) .arrow [] (List.reverse _) = _
    simp only [List.reverse_append, List.reverse_cons, List.append_assoc, List.cons_append,
      List.nil_append, List.reverse_nil]
    rw [scanLeft_other rfl, scanLeft_part]
    exact scanLeft_braces_taken text isFunctionType rfl rfl
  have passes : Group.byPriority.foldlM (pass (reduce d)) items = .error .missingReturnType := by
    rw [Group.byPriority, List.foldlM_cons, paired]
    show List.foldlM (pass (reduce d)) ((⟨.root [_]⟩ : Form).view Group.leaf.level) _ = _
    rw [List.foldlM_cons, leaves]
    show List.foldlM (pass (reduce d)) ((⟨.root [_]⟩ : Form).view 2) _ = _
    rw [List.foldlM_cons, arrows]
    rfl
  rw [reduce, passes]
  rfl

end Items

/-! ## Definitions of functions -/

section Definition

variable {name : String} {params body lexemes : List Lexeme} {ps bs : List Form} {type : Form}
  {typeTokens : List Token}

/-- The definition of a function, with parameters and a body that are read by themselves and a result
that is a type, is read as it is written if and only if the result is no function type. If it is one,
the return type is reported as missing. -/
theorem definition_reads_iff_result_plain (readsParams : ReadsAs params ps) (readsBody : ReadsAs body bs)
    (text : TypeText typeTokens type)
    (written : lexemes.map Lexeme.token =
      definitionText name (params.map Lexeme.token) typeTokens (body.map Lexeme.token)) :
    (ReadsAs lexemes [definitionForm name ps type bs] ↔
      ∀ args result, type.construct ≠ .functionType args result) ∧
    ∀ args result, type.construct = .functionType args result →
      ∃ error, reduce lexemes = .error error ∧ error.kind = .missingReturnType := by
  have paired : Items.pass (Items.reduce lexemes.length) (Workspace.bareItems lexemes) .bracket =
      .ok ((⟨.root [definitionForm name ps type bs]⟩ : Form).view 1) := by
    rw [Workspace.bareItems_eq, written]
    refine Items.pass_definition readsParams readsBody text ?_
    have length := congrArg List.length written
    simp only [definitionText, List.length_map, List.length_cons, List.length_append] at length
    omega
  have refused : ∀ args result, type.construct = .functionType args result →
      ∃ error, reduce lexemes = .error error ∧ error.kind = .missingReturnType := by
    intro args result isFunctionType
    have agrees := Workspace.reduce_agrees lexemes
    rw [Items.reduce_braces_taken text (by rw [isFunctionType]; rfl) paired] at agrees
    exact agrees.error
  refine ⟨⟨?_, ?_⟩, refused⟩
  · rintro ⟨tree, _, reduced, _⟩ args result isFunctionType
    obtain ⟨error, failed, _⟩ := refused args result isFunctionType
    cases reduced.symm.trans failed
  · intro plain
    rcases text.level with isLeaf | ⟨args, result, isFunctionType⟩
    · exact reads_of_items (Items.reduce_paired (Items.framed_definition text.isType isLeaf) paired)
    · exact absurd isFunctionType (plain args result)

end Definition

/-- Functions of one parameter, with a return as the only statement. The first has a name as its result,
and the second a function type of two arrows. -/
theorem returning_reads_iff_result_plain :
    let parameter : List Token := [.ident "x", .colon, .u64]
    let parameterForm : Form := ⟨.binding ⟨.ident "x"⟩ (some ⟨.u64⟩) none⟩
    let result : List Token := [.opening .paren, .closing .paren, .arrow, .opening .paren, .ident "x",
      .colon, .u64, .closing .paren, .arrow, .ident "T"]
    let body : List Token := [.returnWord, .semicolon]
    ReadsAs (unplaced (definitionText "f" parameter [.ident "T"] body))
        [definitionForm "f" [parameterForm] ⟨.ident "T"⟩ [⟨.statement ⟨.returnWith none⟩⟩]] ∧
      ∃ error, reduce (unplaced (definitionText "f" parameter result body)) = .error error ∧
        error.kind = .missingReturnType := by
  intro parameter parameterForm result body
  have declared := @Derives.declared "x" _ (.plainType .u64)
  have argument : ∀ argument ∈ [_], Derives .argument argument :=
    List.forall_mem_singleton.mpr (.bindingArgument declared)
  have params : ReadsAs (unplaced parameter) [parameterForm] := reads_arguments argument rfl
  have statements : ReadsAs (unplaced body) [⟨.statement ⟨.returnWith none⟩⟩] :=
    reads_statements (List.forall_mem_singleton.mpr .returnNothing) rfl
  have curried := @Derives.functionType [] _ (by simp)
    (@Derives.functionType [_] _ argument (.plainType (@Derives.name "T")))
  have named : (ReadsAs _ [definitionForm "f" _ _ _] ↔ _) ∧ _ :=
    definition_reads_iff_result_plain params statements (.name "T") (unplaced_tokens _)
  have refused : (ReadsAs _ [definitionForm "f" _ _ _] ↔ _) ∧ _ :=
    definition_reads_iff_result_plain params statements (typeText_of_derives curried (Or.inr rfl))
      (unplaced_tokens _)
  exact ⟨named.1.mpr (by simp), refused.2 _ _ rfl⟩

/-- The source `f :: () -> () -> void { };`. -/
def returnedFunction : List Lexeme :=
  [⟨.ident "f", ⟨0, 1⟩⟩, ⟨.doubleColon, ⟨2, 4⟩⟩, ⟨.opening .paren, ⟨5, 6⟩⟩, ⟨.closing .paren, ⟨6, 7⟩⟩,
    ⟨.arrow, ⟨8, 10⟩⟩, ⟨.opening .paren, ⟨11, 12⟩⟩, ⟨.closing .paren, ⟨12, 13⟩⟩, ⟨.arrow, ⟨14, 16⟩⟩,
    ⟨.void, ⟨17, 21⟩⟩, ⟨.opening .brace, ⟨22, 23⟩⟩, ⟨.closing .brace, ⟨24, 25⟩⟩, ⟨.semicolon, ⟨25, 26⟩⟩]

/-- A function without parameters and statements is refused when it returns another one. -/
theorem returnedFunction_refused :
    ReadsAs [] [] ∧ TypeText [.opening .paren, .closing .paren, .arrow, .void]
        ⟨.functionType ⟨.paren []⟩ ⟨.void⟩⟩ ∧
      (returnedFunction.map fun lexeme => lexeme.token) =
        definitionText "f" [] [.opening .paren, .closing .paren, .arrow, .void] [] ∧
      reduce returnedFunction = .error ⟨.missingReturnType, ⟨8, 10⟩⟩ := by
  have empty : ReadsAs [] (Sentence.commaForms []) := reads_arguments (by simp) rfl
  exact ⟨empty, .function empty .void, rfl, rfl⟩

end Rill
