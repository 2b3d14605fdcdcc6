import Mathlib
import Rill.Proofs.Likeness.Phrases
import Rill.Proofs.Reduction.Faithful

/-!
# Reduction under another choice of names

The reduction asks of an identifier only that it is one. So reducing renamed items gives the renamed
forms, or fails in the same way (`Items.reduce_rename`), and reducing lexemes whose tokens are renamed,
wherever they stand, gives a tree of the renamed forms (`reduce_renamed`).
-/

namespace Rill

/-- Renames the token that an error mentions. -/
def ReduceErrorKind.rename (ρ : String → String) : ReduceErrorKind → ReduceErrorKind
  | unmatchedClose close => unmatchedClose (close.rename ρ)
  | unclosedBracket opener => unclosedBracket (opener.rename ρ)
  | unexpectedToken found => unexpectedToken (found.rename ρ)
  | missingOperand operator => missingOperand (operator.rename ρ)
  | badTerminator terminator => badTerminator (terminator.rename ρ)
  | kind => kind

namespace Items

variable {α β : Type} {ρ : String → String} {inner : Inner}

/-- Renames the identifiers of an item. -/
def renameItem (ρ : String → String) : Item → Item
  | .token t => .token (t.rename ρ)
  | .part f => .part (f.rename ρ)

/-- A result with its content and its error renamed. -/
def renamed (ρ : String → String) (content : α → α) :
    Except ReduceErrorKind α → Except ReduceErrorKind α
  | .ok a => .ok (content a)
  | .error kind => .error (kind.rename ρ)

theorem renamed_bind {x : Except ReduceErrorKind α} {f f' : α → Except ReduceErrorKind β}
    {content : α → α} {content' : β → β} (next : ∀ a, f' (content a) = renamed ρ content' (f a)) :
    renamed ρ content x >>= f' = renamed ρ content' (x >>= f) := by
  cases x with
  | ok a => exact next a
  | error kind => rfl

/-- The fold that makes the renamed form. -/
def Fold.rename (ρ : String → String) (fold : Fold) : Fold :=
  { fold with form := fold.form.rename ρ }

/-! ## Actions -/

section Classes

variable (ρ : String → String) (form : Form)

theorem isParen_rename : (form.rename ρ).construct.isParen = form.construct.isParen := by
  obtain ⟨construct⟩ := form
  cases construct <;> rfl

theorem isCurly_rename : (form.rename ρ).construct.isCurly = form.construct.isCurly := by
  obtain ⟨construct⟩ := form
  cases construct <;> rfl

theorem isIdent_rename : (form.rename ρ).construct.isIdent = form.construct.isIdent := by
  obtain ⟨construct⟩ := form
  cases construct <;> rfl

theorem isType_rename : (form.rename ρ).construct.isType = form.construct.isType := by
  obtain ⟨construct⟩ := form
  cases construct <;> rfl

theorem isValue_rename : (form.rename ρ).construct.isValue = form.construct.isValue := by
  obtain ⟨construct⟩ := form
  cases construct <;> rfl

theorem isExpression_rename : (form.rename ρ).construct.isExpression = form.construct.isExpression := by
  obtain ⟨construct⟩ := form
  cases construct <;> rfl

end Classes

theorem first?_rename {property : Construct Form → Bool}
    (stable : ∀ form : Form, property (form.rename ρ).construct = property form.construct)
    (items : List Item) :
    first? property (items.map (renameItem ρ)) = (first? property items).map (Form.rename ρ) := by
  unfold first?
  rcases items with _ | ⟨t | f, items⟩
  · rfl
  · rfl
  · simp only [List.map_cons, List.head?_cons, renameItem, Option.bind_some, Piece.part?_part,
      Option.filter_some, stable]
    split <;> rfl

theorem isOpener_rename (bracket : Bracket) (item : Item) :
    isOpener bracket (renameItem ρ item) = isOpener bracket item := by
  rcases item with t | f
  · cases t <;> rfl
  · rfl

theorem closed_rename (bracket : Bracket) (children : List Form) (inside : Nat) (outside : List Item) :
    closed bracket (children.map (Form.rename ρ)) inside (outside.map (renameItem ρ)) =
      (closed bracket children inside outside).rename ρ := by
  rcases bracket with _ | _
  · rcases outside with _ | ⟨t | f, outside⟩
    · simp [closed, Fold.rename, groupOf, Form.rename, Form.renameConstruct, Form.renameList_eq_map]
    · cases t <;> simp [closed, Fold.rename, groupOf, Form.rename, Form.renameConstruct,
        Form.renameList_eq_map, renameItem, Token.rename]
    · simp [closed, Fold.rename, groupOf, Form.rename, Form.renameConstruct, Form.renameList_eq_map,
        renameItem]
  · simp [closed, Fold.rename, groupOf, Form.rename, Form.renameConstruct, Form.renameList_eq_map]

theorem close_rename (innerRenames : ∀ items, inner (items.map (renameItem ρ)) =
      renamed ρ (List.map (Form.rename ρ)) (inner items)) (bracket : Bracket) (left : List Item) :
    close inner bracket (left.map (renameItem ρ)) = renamed ρ (Fold.rename ρ) (close inner bracket left) := by
  unfold close
  rw [List.findIdx?_map]
  have same : isOpener bracket ∘ renameItem ρ = isOpener bracket :=
    funext (isOpener_rename bracket)
  rw [same]
  cases left.findIdx? (isOpener bracket) with
  | none => rfl
  | some inside =>
      simp only
      rw [← List.map_take, ← List.map_reverse, innerRenames, ← List.map_drop]
      exact renamed_bind fun children => congrArg Except.ok (closed_rename ..)

theorem part?_rename (items : List Item) :
    (items.map (renameItem ρ)).head?.bind Piece.part? =
      (items.head?.bind Piece.part?).map (Form.rename ρ) := by
  rcases items with _ | ⟨t | f, items⟩ <;> rfl

theorem behindColon?_rename (items : List Item) :
    behindColon? (items.map (renameItem ρ)) = (behindColon? items).map (List.map (renameItem ρ)) := by
  rcases items with _ | ⟨t | f, items⟩
  · rfl
  · cases t <;> rfl
  · rfl

theorem arrow_rename (left right : List Item) :
    arrow (left.map (renameItem ρ)) (right.map (renameItem ρ)) =
      renamed ρ (Fold.rename ρ) (arrow left right) := by
  unfold arrow
  rw [first?_rename (isParen_rename ρ), first?_rename (isType_rename ρ), ← List.map_tail, part?_rename]
  cases first? Construct.isParen left with
  | none => rfl
  | some params =>
      cases first? Construct.isType right with
      | none => rfl
      | some result =>
          cases right.tail.head?.bind Piece.part? with
          | none => rfl
          | some body =>
              simp only [Option.map_some, isCurly_rename]
              split <;> rfl

theorem sum_rename (left right : List Item) :
    sum (left.map (renameItem ρ)) (right.map (renameItem ρ)) =
      renamed ρ (Fold.rename ρ) (sum left right) := by
  unfold sum
  rw [first?_rename (isValue_rename ρ), first?_rename (isValue_rename ρ)]
  cases first? Construct.isValue left with
  | none => rfl
  | some leftOperand => cases first? Construct.isValue right <;> rfl

theorem print_rename (right : List Item) :
    print (right.map (renameItem ρ)) = renamed ρ (Fold.rename ρ) (print right) := by
  unfold print
  rw [first?_rename (isValue_rename ρ)]
  cases first? Construct.isValue right <;> rfl

theorem returnWith_rename (right : List Item) :
    returnWith (right.map (renameItem ρ)) = (returnWith right).rename ρ := by
  unfold returnWith
  rw [first?_rename (isValue_rename ρ)]
  cases first? Construct.isValue right <;> rfl

theorem inferred_rename (left right : List Item) :
    inferred (left.map (renameItem ρ)) (right.map (renameItem ρ)) =
      renamed ρ (Fold.rename ρ) (inferred left right) := by
  unfold inferred
  rw [first?_rename (isIdent_rename ρ), first?_rename (isValue_rename ρ)]
  cases first? Construct.isIdent left with
  | none => rfl
  | some name => cases first? Construct.isValue right <;> rfl

theorem annotated_rename (left right : List Item) :
    annotated (left.map (renameItem ρ)) (right.map (renameItem ρ)) =
      renamed ρ (Fold.rename ρ) (annotated left right) := by
  unfold annotated
  rw [first?_rename (isIdent_rename ρ), first?_rename (isType_rename ρ), ← List.map_tail,
    behindColon?_rename]
  cases first? Construct.isIdent left with
  | none => rfl
  | some name =>
      cases first? Construct.isType right with
      | none => rfl
      | some type =>
          cases behindColon? right.tail with
          | none => rfl
          | some more =>
              simp only [Option.map_some, first?_rename (isValue_rename ρ)]
              cases first? Construct.isValue more <;> rfl

theorem assign_rename (left right : List Item) :
    assign (left.map (renameItem ρ)) (right.map (renameItem ρ)) =
      renamed ρ (Fold.rename ρ) (assign left right) := by
  unfold assign
  rw [first?_rename (isIdent_rename ρ), first?_rename (isValue_rename ρ)]
  cases first? Construct.isIdent left with
  | none => rfl
  | some name => cases first? Construct.isValue right <;> rfl

theorem terminated_rename {terminator : Token} {wrap : Form → Construct Form}
    (fixed : terminator.rename ρ = terminator)
    (wraps : ∀ form : Form, Form.rename ρ ⟨wrap form⟩ = ⟨wrap (form.rename ρ)⟩) (left : List Item) :
    terminated terminator wrap (left.map (renameItem ρ)) =
      renamed ρ (Fold.rename ρ) (terminated terminator wrap left) := by
  unfold terminated
  rw [first?_rename (isExpression_rename ρ)]
  cases first? Construct.isExpression left with
  | none => exact congrArg (fun t => Except.error (ReduceErrorKind.badTerminator t)) fixed.symm
  | some operand => exact congrArg (fun form => Except.ok (⟨1, form, 0⟩ : Fold)) (wraps operand).symm

/-- Every action does the same with renamed items. -/
theorem act_rename (innerRenames : ∀ items, inner (items.map (renameItem ρ)) =
      renamed ρ (List.map (Form.rename ρ)) (inner items)) (left : List Item) (t : Token)
    (right : List Item) :
    act inner (left.map (renameItem ρ)) (t.rename ρ) (right.map (renameItem ρ)) =
      renamed ρ (Fold.rename ρ) (act inner left t right) := by
  cases t with
  | closing bracket => exact close_rename innerRenames bracket left
  | arrow => exact arrow_rename left right
  | plus => exact sum_rename left right
  | printWord => exact print_rename right
  | returnWord => exact congrArg Except.ok (returnWith_rename right)
  | doubleColon => exact inferred_rename left right
  | colon => exact annotated_rename left right
  | equals => exact assign_rename left right
  | semicolon | comma => exact terminated_rename rfl (fun _ => rfl) left
  | ident | int | void | u64 | opening => rfl

/-! ## Passes -/

theorem accepts_rename (group : Group) (t : Token) : group.accepts (t.rename ρ) = group.accepts t := by
  cases group <;> cases t <;> rfl

section Pass

variable (innerRenames : ∀ items, inner (items.map (renameItem ρ)) =
  renamed ρ (List.map (Form.rename ρ)) (inner items))

include innerRenames

theorem scanRight_rename (group : Group) (left right : List Item) :
    scanRight inner group (left.map (renameItem ρ)) (right.map (renameItem ρ)) =
      renamed ρ (List.map (renameItem ρ)) (scanRight inner group left right) := by
  fun_induction scanRight inner group left right with
  | case1 left => simp [scanRight, renamed]
  | case2 left f right ih =>
      rw [List.map_cons, renameItem, scanRight]
      exact ih
  | case3 left t right accepted ih =>
      rw [List.map_cons, renameItem, scanRight, if_pos ((accepts_rename group t).trans accepted),
        act_rename innerRenames]
      refine renamed_bind fun fold => (ih fold).symm ▸ ?_
      rw [List.map_cons, List.map_drop, List.map_drop]
      rfl
  | case4 left t right rejected ih =>
      rw [List.map_cons, renameItem, scanRight, accepts_rename, if_neg rejected]
      exact ih

theorem scanLeft_rename (group : Group) (right left : List Item) :
    scanLeft inner group (right.map (renameItem ρ)) (left.map (renameItem ρ)) =
      renamed ρ (List.map (renameItem ρ)) (scanLeft inner group right left) := by
  fun_induction scanLeft inner group right left with
  | case1 right => simp [scanLeft, renamed]
  | case2 right f left ih =>
      rw [List.map_cons, renameItem, scanLeft]
      exact ih
  | case3 right t left accepted ih =>
      rw [List.map_cons, renameItem, scanLeft, if_pos ((accepts_rename group t).trans accepted),
        act_rename innerRenames]
      refine renamed_bind fun fold => (ih fold).symm ▸ ?_
      rw [List.map_cons, List.map_drop, List.map_drop]
      rfl
  | case4 right t left rejected ih =>
      rw [List.map_cons, renameItem, scanLeft, accepts_rename, if_neg rejected]
      exact ih

theorem pass_rename (items : List Item) (group : Group) :
    pass inner (items.map (renameItem ρ)) group =
      renamed ρ (List.map (renameItem ρ)) (pass inner items group) := by
  unfold pass
  cases group.direction with
  | leftToRight => exact scanRight_rename innerRenames group [] items
  | rightToLeft =>
      rw [← List.map_reverse]
      exact scanLeft_rename innerRenames group [] items.reverse

theorem passes_rename (groups : List Group) (items : List Item) :
    groups.foldlM (pass inner) (items.map (renameItem ρ)) =
      renamed ρ (List.map (renameItem ρ)) (groups.foldlM (pass inner) items) := by
  induction groups generalizing items with
  | nil => rfl
  | cons group groups ih =>
      rw [List.foldlM_cons, List.foldlM_cons, pass_rename innerRenames]
      exact renamed_bind ih

end Pass

theorem finish_rename (items : List Item) :
    finish (items.map (renameItem ρ)) = renamed ρ (List.map (Form.rename ρ)) (finish items) := by
  induction items with
  | nil => rfl
  | cons item items ih =>
      rcases item with t | f
      · cases t <;> rfl
      · rw [List.map_cons, renameItem, finish, finish, ih]
        exact renamed_bind fun _ => rfl

/-- Reducing renamed items gives the renamed forms, or fails in the same way. -/
theorem reduce_rename (ρ : String → String) (depth : Nat) (items : List Item) :
    reduce depth (items.map (renameItem ρ)) =
      renamed ρ (List.map (Form.rename ρ)) (reduce depth items) := by
  induction depth generalizing items with
  | zero => exact finish_rename items
  | succ depth ih =>
      rw [reduce, reduce, passes_rename ih]
      exact renamed_bind finish_rename

end Items

/-! ## Lexemes -/

/-- Lexemes whose tokens are those of other lexemes with the names changed, wherever they stand. -/
def Renames (ρ : String → String) (lexemes lexemes' : List Lexeme) : Prop :=
  lexemes'.map (·.token) = lexemes.map fun lexeme => lexeme.token.rename ρ

theorem bareItems_renames {ρ : String → String} {lexemes lexemes' : List Lexeme}
    (renames : Renames ρ lexemes lexemes') :
    Workspace.bareItems lexemes' = (Workspace.bareItems lexemes).map (Items.renameItem ρ) := by
  have tokens := congrArg (List.map fun t => (.token t : Item)) renames
  rw [List.map_map, List.map_map] at tokens
  rw [Workspace.bareItems, Workspace.bareItems, List.map_map]
  exact tokens

/-- The top level of a parsed tree are phrases of the forms that the reduction gave. -/
theorem Workspace.Parsed.topLevel {lexemes : List Lexeme} {children : List Form} {tree : ParseTree}
    {w : Workspace} {forms : NodeId → Form} (parsed : Parsed lexemes children tree w forms) :
    ∃ phrases, tree.topLevel = .ok phrases ∧ phrases.map Phrase.form = children := by
  obtain ⟨⟨construct, span⟩, read, form⟩ := parsed.phrase
  have kind := congrArg Form.construct form
  rw [Phrase.form_construct] at kind
  cases construct <;> simp only [Construct.map, reduceCtorEq] at kind
  case root phrases =>
    refine ⟨phrases, ?_, Construct.root.inj kind⟩
    rw [ParseTree.topLevel, read]
    rfl

/-- Reducing lexemes whose tokens are renamed: both give trees whose phrases differ only in names and
places, or both fail in the same way. -/
theorem reduce_renamed {ρ : String → String} {lexemes lexemes' : List Lexeme}
    (renames : Renames ρ lexemes lexemes') :
    (∃ tree tree' phrases phrases', reduce lexemes = .ok tree ∧ reduce lexemes' = .ok tree' ∧
      tree.topLevel = .ok phrases ∧ tree'.topLevel = .ok phrases' ∧
      List.Forall₂ (Phrase.Like ρ) phrases phrases') ∨
    ∃ error error', reduce lexemes = .error error ∧ reduce lexemes' = .error error' ∧
      error'.kind = error.kind.rename ρ := by
  have agrees := Workspace.reduce_agrees lexemes
  have agrees' := Workspace.reduce_agrees lexemes'
  have lengths : lexemes'.length = lexemes.length := by
    have := congrArg List.length renames
    simpa using this
  rw [lengths, bareItems_renames renames, Items.reduce_rename] at agrees'
  cases reduced : Items.reduce (lexemes.length + 1) (Workspace.bareItems lexemes) with
  | ok children =>
      rw [reduced] at agrees agrees'
      obtain ⟨tree, run, w, forms, parsed⟩ := agrees.ok
      obtain ⟨tree', run', w', forms', parsed'⟩ := Workspace.Agrees.ok agrees'
      obtain ⟨phrases, top, phraseForms⟩ := parsed.topLevel
      obtain ⟨phrases', top', phraseForms'⟩ := parsed'.topLevel
      refine Or.inl ⟨tree, tree', phrases, phrases', run, run', top, top', Phrase.forall₂_like ?_⟩
      rw [phraseForms', ← phraseForms, List.map_map]
      rfl
  | error kind =>
      rw [reduced] at agrees agrees'
      obtain ⟨error, run, sameKind⟩ := agrees.error
      obtain ⟨error', run', sameKind'⟩ := Workspace.Agrees.error agrees'
      exact Or.inr ⟨error, error', run, run', by rw [sameKind, sameKind']⟩

end Rill
