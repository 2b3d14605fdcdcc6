import Mathlib
import Rill.Proofs.Reduction.Matching

/-!
# Between brackets as by itself

Lexemes that reduction accepts by themselves are reduced to the same forms between two brackets,
wherever these stand (`scanRight_group`).

1. Only the first pass looks between brackets (`pass_inner`), so it does not matter to a success how much
   deeper the reduction could have gone (`reduce_deeper`).
2. The first pass never looks to the right, and a success by itself shows that it looked to the left no
   further than the list goes, but for a name right before it (`scanRight_outer`).
3. What is left of an accepted list holds no bracket, so a closing bracket behind it finds the opener
   right before it.
-/

namespace Rill

/-- The lexemes are reduced to a tree whose root has the given children. -/
def ReadsAs (lexemes : List Lexeme) (children : List Form) : Prop :=
  ∃ tree phrase, reduce lexemes = .ok tree ∧ tree.phrase? = .ok (some phrase) ∧
    phrase.form = ⟨.root children⟩

/-- Lexemes that are read are properly nested, and their items are reduced to the same children. -/
theorem ReadsAs.items {lexemes : List Lexeme} {children : List Form} (reads : ReadsAs lexemes children) :
    (bracketPairs? (lexemes.map fun lexeme => lexeme.token)).isSome = true ∧
      Items.reduce (lexemes.length + 1) (Workspace.bareItems lexemes) = .ok children := by
  obtain ⟨tree, phrase, reduced, read, form⟩ := reads
  have agrees := Workspace.reduce_agrees lexemes
  rw [reduced] at agrees
  obtain ⟨found, ran, w, forms, parsed⟩ := agrees.of_ok
  obtain ⟨pairs, matched⟩ := parsed.nested
  obtain ⟨phrase', read', form'⟩ := parsed.phrase
  cases read.symm.trans read'
  cases form.symm.trans form'
  exact ⟨Option.isSome_iff_exists.mpr ⟨pairs, matched⟩, ran⟩

/-- Lexemes whose items are reduced to some children are read. -/
theorem reads_of_items {lexemes : List Lexeme} {children : List Form}
    (reduced : Items.reduce (lexemes.length + 1) (Workspace.bareItems lexemes) = .ok children) :
    ReadsAs lexemes children := by
  have agrees := Workspace.reduce_agrees lexemes
  rw [reduced] at agrees
  obtain ⟨tree, isTree, w, forms, parsed⟩ := agrees.ok
  obtain ⟨phrase, read, form⟩ := parsed.phrase
  exact ⟨tree, phrase, isTree, read, form⟩

theorem Workspace.bareItems_eq (lexemes : List Lexeme) :
    bareItems lexemes = (lexemes.map fun lexeme => lexeme.token).map .token := by
  rw [bareItems, List.map_map]
  rfl

namespace Items

variable {inner inner' : Inner} {group : Group} {left right here outer items : List Item} {t : Token}
  {bracket : Bracket} {children forms : List Form} {d : Nat}

/-! ## Deeper reductions -/

/-- A list without tokens of the group is left as it is, in either direction. -/
theorem pass_others (refused : ∀ t, .token t ∈ items → group.accepts t = false) :
    pass inner items group = .ok items := by
  have scanLeft_others : ∀ left right : List Item, (∀ t, .token t ∈ left → group.accepts t = false) →
      scanLeft inner group right left = .ok (left.reverse ++ right) := by
    intro left
    induction left with
    | nil =>
        intro right _
        rw [scanLeft, List.reverse_nil, List.nil_append]
    | cons item left ih =>
        intro right refused
        have later := ih (item :: right) fun t member => refused t (List.mem_cons_of_mem _ member)
        rw [List.reverse_cons, List.append_assoc, List.singleton_append, ← later]
        cases item with
        | token t => exact scanLeft_other (refused t (by simp))
        | part f => exact scanLeft_part
  unfold pass
  cases group.direction with
  | leftToRight => exact scanRight_others refused
  | rightToLeft =>
      have scanned := scanLeft_others items.reverse [] fun t member =>
        refused t (List.mem_reverse.mp member)
      rwa [List.reverse_reverse, List.append_nil] at scanned

/-- The actions of all passes but the first do not look between brackets. -/
theorem act_inner (notFirst : group ≠ .bracket) (accepted : group.accepts t = true) :
    act inner left t right = act inner' left t right := by
  cases t with
  | closing bracket =>
      cases group <;> first | exact absurd rfl notFirst | cases accepted
  | _ => rfl

theorem scanRight_inner (notFirst : group ≠ .bracket) :
    scanRight inner group left right = scanRight inner' group left right := by
  fun_induction scanRight inner group left right with
  | case1 left => rw [scanRight]
  | case2 left f right ih => rw [scanRight_part, ih]
  | case3 left t right accepted ih =>
      rw [scanRight, if_pos accepted, act_inner notFirst accepted]
      exact bind_congr ih
  | case4 left t right refused ih => rw [scanRight_other (by simpa using refused), ih]

theorem scanLeft_inner (notFirst : group ≠ .bracket) :
    scanLeft inner group right left = scanLeft inner' group right left := by
  fun_induction scanLeft inner group right left with
  | case1 right => rw [scanLeft]
  | case2 right f left ih => rw [scanLeft_part, ih]
  | case3 right t left accepted ih =>
      rw [scanLeft, if_pos accepted, act_inner notFirst accepted]
      exact bind_congr ih
  | case4 right t left refused ih => rw [scanLeft_other (by simpa using refused), ih]

/-- All passes but the first do not look between brackets. -/
theorem pass_inner (notFirst : group ≠ .bracket) :
    pass inner items group = pass inner' items group := by
  unfold pass
  cases group.direction with
  | leftToRight => exact scanRight_inner notFirst
  | rightToLeft => exact scanLeft_inner notFirst

/-- The passes behind the first, and the end of the reduction. -/
def later (inner : Inner) (items : List Item) : Except ReduceErrorKind (List Form) :=
  Group.byPriority.tail.foldlM (pass inner) items >>= finish

theorem later_inner : later inner items = later inner' items := by
  have passes : ∀ groups : List Group, .bracket ∉ groups → ∀ items,
      groups.foldlM (pass inner) items = groups.foldlM (pass inner') items := by
    intro groups
    induction groups with
    | nil => exact fun _ _ => rfl
    | cons group groups ih =>
        intro notIn items
        rw [List.mem_cons, not_or] at notIn
        rw [List.foldlM_cons, List.foldlM_cons, pass_inner (Ne.symm notIn.1)]
        exact bind_congr (ih notIn.2)
  unfold later
  rw [passes _ (by decide)]

theorem reduce_succ : reduce (d + 1) items = pass (reduce d) items .bracket >>= later (reduce d) := by
  show (pass (reduce d) items .bracket >>= Group.byPriority.tail.foldlM (pass (reduce d))) >>= finish = _
  rw [bind_assoc]
  rfl

/-- A reduction that succeeds does so in the same way when it may go deeper. -/
def Extends (inner inner' : Inner) : Prop :=
  ∀ items forms, inner items = .ok forms → inner' items = .ok forms

theorem closed_outer {rest : List Item} {inside : Nat} (noName : NoName outer) :
    closed bracket children inside (rest ++ outer) = closed bracket children inside rest := by
  cases rest with
  | nil => rw [List.nil_append, closed_of_no_name noName, closed_of_no_name (by simp)]
  | cons item rest =>
      cases bracket with
      | brace => rfl
      | paren =>
          cases item with
          | part f => rfl
          | token t => cases t <;> rfl

theorem closed_before_le (bracket : Bracket) (children : List Form) (inside : Nat)
    (outside : List Item) :
    (closed bracket children inside outside).before ≤ inside + 1 + outside.length := by
  unfold closed
  split <;> simp
  omega

/-- A pair that is closed in a list is closed in the same way with more items to the left, unless these
end in a name. -/
theorem close_outer (extended : Extends inner inner') (noName : NoName outer) {fold : Fold}
    (closes : close inner bracket here = .ok fold) :
    close inner' bracket (here ++ outer) = .ok fold ∧ fold.before ≤ here.length ∧ fold.after = 0 := by
  unfold close at closes ⊢
  cases index : here.findIdx? (isOpener bracket) with
  | none =>
      rw [index] at closes
      cases closes
  | some inside =>
      have bound : inside < here.length := (List.findIdx?_eq_some_iff_getElem.mp index).1
      rw [index] at closes
      rw [List.findIdx?_append, index, Option.some_or]
      dsimp only at closes ⊢
      cases reduced : inner (here.take inside).reverse with
      | error kind =>
          rw [reduced] at closes
          cases closes
      | ok children =>
          rw [reduced] at closes
          cases closes
          have before := closed_before_le bracket children inside (here.drop (inside + 1))
          rw [List.length_drop] at before
          refine ⟨?_, by omega, closed_after _ _ _ _⟩
          rw [List.take_append_of_le_length bound.le, extended _ _ reduced,
            List.drop_append_of_le_length bound]
          exact congrArg Except.ok (closed_outer noName)

/-- The first pass over a list makes the same of it between other items, if it succeeds. -/
theorem scanRight_outer {inside paired : List Item} (extended : Extends inner inner')
    (noName : NoName outer) (scanned : scanRight inner .bracket here inside = .ok paired) :
    scanRight inner' .bracket (here ++ outer) (inside ++ right) =
      scanRight inner' .bracket (paired.reverse ++ outer) right := by
  fun_induction scanRight inner .bracket here inside with
  | case1 here =>
      cases scanned
      rw [List.reverse_reverse, List.nil_append]
  | case2 here f inside ih =>
      rw [List.cons_append, scanRight_part]
      exact ih scanned
  | case3 here t inside accepted ih =>
      cases t with
      | closing bracket =>
          cases acts : act inner here (.closing bracket) inside with
          | error kind =>
              rw [acts] at scanned
              cases scanned
          | ok fold =>
              rw [acts] at scanned
              obtain ⟨closes, before, after⟩ := close_outer extended noName acts
              have actsOuter : act inner' (here ++ outer) (.closing bracket) (inside ++ right) = .ok fold :=
                closes
              have rest := ih fold scanned
              rw [after, List.drop_zero] at rest
              rw [List.cons_append, scanRight_act rfl actsOuter, after, List.drop_zero,
                List.drop_append_of_le_length before]
              exact rest
      | _ => cases accepted
  | case4 here t inside refused ih =>
      rw [List.cons_append, scanRight_other (by simpa using refused)]
      exact ih scanned

theorem finish_eq_ok (finished : finish items = .ok forms) : items = forms.map .part := by
  induction items generalizing forms with
  | nil =>
      cases finished
      rfl
  | cons item items ih =>
      cases item with
      | token t => cases finished
      | part f =>
          cases rest : finish items with
          | error kind =>
              rw [finish, rest] at finished
              cases finished
          | ok others =>
              rw [finish, rest] at finished
              cases finished
              rw [ih rest, List.map_cons]

/-- Where a reduction may go deeper than another, it succeeds where the other does. -/
theorem reduce_deeper {d' : Nat} (deeper : d ≤ d') : Extends (reduce d) (reduce d') := by
  induction d generalizing d' with
  | zero =>
      intro items forms finished
      cases d' with
      | zero => exact finished
      | succ d' =>
          have parts : items = forms.map .part := finish_eq_ok finished
          have noToken : ∀ t, .token t ∉ items := by simp [parts]
          have unchanged : ∀ groups : List Group, groups.foldlM (pass (reduce d')) items = .ok items := by
            intro groups
            induction groups with
            | nil => rfl
            | cons group groups ih =>
                rw [List.foldlM_cons, pass_others fun t member => absurd member (noToken t)]
                exact ih
          rw [reduce, unchanged]
          exact finished
  | succ d ih =>
      intro items forms reduced
      obtain ⟨d', rfl⟩ : ∃ k, d' = k + 1 := ⟨d' - 1, by omega⟩
      have extended := ih (Nat.le_of_succ_le_succ deeper)
      rw [reduce_succ] at reduced ⊢
      cases scanned : pass (reduce d) items .bracket with
      | error kind =>
          rw [scanned] at reduced
          cases reduced
      | ok paired =>
          have outer : scanRight (reduce d') .bracket ([] ++ []) (items ++ []) = _ :=
            scanRight_outer extended (by simp [NoName]) scanned
          rw [List.append_nil, List.append_nil, List.append_nil, scanRight, List.reverse_reverse] at outer
          rw [scanned] at reduced
          show (scanRight (reduce d') .bracket [] items >>= later (reduce d')) = _
          rw [outer]
          exact later_inner.trans reduced

/-! ## Groups -/

theorem refused_of_plain (plain : t.isBracket = false) : Group.bracket.accepts t = false := by
  cases t <;> first | rfl | cases plain

/-- Lexemes that are read by themselves, after the first pass. No bracket is left of them, and the first
pass comes to the same between other items. -/
theorem reads_paired {lexemes : List Lexeme} (reads : ReadsAs lexemes children)
    (deep : lexemes.length < d) : ∃ paired : List Item,
      (∀ t, .token t ∈ paired → t.isBracket = false) ∧ reduce d paired = .ok children ∧
      ∀ left right, NoName left →
        scanRight (reduce d) .bracket left (Workspace.bareItems lexemes ++ right) =
          scanRight (reduce d) .bracket (paired.reverse ++ left) right := by
  obtain ⟨nested, reduced⟩ := reads.items
  obtain ⟨pairs, matched⟩ := Option.isSome_iff_exists.mp nested
  replace reduced := reduce_deeper (Nat.le_succ _) _ _ reduced
  rw [reduce_succ] at reduced
  have paired_plain : Avoids ReduceErrorKind.Stray
      (scanRight (reduce (lexemes.length + 1)) .bracket [] (Workspace.bareItems lexemes)) fun items =>
        ∀ t, .token t ∈ items → t.isBracket = false := by
    rw [Workspace.bareItems_eq]
    exact closes_nested (fun items plain => reduce_plain_avoids_stray plain) matched rfl (by simp)
  cases scanned : scanRight (reduce (lexemes.length + 1)) .bracket [] (Workspace.bareItems lexemes) with
  | error kind =>
      rw [pass, scanned] at reduced
      cases reduced
  | ok paired =>
      rw [scanned] at paired_plain
      have reduced : later (reduce (lexemes.length + 1)) paired = .ok children := by
        rw [← reduced]
        show _ = scanRight _ .bracket [] _ >>= _
        rw [scanned]
        rfl
      obtain ⟨d, rfl⟩ : ∃ k, d = k + 1 := ⟨d - 1, by omega⟩
      refine ⟨paired, paired_plain, ?_, fun left right noName => ?_⟩
      · rw [reduce_succ, pass_others fun t member => refused_of_plain (paired_plain t member)]
        exact later_inner.trans reduced
      · have outer : scanRight (reduce (d + 1)) .bracket ([] ++ left) (_ ++ right) = _ :=
          scanRight_outer (reduce_deeper deep) noName scanned
        exact outer

/-- Lexemes that are read by themselves stand between two brackets, and no name stands right before
parentheses: the first pass makes a group of what they are read as. -/
theorem scanRight_group {lexemes : List Lexeme} (reads : ReadsAs lexemes children)
    (deep : lexemes.length < d) (led : NoName left ∨ bracket = .brace) :
    scanRight (reduce d) .bracket left (.token (.opening bracket) ::
        (Workspace.bareItems lexemes ++ .token (.closing bracket) :: right)) =
      scanRight (reduce d) .bracket (.part (groupOf bracket children) :: left) right := by
  obtain ⟨paired, plain, reduced, moves⟩ := reads_paired reads deep
  have noOpener : ∀ item ∈ paired, isOpener bracket item = false := by
    intro item member
    cases item with
    | part f => rfl
    | token t =>
        have notBracket := plain t member
        cases t <;> first | rfl | cases notBracket
  have group : closed bracket children 0 left = ⟨1, groupOf bracket children, 0⟩ := by
    cases bracket with
    | brace => rfl
    | paren => exact closed_of_no_name (led.resolve_right (by simp))
  rw [scanRight_other rfl, moves _ _ (noName_token (by simp)), scanRight_close noOpener reduced, group]
  rfl

end Items

end Rill
