import Mathlib

/-!
# Results, options and lists

Facts about the types of the library that proofs about different parts of the language share.

* Results. A chain that ends well has only steps that end well (`Except.bind_eq_ok`), and an error that no step
  reports is not reported by the chain (`bind_ne_error`, `mapM_ne_error`). Where a result is computed, a test
  that it passes shows that it is there (`any_toOption_iff`).
* Options that are both empty or both hold related values (`Option.Rel`).
* Lists that are cut, visited or searched.
-/

namespace Rill

/-! ## Results -/

section Results

variable {ε α β : Type}

/-- A chain that ends well has a first step that does, and ends as its rest. -/
theorem Except.bind_eq_ok {m : Except ε α} {f : α → Except ε β} {b : β} (ran : m >>= f = .ok b) :
    ∃ a, m = .ok a ∧ f a = .ok b := by
  cases m with
  | error e => cases ran
  | ok a => exact ⟨a, rfl, ran⟩

theorem toOption_eq_some_iff {result : Except ε α} {a : α} : result.toOption = some a ↔ result = .ok a := by
  cases result with
  | error e => simp [Except.toOption]
  | ok b => simp [Except.toOption]

/-- A result that passes a test is there. -/
theorem any_toOption_iff {result : Except ε α} {test : α → Bool} :
    result.toOption.any test = true ↔ ∃ a, result = .ok a ∧ test a = true := by
  simp only [Option.any_eq_true, toOption_eq_some_iff]

theorem exists_of_isOk {result : Except ε α} (isOk : result.isOk = true) : ∃ a, result = .ok a := by
  cases result with
  | error e => cases isOk
  | ok a => exact ⟨a, rfl⟩

variable {error : ε}

theorem bind_ne_error {m : Except ε α} {f : α → Except ε β} (first : m ≠ .error error)
    (next : ∀ a, f a ≠ .error error) : m >>= f ≠ .error error := by
  cases m with
  | error other => simpa [bind, Except.bind] using first
  | ok a => exact next a

theorem mapError_ne_error {δ : Type} {wrap : δ → ε} (apart : ∀ fault, wrap fault ≠ error) (m : Except δ α) :
    m.mapError wrap ≠ .error error := by
  cases m with
  | error fault => simpa [Except.mapError] using apart fault
  | ok a => simp [Except.mapError]

theorem mapM_ne_error {f : α → Except ε β} {xs : List α} (each : ∀ a, f a ≠ .error error) :
    xs.mapM f ≠ .error error := by
  induction xs with
  | nil => simp [pure, Except.pure]
  | cons a xs ih =>
      rw [List.mapM_cons]
      refine bind_ne_error (each a) fun b => bind_ne_error ih fun bs => ?_
      simp [pure, Except.pure]

/-- Two walks along a list are one, if their steps agree wherever the first of them comes. -/
theorem foldlM_congr {f g : α → β → Except ε α} {xs : List β} {a : α}
    (agree : ∀ done x ahead a', xs = done ++ x :: ahead → done.foldlM f a = .ok a' → f a' x = g a' x) :
    xs.foldlM f a = xs.foldlM g a := by
  induction xs generalizing a with
  | nil => rfl
  | cons x xs ih =>
      rw [List.foldlM_cons, List.foldlM_cons, ← agree [] x xs a rfl rfl]
      cases first : f a x with
      | error => rfl
      | ok a' =>
          refine ih fun done y ahead a'' split run => agree (x :: done) y ahead a'' (by simp [split]) ?_
          rw [List.foldlM_cons, first]
          exact run

/-- A run goes on with what its first part left. -/
theorem run_bind_of_run {σ : Type} {first : StateM σ α} {rest : α → StateM σ β} {state after : σ} {a : α}
    (ran : first.run state = (a, after)) : (first >>= rest).run state = (rest a).run after := by
  rw [StateT.run_bind, ran]
  rfl

end Results

/-! ## Options -/

section Options

variable {α β : Type} {r : α → β → Prop} {x : Option α} {y : Option β}

theorem optionRel_mono {s : α → β → Prop} (related : Option.Rel r x y) (weaker : ∀ a b, r a b → s a b) :
    Option.Rel s x y := by
  cases related with
  | some holds => exact .some (weaker _ _ holds)
  | none => exact .none

theorem optionRel_cases (related : Option.Rel r x y) :
    (x = none ∧ y = none) ∨ ∃ a b, x = some a ∧ y = some b ∧ r a b := by
  cases related with
  | some holds => exact Or.inr ⟨_, _, rfl, rfl, holds⟩
  | none => exact Or.inl ⟨rfl, rfl⟩

end Options

/-! ## Lists -/

section Lists

variable {α β : Type} {xs : List α}

theorem drop_eq_cons {rest : List α} {x : α} {n : Nat} (isRest : xs.drop n = x :: rest) :
    xs[n]? = some x ∧ xs.drop (n + 1) = rest := by
  refine ⟨?_, by simpa using congrArg (List.drop 1) isRest⟩
  rw [← List.head?_drop, isRest, List.head?_cons]

/-- A list is cut behind the first `before` and again behind the next `size`. -/
theorem exists_cut {before size : Nat} (fits : before + size ≤ xs.length) :
    ∃ left middle right, xs = left ++ middle ++ right ∧ left.length = before ∧ middle.length = size := by
  refine ⟨xs.take before, (xs.drop before).take size, (xs.drop before).drop size, ?_, ?_, ?_⟩
  · rw [List.append_assoc, List.take_append_drop, List.take_append_drop]
  · rw [List.length_take]
    omega
  · rw [List.length_take, List.length_drop]
    omega

theorem modify_append_cons (done rest : List α) (x : α) (change : α → α) :
    (done ++ x :: rest).modify done.length change = done ++ change x :: rest := by
  induction done with
  | nil => rfl
  | cons _ done ih => simp [ih]

/-- What a change of one element leaves alone in every element is left alone in the whole. -/
theorem map_modify_eq {g : α → β} {change : α → α} (same : ∀ a, g (change a) = g a) (xs : Array α) (i : Nat) :
    (xs.modify i change).map g = xs.map g := by
  refine Array.ext_getElem? fun j => ?_
  rw [Array.getElem?_map, Array.getElem?_map, Array.getElem?_modify]
  split
  · cases xs[j]? with
    | none => rfl
    | some a => exact congrArg some (same a)
  · rfl

theorem flatMap_attach {f : {x // x ∈ xs} → List β} {g : α → List β} (same : ∀ x, f x = g x.1) :
    xs.attach.flatMap f = xs.flatMap g := by
  rw [funext same, ← List.flatMap_map, List.attach_map_subtype_val]

theorem filterMap_constant {f : α → Option β} {b : β} (constant : ∀ x ∈ xs, f x = some b) :
    xs.filterMap f = List.replicate xs.length b := by
  induction xs with
  | nil => rfl
  | cons x xs ih =>
      rw [List.filterMap_cons_some (constant x (by simp)),
        ih fun y member => constant y (by simp [member])]
      rfl

theorem forall₂_getElem? {R : α → β → Prop} {ys : List β} (related : List.Forall₂ R xs ys) {i : Nat} {x : α}
    (found : xs[i]? = some x) : ∃ y, ys[i]? = some y ∧ R x y := by
  induction related generalizing i with
  | nil => simp at found
  | cons first _ ih =>
      cases i with
      | zero =>
          cases found
          exact ⟨_, rfl, first⟩
      | succ i => exact ih found

theorem forall₂_tail {R : α → β → Prop} {ys : List β} (related : List.Forall₂ R xs ys) :
    List.Forall₂ R xs.tail ys.tail := by
  simpa using List.forall₂_drop 1 related

theorem findSome?_of_unique {f : α → Option β} {x : α} (member : x ∈ xs)
    (others : ∀ y ∈ xs, y = x ∨ f y = none) : xs.findSome? f = f x := by
  cases result : xs.findSome? f with
  | none => exact (List.findSome?_eq_none_iff.mp result x member).symm
  | some b =>
      obtain ⟨y, memberY, found⟩ := List.exists_of_findSome?_eq_some result
      rcases others y memberY with rfl | none
      · exact found.symm
      · cases none.symm.trans found

theorem findSome?_alike {E : β → β → Prop} {f : α → Option β} {xs' : List α}
    (each : List.Forall₂ (fun x x' => Option.Rel E (f x) (f x')) xs xs') :
    Option.Rel E (xs.findSome? f) (xs'.findSome? f) := by
  induction each with
  | nil => exact .none
  | cons first _ ih =>
      rw [List.findSome?_cons, List.findSome?_cons]
      rcases optionRel_cases first with ⟨none, none'⟩ | ⟨a, b, some, some', holds⟩
      · rw [none, none']
        exact ih
      · rw [some, some']
        exact .some holds

end Lists

/-! ## Ranges of positions -/

section Ranges

variable {p m q : Nat}

/-- The positions from `p` up to `q`, cut at a position between them. -/
theorem range'_cut (low : p ≤ m) (high : m ≤ q) :
    List.range' p (q - p) = List.range' p (m - p) ++ List.range' m (q - m) := by
  have joined := List.range'_append_1 (s := p) (m := m - p) (n := q - m)
  rw [Nat.add_sub_cancel' low, show m - p + (q - m) = q - p by omega] at joined
  exact joined.symm

theorem range'_reverse_succ (low : p ≤ q) :
    (List.range' p (q + 1 - p)).reverse = q :: (List.range' p (q - p)).reverse := by
  rw [range'_cut low (Nat.le_succ q), List.reverse_append, Nat.succ_eq_add_one, Nat.add_sub_cancel_left]
  rfl

end Ranges

end Rill
