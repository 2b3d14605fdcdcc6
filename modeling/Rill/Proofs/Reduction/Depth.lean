import Mathlib
import Rill.Proofs.Reduction.Calls

/-!
# How deep reductions are nested

The reduction of a bracket pair calls the reduction of its inside, so one would expect calls as deep as the brackets. But
the pass over the brackets goes from left to right, and a pair is closed at its closing bracket: by then all closing
brackets inside it are claimed, whatever they belong to.

    ( ( ( ) ) )       the pass closes 2-3, then 1-4, then 0-5, each called by the whole list

1. A call for the inside of a pair finds every closing bracket there claimed (`Calls.closersClaimed`).
2. Claims are for good, so such a call closes no pair, and calls are at most two deep (`Calls.level_le`).
3. So what the third level would do does not matter (`reduceRange_two_levels`).
-/

namespace Rill

namespace Workspace

variable {w w' : Workspace} {range : TokenRange} {target : NodeId} {lo hi index : Nat}
  {forms : NodeId → Form} {opens : List NodeId} {pieces : List (Piece NodeId)} {nested nested' : Nested}
  {done ahead : List (Group × Nat)} {lexemes : List Lexeme} {level depth : Nat}

/-- Every closing bracket of the range is claimed. -/
def ClosersClaimed (w : Workspace) (range : TokenRange) : Prop :=
  ∀ index bracket, range.start ≤ index → index < range.stop → w.token? index = some (.closing bracket) →
    w.isClaimed index = true

/-- The visit closes a bracket pair. -/
def Closes (w : Workspace) (stop : Group × Nat) : Prop :=
  stop.1 = .bracket ∧ w.isClaimed stop.2 = false ∧ ∃ bracket, w.token? stop.2 = some (.closing bracket)

/-! ## The pass over the brackets -/

/-- The brackets are visited first, from left to right. -/
theorem stops_eq (range : TokenRange) :
    ∃ later, stops range = range.indices.map (Group.bracket, ·) ++ later ∧ ∀ stop ∈ later, stop.1 ≠ .bracket := by
  refine ⟨_, List.flatMap_cons, fun stop member => ?_⟩
  obtain ⟨group, isLater, inPass⟩ := List.mem_flatMap.mp member
  obtain ⟨index, _, rfl⟩ := List.mem_map.mp inPass
  rintro rfl
  simp at isLater

/-- When a position is visited for its bracket, all positions to its left have been. -/
theorem visited_before {close : Nat} (inOrder : stops range = done ++ (.bracket, close) :: ahead)
    (low : range.start ≤ index) (earlier : index < close) : (.bracket, index) ∈ done := by
  have high : close < range.stop := (mem_stops (inOrder ▸ List.mem_append_right done List.mem_cons_self)).2
  obtain ⟨later, split, others⟩ := stops_eq range
  rw [split] at inOrder
  rcases List.append_eq_append_iff.mp inOrder with ⟨_, _, inLater⟩ | ⟨middle, isPass, inLater⟩
  · exact (others (.bracket, close) (inLater ▸ List.mem_append_right _ List.mem_cons_self) rfl).elim
  cases middle with
  | nil =>
      rw [List.nil_append] at inLater
      exact (others (.bracket, close) (inLater ▸ List.mem_cons_self) rfl).elim
  | cons stop rest =>
      cases inLater
      have ascending : (range.indices.map (Group.bracket, ·)).Pairwise (·.2 < ·.2) :=
        List.pairwise_map.mpr List.pairwise_lt_range'
      have member : (Group.bracket, index) ∈ range.indices.map (Group.bracket, ·) :=
        List.mem_map_of_mem (List.mem_range'_1.mpr ⟨low, by omega⟩)
      rw [isPass] at ascending member
      rcases List.mem_append.mp member with isDone | notYet
      · exact isDone
      · -- What comes after a position in the pass lies to its right.
        have behind := (List.pairwise_cons.mp (List.pairwise_append.mp ascending).2.1).1
        rcases List.mem_cons.mp notYet with same | isLater
        · cases same
          exact absurd earlier (Nat.lt_irrefl _)
        · exact absurd (behind _ isLater) (Nat.lt_asymm earlier)

/-! ## Calls for the inside of a pair -/

theorem isClaimed_iff : w.isClaimed index = true ↔ w.owner? index ≠ none :=
  Option.ne_none_iff_isSome.symm

/-- Visits keep what is claimed. -/
theorem ClosersClaimed.reaches (claimed : w.ClosersClaimed ⟨lo, hi⟩)
    (ready : w.Ready forms opens target lo pieces hi)
    (reaches : Reaches (reduceRange depth) ⟨lo, hi⟩ target w ahead w') : w'.ClosersClaimed ⟨lo, hi⟩ := by
  obtain ⟨_, _, _, advances⟩ := ready.reaches reaches
  intro index bracket low high isToken
  rw [advances.step.token?_eq] at isToken
  have before := isClaimed_iff.mp (claimed index bracket low high isToken)
  exact isClaimed_iff.mpr (advances.step.claimed before)

/-- A call for the inside of a pair finds every closing bracket there claimed. -/
theorem Calls.closersClaimed (call : Calls lexemes level depth w range target) (nested : level ≠ 1) :
    w.ClosersClaimed range := by
  cases call with
  | whole => exact absurd rfl nested
  | @inside level depth w w' range target close opener ahead bracket call reaches bare isToken found =>
      obtain ⟨forms, opens, pieces, ready⟩ := call.ready
      obtain ⟨done, inOrder, visited⟩ := reaches
      have inRange := mem_stops (inOrder ▸ List.mem_append_right done List.mem_cons_self)
      obtain ⟨forms', pieces', ready', advances, settled⟩ := ready.visit_steps (reduceRange_simulates depth)
        (fun stop member => mem_stops (inOrder ▸ List.mem_append_left _ member)) visited
      obtain ⟨low, step, _⟩ := ready'.inside inRange.1 inRange.2 bare isToken found
      intro index bracket' afterOpener beforeClose isCloser
      rw [step.token?_eq, advances.step.token?_eq] at isCloser
      -- The pass came by it on its way to `close`, and a visit that goes well claims a closing bracket.
      have inside : range.start ≤ index := low.trans (Nat.le_of_succ_le afterOpener)
      have isDone : (.bracket, index) ∈ done := visited_before inOrder inside beforeClose
      exact isClaimed_iff.mpr (step.claimed (settled _ isDone _ isCloser rfl))

/-- A call for the inside of a pair closes no pair. -/
theorem Calls.not_closes {stop : Group × Nat} (call : Calls lexemes level (depth + 1) w range target)
    (nested : level ≠ 1) (reaches : Reaches (reduceRange depth) range target w (stop :: ahead) w') :
    ¬ w'.Closes stop := by
  rintro ⟨_, bare, bracket, isToken⟩
  obtain ⟨forms, opens, pieces, ready⟩ := call.ready
  have claimed := (call.closersClaimed nested).reaches ready reaches
  obtain ⟨done, inOrder, _⟩ := reaches
  have inRange := mem_stops (inOrder ▸ List.mem_append_right done List.mem_cons_self)
  cases (claimed stop.2 bracket inRange.1 inRange.2 isToken).symm.trans bare

theorem Calls.level_le (call : Calls lexemes level depth w range target) : level ≤ 2 := by
  cases call with
  | whole => exact Nat.le_succ 1
  | @inside level _ _ _ _ _ _ _ _ bracket call reaches bare isToken _ =>
      by_cases isWhole : level = 1
      · exact Nat.le_of_eq (congrArg (· + 1) isWhole)
      · exact absurd ⟨rfl, bare, bracket, isToken⟩ (call.not_closes isWhole reaches)

/-! ## Two levels are enough -/

/-- A reduction that closes no pair does not depend on how pairs are reduced. -/
theorem Ready.reduceWith_eq (ready : w.Ready forms opens target range.start pieces range.stop)
    (claimed : w.ClosersClaimed range) (depth : Nat) (nested : Nested) :
    reduceWith (reduceRange depth) w range target = reduceWith nested w range target := by
  unfold reduceWith
  rw [foldlM_congr fun done stop ahead w' inOrder visited => ?_]
  refine visit_congr fun bracket opener _ bare isToken _ => ?_
  have inRange := mem_stops (inOrder ▸ List.mem_append_right done List.mem_cons_self)
  have still := claimed.reaches ready ⟨done, inOrder, visited⟩ stop.2 bracket inRange.1 inRange.2 isToken
  cases still.symm.trans bare

/-- Whatever the third level would do, it is never asked. -/
theorem reduceRange_two_levels (lexemes : List Lexeme) (nested : Nested) :
    reduceRange (lexemes.length + 1) (start lexemes) ⟨0, lexemes.length⟩ 0 =
      reduceWith (reduceWith nested) (start lexemes) ⟨0, lexemes.length⟩ 0 := by
  rw [reduceRange_succ, reduceWith, reduceWith, foldlM_congr fun done stop ahead w inOrder visited => ?_]
  -- At a closing bracket the first level makes a call of the second, which closes nothing.
  obtain ⟨group, index⟩ := stop
  refine visit_congr fun bracket opener isBracket bare isToken found => ?_
  obtain rfl : group = .bracket := isBracket
  have call : Calls lexemes 2 lexemes.length (w.openPair 0 bracket opener index) ⟨opener + 1, index⟩ w.nodes.size :=
    .inside .whole ⟨done, inOrder, visited⟩ bare isToken found
  obtain ⟨forms, opens, pieces, ready⟩ := call.ready
  have inRange : index < lexemes.length :=
    (mem_stops (inOrder ▸ List.mem_append_right done List.mem_cons_self)).2
  obtain ⟨depth, isSucc⟩ : ∃ depth, lexemes.length = depth + 1 := ⟨lexemes.length - 1, by omega⟩
  simp only [isSucc, reduceRange_succ]
  exact ready.reduceWith_eq (call.closersClaimed (by decide)) depth nested

/-- Reductions are never nested more than two deep, however deep the brackets are.

* A call that is not the one for the whole list is the inside of a bracket pair. It is called by the one for the whole
  list, and finds every closing bracket of its range claimed.
* So it never closes a pair.
* And the result is the same whatever is put in place of reductions three deep. -/
theorem reduction_two_deep (lexemes : List Lexeme) :
    (∀ level depth w range target, Calls lexemes level depth w range target →
      level ≤ 2 ∧ (level = 2 → w.ClosersClaimed range)) ∧
    (∀ level depth w range target stop ahead w', Calls lexemes level (depth + 1) w range target → level = 2 →
      Reaches (reduceRange depth) range target w (stop :: ahead) w' → ¬ w'.Closes stop) ∧
    ∀ nested, reduceRange (lexemes.length + 1) (start lexemes) ⟨0, lexemes.length⟩ 0 =
      reduceWith (reduceWith nested) (start lexemes) ⟨0, lexemes.length⟩ 0 := by
  refine ⟨fun level depth w range target call => ⟨call.level_le, ?_⟩,
    fun level depth w range target stop ahead w' call isInside => ?_, reduceRange_two_levels lexemes⟩
  · rintro rfl
    exact call.closersClaimed (by decide)
  · subst isInside
    exact call.not_closes (by decide)

theorem reduction_two_deep_nestedSum :
    Calls nestedSum 2 7 (innerClosed.openPair 0 .paren 0 6) ⟨1, 6⟩ 5 ∧
    (innerClosed.openPair 0 .paren 0 6).ClosersClaimed ⟨1, 6⟩ ∧
    Reaches (reduceRange 6) ⟨1, 6⟩ 5 (innerClosed.openPair 0 .paren 0 6)
      ((.bracket, 5) :: (stops ⟨1, 6⟩).drop 5) (innerClosed.openPair 0 .paren 0 6) ∧
    ¬ (innerClosed.openPair 0 .paren 0 6).Closes (.bracket, 5) ∧
    reduceRange 8 (start nestedSum) ⟨0, 7⟩ 0 =
      reduceWith (reduceWith fun _ _ _ => .error ⟨.missingBody, ⟨0, 0⟩⟩) (start nestedSum) ⟨0, 7⟩ 0 := by
  obtain ⟨calls, visits, levels⟩ := reduction_two_deep nestedSum
  have reaches : Reaches (reduceRange 6) ⟨1, 6⟩ 5 (innerClosed.openPair 0 .paren 0 6)
      ((.bracket, 5) :: (stops ⟨1, 6⟩).drop 5) (innerClosed.openPair 0 .paren 0 6) :=
    ⟨(stops ⟨1, 6⟩).take 4, by decide, by decide⟩
  exact ⟨nestedSum_calls, (calls _ _ _ _ _ nestedSum_calls).2 rfl, reaches,
    visits _ _ _ _ _ _ _ _ nestedSum_calls rfl reaches, levels _⟩

end Workspace

end Rill
