import Mathlib
import Rill.Text.Style

/-!
# Text without its colours

A sequence of colour begins with an escape and a bracket and goes up to the next `m`. Without these sequences
a styled text is the text alone.

1. Characters other than the escape are kept (`uncolored_append`), and a whole sequence is dropped
   (`uncolored_sequence`).
2. A text is shown as another one when it gives this one before any rest (`ShownAs`). Texts that are shown so
   can be put together: by appending, joining and separating them.
3. A text without escapes is shown as itself (`EscapeFree.shown`), and so is it in every style
   (`EscapeFree.painted`).
-/

namespace Rill.Text

/-- What follows the first `m`, if there is one. -/
def afterCode : List Char → Option (List Char)
  | [] => none
  | c :: cs => if c = 'm' then some cs else afterCode cs

theorem length_afterCode {cs rest : List Char} (found : afterCode cs = some rest) :
    rest.length < cs.length := by
  induction cs with
  | nil => cases found
  | cons c cs ih =>
      rw [afterCode] at found
      split at found
      · cases found
        exact Nat.lt_succ_self _
      · exact Nat.lt_succ_of_lt (ih found)

/-- A text without the sequences from an escape and a bracket up to the next `m`. A sequence that has no end
is none. -/
def uncolored : List Char → List Char
  | '\x1b' :: '[' :: cs =>
      match _found : afterCode cs with
      | some rest => uncolored rest
      | none => '\x1b' :: '[' :: uncolored cs
  | c :: cs => c :: uncolored cs
  | [] => []
termination_by cs => cs.length
decreasing_by
  · have := length_afterCode _found
    simp only [List.length_cons]
    omega
  · simp only [List.length_cons]
    omega
  · simp only [List.length_cons]
    omega

theorem uncolored_cons {c : Char} (other : c ≠ '\x1b') (cs : List Char) :
    uncolored (c :: cs) = c :: uncolored cs := by
  rw [uncolored.eq_def]
  split
  · next same =>
      cases same
      exact absurd rfl other
  · next same =>
      cases same
      rfl
  · next same => cases same

theorem uncolored_append {cs : List Char} (free : '\x1b' ∉ cs) (rest : List Char) :
    uncolored (cs ++ rest) = cs ++ uncolored rest := by
  induction cs with
  | nil => rfl
  | cons c cs ih =>
      rw [List.mem_cons, not_or] at free
      rw [List.cons_append, uncolored_cons (Ne.symm free.1), ih free.2, List.cons_append]

theorem afterCode_append {codes : List Char} (noEnd : 'm' ∉ codes) (rest : List Char) :
    afterCode (codes ++ 'm' :: rest) = some rest := by
  induction codes with
  | nil => rfl
  | cons c codes ih =>
      rw [List.mem_cons, not_or] at noEnd
      rw [List.cons_append, afterCode, if_neg (Ne.symm noEnd.1), ih noEnd.2]

/-- A whole sequence is dropped. -/
theorem uncolored_sequence {codes : List Char} (noEnd : 'm' ∉ codes) (rest : List Char) :
    uncolored ('\x1b' :: '[' :: (codes ++ 'm' :: rest)) = uncolored rest := by
  rw [uncolored]
  split
  · next behind found =>
      rw [afterCode_append noEnd] at found
      cases found
      rfl
  · next missing => simp [afterCode_append noEnd] at missing

/-! ## What is shown -/

/-- Before any rest, the first text without its colours is the second one. -/
def ShownAs (colored plain : String) : Prop :=
  ∀ rest, uncolored (colored.toList ++ rest) = plain.toList ++ uncolored rest

theorem ShownAs.append {first plain second plain' : String} (shown : ShownAs first plain)
    (shown' : ShownAs second plain') : ShownAs (first ++ second) (plain ++ plain') := by
  intro rest
  rw [String.toList_append, String.toList_append, List.append_assoc, shown, shown', List.append_assoc]

theorem ShownAs.empty : ShownAs "" "" := fun _ => rfl

/-- Texts that belong to the same things are joined as they are shown. -/
theorem ShownAs.join {α : Type} {things : List α} {colored plain : α → String}
    (shown : ∀ thing ∈ things, ShownAs (colored thing) (plain thing)) :
    ShownAs (String.join (things.map colored)) (String.join (things.map plain)) := by
  induction things with
  | nil => exact .empty
  | cons thing things ih =>
      rw [List.map_cons, List.map_cons, String.join_cons, String.join_cons]
      exact (shown thing List.mem_cons_self).append (ih fun other member =>
        shown other (List.mem_cons_of_mem thing member))

theorem ShownAs.intercalate {α : Type} {things : List α} {colored plain : α → String} {separator : String}
    (separates : ShownAs separator separator) (shown : ∀ thing ∈ things, ShownAs (colored thing) (plain thing)) :
    ShownAs (separator.intercalate (things.map colored)) (separator.intercalate (things.map plain)) := by
  induction things with
  | nil => exact .empty
  | cons thing things ih =>
      have first := shown thing List.mem_cons_self
      have later := ih fun other member => shown other (List.mem_cons_of_mem thing member)
      cases things with
      | nil => exact first
      | cons second things =>
          simp only [List.map_cons, String.intercalate_cons_cons]
          exact (first.append separates).append later

/-- A whole text without its colours. -/
theorem ShownAs.uncolored_eq {colored plain : String} (shown : ShownAs colored plain) :
    uncolored colored.toList = plain.toList := by
  simpa [uncolored] using shown []

/-! ## Styled texts -/

/-- A text in which no sequence can begin. -/
def EscapeFree (text : String) : Prop :=
  '\x1b' ∉ text.toList

instance : DecidablePred EscapeFree :=
  fun text => inferInstanceAs (Decidable ('\x1b' ∉ text.toList))

theorem EscapeFree.append {first second : String} (free : EscapeFree first) (free' : EscapeFree second) :
    EscapeFree (first ++ second) := by
  rw [EscapeFree, String.toList_append, List.mem_append, not_or]
  exact ⟨free, free'⟩

theorem EscapeFree.shown {text : String} (free : EscapeFree text) : ShownAs text text :=
  uncolored_append free

theorem resume_of_free {opening cs : List Char} (free : '\x1b' ∉ cs) : Style.resume opening cs = cs := by
  induction cs with
  | nil => rfl
  | cons c cs ih =>
      rw [List.mem_cons, not_or] at free
      rw [Style.resume.eq_def]
      split
      · next same =>
          cases same
          exact absurd rfl free.1
      · next same =>
          cases same
          rw [ih free.2]
      · next same => cases same

/-- An opening sequence has an end, and no earlier one. -/
theorem opening_eq (style : Style) :
    ∃ codes, style.opening = '\x1b' :: '[' :: (codes ++ ['m']) ∧ 'm' ∉ codes := by
  refine ⟨_, rfl, ?_⟩
  obtain ⟨emphasis, color⟩ := style
  rcases emphasis with - | emphasis <;> rcases color with - | color
  · decide
  · cases color <;> decide
  · cases emphasis <;> decide
  · cases emphasis <;> cases color <;> decide

/-- In every style a text without escapes is shown as it is without colours. -/
theorem EscapeFree.painted {text : String} (free : EscapeFree text) (style : Style) :
    ShownAs (style.paint true text) (style.paint false text) := by
  intro rest
  obtain ⟨codes, isOpening, noEnd⟩ := opening_eq style
  calc uncolored ((style.paint true text).toList ++ rest)
      = uncolored ('\x1b' :: '[' :: (codes ++ 'm' :: (text.toList ++ (Style.reset ++ rest)))) := by
        rw [Style.paint, if_pos rfl, String.toList_ofList, resume_of_free free, isOpening]
        simp only [List.cons_append, List.append_assoc, List.nil_append]
    _ = text.toList ++ uncolored (Style.reset ++ rest) := by
        rw [uncolored_sequence noEnd, uncolored_append free]
    _ = text.toList ++ uncolored rest := by
        rw [show Style.reset ++ rest = '\x1b' :: '[' :: (['0'] ++ 'm' :: rest) from rfl,
          uncolored_sequence (by decide)]

end Rill.Text
