/-!
# Byte offsets in text

A place in a text is a byte offset into its UTF-8 form. Texts are handled as lists of characters,
so an offset is found by walking over whole characters.

* An offset that falls inside a character names no place: the cut has no answer.
* An offset past the end names no place either; the end itself is one.
* A cut from `start` to `stop` has an answer only when `start ≤ stop`.
-/

namespace Rill.Text

/-- The number of bytes that `cs` takes in UTF-8. -/
def byteLength : List Char → Nat
  | [] => 0
  | c :: cs => c.utf8Size + byteLength cs

/-- What follows the first `n` bytes, when these are whole characters. -/
def dropBytes : Nat → List Char → Option (List Char)
  | 0, cs => some cs
  | _ + 1, [] => none
  | n + 1, c :: cs => if c.utf8Size ≤ n + 1 then dropBytes (n + 1 - c.utf8Size) cs else none

/-- The first `n` bytes, when these are whole characters. -/
def takeBytes : Nat → List Char → Option (List Char)
  | 0, _ => some []
  | _ + 1, [] => none
  | n + 1, c :: cs =>
      if c.utf8Size ≤ n + 1 then (takeBytes (n + 1 - c.utf8Size) cs).map (c :: ·) else none

/-- The characters between two byte offsets. -/
def sliceBytes (start stop : Nat) (cs : List Char) : Option (List Char) :=
  if start ≤ stop then (dropBytes start cs).bind (takeBytes (stop - start)) else none

/-! ## The length of a text -/

@[simp]
theorem byteLength_nil : byteLength [] = 0 := rfl

@[simp]
theorem byteLength_cons (c : Char) (cs : List Char) :
    byteLength (c :: cs) = c.utf8Size + byteLength cs := rfl

@[simp]
theorem byteLength_append (xs ys : List Char) :
    byteLength (xs ++ ys) = byteLength xs + byteLength ys := by
  induction xs with
  | nil => simp
  | cons c cs ih => simp [ih, Nat.add_assoc]

/-- Every character takes at least one byte. -/
theorem length_le_byteLength (cs : List Char) : cs.length ≤ byteLength cs := by
  induction cs with
  | nil => simp
  | cons c cs ih =>
      have positive := Char.utf8Size_pos c
      rw [byteLength_cons, List.length_cons]
      omega

/-! ## Cutting at a character boundary -/

theorem dropBytes_append (xs ys : List Char) : dropBytes (byteLength xs) (xs ++ ys) = some ys := by
  induction xs with
  | nil => simp [byteLength, dropBytes]
  | cons c cs ih =>
      have positive := Char.utf8Size_pos c
      obtain ⟨n, hn⟩ : ∃ n, c.utf8Size + byteLength cs = n + 1 := ⟨_, (Nat.succ_pred (by omega)).symm⟩
      simp only [byteLength, List.cons_append, hn, dropBytes]
      rw [if_pos (by omega), show n + 1 - c.utf8Size = byteLength cs by omega, ih]

theorem takeBytes_append (xs ys : List Char) : takeBytes (byteLength xs) (xs ++ ys) = some xs := by
  induction xs with
  | nil => simp [byteLength, takeBytes]
  | cons c cs ih =>
      have positive := Char.utf8Size_pos c
      obtain ⟨n, hn⟩ : ∃ n, c.utf8Size + byteLength cs = n + 1 := ⟨_, (Nat.succ_pred (by omega)).symm⟩
      simp only [byteLength, List.cons_append, hn, takeBytes]
      rw [if_pos (by omega), show n + 1 - c.utf8Size = byteLength cs by omega, ih]
      rfl

/-- Cutting a text at the ends of a middle part gives that part back. -/
theorem sliceBytes_append (xs ys zs : List Char) :
    sliceBytes (byteLength xs) (byteLength xs + byteLength ys) (xs ++ ys ++ zs) = some ys := by
  simp [sliceBytes, dropBytes_append, takeBytes_append]

end Rill.Text
