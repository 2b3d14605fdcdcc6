import Mathlib
import Rill.Command.Directory

/-!
# Files written and removed again

A file can be written at a path that names a file already, or at one where nothing is yet. Removing it
afterwards leaves the directory as if the file had been removed at once:

    write path text, remove path   =   remove path

1. The way along a path depends only on which names are files and which are directories (`follow_congr`).
2. A path to a free name leads to the file once this is written there (`Adds.follow_eq`).
3. So the path still names the written file when it is removed (`remove_writeText`), and all other files are
   as they were (`find?_remove`). What the file held before is lost, so the directory is as it was exactly if
   the path named no file (`find?_remove_iff`).
-/

namespace Rill

namespace Directory

variable {directory : Directory} {name path : String}

/-! ## Names -/

theorem find?_eq_none_iff : directory.find? name = none ↔ ∀ file ∈ directory.files, file.1 ≠ name := by
  rw [find?, List.lookup_eq_none_iff]
  simp only [bne_iff_ne, ne_comm]

theorem isSome_find?_iff : (directory.find? name).isSome = true ↔ ∃ file ∈ directory.files, file.1 = name := by
  rw [Option.isSome_iff_ne_none, Ne, find?_eq_none_iff]
  simp

theorem find?_erase {other : String} (differs : other ≠ name) :
    (directory.erase name).find? other = directory.find? other := by
  simp only [find?, erase]
  induction directory.files with
  | nil => rfl
  | cons file files ih =>
      by_cases removed : file.1 = name
      · have passed : (other == file.1) = false := by simpa [removed] using differs
        rw [List.filter_cons_of_neg (by simpa using removed), ih, List.lookup_cons, passed]
      · rw [List.filter_cons_of_pos (by simpa using removed), List.lookup_cons, List.lookup_cons, ih]

theorem erase_eq_self (absent : directory.find? name = none) : directory.erase name = directory := by
  have kept : directory.files.filter (fun file => file.1 != name) = directory.files :=
    List.filter_eq_self.mpr fun file member => by simpa using find?_eq_none_iff.mp absent file member
  rw [erase, kept]

/-- Only the file at a path is removed. -/
theorem find?_remove (elsewhere : directory.resolve path ≠ .file name) :
    (directory.remove path).find? name = directory.find? name := by
  rw [remove]
  split
  · next other found =>
      refine find?_erase ?_
      rintro rfl
      exact elsewhere found
  · rfl

theorem find?_remove_self (found : directory.resolve path = .file name) :
    (directory.remove path).find? name = none := by
  rw [remove, found, find?_eq_none_iff]
  intro file member
  simpa using (List.mem_filter.mp member).2

/-! ## What paths lead to -/

theorem Entry.beyond_eq {entry result : Entry} {rest : List String} (ends : entry.beyond rest = result)
    (plain : ∀ error, result ≠ .noDirectory error ∧ result ≠ .failed error) : rest = [] ∧ entry = result := by
  rw [Entry.beyond.eq_def] at ends
  split at ends
  · exact ⟨rfl, ends⟩
  · exact absurd ends.symm (plain _).1
  · exact absurd ends.symm (plain _).2

/-- What stands at a path that is not refused is found by following it from some place. -/
theorem resolve_eq (path : String) :
    (∃ error, ∀ directory : Directory, directory.resolve path = .failed error) ∨
      ∃ place components, ∀ directory : Directory,
        directory.resolve path = directory.follow place components := by
  by_cases empty : path = ""
  · exact .inl ⟨.notFound, fun _ => by rw [resolve, if_pos empty]⟩
  · by_cases long : maxPath < Text.byteLength path.toList
    · exact .inl ⟨.nameTooLong, fun _ => by rw [resolve, if_neg empty, if_pos long]⟩
    · exact .inr ⟨_, _, fun _ => by rw [resolve, if_neg empty, if_neg long]⟩

variable {place : Place} {component : String} {components : List String}

/-- What a component leads to does not depend on the directory, or it is told by one name of it. -/
theorem enter_eq (place : Place) (component : String) :
    (∃ outcome, (∀ directory : Directory, directory.enter place component = outcome) ∧
      ∀ name, outcome ≠ .inr (.file name) ∧ outcome ≠ .inr (.free name)) ∨
    ∃ name below, ∀ directory : Directory, directory.enter place component =
      if (directory.find? name).isSome then .inr (.file name)
      else if directory.hasDirectory name then .inl below else .inr (.free name) := by
  by_cases long : maxComponent < Text.byteLength component.toList
  · exact .inl ⟨_, fun _ => by rw [enter.eq_def, if_pos long], by simp⟩
  · cases place with
    | inside path => exact .inr ⟨_, _, fun _ => by rw [enter.eq_def, if_neg long]⟩
    | system path =>
        refine .inl ⟨_, fun _ => by rw [enter.eq_def, if_neg long], fun name => ?_⟩
        cases systemEntry (path ++ [component]) <;> simp

theorem enter_file (entered : directory.enter place component = .inr (.file name)) :
    (directory.find? name).isSome = true := by
  rcases enter_eq place component with ⟨outcome, always, other⟩ | ⟨_, below, told⟩
  · exact absurd ((always directory).symm.trans entered) (other name).1
  · rw [told] at entered
    split at entered
    · next found =>
        cases entered
        exact found
    · split at entered <;> cases entered

theorem enter_free (entered : directory.enter place component = .inr (.free name)) :
    directory.find? name = none ∧ directory.hasDirectory name = false := by
  rcases enter_eq place component with ⟨outcome, always, other⟩ | ⟨_, below, told⟩
  · exact absurd ((always directory).symm.trans entered) (other name).2
  · rw [told] at entered
    split at entered
    · cases entered
    · next absent =>
        split at entered
        · cases entered
        · next noDirectory =>
            cases entered
            exact ⟨by simpa using absent, by simpa using noDirectory⟩

/-- A path to a file leads to one that is there. -/
theorem follow_file (leads : directory.follow place components = .file name) :
    (directory.find? name).isSome = true := by
  fun_induction follow directory place components with
  | case1 => cases leads
  | case2 _ _ _ _ ih => exact ih leads
  | case3 _ _ _ ih => exact ih leads
  | case4 _ _ _ _ _ _ _ ih => exact ih leads
  | case5 place component rest _ _ entry entered =>
      obtain ⟨-, rfl⟩ := Entry.beyond_eq leads (by simp)
      exact enter_file entered

/-- A path to a free name leads to nothing: neither to a file nor to a directory. -/
theorem follow_free (leads : directory.follow place components = .free name) :
    directory.find? name = none ∧ directory.hasDirectory name = false := by
  fun_induction follow directory place components with
  | case1 => cases leads
  | case2 _ _ _ _ ih => exact ih leads
  | case3 _ _ _ ih => exact ih leads
  | case4 _ _ _ _ _ _ _ ih => exact ih leads
  | case5 place component rest _ _ entry entered =>
      obtain ⟨-, rfl⟩ := Entry.beyond_eq leads (by simp)
      exact enter_free entered

/-- What a path to a file names is there. -/
theorem isSome_of_resolve (found : directory.resolve path = .file name) :
    (directory.find? name).isSome = true := by
  rcases resolve_eq path with ⟨error, failed⟩ | ⟨place, components, follows⟩
  · simp [failed] at found
  · exact follow_file ((follows directory).symm.trans found)

/-- Removing what stands at a path changes nothing exactly if no file stands there. -/
theorem find?_remove_iff : (∀ name, (directory.remove path).find? name = directory.find? name) ↔
    ∀ name, directory.resolve path ≠ .file name := by
  constructor
  · intro kept name found
    have present := isSome_of_resolve found
    rw [← kept name, find?_remove_self found] at present
    cases present
  · exact fun noFile name => find?_remove (noFile name)

theorem follow_congr {first second : Directory}
    (files : ∀ name, (first.find? name).isSome = (second.find? name).isSome)
    (directories : ∀ name, first.hasDirectory name = second.hasDirectory name) (place : Place)
    (components : List String) : first.follow place components = second.follow place components := by
  have entered (place : Place) (component : String) :
      first.enter place component = second.enter place component := by
    simp only [enter, files, directories]
  induction components generalizing place with
  | nil => rfl
  | cons component rest ih => simp only [follow, entered, ih]

/-! ## A new file -/

/-- `after` has the files of `directory` and one of the name, where no directory was. -/
structure Adds (directory after : Directory) (name : String) : Prop where
  noDirectory : directory.hasDirectory name = false
  files : ∀ other, (after.find? other).isSome = true ↔ (directory.find? other).isSome = true ∨ other = name
  directories : ∀ other, directory.hasDirectory other = true → after.hasDirectory other = true

namespace Adds

variable {after : Directory}

theorem enter_below (adds : Adds directory after name) {below : Place}
    (entered : directory.enter place component = .inl below) : after.enter place component = .inl below := by
  rcases enter_eq place component with ⟨outcome, always, -⟩ | ⟨inner, _, told⟩
  · rw [always] at entered ⊢
    exact entered
  · rw [told] at entered ⊢
    split at entered
    · cases entered
    · next absent =>
        split at entered
        · next isDirectory =>
            -- The new file has not taken the place of this directory.
            have differs : inner ≠ name := by
              rintro rfl
              simp [adds.noDirectory] at isDirectory
            rw [if_neg (by simp [adds.files, absent, differs]), if_pos (adds.directories inner isDirectory)]
            exact entered
        · cases entered

theorem enter_new (adds : Adds directory after name)
    (entered : directory.enter place component = .inr (.free name)) :
    after.enter place component = .inr (.file name) := by
  rcases enter_eq place component with ⟨outcome, always, other⟩ | ⟨inner, _, told⟩
  · exact absurd ((always directory).symm.trans entered) (other name).2
  · rw [told] at entered ⊢
    split at entered
    · cases entered
    · split at entered
      · cases entered
      · cases entered
        rw [if_pos ((adds.files name).mpr (.inr rfl))]

/-- The way to the free name leads to the new file. -/
theorem follow_eq (adds : Adds directory after name) (leads : directory.follow place components = .free name) :
    after.follow place components = .file name := by
  fun_induction follow directory place components with
  | case1 => cases leads
  | case2 _ _ _ skipped ih => rw [follow, if_pos skipped, ih leads]
  | case3 _ _ notSkipped ih => rw [follow, if_neg notSkipped, if_pos rfl, ih leads]
  | case4 _ _ _ notSkipped notUp _ entered ih =>
      rw [follow, if_neg notSkipped, if_neg notUp, adds.enter_below entered]
      exact ih leads
  | case5 _ _ _ notSkipped notUp entry entered =>
      obtain ⟨rfl, rfl⟩ := Entry.beyond_eq leads (by simp)
      rw [follow, if_neg notSkipped, if_neg notUp, adds.enter_new entered]
      rfl

end Adds

/-! ## Writing and removing -/

theorem names_store (found : (directory.find? name).isSome = true) (bytes : ByteArray) :
    (directory.store name bytes).files.map (·.1) = directory.files.map (·.1) := by
  rw [store, if_pos found, List.map_map]
  refine List.map_congr_left fun file _ => ?_
  by_cases same : file.1 = name <;> simp [same]

/-- Directories with the same names lead to the same entries. -/
theorem resolve_congr {first second : Directory} (names : first.files.map (·.1) = second.files.map (·.1))
    (path : String) : first.resolve path = second.resolve path := by
  have files (name : String) : (first.find? name).isSome = (second.find? name).isSome := by
    have mem (directory : Directory) :
        (directory.find? name).isSome = true ↔ name ∈ directory.files.map (·.1) := by
      rw [isSome_find?_iff, List.mem_map]
    rw [Bool.eq_iff_iff, mem, mem, names]
  have directories (name : String) : first.hasDirectory name = second.hasDirectory name := by
    have ofNames (directory : Directory) : directory.hasDirectory name =
        (directory.files.map (·.1)).any fun other => (name ++ "/").toList.isPrefixOf other.toList := by
      rw [hasDirectory, List.any_map]
      rfl
    rw [ofNames, ofNames, names]
  rcases resolve_eq path with ⟨error, failed⟩ | ⟨place, components, follows⟩
  · rw [failed, failed]
  · rw [follows, follows, follow_congr files directories]

theorem erase_store (directory : Directory) (name : String) (bytes : ByteArray) :
    (directory.store name bytes).erase name = directory.erase name := by
  rw [store]
  split
  · rw [erase, erase]
    congr 1
    dsimp only
    induction directory.files with
    | nil => rfl
    | cons file files ih => by_cases same : file.1 = name <;> simpa [same] using ih
  · simp [erase]

theorem adds_store (absent : directory.find? name = none) (noDirectory : directory.hasDirectory name = false)
    (bytes : ByteArray) : Adds directory (directory.store name bytes) name := by
  have stored : directory.store name bytes = ⟨directory.files ++ [(name, bytes)]⟩ := by
    rw [store, absent]
    rfl
  refine ⟨noDirectory, fun other => ?_, fun other isDirectory => ?_⟩
  · rw [stored, isSome_find?_iff, isSome_find?_iff]
    simp only [List.mem_append, List.mem_singleton, or_and_right, exists_or, exists_eq_left, eq_comm]
  · rw [hasDirectory] at isDirectory
    rw [stored, hasDirectory, List.any_append, isDirectory, Bool.true_or]

/-- A file written at a path is found there. -/
theorem resolve_store (writable : directory.resolve path = .file name ∨ directory.resolve path = .free name)
    (bytes : ByteArray) : (directory.store name bytes).resolve path = .file name := by
  rcases writable with isFile | isFree
  · rw [resolve_congr (names_store (isSome_of_resolve isFile) bytes), isFile]
  · rcases resolve_eq path with ⟨error, failed⟩ | ⟨place, components, follows⟩
    · simp [failed] at isFree
    · rw [follows] at isFree ⊢
      obtain ⟨absent, noDirectory⟩ := follow_free isFree
      exact (adds_store absent noDirectory bytes).follow_eq isFree

theorem erase_of_free (isFree : directory.resolve path = .free name) : directory.erase name = directory := by
  rcases resolve_eq path with ⟨error, failed⟩ | ⟨place, components, follows⟩
  · simp [failed] at isFree
  · exact erase_eq_self (follow_free ((follows directory).symm.trans isFree)).1

/-- Writing a file and removing it again is removing it. -/
theorem remove_writeText {after : Directory} {text : String}
    (written : directory.writeText path text = .ok after) : after.remove path = directory.remove path := by
  rw [writeText] at written
  cases entry : directory.resolve path with
  | file name =>
      rw [entry] at written
      cases written
      rw [remove, remove, entry, resolve_store (.inl entry)]
      exact erase_store directory name text.toUTF8
  | free name =>
      rw [entry] at written
      cases written
      rw [remove, remove, entry, resolve_store (.inr entry)]
      exact (erase_store directory name text.toUTF8).trans (erase_of_free entry)
  | null | outside =>
      rw [entry] at written
      cases written
      rfl
  | directory | noDirectory | failed =>
      rw [entry] at written
      cases written

/-- Where nothing can be written, there is nothing to remove. -/
theorem remove_of_not_written {text : String} {error : FileError}
    (refused : directory.writeText path text = .error error) : directory.remove path = directory := by
  rw [writeText] at refused
  rw [remove]
  split
  · next found =>
      rw [found] at refused
      cases refused
  · rfl

end Directory

end Rill
