import PCode.FileTree

namespace PCode
namespace FileTree

/-!
What writing a file changes.

A file can be written at a place only if everything above that place is a directory already, and if
no directory stands there.  So a written file shows at its own place and nowhere else: no directory
comes into being above it, and none disappears below it.
-/

/-! ## Places that a walk has passed -/

/-- Something stands at a place and everywhere above it. -/
def Grounded (tree : FileTree) (place : List String) : Prop :=
  forall above, above <+: place -> (tree.entry? above).isSome = true

/-- A walk is inside the tree at a place that is there, or above the tree. -/
def Position.Grounded (tree : FileTree) : Position -> Prop
  | .inside place => tree.Grounded place
  | .above _ => True

variable {tree : FileTree}

theorem isSome_entry?_nil : (tree.entry? []).isSome = true := by
  rw [FileTree.entry?]
  split
  · rfl
  · simp only [List.isEmpty_nil, Bool.true_or, if_true, Option.isSome_some]

theorem grounded_nil : tree.Grounded [] := by
  intro above isPrefix
  rw [List.prefix_nil.mp isPrefix]
  exact isSome_entry?_nil

variable {place : List String}

theorem Grounded.dropLast (grounded : tree.Grounded place) : tree.Grounded place.dropLast :=
  fun above isPrefix => grounded above (isPrefix.trans (List.dropLast_prefix place))

theorem Grounded.snoc {part} (grounded : tree.Grounded place)
    (here : (tree.entry? (place ++ [part])).isSome = true) : tree.Grounded (place ++ [part]) := by
  intro above isPrefix
  rcases List.prefix_concat_iff.mp isPrefix with same | shorter
  · rw [same]
    exact here
  · exact grounded above shorter

/-- One step of a walk stays where something stands, or goes to a name below. -/
theorem step_cases {position next part} (grounded : position.Grounded tree)
    (stepped : step position part = some next) :
    next.Grounded tree
      ∨ exists place, position = .inside place ∧ part ≠ ".." ∧ next = .inside (place ++ [part]) := by
  unfold step at stepped
  split at stepped
  · cases stepped
    exact .inl grounded
  · cases position with
    | inside place =>
      dsimp only at stepped
      split at stepped
      · split at stepped
        · cases stepped
          exact .inl trivial
        · cases stepped
          exact .inl (Grounded.dropLast grounded)
      · rename_i down
        cases stepped
        exact .inr ⟨place, rfl, down, rfl⟩
    | above levels =>
      dsimp only at stepped
      split at stepped
      · cases stepped
        exact .inl trivial
      · cases stepped

theorem walk_grounded {parts position next} (grounded : position.Grounded tree)
    (walked : walk tree position parts = .ok next) : next.Grounded tree := by
  induction parts generalizing position with
  | nil =>
    cases walked
    exact grounded
  | cons part rest ih =>
    rw [walk] at walked
    split at walked
    · cases walked
    · split at walked
      · cases walked
      · rename_i levels _
        exact ih (show Position.Grounded tree (.above levels) from trivial)
          walked
      · rename_i place stepped
        split at walked
        · rename_i here
          refine ih ?_ walked
          rcases step_cases grounded stepped with stays | ⟨before, rfl, _, down⟩
          · exact stays
          · cases down
            exact Grounded.snoc grounded (by rw [here]; rfl)
        · cases walked
        · cases walked

/-- What stands above the place that a path names is there, if the path does not ask for a
directory. -/
theorem locate_grounded {path} (located : tree.locate path = .ok (.inside place, false)) :
    forall above, above <+: place -> above ≠ place -> (tree.entry? above).isSome = true := by
  rw [locate] at located
  split at located
  · cases located
  split at located
  · cases located
  split at located
  · cases located
  dsimp only at located
  split at located
  · cases located
  · split at located
    · cases located
    · rename_i position walked
      have grounded := walk_grounded (show Position.Grounded tree (.inside []) from grounded_nil)
        walked
      split at located
      · cases located
      · split at located
        · cases located
        · rename_i next stepped
          rcases Prod.mk.inj (Except.ok.inj located) with ⟨rfl, _⟩
          intro above isPrefix different
          rcases step_cases grounded stepped with stays | ⟨before, rfl, _, down⟩
          · exact stays above isPrefix
          · cases down
            rcases List.prefix_concat_iff.mp isPrefix with same | shorter
            · exact absurd same different
            · exact grounded above shorter

/-! ## What stands where after a file was put -/

/-- Exactly one place has changed: it holds a file with the content. -/
structure Replaced (before after : FileTree) (place : List String) (content : ByteArray) :
    Prop where
  here : after.entry? place = some (.file content)
  elsewhere : forall other, other ≠ place -> after.entry? other = before.entry? other
  directories : after.directories = before.directories
  programs : after.programs = before.programs

theorem find?_put_self (files : List (List String × ByteArray)) (place : List String)
    (content : ByteArray) :
    (files.filter (fun (name, _) => name != place) ++ [(place, content)]).find?
        (fun (name, _) => name == place) = some (place, content) := by
  rw [List.find?_append]
  have missing : (files.filter fun (name, _) => name != place).find?
      (fun (name, _) => name == place) = none := by
    simp [List.find?_eq_none]
  rw [missing]
  simp

theorem find?_put_other (files : List (List String × ByteArray)) {other} (content : ByteArray)
    (different : other ≠ place) :
    (files.filter (fun (name, _) => name != place) ++ [(place, content)]).find?
        (fun (name, _) => name == other) = files.find? fun (name, _) => name == other := by
  induction files with
  | nil => simp [Ne.symm different]
  | cons file files ih =>
    by_cases replaced : file.1 = place
    · rw [List.filter_cons_of_neg (by simpa using replaced), ih,
        List.find?_cons_of_neg (by simpa [replaced] using Ne.symm different)]
    · rw [List.filter_cons_of_pos (by simpa using replaced), List.cons_append]
      by_cases found : file.1 = other
      · rw [List.find?_cons_of_pos (by simpa using found),
          List.find?_cons_of_pos (by simpa using found)]
      · rw [List.find?_cons_of_neg (by simpa using found), ih,
          List.find?_cons_of_neg (by simpa using found)]

/-- The new file adds to the places above files those above itself and no others. -/
theorem any_put (files : List (List String × ByteArray)) (place other : List String)
    (content : ByteArray) :
    (files.filter (fun (name, _) => name != place) ++ [(place, content)]).any
        (fun (name, _) => other.isPrefixOf name)
      = (files.any (fun (name, _) => other.isPrefixOf name) || other.isPrefixOf place) := by
  induction files with
  | nil => simp
  | cons file files ih =>
    by_cases replaced : file.1 = place
    · rw [List.filter_cons_of_neg (by simpa using replaced), ih, List.any_cons]
      subst replaced
      dsimp only
      cases other.isPrefixOf file.1 with
      | false => rw [Bool.or_false, Bool.false_or, Bool.or_false]
      | true => rw [Bool.or_true, Bool.or_true]
    · rw [List.filter_cons_of_pos (by simpa using replaced), List.cons_append, List.any_cons,
        ih, List.any_cons, Bool.or_assoc]

/-- A file shows at its own place only, if whatever lies above it was there before. -/
theorem replaced_put (content : ByteArray)
    (grounded : forall above, above <+: place -> above ≠ place ->
      (tree.entry? above).isSome = true) :
    Replaced tree (tree.put place content) place content where
  here := by
    rw [FileTree.entry?, put, find?_put_self]
  elsewhere := by
    intro other different
    have was := grounded other
    rw [FileTree.entry?, put, find?_put_other _ content different]
    rw [FileTree.entry?] at was ⊢
    cases found : tree.files.find? fun (name, _) => name == other with
    | some file => rfl
    | none =>
      rw [found] at was
      dsimp only at was ⊢
      rw [any_put]
      cases isPrefix : other.isPrefixOf place with
      | false => rw [Bool.or_false]
      | true =>
        -- A place above the new file was a directory before.
        have before := was (List.isPrefixOf_iff_prefix.mp isPrefix) different
        split at before
        · rename_i directory
          rw [if_pos directory, if_pos (by simp)]
        · cases before
  directories := rfl
  programs := rfl

/-! ## What stays -/

section Sparing

variable {Owned : List String -> Prop} {before after : FileTree}

/-- Whatever stood in a tree still stands there, except that files at some places may have been
replaced. -/
def Spares (Owned : List String -> Prop) (before after : FileTree) : Prop :=
  forall place entry, before.entry? place = some entry -> (entry = .directory ∨ ¬ Owned place) ->
    after.entry? place = some entry

theorem Spares.refl (Owned : List String -> Prop) (tree : FileTree) : Spares Owned tree tree :=
  fun _ _ here _ => here

theorem Spares.trans {later} (first : Spares Owned before after)
    (second : Spares Owned after later) : Spares Owned before later :=
  fun place entry here kept => second place entry (first place entry here kept) kept

theorem Spares.mono {More : List String -> Prop} (spares : Spares Owned before after)
    (wider : forall place, Owned place -> More place) : Spares More before after :=
  fun place entry here kept => spares place entry here (kept.imp_right (mt (wider place)))

variable {place : List String} {content : ByteArray} {path : String}

theorem Replaced.spares (replaced : Replaced before after place content)
    (free : before.entry? place ≠ some .directory) :
    Spares (fun other => other = place) before after := by
  intro other entry here kept
  have different : other ≠ place := by
    rintro rfl
    rcases kept with rfl | apart
    · exact free here
    · exact apart rfl
  rw [replaced.elsewhere other different, here]

/-- A walk that led somewhere leads there again. -/
theorem Spares.walk (spares : Spares Owned before after) {parts position next}
    (walked : before.walk position parts = .ok next) : after.walk position parts = .ok next := by
  induction parts generalizing position with
  | nil => exact walked
  | cons part rest ih =>
    rw [FileTree.walk] at walked ⊢
    split at walked
    · cases walked
    rename_i short
    rw [if_neg short]
    split at walked
    · cases walked
    · exact ih walked
    · rename_i passed _
      split at walked
      · rename_i here
        rw [spares passed _ here (.inl rfl)]
        exact ih walked
      · cases walked
      · cases walked

/-- A path that named something names it again. -/
theorem Spares.locate (spares : Spares Owned before after) {found}
    (located : before.locate path = .ok found) : after.locate path = .ok found := by
  rw [FileTree.locate] at located ⊢
  split at located
  · cases located
  rename_i nonempty
  rw [if_neg nonempty]
  split at located
  · cases located
  rename_i valid
  rw [if_neg valid]
  split at located
  · cases located
  rename_i relative
  rw [if_neg relative]
  dsimp only at located ⊢
  split at located
  · exact located
  · split at located
    · cases located
    · rename_i position walked
      rw [spares.walk walked]
      exact located

/-- A path that can be read names a file. -/
theorem read_cases (read : tree.read path = .ok content) :
    exists place, tree.locate path = .ok (.inside place, false)
      ∧ tree.entry? place = some (.file content) := by
  rw [FileTree.read, lookup] at read
  split at read
  · cases read
  · cases read
  · rename_i found
    cases read
    split at found
    · cases found
    · cases found
    · rename_i place closed located
      split at found
      · cases found
      · rename_i here
        split at found
        · cases found
        · rename_i isOpen
          cases found
          rw [Bool.not_eq_true] at isOpen
          rw [isOpen] at located
          exact ⟨place, located, here⟩
      · cases found

theorem read_of_entry (located : tree.locate path = .ok (.inside place, false))
    (here : tree.entry? place = some (.file content)) : tree.read path = .ok content := by
  rw [FileTree.read, lookup, located]
  dsimp only
  rw [here]
  rfl

/-- A file that could be read reads the same, unless its place was given away. -/
theorem Spares.read (spares : Spares Owned before after) (read : before.read path = .ok content)
    (kept : forall place, before.locate path = .ok (.inside place, false) -> ¬ Owned place) :
    after.read path = .ok content := by
  rcases read_cases read with ⟨place, located, here⟩
  exact read_of_entry (spares.locate located) (spares place _ here (.inr (kept place located)))

/-! ## Directories -/

theorem spares_addDirectory (tree : FileTree) (place : List String) :
    Spares (fun _ => False) tree { tree with directories := tree.directories ++ [place] } := by
  intro other entry here _
  rw [FileTree.entry?] at here ⊢
  cases found : tree.files.find? fun (name, _) => name == other with
  | some file =>
    rw [found] at here
    exact here
  | none =>
    rw [found] at here
    dsimp only at here ⊢
    split at here
    · rename_i directory
      rw [← here, if_pos]
      simp only [Bool.or_eq_true, List.contains_eq_mem, decide_eq_true_eq, List.mem_append,
        List.any_append] at directory ⊢
      rcases directory with ((root | listed) | holds) | above
      · exact .inl (.inl (.inl root))
      · exact .inl (.inl (.inr (.inl listed)))
      · exact .inl (.inr holds)
      · exact .inr (.inl above)
    · cases here

theorem spares_makeBelow {parts} (made : before.makeBelow place path parts = .ok after) :
    Spares (fun _ => False) before after := by
  induction parts generalizing before place path with
  | nil =>
    cases made
    exact .refl _ _
  | cons part parts ih =>
    rw [makeBelow] at made
    split at made
    · cases made
    · exact ih made
    · exact (spares_addDirectory before _).trans (ih made)

/-- Making directories takes nothing away. -/
theorem spares_makeDirectories (made : before.makeDirectories path = .ok after) :
    Spares (fun _ => False) before after := by
  rw [makeDirectories] at made
  split at made
  · cases made
  · exact spares_makeBelow made

end Sparing

/-! ## Writing -/

section Writing

variable {after : FileTree} {place : List String} {content : ByteArray}

/-- A path was written: it reads back, and the place that it names is the only one that has
changed. -/
structure Wrote (before after : FileTree) (path : String) (content : ByteArray) : Prop where
  reads : after.read path = .ok content
  only : exists place, before.locate path = .ok (.inside place, false)
    ∧ Replaced before after place content

/-- A file can be created at a path. -/
def Creatable (tree : FileTree) (path : String) : Prop :=
  exists created, tree.write path .empty = .ok created

/-- Writing a file either fails, whatever its content is, or puts it at the place that the path
names. -/
theorem write_cases (tree : FileTree) (path : String) :
    (exists error, forall content, tree.write path content = .error error)
      ∨ exists place, tree.locate path = .ok (.inside place, false)
          ∧ tree.entry? place ≠ some .directory
          ∧ forall content, tree.write path content = .ok (tree.put place content) := by
  unfold write
  split
  · exact .inl ⟨_, fun _ => rfl⟩
  · exact .inl ⟨_, fun _ => rfl⟩
  · rename_i place mustBeDirectory located
    split
    · exact .inl ⟨_, fun _ => rfl⟩
    · rename_i here
      cases mustBeDirectory with
      | true => exact .inl ⟨_, fun _ => rfl⟩
      | false => exact .inr ⟨place, located, by rw [here]; rintro ⟨⟩, fun _ => rfl⟩
    · rename_i here
      cases mustBeDirectory with
      | true => exact .inl ⟨_, fun _ => rfl⟩
      | false => exact .inr ⟨place, located, by rw [here]; rintro ⟨⟩, fun _ => rfl⟩

variable {path : String}

theorem creatable_of_write (written : tree.write path content = .ok after) :
    tree.Creatable path := by
  rcases write_cases tree path with ⟨error, fails⟩ | ⟨place, _, _, succeeds⟩
  · rw [fails] at written
    cases written
  · exact ⟨_, succeeds _⟩

theorem wrote_of_write (written : tree.write path content = .ok after) :
    Wrote tree after path content := by
  rcases write_cases tree path with ⟨error, fails⟩ | ⟨place, located, free, succeeds⟩
  · rw [fails] at written
    cases written
  · rw [succeeds] at written
    cases written
    have replaced := replaced_put content (locate_grounded located)
    exact ⟨read_of_entry ((replaced.spares free).locate located) replaced.here, place, located,
      replaced⟩

/-- A path that was written names a file, and its place is the only one that was given away. -/
theorem spares_of_write (written : tree.write path content = .ok after) :
    exists place, tree.locate path = .ok (.inside place, false)
      ∧ after.entry? place = some (.file content)
      ∧ Spares (fun other => other = place) tree after := by
  rcases write_cases tree path with ⟨error, fails⟩ | ⟨place, located, free, succeeds⟩
  · rw [fails] at written
    cases written
  · rw [succeeds] at written
    cases written
    have replaced := replaced_put content (locate_grounded located)
    exact ⟨place, located, replaced.here, replaced.spares free⟩

theorem write_of_creatable (creatable : tree.Creatable path) (content : ByteArray) :
    exists after, tree.write path content = .ok after := by
  rcases creatable with ⟨created, written⟩
  rcases write_cases tree path with ⟨error, fails⟩ | ⟨place, _, _, succeeds⟩
  · rw [fails] at written
    cases written
  · exact ⟨_, succeeds content⟩

end Writing

end FileTree
end PCode
