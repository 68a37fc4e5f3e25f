import PCode.Proofs.FileTree

namespace PCode

/-!
Paths and the places that they name.

A file stands in its directory under the last part of its path.  A clean path names a place by
spelling it out: its parts are those of the place, because two dots can only stand at its start, and
from above the tree no way leads back.  So clean paths that name the same place are equal.
-/

namespace Path

/-! ## Parts -/

/-- A text that is one part of a path. -/
def Slashless (part : String) : Prop := '/' ∉ part.toList

theorem not_mem_of_mem_splitOn {chars part : List Char} (member : part ∈ chars.splitOn '/') :
    '/' ∉ part := by
  induction chars generalizing part with
  | nil =>
    rw [List.splitOn_nil, List.mem_singleton] at member
    rw [member]
    exact List.not_mem_nil
  | cons char chars ih =>
    rw [List.splitOn_cons_eq_if_modifyHead] at member
    split at member
    · rcases List.mem_cons.mp member with rfl | later
      · exact List.not_mem_nil
      · exact ih later
    · rename_i ordinary
      rcases List.exists_cons_of_ne_nil (List.splitOn_ne_nil '/' chars) with ⟨first, rest, equal⟩
      rw [equal, List.modifyHead_cons] at member
      rw [equal] at ih
      rcases List.mem_cons.mp member with rfl | later
      · intro slash
        rcases List.mem_cons.mp slash with rfl | inside
        · exact ordinary rfl
        · exact ih List.mem_cons_self inside
      · exact ih (List.mem_cons_of_mem _ later)

variable {part : String} {kept : List String}

theorem slashless_of_mem_parts {path} (member : part ∈ parts path) : Slashless part := by
  rcases List.mem_map.mp member with ⟨chars, isPart, rfl⟩
  rw [Slashless, String.toList_ofList]
  exact not_mem_of_mem_splitOn isPart

theorem parts_below (first second : String) :
    parts (first ++ "/" ++ second) = parts first ++ parts second := by
  have chars : (first ++ "/" ++ second).toList = first.toList ++ '/' :: second.toList := by
    rw [String.toList_append, String.toList_append, List.append_assoc]
    rfl
  rw [parts, chars, List.splitOn_append_cons_self, List.map_append]
  rfl

theorem parts_of_slashless (slashless : Slashless part) : parts part = [part] := by
  rw [parts, List.splitOn_eq_singleton slashless, List.map_singleton, String.ofList_toList]

theorem parts_intercalate (slashless : forall part, part ∈ kept -> Slashless part)
    (nonempty : kept ≠ []) : parts ("/".intercalate kept) = kept := by
  have apart : forall chars, chars ∈ kept.map String.toList -> '/' ∉ chars := by
    intro chars member
    rcases List.mem_map.mp member with ⟨part, isPart, rfl⟩
    exact slashless part isPart
  have some : kept.map String.toList ≠ [] := by
    rw [Ne, List.map_eq_nil_iff]
    exact nonempty
  rw [parts, String.toList_intercalate, show "/".toList = ['/'] from rfl,
    List.splitOn_intercalate '/' apart some, List.map_map]
  exact (List.map_congr_left fun part _ => String.ofList_toList).trans (List.map_id kept)

/-! ## Clean paths -/

/-- Parts that a clean path keeps, the last of them first.  Two dots stand at the start of the path
if they stand anywhere. -/
structure Tidy (kept : List String) : Prop where
  slashless : forall part, part ∈ kept -> Slashless part
  proper : forall part, part ∈ kept -> part ≠ "" ∧ part ≠ "."
  upward : ".." ∈ kept -> kept.getLast? = some ".."

theorem tidy_nil : Tidy [] where
  slashless := List.forall_mem_nil _
  proper := List.forall_mem_nil _
  upward := fun member => by cases member

theorem Tidy.tail (tidy : Tidy (part :: kept)) :
    Tidy kept where
  slashless := fun other member => tidy.slashless other (List.mem_cons_of_mem part member)
  proper := fun other member => tidy.proper other (List.mem_cons_of_mem part member)
  upward := by
    intro member
    have last := tidy.upward (List.mem_cons_of_mem part member)
    rcases List.exists_cons_of_ne_nil (List.ne_nil_of_mem member) with ⟨first, rest, rfl⟩
    rwa [List.getLast?_cons_cons] at last

theorem tidy_keep {rooted} (tidy : Tidy kept) (slashless : Slashless part) :
    Tidy (keep rooted kept part) := by
  rw [keep.eq_def]
  split
  · exact tidy
  rename_i proper
  rw [Bool.or_eq_true, decide_eq_true_eq, decide_eq_true_eq, not_or] at proper
  have extended (last : ".." ∈ part :: kept -> (part :: kept).getLast? = some "..") :
      Tidy (part :: kept) :=
    ⟨List.forall_mem_cons.mpr ⟨slashless, tidy.slashless⟩,
      List.forall_mem_cons.mpr ⟨proper, tidy.proper⟩, last⟩
  split
  · rename_i up
    subst up
    split
    · split
      · exact tidy_nil
      · exact extended fun _ => rfl
    · split
      · rename_i last before same
        refine extended fun _ => ?_
        rw [List.getLast?_cons_cons]
        exact tidy.upward (by rw [same]; exact List.mem_cons_self)
      · exact tidy.tail
  · rename_i down
    refine extended fun member => ?_
    rcases List.mem_cons.mp member with same | earlier
    · exact absurd same.symm down
    · rcases List.exists_cons_of_ne_nil (List.ne_nil_of_mem earlier) with ⟨first, rest, rfl⟩
      rw [List.getLast?_cons_cons]
      exact tidy.upward earlier

theorem tidy_foldl (rooted : Bool) {parts : List String} (tidy : Tidy kept)
    (slashless : forall part, part ∈ parts -> Slashless part) :
    Tidy (parts.foldl (keep rooted) kept) := by
  induction parts generalizing kept with
  | nil => exact tidy
  | cons part parts ih =>
    rcases List.forall_mem_cons.mp slashless with ⟨first, others⟩
    exact ih (tidy_keep tidy first) others

/-- The parts of the clean form of a path. -/
def cleanParts (path : String) : List String :=
  ((parts path).foldl (keep (path.startsWith "/")) []).reverse

theorem tidy_cleanParts (path : String) : Tidy (cleanParts path).reverse := by
  rw [cleanParts, List.reverse_reverse]
  exact tidy_foldl _ tidy_nil fun _ member => slashless_of_mem_parts member

theorem clean_eq (path : String) :
    clean path = if path.startsWith "/" then "/" ++ "/".intercalate (cleanParts path)
      else if (cleanParts path).isEmpty then "." else "/".intercalate (cleanParts path) :=
  rfl

/-- A name at the end of a path stays there. -/
theorem cleanParts_of_last {path name before} (parted : parts path = before ++ [name])
    (proper : name ∉ ["", ".", ".."]) : exists above, cleanParts path = above ++ [name] := by
  simp only [List.mem_cons, List.not_mem_nil, or_false, not_or] at proper
  rcases proper with ⟨nonempty, notDot, notParent⟩
  refine ⟨(before.foldl (keep (path.startsWith "/")) []).reverse, ?_⟩
  rw [cleanParts, parted, List.foldl_append, List.foldl_cons, List.foldl_nil, keep.eq_def]
  simp [nonempty, notDot, notParent]

end Path

namespace FileTree

open Path (Slashless Tidy parts cleanParts)

variable {tree : FileTree}

/-! ## Walks -/

/-- From above the tree no walk leads back into it. -/
theorem walk_above {parts levels next} (walked : walk tree (.above levels) parts = .ok next) :
    exists others, next = .above others := by
  induction parts generalizing levels with
  | nil =>
    cases walked
    exact ⟨levels, rfl⟩
  | cons part rest ih =>
    rw [walk] at walked
    split at walked
    · cases walked
    · split at walked
      · cases walked
      · exact ih walked
      · rename_i stepped
        rw [step] at stepped
        split at stepped
        · cases stepped
        · split at stepped
          · cases stepped
          · cases stepped

variable {place : List String} {path : String}

/-- A walk over names goes down by these names. -/
theorem walk_names {names next} (proper : forall name, name ∈ names -> name ∉ ["", ".", ".."])
    (walked : walk tree (.inside place) names = .ok next) : next = .inside (place ++ names) := by
  induction names generalizing place with
  | nil =>
    cases walked
    rw [List.append_nil]
  | cons name names ih =>
    rcases List.forall_mem_cons.mp proper with ⟨first, others⟩
    simp only [List.mem_cons, List.not_mem_nil, or_false, not_or] at first
    have stepped : step (.inside place) name = some (.inside (place ++ [name])) := by
      simp [step, first]
    rw [walk, stepped] at walked
    split at walked
    · cases walked
    · dsimp only at walked
      split at walked
      · rw [ih others walked, List.append_assoc, List.singleton_append]
      · cases walked
      · cases walked

theorem step_down {position name} (proper : name ∉ ["", ".", ".."])
    (stepped : step position name = some (.inside place)) :
    exists above, position = .inside above ∧ place = above ++ [name] := by
  simp only [List.mem_cons, List.not_mem_nil, or_false, not_or] at proper
  rcases proper with ⟨nonempty, notDot, notParent⟩
  rw [step.eq_def, if_neg (by simp [nonempty, notDot])] at stepped
  cases position with
  | inside above =>
    dsimp only at stepped
    rw [if_neg notParent] at stepped
    cases stepped
    exact ⟨above, rfl, rfl⟩
  | above levels =>
    dsimp only at stepped
    rw [if_neg notParent] at stepped
    cases stepped

/-- The way to a place that may hold a file: down to a directory, and on to a name. -/
theorem locate_cases (located : tree.locate path = .ok (.inside place, false)) :
    path ≠ "" ∧ path.startsWith "/" = false ∧ exists before name above,
      parts path = before ++ [name] ∧ name ∉ ["", ".", ".."]
        ∧ walk tree (.inside []) before = .ok (.inside above) ∧ place = above ++ [name] := by
  rw [locate] at located
  split at located
  · cases located
  rename_i nonempty
  split at located
  · cases located
  split at located
  · cases located
  rename_i relative
  refine ⟨nonempty, Bool.eq_false_iff.mpr relative, ?_⟩
  have some : parts path ≠ [] := by
    rw [parts, Ne, List.map_eq_nil_iff]
    exact List.splitOn_ne_nil '/' path.toList
  rcases List.eq_nil_or_concat (parts path) with empty | ⟨before, name, parted⟩
  · exact absurd empty some
  rw [List.concat_eq_append] at parted
  dsimp only at located
  rw [parted, List.reverse_append, List.reverse_singleton, List.singleton_append,
    List.getLast?_concat] at located
  by_cases closed : (Option.some name == Option.some "" || Option.some name == Option.some ".")
      = true
  · -- A path that ends in a slash or a dot asks for a directory.
    rw [closed] at located
    split at located
    · cases located
    · split at located
      · cases located
      · split at located
        · cases located
        · split at located
          · cases located
          · exact absurd (Prod.mk.inj (Except.ok.inj located)).2 (by simp)
  · have solid : ¬ ((name == "" || name == ".") = true) := closed
    have named : (name :: before.reverse).dropWhile (fun part => part == "" || part == ".")
        = name :: before.reverse := List.dropWhile_cons_of_neg solid
    rw [named, Bool.eq_false_iff.mpr closed] at located
    dsimp only at located
    rw [List.reverse_reverse, Bool.false_or] at located
    split at located
    · cases located
    rename_i position walked
    split at located
    · cases located
    split at located
    · cases located
    rename_i next stepped
    rcases Prod.mk.inj (Except.ok.inj located) with ⟨rfl, notParent⟩
    have proper : name ∉ ["", ".", ".."] := by
      simp only [Bool.or_eq_true, beq_iff_eq, not_or] at solid
      simp only [beq_eq_false_iff_ne, ne_eq] at notParent
      simp only [List.mem_cons, List.not_mem_nil, or_false, not_or]
      exact ⟨solid.1, solid.2, notParent⟩
    rcases step_down proper stepped with ⟨above, rfl, rfl⟩
    exact ⟨before, name, above, parted, proper, walked, rfl⟩

/-- A file stands under the last part of its path. -/
theorem locate_base (located : tree.locate path = .ok (.inside place, false)) :
    exists above, place = above ++ [Path.base path] ∧ Slashless (Path.base path) := by
  rcases locate_cases located with ⟨nonempty, _, before, name, above, parted, proper, _, rfl⟩
  have base : Path.base path = name := by
    have visible : ¬ name.isEmpty = true := by
      rw [String.isEmpty_iff]
      rintro rfl
      exact proper List.mem_cons_self
    rw [Path.base, if_neg (by simpa using nonempty), parted, List.reverse_append,
      List.reverse_singleton, List.singleton_append, List.dropWhile_cons_of_neg visible]
  rw [base]
  exact ⟨above, rfl, Path.slashless_of_mem_parts (by rw [parted]; simp)⟩

/-- A clean path spells out the place that it names. -/
theorem locate_clean (located : tree.locate (Path.clean path) = .ok (.inside place, false)) :
    place = cleanParts path ∧ Path.clean path = "/".intercalate place := by
  rcases locate_cases located with ⟨_, relative, before, name, above, parted, proper, walked, rfl⟩
  have tidy := Path.tidy_cleanParts path
  rw [Path.clean_eq] at relative parted ⊢
  split at relative
  · rw [String.startsWith_string_eq_false_iff, String.toList_append] at relative
    exact absurd (List.prefix_append _ _) relative
  rename_i unrooted
  rw [if_neg unrooted] at parted ⊢
  split at parted
  · have slashless : Slashless "." := by
      rw [Slashless]
      decide
    rw [Path.parts_of_slashless slashless] at parted
    have last := congrArg List.getLast? parted
    rw [List.getLast?_concat] at last
    cases last
    exact absurd proper (by decide)
  · rename_i something
    rw [if_neg something]
    have kept : cleanParts path = before ++ [name] := by
      rw [← parted, Path.parts_intercalate]
      · intro part member
        exact tidy.slashless part (List.mem_reverse.mpr member)
      · rwa [List.isEmpty_iff] at something
    have downward : ".." ∉ before := by
      intro member
      have first := tidy.upward (by rw [kept]; simp [member])
      rw [List.getLast?_reverse, kept] at first
      rcases List.exists_cons_of_ne_nil (List.ne_nil_of_mem member) with ⟨part, rest, rfl⟩
      cases first
      -- The first step leads above the tree, and the walk stays there.
      have stepped : step (.inside []) ".." = some (.above 1) := by decide
      rw [walk, if_neg (by decide), stepped] at walked
      rcases walk_above walked with ⟨levels, stays⟩
      cases stays
    have names : forall part, part ∈ before -> part ∉ ["", ".", ".."] := by
      intro part member
      have ordinary := tidy.proper part (by rw [kept]; simp [member])
      simp only [List.mem_cons, List.not_mem_nil, or_false, not_or]
      refine ⟨ordinary.1, ordinary.2, ?_⟩
      rintro rfl
      exact downward member
    have same := Position.inside.inj (walk_names names walked)
    rw [List.nil_append] at same
    rw [same, kept]
    exact ⟨rfl, rfl⟩

end FileTree
end PCode
