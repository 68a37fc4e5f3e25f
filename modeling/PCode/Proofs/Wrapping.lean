import PCode.Flags.Help

namespace PCode
namespace Help

/-!
Wrapped text.

Lines are filled with words in order, and a line ends only where the next word would make it too
wide.  So no word is lost, and there is no way to get by with fewer lines: whatever the lines of
another arrangement are, none of them reaches from the first word of a filled line to the first word
of the next one.
-/

/-! ## Lines and their words -/

/-- What stands between the single spaces of a line. -/
def pieces (line : String) : List String := (line.toList.splitOn ' ').map String.ofList

/-- Lines that hold the given words in order.  Each of them is at most `width` bytes wide or a
single word. -/
structure Arranges (width : Nat) (words lines : List String) : Prop where
  words : lines.flatMap pieces = words
  fits : forall line, line ∈ lines -> line.utf8ByteSize <= width ∨ (pieces line).length = 1

/-- A word: it is not empty, and there is no space in it. -/
def IsWord (word : String) : Prop := word ≠ "" ∧ ' ' ∉ word.toList

/-- A line of words. -/
abbrev joined (group : List String) : String := " ".intercalate group

theorem pieces_joined {group} (nonempty : group ≠ [])
    (words : forall word, word ∈ group -> IsWord word) : pieces (joined group) = group := by
  have free : forall chars, chars ∈ group.map String.toList -> ' ' ∉ chars := by
    intro chars member
    rcases List.mem_map.mp member with ⟨word, isWord, rfl⟩
    exact (words word isWord).2
  rw [pieces, String.toList_intercalate]
  rw [show " ".toList = [' '] from rfl,
    List.splitOn_intercalate ' ' free (mt List.map_eq_nil_iff.mp nonempty), List.map_map]
  exact (List.map_congr_left fun _ _ => String.ofList_toList).trans (List.map_id group)

theorem joined_pieces (line : String) : joined (pieces line) = line := by
  apply String.toList_inj.mp
  rw [String.toList_intercalate, pieces, List.map_map]
  rw [show String.toList ∘ String.ofList = id from funext fun _ => String.toList_ofList,
    List.map_id]
  exact List.intercalate_splitOn ' '

theorem joined_snoc {group} (nonempty : group ≠ []) (word : String) :
    joined (group ++ [word]) = joined group ++ " " ++ word := by
  rw [joined, String.intercalate_append_of_ne_nil nonempty (List.cons_ne_nil _ _),
    String.intercalate_singleton]

/-- A part of a line is no wider than the line. -/
theorem size_joined_le (before group behind : List String) :
    (joined group).utf8ByteSize <= (joined (before ++ group ++ behind)).utf8ByteSize := by
  by_cases empty : group = []
  · subst empty
    exact Nat.zero_le _
  have left : (joined group).utf8ByteSize <= (joined (before ++ group)).utf8ByteSize := by
    cases before with
    | nil => exact Nat.le_refl _
    | cons word before =>
      rw [joined, joined, String.intercalate_append_of_ne_nil (List.cons_ne_nil _ _) empty,
        String.utf8ByteSize_append]
      exact Nat.le_add_left _ _
  refine Nat.le_trans left ?_
  cases behind with
  | nil => exact Nat.le_of_eq (by rw [List.append_nil])
  | cons word behind =>
    have nonempty : before ++ group ≠ [] := List.append_ne_nil_of_right_ne_nil before empty
    rw [joined, joined, String.intercalate_append_of_ne_nil nonempty (List.cons_ne_nil _ _),
      String.utf8ByteSize_append, String.utf8ByteSize_append]
    omega

/-! ## Filled lines -/

/-- Words that make a line of at most `width` bytes, or a single word. -/
def Fits (width : Nat) (group : List String) : Prop :=
  (joined group).utf8ByteSize <= width ∨ group.length = 1

/-- Lines that are filled as far as they go: the word behind a line would not fit into it. -/
inductive Filled (width : Nat) : List (List String) -> Prop
  | nil : Filled width []
  | cons {group groups} :
    group ≠ [] -> Fits width group ->
    (forall word, groups.flatten.head? = some word ->
      width < (joined (group ++ [word])).utf8ByteSize) ->
    Filled width groups -> Filled width (group :: groups)

variable {width : Nat} {groups : List (List String)}

/-- Filling goes on from the words that a line has already. -/
theorem fill_filled {group} (nonempty : group ≠ []) (fits : Fits width group)
    (words : List String) :
    exists groups, fill width (joined group) words = groups.map joined
      ∧ groups.flatten = group ++ words ∧ Filled width groups := by
  induction words generalizing group with
  | nil => exact ⟨[group], rfl, List.flatten_singleton.trans (List.append_nil _).symm,
      .cons nonempty fits nofun .nil⟩
  | cons word words ih =>
    have size : (joined (group ++ [word])).utf8ByteSize
        = (joined group).utf8ByteSize + 1 + word.utf8ByteSize := by
      rw [joined_snoc nonempty, String.utf8ByteSize_append, String.utf8ByteSize_append]
      rfl
    rw [fill]
    split
    · rename_i wide
      rcases ih (List.cons_ne_nil word []) (.inr rfl) with ⟨groups, filled, same, chain⟩
      rw [joined, String.intercalate_singleton] at filled
      refine ⟨group :: groups, congrArg (joined group :: ·) filled, congrArg (group ++ ·) same, ?_⟩
      refine .cons nonempty fits ?_ chain
      rw [same]
      rintro _ ⟨⟩
      exact size ▸ wide
    · rename_i narrow
      rw [← joined_snoc nonempty]
      rcases ih (List.append_ne_nil_of_left_ne_nil nonempty [word]) (.inl (by omega))
        with ⟨groups, filled, same, chain⟩
      exact ⟨groups, filled, same.trans (List.append_assoc _ _ _), chain⟩

namespace Filled

theorem parts (filled : Filled width groups) :
    forall group, group ∈ groups -> group ≠ [] ∧ Fits width group := by
  induction filled with
  | nil => exact List.forall_mem_nil _
  | cons nonempty fits _ _ ih => exact List.forall_mem_cons.mpr ⟨⟨nonempty, fits⟩, ih⟩

theorem behind {before after group word} (filled : Filled width (before ++ group :: after))
    (next : after.flatten.head? = some word) : width < (joined (group ++ [word])).utf8ByteSize := by
  induction before with
  | nil =>
    cases filled with
    | cons _ _ wide _ => exact wide word next
  | cons _ before ih =>
    cases filled with
    | cons _ _ _ chain => exact ih chain

/-- Groups that fit are at least as many as filled ones with the same words, also if they hold
further words in front. -/
theorem length_le (filled : Filled width groups) {others : List (List String)}
    (fits : forall other, other ∈ others -> Fits width other) {front}
    (same : others.flatten = front ++ groups.flatten) : groups.length <= others.length := by
  induction others generalizing front groups with
  | nil =>
    cases filled with
    | nil => exact Nat.le_refl _
    | cons nonempty _ _ _ =>
      have empty := (List.append_eq_nil_iff.mp same.symm).2
      exact absurd (List.append_eq_nil_iff.mp empty).1 nonempty
  | cons other others ih =>
    rcases List.forall_mem_cons.mp fits with ⟨fitsHere, fitsLater⟩
    rcases List.append_eq_append_iff.mp same with ⟨left, _, later⟩ | ⟨taken, reached, later⟩
    · exact Nat.le_succ_of_le (ih filled fitsLater later)
    · cases filled with
      | nil => exact Nat.zero_le _
      | @cons group groups nonempty _ wide chain =>
        refine Nat.succ_le_succ ?_
        rcases List.append_eq_append_iff.mp later with ⟨beyond, whole, later⟩ | ⟨left, _, later⟩
        · cases beyond with
          | nil => exact ih chain fitsLater (later.symm.trans (List.nil_append _).symm)
          | cons word more =>
            -- A line that goes on behind the group holds the word that would not fit.
            have tooWide := wide word (congrArg List.head? later)
            have part := size_joined_le front (group ++ [word]) more
            have parts : other = front ++ (group ++ [word]) ++ more := by simp [reached, whole]
            have some := List.length_pos_iff.mpr nonempty
            rcases fitsHere with narrow | single
            · rw [parts] at narrow
              omega
            · rw [parts] at single
              simp only [List.length_append, List.length_cons, List.length_nil] at single
              omega
        · exact ih chain fitsLater later

end Filled

/-! ## Wrapping -/

theorem isWord_reverse {current : List Char}
    (under : forall char, char ∈ current -> Text.isBlank char = false)
    (nonempty : ¬ current.isEmpty = true) : IsWord (String.ofList current.reverse) := by
  refine ⟨?_, ?_⟩
  · intro empty
    rw [String.ofList_eq_empty_iff, List.reverse_eq_nil_iff] at empty
    exact nonempty (List.isEmpty_iff.mpr empty)
  · rw [String.toList_ofList, List.mem_reverse]
    exact fun member => Bool.noConfusion (under ' ' member)

theorem isWord_wordsFrom {current chars}
    (under : forall char, char ∈ current -> Text.isBlank char = false) :
    forall word, word ∈ Text.wordsFrom current chars -> IsWord (String.ofList word) := by
  induction chars generalizing current with
  | nil =>
    rw [Text.wordsFrom]
    split
    · exact List.forall_mem_nil _
    · rename_i nonempty
      exact List.forall_mem_singleton.mpr (isWord_reverse under nonempty)
  | cons char chars ih =>
    rw [Text.wordsFrom]
    split
    · split
      · exact ih (List.forall_mem_nil _)
      · rename_i nonempty
        exact List.forall_mem_cons.mpr ⟨isWord_reverse under nonempty, ih (List.forall_mem_nil _)⟩
    · rename_i dark
      exact ih (List.forall_mem_cons.mpr ⟨Bool.eq_false_iff.mpr dark, under⟩)

theorem isWord_words (text : String) : forall word, word ∈ Text.words text -> IsWord word := by
  intro word member
  rcases List.mem_map.mp member with ⟨chars, listed, rfl⟩
  exact isWord_wordsFrom (List.forall_mem_nil _) chars listed

theorem wrap_filled (text : String) {width} (positive : 0 < width) :
    exists groups, wrap text width = groups.map joined ∧ groups.flatten = Text.words text
      ∧ Filled width.toNatClampNeg groups := by
  unfold wrap
  split
  · rename_i none
    exact ⟨[], rfl, none.symm, .nil⟩
  · rename_i word words some
    rw [if_neg (Int64.not_le.mpr positive), some]
    have filled := fill_filled (List.cons_ne_nil word [])
      (show Fits width.toNatClampNeg [word] from .inr rfl) words
    rwa [joined, String.intercalate_singleton] at filled

/-- Wrapped lines hold the words of the text in order and fit, none of them is empty, none could
have held the first word of the next one as well, and no lines that fit and hold these words are
fewer. -/
theorem wrap_greedy (text : String) {width : Int64} (positive : 0 < width) :
    Arranges width.toNatClampNeg (Text.words text) (wrap text width)
      ∧ (forall line, line ∈ wrap text width -> line ≠ "")
      ∧ (forall before line next after word, wrap text width = before ++ line :: next :: after ->
        (pieces next).head? = some word ->
        width.toNatClampNeg < (line ++ " " ++ word).utf8ByteSize)
      ∧ forall lines, Arranges width.toNatClampNeg (Text.words text) lines ->
        (wrap text width).length <= lines.length := by
  rcases wrap_filled text positive with ⟨groups, lines, same, filled⟩
  have word {group : List String} (member : group ∈ groups) {word : String}
      (inside : word ∈ group) : IsWord word :=
    isWord_words text word (same ▸ List.mem_flatten_of_mem member inside)
  have split {group : List String} (member : group ∈ groups) : pieces (joined group) = group :=
    pieces_joined (filled.parts group member).1 fun _ => word member
  have pieced : (groups.map joined).flatMap pieces = Text.words text := by
    rw [List.flatMap_map, ← same, List.flatMap_def, List.map_congr_left fun _ => split,
      List.map_id']
  rw [lines]
  refine ⟨⟨pieced, ?_⟩, ?_, ?_, ?_⟩
  · intro line member
    rcases List.mem_map.mp member with ⟨group, listed, rfl⟩
    rw [split listed]
    exact (filled.parts group listed).2
  · rintro line member rfl
    rcases List.mem_map.mp member with ⟨group, listed, empty⟩
    have pieces : group = [""] := by rw [← split listed, empty]; rfl
    exact (word listed (pieces ▸ List.mem_singleton_self _)).1 rfl
  · intro before line next after first cut head
    rcases List.map_eq_append_iff.mp cut with ⟨_, _, rfl, _, here⟩
    rcases List.map_eq_cons_iff.mp here with ⟨group, _, rfl, rfl, there⟩
    rcases List.map_eq_cons_iff.mp there with ⟨later, _, rfl, rfl, _⟩
    rw [split (by simp)] at head
    rw [← joined_snoc (filled.parts group (by simp)).1]
    exact filled.behind (by rw [List.flatten_cons, List.head?_append, head]; rfl)
  · intro others arranged
    have fits : forall other, other ∈ others.map pieces -> Fits width.toNatClampNeg other := by
      intro other member
      rcases List.mem_map.mp member with ⟨line, listed, rfl⟩
      rw [Fits, joined_pieces]
      exact arranged.fits line listed
    have held : (others.map pieces).flatten = [] ++ groups.flatten := by
      rw [← List.flatMap_def, arranged.words, same]
      rfl
    rw [List.length_map, ← List.length_map pieces]
    exact filled.length_le fits held

/-- Two lines of four bytes hold these words, and one does not. -/
theorem wrap_greedy_narrow : (0 : Int64) < 4 ∧ wrap "aa b  ccc" 4 = ["aa b", "ccc"]
    ∧ forall lines, Arranges 4 (Text.words "aa b  ccc") lines -> 2 <= lines.length := by
  have shown : wrap "aa b  ccc" 4 = ["aa b", "ccc"] := by decide +kernel
  have fewest := (wrap_greedy "aa b  ccc" (show (0 : Int64) < 4 by decide)).2.2.2
  rw [shown] at fewest
  exact ⟨by decide, shown, fewest⟩

end Help
end PCode
