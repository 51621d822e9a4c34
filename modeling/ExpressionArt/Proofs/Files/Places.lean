import ExpressionArt.Files.FileTree
import Std.Data.String.ToInt

/-!
# Places of paths

Where a path leads is read off its steps alone, whatever a tree holds. A name in a directory adds
itself as the last step, so different names in one directory never share a place.
-/

namespace ExpressionArt

namespace Path

variable {dir name other : String}

/-- Where a path leads, if all its directories are there. -/
def target (path : String) : Place := (steps path).foldl Place.step (Place.start path)

/-! ## Steps -/

/-- The steps of a path by its characters. -/
def stepsOf (cs : List Char) : List String :=
  ((cs.splitOnP (· == '/')).filter (· ≠ [])).map String.ofList

theorem stepsOf_slash (front behind : List Char) :
    stepsOf (front ++ '/' :: behind) = stepsOf front ++ stepsOf behind := by
  rw [stepsOf, List.splitOnP_append_cons _ _ (by decide), List.filter_append, List.map_append]
  rfl

theorem stepsOf_plain {cs : List Char} (plain : '/' ∉ cs) (nonempty : cs ≠ []) :
    stepsOf cs = [String.ofList cs] := by
  have single : cs.splitOnP (· == '/') = [cs] := by
    refine List.splitOnP_eq_singleton fun c member => ?_
    have other : c ≠ '/' := fun same => plain (same ▸ member)
    simpa using other
  rw [stepsOf, single]
  simp [nonempty]

/-! ## Names in directories -/

/-- A text that is a single step down. -/
structure IsName (name : String) : Prop where
  nonempty : name.toList ≠ []
  plain : '/' ∉ name.toList
  down : name ≠ "." ∧ name ≠ ".."

theorem IsName.stepsOf (h : IsName name) : stepsOf name.toList = [name] := by
  rw [stepsOf_plain h.plain h.nonempty, String.ofList_toList]

theorem IsName.relative (h : IsName name) : name.startsWith "/" = false := by
  rw [Bool.eq_false_iff, ne_eq, String.startsWith_string_iff]
  rintro ⟨rest, slash⟩
  exact h.plain (slash ▸ List.mem_cons_self)

/-- A directory and a name, with a slash between them unless the directory ends in one. -/
theorem join_of_ne (named : dir ≠ "") (h : IsName name) :
    join dir name = dir ++ (if dir.endsWith "/" then "" else "/") ++ name := by
  have filled : dir.isEmpty = false := by
    rwa [Bool.eq_false_iff, ne_eq, String.isEmpty_iff]
  rw [join, h.relative, filled, Bool.false_or, if_neg Bool.false_ne_true]
  split
  · rw [String.append_empty]
  · rfl

theorem endsWith_iff {s pat : String} : s.endsWith pat = true ↔ pat.toList <:+ s.toList := by
  have slice := @String.Slice.endsWith_string_iff pat s.toSlice
  rwa [String.copy_toSlice] at slice

/-- How a directory and a name make a path: there is one slash between them, or no directory. -/
theorem join_cases (dir : String) (h : IsName name) :
    (dir.toList = [] ∧ (join dir name).toList = name.toList) ∨
    (∃ front, dir.toList = front ++ ['/'] ∧ (join dir name).toList = front ++ '/' :: name.toList) ∨
    (dir.toList ≠ [] ∧ (join dir name).toList = dir.toList ++ '/' :: name.toList) := by
  rw [join, h.relative, if_neg (by decide)]
  by_cases none : dir.toList = []
  · obtain rfl : dir = "" := String.toList_inj.1 none
    exact .inl ⟨rfl, by simp⟩
  · by_cases ends : dir.endsWith "/" = true
    · obtain ⟨front, slash⟩ := endsWith_iff.1 ends
      refine .inr (.inl ⟨front, slash.symm, ?_⟩)
      rw [if_pos (by simp [ends]), String.toList_append, ← slash]
      simp
    · refine .inr (.inr ⟨none, ?_⟩)
      have filled : dir.isEmpty = false := by
        rw [Bool.eq_false_iff, ne_eq, String.isEmpty_iff]
        rintro rfl
        exact none rfl
      rw [filled, Bool.eq_false_iff.2 ends, if_neg (by decide)]
      simp

theorem steps_join (h : IsName name) : steps (join dir name) = steps dir ++ [name] := by
  change stepsOf (join dir name).toList = stepsOf dir.toList ++ [name]
  obtain ⟨none, joined⟩ | ⟨front, slash, joined⟩ | ⟨-, joined⟩ := join_cases dir h
  · rw [joined, none, h.stepsOf]
    rfl
  · rw [joined, slash, stepsOf_slash, stepsOf_slash, h.stepsOf, List.append_assoc]
    rfl
  · rw [joined, stepsOf_slash, h.stepsOf]

theorem start_join (h : IsName name) : Place.start (join dir name) = Place.start dir := by
  have slash : (join dir name).startsWith "/" = dir.startsWith "/" := by
    rw [Bool.eq_iff_iff, String.startsWith_string_iff, String.startsWith_string_iff]
    change ['/'] <+: _ ↔ ['/'] <+: _
    obtain ⟨none, joined⟩ | ⟨front, slash, joined⟩ | ⟨some, joined⟩ := join_cases dir h
    · rw [joined, none]
      exact ⟨fun ⟨_, slash⟩ => (h.plain (slash ▸ List.mem_cons_self)).elim, nofun⟩
    · rw [joined, slash]
      cases front <;> simp
    · obtain ⟨c, cs, split⟩ := List.exists_cons_of_ne_nil some
      rw [joined, split]
      simp
  rw [Place.start, Place.start, slash]

theorem target_join (h : IsName name) : target (join dir name) = target dir ++ [name] := by
  rw [target, steps_join h, start_join h, List.foldl_append]
  simp [target, Place.step, h.down]

theorem target_join_inj (h : IsName name) (h' : IsName other) :
    target (join dir name) = target (join dir other) ↔ name = other := by
  rw [target_join h, target_join h']
  simp

/-! ## Numbered pictures -/

/-- The name of the picture of an index. -/
def pictureName (i : Int) : String := s!"{i}.png"

theorem plain_toString (i : Int) : '/' ∉ (toString i).toList := by
  have digits (n : Nat) : '/' ∉ n.repr.toList := by
    rw [Nat.repr, String.toList_ofList]
    intro member
    have digit := Nat.isDigit_of_mem_toDigits (by decide) (by decide) member
    exact absurd digit (by decide)
  rw [Int.toString_eq_repr]
  cases i with
  | ofNat n => exact digits n
  | negSucc n =>
    change '/' ∉ ("-" ++ n.succ.repr).toList
    rw [String.toList_append, List.mem_append, not_or]
    exact ⟨by decide, digits _⟩

theorem toList_pictureName (i : Int) :
    (pictureName i).toList = (toString i).toList ++ ".png".toList :=
  String.toList_append

theorem isName_pictureName (i : Int) : IsName (pictureName i) := by
  have text := toList_pictureName i
  have ends {s : String} (short : s.toList.length < 4) : pictureName i ≠ s := by
    rintro rfl
    rw [text, List.length_append] at short
    exact absurd short (Nat.not_lt.2 (Nat.le_add_left ..))
  refine ⟨?_, ?_, ends (by decide), ends (by decide)⟩
  · rw [text]
    exact List.append_ne_nil_of_right_ne_nil _ (by decide)
  · rw [text, List.mem_append, not_or]
    exact ⟨plain_toString i, by decide⟩

theorem pictureName_inj {i j : Int} : pictureName i = pictureName j ↔ i = j := by
  refine ⟨fun same => ?_, congrArg _⟩
  have chars := congrArg String.toList same
  rw [toList_pictureName, toList_pictureName, List.append_left_inj, String.toList_inj,
    Int.toString_eq_repr, Int.toString_eq_repr] at chars
  exact Int.repr_inj.1 chars

end Path

end ExpressionArt
