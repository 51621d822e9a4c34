import ExpressionArt.Gallery
import ExpressionArt.Proofs.Files.Writes

/-!
# Contents never matter

Whether a file action succeeds depends on what is where, but on no content: neither on what files
hold nor on what is written. So an action may be tried out with nothing to write.
-/

namespace ExpressionArt

/-- What is at a place, without its content. -/
def FileNode.outline : FileNode → FileNode
  | .directory => .directory
  | .file _ => .file (.text "")

namespace FileTree

variable {t u : FileTree} {place : Place} {path : String}

/-- What is where, without contents. -/
def outline (t : FileTree) : FileTree := t.map fun (place, node) => (place, node.outline)

theorem find?_outline (t : FileTree) (place : Place) :
    t.outline.find? place = (t.find? place).map FileNode.outline := by
  have lookup : t.outline.lookup place = (t.lookup place).map FileNode.outline := by
    induction t with
    | nil => rfl
    | cons e t ih =>
      obtain ⟨p, node⟩ := e
      change List.lookup place ((p, node.outline) :: outline t) = _
      rw [Lookup.lookup_cons, Lookup.lookup_cons, ih]
      split <;> rfl
  rw [find?, find?]
  split
  · rfl
  · exact lookup

theorem put_outline (t : FileTree) (place : Place) (node : FileNode) :
    (t.put place node).outline = t.outline.put place node.outline := by
  have any : t.outline.any (·.1 == place) = t.any (·.1 == place) := by
    simp [outline, Function.comp_def]
  rw [put, put, any]
  split
  · rw [outline, outline, List.map_map, List.map_map]
    refine List.map_congr_left fun e _ => ?_
    by_cases here : e.1 = place <;> simp [here]
  · simp [outline]

theorem walk_outline (t : FileTree) (place : Place) (steps : List String) :
    t.outline.walk place steps = t.walk place steps := by
  induction steps generalizing place with
  | nil => rfl
  | cons s steps ih =>
    rw [walk, walk, find?_outline]
    rcases t.find? place with _ | _ | content
    · rfl
    · simp only [Option.map_some, FileNode.outline, ih]
    · rfl

theorem locate_outline (t : FileTree) (path : String) : t.outline.locate path = t.locate path := by
  rw [locate, locate, walk_outline]

theorem node?_outline (t : FileTree) (path : String) :
    t.outline.node? path = (t.node? path).map FileNode.outline := by
  rw [node?, node?, locate_outline]
  cases t.locate path with
  | error e => rfl
  | ok place =>
    dsimp only
    rw [find?_outline, Option.filter_map]
    congr 2
    funext node
    cases node <;> rfl

theorem isDirectory_outline (t : FileTree) (path : String) :
    t.outline.isDirectory path = t.isDirectory path := by
  rw [isDirectory, isDirectory, node?_outline]
  rcases t.node? path with _ | _ | content <;> rfl

section

variable (same : t.outline = u.outline)

include same

theorem find?_same (place : Place) :
    (t.find? place).map FileNode.outline = (u.find? place).map FileNode.outline := by
  rw [← find?_outline, same, find?_outline]

theorem isSome_find?_same (place : Place) :
    (t.find? place).isSome = (u.find? place).isSome := by
  rw [← Option.isSome_map, find?_same same, Option.isSome_map]

theorem any_isDirectory_same (place : Place) :
    (t.find? place).any FileNode.isDirectory = (u.find? place).any FileNode.isDirectory := by
  have outline (found : Option FileNode) :
      (found.map FileNode.outline).any FileNode.isDirectory = found.any FileNode.isDirectory := by
    rcases found with _ | _ | content <;> rfl
  rw [← outline, find?_same same, outline]

theorem locate_same (path : String) : t.locate path = u.locate path := by
  rw [← locate_outline, same, locate_outline]

theorem isNone_node?_same (path : String) : (t.node? path).isNone = (u.node? path).isNone := by
  rw [← Option.isNone_map, ← node?_outline, same, node?_outline, Option.isNone_map]

theorem isDirectory_same (path : String) : t.isDirectory path = u.isDirectory path := by
  rw [← isDirectory_outline, same, isDirectory_outline]

theorem put_same (place : Place) {node other : FileNode} (nodes : node.outline = other.outline) :
    (t.put place node).outline = (u.put place other).outline := by
  rw [put_outline, put_outline, same, nodes]

end

/-! ## Actions -/

/-- Two actions that do the same where the same is, up to contents. -/
def Similar {α : Type} (a b : FileAction α) : Prop :=
  ∀ t u, t.outline = u.outline →
    (a.run t).1 = (b.run u).1 ∧ (a.run t).2.outline = (b.run u).2.outline

section

variable {α β : Type} {a b : FileAction α}

theorem similar_pure (x : α) : Similar (pure x) (pure x) := fun _ _ same => ⟨rfl, same⟩

theorem similar_throw (e : FileError) : Similar (throw e : FileAction α) (throw e) :=
  fun _ _ same => ⟨rfl, same⟩

theorem Similar.bind (h : Similar a b) {f k : α → FileAction β} (next : ∀ x, Similar (f x) (k x)) :
    Similar (a >>= f) (b >>= k) := by
  intro t u same
  rw [run_bind, run_bind]
  obtain ⟨result, same⟩ := h t u same
  generalize a.run t = out at result same ⊢
  generalize b.run u = out' at result same ⊢
  obtain ⟨r, t⟩ := out
  obtain ⟨r', u⟩ := out'
  obtain rfl : r = r' := result
  cases r with
  | error e => exact ⟨rfl, same⟩
  | ok x => exact next x t u same

theorem Similar.tryCatch (h : Similar a b) {f k : FileError → FileAction α}
    (rescue : ∀ e, Similar (f e) (k e)) : Similar (tryCatch a f) (tryCatch b k) := by
  intro t u same
  rw [run_tryCatch, run_tryCatch]
  obtain ⟨result, same⟩ := h t u same
  generalize a.run t = out at result same ⊢
  generalize b.run u = out' at result same ⊢
  obtain ⟨r, t⟩ := out
  obtain ⟨r', u⟩ := out'
  obtain rfl : r = r' := result
  cases r with
  | error e => exact rescue e t u same
  | ok x => exact ⟨rfl, same⟩

theorem Similar.ite {p q : Prop} [Decidable p] [Decidable q] (iff : p ↔ q) {a' b' : FileAction α}
    (h : Similar a b) (h' : Similar a' b') :
    Similar (if p then a else a') (if q then b else b') := by
  by_cases holds : p
  · rw [if_pos holds, if_pos (iff.1 holds)]
    exact h
  · rw [if_neg holds, if_neg (holds ∘ iff.2)]
    exact h'

theorem Similar.get {f k : FileTree → FileAction α}
    (next : ∀ t u, t.outline = u.outline → Similar (f t) (k u)) :
    Similar (get >>= f) (get >>= k) :=
  fun t u same => next t u same t u same

end

theorem similar_makeDirectory (path : String) :
    Similar (makeDirectory path) (makeDirectory path) := by
  intro t u same
  rw [run_makeDirectory, run_makeDirectory, locate_same same]
  cases u.locate path with
  | error fault => exact ⟨rfl, same⟩
  | ok place =>
    dsimp only
    rw [isSome_find?_same same]
    split
    · exact ⟨rfl, same⟩
    · exact ⟨rfl, put_same same place rfl⟩

theorem similar_makeDirectoriesWithin (n : Nat) (path : String) :
    Similar (makeDirectoriesWithin n path) (makeDirectoriesWithin n path) := by
  induction n generalizing path with
  | zero => exact similar_pure ()
  | succ n ih =>
    let last : FileAction Unit := tryCatch (makeDirectory path) fun e => do
      let t : FileTree ← get
      if t.isDirectory path then return else throw e
    have similar : Similar last last := (similar_makeDirectory path).tryCatch fun e =>
      .get fun t u same => .ite (by rw [isDirectory_same same]) (similar_pure ()) (similar_throw e)
    rw [makeDirectoriesWithin]
    refine .get fun t u same => ?_
    refine .ite (by rw [isNone_node?_same same])
      (.bind (.tryCatch (ih _) fun e => ?_) fun _ => ?_) ?_
    · exact .ite .rfl (similar_pure ()) (similar_throw e)
    · exact .ite (by rw [isNone_node?_same same]) (similar_pure ()) similar
    · exact .ite (by rw [isNone_node?_same same]) (similar_pure ()) similar

theorem similar_makeDirectories (path : String) :
    Similar (makeDirectories path) (makeDirectories path) :=
  similar_makeDirectoriesWithin _ path

theorem similar_write (path : String) (content other : FileContent) :
    Similar (write path content) (write path other) := by
  intro t u same
  rw [run_write, run_write, locate_same same]
  cases u.locate path with
  | error fault => exact ⟨rfl, same⟩
  | ok place =>
    dsimp only
    rw [any_isDirectory_same same]
    split
    · exact ⟨rfl, same⟩
    · exact ⟨rfl, put_same same place rfl⟩

end FileTree

end ExpressionArt
