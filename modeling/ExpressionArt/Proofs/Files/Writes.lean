import ExpressionArt.Proofs.Files.Places
import ExpressionArt.Proofs.Lookup
import ExpressionArt.Proofs.Outcome

/-!
# What file actions leave behind

Whatever an action does and wherever it fails, directories stay directories, and a file holds what
was written to it last. A path that led to a place still does, so what was saved can be read.
-/

namespace ExpressionArt

namespace FileTree

variable {t u v : FileTree} {place c : Place} {path : String} {content : FileContent}

/-- The file at a place. -/
def file? (t : FileTree) (place : Place) : Option FileContent :=
  match t.find? place with
  | some (.file content) => some content
  | _ => none

theorem find?_put (inside : place.isOutside = false) (node : FileNode) :
    (t.put place node).find? c = if c = place then some node else t.find? c := by
  rw [find?, find?, put, Lookup.lookup_put]
  by_cases here : c = place
  · simp [here, inside]
  · simp [here]

/-- A tree after some files were written to their places, and perhaps some directories made. -/
structure Wrote (writes : List (Place × FileContent)) (t u : FileTree) : Prop where
  directories : ∀ place, t.find? place = some .directory → u.find? place = some .directory
  files : ∀ place, u.file? place = (writes.reverse.lookup place).or (t.file? place)

theorem Wrote.refl (t : FileTree) : Wrote [] t t := ⟨fun _ => id, fun _ => rfl⟩

theorem Wrote.trans {writes more : List (Place × FileContent)} (h : Wrote writes t u)
    (h' : Wrote more u v) : Wrote (writes ++ more) t v := by
  refine ⟨fun place there => h'.directories place (h.directories place there), fun place => ?_⟩
  rw [h'.files, h.files, List.reverse_append, List.lookup_append, Option.or_assoc]

/-! ## Places that are found -/

theorem walk_cons_eq_ok {s : String} {steps : List String} :
    t.walk place (s :: steps) = .ok c ↔ t.find? place = some .directory ∧
      s.utf8ByteSize ≤ maxNameBytes ∧ t.walk (place.step s) steps = .ok c := by
  rw [walk]
  cases found : t.find? place with
  | none => simp
  | some node =>
    cases node with
    | file content => simp
    | directory =>
      by_cases long : maxNameBytes < s.utf8ByteSize
      · simp [long, Nat.not_le.2 long]
      · simp [long, Nat.not_lt.1 long]

theorem walk_eq {steps : List String} (h : t.walk place steps = .ok c) :
    c = steps.foldl Place.step place := by
  induction steps generalizing place with
  | nil => exact (Except.ok.inj h).symm
  | cons s steps ih => exact ih (walk_cons_eq_ok.1 h).2.2

theorem locate_eq_ok : t.locate path = .ok c ↔ Path.hasNull path = false ∧ path.isEmpty = false ∧
    path.utf8ByteSize ≤ maxPathBytes ∧ t.walk (Place.start path) (Path.steps path) = .ok c := by
  rw [locate]
  cases Path.hasNull path with
  | true => simp
  | false =>
    cases path.isEmpty with
    | true => simp
    | false =>
      by_cases long : maxPathBytes < path.utf8ByteSize
      · simp [long, Nat.not_le.2 long]
      · simp [long, Nat.not_lt.1 long]

/-- A path that leads somewhere leads to its target. -/
theorem target_of_locate (h : t.locate path = .ok c) : c = Path.target path :=
  walk_eq (locate_eq_ok.1 h).2.2.2

namespace Wrote

variable {writes : List (Place × FileContent)}

theorem walk (h : Wrote writes t u) {steps : List String} (found : t.walk place steps = .ok c) :
    u.walk place steps = .ok c := by
  induction steps generalizing place with
  | nil => exact found
  | cons s steps ih =>
    obtain ⟨there, short, rest⟩ := walk_cons_eq_ok.1 found
    exact walk_cons_eq_ok.2 ⟨h.directories place there, short, ih rest⟩

theorem locate (h : Wrote writes t u) (found : t.locate path = .ok c) : u.locate path = .ok c := by
  obtain ⟨plain, some, short, walked⟩ := locate_eq_ok.1 found
  exact locate_eq_ok.2 ⟨plain, some, short, h.walk walked⟩

end Wrote

/-- A file is found by a path that leads to its place and does not ask for a directory. -/
theorem node?_of_file? (found : t.locate path = .ok place) (plain : path.endsWith "/" = false)
    (holds : t.file? place = some content) : t.node? path = some (.file content) := by
  rw [file?] at holds
  rw [node?, found]
  dsimp only
  split at holds
  · next file there =>
    cases holds
    simp [there, plain]
  · cases holds

/-! ## Actions -/

theorem inside_of_not_directory (h : t.find? place ≠ some .directory) :
    place.isOutside = false := by
  rw [Bool.eq_false_iff]
  exact fun outside => h (if_pos outside)

theorem wrote_directory (fresh : t.find? place = none) : Wrote [] t (t.put place .directory) := by
  have inside := inside_of_not_directory (by rw [fresh]; exact nofun)
  refine ⟨fun c there => ?_, fun c => ?_⟩
  · rw [find?_put inside, there]
    split <;> rfl
  · rw [file?, find?_put inside]
    by_cases here : c = place
    · simp [here, file?, fresh]
    · simp [here, file?]

theorem wrote_file (noDirectory : t.find? place ≠ some .directory) (content : FileContent) :
    Wrote [(place, content)] t (t.put place (.file content)) := by
  have inside := inside_of_not_directory noDirectory
  refine ⟨fun c there => ?_, fun c => ?_⟩
  · have other : c ≠ place := fun same => noDirectory (same ▸ there)
    rw [find?_put inside, if_neg other, there]
  · rw [file?, find?_put inside, List.reverse_singleton, Lookup.lookup_cons]
    by_cases here : c = place
    · simp [here]
    · simp [here, file?]

/-- An action that writes no file, whatever becomes of it. -/
def Keeps {α : Type} (a : FileAction α) : Prop := ∀ t, Wrote [] t (a.run t).2

section

variable {α β : Type} {a : FileAction α}

theorem keeps_pure (x : α) : Keeps (pure x) := .refl

theorem keeps_throw (e : FileError) : Keeps (throw e : FileAction α) := .refl

theorem Keeps.bind (h : Keeps a) {f : α → FileAction β} (next : ∀ x, Keeps (f x)) :
    Keeps (a >>= f) := by
  intro t
  have first := h t
  rw [run_bind]
  generalize a.run t = out at first ⊢
  obtain ⟨e | x, u⟩ := out
  · exact first
  · exact first.trans (next x u)

theorem Keeps.tryCatch (h : Keeps a) {f : FileError → FileAction α} (rescue : ∀ e, Keeps (f e)) :
    Keeps (tryCatch a f) := by
  intro t
  have first := h t
  rw [run_tryCatch]
  generalize a.run t = out at first ⊢
  obtain ⟨e | x, u⟩ := out
  · exact first.trans (rescue e u)
  · exact first

theorem Keeps.ite {p : Prop} [Decidable p] {b : FileAction α} (h : Keeps a) (h' : Keeps b) :
    Keeps (if p then a else b) := by
  split
  · exact h
  · exact h'

theorem Keeps.get {f : FileTree → FileAction α} (next : ∀ t, Keeps (f t)) : Keeps (get >>= f) :=
  fun t => next t t

end

theorem run_makeDirectory (path : String) (t : FileTree) :
    (makeDirectory path).run t = (match t.locate path with
      | .error fault => (.error ⟨fault, path⟩, t)
      | .ok place =>
        if (t.find? place).isSome then (.error ⟨.exists, path⟩, t)
        else (.ok (), t.put place .directory) : Except FileError Unit × FileTree) := by
  change (match t.locate path with
    | .error fault => throw ⟨fault, path⟩
    | .ok place =>
      if (t.find? place).isSome then throw ⟨.exists, path⟩
      else set (t.put place .directory) : FileAction Unit).run t = _
  cases t.locate path with
  | error fault => rfl
  | ok place =>
    dsimp only
    split <;> rfl

theorem keeps_makeDirectory (path : String) : Keeps (makeDirectory path) := by
  intro t
  rw [run_makeDirectory]
  split
  · exact .refl t
  · split
    · exact .refl t
    · next fresh => exact wrote_directory (Option.not_isSome_iff_eq_none.1 fresh)

theorem keeps_makeDirectoriesWithin (n : Nat) (path : String) :
    Keeps (makeDirectoriesWithin n path) := by
  induction n generalizing path with
  | zero => exact keeps_pure ()
  | succ n ih =>
    have last : Keeps (tryCatch (makeDirectory path) fun e => do
        let t : FileTree ← get
        if t.isDirectory path then return else throw e) :=
      (keeps_makeDirectory path).tryCatch fun e =>
        .get fun t => .ite (keeps_pure ()) (keeps_throw e)
    rw [makeDirectoriesWithin]
    refine .get fun t => .ite (.bind (.tryCatch (ih _) fun e => ?_) fun _ => ?_) ?_
    · exact .ite (keeps_pure ()) (keeps_throw e)
    · exact .ite (keeps_pure ()) last
    · exact .ite (keeps_pure ()) last

theorem keeps_makeDirectories (path : String) : Keeps (makeDirectories path) :=
  keeps_makeDirectoriesWithin _ path

theorem run_write (path : String) (content : FileContent) (t : FileTree) :
    (write path content).run t = (match t.locate path with
      | .error fault => (.error ⟨fault, path⟩, t)
      | .ok place =>
        if path.endsWith "/" ∨ (t.find? place).any FileNode.isDirectory then
          (.error ⟨.isDirectory, path⟩, t)
        else (.ok (), t.put place (.file content)) : Except FileError Unit × FileTree) := by
  change (match t.locate path with
    | .error fault => throw ⟨fault, path⟩
    | .ok place =>
      if path.endsWith "/" ∨ (t.find? place).any FileNode.isDirectory then
        throw ⟨.isDirectory, path⟩
      else set (t.put place (.file content)) : FileAction Unit).run t = _
  cases t.locate path with
  | error fault => rfl
  | ok place =>
    dsimp only
    split <;> rfl

/-- Writing either fails and changes nothing, or the path leads to the file from then on. -/
theorem wrote_write (path : String) (content : FileContent) (t : FileTree) :
    (∃ e, (write path content).run t = (.error e, t)) ∨
    ∃ u, (write path content).run t = (.ok (), u) ∧ Wrote [(Path.target path, content)] t u ∧
      t.locate path = .ok (Path.target path) ∧ path.endsWith "/" = false := by
  rw [run_write]
  cases located : t.locate path with
  | error fault => exact .inl ⟨_, rfl⟩
  | ok place =>
    dsimp only
    split
    · exact .inl ⟨_, rfl⟩
    · next free =>
      obtain ⟨plain, noDirectory⟩ := not_or.1 free
      obtain rfl := target_of_locate located
      refine .inr ⟨_, rfl, wrote_file ?_ content, rfl, Bool.eq_false_iff.2 plain⟩
      intro there
      simp [there, FileNode.isDirectory] at noDirectory

end FileTree

end ExpressionArt
