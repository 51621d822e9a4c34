import ExpressionArt.Proofs.CommandLine.Walks
import ExpressionArt.Proofs.Files.Outlines

/-!
# Runs of the command line

A run whose options hold numbers that make a picture, on a device that is there, shows each of its
indices once: as a picture in a file, as a row of the table, and as a line if expressions are asked
for. All that can go wrong then is a file operation. Options that make no picture end the run before
there is anything to see.
-/

namespace ExpressionArt

/-- The expression of a frame in words, if it has any. -/
def Frame.wording (f : Frame) : String :=
  match f.expression.text with
  | .ok text => text
  | .error _ => ""

namespace Run

variable {o : Options} {now : Moment} {files : FileTree} {seed count width height maxDepth : Int}

/-- Options that hold numbers, and name a device that is there. -/
structure Holds (o : Options) (seed width height maxDepth : Int) : Prop where
  seed : o.seed = .value seed
  width : o.width = .value width
  height : o.height = .value height
  maxDepth : o.maxDepth = .value maxDepth
  device : ∃ name, o.device = .value name ∧ isProcessor name = true

/-- The indices of a run in the order in which they are shown. -/
def indices (o : Options) (seed count : Int) : List Int :=
  (List.range count.toNat).map fun k : Nat => seed + (if o.reverse then -1 else 1) * k

/-! ## Where a run puts its files -/

/-- Where the picture of an index is saved. -/
def imagePath (o : Options) (now : Moment) (i : Int) : String :=
  Path.join (imageDirectory o now) s!"{i}.png"

/-- Makes an empty file, with the directories above it. -/
def touch (path : String) : FileAction Unit := do
  let dir := Path.directory path
  if dir ≠ "" then FileTree.makeDirectories dir
  FileTree.write path (.text "")

/-- The file operations of a run that shows some indices, with nothing to write. -/
def filing (o : Options) (now : Moment) (indices : List Int) : FileAction Unit := do
  FileTree.makeDirectories (logDirectory o now)
  FileTree.write (csvPath o now) (.text "")
  forM indices fun i => touch (imagePath o now i)
  FileTree.write (csvPath o now) (.text "")

theorem similar_touch (f : Frame) (path : String) :
    FileTree.Similar (touch path) (f.save path) := by
  have write := FileTree.similar_write path (.text "") (.picture f.picture)
  exact .ite .rfl (.bind (FileTree.similar_makeDirectories _) fun _ => write) write

theorem similar_forM (g : Gallery) (frames : List Frame) :
    FileTree.Similar (forM (frames.map (·.index)) fun i => touch (g.framePath i))
      (g.saveAll frames) := by
  induction frames with
  | nil => exact FileTree.similar_pure ()
  | cons f frames ih =>
    rw [List.map_cons, List.forM_cons, Gallery.saveAll, List.forM_cons]
    exact .bind (similar_touch f _) fun _ => ih

theorem imagePath_eq {g : Gallery} (dir : g.outputDir = imageDirectory o now) (i : Int) :
    imagePath o now i = g.framePath i := by
  rw [imagePath, ← dir]
  rfl

/-- If a run can make its files with nothing to write, it can make them with any content. -/
theorem filing_run {g : Gallery} (dir : g.outputDir = imageDirectory o now) {frames : List Frame}
    (filed : ((filing o now (frames.map (·.index))).run files).1 = .ok ()) :
    ∃ made opened saved,
      (FileTree.makeDirectories (logDirectory o now)).run files = (.ok (), made) ∧
      (FileTree.write (csvPath o now) (.text (Csv.table [renderColumns]))).run made =
        (.ok (), opened) ∧
      (g.saveAll frames).run opened = (.ok (), saved) ∧
      ∀ table, ∃ written,
        (FileTree.write (csvPath o now) (.text table)).run saved = (.ok (), written) := by
  let header : FileContent := .text (Csv.table [renderColumns])
  have path := imagePath_eq dir
  have real : FileTree.Similar (filing o now (frames.map (·.index))) (do
      FileTree.makeDirectories (logDirectory o now)
      FileTree.write (csvPath o now) header
      g.saveAll frames
      FileTree.write (csvPath o now) (.text "")) := by
    refine .bind (FileTree.similar_makeDirectories _) fun _ =>
      .bind (FileTree.similar_write _ _ _) fun _ => .bind ?_ fun _ => FileTree.similar_write _ _ _
    simp only [path]
    exact similar_forM g frames
  rw [(real files files rfl).1] at filed
  obtain ⟨_, made, run₁, filed⟩ := run_bind_eq_ok filed
  obtain ⟨_, opened, run₂, filed⟩ := run_bind_eq_ok filed
  obtain ⟨_, saved, run₃, filed⟩ := run_bind_eq_ok filed
  refine ⟨made, opened, saved, run₁, run₂, run₃, fun table => ⟨_, Prod.ext ?_ rfl⟩⟩
  rw [← filed]
  exact (FileTree.similar_write _ _ _ saved saved rfl).1

/-! ## What a run shows -/

theorem ofValues_eq (w : 1 ≤ width) (h : 1 ≤ height) :
    ∃ size : Size, Size.ofValues (.int width) (.int height) = .ok size ∧ size.width = width ∧
      size.height = height := by
  refine ⟨⟨width.toNat, height.toNat, by omega, by omega⟩, ?_, by simp; omega, by simp; omega⟩
  have w' : 0 < width := w
  have h' : 0 < height := h
  simp [Size.ofValues, Size.sideOf, Value.int?, w', h']

end Run

end ExpressionArt
