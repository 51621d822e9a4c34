import ExpressionArt.Proofs.Events.Sinks
import ExpressionArt.Proofs.Files.Writes
import ExpressionArt.Proofs.Gallery.Navigation

/-!
# Frames, files and events agree

A visit returns a frame, saves it and tells of it. All three are read off the same index, and a
visit that fails has neither left a file nor told of one. So after any moves the files and the
events are those of the frames that were returned.
-/

namespace ExpressionArt

/-- A picture has the size that was asked for. -/
theorem Generator.size_of_drawSeed {g : Generator} {seed : Int} {size : Size}
    {e : Expr (Option Operation)} {picture : Picture}
    (h : g.drawSeed seed size = .ok (e, picture)) :
    picture.width = size.width ∧ picture.height = size.height := by
  obtain ⟨e', -, h⟩ := bind_eq_ok.1 h
  obtain ⟨picture', painted, h⟩ := bind_eq_ok.1 h
  obtain ⟨-, rfl⟩ := Prod.mk.inj (Except.ok.inj h)
  obtain ⟨_, -, rendered⟩ := bind_eq_ok.1 (mapError_eq_ok.1 painted)
  obtain ⟨channels, -, laid⟩ := bind_eq_ok.1 rendered
  obtain ⟨_, -, laid⟩ := bind_eq_ok.1 (mapError_eq_ok.1 laid)
  obtain ⟨_, -, laid⟩ := bind_eq_ok.1 laid
  obtain ⟨_, -, laid⟩ := bind_eq_ok.1 laid
  obtain ⟨_, -, laid⟩ := bind_eq_ok.1 laid
  exact Except.ok.inj laid ▸ ⟨rfl, rfl⟩

/-! ## Frames that are saved -/

theorem Frame.save_run (f : Frame) (path : String) (t : FileTree) :
    (∃ e u, (f.save path).run t = (.error e, u) ∧ FileTree.Wrote [] t u) ∨
    ∃ u, (f.save path).run t = (.ok (), u) ∧
      FileTree.Wrote [(Path.target path, .picture f.picture)] t u ∧
      u.locate path = .ok (Path.target path) ∧ path.endsWith "/" = false := by
  have written (t : FileTree) := FileTree.wrote_write path (.picture f.picture) t
  rw [save]
  dsimp only
  split
  · have made := FileTree.keeps_makeDirectories (Path.directory path) t
    rw [run_bind]
    generalize (FileTree.makeDirectories (Path.directory path)).run t = out at made ⊢
    obtain ⟨e | a, u⟩ := out
    · exact .inl ⟨e, u, rfl, made⟩
    · obtain ⟨e, failed⟩ | ⟨v, done, wrote, leads, plain⟩ := written u
      · exact .inl ⟨e, u, failed, made⟩
      · exact .inr ⟨v, done, made.trans wrote, wrote.locate leads, plain⟩
  · obtain ⟨e, failed⟩ | ⟨u, done, wrote, leads, plain⟩ := written t
    · exact .inl ⟨e, t, failed, .refl t⟩
    · exact .inr ⟨u, done, wrote, wrote.locate leads, plain⟩

namespace Gallery

variable {g : Gallery} {s t : GalleryState} {i : Int} {f : Frame}

/-- Saves a frame, if frames are saved. -/
def stored (g : Gallery) (f : Frame) : FileAction (Option String) :=
  if g.outputDir = "" then return none
  else do
    f.save (g.framePath f.index)
    return some (g.framePath f.index)

theorem keep_run (g : Gallery) (f : Frame) (s : GalleryState) :
    (g.keep f).run s = (((g.stored f).run s.files).1.mapError .file,
      { s with files := ((g.stored f).run s.files).2 }) := by
  unfold keep stored
  split
  · rfl
  · rw [run_bind, run_bind, filing_run]
    rcases (f.save (g.framePath f.index)).run s.files with ⟨e | a, files⟩ <;> rfl

/-- An event of a frame reaches every sink. -/
theorem report_run (opened : ∀ sink ∈ s.sinks, sink.IsOpen) {text : String}
    (worded : f.expression.text = .ok text) (path : Option String) :
    (g.report f path).run s = (.ok (), { s with
      sinks := s.sinks.map (·.told g.surroundings (g.event f text path))
      lines := s.lines ++ s.sinks.flatMap (·.printed g.surroundings (g.event f text path)) }) := by
  rw [report, run_get_bind, worded]
  split
  · next silent =>
    obtain ⟨index, sinks, lines, files, profile⟩ := s
    obtain rfl : sinks = [] := List.isEmpty_iff.1 silent
    simp
    rfl
  · rw [announce_run, deliver_eq _ _ opened]

/-- The state once the picture of an index is drawn, or was found not to be drawn. -/
def drawn (g : Gallery) (i : Int) (s : GalleryState) : GalleryState :=
  { s with profile := ((g.generator.drawSeedTimed i g.size).run s.profile).2 }

/-- The state once a frame is told of, and saved in these files. -/
def shown (g : Gallery) (f : Frame) (text : String) (path : Option String) (files : FileTree)
    (s : GalleryState) : GalleryState :=
  { s with
    files
    sinks := s.sinks.map (·.told g.surroundings (g.event f text path))
    lines := s.lines ++ s.sinks.flatMap (·.printed g.surroundings (g.event f text path)) }

theorem drawing_seed_run (g : Gallery) (i : Int) (s : GalleryState) :
    (drawing (g.generator.drawSeedTimed i g.size)).run s =
      ((g.generator.drawSeed i g.size).mapError .draw, g.drawn i s) := by
  rw [drawing_run, g.generator.drawSeedTimed_yields]
  rfl

theorem render_run_undrawn {e : DrawError} (undrawn : g.generator.drawSeed i g.size = .error e) :
    (g.render (.int i)).run s = (.error (.draw e), g.drawn i s) := by
  have named : (drawing (untimed ((seedOf (.int i)).mapError .seed))).run s = (.ok i, s) := rfl
  rw [render, run_bind, named]
  dsimp only
  rw [run_bind, drawing_seed_run, undrawn]
  rfl

/-- What is drawn is saved, and then told of. -/
theorem render_run_drawn {e : Expr (Option Operation)} {picture : Picture} {text : String}
    (drawn : g.generator.drawSeed i g.size = .ok (e, picture)) (worded : e.text = .ok text)
    (opened : ∀ sink ∈ s.sinks, sink.IsOpen) :
    (g.render (.int i)).run s = match (g.stored ⟨i, picture, e⟩).run s.files with
      | (.ok path, files) =>
        (.ok ⟨i, picture, e⟩, g.shown ⟨i, picture, e⟩ text path files (g.drawn i s))
      | (.error e, files) => (.error (.file e), { g.drawn i s with files }) := by
  have named : (drawing (untimed ((seedOf (.int i)).mapError .seed))).run s = (.ok i, s) := rfl
  rw [render, run_bind, named]
  dsimp only
  rw [run_bind, drawing_seed_run, drawn]
  change ((g.keep ⟨i, picture, e⟩ >>= fun path => _) : Visit Frame).run (g.drawn i s) = _
  rw [run_bind, keep_run]
  have same : (g.drawn i s).files = s.files := rfl
  rw [same]
  rcases (g.stored ⟨i, picture, e⟩).run s.files with ⟨err | path, files⟩
  · rfl
  · have told := report_run (g := g) (f := ⟨i, picture, e⟩) (s := { g.drawn i s with files })
      opened worded path
    change ((g.report ⟨i, picture, e⟩ path >>= fun _ => pure _) : Visit Frame).run
      { g.drawn i s with files } = _
    rw [run_bind, told]
    rfl

/-- An index that is no integer is refused before anything else. -/
theorem render_run_refused {v : Value} (refused : v.int? = none) :
    (g.render v).run s = (.error (.draw (.seed (.notInteger v))), s) := by
  have named : (drawing (untimed ((seedOf v).mapError .seed))).run s =
      (.error (.draw (.seed (.notInteger v))), s) := by
    rw [seedOf, refused]
    rfl
  rw [render, run_bind, named]

/-! ## What visits leave -/

/-- Where the picture of an index is said to be. -/
def imagePath? (g : Gallery) (i : Int) : Option String :=
  if g.outputDir = "" then none else some (g.framePath i)

/-- An event tells of a frame. -/
structure Tells (g : Gallery) (f : Frame) (e : Event) : Prop where
  type : e.type = "render"
  seed : e.data.lookup "seed" = some (.int f.index)
  label : e.data.lookup "label" = some (.text (toString f.index))
  width : e.data.lookup "width" = some (.int f.picture.width)
  height : e.data.lookup "height" = some (.int f.picture.height)
  depth : e.data.lookup "depth" = some (.int f.expression.depth)
  nodeCount : e.data.lookup "node_count" = some (.int f.expression.size)
  expression : ∃ text, f.expression.text = .ok text ∧
    e.data.lookup "expression" = some (.text text)
  imagePath : e.data.lookup "image_path" = some (((g.imagePath? f.index).map .text).getD .absent)

/-- The file that a saved frame leaves. -/
def saved (g : Gallery) (f : Frame) : List (Place × FileContent) :=
  if g.outputDir = "" then [] else [(Path.target (g.framePath f.index), .picture f.picture)]

/-- What visits leave that returned some frames: an event for each, and a file if frames are
saved. -/
structure Leaves (g : Gallery) (frames : List Frame) (s t : GalleryState) : Prop where
  drawn : ∀ f ∈ frames, g.generator.drawSeed f.index g.size = .ok (f.expression, f.picture)
  told : ∃ events, List.Forall₂ g.Tells frames events ∧
    t.sinks = Sink.toldAll g.surroundings events s.sinks
  wrote : FileTree.Wrote (frames.flatMap g.saved) s.files t.files
  unsaved : g.outputDir = "" → t.files = s.files
  leads : g.outputDir ≠ "" → ∀ f ∈ frames,
    t.files.locate (g.framePath f.index) = .ok (Path.target (g.framePath f.index)) ∧
    (g.framePath f.index).endsWith "/" = false

theorem Leaves.nothing (sinks : t.sinks = s.sinks) (wrote : FileTree.Wrote [] s.files t.files)
    (unsaved : g.outputDir = "" → t.files = s.files) : g.Leaves [] s t :=
  ⟨nofun, ⟨[], .nil, sinks⟩, wrote, unsaved, nofun⟩

theorem Leaves.trans {u : GalleryState} {frames more : List Frame} (h : g.Leaves frames s t)
    (h' : g.Leaves more t u) : g.Leaves (frames ++ more) s u := by
  obtain ⟨events, tells, sinks⟩ := h.told
  obtain ⟨events', tells', sinks'⟩ := h'.told
  refine ⟨?_, ⟨events ++ events', List.rel_append tells tells', ?_⟩, ?_, fun none => ?_,
    fun named => ?_⟩
  · exact List.forall_mem_append.2 ⟨h.drawn, h'.drawn⟩
  · rw [sinks', sinks, Sink.toldAll, Sink.toldAll, ← List.foldl_append]
    rfl
  · rw [List.flatMap_append]
    exact h.wrote.trans h'.wrote
  · exact (h'.unsaved none).trans (h.unsaved none)
  · refine List.forall_mem_append.2 ⟨fun f member => ?_, h'.leads named⟩
    obtain ⟨leads, plain⟩ := h.leads named f member
    exact ⟨h'.wrote.locate leads, plain⟩

/-- The frame that was returned, if any was. -/
def returned : Except GalleryError Frame → List Frame
  | .ok f => [f]
  | .error _ => []

/-- Storing a frame fails or leaves its file. -/
theorem stored_run (g : Gallery) (f : Frame) (t : FileTree) :
    (∃ e u, (g.stored f).run t = (.error e, u) ∧ FileTree.Wrote [] t u ∧ g.outputDir ≠ "") ∨
    ∃ u, (g.stored f).run t = (.ok (g.imagePath? f.index), u) ∧ FileTree.Wrote (g.saved f) t u ∧
      (g.outputDir = "" → u = t) ∧
      (g.outputDir ≠ "" → u.locate (g.framePath f.index) = .ok (Path.target (g.framePath f.index)) ∧
        (g.framePath f.index).endsWith "/" = false) := by
  rw [stored, imagePath?, saved]
  by_cases none : g.outputDir = ""
  · simp only [none, if_true]
    exact .inr ⟨t, rfl, .refl t, fun _ => rfl, fun named => absurd rfl named⟩
  · simp only [none, if_false]
    rw [run_bind]
    obtain ⟨e, u, failed, kept⟩ | ⟨u, done, wrote, leads⟩ := f.save_run (g.framePath f.index) t
    · rw [failed]
      exact .inl ⟨e, u, rfl, kept, none⟩
    · rw [done]
      exact .inr ⟨u, rfl, wrote, nofun, fun _ => leads⟩

theorem tells_event {text : String} (worded : f.expression.text = .ok text)
    (width : f.picture.width = g.size.width) (height : f.picture.height = g.size.height) :
    g.Tells f (g.event f text (g.imagePath? f.index)) := by
  refine ⟨rfl, rfl, rfl, ?_, ?_, rfl, rfl, ⟨text, worded, rfl⟩, rfl⟩
  · rw [width]
    rfl
  · rw [height]
    rfl

theorem leaves_render (opened : ∀ sink ∈ s.sinks, sink.IsOpen) (i : Int) :
    g.Leaves (returned ((g.render (.int i)).run s).1) s ((g.render (.int i)).run s).2 := by
  cases draws : g.generator.drawSeed i g.size with
  | error e =>
    rw [render_run_undrawn draws]
    exact .nothing rfl (.refl s.files) fun _ => rfl
  | ok pair =>
    obtain ⟨e, picture⟩ := pair
    obtain ⟨text, worded⟩ := Generator.text_of_drawSeed draws
    obtain ⟨width, height⟩ := Generator.size_of_drawSeed draws
    rw [render_run_drawn draws worded opened]
    obtain ⟨err, files, failed, kept, named⟩ | ⟨files, done, wrote, unsaved, leads⟩ :=
      g.stored_run ⟨i, picture, e⟩ s.files
    · rw [failed]
      exact .nothing rfl kept fun none => absurd none named
    · rw [done]
      refine ⟨?_, ⟨[_], .cons (tells_event worded width height) .nil, rfl⟩, ?_, unsaved, ?_⟩
      · exact List.forall_mem_singleton.2 draws
      · rw [returned, List.flatMap_singleton]
        exact wrote
      · exact fun named => List.forall_mem_singleton.2 (leads named)

theorem leaves_go (here : s.index = .int i) (opened : ∀ sink ∈ s.sinks, sink.IsOpen) (m : Move) :
    g.Leaves (returned ((g.go m).run s).1) s ((g.go m).run s).2 := by
  cases target : m.target? i with
  | some j =>
    rw [go_run_of_target here target]
    obtain ⟨drawn, told, wrote, unsaved, leads⟩ := leaves_render (g := g)
      (s := { s with index := .int j }) opened j
    exact ⟨drawn, told, wrote, unsaved, leads⟩
  | none =>
    obtain ⟨v, rfl, refused⟩ | ⟨v, rfl⟩ := Move.target?_eq_none_iff.1 target
    · rw [jump_run_refused refused]
      exact .nothing rfl (.refl s.files) fun _ => rfl
    · cases named : v.int? with
      | none =>
        rw [go, render_run_refused named]
        exact .nothing rfl (.refl s.files) fun _ => rfl
      | some n =>
        obtain rfl := Value.int?_eq_some_iff.1 named
        exact leaves_render opened n

/-- What some moves return, one after the other. -/
def results (g : Gallery) : List Move → GalleryState → List (Except GalleryError Frame)
  | [], _ => []
  | m :: moves, s => ((g.go m).run s).1 :: g.results moves ((g.go m).run s).2

/-- The frames among the results of some moves. -/
def frames (g : Gallery) (moves : List Move) (s : GalleryState) : List Frame :=
  (g.results moves s).flatMap returned

theorem leaves_after (here : s.index = .int i) (opened : ∀ sink ∈ s.sinks, sink.IsOpen)
    (moves : List Move) : g.Leaves (g.frames moves s) s (g.after moves s) := by
  induction moves generalizing s i with
  | nil => exact .nothing rfl (.refl s.files) fun _ => rfl
  | cons m moves ih =>
    have first := leaves_go (g := g) here opened m
    obtain ⟨events, -, sinks⟩ := first.told
    have still := Sink.open_toldAll (w := g.surroundings) opened events
    rw [← sinks] at still
    have rest := ih (like_go here m).index still
    rw [frames, results, List.flatMap_cons]
    exact first.trans rest

theorem mem_saved (named : g.outputDir ≠ "") {frames : List Frame} {place : Place}
    {content : FileContent} : (place, content) ∈ frames.flatMap g.saved ↔
      ∃ f ∈ frames, place = Path.target (g.framePath f.index) ∧ content = .picture f.picture := by
  simp [saved, named]

/-- Different indices have different places. -/
theorem target_framePath_inj {j : Int} :
    Path.target (g.framePath i) = Path.target (g.framePath j) ↔ i = j := by
  change Path.target (Path.join g.outputDir (Path.pictureName i)) =
    Path.target (Path.join g.outputDir (Path.pictureName j)) ↔ i = j
  rw [Path.target_join_inj (Path.isName_pictureName i) (Path.isName_pictureName j),
    Path.pictureName_inj]

/-- A saved frame stays in its file, however often its index is visited. -/
theorem Leaves.file? {frames : List Frame} (h : g.Leaves frames s t) (named : g.outputDir ≠ "")
    (member : f ∈ frames) :
    t.files.file? (Path.target (g.framePath f.index)) = some (.picture f.picture) := by
  rw [h.wrote.files, Lookup.lookup_eq_some (v := .picture f.picture), Option.some_or]
  · exact List.mem_reverse.2 ((mem_saved named).2 ⟨f, member, rfl, rfl⟩)
  · intro content again
    obtain ⟨f', member', place, rfl⟩ := (mem_saved named).1 (List.mem_reverse.1 again)
    have drawn := h.drawn f member
    rw [target_framePath_inj.1 place, h.drawn f' member'] at drawn
    have same := congrArg Prod.snd (Except.ok.inj drawn)
    exact congrArg FileContent.picture same

theorem Leaves.node? {frames : List Frame} (h : g.Leaves frames s t) (named : g.outputDir ≠ "")
    (member : f ∈ frames) :
    t.files.node? (g.framePath f.index) = some (.file (.picture f.picture)) := by
  obtain ⟨leads, plain⟩ := h.leads named f member
  exact FileTree.node?_of_file? leads plain (h.file? named member)

theorem Leaves.others {frames : List Frame} (h : g.Leaves frames s t) (named : g.outputDir ≠ "")
    {place : Place} (other : ∀ f ∈ frames, place ≠ Path.target (g.framePath f.index)) :
    t.files.file? place = s.files.file? place := by
  have none : (frames.flatMap g.saved).reverse.lookup place = none := by
    rw [List.lookup_eq_none_iff]
    rintro ⟨place', content⟩ member
    obtain ⟨f, returned, rfl, -⟩ := (mem_saved named).1 (List.mem_reverse.1 member)
    simpa using other f returned
  rw [h.wrote.files, none, Option.none_or]

/-- After any moves from an integer, failed ones included, what a recorder holds and what files are
there agrees with the frames that were returned.

* Each frame shows what the generator draws for its index.
* The recorder has one more event for each frame, in order, and none for a move that failed; it
  tells of the index, the size, the tree and the path of the frame.
* If there is a directory for frames, each frame can be read at its path, which is that of the
  directory with the index behind it, no two indices share a place, and no other file has changed.
  If there is none, no frame has a path and no file has changed. -/
theorem outputs_match_frames (g : Gallery) (s : GalleryState) (start : Int) (entries : List Entry)
    (moves : List Move) :
    let s := { s with index := .int start, sinks := [.recorder entries] }
    let frames := g.frames moves s
    let t := g.after moves s
    (∀ f ∈ frames, g.generator.draw (.int f.index) (.int g.size.width) (.int g.size.height) =
      .ok (f.expression, f.picture)) ∧
    (∃ events, t.sinks = [.recorder (entries ++ events.map .event)] ∧
      List.Forall₂ g.Tells frames events) ∧
    (g.outputDir ≠ "" →
      (∀ f ∈ frames, t.files.node? (g.framePath f.index) = some (.file (.picture f.picture))) ∧
      (∀ place, (∀ f ∈ frames, place ≠ Path.target (g.framePath f.index)) →
        t.files.file? place = s.files.file? place) ∧
      (∀ i : Int, g.imagePath? i = some (g.framePath i) ∧
        Path.target (g.framePath i) = Path.target g.outputDir ++ [s!"{i}.png"] ∧
        g.framePath i =
          g.outputDir ++ (if g.outputDir.endsWith "/" then "" else "/") ++ s!"{i}.png") ∧
      ∀ i j, Path.target (g.framePath i) = Path.target (g.framePath j) ↔ i = j) ∧
    (g.outputDir = "" → t.files = s.files ∧ ∀ i, g.imagePath? i = none) := by
  intro s frames t
  have opened : ∀ sink ∈ s.sinks, sink.IsOpen := List.forall_mem_singleton.2 trivial
  have leaves := leaves_after (g := g) (s := s) (i := start) rfl opened moves
  obtain ⟨events, tells, sinks⟩ := leaves.told
  refine ⟨fun f member => ?_, ⟨events, ?_, tells⟩, fun named => ⟨?_, ?_, fun i => ⟨?_, ?_, ?_⟩, ?_⟩,
    fun none => ⟨leaves.unsaved none, fun i => if_pos none⟩⟩
  · exact (Generator.draw_int f.index g.size).trans (leaves.drawn f member)
  · exact sinks.trans (Sink.toldAll_recorder _ _ _)
  · exact fun f member => leaves.node? named member
  · exact fun place other => leaves.others named other
  · exact if_neg named
  · exact Path.target_join (Path.isName_pictureName i)
  · exact Path.join_of_ne named (Path.isName_pictureName i)
  · exact fun i j => target_framePath_inj

end Gallery

end ExpressionArt
