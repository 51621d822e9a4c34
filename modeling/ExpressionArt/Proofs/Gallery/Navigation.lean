import ExpressionArt.Proofs.Gallery.Visits

/-!
# Navigation

Whichever moves a gallery made, and whichever of them failed, its running index is the argument of
the last accepted jump, or the start, with the steps since counted up and down. A move sets the
index before it draws, and no visit touches it again. What it draws is read off the new index alone.
-/

namespace ExpressionArt

namespace Move

/-- The argument of a jump that is accepted. -/
def landing? : Move → Option Int
  | .jump v => v.int?
  | _ => none

/-- The index whose picture a move from index `i` sets out to draw, as the new running index. -/
def target? (i : Int) : Move → Option Int
  | .current => some i
  | .next => some (i + 1)
  | .previous => some (i - 1)
  | .jump v => v.int?
  | .render _ => none

/-- The running index after a move from index `i`. -/
def lead (i : Int) (m : Move) : Int := (m.target? i).getD i

theorem target?_eq_none_iff {i : Int} {m : Move} : m.target? i = none ↔
    (∃ v, m = .jump v ∧ v.int? = none) ∨ ∃ v, m = .render v := by
  cases m <;> simp [target?]

def isNext : Move → Bool
  | .next => true
  | _ => false

def isPrevious : Move → Bool
  | .previous => true
  | _ => false

def isRender : Move → Bool
  | .render _ => true
  | _ => false

/-- A move that names no index, or an integer. -/
def Proper : Move → Prop
  | .jump v | .render v => ∃ n, v = .int n
  | _ => True

/-- The argument of the last accepted jump among some moves, with the moves after it. If there is
none, the start with all of them. -/
def Since (start : Int) (moves : List Move) (base : Int) (later : List Move) : Prop :=
  (moves = later ∧ base = start ∨ ∃ before, moves = before ++ .jump (.int base) :: later) ∧
    ∀ m ∈ later, m.landing? = none

theorem Since.snoc {start base : Int} {moves later : List Move} (h : Since start moves base later)
    {m : Move} (stays : m.landing? = none) : Since start (moves ++ [m]) base (later ++ [m]) := by
  obtain ⟨ends, none⟩ := h
  refine ⟨?_, by simpa [or_imp, forall_and] using ⟨none, stays⟩⟩
  obtain ⟨rfl, rfl⟩ | ⟨before, rfl⟩ := ends
  · exact .inl ⟨rfl, rfl⟩
  · exact .inr ⟨before, by simp⟩

/-- Targets reached one after the other lead from the last accepted jump by the steps since. -/
theorem exists_since (start : Int) (moves : List Move) :
    ∃ base later, Since start moves base later ∧
      moves.foldl lead start =
        base + later.countP isNext - later.countP isPrevious := by
  induction moves using List.reverseRecOn with
  | nil => exact ⟨start, [], ⟨.inl ⟨rfl, rfl⟩, nofun⟩, by simp⟩
  | append_singleton moves m ih =>
    obtain ⟨base, later, since, reached⟩ := ih
    rw [List.foldl_append, List.foldl_cons, List.foldl_nil, reached]
    cases landing : m.landing? with
    | none =>
      refine ⟨base, later ++ [m], since.snoc landing, ?_⟩
      rw [List.countP_append, List.countP_append, List.countP_singleton, List.countP_singleton]
      cases m with
      | current => simp [lead, target?, isNext, isPrevious]
      | next => simp [lead, target?, isNext, isPrevious]; omega
      | previous => simp [lead, target?, isNext, isPrevious]; omega
      | jump v =>
        have refused : v.int? = none := landing
        simp [lead, target?, isNext, isPrevious, refused]
      | render v => simp [lead, target?, isNext, isPrevious]
    | some j =>
      cases m with
      | jump v =>
        obtain rfl := Value.int?_eq_some_iff.1 landing
        exact ⟨j, [], ⟨.inr ⟨moves, rfl⟩, nofun⟩, by simp [lead, target?, Value.int?]⟩
      | current => cases landing
      | next => cases landing
      | previous => cases landing
      | render v => cases landing

end Move

namespace Gallery

variable {g : Gallery} {s : GalleryState} {i j : Int} {m : Move}

theorem go_run_of_target (here : s.index = .int i) (target : m.target? i = some j) :
    (g.go m).run s = (g.render (.int j)).run { s with index := .int j } := by
  obtain ⟨index, sinks, lines, files, profile⟩ := s
  obtain rfl : index = .int i := here
  cases m with
  | jump v =>
    obtain rfl := Value.int?_eq_some_iff.1 target
    rfl
  | render v => cases target
  | current => cases target; rfl
  | next => cases target; rfl
  | previous => cases target; rfl

theorem jump_run_refused {v : Value} (refused : v.int? = none) :
    (g.go (.jump v)).run s = (.error (.notInteger v), s) := by
  rw [go, jump, refused]
  rfl

theorem like_render (g : Gallery) (v : Value) (s : GalleryState) :
    s.Like ((g.go (.render v)).run s).2 := by
  cases h : v.int? with
  | none => exact (stays_render_refused h g s).2
  | some n =>
    obtain rfl := Value.int?_eq_some_iff.1 h
    exact (stays_render g n s).2

/-- A move leaves the index at its target, or where it was if it has none. -/
theorem like_go (here : s.index = .int i) (m : Move) :
    GalleryState.Like { s with index := .int (m.lead i) } ((g.go m).run s).2 := by
  cases target : m.target? i with
  | some j =>
    rw [go_run_of_target here target, Move.lead, target]
    exact (stays_render g j _).2
  | none =>
    rw [Move.lead, target]
    obtain ⟨v, rfl, refused⟩ | ⟨v, rfl⟩ := Move.target?_eq_none_iff.1 target
    · rw [jump_run_refused refused]
      exact ⟨here, rfl⟩
    · obtain ⟨index, silent⟩ := like_render g v s
      exact ⟨index.trans here, silent⟩

/-- The state after some moves, whatever became of each. -/
def after (g : Gallery) (moves : List Move) (s : GalleryState) : GalleryState :=
  moves.foldl (fun s m => ((g.go m).run s).2) s

theorem like_after (here : s.index = .int i) (moves : List Move) :
    GalleryState.Like { s with index := .int (moves.foldl Move.lead i) } (g.after moves s) := by
  induction moves generalizing s i with
  | nil => exact ⟨here, rfl⟩
  | cons m moves ih =>
    obtain ⟨index, silent⟩ := like_go (g := g) here m
    obtain ⟨final, silent'⟩ := ih index
    exact ⟨final, silent'.trans silent⟩

/-- A move that draws at all shows the picture of some index. -/
theorem shows_go (here : s.index = .int i) (proper : m.Proper) :
    ∃ j, g.Shows j s.sinks.isEmpty ((g.go m).run s).1 := by
  cases target : m.target? i with
  | some j =>
    rw [go_run_of_target here target]
    exact ⟨j, (stays_render g j { s with index := .int j }).1⟩
  | none =>
    obtain ⟨v, rfl, refused⟩ | ⟨v, rfl⟩ := Move.target?_eq_none_iff.1 target
    · obtain ⟨n, rfl⟩ := proper
      cases refused
    · obtain ⟨n, rfl⟩ := proper
      exact ⟨n, (stays_render g n s).1⟩

theorem proper_of_go {frame : Frame} (returned : ((g.go m).run s).1 = .ok frame) : m.Proper := by
  cases m with
  | jump v =>
    cases named : v.int? with
    | none =>
      rw [jump_run_refused named] at returned
      cases returned
    | some n => exact ⟨n, Value.int?_eq_some_iff.1 named⟩
  | render v =>
    cases named : v.int? with
    | none => cases returned.symm.trans (stays_render_refused named g s).1
    | some n => exact ⟨n, Value.int?_eq_some_iff.1 named⟩
  | current => trivial
  | next => trivial
  | previous => trivial

/-- A frame that a move other than `render` returns is the picture of the new index. -/
theorem frame_of_go (here : s.index = .int i) (moves : m.isRender = false) {frame : Frame}
    {t : GalleryState} (returned : (g.go m).run s = (.ok frame, t)) :
    t.index = .int frame.index ∧
      g.generator.drawSeed frame.index g.size = .ok (frame.expression, frame.picture) := by
  cases target : m.target? i with
  | some j =>
    rw [go_run_of_target here target] at returned
    obtain ⟨shown, index, -⟩ := stays_render g j { s with index := .int j }
    rw [returned] at shown index
    cases shown with
    | frame drawn => exact ⟨index, drawn⟩
  | none =>
    obtain ⟨v, rfl, refused⟩ | ⟨v, rfl⟩ := Move.target?_eq_none_iff.1 target
    · rw [jump_run_refused refused] at returned
      cases returned
    · cases moves

/-- After any moves from an integer, failed ones included, the running index is the argument of the
last accepted jump, or the start, with the steps since. A jump is accepted just for integers and
otherwise changes nothing; drawing the running index or any other moves nothing. Every frame that
comes of another move shows the new index, its decimal text and what the generator draws for it,
whatever the moves before. Over the default grammar a root of vectors is drawn, so that only saving
or telling can fail, and a root of numbers never is. -/
theorem navigation (g : Gallery) (s : GalleryState) (start : Int) (moves : List Move) :
    let t := g.after moves { s with index := .int start }
    (∃ base later, Move.Since start moves base later ∧ t.index =
      .int (base + later.countP Move.isNext - later.countP Move.isPrevious)) ∧
    (∀ n, ((g.go (.jump (.int n))).run t).2.index = .int n ∧
      ∀ v, ((g.go (.jump (.int n))).run t).1 ≠ .error (.notInteger v)) ∧
    (∀ v, v.int? = none → (g.go (.jump v)).run t = (.error (.notInteger v), t)) ∧
    (∀ v, ((g.go (.render v)).run t).2.index = t.index) ∧
    ((g.go .current).run t).2.index = t.index ∧
    (∀ m frame t', m.isRender = false → (g.go m).run t = (.ok frame, t') →
      t'.index = .int frame.index ∧ frame.label = toString frame.index ∧
      g.generator.draw (.int frame.index) (.int g.size.width) (.int g.size.height) =
        .ok (frame.expression, frame.picture)) ∧
    (g.generator.grammar = .default → g.generator.rootType = Vocabulary.vector →
      g.size.width * g.size.height ≤ memoryRoom → ∀ m, m.Proper →
      (∃ frame, ((g.go m).run t).1 = .ok frame) ∨
      (g.outputDir ≠ "" ∧ ∃ e, ((g.go m).run t).1 = .error (.file e)) ∨
      (s.sinks ≠ [] ∧ ∃ e, ((g.go m).run t).1 = .error (.closed e))) ∧
    (g.generator.grammar = .default → g.generator.rootType = Vocabulary.number →
      ∀ m frame, ((g.go m).run t).1 ≠ .ok frame) := by
  intro t
  obtain ⟨base, later, since, reached⟩ := Move.exists_since start moves
  obtain ⟨here, silent⟩ := like_after (g := g) (s := { s with index := .int start }) rfl moves
  change t.index = _ at here
  change t.sinks.isEmpty = s.sinks.isEmpty at silent
  refine ⟨⟨base, later, since, reached ▸ here⟩, fun n => ?_, fun v => jump_run_refused,
    fun v => (like_render g v t).index, ?_, fun m frame t' moves returned => ?_,
    fun grammar root room m proper => ?_, fun grammar root m frame returned => ?_⟩
  · obtain ⟨shown, index, -⟩ := stays_render g n { t with index := .int n }
    rw [go_run_of_target here (m := .jump (.int n)) rfl]
    refine ⟨index, fun v refused => ?_⟩
    rw [refused] at shown
    cases shown
  · exact (like_go here .current).index.trans here.symm
  · obtain ⟨index, drawn⟩ := frame_of_go here moves returned
    exact ⟨index, rfl, (Generator.draw_int frame.index g.size).trans drawn⟩
  · obtain ⟨j, shown⟩ := shows_go (g := g) here proper
    obtain ⟨e, picture, drawn⟩ := g.generator.drawSeed_vector grammar root j room
    generalize ((g.go m).run t).1 = r at shown ⊢
    cases shown with
    | frame _ => exact .inl ⟨_, rfl⟩
    | undrawn undrawn => cases drawn.symm.trans undrawn
    | unsaved e named => exact .inr (.inl ⟨named, e, rfl⟩)
    | unheard e listens =>
      exact .inr (.inr ⟨List.isEmpty_eq_false_iff.1 (silent.symm.trans listens), e, rfl⟩)
  · obtain ⟨j, shown⟩ := shows_go (g := g) here (proper_of_go returned)
    obtain ⟨err, undrawn⟩ := g.generator.drawSeed_number grammar root j g.size
    rw [returned] at shown
    cases shown with
    | frame drawn => cases undrawn.symm.trans drawn

end Gallery

end ExpressionArt
