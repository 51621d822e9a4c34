import ExpressionArt.Proofs.Picture.Rendering
import ExpressionArt.Proofs.Synthesis.Soundness
import ExpressionArt.Proofs.Vocabulary.Wording

/-!
# Every seed draws

A generator over the default grammar never fails to grow an expression, nor to put it into words.
A root of vectors is then painted, at any size, and a root of numbers is refused by the picture.
-/

namespace ExpressionArt

theorem Size.ofValues_eq (size : Size) :
    ofValues (.int size.width) (.int size.height) = .ok size := by
  simp [ofValues, sideOf, Value.int?, size.width_pos, size.height_pos]

/-- Samplers of the vocabulary return as many parameters as their nodes carry. -/
theorem Vocabulary.known_of_sampled {σ : Type} [RandomSource σ] {node : Node (Option Operation)}
    {t u : σ} (listed : node.production ∈ productions)
    (sampled : node.production.sampler.run.runOn t = (.ok node.params, u)) : Known node := by
  refine ⟨listed, ?_⟩
  obtain ⟨sampler, count⟩ | ⟨sampler, count⟩ := sampler_of_mem listed
  · rw [sampler, Sampler.nothing, Sampler.run] at sampled
    obtain ⟨params, -⟩ := Drawing.runOn_pure_eq.1 sampled
    rw [count, ← params]
    rfl
  · rw [sampler, Sampler.constant, Sampler.run] at sampled
    obtain ⟨d, v, -, rest⟩ := Drawing.runOn_bind_eq.1 sampled
    obtain ⟨params, -⟩ := Drawing.runOn_pure_eq.1 rest
    rw [count, ← params]
    rfl

namespace Generator

variable {g : Generator}

/-- Every seed grows a typed expression that fits the generator. -/
theorem grow_total (vocabulary : g.grammar = .default) (seed : Int) :
    ∃ e, g.grow seed = .ok e ∧ e.type = g.rootType ∧ e.WellTyped ∧ e.All Vocabulary.Known ∧
      e.depth ≤ g.maxDepth := by
  obtain ⟨required, least, enough⟩ := g.fits
  have few : g.grammar.productions.length ≤ Lehmer.maxOptions := by
    rw [vocabulary, Grammar.default_productions]
    decide
  obtain ⟨e, s', h⟩ := Grammar.synthesize_total least enough few (Lehmer.supplies (.ofSeed seed))
  obtain ⟨grown, depth⟩ := Grammar.grown_of_synthesize least enough h
  refine ⟨e, congrArg Prod.fst h, grown.type_eq, grown.wellTyped, ?_, depth⟩
  have listed := grown.listed
  rw [vocabulary, Grammar.default_productions] at listed
  exact (listed.and grown.drawn.all).mono fun node ⟨listed, _, _, sampled⟩ =>
    Vocabulary.known_of_sampled listed sampled

theorem make_eq_ok {grammar : Grammar (Option Operation)} {type : String} {maxDepth : Int}
    {required : Nat} (epsilon : Float) (least : grammar.minDepth type = .ok required)
    (enough : required ≤ maxDepth) : ∃ g, make grammar type maxDepth epsilon = .ok g ∧
      g.grammar = grammar ∧ g.rootType = type ∧ g.maxDepth = maxDepth ∧ g.epsilon = epsilon := by
  refine ⟨⟨grammar, type, maxDepth, epsilon, required, least, enough⟩, ?_, rfl, rfl, rfl, rfl⟩
  unfold make
  split
  · next h => cases least.symm.trans h
  · next h =>
    cases least.symm.trans h
    rw [dif_pos enough]

theorem make_eq_error {grammar : Grammar (Option Operation)} {type : String} {maxDepth : Int}
    {required : Nat} (epsilon : Float) (least : grammar.minDepth type = .ok required)
    (small : maxDepth < required) :
    make grammar type maxDepth epsilon = .error (.budgetTooSmall maxDepth type required) := by
  unfold make
  split
  · next h => cases least.symm.trans h
  · next h =>
    cases least.symm.trans h
    rw [dif_neg (Int.not_le.2 small)]

/-- What grows from a seed is put into words and handed on. -/
theorem synthesize_total (vocabulary : g.grammar = .default) (seed : Int) :
    ∃ e, g.synthesize seed = .ok e ∧ e.type = g.rootType ∧ e.WellTyped ∧
      e.All Vocabulary.Known ∧ e.depth ≤ g.maxDepth := by
  obtain ⟨e, grown, type, typed, known, depth⟩ := grow_total vocabulary seed
  obtain ⟨s, text⟩ := Expr.textWith_total floatText typed known
  refine ⟨e, ?_, type, typed, known, depth⟩
  rw [synthesize, grown]
  change worded e = _
  rw [worded, Expr.text, text]
  rfl

theorem draw_int (seed : Int) (size : Size) :
    g.draw (.int seed) (.int size.width) (.int size.height) = g.drawSeed seed size := by
  simp only [draw, Size.ofValues_eq, Except.mapError, ok_bind, seedOf, Value.int?]

theorem paint_eq_render (e : Expr (Option Operation)) {size : Size}
    (room : size.width * size.height ≤ memoryRoom) :
    g.paint e size = Picture.render e.compile.callGrid size g.epsilon :=
  Picture.renderHeld_eq_render _ _ _ room

theorem drawSeed_eq {seed : Int} {e : Expr (Option Operation)} (h : g.synthesize seed = .ok e)
    (size : Size) :
    g.drawSeed seed size = ((g.paint e size).mapError .render).map (e, ·) := by
  rw [drawSeed, h, ok_bind]
  generalize g.paint e size = painted
  cases painted <;> rfl

/-- With room for the grid, a drawing is the expression of the seed and its picture, or the error of
the picture. -/
theorem draw_eq {seed : Int} {e : Expr (Option Operation)} (h : g.synthesize seed = .ok e)
    {size : Size} (room : size.width * size.height ≤ memoryRoom) :
    g.draw (.int seed) (.int size.width) (.int size.height) =
      ((Picture.render e.compile.callGrid size g.epsilon).mapError .render).map (e, ·) := by
  rw [draw_int, drawSeed_eq h, paint_eq_render e room]

theorem drawSeed_vector (vocabulary : g.grammar = .default) (root : g.rootType = Vocabulary.vector)
    (seed : Int) {size : Size} (room : size.width * size.height ≤ memoryRoom) :
    ∃ e picture, g.drawSeed seed size = .ok (e, picture) := by
  obtain ⟨e, synthesized, type, typed, known, -⟩ := synthesize_total vocabulary seed
  obtain ⟨v, hv⟩ := (Expr.valued (α := Float) typed known).2 (type.trans root)
  obtain ⟨picture, rendered, -⟩ := Picture.render_vector_bytes hv size g.epsilon
  refine ⟨e, picture, ?_⟩
  rw [drawSeed_eq synthesized, paint_eq_render e room, rendered]
  rfl

/-- A root of numbers is not drawn, whether or not memory holds the grid. -/
theorem drawSeed_number (vocabulary : g.grammar = .default) (root : g.rootType = Vocabulary.number)
    (seed : Int) (size : Size) : ∃ err, g.drawSeed seed size = .error err := by
  obtain ⟨e, synthesized, type, typed, known, -⟩ := synthesize_total vocabulary seed
  obtain ⟨f, hf⟩ := (Expr.valued (α := Float) typed known).1 (type.trans root)
  have refused := Picture.render_number hf size g.epsilon
  rw [drawSeed_eq synthesized, paint, Picture.renderHeld, refused]
  generalize sides size.width size.height = held
  cases held <;> exact ⟨_, rfl⟩

/-- Over the default grammar, whatever the seed, the size and the shift: a vector root that fits is
drawn, every last byte of a pixel opaque, and a number root is refused by the picture alone. -/
theorem draw_default (seed maxDepth : Int) (size : Size) (epsilon : Float) :
    (2 ≤ maxDepth → ∃ g e picture, make .default Vocabulary.vector maxDepth epsilon = .ok g ∧
      g.synthesize seed = .ok e ∧ Picture.render e.compile.callGrid size epsilon = .ok picture ∧
      (size.width * size.height ≤ memoryRoom →
        g.draw (.int seed) (.int size.width) (.int size.height) = .ok (e, picture)) ∧
      e.type = Vocabulary.vector ∧ e.depth ≤ maxDepth ∧
      picture.bytes.size = 4 * size.width * size.height ∧
      ∀ i, i < picture.bytes.size → i % 4 = 3 → picture.bytes[i]? = some 255) ∧
    (1 ≤ maxDepth → ∃ g e err, make .default Vocabulary.number maxDepth epsilon = .ok g ∧
      g.synthesize seed = .ok e ∧ Picture.render e.compile.callGrid size epsilon = .error err ∧
      (size.width * size.height ≤ memoryRoom →
        g.draw (.int seed) (.int size.width) (.int size.height) = .error (.render err)) ∧
      (DrawError.render err).message = "Expected 3 color channels, got a single tensor of shape " ++
        s!"({size.height}, {size.width})") := by
  constructor
  · intro enough
    obtain ⟨g, made, grammar, root, depth, shift⟩ := make_eq_ok epsilon default_minDepth enough
    obtain ⟨e, synthesized, type, typed, known, within⟩ := synthesize_total grammar seed
    rw [root] at type
    obtain ⟨v, hv⟩ := (Expr.valued (α := Float) typed known).2 type
    obtain ⟨picture, rendered, length, alpha⟩ := Picture.render_vector_bytes hv size epsilon
    refine ⟨g, e, picture, made, synthesized, rendered, fun room => ?_, type, depth ▸ within,
      length, alpha⟩
    rw [draw_eq synthesized room, shift, rendered]
    rfl
  · intro enough
    obtain ⟨g, made, grammar, root, depth, shift⟩ :=
      make_eq_ok epsilon Grammar.default_minDepth_number enough
    obtain ⟨e, synthesized, type, typed, known, within⟩ := synthesize_total grammar seed
    rw [root] at type
    obtain ⟨f, hf⟩ := (Expr.valued (α := Float) typed known).1 type
    have refused := Picture.render_number hf size epsilon
    refine ⟨g, e, _, made, synthesized, refused, fun room => ?_, ?_⟩
    · rw [draw_eq synthesized room, shift, refused]
      rfl
    · exact Picture.singleTensor_message size.height size.width

end Generator

end ExpressionArt
