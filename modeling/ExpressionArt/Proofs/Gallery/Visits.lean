import ExpressionArt.Gallery
import ExpressionArt.Proofs.Generator
import ExpressionArt.Proofs.Timing.Stages

/-!
# Visits

What drawing the picture of an index comes to, and what it leaves alone. Drawing, saving a frame and
telling of it change the profile, the files and the sinks, but neither the running index nor whether
anyone listens. The frame is read off the generator and the index; only the saving and the telling
may add a failure.
-/

namespace ExpressionArt

/-- Two states that agree on the running index and on whether anyone listens. -/
structure GalleryState.Like (s t : GalleryState) : Prop where
  index : t.index = s.index
  silent : t.sinks.isEmpty = s.sinks.isEmpty

theorem GalleryState.Like.refl (s : GalleryState) : s.Like s := ⟨rfl, rfl⟩

theorem GalleryState.Like.trans {s t u : GalleryState} (h : s.Like t) (h' : t.Like u) :
    s.Like u := ⟨h'.index.trans h.index, h'.silent.trans h.silent⟩

/-- A visit comes to such a result, and leaves the index and the listeners alone. -/
def Stays {α : Type} (v : Visit α) (s : GalleryState) (P : Except GalleryError α → Prop) : Prop :=
  P (v.run s).1 ∧ s.Like (v.run s).2

theorem Stays.bind {α β : Type} {v : Visit α} {f : α → Visit β} {s : GalleryState}
    {P : Except GalleryError α → Prop} {Q : Except GalleryError β → Prop} (h : Stays v s P)
    (fails : ∀ e, P (.error e) → Q (.error e))
    (next : ∀ a t, P (.ok a) → s.Like t → Stays (f a) t Q) : Stays (v >>= f) s Q := by
  obtain ⟨result, like⟩ := h
  change Q (match v.run s with | (r, t) => ExceptT.bindCont f r t).1 ∧
    s.Like (match v.run s with | (r, t) => ExceptT.bindCont f r t).2
  generalize v.run s = out at result like ⊢
  obtain ⟨e | a, t⟩ := out
  · exact ⟨fails e result, like⟩
  · obtain ⟨final, like'⟩ := next a t result like
    exact ⟨final, like.trans like'⟩

/-- What is drawn has a text. -/
theorem Generator.text_of_drawSeed {g : Generator} {seed : Int} {size : Size}
    {e : Expr (Option Operation)} {picture : Picture}
    (h : g.drawSeed seed size = .ok (e, picture)) : ∃ text, e.text = .ok text := by
  obtain ⟨e', synthesized, h⟩ := bind_eq_ok.1 h
  obtain ⟨picture', -, h⟩ := bind_eq_ok.1 h
  obtain ⟨rfl, -⟩ := Prod.mk.inj (Except.ok.inj h)
  obtain ⟨grown, -, kept⟩ := bind_eq_ok.1 synthesized
  rw [worded, mapError_eq_ok, map_eq_ok] at kept
  obtain ⟨text, written, rfl⟩ := kept
  exact ⟨text, written⟩

namespace Gallery

variable {α : Type} {g : Gallery} {s : GalleryState} {f : Frame}

/-- What drawing the picture of an index may come to. Only saving and telling depend on more than
the generator and the index. -/
inductive Shows (g : Gallery) (i : Int) (silent : Bool) : Except GalleryError Frame → Prop where
  | frame {e : Expr (Option Operation)} {picture : Picture} :
    g.generator.drawSeed i g.size = .ok (e, picture) → Shows g i silent (.ok ⟨i, picture, e⟩)
  | undrawn {e : DrawError} :
    g.generator.drawSeed i g.size = .error e → Shows g i silent (.error (.draw e))
  | unsaved (e : FileError) : g.outputDir ≠ "" → Shows g i silent (.error (.file e))
  | unheard (e : ClosedLog) : silent = false → Shows g i silent (.error (.closed e))

theorem run_get_bind (f : GalleryState → Visit α) (s : GalleryState) :
    (get >>= f).run s = (f s).run s := rfl

theorem drawing_run (d : Timed DrawError α) (s : GalleryState) :
    (drawing d).run s =
      ((d.run s.profile).1.mapError .draw, { s with profile := (d.run s.profile).2 }) := by
  rw [drawing, run_get_bind]
  rcases d.run s.profile with ⟨_ | a, profile⟩ <;> rfl

theorem filing_run (a : FileAction α) (s : GalleryState) :
    (filing a).run s =
      ((a.run s.files).1.mapError .file, { s with files := (a.run s.files).2 }) := by
  rw [filing, run_get_bind]
  rcases a.run s.files with ⟨_ | a, files⟩ <;> rfl

theorem stays_drawing {d : Timed DrawError α} {result : Except DrawError α} (h : d.Yields result)
    (s : GalleryState) : Stays (drawing d) s (· = result.mapError .draw) := by
  rw [Stays, drawing_run, h]
  exact ⟨rfl, rfl, rfl⟩

theorem stays_filing (a : FileAction α) (s : GalleryState) :
    Stays (filing a) s fun r => ∀ e, r = .error e → ∃ fault, e = .file fault := by
  rw [Stays, filing_run]
  refine ⟨fun e fails => ?_, rfl, rfl⟩
  obtain ⟨fault, -, rfl⟩ := mapError_eq_error.1 fails
  exact ⟨fault, rfl⟩

theorem stays_keep (g : Gallery) (f : Frame) (s : GalleryState) :
    Stays (g.keep f) s fun r => ∀ e, r = .error e →
      g.outputDir ≠ "" ∧ ∃ fault, e = .file fault := by
  unfold keep
  split
  · exact ⟨nofun, .refl s⟩
  · next named =>
    refine (stays_filing _ s).bind (fun e fails => ?_) fun _ t _ _ => ⟨nofun, .refl t⟩
    rintro _ ⟨⟩
    exact ⟨named, fails e rfl⟩

theorem announce_run (g : Gallery) (e : Event) (s : GalleryState) :
    (g.announce e).run s =
      let d := deliver g.surroundings e s.sinks
      (match d.failure with
        | none => .ok ()
        | some e => .error (.closed e),
        { s with sinks := d.sinks, lines := s.lines ++ d.lines }) := by
  rw [announce, run_get_bind]
  dsimp only
  cases (deliver g.surroundings e s.sinks).failure <;> rfl

theorem stays_announce (g : Gallery) (e : Event) (s : GalleryState) :
    Stays (g.announce e) s fun r => ∀ err, r = .error err → ∃ closed, err = .closed closed := by
  have same : (deliver g.surroundings e s.sinks).sinks.isEmpty = s.sinks.isEmpty := by
    rw [Bool.eq_iff_iff, List.isEmpty_iff_length_eq_zero, List.isEmpty_iff_length_eq_zero,
      length_deliver]
  rw [Stays, announce_run]
  refine ⟨fun err fails => ?_, rfl, same⟩
  dsimp only at fails
  split at fails
  · cases fails
  · exact ⟨_, (Except.error.inj fails).symm⟩

theorem stays_report {text : String} (worded : f.expression.text = .ok text)
    (path : Option String) (s : GalleryState) :
    Stays (g.report f path) s fun r => ∀ e, r = .error e →
      s.sinks.isEmpty = false ∧ ∃ closed, e = .closed closed := by
  have told : (g.report f path).run s =
      if s.sinks.isEmpty then (.ok (), s) else (g.announce (g.event f text path)).run s := by
    rw [report, run_get_bind, worded]
    split <;> rfl
  rw [Stays, told]
  split
  · exact ⟨nofun, .refl s⟩
  · next listens =>
    obtain ⟨closed, like⟩ := stays_announce g (g.event f text path) s
    exact ⟨fun e fails => ⟨Bool.eq_false_of_not_eq_true listens, closed e fails⟩, like⟩

theorem stays_render (g : Gallery) (i : Int) (s : GalleryState) :
    Stays (g.render (.int i)) s (g.Shows i s.sinks.isEmpty) := by
  unfold render
  refine (stays_drawing (Timed.yields_untimed _) s).bind nofun fun seed t named like => ?_
  obtain rfl : seed = i := Except.ok.inj named
  refine (stays_drawing (g.generator.drawSeedTimed_yields seed g.size) t).bind ?_ ?_
  · intro e fails
    obtain ⟨e, undrawn, rfl⟩ := mapError_eq_error.1 fails.symm
    exact .undrawn undrawn
  rintro ⟨e, picture⟩ u drawn like'
  have drawn := mapError_eq_ok.1 drawn.symm
  obtain ⟨text, worded⟩ := Generator.text_of_drawSeed drawn
  refine (stays_keep g ⟨seed, picture, e⟩ u).bind ?_ fun path v _ like'' => ?_
  · intro e fails
    obtain ⟨named, fault, rfl⟩ := fails e rfl
    exact .unsaved fault named
  refine (stays_report worded path v).bind ?_ fun _ w _ _ => ⟨.frame drawn, .refl w⟩
  intro e fails
  obtain ⟨listens, closed, rfl⟩ := fails e rfl
  refine .unheard closed ?_
  rw [← listens]
  exact (like.trans (like'.trans like'')).silent.symm

/-- An index that is no integer is not drawn. -/
theorem stays_render_refused {v : Value} (refused : v.int? = none) (g : Gallery)
    (s : GalleryState) :
    Stays (g.render v) s (· = .error (.draw (.seed (.notInteger v)))) := by
  have seed : seedOf v = .error (.notInteger v) := by rw [seedOf, refused]
  unfold render
  rw [seed]
  refine (stays_drawing (Timed.yields_untimed _) s).bind (fun e fails => ?_) fun a t drawn => ?_
  · cases fails
    rfl
  · cases drawn

end Gallery

end ExpressionArt
