import ExpressionArt.Proofs.Synthesis.Drawing

/-!
# Drawings from scripts

A script gives its draws in order and counts them. What a drawing takes from it is a list of draws
at its front; drawings in sequence take lists that follow one another.
-/

namespace ExpressionArt

namespace Script

/-- The second script is what is left of the first when these draws are taken from its front. -/
structure Spends (s : Script) (ds : List Binary64) (s' : Script) : Prop where
  pending : s.pending = ds ++ s'.pending
  consumed : s'.consumed = s.consumed + ds.length

variable {s s' : Script} {d : Binary64} {ds ds' : List Binary64}

theorem spends_nil_iff : s.Spends [] s' ↔ s = s' := by
  constructor
  · rintro ⟨pending, consumed⟩
    cases s
    cases s'
    simp_all
  · rintro rfl
    exact ⟨rfl, rfl⟩

theorem spends_append_iff :
    s.Spends (ds ++ ds') s' ↔ ∃ t, s.Spends ds t ∧ Spends t ds' s' := by
  constructor
  · rintro ⟨pending, consumed⟩
    rw [List.append_assoc] at pending
    rw [List.length_append, ← Nat.add_assoc] at consumed
    exact ⟨⟨ds' ++ s'.pending, s.consumed + ds.length⟩, ⟨pending, rfl⟩, ⟨rfl, consumed⟩⟩
  · rintro ⟨t, ⟨pending, consumed⟩, ⟨pending', consumed'⟩⟩
    constructor
    · rw [pending, pending', List.append_assoc]
    · rw [consumed', consumed, List.length_append, Nat.add_assoc]

theorem next?_eq_some_iff : RandomSource.next? s = some (d, s') ↔ s.Spends [d] s' := by
  obtain ⟨_ | ⟨d', pending⟩, consumed⟩ := s
  · refine ⟨nofun, ?_⟩
    rintro ⟨h, -⟩
    cases h
  · constructor
    · rintro ⟨⟩
      exact ⟨rfl, rfl⟩
    · rintro ⟨h, h'⟩
      obtain ⟨pending', consumed'⟩ := s'
      cases h
      obtain rfl : consumed' = consumed + 1 := h'
      rfl

theorem spends_cons_iff :
    s.Spends (d :: ds) s' ↔ ∃ t, RandomSource.next? s = some (d, t) ∧ Spends t ds s' := by
  simp only [next?_eq_some_iff]
  exact @spends_append_iff s s' [d] ds

/-- A script that is spent as a whole. -/
theorem spends_all (ds : List Binary64) (n : Nat) : Spends ⟨ds, n⟩ ds ⟨[], n + ds.length⟩ :=
  ⟨(List.append_nil ds).symm, rfl⟩

end Script

/-- The parameters that a sampler returns when it takes just these draws. -/
def Sampler.feed : Sampler → List Binary64 → Option (List Float)
  | .done params, [] => some params
  | .draw next, d :: ds => (next d).feed ds
  | _, _ => none

/-- On a script, a sampler takes draws that it returns its parameters on. -/
theorem Sampler.runOn_script_iff {sampler : Sampler} {params : List Float} {s s' : Script} :
    sampler.run.runOn s = (.ok params, s') ↔
      ∃ ds, sampler.feed ds = some params ∧ s.Spends ds s' := by
  induction sampler generalizing s with
  | done params' =>
    rw [run, Drawing.runOn_pure_eq]
    constructor
    · rintro ⟨rfl, rfl⟩
      exact ⟨[], rfl, Script.spends_nil_iff.2 rfl⟩
    · rintro ⟨_ | ⟨d, ds⟩, fed, spends⟩
      · exact ⟨Option.some.inj fed, Script.spends_nil_iff.1 spends⟩
      · cases fed
  | draw next ih =>
    rw [run, Drawing.runOn_bind_eq]
    simp only [runOn_drawOne_eq, ih]
    constructor
    · rintro ⟨d, t, hd, ds, fed, spends⟩
      exact ⟨d :: ds, fed, Script.spends_cons_iff.2 ⟨t, hd, spends⟩⟩
    · rintro ⟨_ | ⟨d, ds⟩, fed, spends⟩
      · cases fed
      · obtain ⟨t, hd, spends⟩ := Script.spends_cons_iff.1 spends
        exact ⟨d, t, hd, ds, fed, spends⟩

end ExpressionArt
