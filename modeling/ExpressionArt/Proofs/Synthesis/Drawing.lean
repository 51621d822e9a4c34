import ExpressionArt.Synthesis

/-!
# Drawings

How a computation that draws from a source runs. A sequence succeeds when both parts do, the second
from the source that the first leaves. A source that never runs dry, and whose draws select among
as many options as there may be, makes every choice and every sampler succeed.
-/

namespace ExpressionArt

variable {σ α β ω : Type}

namespace Drawing

variable {d : Drawing σ α} {f : α → Drawing σ β} {s s' : σ}

theorem runOn_pure_eq {a b : α} :
    (pure a : Drawing σ α).runOn s = (.ok b, s') ↔ a = b ∧ s = s' := by
  change (Except.ok a, s) = (Except.ok b, s') ↔ _
  simp

theorem runOn_bind_eq {b : β} : (d >>= f).runOn s = (.ok b, s') ↔
    ∃ a t, d.runOn s = (.ok a, t) ∧ (f a).runOn t = (.ok b, s') := by
  change (match d.runOn s with | (r, t) => ExceptT.bindCont f r t) = (.ok b, s') ↔ _
  rcases d.runOn s with ⟨_ | a, t⟩
  · constructor
    · intro h
      cases h
    · rintro ⟨a, t', ha, -⟩
      cases ha
  · refine ⟨fun h => ⟨a, t, rfl, h⟩, ?_⟩
    rintro ⟨a', t', ha, h⟩
    cases ha
    exact h

theorem runOn_bind_eq_error {e : SynthesisError} : (d >>= f).runOn s = (.error e, s') ↔
    d.runOn s = (.error e, s') ∨
      ∃ a t, d.runOn s = (.ok a, t) ∧ (f a).runOn t = (.error e, s') := by
  change (match d.runOn s with | (r, t) => ExceptT.bindCont f r t) = (.error e, s') ↔ _
  rcases d.runOn s with ⟨e' | a, t⟩
  · change (Except.error e', t) = (Except.error e, s') ↔ _
    simp
  · change (f a).runOn t = (.error e, s') ↔ _
    constructor
    · exact fun h => .inr ⟨a, t, rfl, h⟩
    · rintro (h | ⟨a', t', ha, h⟩)
      · cases h
      · cases ha
        exact h

theorem runOn_get_eq {t : σ} : (get : Drawing σ σ).runOn s = (.ok t, s') ↔ s = t ∧ s = s' := by
  change (Except.ok s, s) = (Except.ok t, s') ↔ _
  simp

/-- A list of drawings that succeed one after the other, each from the source that the one before
leaves. -/
inductive Chain (R : σ → α → β → σ → Prop) : σ → List α → List β → σ → Prop where
  | nil (s : σ) : Chain R s [] [] s
  | cons {s t u : σ} {a : α} {b : β} {as : List α} {bs : List β} :
    R s a b t → Chain R t as bs u → Chain R s (a :: as) (b :: bs) u

theorem Chain.mono {R S : σ → α → β → σ → Prop} {as : List α} {bs : List β} (h : Chain R s as bs s')
    (imp : ∀ s a b s', R s a b s' → S s a b s') : Chain S s as bs s' := by
  induction h with
  | nil s => exact .nil s
  | cons hb _ ih => exact .cons (imp _ _ _ _ hb) ih

theorem runOn_mapM_eq {as : List α} {bs : List β} : (as.mapM f).runOn s = (.ok bs, s') ↔
    Chain (fun s a b s' => (f a).runOn s = (.ok b, s')) s as bs s' := by
  induction as generalizing s bs with
  | nil =>
    rw [List.mapM_nil, runOn_pure_eq]
    constructor
    · rintro ⟨rfl, rfl⟩
      exact .nil s
    · rintro ⟨⟩
      exact ⟨rfl, rfl⟩
  | cons a as ih =>
    rw [List.mapM_cons, runOn_bind_eq]
    constructor
    · rintro ⟨b, t, hb, h⟩
      obtain ⟨bs', u, hbs, h⟩ := runOn_bind_eq.1 h
      obtain ⟨rfl, rfl⟩ := runOn_pure_eq.1 h
      exact .cons hb (ih.1 hbs)
    · intro h
      cases h with
      | cons hb hbs =>
        exact ⟨_, _, hb, runOn_bind_eq.2 ⟨_, _, ih.2 hbs, runOn_pure_eq.2 ⟨rfl, rfl⟩⟩⟩

end Drawing

variable [RandomSource σ]

theorem runOn_drawOne_eq {d : Binary64} {s s' : σ} :
    (drawOne : Drawing σ Binary64).runOn s = (.ok d, s') ↔ RandomSource.next? s = some (d, s') := by
  rw [drawOne, Drawing.runOn_bind_eq]
  constructor
  · rintro ⟨a, t, ht, h⟩
    obtain ⟨rfl, rfl⟩ := Drawing.runOn_get_eq.1 ht
    split at h
    · next d' u next =>
      change (Except.ok d', u) = (Except.ok d, s') at h
      cases h
      exact next
    · cases h
  · intro next
    refine ⟨s, s, Drawing.runOn_get_eq.2 ⟨rfl, rfl⟩, ?_⟩
    rw [next]
    rfl

/-- A draw fails only if the source has run dry. -/
theorem runOn_drawOne_eq_error {e : SynthesisError} {s s' : σ}
    (h : (drawOne : Drawing σ Binary64).runOn s = (.error e, s')) : e = .exhausted := by
  rw [drawOne, Drawing.runOn_bind_eq_error] at h
  obtain h | ⟨a, t, -, h⟩ := h
  · cases h
  · split at h
    · cases h
    · cases h
      rfl

/-- A choice makes one draw and takes the option at the index that the draw chooses. -/
theorem runOn_choose_eq {options : List (Production ω)} {p : Production ω} {s s' : σ} :
    (Grammar.choose options).runOn s = (.ok p, s') ↔ ∃ d i,
      RandomSource.next? s = some (d, s') ∧ choiceIndex d options.length = .ok i ∧
        options.get i = p := by
  rw [Grammar.choose, Drawing.runOn_bind_eq]
  constructor
  · rintro ⟨d, t, hd, h⟩
    cases hi : choiceIndex d options.length with
    | error e => rw [hi] at h; cases h
    | ok i =>
      rw [hi] at h
      obtain ⟨hp, rfl⟩ := Drawing.runOn_pure_eq.1 h
      exact ⟨d, i, runOn_drawOne_eq.1 hd, hi, hp⟩
  · rintro ⟨d, i, hd, hi, hp⟩
    refine ⟨d, s', runOn_drawOne_eq.2 hd, ?_⟩
    rw [hi]
    exact Drawing.runOn_pure_eq.2 ⟨hp, rfl⟩

theorem mem_of_runOn_choose {options : List (Production ω)} {p : Production ω} {s s' : σ}
    (h : (Grammar.choose options).runOn s = (.ok p, s')) : p ∈ options := by
  obtain ⟨d, i, -, -, rfl⟩ := runOn_choose_eq.1 h
  exact List.get_mem _ _

/-- A draw selects one of the options when there are any, and not more than `limit`. -/
def Binary64.Selects (limit : Nat) (d : Binary64) : Prop :=
  ∀ n : Nat, 1 ≤ n → n ≤ limit → ∃ i : Int, (d.times n).cut = .ok i ∧ 0 ≤ i ∧ i < n

theorem Binary64.Selects.choiceIndex {limit n : Nat} {d : Binary64} (h : d.Selects limit)
    (any : 1 ≤ n) (few : n ≤ limit) : ∃ i, choiceIndex d n = .ok i := by
  obtain ⟨i, cut, inside⟩ := h n any few
  exact ⟨⟨i.toNat, by omega⟩, by simp [ExpressionArt.choiceIndex, cut, inside]⟩

/-- The source `t` is what some draws leave of `s`. -/
inductive Leaves : σ → σ → Prop where
  | none (s : σ) : Leaves s s
  | draw {s t u : σ} {d : Binary64} : RandomSource.next? s = some (d, t) → Leaves t u → Leaves s u

/-- A source that never runs dry, and all of whose draws select. -/
def Supplies (limit : Nat) (s : σ) : Prop :=
  ∀ t, Leaves s t → ∃ d u, RandomSource.next? t = some (d, u) ∧ d.Selects limit

theorem Supplies.next {limit : Nat} {s : σ} (h : Supplies limit s) :
    ∃ d t, RandomSource.next? s = some (d, t) ∧ d.Selects limit ∧ Supplies limit t := by
  obtain ⟨d, t, hd, selects⟩ := h s (.none s)
  exact ⟨d, t, hd, selects, fun u hu => h u (.draw hd hu)⟩

/-- From every source that supplies, the drawing succeeds and leaves one that does. -/
def Drawing.Succeeds (limit : Nat) (d : Drawing σ α) : Prop :=
  ∀ s, Supplies limit s → ∃ a t, d.runOn s = (.ok a, t) ∧ Supplies limit t

namespace Drawing

variable {limit : Nat} {d : Drawing σ α} {f : α → Drawing σ β}

theorem succeeds_pure (a : α) : (pure a : Drawing σ α).Succeeds limit :=
  fun s hs => ⟨a, s, runOn_pure_eq.2 ⟨rfl, rfl⟩, hs⟩

theorem Succeeds.bind (hd : d.Succeeds limit)
    (hf : ∀ a s t, d.runOn s = (.ok a, t) → (f a).Succeeds limit) : (d >>= f).Succeeds limit := by
  intro s hs
  obtain ⟨a, t, ha, ht⟩ := hd s hs
  obtain ⟨b, u, hb, hu⟩ := hf a s t ha t ht
  exact ⟨b, u, runOn_bind_eq.2 ⟨a, t, ha, hb⟩, hu⟩

theorem succeeds_mapM {as : List α} (h : ∀ a ∈ as, (f a).Succeeds limit) :
    (as.mapM f).Succeeds limit := by
  induction as with
  | nil => exact succeeds_pure []
  | cons a as ih =>
    rw [List.mapM_cons]
    refine (h a (by simp)).bind fun b _ _ _ => ?_
    exact (ih fun a' ha => h a' (by simp [ha])).bind fun bs _ _ _ => succeeds_pure _

theorem succeeds_drawOne : (drawOne : Drawing σ Binary64).Succeeds limit := by
  intro s hs
  obtain ⟨d, t, hd, -, ht⟩ := hs.next
  exact ⟨d, t, runOn_drawOne_eq.2 hd, ht⟩

theorem succeeds_choose {options : List (Production ω)} (any : options ≠ [])
    (few : options.length ≤ limit) : (Grammar.choose options : Drawing σ _).Succeeds limit := by
  intro s hs
  obtain ⟨d, t, hd, selects, ht⟩ := hs.next
  obtain ⟨i, hi⟩ := selects.choiceIndex (List.length_pos_iff.2 any) few
  exact ⟨options.get i, t, runOn_choose_eq.2 ⟨d, i, hd, hi, rfl⟩, ht⟩

theorem succeeds_sampler (sampler : Sampler) :
    (sampler.run : Drawing σ (List Float)).Succeeds limit := by
  induction sampler with
  | done params => exact succeeds_pure params
  | draw next ih => exact succeeds_drawOne.bind fun d _ _ _ => ih d

end Drawing

end ExpressionArt
