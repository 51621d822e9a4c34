import ExpressionArt.Proofs.Outcome
import ExpressionArt.Vocabulary.Default

/-!
# Reading templates back

A template writes its literal texts with a part in front of each but the first. Two templates
that are told apart at some literal never write one text, and one template writes one text from
one list of parts only. Both hold with any text behind, as long as the text behind a part starts
with a character that no part can go on with. So what is shown of the parts carries over to what
they make up.
-/

namespace ExpressionArt

/-- The texts of some parts, each with a literal behind it. -/
def weave : List String → List String → List Char
  | l :: ls, s :: ss => s.toList ++ (l.toList ++ weave ls ss)
  | _, _ => []

theorem toList_join_zip {ls ss : List String} :
    (String.join ((ss.zip ls).flatMap fun (s, l) => [s, l])).toList = weave ls ss := by
  rw [String.toList_join]
  induction ls generalizing ss with
  | nil => cases ss <;> rfl
  | cons l ls ih =>
    cases ss with
    | nil => rfl
    | cons s ss => rw [weave, ← ih]; simp

namespace Production

theorem pieceText_at (before : List String) (s : String) (ss : List String) :
    pieceText (before ++ s :: ss) (.part before.length) = .ok s := by
  have place : ¬((before.length : Int) < 0) := by omega
  rw [pieceText, part?, if_neg place, if_pos (Int.not_lt.1 place), Int.toNat_natCast,
    List.getElem?_append_right (Nat.le_refl _), Nat.sub_self, List.getElem?_cons_zero]

/-- The places of a template name its parts in order. -/
theorem mapM_pieceText {ls before ss : List String} (count : ss.length = ls.length) :
    ((ls.zipIdx before.length).flatMap fun (l, i) =>
        [Piece.part i, .literal l]).mapM (pieceText (before ++ ss)) =
      .ok ((ss.zip ls).flatMap fun (s, l) => [s, l]) := by
  induction ls generalizing before ss with
  | nil =>
    obtain rfl := List.length_eq_zero_iff.1 count
    rfl
  | cons l ls ih =>
    cases ss with
    | nil => cases count
    | cons s ss =>
      have rest := @ih (before ++ [s]) ss (Nat.succ.inj count)
      rw [List.length_append, List.length_singleton, List.append_assoc,
        List.singleton_append] at rest
      rw [List.zipIdx_cons, List.flatMap_cons, List.cons_append, List.cons_append, List.nil_append,
        List.mapM_cons, pieceText_at, ok_bind, List.mapM_cons, pieceText, ok_bind, rest]
      rfl

variable {ω : Type} {p : Production ω} {first s : String} {rest parts : List String}

theorem text_template (wording : p.wording = Vocabulary.template first rest)
    (text : p.text parts = .ok s) :
    parts.length = rest.length ∧ s.toList = first.toList ++ weave rest parts := by
  rw [Production.text, wording, Vocabulary.template] at text
  dsimp only at text
  split at text
  · next insisted =>
    have count : parts.length = rest.length := (beq_iff_eq.1 insisted).symm
    have woven := @mapM_pieceText rest [] parts count
    rw [List.length_nil, List.nil_append] at woven
    rw [List.mapM_cons, pieceText, ok_bind, woven] at text
    cases text
    exact ⟨count, by rw [String.join_cons, String.toList_append, toList_join_zip]⟩
  · cases text

end Production

/-- Two lists of literals of which the first that differ do not start alike. -/
def Diverge : List String → List String → Prop
  | l :: ls, k :: ks => ¬l.toList <+: k.toList ∧ ¬k.toList <+: l.toList ∨ l = k ∧ Diverge ls ks
  | _, _ => False

instance decidableDiverge : (ls ks : List String) → Decidable (Diverge ls ks)
  | _ :: ls, _ :: ks =>
    have := decidableDiverge ls ks
    inferInstanceAs (Decidable (_ ∨ _))
  | [], _ => inferInstanceAs (Decidable False)
  | _ :: _, [] => inferInstanceAs (Decidable False)

theorem Diverge.symm {ls ks : List String} (h : Diverge ls ks) : Diverge ks ls := by
  induction ls generalizing ks with
  | nil => cases h
  | cons l ls ih =>
    cases ks with
    | nil => cases h
    | cons k ks =>
      obtain ⟨hl, hk⟩ | ⟨rfl, h⟩ := h
      · exact .inl ⟨hk, hl⟩
      · exact .inr ⟨rfl, ih h⟩

theorem Diverge.irrefl (ls : List String) : ¬Diverge ls ls := by
  induction ls with
  | nil => exact nofun
  | cons l ls ih =>
    rintro (⟨h, -⟩ | ⟨-, h⟩)
    · exact h (List.prefix_refl l.toList)
    · exact ih h

/-- Texts that start with two such lists of literals are alike up to the first difference. -/
theorem first_literal {l k : String} {ls ks : List String} {x y : List Char}
    (kind : l :: ls = k :: ks ∨ Diverge (l :: ls) (k :: ks))
    (same : l.toList ++ x = k.toList ++ y) : l = k ∧ (ls = ks ∨ Diverge ls ks) ∧ x = y := by
  obtain equal | ⟨hl, hk⟩ | ⟨rfl, h⟩ := kind
  · obtain ⟨rfl, rfl⟩ := List.cons.inj equal
    exact ⟨rfl, .inl rfl, List.append_cancel_left same⟩
  · have prefixes := List.prefix_or_prefix_of_prefix (List.prefix_append l.toList x)
      (same ▸ List.prefix_append k.toList y)
    exact absurd prefixes (not_or.2 ⟨hl, hk⟩)
  · exact ⟨rfl, .inr h, List.append_cancel_left same⟩

section

variable {α : Type} (goesOn : Char → Bool) (Writes : α → String → Prop)

/-- A text, perhaps empty, that does not go on with what stands in front of it. -/
def Halts (text : List Char) : Prop := text.head?.all (!goesOn ·)

/-- A literal that ends what stands in front of it. -/
def Ends (l : String) : Prop := l.toList.head?.any (!goesOn ·)

instance (l : String) : Decidable (Ends goesOn l) := inferInstanceAs (Decidable (_ = true))

/-- Whatever is written as this is, up to halting texts behind, is this. -/
def Separate (a : α) : Prop :=
  ∀ {s b t r q}, Writes a s → Writes b t → Halts goesOn r → Halts goesOn q →
    s.toList ++ r = t.toList ++ q → a = b ∧ r = q

end

variable {α : Type} {goesOn : Char → Bool} {Writes : α → String → Prop}

theorem Ends.halts {l : String} (h : Ends goesOn l) (text : List Char) :
    Halts goesOn (l.toList ++ text) := by
  unfold Ends at h
  unfold Halts
  cases chars : l.toList with
  | nil => simp [chars] at h
  | cons c cs => simpa [chars] using h

/-- A run of characters that go on ends where the text behind it halts. -/
theorem takeWhile_run {run text : List Char} (all : ∀ c ∈ run, goesOn c)
    (halts : Halts goesOn text) : (run ++ text).takeWhile goesOn = run := by
  rw [List.takeWhile_append_of_pos all]
  cases text with
  | nil => exact List.append_nil run
  | cons c cs =>
    have stop : goesOn c = false := by simpa [Halts] using halts
    rw [List.takeWhile_cons, stop, if_neg Bool.false_ne_true, List.append_nil]

theorem run_inj {s t r q : List Char} (all₁ : ∀ c ∈ s, goesOn c) (all₂ : ∀ c ∈ t, goesOn c)
    (halts₁ : Halts goesOn r) (halts₂ : Halts goesOn q) (same : s ++ r = t ++ q) :
    s = t ∧ r = q := by
  have front : s = t := by rw [← takeWhile_run all₁ halts₁, same, takeWhile_run all₂ halts₂]
  subst front
  exact ⟨rfl, List.append_cancel_left same⟩

/-- If parts are separate from others, then so are the texts that templates make of them. -/
theorem weave_inj {l k : String} {ls ks ss ts : List String} {as bs : List α} {r q : List Char}
    (kind : l :: ls = k :: ks ∨ Diverge (l :: ls) (k :: ks))
    (ends₁ : ∀ x ∈ ls, Ends goesOn x) (ends₂ : ∀ x ∈ ks, Ends goesOn x)
    (writes₁ : List.Forall₂ Writes as ss) (writes₂ : List.Forall₂ Writes bs ts)
    (count₁ : ss.length = ls.length) (count₂ : ts.length = ks.length)
    (separate : ∀ a ∈ as, Separate goesOn Writes a)
    (same : l.toList ++ (weave ls ss ++ r) = k.toList ++ (weave ks ts ++ q)) :
    l :: ls = k :: ks ∧ as = bs ∧ r = q := by
  induction ls generalizing l k ks ss ts as bs with
  | nil =>
    obtain ⟨rfl, kind, same⟩ := first_literal kind same
    obtain rfl | impossible := kind
    · obtain rfl := List.length_eq_zero_iff.1 count₁
      obtain rfl := List.length_eq_zero_iff.1 count₂
      cases writes₁
      cases writes₂
      exact ⟨rfl, rfl, same⟩
    · cases impossible
  | cons l' ls ih =>
    obtain ⟨rfl, kind, same⟩ := first_literal kind same
    cases ks with
    | nil =>
      obtain impossible | impossible := kind <;> cases impossible
    | cons k' ks =>
      cases writes₁ with
      | nil => cases count₁
      | cons wa writes₁ =>
        cases writes₂ with
        | nil => cases count₂
        | cons wb writes₂ =>
          obtain ⟨end₁, ends₁⟩ := List.forall_mem_cons.1 ends₁
          obtain ⟨end₂, ends₂⟩ := List.forall_mem_cons.1 ends₂
          obtain ⟨apart, separate⟩ := List.forall_mem_cons.1 separate
          simp only [weave, List.append_assoc] at same
          obtain ⟨rfl, same⟩ := apart wa wb (end₁.halts _) (end₂.halts _) same
          obtain ⟨literals, rfl, rest⟩ := ih kind ends₁ ends₂ writes₁ writes₂
            (Nat.succ.inj count₁) (Nat.succ.inj count₂) separate same
          exact ⟨congrArg _ literals, rfl, rest⟩

end ExpressionArt
