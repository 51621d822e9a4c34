import ExpressionArt.Proofs.Outcome
import ExpressionArt.Proofs.Vocabulary.Default

/-!
# Typed expressions have a text

A template takes as many parts as it has places, and every node of a typed expression hands its
template as many: parameters, then children.
-/

namespace ExpressionArt

namespace Production

theorem pieceText_total {parts : List String} {piece : Piece} (h : piece.Within parts.length) :
    ∃ s, pieceText parts piece = .ok s := by
  cases piece with
  | literal s => exact ⟨s, rfl⟩
  | part i =>
    obtain ⟨nonneg, inside⟩ := h
    have place : i.toNat < parts.length := by omega
    refine ⟨parts[i.toNat], ?_⟩
    rw [pieceText, part?, if_neg (Int.not_lt.2 nonneg), if_pos nonneg,
      List.getElem?_eq_getElem place]

/-- A template that refers to no part beyond those it insists on takes any that many. -/
theorem text_total {ω : Type} {p : Production ω} {pieces : List Piece} {parts : List String}
    (wording : p.wording = .template pieces (some parts.length))
    (within : ∀ piece ∈ pieces, piece.Within parts.length) : ∃ s, p.text parts = .ok s := by
  obtain ⟨texts, joined, -⟩ := mapM_total fun piece h => pieceText_total (within piece h)
  refine ⟨String.join texts, ?_⟩
  simp only [text, wording, Option.all_some, beq_self_eq_true, if_true, joined]
  rfl

end Production

namespace Expr

/-- A typed expression over the vocabulary can be put into words, whatever the text of numbers. -/
theorem textWith_total {e : Expr (Option Operation)} (number : Float → String)
    (typed : e.WellTyped) (known : e.All Vocabulary.Known) : ∃ s, e.textWith number = .ok s := by
  induction typed with
  | node p params children types _ ih =>
    obtain ⟨⟨listed, count⟩, below⟩ := Tree.all_node.1 known
    obtain ⟨pieces, wording, within⟩ := Vocabulary.wording_of_mem listed
    obtain ⟨parts, texts, length⟩ := mapM_total fun c hc => ih c hc (below c hc)
    have arity : children.length = p.args.length := by rw [← types, List.length_map]
    have filled : Vocabulary.parameterCount p + p.args.length =
        (params.map number ++ parts).length := by
      rw [List.length_append, List.length_map, length, arity, ← count]
    rw [filled] at wording within
    obtain ⟨s, hs⟩ := Production.text_total wording within
    refine ⟨s, ?_⟩
    rw [textWith, Tree.foldM_node]
    rw [textWith] at texts
    rw [texts]
    exact hs

end Expr

end ExpressionArt
