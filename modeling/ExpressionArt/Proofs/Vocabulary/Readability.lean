import ExpressionArt.Proofs.Number.Text
import ExpressionArt.Proofs.Vocabulary.Default
import Mathlib.Data.List.Pairwise

/-!
# Readable expressions

No two expressions over the vocabulary have one text, whether they are typed or not, provided that
numbers are spelled apart. Numbers have a few characters to themselves: none of these stands at the
front of a literal, so a number is as long as they last. All other productions begin with a
literal, and any two of them are told apart by a literal before their parts can hide it.
-/

namespace ExpressionArt

/-- The characters that numbers are spelled with. -/
def isNumeral (c : Char) : Bool := c.isDigit || ['.', 'e', '+', '-', 'i', 'n', 'f'].contains c

theorem Spells.numerals {number : Float → String} (spells : Spells number) {a : Float}
    (ha : a.isNaN = false) : number a ≠ "" ∧ ∀ c ∈ (number a).toList, isNumeral c := by
  obtain h | h | ⟨nonempty, h⟩ := spells.spelled ha
  · rw [h]
    exact ⟨by decide, List.all_eq_true.1 (by decide)⟩
  · rw [h]
    exact ⟨by decide, List.all_eq_true.1 (by decide)⟩
  · refine ⟨nonempty, fun c hc => ?_⟩
    obtain digit | sign := h c hc
    · rw [isNumeral, digit, Bool.true_or]
    · have all : ['.', 'e', '+', '-'].all isNumeral := by decide
      exact List.all_eq_true.1 all c sign

namespace Vocabulary

/-- The literal texts of a template, in order. -/
def literals (p : Production (Option Operation)) : List String :=
  match p.wording with
  | .call => []
  | .template pieces _ => pieces.filterMap fun
    | .literal s => some s
    | .part _ => none

theorem template_of_mem {p : Production (Option Operation)} (h : p ∈ productions) :
    ∃ first rest, literals p = first :: rest ∧ p.wording = template first rest := by
  simp only [productions, List.mem_cons, List.not_mem_nil, or_false] at h
  obtain rfl | rfl | rfl | rfl | rfl | rfl | rfl | rfl | rfl | rfl | rfl | rfl := h
  all_goals exact ⟨_, _, rfl, rfl⟩

/-- A production that carries parameters writes one of them and nothing else. -/
theorem carrier_of_mem {p : Production (Option Operation)} (h : p ∈ productions)
    (carries : parameterCount p ≠ 0) :
    parameterCount p = 1 ∧ p.wording = template "" [""] ∧ literals p = ["", ""] := by
  simp only [productions, List.mem_cons, List.not_mem_nil, or_false] at h
  obtain rfl | rfl | rfl | rfl | rfl | rfl | rfl | rfl | rfl | rfl | rfl | rfl := h
  all_goals first | exact ⟨rfl, rfl, rfl⟩ | exact absurd rfl carries

theorem ends_of_mem {p : Production (Option Operation)} (h : p ∈ productions)
    (plain : parameterCount p = 0) : ∀ l ∈ literals p, Ends isNumeral l := by
  have all : ∀ p ∈ productions, parameterCount p = 0 → ∀ l ∈ literals p, Ends isNumeral l := by
    decide +kernel
  exact all p h plain

/-- Two productions that are never written alike. -/
def Apart (p q : Production (Option Operation)) : Prop :=
  parameterCount p ≠ parameterCount q ∨ Diverge (literals p) (literals q)

instance : DecidableRel Apart := fun _ _ => inferInstanceAs (Decidable (_ ∨ _))

instance : Std.Symm Apart where
  symm _ _ h := h.imp Ne.symm Diverge.symm

section

variable {p q : Production (Option Operation)} (hp : p ∈ productions) (hq : q ∈ productions)
  (count : parameterCount p = parameterCount q)
include hp hq count

theorem eq_or_diverge : p = q ∨ Diverge (literals p) (literals q) := by
  have pairwise : productions.Pairwise Apart := by decide +kernel
  by_cases same : p = q
  · exact .inl same
  · exact .inr ((pairwise.forall hp hq same).resolve_left (not_not.2 count))

theorem eq_of_literals (same : literals p = literals q) : p = q :=
  (eq_or_diverge hp hq count).resolve_right (same ▸ Diverge.irrefl _)

end

/-- A node that the vocabulary knows, with parameters that are numbers. -/
def Readable (node : Node (Option Operation)) : Prop :=
  Known node ∧ ∀ a ∈ node.params, a.isNaN = false

end Vocabulary

namespace Expr

open Vocabulary

/-- The text of a readable expression. -/
def Reads (number : Float → String) (e : Expr (Option Operation)) (s : String) : Prop :=
  e.All Readable ∧ e.textWith number = .ok s

variable {number : Float → String} {node : Node (Option Operation)}
  {children : List (Expr (Option Operation))} {s : String}

theorem reads_node (h : Reads number (.node node children) s) :
    Readable node ∧ ∃ parts, List.Forall₂ (Reads number) children parts ∧
      node.production.text (node.params.map number ++ parts) = .ok s := by
  obtain ⟨readable, text⟩ := h
  obtain ⟨here, below⟩ := Tree.all_node.1 readable
  rw [textWith, Tree.foldM_node, bind_eq_ok] at text
  obtain ⟨parts, texts, text⟩ := text
  exact ⟨here, parts, (List.forall₂_and_left _ _).2 ⟨below, mapM_eq_ok.1 texts⟩, text⟩

/-- The text of a node that carries a parameter is that number. -/
theorem reads_carrier (h : Reads number (.node node children) s)
    (carries : parameterCount node.production ≠ 0) :
    children = [] ∧ ∃ a, node.params = [a] ∧ a.isNaN = false ∧ s = number a := by
  obtain ⟨⟨⟨listed, count⟩, numbers⟩, parts, below, text⟩ := reads_node h
  obtain ⟨one, wording, -⟩ := carrier_of_mem listed carries
  obtain ⟨a, params⟩ := List.length_eq_one_iff.1 (count.trans one)
  obtain ⟨filled, chars⟩ := Production.text_template wording text
  rw [params] at filled chars
  obtain rfl : parts = [] := by simpa using filled
  refine ⟨List.forall₂_nil_right_iff.1 below, a, params, numbers a (by simp [params]), ?_⟩
  simpa [weave, String.toList_inj] using chars

/-- The text of a node without parameters is its template, filled with its children. -/
theorem reads_plain (h : Reads number (.node node children) s)
    (plain : parameterCount node.production = 0) :
    node.params = [] ∧ ∃ first rest parts, literals node.production = first :: rest ∧
      List.Forall₂ (Reads number) children parts ∧ parts.length = rest.length ∧
      s.toList = first.toList ++ weave rest parts := by
  obtain ⟨⟨⟨listed, count⟩, -⟩, parts, below, text⟩ := reads_node h
  obtain ⟨first, rest, literals, wording⟩ := template_of_mem listed
  have params : node.params = [] := List.length_eq_zero_iff.1 (count.trans plain)
  rw [params] at text
  obtain ⟨filled, chars⟩ := Production.text_template wording text
  exact ⟨params, first, rest, parts, literals, below, filled, chars⟩

/-- A literal at the front is no numeral, so what carries a parameter is written unlike the rest. -/
theorem carrier_ne_plain {node' : Node (Option Operation)}
    {children' : List (Expr (Option Operation))} {s' : String} {r r' : List Char}
    (spells : Spells number) (carrier : Reads number (.node node children) s)
    (other : Reads number (.node node' children') s')
    (carries : parameterCount node.production ≠ 0) (plain : parameterCount node'.production = 0) :
    s.toList ++ r ≠ s'.toList ++ r' := by
  obtain ⟨-, a, -, ha, rfl⟩ := reads_carrier carrier carries
  obtain ⟨-, first, rest, parts, listed, -, -, chars⟩ := reads_plain other plain
  obtain ⟨nonempty, numerals⟩ := spells.numerals ha
  have ends := ends_of_mem (reads_node other).1.1.1 plain first (by simp [listed])
  intro same
  rw [chars, List.append_assoc] at same
  have halts := ends.halts (weave rest parts ++ r')
  rw [← same] at halts
  cases start : (number a).toList with
  | nil => exact nonempty (String.toList_inj.1 start)
  | cons c cs =>
    have numeral := numerals c (by simp [start])
    simp [Halts, start, numeral] at halts

/-- Readable expressions can be told apart from the front of a text, whatever is behind. -/
theorem reads_separate (spells : Spells number) (e : Expr (Option Operation)) :
    Separate isNumeral (Reads number) e := by
  induction e using Tree.induct with
  | node node children ih =>
    intro s e' s' r r' reads reads' halts halts' same
    obtain ⟨p, params⟩ := node
    obtain ⟨⟨p', params'⟩, children'⟩ := e'
    have listed := (reads_node reads).1.1.1
    have listed' := (reads_node reads').1.1.1
    by_cases plain : parameterCount p = 0 <;> by_cases plain' : parameterCount p' = 0
    · obtain ⟨rfl, first, rest, parts, words, below, filled, chars⟩ := reads_plain reads plain
      obtain ⟨rfl, first', rest', parts', words', below', filled', chars'⟩ :=
        reads_plain reads' plain'
      have kind := eq_or_diverge listed listed' (plain.trans plain'.symm)
      have ends := ends_of_mem listed plain
      have ends' := ends_of_mem listed' plain'
      rw [words, words'] at kind
      rw [words] at ends
      rw [words'] at ends'
      rw [chars, chars', List.append_assoc, List.append_assoc] at same
      obtain ⟨literals, rfl, rfl⟩ := weave_inj (kind.imp_left fun h => by rw [← words, h, words'])
        (List.forall_mem_cons.1 ends).2 (List.forall_mem_cons.1 ends').2 below below' filled filled'
        ih same
      obtain rfl := eq_of_literals listed listed' (plain.trans plain'.symm)
        (words.trans (literals.trans words'.symm))
      exact ⟨rfl, rfl⟩
    · exact absurd same.symm (carrier_ne_plain spells reads' reads plain' plain)
    · exact absurd same (carrier_ne_plain spells reads reads' plain plain')
    · obtain ⟨rfl, a, rfl, ha, rfl⟩ := reads_carrier reads plain
      obtain ⟨rfl, a', rfl, ha', rfl⟩ := reads_carrier reads' plain'
      obtain ⟨one, -, words⟩ := carrier_of_mem listed plain
      obtain ⟨one', -, words'⟩ := carrier_of_mem listed' plain'
      obtain rfl := eq_of_literals listed listed' (one.trans one'.symm) (words.trans words'.symm)
      obtain ⟨spelling, rfl⟩ := run_inj (spells.numerals ha).2 (spells.numerals ha').2 halts halts'
        same
      obtain rfl := spells.injective ha ha' (String.toList_inj.1 spelling)
      exact ⟨rfl, rfl⟩

/-- The text of an expression tells the expression, node for node and parameter for parameter. -/
theorem textWith_injective (spells : Spells number) {e e' : Expr (Option Operation)}
    (readable : e.All Readable) (readable' : e'.All Readable) {s : String}
    (text : e.textWith number = .ok s) (text' : e'.textWith number = .ok s) : e = e' :=
  (reads_separate spells e ⟨readable, text⟩ ⟨readable', text'⟩ (r := []) (q := []) rfl rfl rfl).1

end Expr

namespace Vocabulary

/-- The difference of two constants. -/
def differenceOf (a b : Float) : Expr (Option Operation) :=
  .node ⟨binary "sub" "-" .sub, []⟩
    [.node ⟨⟨"rand", number, [], template "" [""], some .constant, .constant⟩, [a]⟩ [],
      .node ⟨⟨"rand", number, [], template "" [""], some .constant, .constant⟩, [b]⟩ []]

theorem readable_differenceOf {a b : Float} (ha : a.isNaN = false) (hb : b.isNaN = false) :
    (differenceOf a b).All Readable := by
  refine .node ⟨⟨by simp [productions], rfl⟩, List.forall_mem_nil _⟩ ?_
  rw [List.forall_mem_cons, List.forall_mem_singleton]
  have listed : ⟨"rand", number, [], template "" [""], some .constant, .constant⟩ ∈
      productions := by
    simp [productions]
  exact ⟨.node ⟨⟨listed, rfl⟩, List.forall_mem_singleton.2 ha⟩ (List.forall_mem_nil _),
    .node ⟨⟨listed, rfl⟩, List.forall_mem_singleton.2 hb⟩ (List.forall_mem_nil _)⟩

end Vocabulary

namespace Expr

open Vocabulary

theorem differenceOf_eq_of_text :
    (differenceOf (-0.5) 1e-5).textWith floatText = .ok "(-0.5 - 1e-05)" ∧
    (differenceOf (-(1 / 2)) (1 / 100000)).textWith floatText = .ok "(-0.5 - 1e-05)" ∧
    differenceOf (-0.5) 1e-5 = differenceOf (-(1 / 2)) (1 / 100000) := by
  have text : (differenceOf (-0.5) 1e-5).textWith floatText = .ok "(-0.5 - 1e-05)" := by
    decide +kernel
  have text' : (differenceOf (-(1 / 2)) (1 / 100000)).textWith floatText =
      .ok "(-0.5 - 1e-05)" := by
    decide +kernel
  have readable : (differenceOf (-0.5) 1e-5).All Readable :=
    readable_differenceOf (by decide) (by decide)
  have readable' : (differenceOf (-(1 / 2)) (1 / 100000)).All Readable :=
    readable_differenceOf (by decide) (by decide)
  exact ⟨text, text', textWith_injective spells_floatText readable readable' text text'⟩

/-- The text of an expression in shortest decimals tells the expression. -/
theorem text_injective {e e' : Expr (Option Operation)} (readable : e.All Readable)
    (readable' : e'.All Readable) {s : String} (text : e.text = .ok s) (text' : e'.text = .ok s) :
    e = e' :=
  (reads_separate spells_floatText e ⟨readable, text⟩ ⟨readable', text'⟩ (r := []) (q := []) rfl rfl
    rfl).1

end Expr

end ExpressionArt
