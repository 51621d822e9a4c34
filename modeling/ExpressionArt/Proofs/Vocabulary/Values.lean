import ExpressionArt.Proofs.Vocabulary.Default
import ExpressionArt.Proofs.Vocabulary.Readings

/-!
# Values of typed expressions

A typed expression over the vocabulary has a value at every shape of coordinates, and one function
of two numbers gives its entries at all of them: an expression of a number yields a number at each
position, one of a vector yields a vector, each computed from the two coordinates at that position
alone.
-/

namespace ExpressionArt

namespace Expr

variable {α : Type} [Scalar α]

/-- The value at coordinates of any shape is a number at each position, made by `f` of both. -/
def IsNumber (e : Expr (Option Operation)) (f : α → α → α) : Prop :=
  ∀ s x y, (Meaning.operands α).value (.numbers s x) (.numbers s y) e =
    .ok (.numbers s fun p => f (x p) (y p))

/-- The value at coordinates of any shape is a vector at each position. -/
def IsVector (e : Expr (Option Operation)) (v : α → α → Nat → α) : Prop :=
  ∀ s x y, (Meaning.operands α).value (.numbers s x) (.numbers s y) e =
    .ok (.vectors s fun p => v (x p) (y p))

/-- The value fits the type: a number or a vector at each position. -/
def Valued (α : Type) [Scalar α] (e : Expr (Option Operation)) : Prop :=
  (e.type = Vocabulary.number → ∃ f : α → α → α, e.IsNumber f) ∧
  (e.type = Vocabulary.vector → ∃ v : α → α → Nat → α, e.IsVector v)

/-- The reading at any two numbers is the number that `f` makes of them. -/
def ReadsNumber (e : Expr (Option Operation)) (f : α → α → α) : Prop :=
  ∀ a b, e.reading a b = .ok (.number (f a b))

/-- The reading at any two numbers is a vector. -/
def ReadsVector (e : Expr (Option Operation)) (v : α → α → Nat → α) : Prop :=
  ∀ a b, e.reading a b = .ok (.vector (v a b 0) (v a b 1) (v a b 2))

/-- One function of two numbers gives both the values at tensors and the readings. -/
def Pointwise (α : Type) [Scalar α] (e : Expr (Option Operation)) : Prop :=
  (e.type = Vocabulary.number → ∃ f : α → α → α, e.IsNumber f ∧ e.ReadsNumber f) ∧
  (e.type = Vocabulary.vector → ∃ v : α → α → Nat → α, e.IsVector v ∧ e.ReadsVector v)

variable {p : Production (Option Operation)} {op : Operation}

theorem pointwise_number {e : Expr (Option Operation)} {f : α → α → α}
    (type : e.type = Vocabulary.number) (value : e.IsNumber f) (reading : e.ReadsNumber f) :
    e.Pointwise α :=
  ⟨fun _ => ⟨f, value, reading⟩, fun other => absurd (type.symm.trans other) (by decide)⟩

theorem pointwise_vector {e : Expr (Option Operation)} {v : α → α → Nat → α}
    (type : e.type = Vocabulary.vector) (value : e.IsVector v) (reading : e.ReadsVector v) :
    e.Pointwise α :=
  ⟨fun other => absurd (type.symm.trans other) (by decide), fun _ => ⟨v, value, reading⟩⟩

theorem pointwise_leaf {params : List Float} {children : List (Expr (Option Operation))}
    (f : α → α → α) (hop : p.operation = some op)
    (value : ∀ s x y, op.apply (.numbers s x :: .numbers s y ::
      params.map (Meaning.operands α).lift) = .ok (.numbers s fun q => f (x q) (y q)))
    (reading : ∀ a b, op.read (.number a :: .number b ::
      params.map (Meaning.readings α).lift) = .ok (.number (f a b)))
    (types : children.map type = []) (type : p.type = Vocabulary.number) :
    Pointwise α (.node ⟨p, params⟩ children) := by
  obtain rfl := List.map_eq_nil_iff.1 types
  refine pointwise_number (f := f) type (fun s x y => ?_) fun a b => ?_
  · rw [Meaning.value_leaf, hop]
    exact value s x y
  · rw [Expr.reading, Meaning.value_leaf, hop]
    exact reading a b

section

variable {children : List (Expr (Option Operation))} (each : ∀ c ∈ children, c.Pointwise α)

include each

theorem pointwise_unary (hop : p.operation = some op) (h : op ∈ [.sin, .sqrt])
    (types : children.map type = [Vocabulary.number]) (type : p.type = Vocabulary.number) :
    Pointwise α (.node ⟨p, []⟩ children) := by
  obtain ⟨a, rfl, ta⟩ := List.map_eq_singleton_iff.1 types
  obtain ⟨f, hf, rf⟩ := (each a (by simp)).1 ta
  obtain ⟨k, hk, rk⟩ := Operation.apply_unary (α := α) h
  refine pointwise_number (f := fun x y => k (f x y)) type (fun s x y => ?_) fun x y => ?_
  · rw [Meaning.value_of_children (by simp) (.cons (hf s x y) .nil), hop]
    exact hk s _
  · rw [Expr.reading, Meaning.value_of_children (by simp) (.cons (rf x y) .nil), hop]
    exact rk _

theorem pointwise_binary (hop : p.operation = some op) (h : op ∈ [.add, .sub, .mul, .div, .mod])
    (types : children.map type = [Vocabulary.number, Vocabulary.number])
    (type : p.type = Vocabulary.number) : Pointwise α (.node ⟨p, []⟩ children) := by
  obtain ⟨a, b, rfl, ta, tb⟩ : ∃ a b, children = [a, b] ∧ a.type = Vocabulary.number ∧
      b.type = Vocabulary.number := by
    simpa [List.map_eq_cons_iff] using types
  obtain ⟨f, hf, rf⟩ := (each a (by simp)).1 ta
  obtain ⟨g, hg, rg⟩ := (each b (by simp)).1 tb
  obtain ⟨k, hk, rk⟩ := Operation.apply_binary (α := α) h
  refine pointwise_number (f := fun x y => k (f x y) (g x y)) type (fun s x y => ?_) fun x y => ?_
  · rw [Meaning.value_of_children (by simp) (.cons (hf s x y) (.cons (hg s x y) .nil)), hop]
    exact hk s _ _
  · rw [Expr.reading, Meaning.value_of_children (by simp) (.cons (rf x y) (.cons (rg x y) .nil)),
      hop]
    exact rk _ _

theorem pointwise_vec3 (hop : p.operation = some .vec3)
    (types : children.map type = [Vocabulary.number, Vocabulary.number, Vocabulary.number])
    (type : p.type = Vocabulary.vector) : Pointwise α (.node ⟨p, []⟩ children) := by
  obtain ⟨a, b, c, rfl, ta, tb, tc⟩ : ∃ a b c, children = [a, b, c] ∧
      a.type = Vocabulary.number ∧ b.type = Vocabulary.number ∧ c.type = Vocabulary.number := by
    simpa [List.map_eq_cons_iff] using types
  obtain ⟨f, hf, rf⟩ := (each a (by simp)).1 ta
  obtain ⟨g, hg, rg⟩ := (each b (by simp)).1 tb
  obtain ⟨k, hk, rk⟩ := (each c (by simp)).1 tc
  have value : IsVector (.node ⟨p, []⟩ [a, b, c]) fun x y i =>
      ([f x y, g x y, k x y][i]?).getD default := by
    intro s x y
    rw [Meaning.value_of_children (by simp)
      (.cons (hf s x y) (.cons (hg s x y) (.cons (hk s x y) .nil))), hop]
    refine (Operation.apply_vec3 s _ _ _).trans ?_
    congr 2
    funext q i
    -- Beyond the third component both sides are the default.
    rcases i with _ | _ | _ | i <;> rfl
  refine pointwise_vector type value fun x y => ?_
  rw [Expr.reading, Meaning.value_of_children (by simp)
    (.cons (rf x y) (.cons (rg x y) (.cons (rk x y) .nil))), hop]
  rfl

theorem pointwise_mix (hop : p.operation = some .mix)
    (types : children.map type = [Vocabulary.vector, Vocabulary.vector, Vocabulary.number])
    (type : p.type = Vocabulary.vector) : Pointwise α (.node ⟨p, []⟩ children) := by
  obtain ⟨a, b, c, rfl, ta, tb, tc⟩ : ∃ a b c, children = [a, b, c] ∧
      a.type = Vocabulary.vector ∧ b.type = Vocabulary.vector ∧ c.type = Vocabulary.number := by
    simpa [List.map_eq_cons_iff] using types
  obtain ⟨v, hv, rv⟩ := (each a (by simp)).2 ta
  obtain ⟨w, hw, rw⟩ := (each b (by simp)).2 tb
  obtain ⟨f, hf, rf⟩ := (each c (by simp)).1 tc
  have value : IsVector (.node ⟨p, []⟩ [a, b, c]) fun x y i =>
      lerp (v x y i) (w x y i) (f x y) := by
    intro s x y
    rw [Meaning.value_of_children (by simp)
      (.cons (hv s x y) (.cons (hw s x y) (.cons (hf s x y) .nil))), hop]
    exact Operation.apply_mix s _ _ _
  refine pointwise_vector type value fun x y => ?_
  rw [Expr.reading, Meaning.value_of_children (by simp)
    (.cons (rv x y) (.cons (rw x y) (.cons (rf x y) .nil))), hop]
  rfl

end

/-- Every typed expression over the vocabulary has values of its type, given by its readings. -/
theorem pointwise {e : Expr (Option Operation)} (typed : e.WellTyped)
    (known : e.All Vocabulary.Known) : e.Pointwise α := by
  induction typed with
  | node p params children types _ ih =>
    obtain ⟨⟨listed, count⟩, below⟩ := Tree.all_node.1 known
    have each : ∀ c ∈ children, c.Pointwise α := fun c hc => ih c hc (below c hc)
    obtain ⟨op, hop, sig⟩ := Vocabulary.signature_of_mem listed
    -- Once the operation is known, its signature tells the children's types and the parameters.
    obtain ⟨σ, hσ, types, count, type⟩ : ∃ σ, Vocabulary.signature? op = some σ ∧
        children.map Expr.type = σ.args ∧ params.length = σ.parameters ∧ p.type = σ.type :=
      ⟨_, sig, types, count, rfl⟩
    cases op with
    | x =>
      cases hσ
      obtain rfl := List.length_eq_zero_iff.1 count
      exact pointwise_leaf (fun x _ => x) hop (fun s x y => rfl) (fun a b => rfl) types type
    | y =>
      cases hσ
      obtain rfl := List.length_eq_zero_iff.1 count
      exact pointwise_leaf (fun _ y => y) hop (fun s x y => rfl) (fun a b => rfl) types type
    | constant =>
      cases hσ
      obtain ⟨a, rfl⟩ := List.length_eq_one_iff.1 count
      exact pointwise_leaf (fun _ _ => Scalar.ofFloat a) hop (fun s x y => rfl) (fun a b => rfl)
        types type
    | sin | sqrt =>
      cases hσ
      obtain rfl := List.length_eq_zero_iff.1 count
      exact pointwise_unary each hop (by simp) types type
    | add | sub | mul | div | mod =>
      cases hσ
      obtain rfl := List.length_eq_zero_iff.1 count
      exact pointwise_binary each hop (by simp) types type
    | vec3 =>
      cases hσ
      obtain rfl := List.length_eq_zero_iff.1 count
      exact pointwise_vec3 each hop types type
    | mix =>
      cases hσ
      obtain rfl := List.length_eq_zero_iff.1 count
      exact pointwise_mix each hop types type
    | lerp => cases hσ

/-- Every typed expression over the vocabulary has a value of its type, for any scalars. -/
theorem valued {e : Expr (Option Operation)} (typed : e.WellTyped)
    (known : e.All Vocabulary.Known) : e.Valued α := by
  obtain ⟨number, vector⟩ := pointwise (α := α) typed known
  constructor
  · intro type
    obtain ⟨f, value, -⟩ := number type
    exact ⟨f, value⟩
  · intro type
    obtain ⟨v, value, -⟩ := vector type
    exact ⟨v, value⟩

end Expr

end ExpressionArt
