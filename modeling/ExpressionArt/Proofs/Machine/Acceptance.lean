import ExpressionArt.Proofs.Forests
import ExpressionArt.Proofs.Synthesis.Replay
import ExpressionArt.Proofs.Vocabulary.Evaluation

/-!
# Accepted programs

A list of instructions either starves, at its first instruction that would not find all its
operands, or is the codes of some expressions, one after the other, and tells them but for what no
instruction shows. Where each instruction passes as many arguments as its operation takes, the
machine follows this: it refuses the arguments of a starved instruction, gives the value of a
single expression, and refuses any other number of them.
-/

namespace ExpressionArt

variable {ω β : Type}

/-! ## Codes of expressions -/

namespace Expr

/-- What is read off each instruction is read off the trees, node by node. -/
theorem postorder_codes {label : Node ω → β} {read : Instruction ω → β × Nat}
    (reads : ∀ node n, read (node.instruction n) = (label node, n)) (es : List (Expr ω)) :
    (es.map (Tree.relabel label)).flatMap Tree.postorder = (es.flatMap code).map read := by
  rw [List.flatMap_map, List.map_flatMap]
  congr 1
  funext e
  rw [Tree.postorder_relabel, code, compile, List.map_map]
  exact List.map_congr_left fun entry _ => (reads entry.1 entry.2).symm

/-- The instructions of some expressions tell the trees of all that they show. -/
theorem relabel_eq_of_codes {label : Node ω → β} {read : Instruction ω → β × Nat}
    (reads : ∀ node n, read (node.instruction n) = (label node, n)) {es es' : List (Expr ω)}
    (same : (es.flatMap code).map read = (es'.flatMap code).map read) :
    es.map (Tree.relabel label) = es'.map (Tree.relabel label) := by
  apply Tree.forest_injective
  rw [postorder_codes reads, postorder_codes reads, same]

/-- What the instructions of an expression show of it. -/
def outline (e : Expr ω) : Tree (String × ω × List Float) :=
  e.relabel fun node => (node.production.name, node.production.operation, node.params)

theorem outlines_eq_of_codes {es es' : List (Expr ω)}
    (same : es.flatMap code = es'.flatMap code) : es.map outline = es'.map outline := by
  let read (i : Instruction ω) := ((i.name, i.operation, i.params), i.arity.toNat)
  exact relabel_eq_of_codes (fun _ _ => rfl) (congrArg (List.map read) same)

/-- The names, arities and parameters of a program. -/
def listing (e : Expr ω) : List (String × Int × List Float) :=
  e.code.map fun i => (i.name, i.arity, i.params)

/-- The names and parameters of an expression, node by node. -/
def labels (e : Expr ω) : Tree (String × List Float) :=
  e.relabel fun node => (node.production.name, node.params)

theorem labels_eq_of_listing {e e' : Expr ω} (same : e.listing = e'.listing) :
    e.labels = e'.labels := by
  let entry (l : String × Int × List Float) := ((l.1, l.2.2), l.2.1.toNat)
  have shown : e.code.map (fun i => entry (i.name, i.arity, i.params)) =
      e'.code.map fun i => entry (i.name, i.arity, i.params) := by
    simpa [listing, Function.comp_def] using congrArg (List.map entry) same
  have trees : [e].map labels = [e'].map labels :=
    relabel_eq_of_codes (fun _ _ => rfl) (by simpa using shown)
  exact List.singleton_inj.1 trees

theorem heightAfter_codes (es : List (Expr ω)) (height : Nat) :
    heightAfter (es.flatMap code) height = some (height + es.length) := by
  induction es generalizing height with
  | nil => rfl
  | cons e es ih =>
    rw [List.flatMap_cons, heightAfter_append, e.heightAfter_code, Option.bind_some, ih,
      List.length_cons, Nat.add_right_comm, Nat.add_assoc]

end Expr

/-- Expressions over one grammar are told by the names and parameters of their nodes. -/
theorem Grammar.eq_of_labels {g : Grammar ω} {e e' : Expr ω} (listed : e.Over g.productions)
    (listed' : e'.Over g.productions) (same : e.labels = e'.labels) : e = e' := by
  refine Tree.relabel_inj ?_ listed listed' same
  rintro ⟨p, params⟩ ⟨q, params'⟩ hp hq same
  obtain ⟨name, rfl⟩ := Prod.mk.inj same
  exact congrArg (Node.mk · params) (Grammar.eq_of_name_eq hp hq name)

/-! ## Expressions from instructions -/

namespace Instruction

/-- The node of an instruction, whose operands and value are all of one type. -/
def node (type : String) (i : Instruction ω) : Node ω :=
  ⟨⟨i.name, type, List.replicate i.arity.toNat type, .call, i.operation, .nothing⟩, i.params⟩

theorem instruction_node (type : String) {i : Instruction ω} (nonneg : 0 ≤ i.arity) :
    (i.node type).instruction i.arity.toNat = i := by
  obtain ⟨name, operation, arity, params⟩ := i
  simp only [node, Node.instruction, Int.toNat_of_nonneg nonneg]

end Instruction

namespace Expr

/-- A typed expression of some type. -/
def OfType (type : String) (e : Expr ω) : Prop := e.WellTyped ∧ e.type = type

/-- An instruction over as many expressions as it takes. -/
theorem ofType_node {type : String} {i : Instruction ω} {operands : List (Expr ω)}
    (count : operands.length = i.arity.toNat) (typed : ∀ e ∈ operands, e.OfType type) :
    OfType type (.node (i.node type) operands) := by
  have types : operands.map Expr.type = (i.node type).production.args := by
    refine List.eq_replicate_iff.2 ⟨by rw [List.length_map, count], fun t ht => ?_⟩
    obtain ⟨e, he, rfl⟩ := List.mem_map.1 ht
    exact (typed e he).2
  exact ⟨.node _ _ _ types fun e he => (typed e he).1, rfl⟩

/-- Instructions that find all their operands on a stack of expressions make expressions. -/
theorem exists_codes_above (type : String) {is : List (Instruction ω)} {height : Nat}
    (stack : List (Expr ω)) (typed : ∀ e ∈ stack, e.OfType type)
    (measured : heightAfter is stack.length = some height) :
    ∃ es : List (Expr ω), es.flatMap code = stack.flatMap code ++ is ∧ es.length = height ∧
      ∀ e ∈ es, e.OfType type := by
  -- The induction is over any stack, the last expression on top.
  induction is generalizing stack with
  | nil => exact ⟨stack, (List.append_nil _).symm, Option.some.inj measured, typed⟩
  | cons i is ih =>
    rw [heightAfter] at measured
    split at measured
    · next fits =>
      obtain ⟨nonneg, enough⟩ := fits
      obtain ⟨below, operands, rfl, count⟩ : ∃ below operands, stack = below ++ operands ∧
          operands.length = i.arity.toNat :=
        ⟨_, _, (List.take_append_drop (stack.length - i.arity.toNat) stack).symm,
          by rw [List.length_drop]; omega⟩
      obtain ⟨lower, upper⟩ := List.forall_mem_append.1 typed
      let e : Expr ω := .node (i.node type) operands
      have code_e : e.code = operands.flatMap code ++ [i] := by
        rw [code_node, count, Instruction.instruction_node type nonneg]
      have higher : ∀ t ∈ below ++ [e], t.OfType type :=
        List.forall_mem_append.2 ⟨lower, List.forall_mem_singleton.2 (ofType_node count upper)⟩
      have next : heightAfter is (below ++ [e]).length = some height := by
        simpa [count] using measured
      obtain ⟨es, codes, length, typed⟩ := ih (below ++ [e]) higher next
      refine ⟨es, ?_, length, typed⟩
      rw [codes, List.flatMap_append, List.flatMap_append, List.flatMap_singleton, code_e]
      simp only [List.append_assoc, List.singleton_append]
    · cases measured

theorem exists_codes (type : String) {is : List (Instruction ω)} {height : Nat}
    (measured : heightAfter is 0 = some height) :
    ∃ es : List (Expr ω), es.flatMap code = is ∧ es.length = height ∧ ∀ e ∈ es, e.OfType type :=
  exists_codes_above type [] (by simp) measured

end Expr

/-- The instructions before `i` find all their operands, but `i` does not: they leave fewer values
than its arity, or its arity is negative. -/
def StarvedAt (is before : List (Instruction ω)) (i : Instruction ω) (height : Nat) : Prop :=
  (∃ after, is = before ++ i :: after) ∧ heightAfter before 0 = some height ∧ ¬ i.Fits height

theorem starvedAt_of_heightAfter {is : List (Instruction ω)} {start : Nat}
    (unmeasured : heightAfter is start = none) : ∃ before i after height,
      is = before ++ i :: after ∧ heightAfter before start = some height ∧ ¬ i.Fits height := by
  induction is generalizing start with
  | nil => cases unmeasured
  | cons i is ih =>
    by_cases fits : i.Fits start
    · rw [heightAfter, if_pos fits] at unmeasured
      obtain ⟨before, j, after, height, rfl, measured, starved⟩ := ih unmeasured
      refine ⟨i :: before, j, after, height, rfl, ?_, starved⟩
      rw [heightAfter, if_pos fits, measured]
    · exact ⟨[], i, is, start, rfl, rfl, fits⟩

/-- Instructions are the codes of some expressions just if none of them starves. -/
theorem exists_codes_iff (type : String) {is : List (Instruction ω)} :
    (∀ before i height, ¬ StarvedAt is before i height) ↔
      ∃ es : List (Expr ω), es.flatMap Expr.code = is ∧ ∀ e ∈ es, e.OfType type := by
  constructor
  · intro fed
    cases measured : heightAfter is 0 with
    | none =>
      obtain ⟨before, i, after, height, split, hbefore, starved⟩ :=
        starvedAt_of_heightAfter measured
      exact absurd ⟨⟨after, split⟩, hbefore, starved⟩ (fed before i height)
    | some height =>
      obtain ⟨es, codes, -, typed⟩ := Expr.exists_codes type measured
      exact ⟨es, codes, typed⟩
  · rintro ⟨es, rfl, -⟩ before i height ⟨⟨after, split⟩, measured, starved⟩
    have all := Expr.heightAfter_codes es 0
    rw [split] at all
    obtain ⟨mid, hmid, fits⟩ := fits_of_heightAfter all
    rw [measured] at hmid
    exact starved (Option.some.inj hmid ▸ fits)

/-! ## The machine on codes -/

namespace Meaning

variable {V ε : Type} (m : Meaning ω V ε) (x y : V) (malformed : Nat → ε)
  {p : Program ω} {es : List (Expr ω)}

/-- The codes of some expressions leave their values, before whatever follows runs. -/
theorem run_forest (es : List (Expr ω)) (rest : List (Instruction ω)) :
    m.run x y (es.flatMap Expr.code ++ rest) [] = (do
      let values ← es.mapM (m.value x y)
      m.run x y rest values.reverse) := by
  have law := m.run_codes x y es rest [] fun e _ => m.run_code x y e
  simpa only [List.append_nil] using law

theorem execute_code {e : Expr ω} (code : e.code = p.instructions) :
    m.execute malformed x y p = m.value x y e := by
  rw [execute, ← code]
  exact m.execute_eq_value x y malformed e

theorem execute_forest (codes : es.flatMap Expr.code = p.instructions) (many : es.length ≠ 1) :
    m.execute malformed x y p =
      (es.mapM (m.value x y) >>= fun _ => .error (malformed es.length)) := by
  have law := m.run_forest x y es []
  rw [List.append_nil, codes] at law
  rw [execute, law]
  cases values : es.mapM (m.value x y) with
  | error e => rfl
  | ok vs =>
    have count : es.length = vs.reverse.length := by
      rw [List.length_reverse, (mapM_eq_ok.1 values).length_eq]
    rw [count] at many ⊢
    simp only [ok_bind, run]
    generalize vs.reverse = stack at many ⊢
    rcases stack with _ | ⟨v, _ | ⟨w, rest⟩⟩
    · rfl
    · exact absurd rfl many
    · rfl

/-- An instruction that fails on any values of some expressions ends a program behind them. -/
theorem execute_starved {i : Instruction ω} {after : List (Instruction ω)} {failure : ε}
    (split : p.instructions = es.flatMap Expr.code ++ i :: after)
    (fails : ∀ stack : List V, stack.length = es.length → m.step x y i stack = .error failure) :
    m.execute malformed x y p =
      (es.mapM (m.value x y) >>= fun _ => .error failure) := by
  rw [execute, split, run_forest]
  cases values : es.mapM (m.value x y) with
  | error e => rfl
  | ok vs =>
    have count : vs.reverse.length = es.length := by
      rw [List.length_reverse, (mapM_eq_ok.1 values).length_eq]
    simp only [ok_bind, run, fails vs.reverse count]
    rfl

end Meaning

/-- An instruction passes as many arguments as its operation takes, the coordinates with those of
a leaf. -/
def Instruction.Counted (i : Instruction (Option Operation)) : Prop :=
  ∃ op, i.operation = some op ∧
    (i.params.length : Int) + i.arity + (if i.arity = 0 then 2 else 0) = op.argumentCount

variable {α : Type} [Scalar α]

/-- The value of an expression at coordinates seen from one shape. -/
def Expr.valueAt (shape : Shape) (x y : Tensor α) :
    Expr (Option Operation) → Except EvalError (Operand α) :=
  (Meaning.operands α).value (.numbers shape x.see) (.numbers shape y.see)

/-- A starved instruction passes too few arguments, or too many if its arity is negative. -/
theorem Meaning.step_starved {i : Instruction (Option Operation)} {x y : Operand α}
    {stack : List (Operand α)} (counted : i.Counted) (starved : ¬ i.Fits stack.length) :
    (Meaning.operands α).step x y i stack = .error .arguments := by
  obtain ⟨op, hop, count⟩ := counted
  have inner : i.arity ≠ 0 := by
    intro zero
    exact starved ⟨zero.ge, by omega⟩
  rw [if_neg inner] at count
  let operands := (stack.take (i.taken stack.length)).reverse
  have short : (operands.length : Int) ≠ i.arity := by
    intro same
    refine starved ⟨by omega, ?_⟩
    rw [← same, List.length_reverse, List.length_take]
    omega
  have wrong : (i.arguments (Meaning.operands α).lift x y operands).length ≠ op.argumentCount := by
    rw [Instruction.arguments, if_neg inner, List.length_append, List.length_map]
    omega
  change ((Meaning.operands α).apply i.operation _ >>= _) = _
  rw [hop]
  change (op.apply (i.arguments (Meaning.operands α).lift x y operands) >>= _) = _
  rw [Operation.apply_of_length_ne op _ wrong]
  rfl

namespace Program

/-- If some instruction starves, the first one to do so is given the wrong arguments. Otherwise the
program is the codes of some expressions, one after the other, in one way: of a single expression
it gives the value, and any other number of them it refuses, which is zero for the empty program
alone. Failures inside operations come first. So expressions with one program have the same names
and parameters node by node, and over one grammar they are equal. -/
theorem evaluate_classified {p : Program (Option Operation)} {x y : Tensor α} {shape : Shape}
    (agree : x.shape.broadcast? y.shape = some shape)
    (counted : ∀ i ∈ p.instructions, i.Counted) :
    (∀ before i height, StarvedAt p.instructions before i height →
      (∀ (a b : Operand α) (stack : List (Operand α)), stack.length = height →
        (Meaning.operands α).step a b i stack = .error .arguments) ∧
      ∃ es : List (Expr (Option Operation)), es.flatMap Expr.code = before ∧ es.length = height ∧
        p.evaluate x y = (es.mapM (Expr.valueAt shape x y) >>= fun _ => .error .arguments)) ∧
    ((∀ before i height, ¬ StarvedAt p.instructions before i height) ↔
      ∃ es : List (Expr (Option Operation)), es.flatMap Expr.code = p.instructions ∧
        ∀ e ∈ es, e.OfType p.outputType) ∧
    (∀ es : List (Expr (Option Operation)), es.flatMap Expr.code = p.instructions →
      (∀ es' : List (Expr (Option Operation)), es'.flatMap Expr.code = p.instructions →
        es'.map Expr.outline = es.map Expr.outline) ∧
      (∀ e, es = [e] → p.evaluate x y = e.valueAt shape x y) ∧
      (es.length ≠ 1 → p.evaluate x y =
        (es.mapM (Expr.valueAt shape x y) >>= fun _ => .error (.malformed es.length))) ∧
      (es.length = 0 ↔ p.instructions = [])) ∧
    (∀ k, (EvalError.malformed k).message =
      "Malformed program left " ++ toString k ++ " values on the stack") ∧
    (∀ e e' : Expr (Option Operation), e.listing = e'.listing → e.labels = e'.labels) ∧
    ∀ (g : Grammar (Option Operation)) (e e' : Expr (Option Operation)),
      e.Over g.productions → e'.Over g.productions → e.listing = e'.listing → e = e' := by
  have executed : p.evaluate x y = (Meaning.operands α).execute .malformed
      (.numbers shape x.see) (.numbers shape y.see) p := by
    rw [evaluate, agree]
    rfl
  rw [executed]
  refine ⟨?starved, exists_codes_iff p.outputType, fun es codes =>
      ⟨fun es' codes' => Expr.outlines_eq_of_codes (codes'.trans codes.symm), ?single, ?several,
        ?none⟩,
    fun k => rfl, fun e e' => Expr.labels_eq_of_listing, ?distinct⟩
  case starved =>
    rintro before i height ⟨⟨after, split⟩, measured, starved⟩
    have fed : i.Counted := counted i (by simp [split])
    obtain ⟨es, rfl, rfl, -⟩ := Expr.exists_codes p.outputType measured
    have fails (a b : Operand α) (stack : List (Operand α)) (count : stack.length = es.length) :
        (Meaning.operands α).step a b i stack = .error .arguments :=
      Meaning.step_starved fed (count ▸ starved)
    exact ⟨fails, es, rfl, rfl, Meaning.execute_starved _ _ _ _ split (fails _ _)⟩
  case single =>
    rintro e rfl
    exact Meaning.execute_code _ _ _ _ (by simpa using codes)
  case several => exact Meaning.execute_forest _ _ _ _ codes
  case none =>
    have height := Expr.heightAfter_codes es 0
    constructor
    · intro none
      rw [← codes, List.length_eq_zero_iff.1 none, List.flatMap_nil]
    · intro empty
      rw [codes, empty] at height
      simpa [heightAfter] using height.symm
  case distinct =>
    intro g e e' listed listed' same
    exact Grammar.eq_of_labels listed listed' (Expr.labels_eq_of_listing same)

/-- Two coordinates are two values. -/
theorem evaluate_two_coordinates :
    Program.evaluate ⟨[⟨"x", some .x, 0, []⟩, ⟨"y", some .y, 0, []⟩], "Number"⟩
      (Tensor.scalar (0 : Float)) (Tensor.scalar 0) = .error (.malformed 2) := by
  let first : Instruction (Option Operation) := ⟨"x", some .x, 0, []⟩
  let second : Instruction (Option Operation) := ⟨"y", some .y, 0, []⟩
  have counted : ∀ i ∈ [first, second], i.Counted :=
    List.forall_mem_cons.2 ⟨⟨.x, rfl, rfl⟩, List.forall_mem_singleton.2 ⟨.y, rfl, rfl⟩⟩
  have agree : (Tensor.scalar (0 : Float)).shape.broadcast? (Tensor.scalar (0 : Float)).shape =
      some [] := rfl
  obtain ⟨-, -, forest, -⟩ := evaluate_classified (p := ⟨[first, second], "Number"⟩) agree counted
  obtain ⟨-, -, several, -⟩ := forest
    [.node (first.node "Number") [], .node (second.node "Number") []] rfl
  exact several (by decide)

end Program

end ExpressionArt
