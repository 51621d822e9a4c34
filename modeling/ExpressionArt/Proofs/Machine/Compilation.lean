import ExpressionArt.Proofs.Machine.Height

/-!
# Compilation preserves values

Running the post-order of an expression gives its value by recursion, for every meaning of the
operations. The induction is over any stack below and any instructions behind: the code of some
expressions leaves their values on the stack, the last one on top, or fails as the first of them
to fail does.
-/

namespace ExpressionArt

variable {ω V ε : Type}

/-- The instructions of an expression, operands before their operator. -/
def Expr.code (e : Expr ω) : List (Instruction ω) := e.compile.instructions

namespace Expr

theorem code_node (node : Node ω) (ts : List (Expr ω)) :
    code (.node node ts) = ts.flatMap code ++ [node.instruction ts.length] := by
  simp only [code, compile, Tree.postorder_node, List.map_append, List.map_flatten, List.map_map,
    List.map_cons, List.map_nil, List.flatMap_def]
  rfl

/-- A program has an instruction for each node. -/
theorem length_code (e : Expr ω) : e.code.length = e.size := by
  induction e using Tree.induct with
  | node node ts ih =>
    rw [code_node, Tree.size_node, List.length_append, List.length_singleton, Nat.add_comm]
    congr 1
    induction ts with
    | nil => rfl
    | cons t ts ihs =>
      rw [List.flatMap_cons, List.length_append, List.map_cons, List.foldl_cons, Nat.add_comm 0,
        List.foldl_assoc, ih t (by simp), ihs fun u hu => ih u (by simp [hu])]

/-- The code of an expression finds all its operands on any stack, and adds one value to it. -/
theorem heightAfter_code (e : Expr ω) (height : Nat) :
    heightAfter e.code height = some (height + 1) := by
  induction e using Tree.induct generalizing height with
  | node node ts ih =>
    have operands : heightAfter (ts.flatMap code) height = some (height + ts.length) := by
      clear node
      induction ts generalizing height with
      | nil => rfl
      | cons t ts ihs =>
        rw [List.flatMap_cons, heightAfter_append, ih t (by simp), Option.bind_some,
          ihs fun u hu => ih u (by simp [hu])]
        simp only [List.length_cons]
        congr 1
        omega
    have fits := Instruction.fits_instruction node (Nat.le_add_left ts.length height)
    rw [code_node, heightAfter_append, operands, Option.bind_some, heightAfter, if_pos fits]
    simp [heightAfter, Node.instruction]

end Expr

namespace Meaning

variable (m : Meaning ω V ε) (x y : V)

theorem value_node (node : Node ω) (ts : List (Expr ω)) :
    m.value x y (.node node ts) = (do
      let operands ← ts.mapM (m.value x y)
      m.apply node.production.operation
        ((node.instruction operands.length).arguments m.lift x y operands)) :=
  Tree.foldM_node ..

/-- A leaf takes the coordinates, then its parameters. -/
theorem value_leaf (node : Node ω) :
    m.value x y (.node node []) =
      m.apply node.production.operation (x :: y :: node.params.map m.lift) := rfl

/-- Any other node takes its parameters, then the values of its children from left to right. -/
theorem value_inner (node : Node ω) (t : Expr ω) (ts : List (Expr ω)) :
    m.value x y (.node node (t :: ts)) = (do
      let operands ← (t :: ts).mapM (m.value x y)
      m.apply node.production.operation (node.params.map m.lift ++ operands)) := by
  rw [value_node]
  cases h : (t :: ts).mapM (m.value x y) with
  | error e => rfl
  | ok operands =>
    have count : (t :: ts).length = operands.length := (mapM_eq_ok.1 h).length_eq
    have inner : (node.instruction operands.length).arity ≠ 0 := by
      rw [← count]
      exact Int.natCast_ne_zero.2 (Nat.succ_ne_zero _)
    change m.apply _ ((node.instruction operands.length).arguments m.lift x y operands) = _
    rw [Instruction.arguments, if_neg inner]
    rfl

/-- An inner node without parameters applies its operation to the values of its children. -/
theorem value_of_children {m : Meaning ω V ε} {x y : V} {p : Production ω}
    {children : List (Expr ω)} {operands : List V} (any : children ≠ [])
    (each : List.Forall₂ (fun c v => m.value x y c = .ok v) children operands) :
    m.value x y (.node ⟨p, []⟩ children) = m.apply p.operation operands := by
  obtain ⟨c, cs, rfl⟩ := List.exists_cons_of_ne_nil any
  rw [value_inner, mapM_eq_ok.2 each]
  rfl

/-- An instruction takes its operands from the top of the stack, the last one first. -/
theorem step_instruction (node : Node ω) (operands stack : List V) :
    m.step x y (node.instruction operands.length) (operands.reverse ++ stack) = (do
      let v ← m.apply node.production.operation
        ((node.instruction operands.length).arguments m.lift x y operands)
      .ok (v :: stack)) := by
  rw [step, Node.taken_instruction, List.take_left' (by simp), List.drop_left' (by simp),
    List.reverse_reverse]
  rfl

/-- The codes of some expressions, one after the other, leave their values on any stack, the last
one on top, before whatever follows runs. -/
theorem run_codes (ts : List (Expr ω)) (rest : List (Instruction ω)) (stack : List V)
    (each : ∀ t ∈ ts, ∀ rest stack, m.run x y (t.code ++ rest) stack = (do
      let v ← m.value x y t
      m.run x y rest (v :: stack))) :
    m.run x y (ts.flatMap Expr.code ++ rest) stack = (do
      let operands ← ts.mapM (m.value x y)
      m.run x y rest (operands.reverse ++ stack)) := by
  induction ts generalizing stack with
  | nil => rfl
  | cons t ts ih =>
    rw [List.flatMap_cons, List.append_assoc, each t (by simp), List.mapM_cons]
    cases ht : m.value x y t with
    | error e => rfl
    | ok v =>
      change m.run x y (ts.flatMap Expr.code ++ rest) (v :: stack) = _
      rw [ih (v :: stack) fun u hu => each u (by simp [hu])]
      cases hts : ts.mapM (m.value x y) with
      | error e => rfl
      | ok operands => simp [bind, Except.bind, pure, Except.pure]

/-- The code of an expression leaves its value on any stack, before whatever follows runs. -/
theorem run_code (e : Expr ω) (rest : List (Instruction ω)) (stack : List V) :
    m.run x y (e.code ++ rest) stack = (do
      let v ← m.value x y e
      m.run x y rest (v :: stack)) := by
  -- A child runs above its siblings' values and before their code: the law holds for any of both.
  induction e using Tree.induct generalizing rest stack with
  | node node ts ih =>
    rw [Expr.code_node, List.append_assoc, m.run_codes x y ts _ stack ih, value_node]
    cases h : ts.mapM (m.value x y) with
    | error e => rfl
    | ok operands =>
      have count : ts.length = operands.length := (mapM_eq_ok.1 h).length_eq
      change (m.step x y (node.instruction ts.length) (operands.reverse ++ stack) >>= _) = _
      rw [count, step_instruction, bind_assoc]
      rfl

theorem run_eq_value (e : Expr ω) :
    m.run x y e.compile.instructions [] = (m.value x y e).map ([·]) := by
  have h := m.run_code x y e [] []
  rw [List.append_nil] at h
  rw [← Expr.code, h]
  cases m.value x y e <;> rfl

theorem execute_eq_value (malformed : Nat → ε) (e : Expr ω) :
    m.execute malformed x y e.compile = m.value x y e := by
  rw [execute, run_eq_value]
  cases m.value x y e <;> rfl

/-- The machine gives the value of an expression, or its first failure, and nothing else: its run
leaves one value. Each instruction finds all its operands on the stack, whatever ran before it. -/
theorem execute_compile (malformed : Nat → ε) (e : Expr ω) :
    m.execute malformed x y e.compile = m.value x y e ∧
    m.run x y e.compile.instructions [] = (m.value x y e).map ([·]) ∧
    (∀ node, m.value x y (.node node []) =
      m.apply node.production.operation (x :: y :: node.params.map m.lift)) ∧
    (∀ node t ts, m.value x y (.node node (t :: ts)) = (do
      let operands ← (t :: ts).mapM (m.value x y)
      m.apply node.production.operation (node.params.map m.lift ++ operands))) ∧
    (∀ before i after stack, e.compile.instructions = before ++ i :: after →
      m.run x y before [] = .ok stack → i.Fits stack.length) ∧
    e.compile.instructions.length = e.size := by
  refine ⟨?_, ?_, m.value_leaf x y, m.value_inner x y, ?_, e.length_code⟩
  · exact m.execute_eq_value x y malformed e
  · exact m.run_eq_value x y e
  · intro before i after stack split h
    have measured := e.heightAfter_code 0
    rw [Expr.code, split] at measured
    obtain ⟨mid, hmid, fits⟩ := fits_of_heightAfter measured
    rwa [m.length_run x y hmid h]

end Meaning

end ExpressionArt
