import ExpressionArt.Timing.Timings
import Mathlib.Data.List.GetD

/-!
# Which additions make a total

The sum of some numbers is told by the numbers and the places of its additions alone. Fewer than
eight are added in order. Up to a hundred and twenty-eight are added in eight lanes, the lanes in
pairs, and what is left over of the last eight behind them. Of more than these each half is summed
in the same way.
-/

namespace ExpressionArt

namespace Summation

variable {xs sums : List Float} {i : Nat}

/-- Every eighth number from a place on, as long as there are eight. -/
def lane (xs : List Float) (i : Nat) : List Float :=
  (List.range (xs.length / 8)).map fun k => xs.getD (8 * k + i) 0

/-- The numbers of a lane in order, each added to the sum of those before it. -/
def laneSum (xs : List Float) (i : Nat) : Float :=
  match lane xs i with
  | [] => 0
  | first :: rest => rest.foldl (· + ·) first

/-- A number is the sum of others, its additions being where they belong. -/
inductive Adds : List Float → Float → Prop where
  | few {xs : List Float} : xs.length < 8 → Adds xs (xs.foldl (· + ·) 0)
  | lanes {xs : List Float} : 8 ≤ xs.length → xs.length ≤ 128 →
    Adds xs ((xs.drop (8 * (xs.length / 8))).foldl (· + ·)
      (0 + (((laneSum xs 0 + laneSum xs 1) + (laneSum xs 2 + laneSum xs 3)) +
        ((laneSum xs 4 + laneSum xs 5) + (laneSum xs 6 + laneSum xs 7)))))
  | halves {xs : List Float} {a b : Float} : 128 < xs.length →
    Adds (xs.take (8 * (xs.length / 2 / 8))) a → Adds (xs.drop (8 * (xs.length / 2 / 8))) b →
    Adds xs (a + b)

/-- Some numbers have one sum. -/
theorem Adds.unique {a b : Float} (h : Adds xs a) (h' : Adds xs b) : a = b := by
  induction h generalizing b with
  | few short =>
    cases h' with
    | few => rfl
    | lanes long => omega
    | halves long => omega
  | lanes long short =>
    cases h' with
    | few short => omega
    | lanes => rfl
    | halves long => omega
  | halves long _ _ left right =>
    cases h' with
    | few short => omega
    | lanes _ short => omega
    | halves _ left' right' => rw [left left', right right']

/-! ## Dealing out -/

theorem deal_of_lt (short : xs.length < 8) : deal sums xs = (sums, xs) := by
  rw [deal, if_neg (show ¬ lanes ≤ xs.length from Nat.not_le.2 short)]

theorem deal_of_le (long : 8 ≤ xs.length) :
    deal sums xs = deal (List.zipWith (· + ·) sums (xs.take 8)) (xs.drop 8) := by
  rw [deal, if_pos (show lanes ≤ xs.length from long)]
  rfl

theorem lane_of_lt (short : xs.length < 8) : lane xs i = [] := by
  rw [lane, Nat.div_eq_of_lt short]
  rfl

theorem lane_of_le (long : 8 ≤ xs.length) : lane xs i = xs.getD i 0 :: lane (xs.drop 8) i := by
  have more : xs.length / 8 = (xs.drop 8).length / 8 + 1 := by
    rw [List.length_drop]
    omega
  rw [lane, more, List.range_succ_eq_map, List.map_cons, List.map_map, lane]
  refine congr (congrArg _ (by simp)) (List.map_congr_left fun k _ => ?_)
  have place : 8 * (k + 1) + i = 8 + (8 * k + i) := by omega
  simp [List.getD_eq_getElem?_getD, place]

theorem drop_eights (long : 8 ≤ xs.length) :
    (xs.drop 8).drop (8 * ((xs.drop 8).length / 8)) = xs.drop (8 * (xs.length / 8)) := by
  have whole : 8 + 8 * ((xs.length - 8) / 8) = 8 * (xs.length / 8) := by omega
  rw [List.length_drop, List.drop_drop, whole]

/-- Each running sum goes on with its lane, and what is left is no whole eight. -/
theorem deal_eq {sums : List Float} (eight : sums.length = 8) (xs : List Float) : deal sums xs =
    ((List.range 8).map fun i => (lane xs i).foldl (· + ·) (sums.getD i 0),
      xs.drop (8 * (xs.length / 8))) := by
  by_cases short : xs.length < 8
  · rw [deal_of_lt short, Nat.div_eq_of_lt short]
    refine Prod.ext (List.ext_getElem (by simp [eight]) fun i here _ => ?_) rfl
    have inside : i < sums.length := here
    simp [lane_of_lt short, inside]
  · have long : 8 ≤ xs.length := Nat.not_lt.1 short
    have taken : (List.zipWith (· + ·) sums (xs.take 8)).length = 8 := by simp [eight, long]
    rw [deal_of_le long, deal_eq taken]
    -- One deal takes the first number of every lane.
    refine congrArg₂ Prod.mk (List.map_congr_left fun i member => ?_) (drop_eights long)
    have inside : i < 8 := List.mem_range.1 member
    have here : i < xs.length := by omega
    have next : (List.zipWith (· + ·) sums (xs.take 8)).getD i 0 =
        sums.getD i 0 + xs.getD i 0 := by
      rw [List.getD_eq_getElem _ _ (by omega), List.getD_eq_getElem _ _ (by omega),
        List.getD_eq_getElem _ _ here, List.getElem_zipWith, List.getElem_take]
    rw [next, lane_of_le long, List.foldl_cons]
termination_by xs.length
decreasing_by simp only [List.length_drop]; omega

/-! ## Sums -/

theorem laneSum_of_le (long : 8 ≤ xs.length) (inside : i < 8) :
    laneSum xs i = (lane (xs.drop 8) i).foldl (· + ·) ((xs.take 8).getD i 0) := by
  rw [laneSum, lane_of_le long]
  simp [List.getD_eq_getElem?_getD, inside]

theorem adds_block (short : xs.length ≤ 128) : Adds xs (block xs) := by
  by_cases few : xs.length < 8
  · rw [block, if_pos (show xs.length < lanes from few)]
    exact .few few
  · have long : 8 ≤ xs.length := Nat.not_lt.1 few
    have eight : (xs.take 8).length = 8 := by simp [long]
    have sum := Adds.lanes long short
    simp only [laneSum_of_le long, Nat.reduceLT] at sum
    rw [block, if_neg (show ¬ xs.length < lanes from few)]
    change Adds xs (sequential (sequential 0 (pairs (pairs (pairs
      (deal (xs.take 8) (xs.drop 8)).1)))) (deal (xs.take 8) (xs.drop 8)).2)
    rw [deal_eq eight, drop_eights long]
    exact sum

theorem adds_sum (xs : List Float) : Adds xs (sum xs) := by
  by_cases short : xs.length ≤ 128
  · rw [sum, if_pos (show xs.length ≤ maxBlock from short)]
    exact adds_block short
  · have half : xs.length / 2 - xs.length / 2 % lanes = 8 * (xs.length / 2 / 8) := by
      rw [lanes]
      omega
    rw [sum, if_neg (show ¬ xs.length ≤ maxBlock from short)]
    dsimp only
    rw [half]
    exact .halves (Nat.not_le.1 short) (adds_sum _) (adds_sum _)
termination_by xs.length
decreasing_by all_goals simp only [List.length_take, List.length_drop]; omega

end Summation

theorem adds_iff_total {xs : List Float} {sum : Float} :
    Summation.Adds xs sum ↔ total xs = sum := by
  have adds : Summation.Adds xs (total xs) := Summation.adds_sum xs
  exact ⟨adds.unique, fun same => same ▸ adds⟩

end ExpressionArt
