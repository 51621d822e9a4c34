/-!
# Tables of pairs

What a key leads to after a table was changed: after an entry was put in place of another one or
behind all of them, after the values of a key were changed, and after entries were left out. And
what is left of keys of which each is kept once.
-/

namespace ExpressionArt

namespace Lookup

variable {κ ν : Type} [BEq κ] [LawfulBEq κ] [DecidableEq κ] {k c : κ}

theorem lookup_cons (k : κ) (v : ν) (table : List (κ × ν)) :
    List.lookup c ((k, v) :: table) = if c = k then some v else List.lookup c table := by
  by_cases h : c = k
  · simp [h]
  · rw [List.lookup_cons, beq_false_of_ne h, if_neg h]

theorem lookup_modify (table : List (κ × ν)) (f : ν → ν) :
    List.lookup c (table.map fun e => if e.1 = k then (k, f e.2) else e) =
      if c = k then (List.lookup k table).map f else List.lookup c table := by
  induction table with
  | nil => simp
  | cons e table ih =>
    obtain ⟨n, w⟩ := e
    rw [List.map_cons, lookup_cons, lookup_cons]
    by_cases replaced : n = k
    · subst replaced
      rw [if_pos rfl, lookup_cons, ih]
      split <;> simp
    · rw [if_neg replaced, lookup_cons, ih, if_neg (Ne.symm replaced)]
      grind

theorem any_iff_lookup (table : List (κ × ν)) :
    table.any (·.1 == k) ↔ (List.lookup k table).isSome := by
  induction table with
  | nil => simp
  | cons e table ih =>
    obtain ⟨n, w⟩ := e
    rw [lookup_cons, List.any_cons, Bool.or_eq_true, ih]
    by_cases h : n = k <;> grind

/-- An entry put in place of the one with its key, or else behind all others, is found. -/
theorem lookup_put (table : List (κ × ν)) (v : ν) :
    List.lookup c (if table.any (·.1 == k) then
      table.map fun e => if e.1 = k then (k, v) else e else table ++ [(k, v)]) =
        if c = k then some v else List.lookup c table := by
  split
  · next present =>
    obtain ⟨w, old⟩ := Option.isSome_iff_exists.1 ((any_iff_lookup table).1 present)
    rw [lookup_modify table fun _ => v, old]
    rfl
  · next absent =>
    have fresh : List.lookup k table = none := by
      rwa [any_iff_lookup, Option.not_isSome_iff_eq_none] at absent
    rw [List.lookup_append, lookup_cons]
    split
    · next h => rw [h, fresh, Option.none_or]
    · simp

theorem lookup_filter (keep : κ → Bool) (kept : keep c) (table : List (κ × ν)) :
    List.lookup c (table.filter fun e => keep e.1) = List.lookup c table := by
  induction table with
  | nil => rfl
  | cons e table ih =>
    obtain ⟨n, w⟩ := e
    rw [List.filter_cons, lookup_cons]
    split
    · rw [lookup_cons, ih]
    · next left =>
      have other : c ≠ n := fun same => left (same ▸ kept)
      rw [ih, if_neg other]

/-- A key all of whose entries agree leads to their value. -/
theorem lookup_eq_some {table : List (κ × ν)} {v : ν} (present : (k, v) ∈ table)
    (only : ∀ w, (k, w) ∈ table → w = v) : List.lookup k table = some v := by
  induction table with
  | nil => exact nomatch present
  | cons e table ih =>
    obtain ⟨n, w⟩ := e
    rw [lookup_cons]
    by_cases here : k = n
    · subst here
      rw [if_pos rfl, only w List.mem_cons_self]
    · rw [if_neg here]
      refine ih (List.mem_of_ne_of_mem ?_ present) fun w later =>
        only w (List.mem_cons_of_mem _ later)
      exact fun same => here (congrArg Prod.fst same)

theorem nodup_eraseDups {α : Type} [BEq α] [LawfulBEq α] (xs : List α) : xs.eraseDups.Nodup := by
  induction length : xs.length using Nat.strongRecOn generalizing xs with
  | _ n ih =>
    cases xs with
    | nil => simp
    | cons x xs =>
      have shorter := List.length_filter_le (fun y => !y == x) xs
      rw [List.length_cons] at length
      rw [List.eraseDups_cons, List.nodup_cons]
      exact ⟨by simp, ih _ (by omega) _ rfl⟩

end Lookup

end ExpressionArt
