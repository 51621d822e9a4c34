import ExpressionArt.Number.Text
import ExpressionArt.Proofs.Number.Shortest
import ExpressionArt.Proofs.Text.Templates

/-!
# Texts of doubles

The text of a positive double is a run of digits, perhaps with a point and digits behind it, perhaps
with an exponent. Such a text writes one number only, and the number of a shortest decimal is one
double's only. So the texts of two doubles differ, and they are made of few characters.
-/

namespace ExpressionArt

/-- What readers rely on about the text of numbers. Of NaN nothing is asked. -/
structure Spells (number : Float → String) : Prop where
  injective : ∀ {a b}, a.isNaN = false → b.isNaN = false → number a = number b → a = b
  spelled : ∀ {a}, a.isNaN = false → number a = "inf" ∨ number a = "-inf" ∨
    number a ≠ "" ∧ ∀ c ∈ (number a).toList, c.isDigit ∨ c ∈ ['.', 'e', '+', '-']

def Digits (cs : List Char) : Prop := ∀ c ∈ cs, c.isDigit

/-- The number that a run of digits writes. -/
def digitsNumber (cs : List Char) : Nat := Nat.ofDigitChars 10 cs 0

/-- A point with digits behind it, or nothing. -/
inductive Fraction : List Char → List Char → Prop where
  | none : Fraction [] []
  | some {ds : List Char} : Digits ds → Fraction ('.' :: ds) ds

/-- A power of ten with its sign, or nothing. -/
inductive Exponent : List Char → Int → Prop where
  | none : Exponent [] 0
  | plus {ds : List Char} : Digits ds → Exponent ('e' :: '+' :: ds) (digitsNumber ds)
  | minus {ds : List Char} : Digits ds → Exponent ('e' :: '-' :: ds) (-digitsNumber ds)

/-- A text of digits, with a fraction and an exponent, and the number that it writes. -/
inductive Plain : List Char → ℚ → Prop where
  | intro {whole point fraction power : List Char} {x : Int} : whole ≠ [] → Digits whole →
    Fraction point fraction → Exponent power x →
    Plain (whole ++ (point ++ power))
      (Decimal.value ⟨digitsNumber (whole ++ fraction), x - fraction.length⟩)

theorem Exponent.unique {cs : List Char} {x y : Int} (h : Exponent cs x) (h' : Exponent cs y) :
    x = y := by
  cases h <;> cases h' <;> rfl

theorem Exponent.halts {cs : List Char} {x : Int} (h : Exponent cs x) : Halts Char.isDigit cs := by
  cases h <;> rfl

theorem Fraction.halts {point fraction power : List Char} {x : Int} (h : Fraction point fraction)
    (h' : Exponent power x) : Halts Char.isDigit (point ++ power) := by
  cases h with
  | none => exact h'.halts
  | some _ => rfl

theorem Fraction.unique {point point' fraction fraction' power power' : List Char} {x x' : Int}
    (h : Fraction point fraction) (h' : Fraction point' fraction') (e : Exponent power x)
    (e' : Exponent power' x') (same : point ++ power = point' ++ power') :
    fraction = fraction' ∧ power = power' := by
  cases h with
  | none =>
    cases h' with
    | none => exact ⟨rfl, same⟩
    | some _ => cases e <;> cases same
  | some digits =>
    cases h' with
    | none => cases e' <;> cases same
    | some digits' => exact run_inj digits digits' e.halts e'.halts (List.cons.inj same).2

theorem Plain.unique {cs : List Char} {x y : ℚ} (h : Plain cs x) (h' : Plain cs y) : x = y := by
  generalize same : cs = cs' at h'
  obtain ⟨some, digits, point, power⟩ := h
  obtain ⟨some', digits', point', power'⟩ := h'
  obtain ⟨rfl, behind⟩ := run_inj digits digits' (point.halts power) (point'.halts power') same
  obtain ⟨rfl, rfl⟩ := point.unique point' power power' behind
  rw [power.unique power']

theorem Plain.head {cs : List Char} {x : ℚ} (h : Plain cs x) :
    ∃ c rest, cs = c :: rest ∧ c.isDigit := by
  obtain ⟨some, digits, -, -⟩ := h
  obtain ⟨c, rest, rfl⟩ := List.exists_cons_of_ne_nil some
  exact ⟨c, _, rfl, digits c (by simp)⟩

theorem Plain.letters {cs : List Char} {x : ℚ} (h : Plain cs x) :
    ∀ c ∈ cs, c.isDigit ∨ c ∈ ['.', 'e', '+', '-'] := by
  have digitsOnly : ∀ {ds : List Char}, Digits ds →
      ∀ c ∈ ds, c.isDigit ∨ c ∈ ['.', 'e', '+', '-'] := fun digits c hc => .inl (digits c hc)
  obtain ⟨-, digits, point, power⟩ := h
  simp only [List.forall_mem_append]
  refine ⟨digitsOnly digits, ?_, ?_⟩
  · cases point with
    | none => exact nofun
    | some digits => exact List.forall_mem_cons.2 ⟨by decide, digitsOnly digits⟩
  · cases power with
    | none => exact nofun
    | plus digits | minus digits =>
      exact List.forall_mem_cons.2 ⟨by decide,
        List.forall_mem_cons.2 ⟨by decide, digitsOnly digits⟩⟩

/-! ## The text of a decimal -/

theorem digits_toDigits (n : Nat) : Digits (Nat.toDigits 10 n) := fun _ =>
  Nat.isDigit_of_mem_toDigits (by decide) (by decide)

theorem digits_replicate (n : Nat) : Digits (List.replicate n '0') := fun _ hc =>
  (List.mem_replicate.1 hc).2 ▸ rfl

theorem digitsNumber_toDigits (n : Nat) : digitsNumber (Nat.toDigits 10 n) = n :=
  Nat.ofDigitChars_ten_toDigits

theorem digitsNumber_pad (n : Nat) (cs : List Char) :
    digitsNumber (List.replicate n '0' ++ cs) = digitsNumber cs := by
  rw [digitsNumber, Nat.ofDigitChars_append, Nat.ofDigitChars_replicate_zero, Nat.mul_zero,
    digitsNumber]

theorem digitsNumber_shift (cs : List Char) (n : Nat) :
    digitsNumber (cs ++ List.replicate n '0') = digitsNumber cs * 10 ^ n := by
  rw [digitsNumber, Nat.ofDigitChars_append, Nat.ofDigitChars_replicate_zero, Nat.mul_comm,
    digitsNumber]

theorem toList_zeroPad (width : Nat) (text : String) :
    (zeroPad width text).toList =
      List.replicate (width - text.length) '0' ++ text.toList := by
  rw [zeroPad, String.toList_append, String.toList_ofList]

namespace Decimal

theorem exponent_text (style : PointStyle) (x : Int) :
    Exponent ('e' :: (exponentText style x).toList) x := by
  have padded : ∃ n, (zeroPad style.exponentDigits (toString x.natAbs)).toList =
      List.replicate n '0' ++ Nat.toDigits 10 x.natAbs := by
    rw [toList_zeroPad, Nat.toString_eq_ofList_toDigits, String.toList_ofList]
    exact ⟨_, rfl⟩
  obtain ⟨n, padded⟩ := padded
  have digits : Digits (List.replicate n '0' ++ Nat.toDigits 10 x.natAbs) :=
    List.forall_mem_append.2 ⟨digits_replicate n, digits_toDigits _⟩
  have number : digitsNumber (List.replicate n '0' ++ Nat.toDigits 10 x.natAbs) = x.natAbs := by
    rw [digitsNumber_pad, digitsNumber_toDigits]
  rw [exponentText, String.toList_append, padded]
  split
  · next negative =>
    have written := Exponent.minus digits
    rw [number, show -(x.natAbs : Int) = x by omega] at written
    exact written
  · next positive =>
    have written := Exponent.plus digits
    rw [number, show (x.natAbs : Int) = x by omega] at written
    exact written

theorem value_dropZeros (n : Nat) (d : Decimal) : (dropZeros n d).value = d.value := by
  induction n generalizing d with
  | zero => rfl
  | succ n ih =>
    rw [dropZeros]
    split
    · next h =>
      obtain ⟨k, hk⟩ := Nat.dvd_of_mod_eq_zero h.2
      rw [ih, value, value, hk, Nat.mul_div_cancel_left k (by decide), zpow_add_one₀ (by norm_num)]
      push_cast
      ring
    · rfl

section

variable {ds : List Char} {x : Int} {t : Nat}

/-- The text of digits below the point: zeros come first. -/
theorem plain_small (digits : Digits ds) (k : Nat) :
    Plain ("0." ++ zeros k ++ String.ofList ds).toList
      (value ⟨digitsNumber ds, -(k + ds.length : Nat)⟩) := by
  have padded : Digits (List.replicate k '0' ++ ds) :=
    List.forall_mem_append.2 ⟨digits_replicate k, digits⟩
  have written := Plain.intro (by simp) (digits_replicate 1) (.some padded) .none
  rw [digitsNumber_pad, digitsNumber_pad, List.length_append, List.length_replicate,
    zero_sub] at written
  simpa [zeros] using written

/-- The text of digits around the point. -/
theorem plain_middle (digits : Digits ds) (some : ds ≠ []) (ht : 0 < t) :
    Plain (String.ofList (ds.take t) ++ zeros (t - (ds.take t).length) ++ "." ++
        (if (ds.drop t).isEmpty then "0" else String.ofList (ds.drop t))).toList
      (value ⟨digitsNumber ds, t - ds.length⟩) := by
  split
  · next none =>
    have short : ds.length ≤ t := List.drop_eq_nil_iff.1 (List.isEmpty_iff.1 none)
    have whole : Digits (ds ++ List.replicate (t - ds.length) '0') :=
      List.forall_mem_append.2 ⟨digits, digits_replicate _⟩
    have written := Plain.intro (by simp [some]) whole (.some (digits_replicate 1)) .none
    have number : value ⟨digitsNumber (ds ++ List.replicate (t - ds.length) '0' ++
        List.replicate 1 '0'), 0 - (List.replicate 1 '0').length⟩ =
        value ⟨digitsNumber ds, t - ds.length⟩ := by
      rw [digitsNumber_shift, digitsNumber_shift, value, value, ← Nat.cast_sub short,
        zpow_natCast]
      push_cast
      norm_num
      ring
    rw [number] at written
    simpa [zeros, List.take_of_length_le short] using written
  · next rest =>
    have long : t < ds.length := by
      by_contra! short
      exact rest (List.isEmpty_iff.2 (List.drop_eq_nil_iff.2 short))
    have whole : Digits (ds.take t) := fun c hc => digits c (List.mem_of_mem_take hc)
    have fraction : Digits (ds.drop t) := fun c hc => digits c (List.mem_of_mem_drop hc)
    have written := Plain.intro (by simp [some, ht.ne']) whole (.some fraction) .none
    rw [List.take_append_drop, List.length_drop, Nat.cast_sub long.le, zero_sub, neg_sub] at written
    simpa [zeros, Nat.min_eq_left long.le] using written

/-- The text of digits with an exponent. -/
theorem plain_scientific (style : PointStyle) (digits : Digits ds) (some : ds ≠ []) (x : Int) :
    Plain (String.ofList (ds.take 1) ++
        (if (ds.drop 1).isEmpty then "" else "." ++ String.ofList (ds.drop 1)) ++ "e" ++
        exponentText style x).toList
      (value ⟨digitsNumber ds, x - (ds.length - 1)⟩) := by
  have whole : Digits (ds.take 1) := fun c hc => digits c (List.mem_of_mem_take hc)
  have rest : Digits (ds.drop 1) := fun c hc => digits c (List.mem_of_mem_drop hc)
  have fraction :
      Fraction (if (ds.drop 1).isEmpty then "" else "." ++ String.ofList (ds.drop 1)).toList
        (ds.drop 1) := by
    split
    · next none =>
      rw [List.isEmpty_iff.1 none]
      exact .none
    · simp only [String.toList_append, String.toList_ofList]
      exact .some rest
  have written := Plain.intro (by simp [some]) whole fraction (exponent_text style x)
  have counted : 1 ≤ ds.length := List.length_pos_iff.2 some
  rw [List.take_append_drop, List.length_drop, Nat.cast_sub counted, Nat.cast_one] at written
  simpa using written

end

/-- The text of a decimal writes its number. -/
theorem plain_text (style : PointStyle) (d : Decimal) : Plain (d.text style).toList d.value := by
  rw [← value_dropZeros (digitCount d.digits) d, text]
  dsimp only
  generalize dropZeros (digitCount d.digits) d = d
  have digits := digits_toDigits d.digits
  have some : Nat.toDigits 10 d.digits ≠ [] := Nat.toDigits_ne_nil
  have number := digitsNumber_toDigits d.digits
  generalize Nat.toDigits 10 d.digits = ds at digits some number ⊢
  obtain ⟨n, e⟩ := d
  dsimp only at number ⊢
  subst number
  split
  · split
    · have written := plain_small digits (-(e + ds.length - 1) - 1 : Int).toNat
      rw [show -(((-(e + ds.length - 1) - 1 : Int).toNat + ds.length : Nat) : Int) = e by omega]
        at written
      exact written
    · have written := @plain_middle ds (e + ds.length - 1 + 1 : Int).toNat digits some (by omega)
      rw [show ((e + ds.length - 1 + 1 : Int).toNat : Int) - ds.length = e by omega] at written
      exact written
  · have written := plain_scientific style digits some (e + ds.length - 1)
    rw [show e + ds.length - 1 - (ds.length - 1) = e by omega] at written
    exact written

end Decimal

/-! ## The text of a double -/

namespace Binary64

/-- What the text of a magnitude writes. -/
def written (m : Nat) (q : Int) : ℚ := if m = 0 then 0 else (Decimal.shortest m q).value

/-- The text of a finite double is its sign and what its magnitude writes. -/
theorem plain_text (s : Bool) (m : Nat) (q : Int) : ∃ cs, Plain cs (written m q) ∧
    (text (.finite s m q)).toList = if s then '-' :: cs else cs := by
  have magnitude : Plain (if m = 0 then "0.0" else (Decimal.shortest m q).text .plain).toList
      (written m q) := by
    unfold written
    split
    · have zero := Plain.intro (by simp) (digits_replicate 1) (.some (digits_replicate 1)) .none
      have nothing : digitsNumber (List.replicate 1 '0' ++ List.replicate 1 '0') = 0 := rfl
      rw [nothing, Decimal.value, Nat.cast_zero, zero_mul] at zero
      exact zero
    · exact Decimal.plain_text .plain _
  refine ⟨_, magnitude, ?_⟩
  rw [text, textWith, String.toList_append]
  cases s <;> rfl

theorem letters_text (s : Bool) (m : Nat) (q : Int) :
    ∀ c ∈ (text (.finite s m q)).toList, c.isDigit ∨ c ∈ ['.', 'e', '+', '-'] := by
  obtain ⟨cs, plain, chars⟩ := plain_text s m q
  rw [chars]
  split
  · exact List.forall_mem_cons.2 ⟨by decide, plain.letters⟩
  · exact plain.letters

theorem text_ne_empty (s : Bool) (m : Nat) (q : Int) : text (.finite s m q) ≠ "" := by
  obtain ⟨cs, plain, chars⟩ := plain_text s m q
  obtain ⟨c, rest, rfl, -⟩ := plain.head
  intro empty
  rw [empty] at chars
  cases s <;> cases chars

variable {s s' : Bool} {m m' : Nat} {q q' : Int}

/-- The text of a finite double tells its sign and its number. -/
theorem written_unique (same : text (.finite s m q) = text (.finite s' m' q')) :
    s = s' ∧ written m q = written m' q' := by
  obtain ⟨cs, plain, chars⟩ := plain_text s m q
  obtain ⟨cs', plain', chars'⟩ := plain_text s' m' q'
  obtain ⟨c, rest, front, digit⟩ := plain.head
  obtain ⟨c', rest', front', digit'⟩ := plain'.head
  rw [same, chars'] at chars
  have signs : s = s' := by
    rw [front, front'] at chars
    cases s <;> cases s'
    · rfl
    · obtain ⟨rfl, -⟩ := List.cons.inj chars
      cases digit
    · obtain ⟨rfl, -⟩ := List.cons.inj chars
      cases digit'
    · rfl
  subst signs
  have equal : cs' = cs := by cases s <;> simpa using chars
  exact ⟨rfl, plain.unique (equal ▸ plain')⟩

/-- The number that a text writes is that of one double's magnitude. -/
theorem written_injective (h : Canonical m q) (h' : Canonical m' q')
    (same : written m q = written m' q') : m = m' ∧ q = q' := by
  have positive : ∀ {m : Nat} {q : Int}, Canonical m q → m ≠ 0 →
      0 < (Decimal.shortest m q).value := fun h hm =>
    Decimal.value_pos_of_readsAs (Nat.pos_of_ne_zero hm)
      (Decimal.readsAs_shortest_of_canonical h (Nat.pos_of_ne_zero hm))
  unfold written at same
  split at same <;> split at same
  · next zero zero' =>
    have low := h.leading
    have low' := h'.leading
    omega
  · next _ some => exact absurd same (positive h' some).ne
  · next some _ => exact absurd same (positive h some).ne'
  · next some some' =>
    exact Decimal.readsAs_unique h h'
      (Decimal.readsAs_shortest_of_canonical h (Nat.pos_of_ne_zero some))
      (Decimal.readsAs_shortest_of_canonical h' (Nat.pos_of_ne_zero some')) same

/-- Parts that a double has if it is a number. -/
def Proper : Binary64 → Prop
  | .nan => False
  | .infinite _ => True
  | .finite _ m q => Canonical m q

theorem proper_ofFloat {a : Float} (number : a.isNaN = false) : (ofFloat a).Proper := by
  cases parts : ofFloat a with
  | nan => exact Bool.false_ne_true (number.symm.trans (isNaN_of_ofFloat parts))
  | infinite s => trivial
  | finite s m q => exact canonical_of_ofBits parts

theorem text_infinite_ne (s : Bool) (s' : Bool) (m : Nat) (q : Int) :
    text (.infinite s) ≠ text (.finite s' m q) := by
  intro same
  have letters := letters_text s' m q
  rw [← same] at letters
  have letter := letters 'i' (by cases s <;> decide)
  exact absurd letter (by decide)

theorem text_injective {a b : Binary64} (ha : a.Proper) (hb : b.Proper) (same : a.text = b.text) :
    a = b := by
  cases a with
  | nan => cases ha
  | infinite s =>
    cases b with
    | nan => cases hb
    | infinite s' => cases s <;> cases s' <;> first | rfl | exact absurd same (by decide)
    | finite s' m q => exact absurd same (text_infinite_ne s s' m q)
  | finite s m q =>
    cases b with
    | nan => cases hb
    | infinite s' => exact absurd same.symm (text_infinite_ne s' s m q)
    | finite s' m' q' =>
      obtain ⟨rfl, number⟩ := written_unique same
      obtain ⟨rfl, rfl⟩ := written_injective ha hb number
      rfl

end Binary64

/-- The shortest texts of doubles are spelled apart. -/
theorem spells_floatText : Spells floatText where
  injective {a b} ha hb same :=
    Binary64.ofFloat_injective ha (Binary64.text_injective (Binary64.proper_ofFloat ha)
      (Binary64.proper_ofFloat hb) same)
  spelled {a} ha := by
    have proper := Binary64.proper_ofFloat ha
    unfold floatText
    cases parts : Binary64.ofFloat a with
    | nan => rw [parts] at proper; cases proper
    | infinite s => cases s <;> simp [Binary64.text, Binary64.textWith]
    | finite s m q =>
      exact .inr (.inr ⟨Binary64.text_ne_empty s m q, Binary64.letters_text s m q⟩)

end ExpressionArt
