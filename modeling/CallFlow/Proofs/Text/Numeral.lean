import CallFlow.Text.Numeral
import CallFlow.Proofs.Text.Trimming
import Mathlib.Data.Nat.Digits.Defs

/-! # What decimal numerals denote

A numeral is an optional sign and one or more ASCII digits, and the digits count by their places.
Reading accepts the numerals of 64-bit integers and no other text, and every such integer is read
from its own decimal text.
-/
namespace CallFlow.Text
variable {cs ds : List Char} {c : Char} {z : Int}

def placeValue (ds : List Char) : Nat :=
  Nat.ofDigits 10 (ds.reverse.map fun c => c.toNat - '0'.toNat)

inductive Denotes : List Char → Int → Prop
  | unsigned {ds : List Char} (some : ds ≠ []) (digits : ∀ c ∈ ds, c.isDigit = true) :
    Denotes ds (placeValue ds)
  | plus {ds : List Char} (some : ds ≠ []) (digits : ∀ c ∈ ds, c.isDigit = true) :
    Denotes ('+' :: ds) (placeValue ds)
  | minus {ds : List Char} (some : ds ≠ []) (digits : ∀ c ∈ ds, c.isDigit = true) :
    Denotes ('-' :: ds) (-(placeValue ds : Int))

theorem isDigits_iff : isDigits ds = true ↔ ds ≠ [] ∧ ∀ c ∈ ds, c.isDigit = true := by
  simp [isDigits]

theorem digitsValue_eq_placeValue (ds : List Char) : digitsValue ds = placeValue ds := by
  induction ds using List.reverseRecOn with
  | nil => rfl
  | append_singleton front c ih =>
    have hlast : digitsValue (front ++ [c]) = 10 * digitsValue front + (c.toNat - '0'.toNat) := by
      simp only [digitsValue, List.foldl_append, List.foldl_cons, List.foldl_nil]
    rw [hlast, ih, placeValue, placeValue, List.reverse_append, List.reverse_singleton,
      List.singleton_append, List.map_cons, Nat.ofDigits_cons, Nat.add_comm]

/-! ## Reading -/

theorem int64OfInt?_eq_some_iff {n : Int64} : int64OfInt? z = some n ↔ z = n.toInt := by
  have hpow : Int.pow 2 63 = 9223372036854775808 := by decide
  simp only [int64OfInt?, fitsInt64, hpow, Bool.and_eq_true, decide_eq_true_eq]
  constructor
  · intro h
    split at h
    · rename_i hrange
      rw [← Option.some.inj h]
      exact (Int64.toInt_ofInt_of_le hrange.1 hrange.2).symm
    · cases h
  · rintro rfl
    rw [if_pos ⟨n.le_toInt, n.toInt_lt⟩, Int64.ofInt_toInt]

theorem splitSign_of_isDigit (h : ∀ c ∈ ds, c.isDigit = true) : splitSign ds = (false, ds) := by
  unfold splitSign
  split
  · exact absurd (h '-' List.mem_cons_self) (by decide)
  · exact absurd (h '+' List.mem_cons_self) (by decide)
  · rfl

/-- The texts that are read as 64-bit integers are their numerals. -/
theorem readInt64_eq_some_iff {n : Int64} : readInt64 cs = some n ↔ Denotes cs n.toInt := by
  unfold readInt64
  constructor
  · intro h
    split at h
    rename_i negative ds hsplit
    split at h
    · rename_i hdigits
      obtain ⟨hsome, hdigits⟩ := isDigits_iff.mp hdigits
      rw [int64OfInt?_eq_some_iff, digitsValue_eq_placeValue] at h
      rw [← h]
      unfold splitSign at hsplit
      split at hsplit <;> cases hsplit
      · exact .minus hsome hdigits
      · exact .plus hsome hdigits
      · exact .unsigned hsome hdigits
    · cases h
  · intro h
    generalize hz : n.toInt = z at h
    cases h with
    | unsigned hsome hdigits =>
      simp only [splitSign_of_isDigit hdigits, isDigits_iff.mpr ⟨hsome, hdigits⟩, if_true,
        Bool.false_eq_true, if_false, digitsValue_eq_placeValue, int64OfInt?_eq_some_iff, hz]
    | plus hsome hdigits | minus hsome hdigits =>
      simp only [splitSign, isDigits_iff.mpr ⟨hsome, hdigits⟩, if_true, Bool.false_eq_true, if_false,
        digitsValue_eq_placeValue, int64OfInt?_eq_some_iff, hz]

/-! ## Writing -/

theorem placeValue_toDigits (n : Nat) : placeValue (Nat.toDigits 10 n) = n := by
  rw [← digitsValue_eq_placeValue]
  exact Nat.ofDigitChars_ten_toDigits

theorem isDigit_of_mem_toDigits {n : Nat} (h : c ∈ Nat.toDigits 10 n) : c.isDigit = true :=
  Nat.isDigit_of_mem_toDigits (by decide) (by decide) h

theorem denotes_toString (z : Int) : Denotes (toString z).toList z := by
  cases z with
  | ofNat n =>
    have hdigits := Denotes.unsigned (Nat.toDigits_ne_nil (b := 10) (n := n))
      fun _ => isDigit_of_mem_toDigits
    rw [placeValue_toDigits] at hdigits
    have htext : (toString (Int.ofNat n)).toList = Nat.toDigits 10 n := Nat.toList_repr
    rw [htext]
    exact hdigits
  | negSucc n =>
    have hdigits := Denotes.minus (Nat.toDigits_ne_nil (b := 10) (n := n + 1))
      fun _ => isDigit_of_mem_toDigits
    rw [placeValue_toDigits] at hdigits
    have htext : (toString (Int.negSucc n)).toList = '-' :: Nat.toDigits 10 (n + 1) := by
      show ("-" ++ Nat.repr (n + 1)).toList = _
      simp
    rw [htext]
    exact hdigits

/-! ## The characters of a numeral -/

theorem isBlank_of_isDigit (h : c.isDigit = true) : isBlank c = false := by
  obtain ⟨hle, hle'⟩ := Char.isDigit_iff_toNat.mp h
  have hzero : '0'.toNat = 48 := rfl
  have hnine : '9'.toNat = 57 := rfl
  simp only [isBlank, List.contains_eq_mem, List.mem_cons, List.not_mem_nil]
  grind

theorem Denotes.of_mem (h : Denotes cs z) (hc : c ∈ cs) :
    c.isDigit = true ∨ c = '+' ∨ c = '-' := by
  cases h with
  | unsigned _ digits => exact .inl (digits c hc)
  | plus _ digits =>
    rcases List.mem_cons.mp hc with rfl | hc
    · exact .inr (.inl rfl)
    · exact .inl (digits c hc)
  | minus _ digits =>
    rcases List.mem_cons.mp hc with rfl | hc
    · exact .inr (.inr rfl)
    · exact .inl (digits c hc)

theorem Denotes.ne_nil (h : Denotes cs z) : cs ≠ [] := by
  cases h with
  | unsigned some => exact some
  | plus | minus => simp

theorem Denotes.trimmed (h : Denotes cs z) : Trimmed cs := by
  refine trimmed_of_all fun c hc => ?_
  rcases h.of_mem hc with hc | rfl | rfl
  · exact isBlank_of_isDigit hc
  · decide
  · decide

end CallFlow.Text
