import CallFlow.Except
import CallFlow.Flow.Arguments

/-! # What arguments give

An argument gives a text or an integer, or it gives none where it is missing or null. Reading
accepts exactly these arguments, a required one if it gives a text, and a count if it is no negative
integer.
-/
namespace CallFlow.Fields
variable {arguments : Fields} {kind name s : String} {v v' : Option String}

def GivesText (arguments : Fields) (name : String) : Option String → Prop
  | none => arguments.get? name = none ∨ arguments.get? name = some .null
  | some s => arguments.get? name = some (.str s)

theorem optionalText_eq_ok_iff :
    optionalText arguments kind name = .ok v ↔ arguments.GivesText name v := by
  unfold optionalText
  cases v with
  | none => split <;> simp_all [GivesText]
  | some s => split <;> simp_all [GivesText]

theorem requiredText_eq_ok_iff :
    requiredText arguments kind name = .ok s ↔ arguments.GivesText name (some s) := by
  rw [← optionalText_eq_ok_iff, requiredText, bind_eq_ok]
  constructor
  · rintro ⟨v, hv, h⟩
    cases v with
    | none => cases h
    | some s =>
      cases h
      exact hv
  · exact fun h => ⟨_, h, rfl⟩

theorem GivesText.unique (h : arguments.GivesText name v) (h' : arguments.GivesText name v') :
    v = v' := by
  cases v <;> cases v' <;> simp_all [GivesText]

def GivesInteger (arguments : Fields) (name : String) : Option Int → Prop
  | none => arguments.get? name = none ∨ arguments.get? name = some .null
  | some z => arguments.get? name = some (.int z)

theorem GivesInteger.unique {z z' : Option Int} (h : arguments.GivesInteger name z)
    (h' : arguments.GivesInteger name z') : z = z' := by
  cases z <;> cases z' <;> simp_all [GivesInteger, Json.int]

def GivesCount (arguments : Fields) (name : String) (n : Option Nat) : Prop :=
  arguments.GivesInteger name (n.map fun n : Nat => (n : Int))

theorem GivesInteger.exists_count {z : Option Int} (h : arguments.GivesInteger name z)
    (hz : ∀ x, z = some x → 0 ≤ x) :
    ∃ n : Option Nat, z = n.map (fun n : Nat => (n : Int)) ∧ arguments.GivesCount name n := by
  cases z with
  | none => exact ⟨none, rfl, h⟩
  | some x =>
    obtain ⟨n, rfl⟩ := Int.eq_ofNat_of_zero_le (hz x rfl)
    exact ⟨some n, rfl, h⟩

theorem optionalCount_eq_ok_iff {n : Option Nat} :
    optionalCount arguments kind name = .ok n ↔ arguments.GivesCount name n := by
  unfold optionalCount GivesCount
  split
  case h_3 z hz =>
    by_cases hnonneg : 0 ≤ z
    · rw [if_pos hnonneg]
      cases n with
      | none => simp [GivesInteger, hz]
      | some n =>
        simp only [GivesInteger, Option.map_some, hz, Json.int, Except.ok.injEq, Option.some.injEq,
          Json.num.injEq, Number.int.injEq]
        omega
    · rw [if_neg hnonneg]
      cases n with
      | none => simp [GivesInteger, hz]
      | some n =>
        simp only [GivesInteger, Option.map_some, hz, Json.int, Option.some.injEq, Json.num.injEq,
          Number.int.injEq, reduceCtorEq, false_iff]
        omega
  all_goals cases n <;> simp_all [GivesInteger, Json.int]

end CallFlow.Fields
