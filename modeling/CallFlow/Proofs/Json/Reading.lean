import CallFlow.Json.Record
import CallFlow.Proofs.Store.Tables

/-! # Reading what was written

A record that was written as an object is read by name: a member is found as it was written, a
member that was left out has its fallback. A written form round-trips if all that may be written
is read back, and whatever is read may be written.
-/
namespace CallFlow

theorem Table.ofList_entries {κ α : Type} [Ord κ] [Std.TransOrd κ] [Std.LawfulEqOrd κ]
    (t : Table κ α) : Table.ofList t.entries = t := by
  -- the entries taken so far stand before all that are still to come
  have hfold (taken rest : List (κ × α)) (s : Table κ α) (hs : s.entries = taken)
      (ho : (taken ++ rest).Pairwise (fun a b => compare a.1 b.1 = .lt)) :
      (rest.foldl (fun t e => t.insert e.1 e.2) s).entries = taken ++ rest := by
    induction rest generalizing taken s with
    | nil => simpa using hs
    | cons e rest ih =>
      have hlast : ∀ a ∈ taken, compare e.1 a.1 = .gt := by
        intro a ha
        obtain ⟨-, -, hcross⟩ := List.pairwise_append.mp ho
        exact Std.OrientedCmp.gt_of_lt (hcross a ha e List.mem_cons_self)
      have hinsert : (s.insert e.1 e.2).entries = taken ++ [e] := by
        show insertEntry e.1 e.2 s.entries = _
        rw [hs, insertEntry_last hlast]
      have hrest := ih (taken ++ [e]) (s.insert e.1 e.2) hinsert (by simpa using ho)
      simpa using hrest
  exact Table.ext (hfold [] t.entries .empty rfl (by simpa using t.ordered))

/-! ## Members -/

namespace Record
variable {α : Type} {r : Record} {name : String} {read : Document → Option α}

def ofMembers (members : List (String × Document)) : Record := ⟨false, members⟩

@[simp] theorem positional_ofMembers (members : List (String × Document)) :
    (ofMembers members).positional = false := rfl

@[simp] theorem find?_ofMembers_nil : (ofMembers []).find? name = none := rfl

@[simp] theorem find?_ofMembers_cons (key : String) (d : Document)
    (rest : List (String × Document)) : (ofMembers ((key, d) :: rest)).find? name =
      if key = name then some d else (ofMembers rest).find? name := by
  by_cases h : key = name <;> simp [find?, ofMembers, h]

@[simp] theorem find?_ofMembers_append (front rest : List (String × Document)) :
    (ofMembers (front ++ rest)).find? name =
      ((ofMembers front).find? name).or ((ofMembers rest).find? name) := by
  simp only [find?, ofMembers, List.find?_append]
  cases front.find? _ <;> rfl

theorem required_of_find {a : α} {v : Json} (h : r.find? name = some (.settled v))
    (hread : read (.settled v) = some a) : r.required name read = some a := by
  simp only [required, h, Option.bind_some, hread]

theorem orElse_of_find {a fallback : α} {v : Json} (h : r.find? name = some (.settled v))
    (hread : read (.settled v) = some a) : r.orElse name read fallback = some a := by
  simp only [orElse, h, hread]

theorem optionalOrMissing_of_find (write : α → Json) {v : Option α}
    (h : r.find? name = v.map fun a => .settled (write a)) (hnull : ∀ a, write a ≠ .null)
    (hread : ∀ a, read (.settled (write a)) = some a) :
    r.optionalOrMissing name read = some v := by
  unfold optionalOrMissing
  cases v with
  | none => simp only [h, Option.map_none]
  | some a =>
    rw [h, Option.map_some]
    split
    · rename_i heq
      cases heq
    · rename_i heq
      exact absurd (Document.settled.inj (Option.some.inj heq)) (hnull a)
    · rename_i heq
      rw [← Option.some.inj heq, hread]
      rfl

theorem optional_free {v : Option Json} (h : r.find? name = some (.settled (v.getD .null)))
    (hv : v ≠ some .null) : r.optional name Document.json? = some v := by
  unfold optional
  rw [h]
  cases v with
  | none => rfl
  | some v =>
    split
    · rename_i heq
      cases heq
    · rename_i heq
      exact absurd (congrArg some (Document.settled.inj (Option.some.inj heq))) hv
    · rename_i heq
      rw [← Option.some.inj heq]
      rfl

theorem required_eq_some {a : α} (h : r.required name read = some a) : ∃ d, read d = some a := by
  obtain ⟨d, -, hd⟩ := Option.bind_eq_some_iff.mp h
  exact ⟨d, hd⟩

end Record

namespace Document
variable {members : List (String × Document)} {names : List String} {d : Document}

/-- An object with known members only, none of them twice, is read with all its members. -/
theorem known?_of_members (h : d.members? = some members) (hone : (members.map (·.1)).Nodup)
    (hknown : ∀ m ∈ members, m.1 ∈ names) : d.known? names = some (.ofMembers members) := by
  have hall : members.filter (fun m => names.contains m.1) = members :=
    List.filter_eq_self.mpr fun m hm => by simpa using hknown m hm
  simp only [known?, h, hall, if_pos hone, Record.ofMembers]

theorem known?_record (hone : (members.map (·.1)).Nodup) (hknown : ∀ m ∈ members, m.1 ∈ names) :
    (record members).known? names = some (.ofMembers members) :=
  known?_of_members rfl hone hknown

section Lists
variable {α : Type} {read : Document → Option α} {write : α → Json}

theorem listOf?_map (hread : ∀ a, read (.settled (write a)) = some a) (xs : List α) :
    listOf? read (.settled (.arr (xs.map write))) = some xs := by
  show ((xs.map write).map Document.settled).mapM read = some xs
  induction xs with
  | nil => rfl
  | cons a rest ih =>
    simp only [List.map_cons, List.mapM_cons, hread, ih]
    rfl

end Lists

theorem fields?_ofFields (fields : Fields) :
    fields? (.settled (.ofFields fields)) = some fields := by
  simp only [fields?, json?, Json.ofFields, Table.ofList_entries]

theorem uint32?_nat (n : UInt32) : uint32? (.settled (.nat n.toNat)) = some n := by
  have hpow : Int.pow 2 32 = 4294967296 := by decide
  have hlt := n.toNat_lt
  have hrange : (decide (0 ≤ (n.toNat : Int)) && decide ((n.toNat : Int) < 4294967296)) = true := by
    simp only [Bool.and_eq_true, decide_eq_true_eq]
    omega
  simp only [uint32?, Json.nat, Json.int, hpow, hrange, if_true, Int.toNat_natCast,
    UInt32.ofNat_toNat]

theorem int64?_int {n : Int} (h : Text.fitsInt64 n = true) :
    int64? (.settled (.int n)) = some n := by
  simp only [int64?, Json.int, h, if_true]

theorem fitsInt64_toInt (n : Int64) : Text.fitsInt64 n.toInt = true := by
  have hpow : Int.pow 2 63 = 9223372036854775808 := by decide
  have hle := n.le_toInt
  have hlt := n.toInt_lt
  simp only [Text.fitsInt64, hpow, Bool.and_eq_true, decide_eq_true_eq]
  omega

theorem fits_of_int64? {n : Int} (h : d.int64? = some n) : Text.fitsInt64 n = true := by
  unfold int64? at h
  split at h
  · split at h
    · cases h
      assumption
    · cases h
  · cases h

theorem eq_null_of_json? (h : d.json? = some .null) : d = .settled .null := by
  cases d with
  | settled v => rw [Option.some.inj h]
  | unreadable => cases h
  | list items =>
    obtain ⟨vs, -, hvs⟩ := Option.map_eq_some_iff.mp h
    cases hvs
  | record members =>
    obtain ⟨ms, -, hms⟩ := Option.map_eq_some_iff.mp h
    cases hms

end Document

/-- Where nothing is read as null, a free value that is there is none. -/
theorem Record.ne_null_of_optional {r : Record} {name : String} {v : Option Json}
    (h : r.optional name Document.json? = some v) : v ≠ some .null := by
  rintro rfl
  unfold optional at h
  split at h
  · split at h <;> cases h
  · cases h
  · rename_i hnull hfind
    obtain ⟨v, hv, hsome⟩ := Option.map_eq_some_iff.mp h
    rw [Option.some.inj hsome] at hv
    exact hnull (by rw [Document.eq_null_of_json? hv])

/-! ## Round trips -/

/-- What may be written is read back as it was, no two values are written alike, and what was read
off any document and is written again reads the same. -/
structure RoundTrips {α : Type} (write : α → Json) (read : Document → Option α)
    (May : α → Prop) : Prop where
  read_write : ∀ {a}, May a → read (.settled (write a)) = some a
  injective : ∀ {a b}, May a → May b → write a = write b → a = b
  stable : ∀ {d a}, read d = some a → read (.settled (write a)) = some a

namespace RoundTrips
variable {α : Type} {write : α → Json} {read : Document → Option α} {May : α → Prop}

theorem of_read_write (hwrite : ∀ a, May a → read (.settled (write a)) = some a)
    (hread : ∀ d a, read d = some a → May a) : RoundTrips write read May where
  read_write := fun ha => hwrite _ ha
  injective := by
    intro a b ha hb hab
    have hsame := hwrite a ha
    rw [hab, hwrite b hb] at hsame
    exact (Option.some.inj hsame).symm
  stable := fun h => hwrite _ (hread _ _ h)

theorem of_all (hwrite : ∀ a, read (.settled (write a)) = some a) :
    RoundTrips write read fun _ => True :=
  of_read_write (fun a _ => hwrite a) fun _ _ _ => trivial

end RoundTrips
end CallFlow
