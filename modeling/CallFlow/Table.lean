/-! # Tables in key order

A table is a list of entries whose keys strictly increase, so that two tables with the
same look-ups are equal and listing a table needs no sorting. Insertion replaces the
entry of an equal key; the look-up laws are `get?_insert_self` and `get?_insert_of_ne`.
-/
namespace CallFlow

/-- Entries in strictly increasing key order. -/
structure Table (κ α : Type) [Ord κ] where
  entries : List (κ × α)
  ordered : entries.Pairwise (fun a b => compare a.1 b.1 = .lt)

namespace Table
variable {κ α : Type} [Ord κ]

/-- Puts an entry at its place, over an entry of an equal key. -/
def insertEntry (key : κ) (value : α) : List (κ × α) → List (κ × α)
  | [] => [(key, value)]
  | (k, v) :: rest =>
    match compare key k with
    | .lt => (key, value) :: (k, v) :: rest
    | .eq => (key, value) :: rest
    | .gt => (k, v) :: insertEntry key value rest

theorem mem_insertEntry {key : κ} {value : α} {entries : List (κ × α)} {e : κ × α}
    (h : e ∈ insertEntry key value entries) : e = (key, value) ∨ e ∈ entries := by
  induction entries with
  | nil => simpa [insertEntry] using h
  | cons head rest ih =>
    obtain ⟨k, v⟩ := head
    simp only [insertEntry] at h
    split at h
    · simpa using h
    · rcases List.mem_cons.mp h with rfl | h
      · exact .inl rfl
      · exact .inr (List.mem_cons_of_mem _ h)
    · rcases List.mem_cons.mp h with rfl | h
      · exact .inr List.mem_cons_self
      · exact (ih h).imp id (List.mem_cons_of_mem _)

theorem insertEntry_ordered [Std.TransOrd κ] [Std.LawfulEqOrd κ] (key : κ) (value : α)
    {entries : List (κ × α)} (h : entries.Pairwise (fun a b => compare a.1 b.1 = .lt)) :
    (insertEntry key value entries).Pairwise (fun a b => compare a.1 b.1 = .lt) := by
  induction entries with
  | nil => simp [insertEntry]
  | cons head rest ih =>
    obtain ⟨k, v⟩ := head
    obtain ⟨hhead, hrest⟩ := List.pairwise_cons.mp h
    simp only [insertEntry]
    split
    · rename_i hlt
      refine List.pairwise_cons.mpr ⟨fun e he => ?_, h⟩
      rcases List.mem_cons.mp he with rfl | he
      · exact hlt
      · exact Std.TransCmp.lt_trans hlt (hhead e he)
    · rename_i heq
      obtain rfl := Std.LawfulEqCmp.eq_of_compare heq
      exact List.pairwise_cons.mpr ⟨hhead, hrest⟩
    · rename_i hgt
      refine List.pairwise_cons.mpr ⟨fun e he => ?_, ih hrest⟩
      rcases mem_insertEntry he with rfl | he
      · exact Std.OrientedCmp.lt_of_gt hgt
      · exact hhead e he

def empty : Table κ α := ⟨[], .nil⟩

instance : Inhabited (Table κ α) := ⟨empty⟩

@[ext] theorem ext {s t : Table κ α} (h : s.entries = t.entries) : s = t := by
  cases s; cases t; cases h; rfl

instance [DecidableEq κ] [DecidableEq α] : DecidableEq (Table κ α) := fun s t =>
  decidable_of_iff (s.entries = t.entries) ⟨ext, congrArg entries⟩

variable [Std.TransOrd κ] [Std.LawfulEqOrd κ]

/-- Puts an entry, replacing the one under an equal key. -/
def insert (t : Table κ α) (key : κ) (value : α) : Table κ α :=
  ⟨insertEntry key value t.entries, insertEntry_ordered key value t.ordered⟩

/-- Takes the entries in turn, so that the last of an equal key stays. -/
def ofList (entries : List (κ × α)) : Table κ α :=
  entries.foldl (fun t e => t.insert e.1 e.2) empty

omit [Std.TransOrd κ] [Std.LawfulEqOrd κ]
variable [DecidableEq κ]

def get? (t : Table κ α) (key : κ) : Option α :=
  (t.entries.find? (·.1 = key)).map (·.2)

def contains (t : Table κ α) (key : κ) : Bool := t.entries.any (·.1 = key)

omit [DecidableEq κ] in
def values (t : Table κ α) : List α := t.entries.map (·.2)

omit [DecidableEq κ] in
def keys (t : Table κ α) : List κ := t.entries.map (·.1)

omit [DecidableEq κ] in
def isEmpty (t : Table κ α) : Bool := t.entries.isEmpty

omit [DecidableEq κ] in
/-- Changes every value; the keys, and so their order, stay. -/
def map {β : Type} (f : α → β) (t : Table κ α) : Table κ β :=
  ⟨t.entries.map (fun e => (e.1, f e.2)), List.pairwise_map.mpr t.ordered⟩

@[simp] theorem get?_empty (key : κ) : (empty : Table κ α).get? key = none := rfl

variable [Std.TransOrd κ] [Std.LawfulEqOrd κ]

omit [Std.TransOrd κ] in
theorem find?_insertEntry_self (key : κ) (value : α) (entries : List (κ × α)) :
    (insertEntry key value entries).find? (·.1 = key) = some (key, value) := by
  induction entries with
  | nil => simp [insertEntry]
  | cons head rest ih =>
    obtain ⟨k, v⟩ := head
    simp only [insertEntry]
    split
    · simp
    · simp
    · rename_i hgt
      have hne : k ≠ key := by
        rintro rfl
        simp [Std.ReflCmp.compare_self] at hgt
      simpa [hne] using ih

omit [Std.TransOrd κ] in
theorem find?_insertEntry_of_ne {key other : κ} (h : other ≠ key) (value : α)
    (entries : List (κ × α)) :
    (insertEntry key value entries).find? (·.1 = other) = entries.find? (·.1 = other) := by
  induction entries with
  | nil => simp [insertEntry, h.symm]
  | cons head rest ih =>
    obtain ⟨k, v⟩ := head
    simp only [insertEntry]
    split
    · simp [h.symm]
    · rename_i heq
      obtain rfl := Std.LawfulEqCmp.eq_of_compare heq
      simp [h.symm]
    · by_cases hk : k = other
      · simp [hk]
      · simpa [hk] using ih

@[simp] theorem get?_insert_self (t : Table κ α) (key : κ) (value : α) :
    (t.insert key value).get? key = some value := by
  simp [get?, insert, find?_insertEntry_self]

theorem get?_insert_of_ne (t : Table κ α) {key other : κ} (h : other ≠ key) (value : α) :
    (t.insert key value).get? other = t.get? other := by
  simp [get?, insert, find?_insertEntry_of_ne h]

end Table
end CallFlow
