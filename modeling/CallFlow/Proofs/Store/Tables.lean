import CallFlow.Table

/-! # Look-ups and listings of a table

Keys are distinct, so that looking a key up and listing the entries say the same. An entry
under a key beyond all others is listed last, and replacing an entry keeps its place.
-/
namespace CallFlow.Table
variable {κ α : Type} [Ord κ] [Std.TransOrd κ] [Std.LawfulEqOrd κ]

omit [Std.TransOrd κ] [Std.LawfulEqOrd κ] in
theorem insertEntry_last {key : κ} {value : α} {entries : List (κ × α)}
    (h : ∀ e ∈ entries, compare key e.1 = .gt) :
    insertEntry key value entries = entries ++ [(key, value)] := by
  induction entries with
  | nil => rfl
  | cons head rest ih =>
    obtain ⟨k, v⟩ := head
    have hk : compare key k = .gt := h (k, v) List.mem_cons_self
    have hrest := ih fun e he => h e (List.mem_cons_of_mem _ he)
    simp only [insertEntry, hk, hrest, List.cons_append]

variable [DecidableEq κ]

omit [Std.TransOrd κ] in
theorem find?_of_mem {entries : List (κ × α)} {key : κ} {value : α}
    (ho : entries.Pairwise (fun a b => compare a.1 b.1 = .lt)) (h : (key, value) ∈ entries) :
    entries.find? (·.1 = key) = some (key, value) := by
  induction entries with
  | nil => cases h
  | cons head rest ih =>
    obtain ⟨hhead, hrest⟩ := List.pairwise_cons.mp ho
    rcases List.mem_cons.mp h with rfl | h
    · simp
    · have hlt := hhead _ h
      have hne : head.1 ≠ key := by
        intro he
        simp [he, Std.ReflCmp.compare_self] at hlt
      simpa [hne] using ih hrest h

omit [Std.TransOrd κ] in
theorem get?_eq_some_iff {t : Table κ α} {key : κ} {value : α} :
    t.get? key = some value ↔ (key, value) ∈ t.entries := by
  constructor
  · intro h
    obtain ⟨e, he, rfl⟩ := Option.map_eq_some_iff.mp h
    have hk : e.1 = key := by simpa using List.find?_some he
    subst hk
    exact List.mem_of_find?_eq_some he
  · intro h
    simp only [get?, find?_of_mem t.ordered h, Option.map_some]

theorem eq_of_get? {s t : Table κ α} (h : ∀ key, s.get? key = t.get? key) : s = t := by
  have hlt : ∀ a b : κ × α, compare a.1 b.1 = .lt → compare b.1 a.1 = .lt → a = b := by
    intro a b hab hba
    rw [Std.OrientedCmp.gt_of_lt hab] at hba
    cases hba
  have hone : ∀ t : Table κ α, t.entries.Nodup := fun t => t.ordered.imp fun {a b} hab heq => by
    simp [heq, Std.ReflCmp.compare_self] at hab
  have hmem : ∀ e, e ∈ s.entries ↔ e ∈ t.entries := by
    intro (key, value)
    rw [← get?_eq_some_iff, ← get?_eq_some_iff, h]
  have hperm := (List.perm_ext_iff_of_nodup (hone s) (hone t)).mpr hmem
  exact ext (hperm.eq_of_pairwise (fun a b _ _ => hlt a b) s.ordered t.ordered)

omit [Std.TransOrd κ] in
theorem mem_values_iff {t : Table κ α} {value : α} :
    value ∈ t.values ↔ ∃ key, t.get? key = some value := by
  simp only [values, List.mem_map, get?_eq_some_iff]
  constructor
  · rintro ⟨⟨key, value⟩, h, rfl⟩
    exact ⟨key, h⟩
  · rintro ⟨key, h⟩
    exact ⟨(key, value), h, rfl⟩

omit [Std.TransOrd κ] in
/-- What holds between the values of any two keys holds along a listing. -/
theorem values_pairwise {t : Table κ α} {r : α → α → Prop}
    (h : ∀ {k k' v v'}, t.get? k = some v → t.get? k' = some v' → k ≠ k' → r v v') :
    t.values.Pairwise r := by
  refine List.pairwise_map.mpr (t.ordered.imp_of_mem fun {a b} ha hb hlt => ?_)
  refine h (get?_eq_some_iff.mpr ha) (get?_eq_some_iff.mpr hb) fun heq => ?_
  simp [heq, Std.ReflCmp.compare_self] at hlt

omit [Std.TransOrd κ] in
/-- Values that hold their own keys are listed in the order of these. -/
theorem values_ordered {t : Table κ α} {key : α → κ}
    (h : ∀ {k v}, t.get? k = some v → key v = k) :
    t.values.Pairwise (fun v w => compare (key v) (key w) = .lt) := by
  refine List.pairwise_map.mpr (t.ordered.imp_of_mem fun {a b} ha hb hlt => ?_)
  rw [h (get?_eq_some_iff.mpr ha), h (get?_eq_some_iff.mpr hb)]
  exact hlt

omit [Std.TransOrd κ] in
theorem contains_of_get? {t : Table κ α} {key : κ} {value : α} (h : t.get? key = some value) :
    t.contains key = true :=
  List.any_eq_true.mpr ⟨(key, value), get?_eq_some_iff.mp h, by simp⟩

omit [Std.TransOrd κ] in
theorem exists_get?_of_contains {t : Table κ α} {key : κ} (h : t.contains key = true) :
    ∃ value, t.get? key = some value := by
  obtain ⟨⟨k, value⟩, hmem, hk⟩ := List.any_eq_true.mp h
  obtain rfl : k = key := by simpa using hk
  exact ⟨value, get?_eq_some_iff.mpr hmem⟩

omit [Std.TransOrd κ] in
theorem contains_eq_isSome (t : Table κ α) (key : κ) : t.contains key = (t.get? key).isSome := by
  cases h : t.get? key with
  | some value => exact contains_of_get? h
  | none =>
    apply Bool.eq_false_iff.mpr
    intro hcontains
    obtain ⟨value, hvalue⟩ := exists_get?_of_contains hcontains
    simp [h] at hvalue

theorem get?_insert (t : Table κ α) (key other : κ) (value : α) :
    (t.insert key value).get? other = if other = key then some value else t.get? other := by
  by_cases h : other = key
  · subst h
    simp
  · simp [h, get?_insert_of_ne t h]

omit [DecidableEq κ] in
theorem values_insert_last (t : Table κ α) {key : κ} (value : α)
    (h : ∀ e ∈ t.entries, compare key e.1 = .gt) :
    (t.insert key value).values = t.values ++ [value] := by
  simp [values, insert, insertEntry_last h]

omit [DecidableEq κ] in
theorem insertEntry_map {f : α → α} {key : κ} {value : α} {entries : List (κ × α)}
    (ho : entries.Pairwise (fun a b => compare a.1 b.1 = .lt)) (h : (key, value) ∈ entries)
    (hf : ∀ e ∈ entries, e.1 ≠ key → f e.2 = e.2) :
    (insertEntry key (f value) entries).map (·.2) = entries.map (fun e => f e.2) := by
  induction entries with
  | nil => cases h
  | cons head rest ih =>
    obtain ⟨k, v⟩ := head
    obtain ⟨hhead, hrest⟩ := List.pairwise_cons.mp ho
    have hne : ∀ e ∈ rest, e.1 ≠ k := by
      intro e he hk
      have hlt := hhead e he
      simp [hk, Std.ReflCmp.compare_self] at hlt
    rcases List.mem_cons.mp h with heq | h
    · cases heq
      have hsame : rest.map (·.2) = rest.map (fun e => f e.2) :=
        List.map_congr_left fun e he => (hf e (List.mem_cons_of_mem _ he) (hne e he)).symm
      simp [insertEntry, Std.ReflCmp.compare_self, hsame]
    · have hgt : compare key k = .gt := Std.OrientedCmp.gt_of_lt (hhead _ h)
      have hk : k ≠ key := fun he => hne _ h he.symm
      have hv := hf (k, v) List.mem_cons_self hk
      have htail := ih hrest h fun e he => hf e (List.mem_cons_of_mem _ he)
      simp only [insertEntry, hgt, List.map_cons, htail]
      exact congrArg (· :: _) hv.symm

theorem values_insert_map {t : Table κ α} {f : α → α} {key : κ} {value : α}
    (h : t.get? key = some value) (hf : ∀ k v, t.get? k = some v → k ≠ key → f v = v) :
    (t.insert key (f value)).values = t.values.map f := by
  have hm := insertEntry_map (f := f) t.ordered (get?_eq_some_iff.mp h) fun e he =>
    hf e.1 e.2 (get?_eq_some_iff.mpr he)
  simpa [values, insert, Function.comp_def] using hm

end CallFlow.Table
