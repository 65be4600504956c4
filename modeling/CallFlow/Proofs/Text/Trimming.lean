import CallFlow.Text.Blank
import Mathlib.Data.List.DropRight

/-! # What trimming leaves

Every text has one part that has no white space at either end and nothing but white space around
it, and that is what trimming leaves. What is dropped from the end of a text is told in the same
way: it has nothing but characters of the kind, and the rest does not end in one.
-/
namespace CallFlow.Text
variable {p : Char → Bool} {raw cs tail : List Char}

/-! ## Dropping from the end -/

theorem dropEnd_append (h : ∀ c ∈ tail, p c) : dropEnd p (cs ++ tail) = dropEnd p cs := by
  have hrev : ∀ c ∈ tail.reverse, p c := fun c hc => h c (List.mem_reverse.mp hc)
  simp only [dropEnd, List.reverse_append, List.dropWhile_append_of_pos hrev]

theorem dropEnd_eq_self (h : ∀ c, cs.getLast? = some c → p c = false) : dropEnd p cs = cs := by
  refine List.rdropWhile_eq_self_iff.mpr fun hne => ?_
  simp [h _ (List.getLast?_eq_getLast_of_ne_nil hne)]

theorem getLast?_dropEnd {c : Char} (h : (dropEnd p cs).getLast? = some c) : p c = false := by
  obtain ⟨hne, rfl⟩ := List.mem_getLast?_eq_getLast h
  exact Bool.eq_false_iff.mpr (List.rdropWhile_last_not p cs hne)

theorem dropEnd_eq_iff : dropEnd p raw = cs ↔
    (∃ tail, raw = cs ++ tail ∧ ∀ c ∈ tail, p c) ∧ ∀ c, cs.getLast? = some c → p c = false := by
  constructor
  · rintro rfl
    refine ⟨⟨raw.rtakeWhile p, ?_, fun c hc => List.mem_rtakeWhile_imp hc⟩, fun c =>
      getLast?_dropEnd⟩
    exact List.rdropWhile_append_rtakeWhile.symm
  · rintro ⟨⟨tail, rfl, htail⟩, hlast⟩
    rw [dropEnd_append htail, dropEnd_eq_self hlast]

/-! ## Trimming -/

structure Trimmed (cs : List Char) : Prop where
  first : ∀ c, cs.head? = some c → isBlank c = false
  last : ∀ c, cs.getLast? = some c → isBlank c = false

instance (cs : List Char) : Decidable (Trimmed cs) :=
  decidable_of_iff (cs.head?.any isBlank = false ∧ cs.getLast?.any isBlank = false)
    ⟨fun h => ⟨(Option.any_eq_false _ _).mp h.1, (Option.any_eq_false _ _).mp h.2⟩,
      fun h => ⟨(Option.any_eq_false _ _).mpr h.first, (Option.any_eq_false _ _).mpr h.last⟩⟩

theorem trimmed_of_all (h : ∀ c ∈ cs, isBlank c = false) : Trimmed cs :=
  ⟨fun _ hc => h _ (List.mem_of_mem_head? hc), fun _ hc => h _ (List.mem_of_getLast? hc)⟩

/-- A text without the white space around it. -/
structure TrimsTo (raw cs : List Char) : Prop where
  around : ∃ lead trail, raw = lead ++ cs ++ trail ∧ (∀ c ∈ lead, isBlank c = true) ∧
    ∀ c ∈ trail, isBlank c = true
  trimmed : Trimmed cs

theorem TrimsTo.trim_eq (h : TrimsTo raw cs) : trim raw = cs := by
  obtain ⟨⟨lead, trail, rfl, hlead, htrail⟩, hfirst, hlast⟩ := h
  rw [trim, List.append_assoc, List.dropWhile_append_of_pos hlead]
  cases cs with
  | nil => simp [dropEnd, List.dropWhile_eq_nil_iff.mpr htrail]
  | cons c rest =>
    have hc : ¬ isBlank c = true := by simp [hfirst c rfl]
    rw [List.cons_append, List.dropWhile_cons_of_neg hc, ← List.cons_append, dropEnd_append htrail,
      dropEnd_eq_self hlast]

/-- Every text can be trimmed, and in one way. -/
theorem trimsTo_trim (raw : List Char) : TrimsTo raw (trim raw) := by
  have hdrop : dropEnd isBlank (raw.dropWhile isBlank) = trim raw := rfl
  obtain ⟨⟨trail, hrest, htrail⟩, hlast⟩ := dropEnd_eq_iff.mp hdrop
  refine ⟨⟨raw.takeWhile isBlank, trail, ?_, fun c hc => List.mem_takeWhile_imp hc, htrail⟩, ?_,
    hlast⟩
  · rw [List.append_assoc, ← hrest, List.takeWhile_append_dropWhile]
  · intro c hc
    -- the first character that is left is the one at which the white space before it stopped
    have hhead : (raw.dropWhile isBlank).head? = some c := by
      rw [hrest, List.head?_append, hc]
      rfl
    have := List.head?_dropWhile_not isBlank raw
    simpa [hhead] using this

theorem trim_eq_iff : trim raw = cs ↔ TrimsTo raw cs :=
  ⟨fun h => h ▸ trimsTo_trim raw, TrimsTo.trim_eq⟩

theorem Trimmed.trimsTo (h : Trimmed cs) : TrimsTo cs cs := ⟨⟨[], [], by simp, by simp, by simp⟩, h⟩

theorem existsUnique_trimsTo (raw : List Char) : ∃! cs, TrimsTo raw cs :=
  ⟨trim raw, trimsTo_trim raw, fun _ h => h.trim_eq.symm⟩

end CallFlow.Text
