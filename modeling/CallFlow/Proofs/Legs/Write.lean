import CallFlow.Proofs.Store.Admitted
import CallFlow.Proofs.Store.Change

/-! # Writes of one leg

A write of a leg records something under a new id, or changes what was recorded for the leg. It
leaves the store sound, keeps the rows that were there, and does not show on other legs.
-/
namespace CallFlow

inductive Write.On (leg : Int) (m : Memory) : Write → Prop
  | run {r c} (id : r.id = leg) (known : m.runs.get? leg = some c) : On leg m (.updateRun r)
  | visit {s c} (run : s.run = leg) (known : m.runs.get? leg = some c)
      (last : ∀ {id t}, m.stepRuns.get? id = some t → id < s.id) (given : s.id < m.nextId) :
      On leg m (.insertStepRun s)
  | attempt {a s} (known : m.stepRuns.get? a.stepRun = some s) (run : s.run = leg)
      (last : ∀ {id t}, m.attempts.get? id = some t → id < a.id) (given : a.id < m.nextId) :
      On leg m (.insertAttempt a)
  | position {p s} (run : p.run = leg) (known : m.stepRuns.get? p.stepRun = some s)
      (same : s.run = leg) (last : ∀ {id t}, m.positions.get? id = some t → id < p.id)
      (given : p.id < m.nextId) : On leg m (.insertPosition p)
  | mark {id p} (known : m.positions.get? id = some p) (run : p.run = leg) :
      On leg m (.markBranched id)

def Change.marking (id : Int) : Change := ⟨none, some id, none, none⟩

namespace Memory

structure Keeps (m m' : Memory) : Prop where
  nextId : m.nextId ≤ m'.nextId
  runs : ∀ {id r}, m.runs.get? id = some r → ∃ r', m'.runs.get? id = some r'
  stepRuns : ∀ {id s}, m.stepRuns.get? id = some s → m'.stepRuns.get? id = some s
  positions : ∀ {id p}, m.positions.get? id = some p →
    ∃ p', m'.positions.get? id = some p' ∧ p'.run = p.run ∧ p'.stepRun = p.stepRun

theorem Keeps.refl (m : Memory) : m.Keeps m :=
  ⟨Int.le_refl _, fun hr => ⟨_, hr⟩, id, fun hp => ⟨_, hp, rfl, rfl⟩⟩

theorem Keeps.trans {m₁ m₂ m₃ : Memory} (h : m₁.Keeps m₂) (h' : m₂.Keeps m₃) : m₁.Keeps m₃ := by
  refine ⟨Int.le_trans h.nextId h'.nextId, ?_, fun hs => h'.stepRuns (h.stepRuns hs), ?_⟩
  · intro id r hr
    obtain ⟨r', hr'⟩ := h.runs hr
    exact h'.runs hr'
  · intro id p hp
    obtain ⟨p', hp', hrun, hstep⟩ := h.positions hp
    obtain ⟨p'', hp'', hrun', hstep'⟩ := h'.positions hp'
    exact ⟨p'', hp'', hrun'.trans hrun, hstep'.trans hstep⟩

/-! ## Listings after a write -/

section Listings
variable {m : Memory} {leg : Int}

theorem visitsOf_insert {s : StepRunRecord}
    (h : ∀ {id t}, m.stepRuns.get? id = some t → id < s.id) :
    (m.applyWrite (.insertStepRun s)).visitsOf leg =
      m.visitsOf leg ++ [s].filter (·.run = leg) := by
  simp only [visitsOf, applyWrite, values_insert_fresh s h, List.filter_append]

theorem attemptsOf_insert {a : AttemptRecord}
    (h : ∀ {id t}, m.attempts.get? id = some t → id < a.id) (stepRun : Int) :
    (m.applyWrite (.insertAttempt a)).attemptsOf stepRun =
      m.attemptsOf stepRun ++ [a].filter (·.stepRun = stepRun) := by
  simp only [attemptsOf, applyWrite, values_insert_fresh a h, List.filter_append]

theorem placesOf_insert {p : PositionRecord}
    (h : ∀ {id t}, m.positions.get? id = some t → id < p.id) :
    (m.applyWrite (.insertPosition p)).placesOf leg =
      m.placesOf leg ++ [p].filter (·.run = leg) := by
  simp only [placesOf, applyWrite, values_insert_fresh p h, List.filter_append]

theorem placesOf_mark (hm : m.Sound) (id : Int) :
    (m.applyWrite (.markBranched id)).placesOf leg =
      (m.placesOf leg).map (Change.marking id).mark := by
  have hvalues : (m.applyWrite (.markBranched id)).positions.values =
      m.positions.values.map (Change.marking id).mark :=
    markedPositions_values hm (.marking id)
  simp [placesOf, hvalues, List.filter_map, Function.comp_def]

theorem mark_get? (hm : m.Sound) (id i : Int) :
    (m.applyWrite (.markBranched id)).positions.get? i =
      (m.positions.get? i).map (Change.marking id).mark :=
  markedPositions_get? hm (.marking id) i

end Listings

/-! ## The store after a write of a leg -/

section Write
variable {m : Memory} {leg : Int} {w : Write} (hm : m.Sound) (hw : w.On leg m)
include hw

theorem spares_of_on : w.Spares m := by
  have hfree {α : Type} {t : Table Int α} {id : Int}
      (last : ∀ {i v}, t.get? i = some v → i < id) : t.get? id = none := by
    apply Option.eq_none_iff_forall_ne_some.mpr
    exact fun v hv => Int.lt_irrefl id (last hv)
  cases hw with
  | visit _ _ last => exact hfree last
  | attempt _ _ last => exact hfree last
  | position _ _ _ last => exact hfree last
  | run | mark => trivial

theorem keeps_applyWrite : m.Keeps (m.applyWrite w) := by
  have hretains := retains_applyWrite (spares_of_on hw)
  refine ⟨by simp, hretains.runs, hretains.stepRuns, fun hp => ?_⟩
  obtain ⟨p', hp', hbecomes⟩ := hretains.positions hp
  obtain ⟨-, hrun, hstep, -⟩ := hbecomes.same
  exact ⟨p', hp', hrun, hstep⟩

include hm

theorem Sound.applyWrite : (m.applyWrite w).Sound := by
  have hkeeps := keeps_applyWrite hw
  constructor
  · intro id r hr
    rw [applyWrite_nextId]
    cases hw with
    | @run r' c hid known =>
      simp only [Memory.applyWrite, Table.get?_insert] at hr
      split at hr
      · cases hr
        subst hid
        rename_i heq
        exact ⟨heq.symm, heq ▸ (hm.runs known).2⟩
      · exact hm.runs hr
    | mark known => exact hm.runs (by simpa only [Memory.applyWrite, known] using hr)
    | visit | attempt | position => exact hm.runs hr
  · intro id s hs
    rw [applyWrite_nextId]
    have hold (hs : m.stepRuns.get? id = some s) : s.id = id ∧ id < m.nextId ∧
        ∃ r, (m.applyWrite w).runs.get? s.run = some r := by
      obtain ⟨hid, hlt, r, hr⟩ := hm.stepRuns hs
      exact ⟨hid, hlt, hkeeps.runs hr⟩
    cases hw with
    | @visit s' c run known last given =>
      simp only [Memory.applyWrite, Table.get?_insert] at hs
      split at hs
      · cases hs
        rename_i heq
        exact ⟨heq.symm, heq ▸ given, c, run ▸ known⟩
      · exact hold hs
    | mark known => exact hold (by simpa only [Memory.applyWrite, known] using hs)
    | run | attempt | position => exact hold hs
  · intro id a ha
    rw [applyWrite_nextId]
    have hold (ha : m.attempts.get? id = some a) : a.id = id ∧ id < m.nextId ∧
        ∃ s, (m.applyWrite w).stepRuns.get? a.stepRun = some s := by
      obtain ⟨hid, hlt, s, hs⟩ := hm.attempts ha
      exact ⟨hid, hlt, s, hkeeps.stepRuns hs⟩
    cases hw with
    | @attempt a' s known run last given =>
      simp only [Memory.applyWrite, Table.get?_insert] at ha
      split at ha
      · cases ha
        rename_i heq
        exact ⟨heq.symm, heq ▸ given, s, known⟩
      · exact hold ha
    | mark known => exact hold (by simpa only [Memory.applyWrite, known] using ha)
    | run | visit | position => exact hold ha
  · intro id p hp
    rw [applyWrite_nextId]
    have hold (hp : m.positions.get? id = some p) : p.id = id ∧ id < m.nextId ∧
        ∃ s, (m.applyWrite w).stepRuns.get? p.stepRun = some s ∧ s.run = p.run := by
      obtain ⟨hid, hlt, s, hs, hrun⟩ := hm.positions hp
      exact ⟨hid, hlt, s, hkeeps.stepRuns hs, hrun⟩
    cases hw with
    | @position p' s run known same last given =>
      simp only [Memory.applyWrite, Table.get?_insert] at hp
      split at hp
      · cases hp
        rename_i heq
        exact ⟨heq.symm, heq ▸ given, s, known, same.trans run.symm⟩
      · exact hold hp
    | @mark i q known run =>
      rw [mark_get? hm] at hp
      obtain ⟨q, hq, rfl⟩ := Option.map_eq_some_iff.mp hp
      obtain ⟨hid, hlt, s, hs, hrun⟩ := hm.positions hq
      rw [Change.mark_id, Change.mark_run, Change.mark_stepRun]
      exact ⟨hid, hlt, s, hkeeps.stepRuns hs, hrun⟩
    | run | visit | attempt => exact hold hp

/-- A write of one leg does not show on another. -/
theorem sameLeg_applyWrite {other : Int} (hne : other ≠ leg) :
    SameLeg m (m.applyWrite w) other := by
  cases hw with
  | @run r c id known =>
    refine ⟨?_, rfl, fun _ => Iff.rfl, fun _ _ => rfl, rfl, rfl⟩
    exact Table.get?_insert_of_ne _ (id ▸ hne) _
  | @visit s c run known last given =>
    have hdropped : [s].filter (·.run = other) = [] := by simp [run, hne.symm]
    refine ⟨rfl, rfl, ?_, fun _ _ => rfl, by rw [visitsOf_insert last, hdropped, List.append_nil], ?_⟩
    · intro id t ht
      simp only [applyWrite, Table.get?_insert]
      split
      · subst id
        refine ⟨fun heq => ?_, fun hs => absurd (last hs) (Int.lt_irrefl _)⟩
        cases heq
        exact absurd (ht.symm.trans run) hne
      · exact Iff.rfl
    · apply List.filter_congr
      intro a ha
      obtain ⟨id, hget⟩ := Table.mem_values_iff.mp ha
      obtain ⟨-, -, t, ht⟩ := hm.attempts hget
      simp only [applyWrite, Table.get?_insert_of_ne _ (Int.ne_of_lt (last ht))]
  | @attempt a s known run last given =>
    refine ⟨rfl, rfl, fun _ => Iff.rfl, ?_, rfl, ?_⟩
    · intro id t ht hrun
      have hdropped : [a].filter (·.stepRun = id) = [] := by
        simp only [List.filter_eq_nil_iff, List.mem_singleton, decide_eq_true_eq]
        rintro _ rfl rfl
        rw [known] at ht
        cases ht
        exact hne (hrun.symm.trans run)
      rw [attemptsOf_insert last, hdropped, List.append_nil]
    · simp only [attemptsIn, applyWrite, values_insert_fresh a last, List.filter_append]
      simp [known, run, hne.symm]
  | @position p s run known same last given =>
    have hdropped : [p].filter (·.run = other) = [] := by simp [run, hne.symm]
    refine ⟨rfl, ?_, fun _ => Iff.rfl, fun _ _ => rfl, rfl, rfl⟩
    rw [placesOf_insert last, hdropped, List.append_nil]
  | @mark id p known run =>
    have hmark : ∀ q ∈ m.placesOf other, (Change.marking id).mark q = q := by
      intro q hq
      obtain ⟨hq, hrun⟩ := List.mem_filter.mp hq
      obtain ⟨i, hget⟩ := Table.mem_values_iff.mp hq
      unfold Change.mark
      split
      · rename_i hid
        obtain rfl : id = q.id := Option.some.inj hid
        rw [(hm.positions hget).1, hget] at known
        cases known
        exact absurd ((of_decide_eq_true hrun).symm.trans run) hne
      · rfl
    have hplaces : (m.applyWrite (.markBranched id)).placesOf other = m.placesOf other := by
      rw [placesOf_mark hm]
      exact (List.map_congr_left hmark).trans (List.map_id _)
    have hmarked : m.applyWrite (.markBranched id) =
        { m with positions := m.positions.insert id { p with branchedOnError := true } } := by
      simp only [applyWrite, known]
    rw [hmarked] at hplaces ⊢
    exact ⟨rfl, hplaces, fun _ => Iff.rfl, fun _ _ => rfl, rfl, rfl⟩

end Write
end Memory
end CallFlow
