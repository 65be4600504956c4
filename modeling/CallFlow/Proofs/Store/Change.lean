import CallFlow.Proofs.Store.Written

/-! # What a unit of work records

Besides the update of its run, a unit of work stages at most one attempt, one mark, one step
run and one position. A change that fits the store passes the checks of a commit, and what is
listed afterwards is what was listed before with the new records last. Legs that the change
does not belong to look as before.
-/
namespace CallFlow

structure Change where
  attempt : Option AttemptRecord
  /-- The id of the position where the run leaves its branch. -/
  marked : Option Int
  visit : Option StepRunRecord
  position : Option PositionRecord

namespace Change

def nothing : Change := ⟨none, none, none, none⟩

def writes (x : Change) : List Write :=
  x.attempt.toList.map .insertAttempt ++ x.marked.toList.map .markBranched ++
    x.visit.toList.map .insertStepRun ++ x.position.toList.map .insertPosition

def mark (x : Change) (p : PositionRecord) : PositionRecord :=
  if x.marked = some p.id then { p with branchedOnError := true } else p

@[simp] theorem mark_order (x : Change) (p : PositionRecord) : (x.mark p).order = p.order := by
  unfold mark
  split <;> rfl

@[simp] theorem mark_run (x : Change) (p : PositionRecord) : (x.mark p).run = p.run := by
  unfold mark
  split <;> rfl

@[simp] theorem mark_id (x : Change) (p : PositionRecord) : (x.mark p).id = p.id := by
  unfold mark
  split <;> rfl

@[simp] theorem mark_stepRun (x : Change) (p : PositionRecord) :
    (x.mark p).stepRun = p.stepRun := by
  unfold mark
  split <;> rfl

/-- The change belongs to a run: its ids are new to the store, what it refers to is recorded
for the run, and a new position is later than all positions of the run. -/
structure Fits (x : Change) (m : Memory) (next run : Int) : Prop where
  grown : m.nextId ≤ next
  attempt : ∀ {a}, x.attempt = some a →
    m.nextId ≤ a.id ∧ a.id < next ∧ ∃ s, m.stepRuns.get? a.stepRun = some s ∧ s.run = run
  marked : ∀ {id}, x.marked = some id → ∃ p, m.positions.get? id = some p ∧ p.run = run
  visit : ∀ {s}, x.visit = some s → m.nextId ≤ s.id ∧ s.id < next ∧ s.run = run
  position : ∀ {p}, x.position = some p →
    m.nextId ≤ p.id ∧ p.id < next ∧ p.run = run ∧ (∀ q ∈ m.positionsOf run, q.order < p.order) ∧
      ∃ s, (m.stepRuns.get? p.stepRun = some s ∨ x.visit = some s ∧ s.id = p.stepRun) ∧
        s.run = run

theorem fits_nothing (m : Memory) (run : Int) : nothing.Fits m m.nextId run := by
  constructor <;> simp [nothing]

namespace Fits
variable {m : Memory} {n run : Int} {a : Option AttemptRecord} {k : Option Int}
variable (h : Fits ⟨a, k, none, none⟩ m n run)
include h

theorem back {s : StepRunRecord} {p : PositionRecord} (hs : m.stepRuns.get? p.stepRun = some s)
    (hsr : s.run = run) (hid : p.id = n) (hpr : p.run = run)
    (hlate : ∀ q ∈ m.positionsOf run, q.order < p.order) :
    Fits ⟨a, k, none, some p⟩ m (n + 1) run := by
  have hgrown := h.grown
  constructor
  · omega
  · intro b hb
    obtain ⟨hnew, hlt, hrec⟩ := h.attempt hb
    exact ⟨hnew, by omega, hrec⟩
  · exact h.marked
  · exact fun hv => by cases hv
  · rintro _ ⟨⟩
    exact ⟨by omega, by omega, hpr, hlate, s, .inl hs, hsr⟩

theorem enter {s : StepRunRecord} {p : PositionRecord} (hsid : s.id = n) (hsr : s.run = run)
    (hid : p.id = n + 1) (hps : p.stepRun = n) (hpr : p.run = run)
    (hlate : ∀ q ∈ m.positionsOf run, q.order < p.order) :
    Fits ⟨a, k, some s, some p⟩ m (n + 2) run := by
  have hgrown := h.grown
  constructor
  · omega
  · intro b hb
    obtain ⟨hnew, hlt, hrec⟩ := h.attempt hb
    exact ⟨hnew, by omega, hrec⟩
  · exact h.marked
  · rintro _ ⟨⟩
    exact ⟨by omega, by omega, hsr⟩
  · rintro _ ⟨⟩
    exact ⟨by omega, by omega, hpr, hlate, s, .inr ⟨rfl, hsid.trans hps.symm⟩, hsr⟩

end Fits
end Change

namespace Memory
variable {m : Memory} {x : Change} {next run : Int} {r c : RunRecord}

def post (m : Memory) (x : Change) (next : Int) (r : RunRecord) : Memory :=
  (x.writes ++ [Write.updateRun r]).foldl applyWrite { m with nextId := next }

/-! ## The checks of a commit -/

theorem checkWrites_of_forall {before : Snapshot} {ws : List Write}
    (h : ∀ w ∈ ws, ∀ s, m.checkWrite s w = .ok ()) : m.checkWrites before ws = .ok () := by
  induction ws generalizing before with
  | nil => rfl
  | cons w rest ih =>
    simp only [checkWrites, h w List.mem_cons_self before]
    exact ih fun v hv => h v (List.mem_cons_of_mem _ hv)

theorem hasOrder_eq_false {run order : Int} (h : ∀ q ∈ m.positionsOf run, q.order < order) :
    m.hasOrder run order = false := by
  apply Bool.eq_false_iff.mpr
  intro ht
  obtain ⟨q, hq, heq⟩ := List.any_eq_true.mp ht
  simp only [Bool.and_eq_true, decide_eq_true_eq] at heq
  have hlt := h q (mem_positionsOf.mpr ⟨Table.mem_values_iff.mp hq, heq.1⟩)
  omega

theorem checkWrite_of_fits (hx : x.Fits m next run) {w : Write} (hw : w ∈ x.writes) (s : Snapshot) :
    ({ m with nextId := next } : Memory).checkWrite s w = .ok () := by
  simp only [Change.writes, List.mem_append, List.mem_map, Option.mem_toList] at hw
  rcases hw with ((⟨a, -, rfl⟩ | ⟨id, hid, rfl⟩) | ⟨v, -, rfl⟩) | ⟨p, hp, rfl⟩
  · rfl
  · obtain ⟨p, hp, -⟩ := hx.marked hid
    simp [checkWrite, knowsPosition, Table.contains_of_get? hp]
  · rfl
  · obtain ⟨-, -, hrun, hlate, -⟩ := hx.position hp
    have hno := hasOrder_eq_false (hrun ▸ hlate)
    simp only [hasOrder] at hno
    simp [checkWrite, hasOrder, hno]

theorem version?_writes (x : Change) (id : Int) : (Snapshot.mk x.writes).version? id = none := by
  simp only [Snapshot.version?, List.findSome?_eq_none_iff, List.mem_reverse, Change.writes,
    List.mem_append, List.mem_map, Option.mem_toList]
  rintro w (((⟨a, -, rfl⟩ | ⟨id, -, rfl⟩) | ⟨v, -, rfl⟩) | ⟨p, -, rfl⟩) <;> rfl

/-- A change that fits is committed with the update of its run. -/
theorem commit_post (hx : x.Fits m next run) (hc : m.runs.get? r.id = some c)
    (hv : c.version + 1 = r.version) :
    commit ⟨x.writes ++ [.updateRun r]⟩ { m with nextId := next } =
      (.ok (), m.post x next r) := by
  have hcheck : ({ m with nextId := next } : Memory).checkWrites .empty
      (x.writes ++ [.updateRun r]) = .ok () := by
    refine checkWrites_concat.mpr ⟨checkWrites_of_forall fun w hw s => checkWrite_of_fits hx hw s, ?_⟩
    simp [checkWrite, version?, Snapshot.empty, version?_writes, hc, hv]
  simp only [commit, hcheck, post]

/-! ## The store afterwards -/

def markedPositions (m : Memory) (x : Change) : Table Int PositionRecord :=
  x.marked.elim m.positions fun id => (m.applyWrite (.markBranched id)).positions

theorem post_eq (m : Memory) (x : Change) (next : Int) (r : RunRecord) :
    m.post x next r =
      { runs := m.runs.insert r.id r
        stepRuns := x.visit.elim m.stepRuns fun s => m.stepRuns.insert s.id s
        attempts := x.attempt.elim m.attempts fun a => m.attempts.insert a.id a
        positions := x.position.elim (m.markedPositions x) fun p =>
          (m.markedPositions x).insert p.id p
        nextId := next
        clock := m.clock } := by
  rcases x with ⟨_ | a, _ | id, _ | s, _ | p⟩ <;> try rfl
  all_goals
    simp only [post, Change.writes, Option.toList, List.map_cons, List.map_nil, List.nil_append,
      List.cons_append, List.foldl_cons, List.foldl_nil, applyWrite, markedPositions,
      Option.elim_some, Option.elim_none]
    cases m.positions.get? id <;> rfl

@[simp] theorem post_nextId (m : Memory) (x : Change) (next : Int) (r : RunRecord) :
    (m.post x next r).nextId = next := by
  rw [post_eq]

@[simp] theorem post_runs (m : Memory) (x : Change) (next : Int) (r : RunRecord) :
    (m.post x next r).runs = m.runs.insert r.id r := by
  rw [post_eq]

section Tables
variable (hm : m.Sound) (hx : x.Fits m next run)
include hm

theorem markedPositions_get? (x : Change) (i : Int) :
    (m.markedPositions x).get? i = (m.positions.get? i).map x.mark := by
  unfold markedPositions
  cases hx : x.marked with
  | none =>
    have hmark : x.mark = id := by
      funext p
      simp [Change.mark, hx]
    simp [hmark]
  | some k =>
    simp only [Option.elim_some, applyWrite]
    cases hp : m.positions.get? k with
    | none =>
      cases hq : m.positions.get? i with
      | none => simp
      | some q =>
        have hne : k ≠ q.id := by
          rintro rfl
          rw [(hm.positions hq).1, hq] at hp
          cases hp
        simp [Change.mark, hx, hne]
    | some p =>
      rw [Table.get?_insert]
      by_cases hi : i = k
      · subst hi
        simp [hp, Change.mark, hx, (hm.positions hp).1]
      · cases hq : m.positions.get? i with
        | none => simp [hi]
        | some q => simp [hi, Change.mark, hx, (hm.positions hq).1, Ne.symm hi]

/-- Marking changes the marked position where it stands. -/
theorem markedPositions_values (x : Change) :
    (m.markedPositions x).values = m.positions.values.map x.mark := by
  unfold markedPositions
  cases hx : x.marked with
  | none =>
    have hmark : x.mark = id := by
      funext p
      simp [Change.mark, hx]
    simp [hmark]
  | some k =>
    have hother : ∀ {i q}, m.positions.get? i = some q → i ≠ k → x.mark q = q := by
      intro i q hq hne
      simp [Change.mark, hx, (hm.positions hq).1, Ne.symm hne]
    simp only [Option.elim_some, applyWrite]
    cases hp : m.positions.get? k with
    | none =>
      refine (List.map_congr_left (g := id) fun q hq => ?_).trans (List.map_id _) |>.symm
      obtain ⟨i, hi⟩ := Table.mem_values_iff.mp hq
      refine hother hi ?_
      rintro rfl
      simp [hp] at hi
    | some p =>
      have hmark : x.mark p = { p with branchedOnError := true } := by
        simp [Change.mark, hx, (hm.positions hp).1]
      simp only [← hmark]
      exact Table.values_insert_map hp fun i q hq hne => hother hq hne

include hx

theorem post_stepRuns_get? {id : Int} {s : StepRunRecord} :
    (m.post x next r).stepRuns.get? id = some s ↔
      m.stepRuns.get? id = some s ∨ x.visit = some s ∧ s.id = id := by
  rw [post_eq]
  cases hv : x.visit with
  | none => simp
  | some v =>
    simp only [Option.elim_some, Table.get?_insert, Option.some.injEq]
    by_cases hid : id = v.id
    · subst hid
      have hfresh := hm.stepRuns_fresh (hx.visit hv).1
      simp only [if_pos, hfresh, reduceCtorEq, false_or, Option.some.injEq]
      refine ⟨fun h => ⟨h, ?_⟩, fun h => h.1⟩
      rw [h]
    · simp only [if_neg hid]
      refine ⟨.inl, fun h => h.resolve_right ?_⟩
      rintro ⟨rfl, rfl⟩
      exact hid rfl

theorem post_attempts_get? {id : Int} {a : AttemptRecord} :
    (m.post x next r).attempts.get? id = some a ↔
      m.attempts.get? id = some a ∨ x.attempt = some a ∧ a.id = id := by
  rw [post_eq]
  cases ha : x.attempt with
  | none => simp
  | some b =>
    have hfresh : m.attempts.get? b.id = none := by
      cases hb : m.attempts.get? b.id with
      | none => rfl
      | some c =>
        have hlt := (hm.attempts hb).2.1
        have hle := (hx.attempt ha).1
        omega
    simp only [Option.elim_some, Table.get?_insert, Option.some.injEq]
    by_cases hid : id = b.id
    · subst hid
      simp only [if_pos, hfresh, reduceCtorEq, false_or, Option.some.injEq]
      exact ⟨fun h => ⟨h, by rw [h]⟩, fun h => h.1⟩
    · simp only [if_neg hid]
      refine ⟨.inl, fun h => h.resolve_right ?_⟩
      rintro ⟨rfl, rfl⟩
      exact hid rfl

theorem post_positions_get? {id : Int} {p : PositionRecord} :
    (m.post x next r).positions.get? id = some p ↔
      (∃ q, m.positions.get? id = some q ∧ x.mark q = p) ∨ x.position = some p ∧ p.id = id := by
  rw [post_eq]
  cases hp : x.position with
  | none => simp [markedPositions_get? hm]
  | some b =>
    have hfresh : m.positions.get? b.id = none := by
      cases hb : m.positions.get? b.id with
      | none => rfl
      | some c =>
        have hlt := (hm.positions hb).2.1
        have hle := (hx.position hp).1
        omega
    simp only [Option.elim_some, Table.get?_insert, markedPositions_get? hm, Option.some.injEq]
    by_cases hid : id = b.id
    · subst hid
      simp only [if_pos, hfresh, reduceCtorEq, false_and, exists_false, false_or,
        Option.some.injEq]
      exact ⟨fun h => ⟨h, by rw [h]⟩, fun h => h.1⟩
    · simp only [if_neg hid, Option.map_eq_some_iff]
      refine ⟨.inl, fun h => h.resolve_right ?_⟩
      rintro ⟨rfl, rfl⟩
      exact hid rfl

omit hm hx in
theorem values_insert_fresh {α : Type} {t : Table Int α} {id : Int} (v : α)
    (h : ∀ {k u}, t.get? k = some u → k < id) : (t.insert id v).values = t.values ++ [v] := by
  apply t.values_insert_last
  intro e he
  have hlt : e.1 < id := h (Table.get?_eq_some_iff.mpr he)
  exact Int.compare_eq_gt.mpr hlt

theorem post_attemptsOf (stepRun : Int) :
    (m.post x next r).attemptsOf stepRun =
      m.attemptsOf stepRun ++ x.attempt.toList.filter (·.stepRun = stepRun) := by
  rw [post_eq]
  cases ha : x.attempt with
  | none => simp [attemptsOf]
  | some a =>
    have hlast : (m.attempts.insert a.id a).values = m.attempts.values ++ [a] :=
      values_insert_fresh a fun hk => by
        have hlt := (hm.attempts hk).2.1
        have hle := (hx.attempt ha).1
        omega
    simp [attemptsOf, hlast]

theorem attemptsOf_post_visit {v : StepRunRecord} (hv : x.visit = some v) :
    (m.post x next r).attemptsOf v.id = [] := by
  have hfresh := hm.stepRuns_fresh (hx.visit hv).1
  have hnone : x.attempt.toList.filter (·.stepRun = v.id) = [] := by
    apply List.filter_eq_nil_iff.mpr
    intro a ha
    obtain ⟨-, -, t, ht, -⟩ := hx.attempt (Option.mem_toList.mp ha)
    have hne : a.stepRun ≠ v.id := by
      intro heq
      simp [heq, hfresh] at ht
    simpa using hne
  rw [post_attemptsOf hm hx, hm.attemptsOf_eq_nil hfresh, hnone, List.append_nil]

theorem post_visitsOf (leg : Int) :
    (m.post x next r).visitsOf leg =
      m.visitsOf leg ++ x.visit.toList.filter (·.run = leg) := by
  rw [post_eq]
  cases hv : x.visit with
  | none => simp [visitsOf]
  | some v =>
    have hlast : (m.stepRuns.insert v.id v).values = m.stepRuns.values ++ [v] :=
      values_insert_fresh v fun hk => by
        have hlt := (hm.stepRuns hk).2.1
        have hle := (hx.visit hv).1
        omega
    simp [visitsOf, hlast]

theorem post_attemptsIn (leg : Int) :
    (m.post x next r).attemptsIn leg =
      m.attemptsIn leg ++ x.attempt.toList.filter fun _ => run = leg := by
  have hvalues : (m.post x next r).attempts.values = m.attempts.values ++ x.attempt.toList := by
    rw [post_eq]
    cases ha : x.attempt with
    | none => simp
    | some a =>
      exact values_insert_fresh a fun hk => by
        have hlt := (hm.attempts hk).2.1
        have hle := (hx.attempt ha).1
        omega
  have hkept : ∀ {id s}, m.stepRuns.get? id = some s →
      (m.post x next r).stepRuns.get? id = some s :=
    fun hs => (post_stepRuns_get? hm hx).mpr (.inl hs)
  rw [attemptsIn, hvalues, List.filter_append, attemptsIn]
  congr 1
  · apply List.filter_congr
    intro a ha
    obtain ⟨id, hget⟩ := Table.mem_values_iff.mp ha
    obtain ⟨-, -, s, hs⟩ := hm.attempts hget
    rw [hs, hkept hs]
  · apply List.filter_congr
    intro a ha
    obtain ⟨-, -, s, hs, hsr⟩ := hx.attempt (Option.mem_toList.mp ha)
    rw [hkept hs, Option.any_some, hsr]

omit hm hx in
theorem placeByOrder_append {p q : PositionRecord} {ps : List PositionRecord}
    (h : p.order < q.order) : placeByOrder p (ps ++ [q]) = placeByOrder p ps ++ [q] := by
  induction ps with
  | nil => simp [placeByOrder, Int.le_of_lt h]
  | cons r rest ih =>
    simp only [List.cons_append, placeByOrder]
    split
    · rfl
    · rw [ih, List.cons_append]

omit hm hx in
theorem foldr_placeByOrder_append {q : PositionRecord} {ps : List PositionRecord}
    (h : ∀ p ∈ ps, p.order < q.order) :
    (ps ++ [q]).foldr placeByOrder [] = ps.foldr placeByOrder [] ++ [q] := by
  induction ps with
  | nil => rfl
  | cons p rest ih =>
    have hrest := ih fun r hr => h r (List.mem_cons_of_mem _ hr)
    simp only [List.cons_append, List.foldr_cons, hrest]
    exact placeByOrder_append (h p List.mem_cons_self)

omit hm hx in
theorem foldr_placeByOrder_map {f : PositionRecord → PositionRecord}
    (hf : ∀ p, (f p).order = p.order) (ps : List PositionRecord) :
    (ps.map f).foldr placeByOrder [] = (ps.foldr placeByOrder []).map f := by
  have hplace : ∀ p qs, placeByOrder (f p) (qs.map f) = (placeByOrder p qs).map f := by
    intro p qs
    induction qs with
    | nil => rfl
    | cons q rest ih =>
      simp only [List.map_cons, placeByOrder, hf, ih]
      split <;> rfl
  induction ps with
  | nil => rfl
  | cons p rest ih => simp only [List.map_cons, List.foldr_cons, ih, hplace]

theorem post_placesOf (leg : Int) :
    (m.post x next r).placesOf leg =
      (m.placesOf leg).map x.mark ++ x.position.toList.filter (·.run = leg) := by
  have hfilter : (m.positions.values.map x.mark).filter (·.run = leg) =
      (m.placesOf leg).map x.mark := by
    simp [placesOf, List.filter_map, Function.comp_def]
  rw [post_eq]
  cases hp : x.position with
  | none =>
    simp only [placesOf, Option.elim_none, markedPositions_values hm] at hfilter ⊢
    simp [hfilter]
  | some p =>
    have hlast : ((m.markedPositions x).insert p.id p).values =
        m.positions.values.map x.mark ++ [p] := by
      rw [← markedPositions_values hm]
      refine values_insert_fresh p fun {k u} hk => ?_
      rw [markedPositions_get? hm] at hk
      obtain ⟨q, hq, -⟩ := Option.map_eq_some_iff.mp hk
      have hlt := (hm.positions hq).2.1
      have hnew := (hx.position hp).1
      omega
    rw [← hfilter, ← List.filter_append, Option.toList_some, ← hlast]
    rfl

/-- The positions of a run after a change: its mark is set and its position comes last. -/
theorem post_positionsOf (leg : Int) :
    (m.post x next r).positionsOf leg =
      (m.positionsOf leg).map x.mark ++ x.position.toList.filter (·.run = leg) := by
  rw [positionsOf_eq, post_placesOf hm hx, positionsOf_eq]
  cases hp : x.position with
  | none => simp [foldr_placeByOrder_map x.mark_order]
  | some p =>
    obtain ⟨-, -, hrun, hlate, -⟩ := hx.position hp
    by_cases hleg : p.run = leg
    · have hone : (some p).toList.filter (·.run = leg) = [p] := by simp [hleg]
      rw [hone, foldr_placeByOrder_append, foldr_placeByOrder_map x.mark_order]
      intro q' hq'
      obtain ⟨q, hq, rfl⟩ := List.mem_map.mp hq'
      rw [Change.mark_order]
      apply hlate
      rw [← hrun, hleg]
      exact mem_foldr_placeByOrder.mpr hq
    · have hnone : (some p).toList.filter (·.run = leg) = [] := by simp [hleg]
      rw [hnone, List.append_nil, List.append_nil, foldr_placeByOrder_map x.mark_order]

/-- A unit of work leaves a sound store sound. -/
theorem Sound.post (hr : r.id = run) (hc : m.runs.get? run = some c) :
    (m.post x next r).Sound := by
  subst hr
  have hgrown := hx.grown
  have hkept : ∀ {id s}, m.stepRuns.get? id = some s →
      (m.post x next r).stepRuns.get? id = some s :=
    fun hs => (post_stepRuns_get? hm hx).mpr (.inl hs)
  have hrun : ∀ {id u}, m.runs.get? id = some u →
      ∃ u, (m.post x next r).runs.get? id = some u := by
    intro id u hu
    rw [post_runs, Table.get?_insert]
    split
    · exact ⟨r, rfl⟩
    · exact ⟨u, hu⟩
  constructor
  · intro id u hu
    rw [post_runs, Table.get?_insert] at hu
    rw [post_nextId]
    split at hu
    · cases hu
      subst id
      have hlt := (hm.runs hc).2
      exact ⟨rfl, by omega⟩
    · obtain ⟨hid, hlt⟩ := hm.runs hu
      exact ⟨hid, by omega⟩
  · intro id s hs
    rw [post_nextId]
    rcases (post_stepRuns_get? hm hx).mp hs with hs | ⟨hs, hid⟩
    · obtain ⟨hid, hlt, u, hu⟩ := hm.stepRuns hs
      exact ⟨hid, by omega, hrun hu⟩
    · obtain ⟨-, hlt, hsr⟩ := hx.visit hs
      exact ⟨hid, by omega, hsr ▸ hrun hc⟩
  · intro id a ha
    rw [post_nextId]
    rcases (post_attempts_get? hm hx).mp ha with ha | ⟨ha, hid⟩
    · obtain ⟨hid, hlt, s, hs⟩ := hm.attempts ha
      exact ⟨hid, by omega, s, hkept hs⟩
    · obtain ⟨-, hlt, s, hs, -⟩ := hx.attempt ha
      exact ⟨hid, by omega, s, hkept hs⟩
  · intro id p hp
    rw [post_nextId]
    rcases (post_positions_get? hm hx).mp hp with ⟨q, hq, rfl⟩ | ⟨hp, hid⟩
    · obtain ⟨hid, hlt, s, hs, hsr⟩ := hm.positions hq
      rw [Change.mark_id, Change.mark_stepRun, Change.mark_run]
      exact ⟨hid, by omega, s, hkept hs, hsr⟩
    · obtain ⟨-, hlt, hpr, -, s, hs, hsr⟩ := hx.position hp
      exact ⟨hid, by omega, s, (post_stepRuns_get? hm hx).mpr hs, hsr.trans hpr.symm⟩

end Tables

/-! ## Legs -/

/-- All that belongs to a run is the same. -/
structure SameLeg (m m' : Memory) (leg : Int) : Prop where
  run : m'.runs.get? leg = m.runs.get? leg
  places : m'.placesOf leg = m.placesOf leg
  stepRuns : ∀ {id s}, s.run = leg → (m'.stepRuns.get? id = some s ↔ m.stepRuns.get? id = some s)
  attempts : ∀ {id s}, m.stepRuns.get? id = some s → s.run = leg →
    m'.attemptsOf id = m.attemptsOf id
  visits : m'.visitsOf leg = m.visitsOf leg
  attemptsIn : m'.attemptsIn leg = m.attemptsIn leg

theorem SameTables.sameLeg {m' : Memory} (h : SameTables m m') (leg : Int) :
    SameLeg m m' leg :=
  ⟨by rw [h.runs], h.placesOf leg, by simp [h.stepRuns], fun _ _ => h.attemptsOf _,
    h.visitsOf leg, h.attemptsIn leg⟩

theorem SameLeg.refl (m : Memory) (leg : Int) : SameLeg m m leg :=
  (SameTables.refl m).sameLeg leg

theorem SameLeg.trans {m₁ m₂ m₃ : Memory} {leg : Int} (h : SameLeg m₁ m₂ leg)
    (h' : SameLeg m₂ m₃ leg) : SameLeg m₁ m₃ leg := by
  refine ⟨h'.run.trans h.run, h'.places.trans h.places, ?_, ?_, h'.visits.trans h.visits,
    h'.attemptsIn.trans h.attemptsIn⟩
  · exact fun hs => (h'.stepRuns hs).trans (h.stepRuns hs)
  · exact fun hs hrun => (h'.attempts ((h.stepRuns hrun).mpr hs) hrun).trans (h.attempts hs hrun)

theorem SameLeg.positions {m' : Memory} {leg : Int} (h : SameLeg m m' leg) :
    m'.positionsOf leg = m.positionsOf leg := by
  rw [positionsOf_eq, h.places, positionsOf_eq]

theorem SameLeg.latestPosition {m' : Memory} {leg : Int} (h : SameLeg m m' leg) :
    m'.latestPosition leg = m.latestPosition leg := by
  rw [Memory.latestPosition, h.positions, Memory.latestPosition]

theorem SameLeg.current {m' : Memory} {leg : Int} {p : PositionRecord} {s : StepRunRecord}
    (hm : m.Sound) (h : SameLeg m m' leg) (hp : m'.latestPosition leg = some p)
    (hs : m'.stepRuns.get? p.stepRun = some s) :
    m.latestPosition leg = some p ∧ m.stepRuns.get? p.stepRun = some s ∧ s.run = leg := by
  rw [h.latestPosition] at hp
  obtain ⟨s', hget, hrun, -⟩ := hm.joined (latestPosition_mem hp)
  have hkept := (h.stepRuns hrun).mpr hget
  obtain rfl : s' = s := Option.some.inj (hkept.symm.trans hs)
  exact ⟨hp, hget, hrun⟩

theorem SameLeg.findStepRun {m' : Memory} {leg : Int} (h : SameLeg m m' leg)
    (branch name : String) : m'.findStepRun leg branch name = m.findStepRun leg branch name := by
  rw [findStepRun_eq, findStepRun_eq, h.visits]

/-- A unit of work leaves the legs of other runs alone. -/
theorem sameLeg_post (hm : m.Sound) (hx : x.Fits m next run) (hr : r.id = run) {leg : Int}
    (hne : leg ≠ run) : SameLeg m (m.post x next r) leg := by
  subst hr
  constructor
  · rw [post_runs, Table.get?_insert_of_ne _ hne]
  · have hmark : ∀ p ∈ m.placesOf leg, x.mark p = p := by
      intro p hp
      have hp : p ∈ m.positionsOf leg := mem_foldr_placeByOrder.mpr hp
      unfold Change.mark
      split
      · rename_i hmarked
        obtain ⟨q, hq, hqr⟩ := hx.marked hmarked
        rw [hm.position_get? hp] at hq
        cases hq
        exact absurd ((mem_positionsOf.mp hp).2.symm.trans hqr) hne
      · rfl
    have hnone : x.position.toList.filter (·.run = leg) = [] := by
      apply List.filter_eq_nil_iff.mpr
      intro p hp
      obtain ⟨-, -, hpr, -⟩ := hx.position (Option.mem_toList.mp hp)
      simpa [hpr] using hne.symm
    rw [post_placesOf hm hx, hnone, List.append_nil]
    exact (List.map_congr_left hmark).trans (List.map_id _)
  · intro id s hs
    rw [post_stepRuns_get? hm hx]
    refine ⟨fun h => h.resolve_right ?_, .inl⟩
    rintro ⟨hv, -⟩
    exact hne (hs.symm.trans (hx.visit hv).2.2)
  · intro id s hs hsr
    have hnone : x.attempt.toList.filter (·.stepRun = id) = [] := by
      apply List.filter_eq_nil_iff.mpr
      intro a ha
      obtain ⟨-, -, s', hs', hsr'⟩ := hx.attempt (Option.mem_toList.mp ha)
      intro hid
      rw [decide_eq_true_eq] at hid
      rw [hid, hs] at hs'
      cases hs'
      exact hne (hsr.symm.trans hsr')
    rw [post_attemptsOf hm hx, hnone, List.append_nil]
  · have hnone : x.visit.toList.filter (·.run = leg) = [] := by
      apply List.filter_eq_nil_iff.mpr
      intro v hv
      obtain ⟨-, -, hvr⟩ := hx.visit (Option.mem_toList.mp hv)
      simpa [hvr] using hne.symm
    rw [post_visitsOf hm hx, hnone, List.append_nil]
  · have hnone : x.attempt.toList.filter (fun _ => decide (r.id = leg)) = [] := by
      apply List.filter_eq_nil_iff.mpr
      intro a _
      simpa using hne.symm
    rw [post_attemptsIn hm hx, hnone, List.append_nil]

end Memory
end CallFlow
