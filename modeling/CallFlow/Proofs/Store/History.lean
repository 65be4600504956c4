import CallFlow.Proofs.Store.Sound

/-! # Positions in order and histories

The positions of a run are listed by order, in whatever order they were recorded. A history joins
each of them with its step run, so it can be read as soon as every listed position leads to one.
What a query answers is read off the tables.
-/
namespace CallFlow.Memory
variable {m m' : Memory}

/-! ## By order -/

theorem placeByOrder_strict {p : PositionRecord} {ps : List PositionRecord}
    (h : ps.Pairwise (·.order < ·.order)) (hp : ∀ q ∈ ps, p.order ≠ q.order) :
    (placeByOrder p ps).Pairwise (·.order < ·.order) := by
  induction ps with
  | nil => simp [placeByOrder]
  | cons r rest ih =>
    obtain ⟨hhead, htail⟩ := List.pairwise_cons.mp h
    have hne := hp r List.mem_cons_self
    simp only [placeByOrder]
    split
    · have hlt : p.order < r.order := by omega
      refine List.pairwise_cons.mpr ⟨fun q hq => ?_, h⟩
      rcases List.mem_cons.mp hq with rfl | hq
      · exact hlt
      · exact Int.lt_trans hlt (hhead q hq)
    · refine List.pairwise_cons.mpr
        ⟨fun q hq => ?_, ih htail fun q hq => hp q (List.mem_cons_of_mem _ hq)⟩
      rcases mem_placeByOrder.mp hq with rfl | hq
      · omega
      · exact hhead q hq

theorem foldr_placeByOrder_strict {ps : List PositionRecord}
    (h : ps.Pairwise (·.order ≠ ·.order)) :
    (ps.foldr placeByOrder []).Pairwise (·.order < ·.order) := by
  induction ps with
  | nil => exact .nil
  | cons p rest ih =>
    obtain ⟨hhead, htail⟩ := List.pairwise_cons.mp h
    exact placeByOrder_strict (ih htail) fun q hq => hhead q (mem_foldr_placeByOrder.mp hq)

theorem getLast?_eq_some_iff_highest {ps : List PositionRecord} {p : PositionRecord}
    (h : ps.Pairwise (·.order < ·.order)) :
    ps.getLast? = some p ↔ p ∈ ps ∧ ∀ q ∈ ps, q ≠ p → q.order < p.order := by
  rcases List.eq_nil_or_concat ps with rfl | ⟨before, last, rfl⟩
  · simp
  rw [List.concat_eq_append] at h ⊢
  have hbelow {q : PositionRecord} (hq : q ∈ before) : q.order < last.order :=
    (List.pairwise_append.mp h).2.2 q hq last (List.mem_singleton_self last)
  rw [List.getLast?_concat, Option.some_inj]
  constructor
  · rintro rfl
    refine ⟨by simp, fun q hq hne => ?_⟩
    rcases List.mem_append.mp hq with hq | hq
    · exact hbelow hq
    · exact absurd (List.mem_singleton.mp hq) hne
  · rintro ⟨hp, hhighest⟩
    rcases List.mem_append.mp hp with hp | hp
    · have hlt := hbelow hp
      have hgt := hhighest last (by simp) fun heq => Int.ne_of_lt hlt (heq ▸ rfl)
      omega
    · exact (List.mem_singleton.mp hp).symm

/-! ## Histories -/

def join (m : Memory) (p : PositionRecord) : Except StorageError HistoryEntry :=
  (m.stepRun p.stepRun).map (⟨p, ·⟩)

theorem history_run (run : Int) (m : Memory) :
    (Backend.history (σ := Memory) run).run m = ((m.positionsOf run).mapM m.join, m) := by
  have hone (p : PositionRecord) :
      (Backend.joinPosition (σ := Memory) p).run m = (m.join p, m) := by
    have hstep : (Backend.stepRun (σ := Memory) p.stepRun).run m = (m.stepRun p.stepRun, m) := rfl
    simp only [Backend.joinPosition, Effect.run_bind, hstep, join]
    cases m.stepRun p.stepRun <;> rfl
  show ((m.positionsOf run).mapM (Backend.joinPosition (σ := Memory))).run m = _
  induction m.positionsOf run with
  | nil => rfl
  | cons p rest ih =>
    simp only [List.mapM_cons, Effect.run_bind, hone]
    cases m.join p with
    | error e => rfl
    | ok entry =>
      simp only [ih]
      cases rest.mapM m.join <;> rfl

def historyOf (m : Memory) (run : Int) : List HistoryEntry :=
  (m.positionsOf run).filterMap fun p => (m.stepRuns.get? p.stepRun).map (⟨p, ·⟩)

/-- A history can be read if every listed position leads to a step run. -/
theorem history_eq {run : Int}
    (h : ∀ p ∈ m.positionsOf run, ∃ s, m.stepRuns.get? p.stepRun = some s) :
    (m.positionsOf run).mapM m.join = .ok (m.historyOf run) := by
  unfold historyOf
  generalize m.positionsOf run = ps at h
  induction ps with
  | nil => rfl
  | cons p rest ih =>
    obtain ⟨s, hs⟩ := h p List.mem_cons_self
    have hrest := ih fun q hq => h q (List.mem_cons_of_mem _ hq)
    have hone : m.join p = .ok ⟨p, s⟩ := by
      simp only [join, stepRun, hs]
      rfl
    simp only [List.mapM_cons, hone, hrest, List.filterMap_cons, hs, Option.map_some]
    rfl

theorem historyOf_positions {run : Int}
    (h : ∀ p ∈ m.positionsOf run, ∃ s, m.stepRuns.get? p.stepRun = some s) :
    (m.historyOf run).map (·.position) = m.positionsOf run := by
  unfold historyOf
  generalize m.positionsOf run = ps at h
  induction ps with
  | nil => rfl
  | cons p rest ih =>
    obtain ⟨s, hs⟩ := h p List.mem_cons_self
    rw [List.filterMap_cons, hs, Option.map_some, List.map_cons,
      ih fun q hq => h q (List.mem_cons_of_mem _ hq)]

theorem mem_historyOf {run : Int} {e : HistoryEntry} (h : e ∈ m.historyOf run) :
    m.stepRuns.get? e.position.stepRun = some e.stepRun := by
  obtain ⟨p, -, hp⟩ := List.mem_filterMap.mp h
  obtain ⟨s, hs, rfl⟩ := Option.map_eq_some_iff.mp hp
  exact hs

theorem Sound.history_eq (h : m.Sound) (run : Int) :
    (m.positionsOf run).mapM m.join = .ok (m.historyOf run) := by
  refine Memory.history_eq fun p hp => ?_
  obtain ⟨s, hs, -⟩ := h.joined hp
  exact ⟨s, hs⟩

/-! ## Queries -/

inductive Query : {α : Type} → StoreM Memory α → Prop
  | run (id : Int) : Query (Backend.run id)
  | latestPosition (run : Int) : Query (Backend.latestPosition run)
  | positions (run : Int) : Query (Backend.positions run)
  | stepRun (id : Int) : Query (Backend.stepRun id)
  | findStepRun (run : Int) (branch name : String) : Query (Backend.findStepRun run branch name)
  | attempts (stepRun : Int) : Query (Backend.attempts stepRun)
  | history (run : Int) : Query (Backend.history run)

/-- Stores with the same tables answer every query alike. -/
theorem SameTables.answers (h : SameTables m m') {α : Type} {q : StoreM Memory α} (hq : Query q) :
    (q.run m').1 = (q.run m).1 := by
  cases hq with
  | run id =>
    show m'.run id = m.run id
    simp only [Memory.run, h.runs]
  | latestPosition run =>
    show Except.ok (m'.latestPosition run) = .ok (m.latestPosition run)
    simp only [Memory.latestPosition, h.positionsOf]
  | positions run =>
    show Except.ok (m'.positionsOf run) = .ok (m.positionsOf run)
    rw [h.positionsOf]
  | stepRun id =>
    show m'.stepRun id = m.stepRun id
    simp only [Memory.stepRun, h.stepRuns]
  | findStepRun run branch name =>
    show Except.ok (m'.findStepRun run branch name) = .ok (m.findStepRun run branch name)
    simp only [Memory.findStepRun, h.stepRuns]
  | attempts stepRun =>
    show Except.ok (m'.attemptsOf stepRun) = .ok (m.attemptsOf stepRun)
    rw [h.attemptsOf]
  | history run =>
    have hjoin : m'.join = m.join := by
      funext p
      simp only [join, Memory.stepRun, h.stepRuns]
    simp only [history_run, h.positionsOf, hjoin]

end CallFlow.Memory
