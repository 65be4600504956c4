import CallFlow.Proofs.Shared.Durability

/-! # One position for each order

An order is refused when it is staged if the store or the same snapshot has it, and refused again
at the commit if the store has got it since. So no two positions of a run have the same order, and
the positions of a run are listed in strictly increasing order with the latest one last.
-/
namespace CallFlow
open Memory

namespace Memory
variable {m m' : Memory}

theorem Linked.positionsOf_strict (h : m.Linked) (run : Int) :
    (m.positionsOf run).Pairwise (·.order < ·.order) := by
  refine foldr_placeByOrder_strict (List.pairwise_filter.mpr (Table.values_pairwise ?_))
  intro i j p q hp hq hne hrun hrun' horder
  have hsame : p.run = q.run := (of_decide_eq_true hrun).trans (of_decide_eq_true hrun').symm
  exact hne (h.orders hp hq hsame horder)

theorem positionsOf_eq_nil_iff {run : Int} :
    m.positionsOf run = [] ↔ ∀ id p, m.positions.get? id = some p → p.run ≠ run := by
  rw [List.eq_nil_iff_forall_not_mem]
  constructor
  · exact fun h id p hp hrun => h p (mem_positionsOf.mpr ⟨⟨id, hp⟩, hrun⟩)
  · intro h p hp
    obtain ⟨⟨id, hget⟩, hrun⟩ := mem_positionsOf.mp hp
    exact h id p hget hrun

theorem Retains.hasOrder (h : m.Retains m') {run order : Int} (ho : m.hasOrder run order = true) :
    m'.hasOrder run order = true := by
  obtain ⟨id, p, hp, hrun, horder⟩ := hasOrder_iff.mp ho
  obtain ⟨p', hp', hbecomes⟩ := h.positions hp
  obtain ⟨-, hrun', -, horder'⟩ := hbecomes.same
  exact hasOrder_iff.mpr ⟨id, p', hp', hrun'.trans hrun, horder'.trans horder⟩

/-- Writes do not pass the checks of a commit if one of them has an order that is taken. -/
theorem checkWrites_taken (pre post : List Write) {p : PositionRecord}
    (h : m.hasOrder p.run p.order = true) :
    ∃ failure, m.checkWrites .empty (pre ++ .insertPosition p :: post) = .error failure ∧
      (failure = .duplicateOrder p.run p.order ∨ m.checkWrites .empty pre = .error failure) := by
  rw [checkWrites_append]
  cases hpre : m.checkWrites .empty pre with
  | error failure => exact ⟨failure, rfl, .inr rfl⟩
  | ok u => exact ⟨_, by simp [checkWrites, checkWrite, h], .inl rfl⟩

end Memory

namespace SharedStore
variable {x y : SharedStore}

/-- A snapshot that was committed either stays so, or an action has just applied its writes. -/
theorem Moves.committed (h : x.Moves y) {slot : Nat} {t : Transaction}
    (ht : y.transactions[slot]? = some t) (hf : t.fate = .committed) :
    x.transactions[slot]? = some t ∨
      ∃ u, x.pending? slot = some u ∧ u.receipts = t.receipts ∧
        x.store.checkWrites .empty u.snapshot.writes = .ok () ∧
        y.store = u.snapshot.writes.foldl applyWrite x.store := by
  cases h with
  | still | tick => exact .inl ht
  | start =>
    rcases slot_append ht with rfl | ht
    · cases hf
    · exact .inl ht
  | stage pending =>
    rcases slot_set ht with ⟨-, rfl⟩ | ⟨-, ht⟩
    · cases (pending?_eq_some.mp pending).2.symm.trans hf
    · exact .inl ht
  | commit pending checked =>
    rcases slot_set ht with ⟨rfl, rfl⟩ | ⟨-, ht⟩
    · exact .inr ⟨_, pending, rfl, checked, rfl⟩
    · exact .inl ht
  | close pending closed undone =>
    rcases slot_set ht with ⟨-, rfl⟩ | ⟨-, ht⟩
    · exact absurd hf undone
    · exact .inl ht

def Occupied (x : SharedStore) : Prop :=
  ∀ (slot : Nat) (t : Transaction) (p : PositionRecord), x.transactions[slot]? = some t →
    t.fate = .committed → .position p ∈ t.receipts → x.store.hasOrder p.run p.order = true

theorem occupied_empty : empty.Occupied := by
  intro slot t p ht
  cases ht

theorem Occupied.moves (h : x.Occupied) (hx : x.Sound) (hmoves : x.Moves y) : y.Occupied := by
  intro slot t p ht hf hp
  rcases hmoves.committed ht hf with hold | ⟨u, pending, hreceipts, checked, hstore⟩
  · exact (hx.retains hmoves).hasOrder (h slot t p hold hf hp)
  · obtain ⟨hu, hpending⟩ := pending?_eq_some.mp pending
    have hsound := hx.transactions hu
    have hshown := (hsound.shown (hsound.admits hpending checked)).positions (hreceipts ▸ hp)
    rw [hstore]
    exact hasOrder_iff.mpr ⟨_, _, hshown, rfl, rfl⟩

theorem Reachable.occupied (h : x.Reachable) : x.Occupied := by
  obtain ⟨actions, rfl⟩ := h
  exact sound_empty.keeps occupied_empty (fun hx hmoves hy => hy.moves hx hmoves) actions

/-- No two positions of a run have the same order, and the latest is the one of the highest order.
Of two snapshots with one order the later commit is refused and changes nothing. -/
theorem run_orders_unique (h : x.Reachable) :
    (∀ {i j p q}, x.store.positions.get? i = some p → x.store.positions.get? j = some q →
      p.run = q.run → p.order = q.order → i = j ∧ p = q) ∧
    (∀ run, ∃ ps latest,
      (Backend.positions (σ := Memory) run).run x.store = (.ok ps, x.store) ∧
      (∀ p, p ∈ ps ↔ (∃ id, x.store.positions.get? id = some p) ∧ p.run = run) ∧
      ps.Pairwise (·.order < ·.order) ∧
      (Backend.latestPosition (σ := Memory) run).run x.store = (.ok latest, x.store) ∧
      latest = ps.getLast? ∧
      (latest = none ↔ ∀ id p, x.store.positions.get? id = some p → p.run ≠ run) ∧
      ∀ p, latest = some p ↔ p ∈ ps ∧ ∀ q ∈ ps, q ≠ p → q.order < p.order) ∧
    ∀ {i j : Nat} {t u : Transaction} {pre post : List Receipt} {p q : PositionRecord},
      x.pending? i = some t → t.receipts = pre ++ .position p :: post →
      x.transactions[j]? = some u → u.fate = .committed → .position q ∈ u.receipts →
      q.run = p.run → q.order = p.order →
      ∃ failure, (Backend.commit (σ := Memory) t.snapshot).run x.store = (.error failure, x.store) ∧
        (x.step (.commit i)).store = x.store ∧
        (failure = .duplicateOrder p.run p.order ∨
          x.store.checkWrites .empty (pre.map Receipt.write) = .error failure) := by
  refine ⟨?_, ?_, ?_⟩
  · intro i j p q hp hq hrun horder
    obtain rfl := h.sound.linked.orders hp hq hrun horder
    exact ⟨rfl, Option.some.inj (hp.symm.trans hq)⟩
  · intro run
    have hstrict := h.sound.linked.positionsOf_strict run
    refine ⟨x.store.positionsOf run, x.store.latestPosition run, rfl, fun p => mem_positionsOf,
      hstrict, rfl, rfl, ?_, fun p => getLast?_eq_some_iff_highest hstrict⟩
    rw [latestPosition_eq_none_iff, positionsOf_eq_nil_iff]
  · intro i j t u pre post p q ht hsplit hu hf hq hrun horder
    obtain ⟨hslot, -⟩ := pending?_eq_some.mp ht
    have htaken := h.occupied j u q hu hf hq
    rw [hrun, horder] at htaken
    have hwrites : t.snapshot.writes =
        pre.map Receipt.write ++ .insertPosition p :: post.map Receipt.write :=
      (h.sound.transactions hslot).writes_split hsplit
    obtain ⟨failure, hchecks, hreason⟩ :=
      checkWrites_taken (pre.map Receipt.write) (post.map Receipt.write) htaken
    rw [← hwrites] at hchecks
    rcases step_commit ht with ⟨hok, -⟩ | ⟨_, hrefused, hanswer, hstore⟩
    · rw [hok] at hchecks
      cases hchecks
    · rw [hrefused] at hchecks
      cases hchecks
      exact ⟨_, hanswer, hstore, hreason⟩

/-- The first rival has taken the order that the second one has staged too, so the second one is
refused and the position of the first one stays the only one. -/
theorem run_orders_unique_rivals : ∃ (p q : PositionRecord) (t u : Transaction)
    (before : List Receipt),
    Rivals.settled.pending? 2 = some t ∧ t.receipts = before ++ [.position p] ∧
    Rivals.settled.transactions[1]? = some u ∧ u.fate = .committed ∧ .position q ∈ u.receipts ∧
    q.run = p.run ∧ q.order = p.order ∧
    (∃ failure, (Backend.commit (σ := Memory) t.snapshot).run Rivals.settled.store =
      (.error failure, Rivals.settled.store)) ∧
    ∃ only, Rivals.settled.store.positions.get? 4 = some only ∧
      (Backend.positions (σ := Memory) 1).run Rivals.settled.store =
        (.ok [only], Rivals.settled.store) ∧
      ∀ {i r}, Rivals.settled.store.positions.get? i = some r → r.run = only.run →
        r.order = only.order → i = 4 := by
  obtain ⟨hunique, -, hraced⟩ := run_orders_unique Rivals.reachable_settled
  obtain ⟨p, t, before, ht, hsplit, hrun, horder⟩ : ∃ (p : PositionRecord) (t : Transaction)
      (before : List Receipt), Rivals.settled.pending? 2 = some t ∧
      t.receipts = before ++ [.position p] ∧ p.run = 1 ∧ p.order = 1 :=
    ⟨_, _, [.version Rivals.caller 1 ""], rfl, rfl, rfl, rfl⟩
  obtain ⟨q, u, hu, hf, hq, hrun', horder'⟩ : ∃ (q : PositionRecord) (u : Transaction),
      Rivals.settled.transactions[1]? = some u ∧ u.fate = .committed ∧ .position q ∈ u.receipts ∧
      q.run = 1 ∧ q.order = 1 :=
    ⟨⟨4, 1, 2, 1, false, ""⟩, _, rfl, rfl, by decide, rfl, rfl⟩
  obtain ⟨only, honly, hlisted⟩ : ∃ only, Rivals.settled.store.positions.get? 4 = some only ∧
      (Backend.positions (σ := Memory) 1).run Rivals.settled.store =
        (.ok [only], Rivals.settled.store) := ⟨_, rfl, rfl⟩
  obtain ⟨failure, hrefused, -⟩ := hraced ht hsplit hu hf hq (hrun'.trans hrun.symm)
    (horder'.trans horder.symm)
  exact ⟨p, q, t, u, before, ht, hsplit, hu, hf, hq, hrun'.trans hrun.symm,
    horder'.trans horder.symm, ⟨failure, hrefused⟩, only, honly, hlisted,
    fun hr hsame hsame' => (hunique hr honly hsame hsame').1⟩

end SharedStore
end CallFlow
