import CallFlow.Proofs.Shared.Durability
import CallFlow.Proofs.Shared.Order

/-! # Where rows come from

A row of the store was staged on a snapshot that was committed, so what holds of all that clients
were answered and have committed holds of the store. The row of a run is the one of its last
update, or else the one that it was inserted with.
-/
namespace CallFlow
open Memory

theorem Receipt.row_cases {receipt : Receipt} {id : Int} {r : RunRecord}
    (h : receipt.write.row? id = some r) :
    r.id = id ∧ (receipt = .run r ∨ ∃ given answer clock,
      receipt = .version given answer clock ∧
        r = { given with version := answer, updatedAt := clock }) := by
  refine ⟨Write.row?_id h, ?_⟩
  cases receipt with
  | run u =>
    simp only [write, Write.row?] at h
    split at h <;> cases h
    exact .inl rfl
  | version given answer clock =>
    simp only [write, Write.row?] at h
    split at h <;> cases h
    exact .inr ⟨given, answer, clock, rfl, rfl⟩
  | stepRun | attempt | position | mark => cases h

namespace Memory
variable {m : Memory} {ws : List Write}

/-- A position after some writes was inserted by one of them or was there before. -/
theorem position_foldl_applyWrite {id : Int} {p : PositionRecord}
    (h : (ws.foldl applyWrite m).positions.get? id = some p) :
    (∃ q, .insertPosition q ∈ ws ∧ q.id = id ∧ q.Becomes p) ∨
      ∃ q, m.positions.get? id = some q ∧ q.Becomes p := by
  induction ws using List.reverseRecOn generalizing p with
  | nil => exact .inr ⟨p, h, .kept⟩
  | append_singleton ws w ih =>
    rw [foldl_applyWrite_concat] at h
    rcases position_applyWrite h with ⟨rfl, hid⟩ | ⟨q, hq, hbecomes⟩
    · exact .inl ⟨p, List.mem_append_right _ (List.mem_singleton_self _), hid, .kept⟩
    · rcases ih hq with ⟨q', hmem, hid, hbecomes'⟩ | ⟨q', hq', hbecomes'⟩
      · exact .inl ⟨q', List.mem_append_left _ hmem, hid, hbecomes'.trans hbecomes⟩
      · exact .inr ⟨q', hq', hbecomes'.trans hbecomes⟩

theorem attempt_foldl_applyWrite {id : Int} {a : AttemptRecord}
    (h : (ws.foldl applyWrite m).attempts.get? id = some a) :
    .insertAttempt a ∈ ws ∧ a.id = id ∨ m.attempts.get? id = some a := by
  induction ws using List.reverseRecOn with
  | nil => exact .inr h
  | append_singleton ws w ih =>
    rw [foldl_applyWrite_concat, applyWrite_attempts] at h
    rcases Option.or_eq_some_iff.mp h with h | ⟨-, h⟩
    · obtain ⟨rfl, hid⟩ := Write.attempt?_eq_some h
      exact .inl ⟨List.mem_append_right _ (List.mem_singleton_self _), hid⟩
    · exact (ih h).imp_left fun ⟨hmem, hid⟩ => ⟨List.mem_append_left _ hmem, hid⟩

theorem run_foldl_applyWrite {id : Int} {r : RunRecord}
    (h : (ws.foldl applyWrite m).runs.get? id = some r) :
    (∃ w ∈ ws, w.row? id = some r) ∨ m.runs.get? id = some r := by
  rw [foldl_applyWrite_runs] at h
  rcases Option.or_eq_some_iff.mp h with h | ⟨-, h⟩
  · obtain ⟨w, hw, hrow⟩ := List.exists_of_findSome?_eq_some h
    exact .inl ⟨w, List.mem_reverse.mp hw, hrow⟩
  · exact .inr h

theorem Admits.position_becomes (h : m.Admits ws) {p : PositionRecord}
    (hp : .insertPosition p ∈ ws) :
    ∃ q, (ws.foldl applyWrite m).positions.get? p.id = some q ∧ p.Becomes q := by
  obtain ⟨pre, post, hsplit⟩ := List.append_of_mem hp
  obtain ⟨-, hfits⟩ := h.split hsplit
  cases hfits with
  | insertPosition _ _ _ unmarked =>
    refine ⟨_, h.position hp, ?_⟩
    cases decide (Write.markBranched p.id ∈ ws) with
    | true => exact .marked
    | false =>
      rw [← unmarked]
      exact .kept

end Memory

namespace Transaction
variable {m : Memory} {t : Transaction} (h : t.Sound m)
include h

/-- A write that is staged for one receipt only is staged if the client has that receipt. -/
theorem Sound.write_mem (receipt : Receipt)
    (hone : ∀ {other : Receipt}, other.write = receipt.write → other = receipt) :
    receipt.write ∈ t.snapshot.writes ↔ receipt ∈ t.receipts := by
  rw [h.writes, List.mem_map]
  constructor
  · rintro ⟨other, hmem, hwrite⟩
    exact hone hwrite ▸ hmem
  · exact fun hmem => ⟨_, hmem, rfl⟩

theorem Sound.position_mem {p : PositionRecord} :
    .insertPosition p ∈ t.snapshot.writes ↔ .position p ∈ t.receipts :=
  h.write_mem (.position p) fun {other} hwrite => by cases other <;> cases hwrite; rfl

theorem Sound.attempt_mem {a : AttemptRecord} :
    .insertAttempt a ∈ t.snapshot.writes ↔ .attempt a ∈ t.receipts :=
  h.write_mem (.attempt a) fun {other} hwrite => by cases other <;> cases hwrite; rfl

end Transaction

namespace SharedStore
variable {x y : SharedStore} {receipt : Receipt}

def Settled (x : SharedStore) (receipt : Receipt) : Prop :=
  ∃ (slot : Nat) (t : Transaction), x.transactions[slot]? = some t ∧ t.fate = .committed ∧
    receipt ∈ t.receipts

theorem not_settled_empty (receipt : Receipt) : ¬ empty.Settled receipt := by
  rintro ⟨slot, t, ht, -⟩
  cases ht

namespace Moves
variable (h : x.Moves y)
include h

theorem keeps_committed {slot : Nat} {t : Transaction} (ht : x.transactions[slot]? = some t)
    (hf : t.fate = .committed) : y.transactions[slot]? = some t := by
  -- The slot of an action is open, so it is not this one.
  have hother {i : Nat} {u v : Transaction} (hu : x.pending? i = some u) :
      (x.transactions.set i v)[slot]? = some t := by
    obtain ⟨hi, hp⟩ := pending?_eq_some.mp hu
    have hne : i ≠ slot := by
      rintro rfl
      obtain rfl := Option.some.inj (hi.symm.trans ht)
      cases hp.symm.trans hf
    rw [List.getElem?_set_ne hne, ht]
  cases h with
  | still | tick => exact ht
  | start =>
    obtain ⟨hlt, -⟩ := List.getElem?_eq_some_iff.mp ht
    rw [List.getElem?_append_left hlt, ht]
  | stage pending | commit pending | close pending => exact hother pending

theorem settled (hs : x.Settled receipt) : y.Settled receipt := by
  obtain ⟨slot, t, ht, hf, hmem⟩ := hs
  exact ⟨slot, t, h.keeps_committed ht hf, hf, hmem⟩

/-- The tables stay, or a snapshot has passed the checks of a commit and its writes are applied. -/
theorem tables : SameTables x.store y.store ∨ ∃ slot t, x.pending? slot = some t ∧
    x.store.checkWrites .empty t.snapshot.writes = .ok () ∧
    y.store = t.snapshot.writes.foldl applyWrite x.store ∧
    ∀ receipt ∈ t.receipts, y.Settled receipt := by
  cases h with
  | still | start | close => exact .inl (.refl _)
  | tick => exact .inl ⟨rfl, rfl, rfl, rfl⟩
  | @stage slot t receipt => exact .inl (sameTables_billed x.store receipt)
  | @commit slot t pending checked =>
    obtain ⟨ht, -⟩ := pending?_eq_some.mp pending
    obtain ⟨hlt, -⟩ := List.getElem?_eq_some_iff.mp ht
    exact .inr ⟨slot, t, pending, checked, rfl, fun receipt hmem =>
      ⟨slot, _, List.getElem?_set_self hlt, rfl, hmem⟩⟩

end Moves

theorem Moves.settled_cases (h : x.Moves y) (hs : y.Settled receipt) :
    x.Settled receipt ∨ ∃ slot t, x.pending? slot = some t ∧ receipt ∈ t.receipts ∧
      x.store.checkWrites .empty t.snapshot.writes = .ok () ∧
      y.store = t.snapshot.writes.foldl applyWrite x.store := by
  obtain ⟨slot, t, ht, hf, hmem⟩ := hs
  rcases h.committed ht hf with hold | ⟨u, pending, hreceipts, checked, hstore⟩
  · exact .inl ⟨slot, t, hold, hf, hmem⟩
  · exact .inr ⟨slot, u, pending, hreceipts ▸ hmem, checked, hstore⟩

/-- The positions of the store are the settled ones, but for the marks that they got since. -/
structure PositionsSettled (x : SharedStore) : Prop where
  settled : ∀ {id p}, x.store.positions.get? id = some p →
    ∃ q, x.Settled (.position q) ∧ q.id = id ∧ q.Becomes p
  stored : ∀ {q}, x.Settled (.position q) →
    ∃ p, x.store.positions.get? q.id = some p ∧ q.Becomes p

theorem positionsSettled_empty : empty.PositionsSettled :=
  ⟨nofun, fun hs => absurd hs (not_settled_empty _)⟩

theorem PositionsSettled.moves (h : x.PositionsSettled) (hx : x.Sound) (hmoves : x.Moves y) :
    y.PositionsSettled := by
  constructor
  · intro id p hp
    have hold {q : PositionRecord} (hq : x.store.positions.get? id = some q) (hb : q.Becomes p) :
        ∃ q, y.Settled (.position q) ∧ q.id = id ∧ q.Becomes p := by
      obtain ⟨q', hs, hid, hb'⟩ := h.settled hq
      exact ⟨q', hmoves.settled hs, hid, hb'.trans hb⟩
    rcases hmoves.tables with hsame | ⟨slot, t, pending, -, hstore, hsettled⟩
    · exact hold (hsame.positions ▸ hp) .kept
    · obtain ⟨ht, -⟩ := pending?_eq_some.mp pending
      rw [hstore] at hp
      rcases position_foldl_applyWrite hp with ⟨q, hmem, hid, hb⟩ | ⟨q, hq, hb⟩
      · exact ⟨q, hsettled _ ((hx.transactions ht).position_mem.mp hmem), hid, hb⟩
      · exact hold hq hb
  · intro q hs
    rcases hmoves.settled_cases hs with hs | ⟨slot, t, pending, hmem, checked, hstore⟩
    · obtain ⟨p, hp, hb⟩ := h.stored hs
      obtain ⟨p', hp', hb'⟩ := (hx.retains hmoves).positions hp
      exact ⟨p', hp', hb.trans hb'⟩
    · obtain ⟨ht, hp⟩ := pending?_eq_some.mp pending
      have hadmits := (hx.transactions ht).admits hp checked
      rw [hstore]
      exact hadmits.position_becomes ((hx.transactions ht).position_mem.mpr hmem)

theorem Reachable.positionsSettled (h : x.Reachable) : x.PositionsSettled := by
  obtain ⟨actions, rfl⟩ := h
  exact sound_empty.keeps positionsSettled_empty (fun hx hmoves hy => hy.moves hx hmoves) actions

/-! ## A snapshot for one write -/

/-- A snapshot is opened, the write is staged and the snapshot is committed. -/
def alone (x : SharedStore) (request : Request) : List Action :=
  [.start, .stage x.transactions.length request, .commit x.transactions.length]

theorem step_stage {slot : Nat} {t : Transaction} {request : Request} (ht : x.pending? slot = some t)
    (hstage : (request.stage t.snapshot).run x.store =
      (.ok (receipt, t.snapshot.stage receipt.write), x.store.billed receipt)) :
    x.step (.stage slot request) =
      ⟨x.store.billed receipt, x.transactions.set slot (t.take receipt)⟩ := by
  simp only [step, ht, hstage]
  rfl

theorem alone_store (x : SharedStore) (receipt : Receipt) {request : Request}
    (hstage : (request.stage .empty).run x.store =
      (.ok (receipt, Snapshot.empty.stage receipt.write), x.store.billed receipt))
    (hcheck : (x.store.billed receipt).checkWrite .empty receipt.write = .ok ()) :
    (x.after (x.alone request)).store = (x.store.billed receipt).applyWrite receipt.write := by
  have hlast (m : Memory) (t : Transaction) (hp : t.fate = .pending) :
      (SharedStore.mk m (x.transactions ++ [t])).pending? x.transactions.length = some t :=
    pending?_eq_some.mpr ⟨List.getElem?_concat_length, hp⟩
  let t : Transaction := ⟨.empty, [], .pending⟩
  have hstart : x.step .start = ⟨x.store, x.transactions ++ [t]⟩ := rfl
  have hstaged : (x.step .start).step (.stage x.transactions.length request) =
      ⟨x.store.billed receipt, x.transactions ++ [t.take receipt]⟩ := by
    rw [hstart, step_stage (hlast x.store t rfl) hstage, List.set_append_right _ _ (Nat.le_refl _),
      Nat.sub_self]
    rfl
  have hchecked : (x.store.billed receipt).checkWrites .empty (t.take receipt).snapshot.writes =
      .ok () := checkWrites_concat.mpr ⟨rfl, hcheck⟩
  simp only [after, alone, List.foldl_cons, List.foldl_nil, hstaged]
  rcases step_commit (hlast (x.store.billed receipt) (t.take receipt) rfl) with
    ⟨-, -, hstore⟩ | ⟨failure, hrefused, -⟩
  · exact hstore
  · cases hchecked.symm.trans hrefused

end SharedStore
end CallFlow
