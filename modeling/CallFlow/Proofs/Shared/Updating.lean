import CallFlow.Proofs.Shared.Origin
import CallFlow.Proofs.Shared.Versions
import CallFlow.Proofs.World.Overlap

/-! # What an update of a run replaces

An update is given a whole record and only its version is compared with the row. The row that is
left is the given record at the next version, so an update can change the configuration tag of a
run and the time of its creation as well. The updates of engines never change the tag.
-/
namespace CallFlow
open Memory

/-- The same run at its next version. State, branch, session and the time of the update may differ.
-/
structure RunRecord.UpdatesTo (row row' : RunRecord) : Prop where
  id : row'.id = row.id
  configTag : row'.configTag = row.configTag
  createdAt : row'.createdAt = row.createdAt
  version : row'.version = row.version + 1

theorem World.Reaches.configTag {registry : Registry} {w w' : World}
    (hreaches : Reaches registry w w') (h : w.Sound registry) {id : Int} {r : RunRecord}
    (hr : w.store.runs.get? id = some r) :
    ∃ r', w'.store.runs.get? id = some r' ∧ r'.configTag = r.configTag := by
  induction hreaches with
  | refl => exact ⟨r, hr, rfl⟩
  | step a hreaches ih =>
    obtain ⟨r₁, hr₁, htag₁⟩ := ih
    obtain ⟨r₂, hr₂, htag₂, -⟩ := (hreaches.sound h).run_step a hr₁
    exact ⟨r₂, hr₂, htag₂.trans htag₁⟩

namespace SharedStore
variable {x y : SharedStore} {id : Int} {r : RunRecord}

/-- The row is the same, or an update that carried at least its version has given it. -/
def Since (x : SharedStore) (r r' : RunRecord) : Prop :=
  r' = r ∨ ∃ given answer clock, x.Settled (.version given answer clock) ∧ given.id = r.id ∧
    r.version ≤ given.version ∧ r' = { given with version := answer, updatedAt := clock }

def Succeeds (r : RunRecord) (x : SharedStore) : Prop :=
  ∃ r', x.store.runs.get? r.id = some r' ∧ r.version ≤ r'.version ∧ x.Since r r'

theorem Succeeds.moves (h : Succeeds r x) (hx : x.Sound) (hmoves : x.Moves y) : Succeeds r y := by
  obtain ⟨c, hc, hle, hsince⟩ := h
  have hkept : y.Since r c := hsince.imp_right fun ⟨given, answer, clock, hs, hrest⟩ =>
    ⟨given, answer, clock, hmoves.settled hs, hrest⟩
  rcases hmoves.tables with hsame | ⟨slot, t, pending, checked, hstore, hsettled⟩
  · exact ⟨c, hsame.runs ▸ hc, hle, hkept⟩
  obtain ⟨ht, hp⟩ := pending?_eq_some.mp pending
  have hsound := hx.transactions ht
  have hadmits := hsound.admits hp checked
  obtain ⟨r', hr'⟩ := (hx.retains hmoves).runs hc
  rw [hstore] at hr'
  rcases run_foldl_applyWrite hr' with ⟨w, hw, hrow⟩ | hold
  · rw [hsound.writes, List.mem_map] at hw
    obtain ⟨receipt, hmem, rfl⟩ := hw
    obtain ⟨hid, rfl | ⟨given, answer, clock, rfl, rfl⟩⟩ := Receipt.row_cases hrow
    · -- The id of an inserted run is free, but this run was there.
      obtain ⟨pre, post, hsplit⟩ := List.append_of_mem hmem
      obtain ⟨hpre, hfits⟩ := hadmits.split (hsound.writes_split hsplit)
      cases hfits with
      | insertRun fresh =>
        obtain ⟨c', hc'⟩ := hpre.retains.runs hc
        rw [← hid, fresh.runs] at hc'
        cases hc'
    · have hanswer := hsound.versions hmem
      have hbound := (hsound.carried_bounds hadmits hmem (if_pos hid)).1
      rw [versionOf_of_get? hc] at hbound
      refine ⟨_, hstore ▸ hr', ?_, .inr ⟨given, answer, clock, hsettled _ hmem, hid, ?_, rfl⟩⟩
      · show r.version ≤ answer
        omega
      · omega
  · obtain rfl := Option.some.inj (hc.symm.trans hold)
    exact ⟨c, hstore ▸ hr', hle, hkept⟩

theorem Sound.succeeds (h : x.Sound) (hr : x.store.runs.get? id = some r) (actions : List Action) :
    Succeeds r (x.after actions) := by
  have hid := h.linked.runs hr
  exact h.keeps (motive := Succeeds r) ⟨r, hid ▸ hr, Int.le_refl _, .inl rfl⟩
    (fun hy hmoves hkept => hkept.moves hy hmoves) actions

/-- Any record that has the id and the version of the row can replace it. -/
theorem alone_updateRun (x : SharedStore) {given : RunRecord}
    (hr : x.store.runs.get? given.id = some r) (hv : given.version = r.version) :
    (x.after (x.alone (.updateRun given))).store.runs.get? given.id =
      some { given with version := r.version + 1, updatedAt := x.store.clock } := by
  let receipt : Receipt := .version given (r.version + 1) x.store.clock
  have hversion : x.store.version? .empty given.id = some r.version := by
    rw [Snapshot.empty, version?_eq, List.foldl_nil, hr, Option.map_some]
  have hstage : (Request.stage .empty (.updateRun given)).run x.store =
      (.ok (receipt, Snapshot.empty.stage receipt.write), x.store) := by
    have hcall : (Backend.updateRun (σ := Memory) given Snapshot.empty).run x.store =
      x.store.updateRun given .empty := rfl
    simp only [Request.stage, Effect.run_bind, Effect.run_get, hcall, Memory.updateRun, hversion,
      if_pos hv.symm]
    rfl
  have hcheck : x.store.checkWrite .empty receipt.write = .ok () := by
    simp only [receipt, Receipt.write, checkWrite, hversion, if_pos]
  rw [x.alone_store receipt hstage hcheck]
  exact Table.get?_insert_self _ _ _

/-- The row that an update in a committed snapshot replaces, and the one that it leaves. -/
theorem Reachable.updated_row {slot : Nat} {t : Transaction} (h : x.Reachable)
    (ht : x.pending? slot = some t)
    (hcommit : ((Backend.commit (σ := Memory) t.snapshot).run x.store).1 = .ok ())
    {pre post : List Receipt} {given : RunRecord} {answer : Int} {clock : String}
    (hsplit : t.receipts = pre ++ .version given answer clock :: post) :
    ∃ row, ((pre.map Receipt.write).foldl applyWrite x.store).runs.get? given.id = some row ∧
      row.id = given.id ∧
      (((pre ++ [Receipt.version given answer clock]).map Receipt.write).foldl applyWrite
        x.store).runs.get? given.id =
          some { given with version := row.version + 1, updatedAt := clock } := by
  obtain ⟨hslot, hp⟩ := pending?_eq_some.mp ht
  have hsound := h.sound.transactions hslot
  have hadmits := hsound.admits hp (checked_of_commit hcommit)
  obtain ⟨row, hrow, hversion⟩ := hsound.replaces hadmits hsplit
  have hlinked := (hadmits.split (hsound.writes_split hsplit)).1.linked h.sound.linked
  have hmem : .version given answer clock ∈ t.receipts := by
    rw [hsplit]
    exact List.mem_append_right _ List.mem_cons_self
  have hanswer : answer = row.version + 1 := hversion ▸ hsound.versions hmem
  refine ⟨row, hrow, hlinked.runs hrow, ?_⟩
  rw [List.map_append, List.map_singleton, foldl_applyWrite_concat, hanswer]
  exact Table.get?_insert_self _ _ _

/-- A given record is a mere update of the row if it has the tag and the time of creation of it. -/
theorem updatesTo_iff {row given : RunRecord} (hid : row.id = given.id) (clock : String) :
    row.UpdatesTo { given with version := row.version + 1, updatedAt := clock } ↔
      given.configTag = row.configTag ∧ given.createdAt = row.createdAt :=
  ⟨fun h => ⟨h.configTag, h.createdAt⟩, fun h => ⟨hid.symm, h.1, h.2, rfl⟩⟩

/-- An update leaves the given record at the next version. That is a change of state, branch and
session just when the client gave tag and time of creation back. Engines never change a tag. -/
theorem update_replaces_row (h : x.Reachable) :
    (∀ {slot t}, x.pending? slot = some t →
      ((Backend.commit (σ := Memory) t.snapshot).run x.store).1 = .ok () →
      ∀ {pre post : List Receipt} {given : RunRecord} {answer : Int} {clock : String},
        t.receipts = pre ++ .version given answer clock :: post →
        ∃ row row' : RunRecord,
          ((pre.map Receipt.write).foldl applyWrite x.store).runs.get? given.id = some row ∧
          (((pre ++ [Receipt.version given answer clock]).map Receipt.write).foldl applyWrite
            x.store).runs.get? given.id = some row' ∧
          row' = { given with version := row.version + 1, updatedAt := clock } ∧
          (row.UpdatesTo row' ↔
            given.configTag = row.configTag ∧ given.createdAt = row.createdAt)) ∧
    (∀ {id r}, x.store.runs.get? id = some r → ∀ actions, ∃ r',
      (x.after actions).store.runs.get? id = some r' ∧ r.version ≤ r'.version ∧
        (x.after actions).Since r r') ∧
    (∀ {given r : RunRecord}, x.store.runs.get? given.id = some r → given.version = r.version →
      ∃ actions clock, (x.after actions).store.runs.get? given.id =
        some { given with version := r.version + 1, updatedAt := clock }) ∧
    ∀ {registry : Registry} {w w' : World}, World.Reachable registry w →
      World.Reaches registry w w' → ∀ {id r}, w.store.runs.get? id = some r →
        ∃ r', w'.store.runs.get? id = some r' ∧ r'.configTag = r.configTag := by
  refine ⟨?_, ?_, ?_, fun hw hreaches _ _ hr => hreaches.configTag hw.sound hr⟩
  · intro slot t ht hcommit pre post given answer clock hsplit
    obtain ⟨row, hrow, hid, hrow'⟩ := h.updated_row ht hcommit hsplit
    exact ⟨row, _, hrow, hrow', rfl, updatesTo_iff hid clock⟩
  · intro id r hr actions
    have hid := h.sound.linked.runs hr
    exact hid ▸ h.sound.succeeds hr actions
  · intro given r hr hv
    exact ⟨_, _, x.alone_updateRun hr hv⟩

def relabeled : RunRecord := { Rivals.caller with configTag := "other" }

def relabeling : SharedStore := Rivals.opened.step (.stage 1 (.updateRun relabeled))

theorem reachable_relabeling : relabeling.Reachable :=
  Rivals.reachable_opened.after [.stage 1 (.updateRun relabeled)]

/-- The update is committed, and the run has the other tag. -/
theorem update_replaces_row_relabeling : ∃ (t : Transaction) (row row' : RunRecord),
    relabeling.pending? 1 = some t ∧
    ((Backend.commit (σ := Memory) t.snapshot).run relabeling.store).1 = .ok () ∧
    relabeling.store.runs.get? 1 = some row ∧ row.configTag = "tag" ∧
    (relabeling.step (.commit 1)).store.runs.get? 1 = some row' ∧ row'.configTag = "other" ∧
    row'.version = row.version + 1 ∧ ¬ row.UpdatesTo row' := by
  obtain ⟨t, ht, hcommit, hreceipts, hstore⟩ : ∃ t, relabeling.pending? 1 = some t ∧
      ((Backend.commit (σ := Memory) t.snapshot).run relabeling.store).1 = .ok () ∧
      t.receipts = [] ++ .version relabeled 1 "" :: [] ∧
      (relabeling.step (.commit 1)).store =
        ([Receipt.version relabeled 1 ""].map Receipt.write).foldl applyWrite relabeling.store :=
    ⟨_, rfl, rfl, rfl, rfl⟩
  obtain ⟨row, row', hrow, hrow', hgiven, hiff⟩ :=
    (update_replaces_row reachable_relabeling).1 ht hcommit hreceipts
  have htag : (relabeling.store.runs.get? 1).map (·.configTag) = some "tag" := rfl
  have hrow : relabeling.store.runs.get? 1 = some row := hrow
  rw [hrow] at htag
  have htag : row.configTag = "tag" := Option.some.inj htag
  refine ⟨t, row, row', ht, hcommit, hrow, htag, hstore ▸ hrow', ?_, ?_, fun hupdates => ?_⟩
  · rw [hgiven]
    rfl
  · rw [hgiven]
  · have hsame := (hiff.mp hupdates).1
    rw [htag] at hsame
    exact absurd hsame (by decide)

end SharedStore
end CallFlow
