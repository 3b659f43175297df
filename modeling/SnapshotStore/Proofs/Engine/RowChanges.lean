import SnapshotStore.Proofs.Engine.Arising
import SnapshotStore.Proofs.Snapshot.Acceptance
import SnapshotStore.Proofs.Value.Order

/-!
# Row changes in every snapshot

Whether a row is taken in, changed or deleted is decided by the schema and the rows alone: the order
of the indexes and the trees that the checks meet under way neither refuse a change that the rules
allow nor let one pass that they forbid.
-/

namespace SnapshotStore

open Snapshot

/-- A change of a row is accepted exactly if its table and the row are live, its fields fit the
columns of the table, the row fits in and the primary key that goes is not referred to. -/
theorem row_changes_accepted {P : Value → Prop} {name : String} {objects : List LogObject}
    {s : Snapshot} (h : Arises name objects s) (hP : OrderedOn P)
    (hvalues : ∀ object ∈ objects, object.ValuesIn P) (standing : Standing) (uid table : Uid) :
    (∀ fields, (LogObject.record table fields).ValuesIn P → s.row? table uid = none →
      ((∃ s', s.install standing uid (.record table fields) = .ok s') ↔
        ∃ t, s.table? table = some t ∧ s.Typed t fields ∧
          s.Takes table uid ⟨uid, uid, keptFields fields⟩)) ∧
    (∀ fields row, (LogObject.update table fields row).ValuesIn P →
      ((∃ s', s.install standing uid (.update table fields row) = .ok s') ↔
        ∃ t old, s.table? table = some t ∧ s.row? table row = some old ∧ s.Typed t fields ∧
          s.Takes table row ⟨row, uid, keptFields fields⟩ ∧
          s.Frees table old (some ⟨row, uid, keptFields fields⟩))) ∧
    ∀ row, (∃ s', s.install standing uid (.delete table row) = .ok s') ↔
      ∃ t old, s.table? table = some t ∧ s.row? table row = some old ∧ s.Frees table old none := by
  obtain ⟨_, hs⟩ := h.catalogued
  have hmatched := h.matched hP hvalues
  have hreferential := h.referential hP hvalues
  have hordered := h.keyOrdered hP hvalues
  exact ⟨fun _ => exists_insertRow_iff hs hmatched hP hreferential hordered,
    fun _ _ => exists_updateRow_iff hs hmatched hP hreferential hordered,
    fun _ => exists_deleteRow_iff hs hmatched hP hreferential hordered⟩

/-- In a table that refers to itself a row may be its own parent. -/
theorem row_changes_accepted_own_parent :
    let bytes : List UInt8 := [9, 1, 1, 116, 10, 1, 1, 97, 2, 1, 0, 10, 1, 1, 98, 2, 1, 0,
      17, 1, 0, 1, 1, 1, 1, 4, 1, 255, 17, 1, 0, 0, 1, 1, 1, 11, 1, 0]
    let fields : List Field := [(⟨4⟩, .integer 1), (⟨11⟩, .integer 1)]
    ∃ s t, replay "db" bytes false = .ok s ∧ s.table? ⟨0⟩ = some t ∧ t.indexes = [⟨18⟩, ⟨28⟩] ∧
      s.Takes ⟨0⟩ ⟨38⟩ ⟨⟨38⟩, ⟨38⟩, keptFields fields⟩ := by
  intro bytes fields
  have hevaluated : (replay "db" bytes false).toOption.map (fun s =>
      ((s.row? ⟨0⟩ ⟨38⟩).isSome, (s.table? ⟨0⟩).map (·.indexes),
        (s.install .proposed ⟨38⟩ (.record ⟨0⟩ fields)).toOption.isSome)) =
      some (false, some [⟨18⟩, ⟨28⟩], true) := by
    decide +kernel
  obtain ⟨s, hs, hevaluated⟩ := Option.map_eq_some_iff.1 hevaluated
  obtain ⟨hrow, hevaluated⟩ := Prod.mk.inj hevaluated
  obtain ⟨hindexes, hinstalls⟩ := Prod.mk.inj hevaluated
  obtain ⟨s', hs'⟩ := Option.isSome_iff_exists.1 hinstalls
  have hreplay := toOption_eq_some.1 hs
  have hvalues : ∀ object ∈ logged bytes, object.ValuesIn Value.Comparable := by decide +kernel
  obtain ⟨haccepted, _⟩ := row_changes_accepted (.replayed hreplay) Value.orderedOn_comparable
    hvalues .proposed ⟨38⟩ ⟨0⟩
  obtain ⟨t, ht, _, htakes⟩ := (haccepted fields (by decide) (Option.not_isSome_iff_eq_none.1
    (Bool.eq_false_iff.1 hrow))).1 ⟨s', toOption_eq_some.1 hs'⟩
  rw [ht] at hindexes
  exact ⟨s, t, hreplay, ht, Option.some.inj hindexes, htakes⟩

end SnapshotStore
