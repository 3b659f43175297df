import SnapshotStore.Proofs.Engine.Arising
import SnapshotStore.Proofs.Snapshot.Frame

/-!
# Installing an object changes one table

In a snapshot of a database, whether replayed, published or seen by a transaction, the table that an
object is about is the only one that changes. What goes or comes with a new index, a dropped table
and a dropped column is told item by item.
-/

namespace SnapshotStore

open Snapshot

variable {name : String} {objects : List LogObject} {s s' : Snapshot} {standing : Standing}
  {uid : Uid} {object : LogObject}

/-- An object that is installed under a fresh identifier leaves all tables but its own alone. -/
theorem install_spares_others (h : Arises name objects s) (hfresh : s.get? uid = none)
    (hinstall : s.install standing uid object = .ok s') :
    SparesOthers (object.subject uid) s s' ∧
      (∀ d, object = .newIndex d → AddsIndex uid d s s') ∧
      (∀ target, object = .drop target none → DropsTable target s s') ∧
      ∀ column table, object = .drop column (some table) → DropsColumn table column s s' := by
  obtain ⟨_, hs⟩ := h.catalogued
  have hothers := hs.sparesOthers h.coherent.named hfresh hinstall
  refine ⟨hothers, ?_, ?_, ?_⟩
  · rintro d rfl
    exact hs.addsIndex hothers hinstall
  · rintro target rfl
    exact hs.dropsTable hinstall
  · rintro column table rfl
    exact hs.dropsColumn hinstall

/-- A foreign key over a row is created. The table of its parent stays. -/
theorem install_spares_others_of_reference :
    let bytes : List UInt8 := [9, 1, 1, 112, 10, 1, 1, 97, 2, 1, 0, 17, 1, 0, 1, 1, 1, 1, 4, 1, 255,
      11, 1, 0, 1, 1, 1, 4, 2, 1, 1, 9, 1, 1, 99, 10, 1, 1, 98, 2, 1, 31,
      11, 1, 31, 1, 1, 1, 35, 2, 1, 1]
    let d : IndexDefinition := ⟨⟨31⟩, false, [⟨35⟩], some ⟨0⟩⟩
    ∃ s s' t, replay "db" bytes false = .ok s ∧ s.install .proposed ⟨52⟩ (.newIndex d) = .ok s' ∧
      AddsIndex ⟨52⟩ d s s' ∧ s.table? ⟨0⟩ = some t ∧ t.indexes = [⟨11⟩] ∧
      s'.table? ⟨0⟩ = some t := by
  intro bytes d
  have hevaluated : (replay "db" bytes false).toOption.map (fun s =>
      ((s.get? ⟨52⟩).isSome, (s.table? ⟨0⟩).map (·.indexes),
        (s.install .proposed ⟨52⟩ (.newIndex d)).toOption.isSome)) =
      some (false, some [⟨11⟩], true) := by
    decide +kernel
  obtain ⟨s, hs, hevaluated⟩ := Option.map_eq_some_iff.1 hevaluated
  obtain ⟨hfree, hevaluated⟩ := Prod.mk.inj hevaluated
  obtain ⟨hfound, hinstalls⟩ := Prod.mk.inj hevaluated
  obtain ⟨s', hs'⟩ := Option.isSome_iff_exists.1 hinstalls
  obtain ⟨t, ht, hindexes⟩ := Option.map_eq_some_iff.1 hfound
  have hreplay := toOption_eq_some.1 hs
  have hinstall := toOption_eq_some.1 hs'
  obtain ⟨hothers, hadds, _⟩ := install_spares_others (.replayed hreplay)
    (Option.not_isSome_iff_eq_none.1 (Bool.eq_false_iff.1 hfree)) hinstall
  exact ⟨s, s', t, hreplay, hinstall, hadds d rfl, ht, hindexes,
    (hothers.table ⟨0⟩ (by decide)).trans ht⟩

end SnapshotStore
