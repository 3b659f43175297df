import SnapshotStore.Proofs.Snapshot.Building
import SnapshotStore.Proofs.Snapshot.Frame

/-!
# Tables that are not named

An object changes the tables that it names and no others: all else stays as it was, the rows of the
other tables, their columns and their indexes.
-/

namespace SnapshotStore

/-- The tables that an object names: its own, what it drops and what it refers to. -/
def LogObject.tables : LogObject → List Uid
  | newTable _ => []
  | newColumn _ _ table => [table]
  | record table _ => [table]
  | update table _ _ => [table]
  | delete table _ => [table]
  | alter table _ _ _ => [table]
  | drop target parent => target :: parent.toList
  | newIndex definition => definition.table :: definition.references.toList
  | dropIndex table _ => [table]

theorem LogObject.subject_mem_tables (uid : Uid) (object : LogObject) :
    object.subject uid = uid ∨ object.subject uid ∈ object.tables := by
  cases object with
  | newTable => exact .inl rfl
  | drop target parent =>
    cases parent with
    | none => exact .inr List.mem_cons_self
    | some table => exact .inr (List.mem_cons_of_mem _ List.mem_cons_self)
  | _ => exact .inr List.mem_cons_self

namespace Snapshot

variable {bound : Nat} {s : Snapshot} {standing : Standing} {u v uid : Uid} {t : Table}

/-- The identifiers of a table, of its columns and of its indexes. -/
def PartOf (s : Snapshot) (table v : Uid) : Prop :=
  v = table ∨ s.links v = some (.column table) ∨ ∃ d, s.links v = some (.index d) ∧ d.table = table

section

variable {last : Nat} {s' : Snapshot} {table : Uid} {t' : Table} {object : LogObject}
  {objects : List (Uid × LogObject)} (hs : Catalogued bound s) (ht : s.table? table = some t)
  (hv : s.PartOf table v)
include hs ht hv

theorem Catalogued.owner_of_partOf : ∃ item, s.get? v = some item ∧ item.owner = table := by
  rcases hv with rfl | hv | ⟨d, hv, rfl⟩
  · exact ⟨_, table?_eq_some.1 ht, hs.table_uid ht⟩
  · obtain ⟨c, hc, htable⟩ := links_eq_column hv
    exact ⟨_, hc, htable⟩
  · obtain ⟨x, hx, rfl⟩ := links_eq_index hv
    exact ⟨_, hx, rfl⟩

/-- An object leaves alone every table that it does not name. -/
theorem Catalogued.get?_install (hfresh : bound ≤ uid.place) (hother : table ∉ object.tables)
    (hinstall : s.install standing uid object = .ok s') : s'.get? v = s.get? v := by
  obtain ⟨item, hitem, howner⟩ := hs.owner_of_partOf ht hv
  have hfree := hs.get?_fresh hfresh
  rcases (hs.touches_install hfree hinstall).item v with hsame | ⟨hold, _⟩
  · exact hsame
  · have hsubject : object.subject uid = table := (hold item hitem).symm.trans howner
    rcases LogObject.subject_mem_tables uid object with huid | hnamed
    · rw [← hsubject, huid, table?_eq_some, hfree] at ht
      cases ht
    · exact absurd (hsubject ▸ hnamed) hother

omit hv in
/-- Tables that none of the objects names are left alone. -/
theorem Builds.get?_unnamed (h : Builds bound s objects last s')
    (hobjects : ∀ o ∈ objects, table ∉ o.2.tables) :
    ∀ v, s.PartOf table v → s'.get? v = s.get? v := by
  induction h with
  | refl => exact fun _ _ => rfl
  | @step objects mid last m m' standing uid object h hfresh hlast hinstall position ih =>
    intro v hv
    have hm := ih fun o ho => hobjects o (List.mem_append_left _ ho)
    have htable : m.table? table = some t := (table?_congr (hm table (.inl rfl))).trans ht
    have hlinks : m.links v = s.links v := congrArg (Option.map CatalogItem.link) (hm v hv)
    have hpart : m.PartOf table v := by rwa [PartOf, hlinks]
    have hother := hobjects _ (List.mem_append_right _ (List.mem_singleton_self _))
    exact ((h.catalogued hs).get?_install htable hpart hfresh hother hinstall).trans (hm v hv)

omit hv in
/-- A table that none of the objects names is as it was, and so are its columns and indexes. -/
theorem Builds.table_unnamed (h : Builds bound s objects last s')
    (hobjects : ∀ o ∈ objects, table ∉ o.2.tables) :
    s'.table? table = some t ∧ s'.indexes table = s.indexes table ∧
      ∀ column ∈ t.columns, s'.column? column = s.column? column := by
  have hsame := h.get?_unnamed hs ht hobjects
  have htable : s'.table? table = some t := (table?_congr (hsame table (.inl rfl))).trans ht
  have hlinks := links_of_get? (table?_eq_some.1 ht)
  refine ⟨htable, ?_, fun column hcolumn => ?_⟩
  · rw [indexes, indexes, htable, ht, Option.elim_some, Option.elim_some]
    refine List.filterMap_congr fun w hw => index?_congr (hsame w (.inr (.inr ?_)))
    exact (hs.linked.mem_indexes hlinks w).1 hw
  · have hcolumn := (hs.linked.mem_columns hlinks column).1 hcolumn
    rw [column?, column?, hsame column (.inr (.inl hcolumn))]

end

end Snapshot

end SnapshotStore
