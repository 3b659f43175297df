import SnapshotStore.Proofs.Alike.Install
import SnapshotStore.Proofs.Snapshot.Building

/-!
# Building alike snapshots

What a snapshot holds has related partners in every snapshot that it is alike to, and so has all
that an object names that can be installed there. Objects below a bound build a snapshot that is
alike to itself, if each identifier below the bound is related to itself.
-/

namespace SnapshotStore

variable {R : Uid → Uid → Prop}

/-! ### Objects under new identifiers -/

theorem LogObject.alike_mapUids_mapUids {f g : Uid → Uid} {object : LogObject}
    (h : ∀ u ∈ object.uids, R (f u) (g u)) : (object.mapUids f).Alike R (object.mapUids g) := by
  have hlist : ∀ {us : List Uid}, (∀ u ∈ us, R (f u) (g u)) →
      List.Forall₂ R (us.map f) (us.map g) := fun hus =>
    List.forall₂_map_left_iff.2 (List.forall₂_map_right_iff.2 (List.forall₂_same.2 hus))
  have hoption : ∀ {u : Option Uid}, (∀ v ∈ u.toList, R (f v) (g v)) →
      Option.Rel R (u.map f) (u.map g) := by
    intro u hu
    cases u with
    | none => exact .none
    | some u => exact .some (hu u List.mem_cons_self)
  have hfields : ∀ {fields : List Field}, (∀ u ∈ fields.map Prod.fst, R (f u) (g u)) →
      FieldsAlike R (fields.map fun field => (f field.1, field.2))
        (fields.map fun field => (g field.1, field.2)) := by
    intro fields hfields
    refine List.forall₂_map_left_iff.2 (List.forall₂_map_right_iff.2 ?_)
    exact List.forall₂_same.2 fun field hfield => ⟨hfields _ (List.mem_map_of_mem hfield), rfl⟩
  cases object with
  | newTable name => exact .newTable name
  | newColumn name type table => exact .newColumn name type (h table List.mem_cons_self)
  | record table fields =>
    obtain ⟨htable, h⟩ := List.forall_mem_cons.1 h
    exact .record htable (hfields h)
  | update table fields row =>
    obtain ⟨htable, h⟩ := List.forall_mem_cons.1 h
    obtain ⟨hrow, h⟩ := List.forall_mem_cons.1 h
    exact .update htable (hfields h) hrow
  | delete table row =>
    obtain ⟨htable, h⟩ := List.forall_mem_cons.1 h
    exact .delete htable (h row List.mem_cons_self)
  | alter table column name type =>
    obtain ⟨htable, h⟩ := List.forall_mem_cons.1 h
    exact .alter name type htable (hoption h)
  | drop target parent =>
    obtain ⟨htarget, h⟩ := List.forall_mem_cons.1 h
    exact .drop htarget (hoption h)
  | newIndex definition =>
    obtain ⟨table, primary, columns, references⟩ := definition
    obtain ⟨htable, h⟩ := List.forall_mem_cons.1 h
    obtain ⟨hcolumns, hreferences⟩ := List.forall_mem_append.1 h
    exact .newIndex ⟨htable, rfl, hlist hcolumns, hoption hreferences⟩
  | dropIndex table columns =>
    obtain ⟨htable, h⟩ := List.forall_mem_cons.1 h
    exact .dropIndex htable (hlist h)

theorem LogObject.mapUids_id (object : LogObject) : object.mapUids id = object := by
  cases object <;> simp [mapUids]

theorem LogObject.alike_mapUids {f : Uid → Uid} {object : LogObject}
    (h : ∀ u ∈ object.uids, R u (f u)) : object.Alike R (object.mapUids f) := by
  have halike : (object.mapUids id).Alike R (object.mapUids f) := alike_mapUids_mapUids h
  rwa [mapUids_id] at halike

/-! ### Partners -/

theorem SortedMap.Alike.partner {V V' : Type} {S : V → V' → Prop} {m : SortedMap Uid V}
    {m' : SortedMap Uid V'} {u : Uid} {value : V} (h : m.Alike R S m') (hm : m.Lawful)
    (hget : m.get? u = some value) : ∃ u' value', R u u' ∧ S value value' := by
  obtain ⟨entry', hentry⟩ := rel_exists_of_mem h.toList (hm.mem_toList_iff.2 hget)
  exact ⟨entry'.1, entry'.2, hentry⟩

namespace Snapshot

variable {bound : Nat} {s s' m : Snapshot} {uid : Uid} {standing : Standing} {object : LogObject}

/-- Whatever an object names that can be installed has a partner. -/
theorem Alike.partners (h : s.Alike R s') (hs : Catalogued bound s)
    (hinstall : s.install standing uid object = .ok m) : ∀ u ∈ object.uids, ∃ u', R u u' := by
  refine hs.uids_of_install (fun hitem => ?_) (fun ht hrow => ?_) hinstall
  · obtain ⟨u', _, hu, _⟩ := h.items.partner hs.items hitem
    exact ⟨u', hu⟩
  · have hitem := table?_eq_some.1 ht
    obtain ⟨_, _, _, hitem'⟩ := h.items.partner hs.items hitem
    cases hitem' with
    | table htable =>
      obtain ⟨v', _, hv, _⟩ := htable.rows.partner (hs.rows hitem).lawful hrow
      exact ⟨v', hv⟩

theorem Alike.endingAt (h : s.Alike R s') (position position' : Nat) :
    (s.endingAt position).Alike R (s'.endingAt position') :=
  ⟨h.name, h.items, h.names⟩

theorem alike_empty (name : String) : (empty name).Alike R (empty name) := ⟨rfl, .none, .none⟩

/-- An object whose identifiers are related to themselves keeps a snapshot alike to itself. -/
theorem Alike.install_self {m' : Snapshot} (hR : ComparesAlike R) (hm : m.Alike R m)
    (huid : R uid uid) (hobject : ∀ u ∈ object.uids, R u u)
    (hinstall : m.install standing uid object = .ok m') : m'.Alike R m' := by
  have hself : object.Alike R object := by
    have halike : object.Alike R (object.mapUids id) := LogObject.alike_mapUids hobject
    rwa [LogObject.mapUids_id] at halike
  obtain ⟨m'', hm'', halike⟩ := (install_alike hR hm huid hself).exists_ok hinstall
  cases hm''.symm.trans hinstall
  exact halike

/-- What the objects of a log build is alike to itself. -/
theorem Builds.alike_self {name : String} {objects : List (Uid × LogObject)} {last : Nat}
    (hR : ComparesAlike R) (h : Builds 0 (.empty name) objects last s)
    (hself : ∀ u : Uid, u.place < last → R u u) : s.Alike R s := by
  induction h with
  | refl => exact alike_empty name
  | @step objects mid last m m' standing uid object h hfresh hlast hinstall position ih =>
    have hm := ih fun u hu => hself u (Nat.lt_trans (Nat.lt_of_lt_of_le hu hfresh) hlast)
    have huids := (h.catalogued (catalogued_empty name)).uids_below hinstall
    refine (hm.install_self hR (hself uid hlast) (fun u hu => ?_) hinstall).endingAt _ _
    exact hself u (Nat.lt_trans (Nat.lt_of_lt_of_le (huids u hu) hfresh) hlast)

end Snapshot

end SnapshotStore
