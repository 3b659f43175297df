import SnapshotStore.Proofs.Snapshot.Identifiers

/-!
# Identifiers as places

What stands under an identifier in a snapshot was made by the object at that place of the log. So
between two snapshots of one log nothing comes up under an old identifier: objects behind the first
snapshot make things under their own places only.
-/

namespace SnapshotStore.Snapshot

/-- Each identifier is that of an object in front of the position, the one that made what stands
under it; a row has the version of the object that wrote it last. -/
structure Traced (s : Snapshot) (objects : List (Uid × LogObject)) : Prop where
  offset : ∀ u ∈ s.uids,
    u.isProvisional = false ∧ u.place < s.position ∧ ∃ object, (u, object) ∈ objects
  table : ∀ u t, s.table? u = some t → t.uid = u ∧ ∃ name, (u, .newTable name) ∈ objects
  column : ∀ u c, s.column? u = some c →
    c.uid = u ∧ ∃ name type, (u, .newColumn name type c.table) ∈ objects
  index : ∀ u x, s.index? u = some x → x.uid = u ∧ (u, .newIndex x.definition) ∈ objects
  row : ∀ table u r, s.row? table u = some r →
    r.uid = u ∧ (∃ fields, (u, .record table fields) ∈ objects) ∧
      (r.version = u ∨ ∃ fields, (r.version, .update table fields u) ∈ objects)

/-- Whatever stands under an identifier in front of the position of the first snapshot stood there
already: a table, a column of the same table, an index with the same definition, a row of the same
table. -/
structure Continues (s s' : Snapshot) : Prop where
  table : ∀ u t', s'.table? u = some t' → u.place < s.position → ∃ t, s.table? u = some t
  column : ∀ u c', s'.column? u = some c' → u.place < s.position →
    ∃ c, s.column? u = some c ∧ c.table = c'.table
  index : ∀ u x', s'.index? u = some x' → u.place < s.position →
    ∃ x, s.index? u = some x ∧ x.definition = x'.definition
  row : ∀ table u r', s'.row? table u = some r' → u.place < s.position →
    ∃ r, s.row? table u = some r

variable {s s' : Snapshot} {name : String} {objects more : List (Uid × LogObject)} {last : Nat}

theorem Traced.append (h : s.Traced objects) (more : List (Uid × LogObject)) :
    s.Traced (objects ++ more) where
  offset u hu := by
    obtain ⟨hfixed, hplace, object, hmem⟩ := h.offset u hu
    exact ⟨hfixed, hplace, object, List.mem_append_left _ hmem⟩
  table u t ht := by
    obtain ⟨huid, name, hmem⟩ := h.table u t ht
    exact ⟨huid, name, List.mem_append_left _ hmem⟩
  column u c hc := by
    obtain ⟨huid, name, type, hmem⟩ := h.column u c hc
    exact ⟨huid, name, type, List.mem_append_left _ hmem⟩
  index u x hx := by
    obtain ⟨huid, hmem⟩ := h.index u x hx
    exact ⟨huid, List.mem_append_left _ hmem⟩
  row table u r hr := by
    obtain ⟨huid, ⟨fields, hmem⟩, hversion⟩ := h.row table u r hr
    refine ⟨huid, ⟨fields, List.mem_append_left _ hmem⟩, hversion.imp id ?_⟩
    rintro ⟨changes, hmem⟩
    exact ⟨changes, List.mem_append_left _ hmem⟩

namespace Builds

/-- Where a whole log leads to, everything comes from its objects: nothing was there before them. -/
theorem traced (h : Builds 0 (.empty name) objects s.position s)
    (hroom : s.position ≤ Uid.provisionalBase) : s.Traced objects := by
  have hempty := catalogued_empty name
  have hs := h.catalogued hempty
  constructor
  · intro u hu
    obtain ⟨object, hmem⟩ := h.mem_of_mem_uids hu
    have hplace := h.place_lt _ hmem
    exact ⟨decide_eq_false (Nat.not_le.2 (Nat.lt_of_lt_of_le hplace hroom)), hplace, object, hmem⟩
  · intro u t ht
    rcases h.table_origin hempty ht with ⟨_, hnone, _⟩ | hmade
    · cases hnone
    · exact ⟨hs.table_uid ht, hmade⟩
  · intro u c hc
    rcases h.column_origin hempty hc with ⟨_, hnone, _⟩ | hmade
    · cases hnone
    · exact ⟨hs.own (column?_eq_some.1 hc), hmade⟩
  · intro u x hx
    rcases h.index_origin hempty hx with ⟨_, hnone, _⟩ | hmade
    · cases hnone
    · exact ⟨hs.index_uid hx, hmade⟩
  · intro table u r hr
    obtain ⟨t, ht, hrow⟩ := row?_eq_some.1 hr
    rcases h.row_origin hempty hr with ⟨_, hnone, _⟩ | ⟨hmade, hversion⟩
    · cases hnone
    · exact ⟨(hs.rows (table?_eq_some.1 ht)).own hrow, hmade, hversion⟩

/-- None of the objects behind a snapshot makes anything under an identifier in front of it. -/
theorem continues (h : Builds s.position s objects last s') (hs : Catalogued s.position s) :
    s.Continues s' := by
  have hbehind : ∀ {u object}, (u, object) ∈ objects → ¬u.place < s.position :=
    fun hmem => Nat.not_lt.2 (h.le_place _ hmem)
  constructor
  · intro u t' ht' hold
    rcases h.table_origin hs ht' with ⟨t, ht, _⟩ | ⟨_, hmem⟩
    · exact ⟨t, ht⟩
    · exact absurd hold (hbehind hmem)
  · intro u c' hc' hold
    rcases h.column_origin hs hc' with ⟨c, hc, htable, _⟩ | ⟨_, _, hmem⟩
    · exact ⟨c, hc, htable.symm⟩
    · exact absurd hold (hbehind hmem)
  · intro u x' hx' hold
    rcases h.index_origin hs hx' with ⟨x, hx, hdefinition⟩ | hmem
    · exact ⟨x, hx, hdefinition.symm⟩
    · exact absurd hold (hbehind hmem)
  · intro table u r' hr' hold
    rcases h.row_origin hs hr' with ⟨r, hr, _⟩ | ⟨⟨_, hmem⟩, _⟩
    · exact ⟨r, hr⟩
    · exact absurd hold (hbehind hmem)

/-- A row belongs to the table that its record names, and to no other one. -/
theorem table_unique {table table' row : Uid} {r r' : Row}
    (h : Builds 0 (.empty name) objects last s) (hr : s.row? table row = some r)
    (hr' : s.row? table' row = some r') : table = table' := by
  have hmade : ∀ {u r}, s.row? u row = some r → ∃ fields, (row, .record u fields) ∈ objects := by
    intro u r hr
    rcases h.row_origin (catalogued_empty name) hr with ⟨_, hnone, _⟩ | ⟨hmade, _⟩
    · cases hnone
    · exact hmade
  obtain ⟨_, hrecord⟩ := hmade hr
  obtain ⟨_, hrecord'⟩ := hmade hr'
  exact (LogObject.record.inj (h.eq_of_uid hrecord hrecord')).1

end Builds

end SnapshotStore.Snapshot
