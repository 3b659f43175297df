import SnapshotStore.Proofs.Engine.IndexReads
import SnapshotStore.Proofs.Snapshot.WithoutRows

/-!
# Snapshots with the same rows under other identifiers

Two groups of objects that write rows, none of them in common, make the same rows in either order
from one snapshot. If the objects of one order stand at other places than those of the other, then
the rows and what the indexes list are the same under the new identifiers.
-/

namespace SnapshotStore

/-- All that a snapshot says holds in another one under new identifiers of rows and versions: the
catalogue is the same, the rows have their fields, and the indexes list them under the same keys. -/
structure Snapshot.Mirrors (f : Uid → Uid) (s s' : Snapshot) : Prop where
  catalogue : s'.withoutRows (fun _ => true) = (s.withoutRows fun _ => true).endingAt s'.position
  rows : ∀ table row r, s.row? table row = some r → s'.row? table (f row) = some (r.relabel f)
  entries : ∀ u x, s.index? u = some x → ∃ x', s'.index? u = some x' ∧
    ∀ pair ∈ x.tree.pairs, ∃ key, (key, (f ⟨pair.2⟩).place) ∈ x'.tree.pairs ∧ SameKey pair.1 key

/-- Two groups of objects that write rows, none in common, with new identifiers that keep what is in
front of `bound` and tell the objects from each other. -/
structure Exchangeable (bound : Nat) (f : Uid → Uid) (before after : List (Uid × LogObject)) :
    Prop where
  writes : ∀ o ∈ before ++ after, o.2.writesRow
  kept : ∀ u : Uid, u.place < bound → f u = u
  injective : ∀ o ∈ before ++ after, ∀ p ∈ before ++ after, f o.1 = f p.1 → o.1 = p.1
  apart : ∀ o ∈ before, ∀ p ∈ after, ∀ row, o.2.row? o.1 = some row → p.2.row? p.1 ≠ some row

variable {P : Value → Prop} {bound last last' : Nat} {f : Uid → Uid} {name : String}
  {l s s' : Snapshot} {objects before after : List (Uid × LogObject)} {table u v w : Uid} {r : Row}
  {x x' : Index}

/-! ### What stays -/

theorem LogObject.values_mapUids (f : Uid → Uid) (object : LogObject) :
    (object.mapUids f).values = object.values := by
  cases object with
  | record | update => exact List.map_map
  | _ => rfl

namespace Snapshot

theorem Catalogued.row?_fresh (h : Catalogued bound s) (hv : bound ≤ v.place) :
    s.row? table v = none := by
  refine Option.eq_none_iff_forall_not_mem.2 fun r hr => ?_
  obtain ⟨t, ht, hr⟩ := row?_eq_some.1 hr
  exact absurd ((h.rows (table?_eq_some.1 ht)).below hr) (Nat.not_lt.2 hv)

/-- The rows of a snapshot that was built from nothing name nothing behind its end. -/
theorem Builds.relabel_row (h : Builds 0 (.empty name) objects bound l)
    (hkept : ∀ u : Uid, u.place < bound → f u = u) (hr : l.row? table v = some r) :
    r.relabel f = r := by
  have hcatalogued := h.catalogued (catalogued_empty name)
  have huid : f r.uid = r.uid := by
    obtain ⟨t, ht, hr⟩ := row?_eq_some.1 hr
    have hrows := hcatalogued.rows (table?_eq_some.1 ht)
    rw [hrows.own hr]
    exact hkept v (hrows.below hr)
  have hversion : f r.version = r.version := by
    rcases h.known_version (catalogued_empty name) hr with ⟨r₀, hr₀, _⟩ | ⟨o, ho, hversion⟩
    · cases hr₀
    · rw [← hversion]
      exact hkept o.1 (h.place_lt o ho)
  rw [Row.relabel, huid, hversion]

end Snapshot

/-! ### Two orders -/

namespace Exchangeable

open Snapshot

variable (hexchange : Exchangeable bound f before after)
include hexchange

theorem writes_map : ∀ o ∈ (after ++ before).map (relabel f), o.2.writesRow := by
  intro o ho
  obtain ⟨o, hold, rfl⟩ := List.mem_map.1 ho
  have hmem : o ∈ before ++ after := List.mem_append.2 (List.mem_append.1 hold).symm
  exact (LogObject.writesRow_mapUids f o.2).trans (hexchange.writes o hmem)

variable (h' : Builds bound l ((after ++ before).map (relabel f)) last' s')
include h'

omit hexchange in
theorem le_place {o : Uid × LogObject} (ho : o ∈ before ++ after) : bound ≤ (f o.1).place :=
  h'.le_place _ (List.mem_map_of_mem (List.mem_append.2 (List.mem_append.1 ho).symm))

/-- The new identifiers tell from each other what is there and the objects. -/
theorem eq_of_eq (hv : v.place < bound ∨ ∃ o ∈ before ++ after, o.1 = v)
    (hw : w.place < bound ∨ ∃ o ∈ before ++ after, o.1 = w) (heq : f v = f w) : v = w := by
  have hmixed : ∀ {v : Uid} {o : Uid × LogObject}, v.place < bound → o ∈ before ++ after →
      f v ≠ f o.1 := by
    intro v o hv ho heq
    have hle := le_place h' ho
    rw [← heq, hexchange.kept v hv] at hle
    exact absurd hv (Nat.not_lt.2 hle)
  rcases hv with hv | ⟨o, ho, rfl⟩ <;> rcases hw with hw | ⟨p, hp, rfl⟩
  · rwa [hexchange.kept v hv, hexchange.kept w hw] at heq
  · exact absurd heq (hmixed hv hp)
  · exact absurd heq.symm (hmixed hw ho)
  · exact hexchange.injective o ho p hp heq

variable (hl : Builds 0 (.empty name) objects bound l)
include hl

theorem row?_start (hv : v.place < bound ∨ ∃ o ∈ before ++ after, o.1 = v) :
    l.row? table (f v) = (l.row? table v).map (Row.relabel f) := by
  have hcatalogued := hl.catalogued (catalogued_empty name)
  rcases hv with hv | ⟨o, ho, rfl⟩
  · rw [hexchange.kept v hv]
    cases hr : l.row? table v with
    | none => rfl
    | some r => rw [Option.map_some, hl.relabel_row hexchange.kept hr]
  · have hnew : ∀ {u : Uid}, bound ≤ u.place → l.row? table u = none := hcatalogued.row?_fresh
    rw [hnew (le_place h' ho)]
    by_cases hold : o.1.place < bound
    · rw [← hexchange.kept o.1 hold, hnew (le_place h' ho)]
      rfl
    · rw [hnew (Nat.not_lt.1 hold)]
      rfl

variable (h : Builds bound l (before ++ after) last s)
include h

/-- A row of the one order is a row of the other one under its new identifier. -/
theorem row?_eq (table : Uid) (hv : v.place < bound ∨ ∃ o ∈ before ++ after, o.1 = v) :
    s'.row? table (f v) = (s.row? table v).map (Row.relabel f) := by
  have hcatalogued := hl.catalogued (catalogued_empty name)
  have hmem : ∀ {o}, o ∈ after ++ before → o ∈ before ++ after := fun ho =>
    List.mem_append.2 (List.mem_append.1 ho).symm
  have hschema : ∀ o ∈ after ++ before, ∀ u ∈ o.2.schemaUids, f u = u := fun o ho u hu =>
    hexchange.kept u (h.schema_below hcatalogued hexchange.writes (hmem ho) u hu)
  have hrow : ∀ o ∈ after ++ before, ∀ w, o.2.row? o.1 = some w → f v = f w → v = w :=
    fun o ho w hw => hexchange.eq_of_eq h' hv (h.known_written hcatalogued (hmem ho) hw)
  rw [h'.row?_eq hcatalogued hexchange.writes_map, h.row?_eq hcatalogued hexchange.writes,
    hexchange.row?_start h' hl hv, LogObject.rowAfterAll_relabel _ hschema hrow,
    LogObject.rowAfterAll_comm _ hexchange.apart]

/-- What an index lists after the one order it lists after the other one. -/
theorem entry (hP : OrderedOn P) (hmatched : Matched P s) (hmatched' : Matched P s')
    (hx : s.index? u = some x) (hx' : s'.index? u = some x')
    (hdefinition : x'.definition = x.definition) {pair : List Value × RowId}
    (hpair : pair ∈ x.tree.pairs) :
    ∃ key, (key, (f ⟨pair.2⟩).place) ∈ x'.tree.pairs ∧ SameKey pair.1 key := by
  have hcatalogued := hl.catalogued (catalogued_empty name)
  obtain ⟨t, ht, hagrees⟩ :=
    hmatched.agrees_of_index (h.catalogued hcatalogued) (index?_eq_some.1 hx)
  obtain ⟨t', ht', hagrees'⟩ :=
    hmatched'.agrees_of_index (h'.catalogued hcatalogued) (index?_eq_some.1 hx')
  rw [hdefinition] at ht'
  obtain ⟨hpairKey, row, hrow, hsame⟩ := hagrees.row_of_pair hP hpair
  have hkey : KeyOn P (x.definition.keyOf row) := hagrees.keyOn (hmatched.fields ht) hrow
  rw [← row?_of_table (table?_eq_some.2 ht)] at hrow
  have hrow' := hexchange.row?_eq h' hl h x.definition.table (h.known_row hcatalogued hrow)
  rw [hrow, row?_of_table (table?_eq_some.2 ht')] at hrow'
  have hholds : x'.tree.Holds (x.definition.keyOf row) (f ⟨pair.2⟩).place := by
    refine (hagrees'.holds _ _ hkey).2 ⟨row.relabel f, hrow', ?_⟩
    rw [hdefinition]
    exact .refl hP hkey
  obtain ⟨key, hmem, hsame'⟩ := Level.exists_mem_pairs_of_holds hP hagrees'.valid hkey hholds
  have hkey' := (Level.holds_of_mem_pairs hP hagrees'.valid hmem).1
  exact ⟨key, hmem, hsame.trans hP hpairKey hkey hkey' (hsame'.symm hP hkey' hkey)⟩

/-- Both orders lead to the same rows and lists, under the identifiers of the one and the other. -/
theorem mirrors (hP : OrderedOn P) (hvalues : ∀ o ∈ objects, o.2.ValuesIn P)
    (hwritten : ∀ o ∈ before ++ after, o.2.ValuesIn P) : s.Mirrors f s' := by
  have hcatalogued := hl.catalogued (catalogued_empty name)
  have hmatched : Matched P l :=
    hl.matched (matched_empty name) (catalogued_empty name) hP hvalues
  have hwritten' : ∀ o ∈ (after ++ before).map (relabel f), o.2.ValuesIn P := by
    intro o ho
    obtain ⟨o, hold, rfl⟩ := List.mem_map.1 ho
    have hvalues := hwritten o (List.mem_append.2 (List.mem_append.1 hold).symm)
    rwa [LogObject.ValuesIn, ← LogObject.values_mapUids f] at hvalues
  have hshown : s.withoutRows (fun _ => true) =
      (l.withoutRows fun _ => true).endingAt s.position :=
    h.withoutRows hcatalogued fun o ho => ⟨hexchange.writes o ho, fun _ _ => rfl⟩
  have hshown' : s'.withoutRows (fun _ => true) =
      (l.withoutRows fun _ => true).endingAt s'.position :=
    h'.withoutRows hcatalogued fun o ho => ⟨hexchange.writes_map o ho, fun _ _ => rfl⟩
  constructor
  · rw [hshown, hshown']
    rfl
  · intro table row r hr
    rw [hexchange.row?_eq h' hl h table (h.known_row hcatalogued hr), hr, Option.map_some]
  · intro u x hx
    have hsame : s.withoutRows (fun _ => true) =
        (s'.endingAt s.position).withoutRows fun _ => true := by
      rw [hshown]
      exact congrArg (Snapshot.endingAt · s.position) hshown'.symm
    obtain ⟨x', hx', _, hdefinition⟩ := index?_of_withoutRows_eq hsame hx
    exact ⟨x', hx', fun pair hpair => hexchange.entry h' hl h hP
      (h.matched hmatched hcatalogued hP hwritten) (h'.matched hmatched hcatalogued hP hwritten')
      hx hx' hdefinition hpair⟩

end Exchangeable

end SnapshotStore
