import SnapshotStore.Proofs.SortedMap.Values
import SnapshotStore.Proofs.Snapshot.Rows

/-!
# Snapshots without the rows of some tables

What a snapshot says apart from the rows of some of its tables and the trees of their indexes: its
names, the definitions of its items, and all about the other tables. Writing a row of one of these
tables changes nothing of it.
-/

namespace SnapshotStore

variable {hidden : Uid → Bool}

def Table.withoutRows (hidden : Uid → Bool) (t : Table) : Table :=
  if hidden t.uid then { t with rows := SortedMap.empty } else t

/-- The tree of an index belongs to the rows of its table. -/
def Index.withoutRows (hidden : Uid → Bool) (x : Index) : Index :=
  if hidden x.definition.table then { x with tree := ⟨[], SortedMap.empty⟩ } else x

def CatalogItem.withoutRows (hidden : Uid → Bool) : CatalogItem → CatalogItem
  | table t => table (t.withoutRows hidden)
  | column c => column c
  | index x => index (x.withoutRows hidden)

/-- The snapshot without the rows of the hidden tables. -/
def Snapshot.withoutRows (hidden : Uid → Bool) (s : Snapshot) : Snapshot :=
  { s with items := s.items.map id (CatalogItem.withoutRows hidden) }

/-! ### Items -/

namespace Table

variable {t : Table}

theorem withoutRows_of_shown (h : hidden t.uid = false) : t.withoutRows hidden = t :=
  if_neg (Bool.eq_false_iff.1 h)

@[simp] theorem uid_withoutRows : (t.withoutRows hidden).uid = t.uid := by
  rw [withoutRows]
  split <;> rfl

@[simp] theorem columns_withoutRows : (t.withoutRows hidden).columns = t.columns := by
  rw [withoutRows]
  split <;> rfl

@[simp] theorem indexes_withoutRows : (t.withoutRows hidden).indexes = t.indexes := by
  rw [withoutRows]
  split <;> rfl

end Table

namespace Index

variable {x : Index}

theorem withoutRows_of_shown (h : hidden x.definition.table = false) : x.withoutRows hidden = x :=
  if_neg (Bool.eq_false_iff.1 h)

@[simp] theorem uid_withoutRows : (x.withoutRows hidden).uid = x.uid := by
  rw [withoutRows]
  split <;> rfl

@[simp] theorem definition_withoutRows : (x.withoutRows hidden).definition = x.definition := by
  rw [withoutRows]
  split <;> rfl

/-- No tree of a hidden table is left. -/
theorem withoutRows_tree (h : hidden x.definition.table = true) (tree : CompositeIndex Value) :
    ({ x with tree } : Index).withoutRows hidden = x.withoutRows hidden :=
  (if_pos h).trans (if_pos h).symm

end Index

namespace CatalogItem

@[simp] theorem link_withoutRows (item : CatalogItem) :
    (item.withoutRows hidden).link = item.link := by
  cases item <;> simp [withoutRows, link]

end CatalogItem

/-! ### Looking things up -/

namespace Snapshot

variable {s s' m : Snapshot} {u uid row : Uid} {t : Table} {x : Index} {item : CatalogItem}

@[simp] theorem name_withoutRows : (s.withoutRows hidden).name = s.name := rfl

@[simp] theorem names_withoutRows : (s.withoutRows hidden).names = s.names := rfl

@[simp] theorem position_withoutRows : (s.withoutRows hidden).position = s.position := rfl

theorem get?_withoutRows (hidden : Uid → Bool) (s : Snapshot) (u : Uid) :
    (s.withoutRows hidden).get? u = (s.get? u).map (CatalogItem.withoutRows hidden) :=
  SortedMap.get?_map _ _ u

theorem table?_withoutRows (hidden : Uid → Bool) (s : Snapshot) (u : Uid) :
    (s.withoutRows hidden).table? u = (s.table? u).map (Table.withoutRows hidden) := by
  rw [table?, table?, get?_withoutRows]
  cases s.get? u with
  | none => rfl
  | some item => cases item <;> rfl

@[simp] theorem column?_withoutRows (s : Snapshot) (u : Uid) :
    (s.withoutRows hidden).column? u = s.column? u := by
  rw [column?, column?, get?_withoutRows]
  cases s.get? u with
  | none => rfl
  | some item => cases item <;> rfl

theorem index?_withoutRows (hidden : Uid → Bool) (s : Snapshot) (u : Uid) :
    (s.withoutRows hidden).index? u = (s.index? u).map (Index.withoutRows hidden) := by
  rw [index?, index?, get?_withoutRows]
  cases s.get? u with
  | none => rfl
  | some item => cases item <;> rfl

@[simp] theorem links_withoutRows (s : Snapshot) : (s.withoutRows hidden).links = s.links := by
  funext u
  rw [links, links, get?_withoutRows, Option.map_map]
  exact congrArg (Option.map · _) (funext CatalogItem.link_withoutRows)

theorem indexes_withoutRows (hidden : Uid → Bool) (s : Snapshot) (u : Uid) :
    (s.withoutRows hidden).indexes u = (s.indexes u).map (Index.withoutRows hidden) := by
  rw [indexes, indexes, table?_withoutRows]
  cases s.table? u with
  | none => rfl
  | some t =>
    rw [Option.map_some, Option.elim_some, Option.elim_some, Table.indexes_withoutRows,
      List.map_filterMap]
    exact List.filterMap_congr fun v _ => index?_withoutRows hidden s v

theorem foreignKeysInto_withoutRows (hidden : Uid → Bool) (s : Snapshot) (u : Uid) :
    (s.withoutRows hidden).foreignKeysInto u =
      (s.foreignKeysInto u).map (Index.withoutRows hidden) := by
  rw [foreignKeysInto, foreignKeysInto, withoutRows, SortedMap.values_map, List.filterMap_map,
    List.map_filterMap]
  refine List.filterMap_congr fun item _ => ?_
  cases item with
  | table | column => rfl
  | index x =>
    have hfound : (if (x.withoutRows hidden).definition.references = some u
        then some (x.withoutRows hidden) else none) =
        (if x.definition.references = some u then some x else none).map
          (Index.withoutRows hidden) := by
      rw [Index.definition_withoutRows, apply_ite (Option.map _)]
      rfl
    exact hfound

@[simp] theorem columnOf?_withoutRows (s : Snapshot) (t : Table) (u : Uid) :
    (s.withoutRows hidden).columnOf? t u = s.columnOf? t u := by
  rw [columnOf?, columnOf?, column?_withoutRows]

@[simp] theorem columnNamed?_withoutRows (s : Snapshot) (u : Uid) (name : String) :
    (s.withoutRows hidden).columnNamed? u name = s.columnNamed? u name := by
  rw [columnNamed?, columnNamed?, table?_withoutRows]
  cases s.table? u with
  | none => rfl
  | some t =>
    have hcolumn : (s.withoutRows hidden).column? = s.column? := funext s.column?_withoutRows
    rw [hcolumn, Option.map_some]
    show List.find? _ _ = List.find? _ _
    rw [Table.columns_withoutRows]

@[simp] theorem typedFields_withoutRows (s : Snapshot) (standing : Standing) (t : Table)
    (fields : List Field) :
    (s.withoutRows hidden).typedFields standing t fields = s.typedFields standing t fields := by
  simp only [typedFields, columnOf?_withoutRows]

theorem index?_of_withoutRows_eq (h : m.withoutRows hidden = s.withoutRows hidden)
    (hx : m.index? u = some x) : ∃ y, s.index? u = some y ∧ y.uid = x.uid ∧
      y.definition = x.definition := by
  have hshown := index?_withoutRows hidden m u
  rw [h, index?_withoutRows, hx, Option.map_some, Option.map_eq_some_iff] at hshown
  obtain ⟨y, hy, hsame⟩ := hshown
  have huid := congrArg Index.uid hsame
  have hdefinition := congrArg Index.definition hsame
  rw [Index.uid_withoutRows, Index.uid_withoutRows] at huid
  rw [Index.definition_withoutRows, Index.definition_withoutRows] at hdefinition
  exact ⟨y, hy, huid, hdefinition⟩

/-- Alike snapshots stay alike without the rows of related tables. -/
theorem Alike.withoutRows {R : Uid → Uid → Prop} (hR : ∀ u u', R u u' → hidden u = hidden u')
    (h : s.Alike R s') : (s.withoutRows hidden).Alike R (s'.withoutRows hidden) := by
  refine ⟨h.name, SortedMap.alike_map_values (fun item item' hitem => ?_) h.items, h.names⟩
  cases hitem with
  | @table t t' ht =>
    refine .table ?_
    rw [Table.withoutRows, Table.withoutRows, hR _ _ ht.uid]
    split
    · exact { ht with rows := .none }
    · exact ht
  | column hc => exact .column hc
  | @index x x' hx =>
    refine .index ?_
    rw [Index.withoutRows, Index.withoutRows, hR _ _ hx.definition.table]
    split
    · exact { hx with tree := .intro .none }
    · exact hx

/-! ### Changes -/

theorem withoutRows_set (s : Snapshot) (u : Uid) (item : CatalogItem) :
    (s.set u item).withoutRows hidden = (s.withoutRows hidden).set u (item.withoutRows hidden) := by
  rw [set, withoutRows, withoutRows, SortedMap.map_insert]
  rfl

theorem withoutRows_erase (s : Snapshot) (u : Uid) :
    (s.erase u).withoutRows hidden = (s.withoutRows hidden).erase u := by
  rw [erase, withoutRows, withoutRows, SortedMap.map_erase]
  rfl

/-- An item is exchanged for one that differs in hidden rows only. -/
theorem withoutRows_set_self {old : CatalogItem} (hold : s.get? u = some old)
    (hsame : item.withoutRows hidden = old.withoutRows hidden) :
    (s.set u item).withoutRows hidden = s.withoutRows hidden := by
  have hshown := get?_withoutRows hidden s u
  rw [hold, Option.map_some, ← hsame] at hshown
  rw [withoutRows_set, set, SortedMap.insert_self hshown]

/-! ### Writing hidden rows -/

theorem withoutRows_moveKey {old new : Option Row}
    (hx : ∀ x, s.index? uid = some x → x.uid = uid ∧ hidden x.definition.table)
    (h : s.moveKey row old new uid = .ok s') : s'.withoutRows hidden = s.withoutRows hidden := by
  rcases moveKey_eq_ok h with ⟨_, rfl⟩ | ⟨x, tree, hfound, _, ⟨rfl, _⟩ | rfl, _⟩
  · rfl
  · rfl
  · obtain ⟨rfl, htable⟩ := hx x hfound
    exact withoutRows_set_self (index?_eq_some.1 hfound)
      (congrArg CatalogItem.index (x.withoutRows_tree htable tree))

variable {bound : Nat} {standing : Standing} {object : LogObject}

theorem Catalogued.withoutRows_rekey {old new : Option Row} (h : Catalogued bound s)
    (ht : s.table? u = some t) (hu : hidden u) (hrekey : s.rekey t row old new = .ok m) :
    m.withoutRows hidden = s.withoutRows hidden := by
  refine foldlM_invariant (I := fun m : Snapshot => m.withoutRows hidden = s.withoutRows hidden) ?_
    rfl (rekey_eq_ok hrekey).1
  intro m v m' hv hm hstep
  refine (withoutRows_moveKey (fun x hx => ?_) hstep).trans hm
  obtain ⟨y, hy, huid, hdefinition⟩ := index?_of_withoutRows_eq hm hx
  have htable := (h.mem_indexes_iff (table?_eq_some.1 ht) (index?_eq_some.1 hy)).1 hv
  rw [← huid, ← hdefinition, htable]
  exact ⟨h.index_uid hy, hu⟩

theorem Catalogued.withoutRows_setRows {old new : Option Row} (h : Catalogued bound s)
    (ht : s.table? u = some t) (hu : hidden u) (hrekey : s.rekey t row old new = .ok m)
    (rows : SortedMap Uid Row) :
    (m.setTable { t with rows }).withoutRows hidden = s.withoutRows hidden := by
  have hrekeyed := h.rekeyed (table?_eq_some.1 ht) hrekey
  have huid : t.uid = u := h.table_uid ht
  have hm : m.get? u = some (.table t) := by
    rw [hrekeyed.kept u, table?_eq_some.1 ht]
    rw [index?, table?_eq_some.1 ht]
  rw [← h.withoutRows_rekey ht hu hrekey, setTable,
    show ({ t with rows } : Table).uid = u from huid]
  refine withoutRows_set_self hm (congrArg CatalogItem.table ?_)
  subst huid
  exact (if_pos hu).trans (if_pos hu).symm

/-- An object that writes a row of a hidden table changes nothing else. -/
theorem Catalogued.withoutRows_install (h : Catalogued bound s) (hobject : object.writesRow)
    (hhidden : ∀ table, object.table? = some table → hidden table)
    (hinstall : s.install standing uid object = .ok s') :
    s'.withoutRows hidden = s.withoutRows hidden := by
  cases object with
  | record table fields =>
    obtain ⟨t, m, ht, _, hm, rfl⟩ := insertRow_eq_ok.1 hinstall
    exact h.withoutRows_setRows ht (hhidden table rfl) hm _
  | update table fields row =>
    obtain ⟨t, old, m, ht, _, _, hm, rfl⟩ := updateRow_eq_ok.1 hinstall
    exact h.withoutRows_setRows ht (hhidden table rfl) hm _
  | delete table row =>
    obtain ⟨t, old, m, ht, _, hm, rfl⟩ := deleteRow_eq_ok.1 hinstall
    exact h.withoutRows_setRows ht (hhidden table rfl) hm _
  | _ => cases hobject

theorem Builds.withoutRows {first last : Nat} {objects : List (Uid × LogObject)}
    (h : Builds first s objects last s') (hs : Catalogued first s)
    (hobjects : ∀ o ∈ objects, o.2.writesRow ∧ ∀ table, o.2.table? = some table → hidden table) :
    s'.withoutRows hidden = (s.withoutRows hidden).endingAt s'.position := by
  induction h with
  | refl => rfl
  | @step objects mid last m m' standing uid object h hfresh hlast hinstall position ih =>
    obtain ⟨hobject, hhidden⟩ := hobjects _ (List.mem_append_right _ (List.mem_singleton_self _))
    have hm := ih fun o ho => hobjects o (List.mem_append_left _ ho)
    have hm' := (h.catalogued hs).withoutRows_install hobject hhidden hinstall
    have hstep := hm'.trans hm
    exact congrArg (Snapshot.endingAt · position) hstep

end Snapshot

end SnapshotStore
