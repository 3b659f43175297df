import SnapshotStore.Proofs.Alike.Snapshot
import SnapshotStore.Snapshot.Install

/-!
# Installing related objects

Related objects fit alike snapshots alike: either both can be installed, at related places, and the
snapshots after them are alike again, or neither can. What an install does is decided by the order
of identifiers, by names, types and values, and these are on both sides the same.
-/

namespace SnapshotStore

variable {R : Uid → Uid → Prop} {u u' uid uid' : Uid} {standing standing' : Standing}

/-! ### Objects -/

/-- Fields of related columns with the same values. -/
abbrev FieldsAlike (R : Uid → Uid → Prop) (fields fields' : List Field) : Prop :=
  List.Forall₂ (RelatedEntry R Eq) fields fields'

/-- Objects of one kind that differ in related identifiers only. -/
inductive LogObject.Alike (R : Uid → Uid → Prop) : LogObject → LogObject → Prop where
  | newTable (name : String) : Alike R (.newTable name) (.newTable name)
  | newColumn {table table' : Uid} (name : String) (type : DataType) (htable : R table table') :
      Alike R (.newColumn name type table) (.newColumn name type table')
  | record {table table' : Uid} {fields fields' : List Field} (htable : R table table')
      (hfields : FieldsAlike R fields fields') :
      Alike R (.record table fields) (.record table' fields')
  | update {table table' row row' : Uid} {fields fields' : List Field} (htable : R table table')
      (hfields : FieldsAlike R fields fields') (hrow : R row row') :
      Alike R (.update table fields row) (.update table' fields' row')
  | delete {table table' row row' : Uid} (htable : R table table') (hrow : R row row') :
      Alike R (.delete table row) (.delete table' row')
  | alter {table table' : Uid} {column column' : Option Uid} (name : String)
      (type : Option DataType) (htable : R table table') (hcolumn : Option.Rel R column column') :
      Alike R (.alter table column name type) (.alter table' column' name type)
  | drop {target target' : Uid} {parent parent' : Option Uid} (htarget : R target target')
      (hparent : Option.Rel R parent parent') :
      Alike R (.drop target parent) (.drop target' parent')
  | newIndex {d d' : IndexDefinition} (hd : d.Alike R d') : Alike R (.newIndex d) (.newIndex d')
  | dropIndex {table table' : Uid} {columns columns' : List Uid} (htable : R table table')
      (hcolumns : List.Forall₂ R columns columns') :
      Alike R (.dropIndex table columns) (.dropIndex table' columns')

namespace Snapshot

variable {s s' : Snapshot} (hR : ComparesAlike R)

/-! ### Items -/

section Items

variable (h : s.Alike R s')
include hR h

theorem Alike.set {item item' : CatalogItem} (hu : R u u') (hitem : item.Alike R item') :
    (s.set u item).Alike R (s'.set u' item') :=
  ⟨h.name, h.items.insert hR hu hitem, h.names⟩

theorem Alike.setTable {t t' : Table} (ht : t.Alike R t') :
    (s.setTable t).Alike R (s'.setTable t') :=
  h.set hR ht.uid (.table ht)

theorem Alike.setIndex {x x' : Index} (hx : x.Alike R x') :
    (s.setIndex x).Alike R (s'.setIndex x') :=
  h.set hR hx.uid (.index hx)

theorem Alike.erase (hu : R u u') : (s.erase u).Alike R (s'.erase u') :=
  ⟨h.name, h.items.erase hR hu, h.names⟩

theorem Alike.eraseAll {us us' : List Uid} (hus : List.Forall₂ R us us') :
    (us.foldl Snapshot.erase s).Alike R (us'.foldl Snapshot.erase s') :=
  List.rel_foldl (fun _ _ hs _ _ hu => hs.erase hR hu) h hus

end Items

/-! ### Rows -/

section Rows

variable {t t' : Table} {x x' : Index} {row row' : Row} {fields fields' : List Field}
  (h : s.Alike R s')
include hR

theorem addKey_alike (hu : R u u') (hx : x.Alike R x') (key : List Value) :
    Agree (Index.Alike R) (addKey u x key) (addKey u' x' key) :=
  ((hx.tree.insert hR.rows hu key).mapError).bind fun _ _ htree =>
    .ok ⟨hx.uid, hx.definition, htree⟩

include h

theorem typedFields_alike (ht : t.Alike R t') (hfields : FieldsAlike R fields fields') :
    Agree (SortedMap.Alike R Eq) (s.typedFields standing t fields)
      (s'.typedFields standing' t' fields') := by
  refine Agree.foldlM hfields SortedMap.Alike.empty fun kept kept' field field' hkept hfield => ?_
  obtain ⟨column, value⟩ := field
  obtain ⟨column', value'⟩ := field'
  obtain ⟨hcolumn, rfl⟩ : R column column' ∧ value = value' := hfield
  refine (Agree.orError (columnOf?_alike hR h ht hcolumn)).bind fun c c' hc => ?_
  refine (Agree.ensure (by rw [hc.type])).bind fun _ _ _ => .ok ?_
  split
  · exact hkept
  · exact hkept.insert hR hcolumn rfl

theorem ensureMatched_alike (hx : x.Alike R x') (key : List Value) :
    Agree Eq (s.ensureMatched x key) (s'.ensureMatched x' key) := by
  have hreferences := hx.definition.references
  rw [ensureMatched, ensureMatched]
  generalize x.definition.references = target, x'.definition.references = target' at hreferences
  cases hreferences with
  | none => exact .ok rfl
  | some htarget =>
    refine Agree.ensure (rel_option_any (primaryIndex?_alike hR h htarget) fun y y' hy => ?_)
    exact hy.tree.contains_eq key

theorem ensureUnused_alike (hu : R u u') (key : List Value) :
    Agree Eq (s.ensureUnused u key) (s'.ensureUnused u' key) := by
  have hfound := rel_find? (foreignKeysInto_alike hR h hu) fun y y' (hy : y.Alike R y') =>
    hy.tree.contains_eq key
  rw [ensureUnused, ensureUnused]
  generalize (s.foreignKeysInto u).find? _ = found at hfound
  generalize (s'.foreignKeysInto u').find? _ = found' at hfound
  cases hfound with
  | none => exact .ok rfl
  | some => exact .error

theorem dropKey_alike (hu : R u u') (hx : x.Alike R x') (key : List Value) :
    Agree (Index.Alike R) (s.dropKey u x key) (s'.dropKey u' x' key) := by
  have herase : Agree (Index.Alike R)
      ((x.tree.erase key u.place).mapError Error.policyViolation >>= fun tree =>
        .ok { x with tree })
      ((x'.tree.erase key u'.place).mapError Error.policyViolation >>= fun tree =>
        .ok { x' with tree }) :=
    (hx.tree.erase hR.rows hu key).mapError.bind fun _ _ htree => .ok ⟨hx.uid, hx.definition, htree⟩
  rw [dropKey, dropKey, hx.definition.primary]
  split
  · exact (ensureUnused_alike hR h hx.definition.table key).bind fun _ _ _ => herase
  · exact herase

variable {old old' new new' : Option Row} (hu : R u u')
  (hold : Option.Rel (Row.Alike R) old old') (hnew : Option.Rel (Row.Alike R) new new')
include hold hnew hu

theorem moveKey_alike (huid : R uid uid') :
    Agree (Alike R) (moveKey u old new s uid) (moveKey u' old' new' s' uid') := by
  have hx := index?_alike hR h huid
  rw [moveKey, moveKey]
  generalize s.index? uid = x, s'.index? uid' = x' at hx
  cases hx with
  | none => exact .ok h
  | @some x x' hx =>
    have hkey : ∀ {row row' : Option Row}, Option.Rel (Row.Alike R) row row' →
        row.map x.definition.keyOf = row'.map x'.definition.keyOf := fun hrow => by
      cases hrow with
      | none => rfl
      | some hrow => exact congrArg some (hx.definition.keyOf_eq hR hrow)
    dsimp only
    rw [hkey hold, hkey hnew]
    split
    · exact .ok h
    · exact (addKey_alike hR hu hx _).bind fun _ _ hx => .ok (h.setIndex hR hx)
    · exact (dropKey_alike hR h hu hx _).bind fun _ _ hx => .ok (h.setIndex hR hx)
    · split
      · exact .ok h
      · exact (dropKey_alike hR h hu hx _).bind fun _ _ hx =>
          (addKey_alike hR hu hx _).bind fun _ _ hx => .ok (h.setIndex hR hx)

theorem rekey_alike (ht : t.Alike R t') :
    Agree (Alike R) (s.rekey t u old new) (s'.rekey t' u' old' new') := by
  have hmoved := Agree.foldlM ht.indexes h fun _ _ _ _ hm huid =>
    moveKey_alike hR hm hu hold hnew huid
  refine hmoved.bind fun m m' hm => ?_
  cases hnew with
  | none => exact .ok hm
  | some hrow =>
    refine (Agree.forM (indexes_alike hR hm ht.uid) fun x x' hx => ?_).bind fun _ _ _ => .ok hm
    rw [hx.definition.keyOf_eq hR hrow]
    exact ensureMatched_alike hR hm hx _

end Rows

section Objects

variable {table table' row row' : Uid} {fields fields' : List Field}
  (h : s.Alike R s') (huid : R uid uid')
include hR h

theorem deleteRow_alike (htable : R table table') (hrow : R row row') :
    Agree (Alike R) (s.deleteRow standing table row) (s'.deleteRow standing' table' row') := by
  refine (Agree.orError (table?_alike hR h htable)).bind fun t t' ht => ?_
  refine (Agree.orError (ht.rows.get? hR hrow)).bind fun old old' hold => ?_
  refine (rekey_alike hR h hrow (.some hold) .none ht).bind fun m m' hm => .ok ?_
  exact hm.setTable hR { ht with rows := ht.rows.erase hR hrow }

include huid

theorem insertRow_alike (htable : R table table') (hfields : FieldsAlike R fields fields') :
    Agree (Alike R) (s.insertRow standing uid table fields)
      (s'.insertRow standing' uid' table' fields') := by
  refine (Agree.orError (table?_alike hR h htable)).bind fun t t' ht => ?_
  refine (typedFields_alike hR h ht hfields).bind fun kept kept' hkept => ?_
  have hnew : Row.Alike R ⟨uid, uid, kept⟩ ⟨uid', uid', kept'⟩ := ⟨huid, huid, hkept⟩
  refine (rekey_alike hR h huid .none (.some hnew) ht).bind fun m m' hm => .ok ?_
  exact hm.setTable hR { ht with rows := ht.rows.insert hR huid hnew }

theorem updateRow_alike (htable : R table table') (hfields : FieldsAlike R fields fields')
    (hrow : R row row') :
    Agree (Alike R) (s.updateRow standing uid table fields row)
      (s'.updateRow standing' uid' table' fields' row') := by
  refine (Agree.orError (table?_alike hR h htable)).bind fun t t' ht => ?_
  refine (Agree.orError (ht.rows.get? hR hrow)).bind fun old old' hold => ?_
  refine (typedFields_alike hR h ht hfields).bind fun kept kept' hkept => ?_
  have hnew : Row.Alike R ⟨row, uid, kept⟩ ⟨row', uid', kept'⟩ := ⟨hrow, huid, hkept⟩
  refine (rekey_alike hR h hrow (.some hold) (.some hnew) ht).bind fun m m' hm => .ok ?_
  exact hm.setTable hR { ht with rows := ht.rows.insert hR hrow hnew }

/-! ### Tables and columns -/

theorem createTable_alike (name : String) :
    Agree (Alike R) (s.createTable uid name) (s'.createTable uid' name) := by
  refine (Agree.ensure (by rw [h.names.contains_eq comparesAlike_eq rfl])).bind fun _ _ _ => .ok ?_
  have hnamed : Alike R { s with names := s.names.insert name uid }
    { s' with names := s'.names.insert name uid' } :=
    ⟨h.name, h.items, h.names.insert comparesAlike_eq rfl huid⟩
  exact hnamed.setTable hR ⟨huid, rfl, .nil, .empty, .nil⟩

theorem createColumn_alike (htable : R table table') (name : String) (type : DataType) :
    Agree (Alike R) (s.createColumn standing uid name type table)
      (s'.createColumn standing' uid' name type table') := by
  refine (Agree.orError (table?_alike hR h htable)).bind fun t t' ht => ?_
  have hnamed := rel_isSome (columnNamed?_alike hR h ht.uid name)
  refine (Agree.ensure (by rw [← Option.not_isSome, ← Option.not_isSome, hnamed])).bind
    fun _ _ _ => .ok ?_
  have hset := h.set hR huid (.column (⟨huid, rfl, rfl, ht.uid⟩ :
    Column.Alike R ⟨uid, name, type, t.uid⟩ ⟨uid', name, type, t'.uid⟩))
  exact hset.setTable hR
    { ht with columns := List.rel_append ht.columns (.cons huid .nil) }

omit huid in
theorem renameTable_alike (htable : R table table') (name : String) :
    Agree (Alike R) (s.renameTable standing table name)
      (s'.renameTable standing' table' name) := by
  refine (Agree.orError (table?_alike hR h htable)).bind fun t t' ht => ?_
  have hfree := rel_option_all (h.names.get? comparesAlike_eq (rfl : name = name)) fun _ _ hu =>
    hR.decide_eq hu ht.uid
  refine (Agree.ensure hfree).bind fun _ _ _ => .ok ?_
  have hnames := (h.names.erase comparesAlike_eq ht.name).insert comparesAlike_eq
    (rfl : name = name) ht.uid
  have hnamed : Alike R { s with names := (s.names.erase t.name).insert name t.uid }
    { s' with names := (s'.names.erase t'.name).insert name t'.uid } := ⟨h.name, h.items, hnames⟩
  exact hnamed.setTable hR { ht with name := rfl }

theorem alterColumn_alike (htable : R table table') (name : String) (type : Option DataType) :
    Agree (Alike R) (s.alterColumn standing table uid name type)
      (s'.alterColumn standing' table' uid' name type) := by
  refine (Agree.orError (table?_alike hR h htable)).bind fun t t' ht => ?_
  refine (Agree.orError (columnOf?_alike hR h ht huid)).bind fun c c' hc => ?_
  have hfree := rel_option_all (columnNamed?_alike hR h ht.uid name) fun _ _ hother =>
    hR.decide_eq hother.uid huid
  refine (Agree.ensure hfree).bind fun _ _ _ => ?_
  have hset := h.set hR huid (.column ({ hc with name := rfl, type := by rw [hc.type] } :
    Column.Alike R { c with name, type := type.getD c.type }
      { c' with name, type := type.getD c'.type }))
  cases type with
  | none => exact .ok hset
  | some type =>
    refine (Agree.forM ht.rows.values fun row row' hrow => ?_).bind fun _ _ _ => .ok hset
    exact Agree.ensure (by rw [hrow.get_eq hR huid])

theorem dropTable_alike :
    Agree (Alike R) (s.dropTable standing uid) (s'.dropTable standing' uid') := by
  refine (Agree.orError (table?_alike hR h huid)).bind fun t t' ht => ?_
  have hfound : Option.Rel (Index.Alike R)
      ((s.foreignKeysInto uid).find? (·.definition.table ≠ uid))
      ((s'.foreignKeysInto uid').find? (·.definition.table ≠ uid')) :=
    rel_find? (foreignKeysInto_alike hR h huid) fun x x' hx =>
      decide_eq_decide.2 (not_congr (hR.eq_iff hx.definition.table huid))
  generalize (s.foreignKeysInto uid).find? _ = found at hfound ⊢
  generalize (s'.foreignKeysInto uid').find? _ = found' at hfound ⊢
  cases hfound with
  | some => exact .error
  | none =>
    have hrest := (h.eraseAll hR (List.rel_append ht.columns ht.indexes)).erase hR huid
    exact .ok ⟨hrest.name, hrest.items, hrest.names.erase comparesAlike_eq ht.name⟩

theorem dropColumn_alike (htable : R table table') :
    Agree (Alike R) (s.dropColumn standing table uid) (s'.dropColumn standing' table' uid') := by
  refine (Agree.orError (table?_alike hR h htable)).bind fun t t' ht => ?_
  refine (Agree.orError (columnOf?_alike hR h ht huid)).bind fun c c' hc => ?_
  have hfound : Option.Rel (Index.Alike R)
      ((s.indexes t.uid).find? (uid ∈ ·.definition.columns))
      ((s'.indexes t'.uid).find? (uid' ∈ ·.definition.columns)) :=
    rel_find? (indexes_alike hR h ht.uid) fun x x' hx =>
      decide_eq_decide.2 (hR.mem_iff hx.definition.columns huid)
  generalize (s.indexes t.uid).find? _ = found, (s'.indexes t'.uid).find? _ = found' at hfound ⊢
  cases hfound with
  | some => exact .error
  | none =>
    refine .ok ((h.erase hR huid).setTable hR { ht with
      columns := hR.filter_ne ht.columns huid
      rows := SortedMap.Alike.ofList hR
        (List.rel_map (fun entry entry' hentry => ?_) ht.rows.toList) })
    exact ⟨hentry.1, { hentry.2 with fields := hentry.2.fields.erase hR huid }⟩

/-! ### Indexes -/

omit huid in
theorem checkTarget_alike {d d' : IndexDefinition} (hd : d.Alike R d') {target target' : Uid}
    (htarget : R target target') :
    Agree Eq (s.checkTarget standing d target) (s'.checkTarget standing' d' target') := by
  refine (Agree.orError (table?_alike hR h htarget)).bind fun t t' ht => ?_
  refine (Agree.orError (primaryIndex?_alike hR h htarget)).bind fun x x' hx => ?_
  refine Agree.ensure ?_
  rw [hx.definition.columns.length_eq, hd.columns.length_eq]

theorem createIndex_alike {d d' : IndexDefinition} (hd : d.Alike R d') :
    Agree (Alike R) (s.createIndex standing uid d) (s'.createIndex standing' uid' d') := by
  refine (Agree.orError (table?_alike hR h hd.table)).bind fun t t' ht => ?_
  refine (Agree.ensure (by rw [rel_isEmpty hd.columns])).bind fun _ _ _ => ?_
  refine (Agree.forM hd.columns fun column column' hcolumn => ?_).bind fun _ _ _ => ?_
  · exact Agree.ensure (rel_isSome (columnOf?_alike hR h ht hcolumn))
  have hindexes := indexes_alike hR h ht.uid
  have hprimary : (s.indexes t.uid).any (·.definition.primary) =
      (s'.indexes t'.uid).any (·.definition.primary) :=
    rel_any hindexes fun x x' hx => hx.definition.primary
  refine (Agree.ensure (by rw [hprimary, hd.primary])).bind fun _ _ _ => ?_
  have hsame : (s.indexes t.uid).any (·.definition.columns = d.columns) =
      (s'.indexes t'.uid).any (·.definition.columns = d'.columns) :=
    rel_any hindexes fun x x' hx =>
      decide_eq_decide.2 (hR.list_eq_iff hx.definition.columns hd.columns)
  refine (Agree.ensure (by rw [hsame])).bind fun _ _ _ => ?_
  refine (Agree.option_forM hd.references fun target target' htarget =>
    checkTarget_alike hR h hd htarget).bind fun _ _ _ => ?_
  rw [hd.keyColumns_eq]
  refine (CompositeIndex.new_alike (R := RelatedRows R) _).mapError.bind fun tree tree' htree => ?_
  have hempty : Index.Alike R ⟨uid, d, tree⟩ ⟨uid', d', tree'⟩ := ⟨huid, hd, htree⟩
  refine (Agree.foldlM ht.rows.values hempty fun x x' row row' hx hrow => ?_).bind fun x x' hx => ?_
  · rw [hd.keyOf_eq hR hrow]
    exact (ensureMatched_alike hR h hx _).bind fun _ _ _ => addKey_alike hR hrow.uid hx _
  · refine .ok ((h.setIndex hR hx).setTable hR ?_)
    exact { ht with indexes := List.rel_append ht.indexes (.cons huid .nil) }

omit huid in
theorem dropIndex_alike (htable : R table table') {columns columns' : List Uid}
    (hcolumns : List.Forall₂ R columns columns') :
    Agree (Alike R) (s.dropIndex standing table columns)
      (s'.dropIndex standing' table' columns') := by
  refine (Agree.orError (table?_alike hR h htable)).bind fun t t' ht => ?_
  have hfound : Option.Rel (Index.Alike R)
      ((s.indexes t.uid).find? (·.definition.columns = columns))
      ((s'.indexes t'.uid).find? (·.definition.columns = columns')) :=
    rel_find? (indexes_alike hR h ht.uid) fun x x' hx =>
      decide_eq_decide.2 (hR.list_eq_iff hx.definition.columns hcolumns)
  refine (Agree.orError hfound).bind fun x x' hx => ?_
  have hrest : Alike R ((s.erase x.uid).setTable { t with indexes := t.indexes.filter (· ≠ x.uid) })
      ((s'.erase x'.uid).setTable { t' with indexes := t'.indexes.filter (· ≠ x'.uid) }) :=
    (h.erase hR hx.uid).setTable hR { ht with indexes := hR.filter_ne ht.indexes hx.uid }
  dsimp only
  rw [hx.definition.primary]
  split
  · have hkeys := foreignKeysInto_alike hR h ht.uid
    generalize s.foreignKeysInto t.uid = keys, s'.foreignKeysInto t'.uid = keys' at hkeys
    cases hkeys with
    | nil => exact .ok hrest
    | cons => exact .error
  · exact .ok hrest

/-! ### Objects -/

/-- Related objects at related places. -/
theorem install_alike {object object' : LogObject} (hobject : object.Alike R object') :
    Agree (Alike R) (s.install standing uid object) (s'.install standing' uid' object') := by
  cases hobject with
  | newTable name => exact createTable_alike hR h huid name
  | newColumn name type htable => exact createColumn_alike hR h huid htable name type
  | record htable hfields => exact insertRow_alike hR h huid htable hfields
  | update htable hfields hrow => exact updateRow_alike hR h huid htable hfields hrow
  | delete htable hrow => exact deleteRow_alike hR h htable hrow
  | alter name type htable hcolumn =>
    cases hcolumn with
    | none => exact renameTable_alike hR h htable name
    | some hcolumn => exact alterColumn_alike hR h hcolumn htable name type
  | drop htarget hparent =>
    cases hparent with
    | none => exact dropTable_alike hR h htarget
    | some hparent => exact dropColumn_alike hR h htarget hparent
  | newIndex hd => exact createIndex_alike hR h huid hd
  | dropIndex htable hcolumns => exact dropIndex_alike hR h htable hcolumns

end Objects

end Snapshot

end SnapshotStore
