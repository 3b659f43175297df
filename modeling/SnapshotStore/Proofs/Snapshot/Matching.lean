import SnapshotStore.Proofs.Snapshot.Building
import SnapshotStore.Proofs.Snapshot.Indexed

/-!
# Every index agrees with its table

Installing an object keeps the trees of all indexes in step with the rows of their tables: a row
that comes, goes or changes is moved in each index of its table, a new index is filled, a column
that goes is no key column, and nothing else touches rows or trees.
-/

namespace SnapshotStore

/-- The values that an object stores. -/
def LogObject.values : LogObject → List Value
  | record _ fields => fields.map Prod.snd
  | update _ fields _ => fields.map Prod.snd
  | _ => []

/-- All values of an object but nulls, which are not stored, can be compared. -/
def LogObject.ValuesIn (P : Value → Prop) (object : LogObject) : Prop :=
  ∀ value ∈ object.values, value.isNull = false → P value

instance {P : Value → Prop} [DecidablePred P] (object : LogObject) :
    Decidable (object.ValuesIn P) :=
  inferInstanceAs (Decidable (∀ value ∈ object.values, value.isNull = false → P value))

namespace Snapshot

structure Matched (P : Value → Prop) (s : Snapshot) : Prop where
  fields : ∀ {u t}, s.get? u = some (.table t) → ∀ v r, t.rows.get? v = some r → r.FieldsIn P
  agrees : ∀ {u x t}, s.get? u = some (.index x) → s.get? x.definition.table = some (.table t) →
    x.Agrees P t.rows.get?

variable {P : Value → Prop} {bound : Nat} {s s' m : Snapshot} {standing : Standing} {u uid : Uid}
  {t : Table} {x : Index} {object : LogObject}

theorem matched_empty (name : String) : Matched P (empty name) :=
  ⟨fun h => (nomatch h), fun h => (nomatch h)⟩

theorem Matched.agrees_of_index (h : Matched P s) (hs : Catalogued bound s)
    (hx : s.get? u = some (.index x)) :
    ∃ t, s.get? x.definition.table = some (.table t) ∧ x.Agrees P t.rows.get? := by
  obtain ⟨t, ht⟩ := hs.table_of_index hx
  exact ⟨t, ht, h.agrees hx ht⟩

theorem fieldsIn_keptFields {fields : List Field}
    (h : ∀ value ∈ fields.map Prod.snd, value.isNull = false → P value) (row version : Uid) :
    Row.FieldsIn P ⟨row, version, keptFields fields⟩ := by
  intro column value hvalue
  obtain ⟨hvalue, hmem⟩ := of_lastGiven? ((get?_keptFields fields column).symm.trans hvalue)
  have hnull := Value.isNull_eq_false.2 hvalue
  exact ⟨hnull, h value (List.mem_map_of_mem hmem) hnull⟩

/-! ### Rows and trees that stay -/

theorem Matched.of_same (h : Matched P s) (hs : Catalogued bound s)
    (htables : ∀ u t', s'.get? u = some (.table t') →
      (∃ t, s.get? u = some (.table t) ∧ t'.rows = t.rows) ∨
        s.get? u = none ∧ t'.rows = SortedMap.empty)
    (hindexes : ∀ u x, s'.get? u = some (.index x) → s.get? u = some (.index x)) :
    Matched P s' := by
  constructor
  · intro u t' ht' v r hr
    rcases htables u t' ht' with ⟨t, ht, hrows⟩ | ⟨_, hrows⟩
    · exact h.fields ht v r (hrows ▸ hr)
    · rw [hrows] at hr
      cases hr
  · intro u x t' hx ht'
    have hx := hindexes u x hx
    rcases htables _ t' ht' with ⟨t, ht, hrows⟩ | ⟨hnone, _⟩
    · rw [hrows]
      exact h.agrees hx ht
    · obtain ⟨t, ht⟩ := hs.table_of_index hx
      rw [hnone] at ht
      cases ht

/-- A table is set again with the rows that it has. -/
theorem Matched.setTable {t' : Table} (h : Matched P s) (hs : Catalogued bound s)
    (ht : s.get? u = some (.table t)) (huid : t'.uid = u) (hrows : t'.rows = t.rows)
    (hm : m.items.Lawful)
    (hitems : ∀ v, (∀ t', m.get? v = some (.table t') → s.get? v = some (.table t')) ∧
      ∀ x, m.get? v = some (.index x) → s.get? v = some (.index x)) :
    Matched P (m.setTable t') := by
  refine h.of_same hs (fun v found hfound => ?_) fun v found hfound => ?_
  · rcases get?_setTable_cases hm hfound with ⟨heq, hset⟩ | ⟨_, hold⟩
    · cases hset
      exact .inl ⟨t, (heq.trans huid) ▸ ht, hrows⟩
    · exact .inl ⟨found, (hitems v).1 found hold, rfl⟩
  · rcases get?_setTable_cases hm hfound with ⟨_, hfalse⟩ | ⟨_, hold⟩
    · cases hfalse
    · exact (hitems v).2 found hold

theorem Matched.createTable {name : String} (h : Matched P s) (hs : Catalogued bound s)
    (hfresh : bound ≤ uid.place) (hinstall : s.createTable uid name = .ok s') : Matched P s' := by
  obtain ⟨_, rfl⟩ := createTable_eq_ok.1 hinstall
  have hitems : ({ s with names := s.names.insert name uid } : Snapshot).items.Lawful := hs.items
  refine h.of_same hs (fun v found hfound => ?_) fun v found hfound => ?_
  · rcases get?_setTable_cases hitems hfound with ⟨rfl, hset⟩ | ⟨_, hold⟩
    · cases hset
      exact .inr ⟨hs.get?_fresh hfresh, rfl⟩
    · exact .inl ⟨found, hold, rfl⟩
  · rcases get?_setTable_cases hitems hfound with ⟨_, hfalse⟩ | ⟨_, hold⟩
    · cases hfalse
    · exact hold

theorem Matched.createColumn {name : String} {type : DataType} {table : Uid} (h : Matched P s)
    (hs : Catalogued bound s) (hinstall : s.createColumn standing uid name type table = .ok s') :
    Matched P s' := by
  obtain ⟨t, ht, _, rfl⟩ := createColumn_eq_ok.1 hinstall
  refine h.setTable (t := t) hs (table?_eq_some.1 ht) (hs.table_uid ht : t.uid = table) rfl
    (lawful_set hs.items) fun v => ?_
  constructor <;>
  · intro found hfound
    rcases get?_set_cases hs.items hfound with ⟨_, hfalse⟩ | ⟨_, hold⟩
    · cases hfalse
    · exact hold

theorem Matched.renameTable {table : Uid} {name : String} (h : Matched P s)
    (hs : Catalogued bound s) (hinstall : s.renameTable standing table name = .ok s') :
    Matched P s' := by
  obtain ⟨t, ht, _, rfl⟩ := renameTable_eq_ok.1 hinstall
  exact h.setTable (t := t) hs (table?_eq_some.1 ht) (hs.table_uid ht : t.uid = table) rfl hs.items
    fun v => ⟨fun _ hfound => hfound, fun _ hfound => hfound⟩

theorem Matched.alterColumn {table column : Uid} {name : String} {type : Option DataType}
    (h : Matched P s) (hs : Catalogued bound s)
    (hinstall : s.alterColumn standing table column name type = .ok s') : Matched P s' := by
  obtain ⟨t, found, _, _, _, _, rfl⟩ := alterColumn_eq_ok.1 hinstall
  refine h.of_same hs (fun v found hfound => ?_) fun v found hfound => ?_
  · rcases get?_set_cases hs.items hfound with ⟨_, hfalse⟩ | ⟨_, hold⟩
    · cases hfalse
    · exact .inl ⟨found, hold, rfl⟩
  · rcases get?_set_cases hs.items hfound with ⟨_, hfalse⟩ | ⟨_, hold⟩
    · cases hfalse
    · exact hold

theorem Matched.dropTable (h : Matched P s) (hs : Catalogued bound s)
    (hinstall : s.dropTable standing uid = .ok s') : Matched P s' := by
  obtain ⟨t, _, _, rfl⟩ := dropTable_eq_ok.1 hinstall
  refine h.of_same hs (fun v found hfound => .inl ⟨found, ?_, rfl⟩) fun v found hfound => ?_
  · exact get?_of_erase_foldl hs.items hfound
  · exact get?_of_erase_foldl hs.items hfound

theorem Matched.dropIndex {table : Uid} {columns : List Uid} (h : Matched P s)
    (hs : Catalogued bound s) (hinstall : s.dropIndex standing table columns = .ok s') :
    Matched P s' := by
  obtain ⟨t, x, ht, _, _, rfl⟩ := dropIndex_eq_ok.1 hinstall
  exact h.setTable (t := t) hs (table?_eq_some.1 ht) (hs.table_uid ht : t.uid = table) rfl
    (lawful_erase hs.items) fun v => ⟨fun _ hfound => (get?_of_get?_erase hs.items hfound).2,
    fun _ hfound => (get?_of_get?_erase hs.items hfound).2⟩

/-! ### Rows that are moved -/

theorem Matched.setRows {row : Uid} {old new : Option Row} {rows : SortedMap Uid Row}
    (h : Matched P s) (hs : Catalogued bound s) (hP : OrderedOn P) (ht : s.table? u = some t)
    (hrekey : s.rekey t row old new = .ok m) (hold : t.rows.get? row = old)
    (hnew : ∀ r, new = some r → r.FieldsIn P)
    (hrows : ∀ v, rows.get? v = if v = row then new else t.rows.get? v) :
    Matched P (m.setTable { t with rows }) := by
  have htable := table?_eq_some.1 ht
  have hrekeyed := hs.rekeyed htable hrekey
  have huid := hs.table_uid ht
  subst huid
  have hget : ∀ v item, (m.setTable { t with rows }).get? v = some item →
      v = t.uid ∧ item = .table { t with rows } ∨ v ≠ t.uid ∧ m.get? v = some item :=
        fun _ _ => get?_setTable_cases hrekeyed.lawful
  have hkept : ∀ v found, m.get? v = some (.table found) → s.get? v = some (.table found) := by
    intro v found hfound
    rcases get?_of_rekeyed hrekeyed v with heq | ⟨x, tree, _, hx⟩
    · rw [← heq]
      exact hfound
    · rw [hx] at hfound
      cases hfound
  constructor
  · intro v found hfound w r hr
    rcases hget v _ hfound with ⟨_, heq⟩ | ⟨_, hfound⟩
    · cases heq
      rw [show ({ t with rows } : Table).rows = rows from rfl, hrows] at hr
      split at hr
      · exact hnew r hr
      · exact h.fields htable w r hr
    · exact h.fields (hkept v found hfound) w r hr
  · intro v y t' hy ht'
    rcases hget v _ hy with ⟨_, hfalse⟩ | ⟨_, hy⟩
    · cases hfalse
    by_cases hmem : v ∈ t.indexes
    · cases hx : s.index? v with
      | none =>
        rw [hrekeyed.kept v hx, ← index?_eq_some, hx] at hy
        cases hy
      | some x =>
        obtain ⟨tree, htree, hmoves⟩ := hrekeyed.moved v hmem x hx
        rw [hy] at htree
        cases htree
        have hxget := index?_eq_some.1 hx
        have hxtable : x.definition.table = t.uid := (hs.mem_indexes_iff htable hxget).1 hmem
        rcases hget _ _ ht' with ⟨_, heq⟩ | ⟨hne, _⟩
        · cases heq
          refine (h.agrees hxget (hxtable ▸ htable)).moved hP (h.fields htable)
            (hs.columns_ne_nil hxget) hold hnew hmoves hrows
        · exact absurd hxtable hne
    · rw [hrekeyed.other v hmem] at hy
      rcases hget _ _ ht' with ⟨heq, _⟩ | ⟨_, ht'⟩
      · exact absurd ((hs.mem_indexes_iff htable hy).2 heq) hmem
      · exact h.agrees hy (hkept _ _ ht')

theorem RowsKept.get?_fresh {rows : SortedMap Uid Row} (h : RowsKept bound rows)
    (hfresh : bound ≤ uid.place) : rows.get? uid = none := by
  cases hrow : rows.get? uid with
  | none => rfl
  | some row => exact absurd (h.below hrow) (Nat.not_lt.2 hfresh)

theorem Matched.insertRow {table : Uid} {fields : List Field} (h : Matched P s)
    (hs : Catalogued bound s) (hP : OrderedOn P) (hfresh : bound ≤ uid.place)
    (hvalues : (LogObject.record table fields).ValuesIn P)
    (hinstall : s.insertRow standing uid table fields = .ok s') : Matched P s' := by
  obtain ⟨t, m, ht, _, hm, rfl⟩ := insertRow_eq_ok.1 hinstall
  have hrows := hs.rows (table?_eq_some.1 ht)
  refine h.setRows hs hP ht hm (hrows.get?_fresh hfresh) (fun r hr => ?_)
    (hrows.lawful.get?_insert uid _)
  cases hr
  exact fieldsIn_keptFields hvalues uid uid

theorem Matched.updateRow {table row : Uid} {fields : List Field} (h : Matched P s)
    (hs : Catalogued bound s) (hP : OrderedOn P)
    (hvalues : (LogObject.update table fields row).ValuesIn P)
    (hinstall : s.updateRow standing uid table fields row = .ok s') : Matched P s' := by
  obtain ⟨t, old, m, ht, hold, _, hm, rfl⟩ := updateRow_eq_ok.1 hinstall
  refine h.setRows hs hP ht hm hold (fun r hr => ?_)
    ((hs.rows (table?_eq_some.1 ht)).lawful.get?_insert row _)
  cases hr
  exact fieldsIn_keptFields hvalues row uid

theorem Matched.deleteRow {table row : Uid} (h : Matched P s) (hs : Catalogued bound s)
    (hP : OrderedOn P) (hinstall : s.deleteRow standing table row = .ok s') : Matched P s' := by
  obtain ⟨t, old, m, ht, hold, hm, rfl⟩ := deleteRow_eq_ok.1 hinstall
  have hlawful := (hs.rows (table?_eq_some.1 ht)).lawful
  exact h.setRows hs hP ht hm hold (fun _ hr => (nomatch hr)) (hlawful.get?_erase row)

/-! ### Columns that go and indexes that come -/

theorem keyOf_without {d : IndexDefinition} {r : Row} (hfields : r.fields.Lawful)
    (hfree : uid ∉ d.columns) : d.keyOf { r with fields := r.fields.erase uid } = d.keyOf r := by
  refine List.map_congr_left fun column hcolumn => ?_
  have hne : column ≠ uid := fun heq => hfree (heq ▸ hcolumn)
  rw [Row.get, Row.get, SortedMap.Lawful.get?_erase_of_ne hfields hne]

theorem Matched.dropColumn {table : Uid} (h : Matched P s) (hs : Catalogued bound s)
    (hP : OrderedOn P) (hinstall : s.dropColumn standing table uid = .ok s') : Matched P s' := by
  obtain ⟨t, column, ht, _, hfree, rfl⟩ := dropColumn_eq_ok.1 hinstall
  have htable := table?_eq_some.1 ht
  have hrows := hs.rows htable
  have huid := hs.table_uid ht
  subst huid
  have hget : ∀ v item, ((s.erase uid).setTable { t with
        columns := t.columns.filter (· ≠ uid)
        rows := rowsWithout t uid }).get? v = some item →
      v = t.uid ∧ item = .table { t with
        columns := t.columns.filter (· ≠ uid)
        rows := rowsWithout t uid } ∨
      v ≠ t.uid ∧ s.get? v = some item := by
    intro v item hitem
    rcases get?_setTable_cases (lawful_erase hs.items) hitem with hset | ⟨hne, hold⟩
    · exact .inl hset
    · exact .inr ⟨hne, (get?_of_get?_erase hs.items hold).2⟩
  have hfields : ∀ v r, (rowsWithout t uid).get? v = some r → r.FieldsIn P := by
    intro v r hr
    rw [get?_rowsWithout hrows] at hr
    obtain ⟨old, hold, rfl⟩ := Option.map_eq_some_iff.1 hr
    exact fun column value hvalue => h.fields htable v old hold column value
      (get?_of_get?_erase (hrows.fields hold) hvalue).2
  constructor
  · intro v found hfound
    rcases hget v _ hfound with ⟨_, heq⟩ | ⟨_, hfound⟩
    · cases heq
      exact hfields
    · exact h.fields hfound
  · intro v x t' hx ht'
    rcases hget v _ hx with ⟨_, hfalse⟩ | ⟨_, hx⟩
    · cases hfalse
    rcases hget _ _ ht' with ⟨heq, htaken⟩ | ⟨_, ht'⟩
    · cases htaken
      have hxfree : uid ∉ x.definition.columns :=
        hfree x (mem_indexes.2 ⟨t, ht, v, (hs.mem_indexes_iff htable hx).2 heq,
          index?_eq_some.2 hx⟩)
      have hagrees := h.agrees hx (heq ▸ htable)
      refine hagrees.congr hP (h.fields htable) hfields (fun w r hr => ?_) fun w r' hr' => ?_
      · refine ⟨{ r with fields := r.fields.erase uid },
          by rw [get?_rowsWithout hrows, hr, Option.map_some], ?_⟩
        rw [keyOf_without (hrows.fields hr) hxfree]
        exact .refl hP (hagrees.keyOn (h.fields htable) hr)
      · rw [get?_rowsWithout hrows] at hr'
        obtain ⟨r, hr, _⟩ := Option.map_eq_some_iff.1 hr'
        exact ⟨r, hr⟩
    · exact h.agrees hx ht'

theorem RowsKept.mem_values_iff {rows : SortedMap Uid Row} {v : Uid} {r : Row}
    (h : RowsKept bound rows) : r ∈ rows.values ∧ r.uid = v ↔ rows.get? v = some r := by
  constructor
  · rintro ⟨hr, rfl⟩
    obtain ⟨w, hw⟩ := h.lawful.mem_values_iff.1 hr
    rw [h.own hw]
    exact hw
  · exact fun hr => ⟨h.lawful.mem_values_iff.2 ⟨v, hr⟩, h.own hr⟩

theorem RowsKept.uids_values {rows : SortedMap Uid Row} (h : RowsKept bound rows) :
    rows.values.map Row.uid = rows.keys := by
  rw [SortedMap.values, SortedMap.keys, List.map_map]
  exact List.map_congr_left fun entry hentry => h.own (h.lawful.mem_toList_iff.1 hentry)

theorem RowsKept.nodup_values {rows : SortedMap Uid Row} (h : RowsKept bound rows) :
    (rows.values.map Row.uid).Nodup := by
  rw [h.uids_values]
  refine (SortedMap.Lawful.pairwise_keys h.lawful).imp fun {a b} hlt heq => ?_
  rw [heq, Std.ReflOrd.compare_self] at hlt
  cases hlt

theorem Matched.createIndex {d : IndexDefinition} (h : Matched P s) (hs : Catalogued bound s)
    (hP : OrderedOn P) (hinstall : s.createIndex standing uid d = .ok s') : Matched P s' := by
  obtain ⟨t, tree, x, ht, hcolumns, _, _, _, _, htree, hfold, rfl⟩ := createIndex_eq_ok.1 hinstall
  have htable := table?_eq_some.1 ht
  have hrows := hs.rows htable
  obtain ⟨hxuid, hxdefinition⟩ := indexRow_fold hfold
  have hfields : ∀ r ∈ t.rows.values, r.FieldsIn P := by
    intro r hr
    obtain ⟨v, hv⟩ := hrows.lawful.mem_values_iff.1 hr
    exact h.fields htable v r hv
  have hagrees : x.Agrees P t.rows.get? := by
    obtain ⟨rows, hrows', hmem⟩ := (Index.Agrees.new htree).filled hP rfl hcolumns
      (fun _ _ hr => (nomatch hr)) hfields (fun _ _ => rfl) hrows.nodup_values hfold
    have heq : rows = t.rows.get? := by
      funext v
      refine Option.ext fun r => (hmem v r).trans ?_
      rw [hrows.mem_values_iff]
      exact or_iff_left fun hr => (nomatch hr)
    exact heq ▸ hrows'
  have huid : t.uid = d.table := hs.table_uid ht
  have hset : s.setIndex x = s.set uid (.index x) := by rw [setIndex, hxuid]
  have hitems : (s.set uid (.index x)).items.Lawful := lawful_set hs.items
  rw [hset]
  have hget : ∀ v item, ((s.set uid (.index x)).setTable
          { t with indexes := t.indexes ++ [uid] }).get? v = some item →
      v = t.uid ∧ item = .table { t with indexes := t.indexes ++ [uid] } ∨
        v = uid ∧ item = .index x ∨ v ≠ t.uid ∧ s.get? v = some item := by
    intro v item hitem
    rcases get?_setTable_cases hitems hitem with hset | ⟨hne, hold⟩
    · exact .inl hset
    · rcases get?_set_cases hs.items hold with hset | ⟨_, hold⟩
      · exact .inr (.inl hset)
      · exact .inr (.inr ⟨hne, hold⟩)
  constructor
  · intro v found hfound
    rcases hget v _ hfound with ⟨_, heq⟩ | ⟨_, hfalse⟩ | ⟨_, hfound⟩
    · cases heq
      exact (h.fields htable : ∀ v r, t.rows.get? v = some r → r.FieldsIn P)
    · cases hfalse
    · exact h.fields hfound
  · intro v y t' hy ht'
    rcases hget v _ hy with ⟨_, hfalse⟩ | ⟨_, heq⟩ | ⟨_, hy⟩
    · cases hfalse
    · cases heq
      rw [hxdefinition] at ht'
      rcases hget _ _ ht' with ⟨_, heq⟩ | ⟨_, hfalse⟩ | ⟨hne, _⟩
      · cases heq
        exact hagrees
      · cases hfalse
      · exact absurd huid.symm hne
    · rcases hget _ _ ht' with ⟨htaken, heq⟩ | ⟨_, hfalse⟩ | ⟨_, ht'⟩
      · cases heq
        exact (h.agrees hy (htaken.trans huid ▸ htable) : y.Agrees P t.rows.get?)
      · cases hfalse
      · exact h.agrees hy ht'

/-! ### Objects -/

theorem Matched.install (h : Matched P s) (hs : Catalogued bound s) (hP : OrderedOn P)
    (hfresh : bound ≤ uid.place) (hvalues : object.ValuesIn P)
    (hinstall : s.install standing uid object = .ok s') : Matched P s' := by
  cases object with
  | newTable name => exact h.createTable hs hfresh hinstall
  | newColumn name type table => exact h.createColumn hs hinstall
  | record table fields => exact h.insertRow hs hP hfresh hvalues hinstall
  | update table fields row => exact h.updateRow hs hP hvalues hinstall
  | delete table row => exact h.deleteRow hs hP hinstall
  | alter table column name type =>
    cases column with
    | none => exact h.renameTable hs hinstall
    | some column => exact h.alterColumn hs hinstall
  | drop target parent =>
    cases parent with
    | none => exact h.dropTable hs hinstall
    | some table => exact h.dropColumn hs hP hinstall
  | newIndex definition => exact h.createIndex hs hP hinstall
  | dropIndex table columns => exact h.dropIndex hs hinstall

theorem Matched.endingAt (h : Matched P s) (position : Nat) : Matched P (s.endingAt position) :=
  ⟨h.fields, h.agrees⟩

theorem Builds.matched {first last : Nat} {objects : List (Uid × LogObject)}
    (hbuilds : Builds first s objects last s') (h : Matched P s) (hs : Catalogued first s)
    (hP : OrderedOn P) (hvalues : ∀ o ∈ objects, o.2.ValuesIn P) : Matched P s' := by
  induction hbuilds with
  | refl => exact h
  | step hbuilds hfresh _ hinstall position ih =>
    have hmid := ih fun o ho => hvalues o (List.mem_append_left _ ho)
    exact (hmid.install (hbuilds.catalogued hs) hP hfresh
      (hvalues _ (List.mem_append_right _ (List.mem_singleton.2 rfl))) hinstall).endingAt position

end Snapshot

end SnapshotStore
