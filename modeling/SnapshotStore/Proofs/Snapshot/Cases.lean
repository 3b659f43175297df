import SnapshotStore.Proofs.Success

/-!
# When an object is installed

For each kind of object, what it takes for its installation to succeed and what the snapshot is
then. Whether the object is proposed or stands in the log decides only which error is reported.
-/

namespace SnapshotStore.Snapshot

variable {s s' : Snapshot} {standing : Standing} {uid table row target : Uid} {name : String}
  {fields : List Field}

/-! ### Rows -/

/-- The fields that are left of a list of fields. -/
def keptFields (fields : List Field) : SortedMap Uid Value :=
  fields.foldl (fun kept (uid, value) => if value.isNull then kept else kept.insert uid value)
    SortedMap.empty

/-- Each field belongs to a column of the table and fits it. -/
def Typed (s : Snapshot) (t : Table) (fields : List Field) : Prop :=
  ∀ field ∈ fields, ∃ column, s.columnOf? t field.1 = some column ∧ field.2.fits column.type

theorem typedFields_eq_ok {t : Table} {kept : SortedMap Uid Value} :
    s.typedFields standing t fields = .ok kept ↔ s.Typed t fields ∧ kept = keptFields fields := by
  have hfold : ∀ start : SortedMap Uid Value, fields.foldlM (fun kept (uid, value) => do
        let column ← orError (s.columnOf? t uid) (standing.dangling uid)
        ensure (value.fits column.type) (.typeMismatch column.type value)
        .ok (if value.isNull then kept else kept.insert uid value)) start = .ok kept ↔
      s.Typed t fields ∧
        kept = fields.foldl
          (fun kept (uid, value) => if value.isNull then kept else kept.insert uid value)
          start := by
    induction fields with
    | nil =>
      exact fun start => ⟨fun h => ⟨fun _ hmem => absurd hmem List.not_mem_nil,
        (Except.ok.inj h).symm⟩, fun h => congrArg _ h.2.symm⟩
    | cons field fields ih =>
      intro start
      obtain ⟨uid, value⟩ := field
      rw [List.foldlM_cons, bind_eq_ok, List.foldl_cons, Typed, List.forall_mem_cons, and_assoc]
      constructor
      · rintro ⟨next, hnext, hrest⟩
        obtain ⟨column, hcolumn, hnext⟩ := orError_bind_eq_ok.1 hnext
        obtain ⟨hfits, hkept⟩ := ensure_bind_eq_ok.1 hnext
        cases hkept
        exact ⟨⟨column, hcolumn, hfits⟩, (ih _).1 hrest⟩
      · rintro ⟨⟨column, hcolumn, hfits⟩, hrest⟩
        exact ⟨_, orError_bind_eq_ok.2 ⟨column, hcolumn, ensure_bind_eq_ok.2 ⟨hfits, rfl⟩⟩,
          (ih _).2 hrest⟩
  exact hfold SortedMap.empty

theorem insertRow_eq_ok :
    s.insertRow standing uid table fields = .ok s' ↔
      ∃ t m, s.table? table = some t ∧ s.Typed t fields ∧
        s.rekey t uid none (some ⟨uid, uid, keptFields fields⟩) = .ok m ∧
        s' = m.setTable { t with rows := t.rows.insert uid ⟨uid, uid, keptFields fields⟩ } := by
  rw [insertRow, orError_bind_eq_ok]
  constructor
  · rintro ⟨t, ht, h⟩
    obtain ⟨kept, hkept, h⟩ := bind_eq_ok.1 h
    obtain ⟨htyped, rfl⟩ := typedFields_eq_ok.1 hkept
    obtain ⟨m, hm, h⟩ := bind_eq_ok.1 h
    exact ⟨t, m, ht, htyped, hm, (Except.ok.inj h).symm⟩
  · rintro ⟨t, m, ht, htyped, hm, rfl⟩
    exact ⟨t, ht, bind_eq_ok.2 ⟨_, typedFields_eq_ok.2 ⟨htyped, rfl⟩, bind_eq_ok.2 ⟨m, hm, rfl⟩⟩⟩

theorem updateRow_eq_ok :
    s.updateRow standing uid table fields row = .ok s' ↔
      ∃ t old m, s.table? table = some t ∧ t.rows.get? row = some old ∧ s.Typed t fields ∧
        s.rekey t row (some old) (some ⟨row, uid, keptFields fields⟩) = .ok m ∧
        s' = m.setTable { t with rows := t.rows.insert row ⟨row, uid, keptFields fields⟩ } := by
  rw [updateRow, orError_bind_eq_ok]
  constructor
  · rintro ⟨t, ht, h⟩
    obtain ⟨old, hold, h⟩ := orError_bind_eq_ok.1 h
    obtain ⟨kept, hkept, h⟩ := bind_eq_ok.1 h
    obtain ⟨htyped, rfl⟩ := typedFields_eq_ok.1 hkept
    obtain ⟨m, hm, h⟩ := bind_eq_ok.1 h
    exact ⟨t, old, m, ht, hold, htyped, hm, (Except.ok.inj h).symm⟩
  · rintro ⟨t, old, m, ht, hold, htyped, hm, rfl⟩
    exact ⟨t, ht, orError_bind_eq_ok.2 ⟨old, hold,
      bind_eq_ok.2 ⟨_, typedFields_eq_ok.2 ⟨htyped, rfl⟩, bind_eq_ok.2 ⟨m, hm, rfl⟩⟩⟩⟩

theorem deleteRow_eq_ok :
    s.deleteRow standing table row = .ok s' ↔
      ∃ t old m, s.table? table = some t ∧ t.rows.get? row = some old ∧
        s.rekey t row (some old) none = .ok m ∧
        s' = m.setTable { t with rows := t.rows.erase row } := by
  rw [deleteRow, orError_bind_eq_ok]
  constructor
  · rintro ⟨t, ht, h⟩
    obtain ⟨old, hold, h⟩ := orError_bind_eq_ok.1 h
    obtain ⟨m, hm, h⟩ := bind_eq_ok.1 h
    exact ⟨t, old, m, ht, hold, hm, (Except.ok.inj h).symm⟩
  · rintro ⟨t, old, m, ht, hold, hm, rfl⟩
    exact ⟨t, ht, orError_bind_eq_ok.2 ⟨old, hold, bind_eq_ok.2 ⟨m, hm, rfl⟩⟩⟩

/-! ### Tables and columns -/

theorem createTable_eq_ok :
    s.createTable uid name = .ok s' ↔
      s.names.contains name = false ∧
        s' = ({ s with names := s.names.insert name uid } : Snapshot).setTable
          ⟨uid, name, [], SortedMap.empty, []⟩ := by
  rw [createTable, ensure_bind_eq_ok, Bool.not_eq_true', Except.ok.injEq]
  exact and_congr_right fun _ => eq_comm

theorem createColumn_eq_ok {type : DataType} :
    s.createColumn standing uid name type table = .ok s' ↔
      ∃ t, s.table? table = some t ∧ s.columnNamed? t.uid name = none ∧
        s' = (s.set uid (.column ⟨uid, name, type, t.uid⟩)).setTable
          { t with columns := t.columns ++ [uid] } := by
  rw [createColumn, orError_bind_eq_ok]
  refine exists_congr fun t => and_congr_right fun _ => ?_
  rw [ensure_bind_eq_ok, Option.isNone_iff_eq_none, Except.ok.injEq]
  exact and_congr_right fun _ => eq_comm

theorem renameTable_eq_ok :
    s.renameTable standing table name = .ok s' ↔
      ∃ t, s.table? table = some t ∧ (∀ u, s.names.get? name = some u → u = t.uid) ∧
        s' = ({ s with names := (s.names.erase t.name).insert name t.uid } : Snapshot).setTable
          { t with name } := by
  rw [renameTable, orError_bind_eq_ok]
  refine exists_congr fun t => and_congr_right fun _ => ?_
  rw [ensure_bind_eq_ok, Option.all_eq_true, Except.ok.injEq]
  refine and_congr (forall_congr' fun u => ?_) eq_comm
  rw [decide_eq_true_iff]

theorem alterColumn_eq_ok {type : Option DataType} :
    s.alterColumn standing table uid name type = .ok s' ↔
      ∃ t column, s.table? table = some t ∧ s.columnOf? t uid = some column ∧
        (∀ other, s.columnNamed? t.uid name = some other → other.uid = uid) ∧
        (∀ new, type = some new → ∀ row ∈ t.rows.values, (row.get uid).fits new) ∧
        s' = s.set uid (.column { column with name, type := type.getD column.type }) := by
  rw [alterColumn, orError_bind_eq_ok]
  constructor
  · rintro ⟨t, ht, h⟩
    obtain ⟨column, hcolumn, h⟩ := orError_bind_eq_ok.1 h
    obtain ⟨hname, h⟩ := ensure_bind_eq_ok.1 h
    have hname' : ∀ other, s.columnNamed? t.uid name = some other → other.uid = uid :=
      fun other hother => of_decide_eq_true ((Option.all_eq_true _ _).1 hname other hother)
    cases type with
    | none =>
      exact ⟨t, column, ht, hcolumn, hname', fun _ hnew => (nomatch hnew), (Except.ok.inj h).symm⟩
    | some type =>
      obtain ⟨hfits, h⟩ := forM_bind_eq_ok.1 h
      refine ⟨t, column, ht, hcolumn, hname', fun new hnew row hrow => ?_, (Except.ok.inj h).symm⟩
      cases hnew
      exact ensure_eq_ok.1 (hfits row hrow)
  · rintro ⟨t, column, ht, hcolumn, hname, hfits, rfl⟩
    refine ⟨t, ht, orError_bind_eq_ok.2 ⟨column, hcolumn, ensure_bind_eq_ok.2 ⟨?_, ?_⟩⟩⟩
    · exact (Option.all_eq_true _ _).2 fun other hother => decide_eq_true (hname other hother)
    · cases type with
      | none => rfl
      | some type =>
        exact forM_bind_eq_ok.2 ⟨fun row hrow => ensure_eq_ok.2 (hfits type rfl row hrow), rfl⟩

theorem dropTable_eq_ok :
    s.dropTable standing uid = .ok s' ↔
      ∃ t, s.table? uid = some t ∧ (∀ x ∈ s.foreignKeysInto uid, x.definition.table = uid) ∧
        s' = { ((t.columns ++ t.indexes).foldl erase s).erase uid with
          names := ((t.columns ++ t.indexes).foldl erase s).names.erase t.name } := by
  rw [dropTable, orError_bind_eq_ok]
  refine exists_congr fun t => and_congr_right fun _ => ?_
  cases hfind : (s.foreignKeysInto uid).find? (·.definition.table ≠ uid) with
  | some x =>
    have hother := List.find?_some hfind
    exact ⟨fun h => (nomatch h), fun h => absurd (h.1 x (List.mem_of_find?_eq_some hfind))
      (of_decide_eq_true hother)⟩
  | none =>
    have hown : ∀ x ∈ s.foreignKeysInto uid, x.definition.table = uid := fun x hx =>
      Decidable.byContradiction fun hne => List.find?_eq_none.1 hfind x hx (decide_eq_true hne)
    exact ⟨fun h => ⟨hown, (Except.ok.inj h).symm⟩, fun h => congrArg _ h.2.symm⟩

/-- The rows of a table without their field of one column. -/
def rowsWithout (t : Table) (uid : Uid) : SortedMap Uid Row :=
  SortedMap.ofList (t.rows.toList.map fun (key, row) =>
    (key, { row with fields := row.fields.erase uid }))

theorem dropColumn_eq_ok :
    s.dropColumn standing table uid = .ok s' ↔
      ∃ t column, s.table? table = some t ∧ s.columnOf? t uid = some column ∧
        (∀ x ∈ s.indexes t.uid, uid ∉ x.definition.columns) ∧
        s' = (s.erase uid).setTable
          { t with columns := t.columns.filter (· ≠ uid), rows := rowsWithout t uid } := by
  rw [dropColumn, orError_bind_eq_ok]
  constructor
  · rintro ⟨t, ht, h⟩
    obtain ⟨column, hcolumn, h⟩ := orError_bind_eq_ok.1 h
    split at h
    · cases h
    · next hnone =>
      refine ⟨t, column, ht, hcolumn, fun x hx hmem => ?_, (Except.ok.inj h).symm⟩
      exact List.find?_eq_none.1 hnone x hx (decide_eq_true hmem)
  · rintro ⟨t, column, ht, hcolumn, hfree, rfl⟩
    refine ⟨t, ht, orError_bind_eq_ok.2 ⟨column, hcolumn, ?_⟩⟩
    have hnone : (s.indexes t.uid).find? (uid ∈ ·.definition.columns) = none :=
      List.find?_eq_none.2 fun x hx hmem => hfree x hx (of_decide_eq_true hmem)
    rw [hnone]
    rfl

/-! ### Indexes -/

/-- Takes a row into an index that is being built. -/
def indexRow (s : Snapshot) (d : IndexDefinition) (x : Index) (row : Row) : Except Error Index := do
  s.ensureMatched x (d.keyOf row)
  addKey row.uid x (d.keyOf row)

/-- A foreign key fits the table that it refers to. -/
def HasTarget (s : Snapshot) (d : IndexDefinition) (target : Uid) : Prop :=
  ∃ p primary, s.table? target = some p ∧ s.primaryIndex? target = some primary ∧
    primary.definition.columns.length = d.columns.length

theorem checkTarget_eq_ok {d : IndexDefinition} :
    s.checkTarget standing d target = .ok () ↔ s.HasTarget d target := by
  rw [checkTarget, orError_bind_eq_ok]
  refine exists_congr fun p => ?_
  rw [orError_bind_eq_ok]
  constructor
  · rintro ⟨hp, primary, hprimary, h⟩
    exact ⟨primary, hp, hprimary, of_decide_eq_true (ensure_eq_ok.1 h)⟩
  · rintro ⟨primary, hp, hprimary, h⟩
    exact ⟨hp, primary, hprimary, ensure_eq_ok.2 (decide_eq_true h)⟩

theorem createIndex_eq_ok {d : IndexDefinition} :
    s.createIndex standing uid d = .ok s' ↔
      ∃ t tree x, s.table? d.table = some t ∧ d.columns ≠ [] ∧
        (∀ column ∈ d.columns, (s.columnOf? t column).isSome) ∧
        (d.primary → ∀ other ∈ s.indexes t.uid, other.definition.primary = false) ∧
        (∀ other ∈ s.indexes t.uid, other.definition.columns ≠ d.columns) ∧
        (∀ target, d.references = some target → s.HasTarget d target) ∧
        CompositeIndex.new d.keyColumns = .ok tree ∧
        t.rows.values.foldlM (s.indexRow d) ⟨uid, d, tree⟩ = .ok x ∧
        s' = (s.setIndex x).setTable { t with indexes := t.indexes ++ [uid] } := by
  rw [createIndex, orError_bind_eq_ok]
  constructor
  · rintro ⟨t, ht, h⟩
    obtain ⟨hcolumns, h⟩ := ensure_bind_eq_ok.1 h
    obtain ⟨hlive, h⟩ := forM_bind_eq_ok.1 h
    obtain ⟨hprimary, h⟩ := ensure_bind_eq_ok.1 h
    obtain ⟨hsame, h⟩ := ensure_bind_eq_ok.1 h
    obtain ⟨htarget, h⟩ := option_forM_bind_eq_ok.1 h
    obtain ⟨tree, htree, h⟩ := bind_eq_ok.1 h
    obtain ⟨x, hx, h⟩ := bind_eq_ok.1 h
    refine ⟨t, tree, x, ht, ?_, fun column hcolumn => ensure_eq_ok.1 (hlive column hcolumn), ?_, ?_,
      fun target hreferences => checkTarget_eq_ok.1 (htarget target hreferences),
        mapError_eq_ok.1 htree, hx, (Except.ok.inj h).symm⟩
    · simpa using hcolumns
    · intro hd other hother
      rw [hd, Bool.true_and, Bool.not_eq_true', List.any_eq_false] at hprimary
      exact Bool.eq_false_iff.2 (hprimary other hother)
    · simpa using hsame
  · rintro ⟨t, tree, x, ht, hcolumns, hlive, hprimary, hsame, htarget, htree, hx, rfl⟩
    refine ⟨t, ht, ensure_bind_eq_ok.2 ⟨by simpa using hcolumns, forM_bind_eq_ok.2
      ⟨fun column hcolumn => ensure_eq_ok.2 (hlive column hcolumn), ?_⟩⟩⟩
    refine ensure_bind_eq_ok.2 ⟨?_, ensure_bind_eq_ok.2 ⟨by simpa using hsame, ?_⟩⟩
    · cases hd : d.primary with
      | false => rfl
      | true =>
        rw [Bool.true_and, Bool.not_eq_true', List.any_eq_false]
        exact fun other hother => Bool.eq_false_iff.1 (hprimary hd other hother)
    refine option_forM_bind_eq_ok.2 ⟨fun target hreferences => checkTarget_eq_ok.2
      (htarget target hreferences), ?_⟩
    exact bind_eq_ok.2 ⟨tree, mapError_eq_ok.2 htree, bind_eq_ok.2 ⟨x, hx, rfl⟩⟩

theorem dropIndex_eq_ok {columns : List Uid} :
    s.dropIndex standing table columns = .ok s' ↔
      ∃ t x, s.table? table = some t ∧
        (s.indexes t.uid).find? (·.definition.columns = columns) = some x ∧
        (x.definition.primary → s.foreignKeysInto t.uid = []) ∧
        s' = (s.erase x.uid).setTable { t with indexes := t.indexes.filter (· ≠ x.uid) } := by
  rw [dropIndex, orError_bind_eq_ok]
  constructor
  · rintro ⟨t, ht, h⟩
    obtain ⟨x, hx, h⟩ := orError_bind_eq_ok.1 h
    split at h
    · split at h
      · next hnone => exact ⟨t, x, ht, hx, fun _ => hnone, (Except.ok.inj h).symm⟩
      · cases h
    · next hprimary => exact ⟨t, x, ht, hx, fun h => absurd h hprimary, (Except.ok.inj h).symm⟩
  · rintro ⟨t, x, ht, hx, hfree, rfl⟩
    refine ⟨t, ht, orError_bind_eq_ok.2 ⟨x, hx, ?_⟩⟩
    split
    · next hprimary =>
      rw [hfree hprimary]
    · rfl

end SnapshotStore.Snapshot
