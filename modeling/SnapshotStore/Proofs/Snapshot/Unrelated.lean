import SnapshotStore.Proofs.Snapshot.Unnamed
import SnapshotStore.Proofs.Snapshot.WithoutRows

/-!
# Objects beside hidden rows

An object reads and changes the tables that it names and the tables that are linked with these by a
foreign key. If none of them is hidden, then the hidden rows have no part in whether the object can
be installed nor in what it makes of the snapshot.
-/

namespace SnapshotStore.Snapshot

/-- None of the tables is hidden, and no foreign key links one of them with a hidden table. -/
structure Apart (hidden : Uid → Bool) (tables : List Uid) (s : Snapshot) : Prop where
  shown : ∀ u ∈ tables, hidden u = false
  referring : ∀ v d target, s.links v = some (.index d) → d.references = some target →
    d.table ∈ tables → hidden target = false
  referred : ∀ v d target, s.links v = some (.index d) → d.references = some target →
    target ∈ tables → hidden d.table = false

variable {hidden : Uid → Bool} {tables : List Uid} {bound : Nat} {s m : Snapshot}
  {standing : Standing} {u v uid row : Uid} {t : Table} {x : Index} {key : List Value}
  {fields : List Field} {name : String} {old new : Option Row}

theorem Apart.congr (h : s.Apart hidden tables) (hlinks : m.links = s.links) :
    m.Apart hidden tables :=
  ⟨h.shown, fun v d target hd => h.referring v d target (hlinks ▸ hd),
    fun v d target hd => h.referred v d target (hlinks ▸ hd)⟩

/-! ### What is not hidden -/

section

variable (hs : Catalogued bound s)
include hs

theorem Catalogued.table?_shown (hu : hidden u = false) :
    (s.withoutRows hidden).table? u = s.table? u := by
  rw [table?_withoutRows]
  cases ht : s.table? u with
  | none => rfl
  | some t => rw [Option.map_some, t.withoutRows_of_shown ((hs.table_uid ht).symm ▸ hu)]

theorem Catalogued.indexes_shown (hu : hidden u = false) :
    (s.withoutRows hidden).indexes u = s.indexes u := by
  rw [indexes_withoutRows]
  refine (List.map_congr_left fun x hx => ?_).trans (List.map_id _)
  exact x.withoutRows_of_shown ((hs.get?_of_mem_indexes hx).1.symm ▸ hu)

theorem Catalogued.primaryIndex?_shown (hu : hidden u = false) :
    (s.withoutRows hidden).primaryIndex? u = s.primaryIndex? u := by
  rw [primaryIndex?, primaryIndex?, hs.indexes_shown hu]

variable (h : s.Apart hidden tables)
include h

theorem Apart.foreignKeysInto (hu : u ∈ tables) :
    (s.withoutRows hidden).foreignKeysInto u = s.foreignKeysInto u := by
  rw [foreignKeysInto_withoutRows]
  refine (List.map_congr_left fun x hx => ?_).trans (List.map_id _)
  obtain ⟨⟨v, hv⟩, hreferences⟩ := (mem_foreignKeysInto hs.items).1 hx
  exact x.withoutRows_of_shown
    (h.referred v _ u (links_of_get? (index?_eq_some.1 hv)) hreferences hu)

theorem Apart.dropKey (hx : x.definition.table ∈ tables) :
    (s.withoutRows hidden).dropKey row x key = s.dropKey row x key := by
  rw [Snapshot.dropKey, Snapshot.dropKey, ensureUnused, ensureUnused, h.foreignKeysInto hs hx]

omit h in
theorem Catalogued.ensureMatched_shown
    (hx : ∀ target, x.definition.references = some target → hidden target = false) :
    (s.withoutRows hidden).ensureMatched x key = s.ensureMatched x key := by
  rw [ensureMatched, ensureMatched]
  split
  · rfl
  · next target htarget => rw [hs.primaryIndex?_shown (hx target htarget)]

/-! ### Moving a row between its keys -/

/-- A snapshot and what it shows, while the links stay as they were in `s`. -/
structure Shows (hidden : Uid → Bool) (bound : Nat) (s m n : Snapshot) : Prop where
  catalogued : Catalogued bound m
  links : m.links = s.links
  shown : n = m.withoutRows hidden

omit h in
theorem Catalogued.shows_setIndex (hx : s.index? u = some x)
    (hu : hidden x.definition.table = false) (tree : CompositeIndex Value) :
    Shows hidden bound s (s.setIndex { x with tree })
      ((s.withoutRows hidden).setIndex { x with tree }) := by
  obtain rfl : x.uid = u := hs.index_uid hx
  have hitem := index?_eq_some.1 hx
  refine ⟨hs.set hitem rfl rfl fun t ht => (nomatch ht), hs.links_set_self hitem rfl, ?_⟩
  have hindex : ({ x with tree } : Index).withoutRows hidden = { x with tree } :=
    Index.withoutRows_of_shown hu
  rw [setIndex, setIndex, withoutRows_set, CatalogItem.withoutRows, hindex]

omit hs in
theorem Apart.moveKey {n : Snapshot} (hm : Shows hidden bound s m n)
    (hx : ∀ x, m.index? uid = some x → x.definition.table ∈ tables) :
    Agree (Shows hidden bound s) (m.moveKey row old new uid) (n.moveKey row old new uid) := by
  obtain ⟨hcatalogued, hlinks, rfl⟩ := hm
  have hapart := h.congr hlinks
  rw [Snapshot.moveKey, Snapshot.moveKey, index?_withoutRows]
  cases hfound : m.index? uid with
  | none => exact .ok ⟨hcatalogued, hlinks, rfl⟩
  | some x =>
    have hshown := h.shown _ (hx x hfound)
    have hset : ∀ tree, Shows hidden bound s (m.setIndex { x with tree })
        ((m.withoutRows hidden).setIndex { x with tree }) := by
      intro tree
      obtain ⟨hset, hsame, hshows⟩ := hcatalogued.shows_setIndex hfound hshown tree
      exact ⟨hset, hsame.trans hlinks, hshows⟩
    rw [Option.map_some, x.withoutRows_of_shown hshown]
    dsimp only
    split
    · exact .ok ⟨hcatalogued, hlinks, rfl⟩
    · refine Agree.bind_same fun y hy => ?_
      obtain ⟨tree, _, rfl⟩ := addKey_eq_ok hy
      exact .ok (hset tree)
    · rw [hapart.dropKey hcatalogued (hx x hfound)]
      refine Agree.bind_same fun y hy => ?_
      obtain ⟨_, tree, _, rfl⟩ := dropKey_eq_ok hy
      exact .ok (hset tree)
    · split
      · exact .ok ⟨hcatalogued, hlinks, rfl⟩
      · rw [hapart.dropKey hcatalogued (hx x hfound)]
        refine Agree.bind_same fun y hy => ?_
        obtain ⟨_, _, _, rfl⟩ := dropKey_eq_ok hy
        refine Agree.bind_same fun y hy => ?_
        obtain ⟨tree, _, rfl⟩ := addKey_eq_ok hy
        exact .ok (hset tree)

theorem Apart.rekey (ht : s.table? u = some t) (hu : u ∈ tables) :
    Agree (Shows hidden bound s) (s.rekey t row old new)
      ((s.withoutRows hidden).rekey t row old new) := by
  have htable := table?_eq_some.1 ht
  have huid : t.uid = u := hs.table_uid ht
  have hmoved : Agree (Shows hidden bound s) (t.indexes.foldlM (Snapshot.moveKey row old new) s)
      (t.indexes.foldlM (Snapshot.moveKey row old new) (s.withoutRows hidden)) := by
    refine Agree.foldlM (R := fun v v' => v = v' ∧ v ∈ t.indexes)
      (List.forall₂_same.2 fun v hv => ⟨rfl, hv⟩) ⟨hs, rfl, rfl⟩ ?_
    rintro m n v _ hm ⟨rfl, hv⟩
    refine h.moveKey hm fun x hx => ?_
    have hlink := links_of_get? (index?_eq_some.1 hx)
    rw [hm.links] at hlink
    obtain ⟨d, hd, htable⟩ := (hs.linked.mem_indexes (links_of_get? htable) v).1 hv
    cases hlink.symm.trans hd
    exact htable ▸ hu
  rw [Snapshot.rekey, Snapshot.rekey]
  refine hmoved.bind fun m n hm => ?_
  cases new with
  | none => exact .ok hm
  | some r =>
    obtain ⟨hcatalogued, hlinks, rfl⟩ := hm
    dsimp only
    rw [hcatalogued.indexes_shown (huid.symm ▸ h.shown u hu)]
    refine (Agree.forM (R := fun x x' => x = x' ∧ x ∈ m.indexes t.uid)
      (List.forall₂_same.2 fun x hx => ⟨rfl, hx⟩) ?_).bind
      fun _ _ _ => .ok ⟨hcatalogued, hlinks, rfl⟩
    rintro x _ ⟨rfl, hx⟩
    obtain ⟨hxtable, v, hv⟩ := hcatalogued.get?_of_mem_indexes hx
    have hlink := links_of_get? hv
    rw [hlinks] at hlink
    rw [hcatalogued.ensureMatched_shown fun target htarget =>
      h.referring v _ target hlink htarget (hxtable.trans huid ▸ hu)]
    exact .refl _

end

/-! ### Objects -/

/-- The second snapshot is what the first one shows. -/
def ShownAs (hidden : Uid → Bool) (m n : Snapshot) : Prop := n = m.withoutRows hidden

namespace ShownAs

variable {n : Snapshot} (h : ShownAs hidden m n)
include h

theorem set {item : CatalogItem} (hitem : item.withoutRows hidden = item) (u : Uid) :
    ShownAs hidden (m.set u item) (n.set u item) := by
  rw [ShownAs, withoutRows_set, hitem, h]

theorem setTable (ht : hidden t.uid = false) : ShownAs hidden (m.setTable t) (n.setTable t) := by
  have hitem : (CatalogItem.table t).withoutRows hidden = .table t :=
    congrArg CatalogItem.table (t.withoutRows_of_shown ht)
  exact h.set hitem _

theorem setColumn (c : Column) (u : Uid) :
    ShownAs hidden (m.set u (.column c)) (n.set u (.column c)) :=
  h.set rfl u

theorem setIndex (hx : hidden x.definition.table = false) :
    ShownAs hidden (m.setIndex x) (n.setIndex x) := by
  have hitem : (CatalogItem.index x).withoutRows hidden = .index x :=
    congrArg CatalogItem.index (x.withoutRows_of_shown hx)
  exact h.set hitem _

theorem erase (u : Uid) : ShownAs hidden (m.erase u) (n.erase u) := by
  rw [ShownAs, withoutRows_erase, h]

theorem eraseAll (us : List Uid) :
    ShownAs hidden (us.foldl Snapshot.erase m) (us.foldl Snapshot.erase n) := by
  induction us generalizing m n with
  | nil => exact h
  | cons u us ih => exact ih (h.erase u)

theorem withNames (f : SortedMap String Uid → SortedMap String Uid) :
    ShownAs hidden { m with names := f m.names } { n with names := f n.names } := by
  rw [ShownAs, h]
  rfl

end ShownAs

theorem Shows.shownAs {n : Snapshot} (h : Shows hidden bound s m n) : ShownAs hidden m n := h.shown

theorem shownAs_withoutRows (hidden : Uid → Bool) (s : Snapshot) :
    ShownAs hidden s (s.withoutRows hidden) := rfl

section

variable {table target : Uid} {type : DataType} {columns : List Uid} {d : IndexDefinition}
  (hs : Catalogued bound s) (h : s.Apart hidden tables)
include hs h

/-- An operation that starts with looking up one of the tables. -/
theorem Apart.bind_table {A : Type} {f f' : Table → Except Error A} {R : A → A → Prop}
    {error : Error} (htable : table ∈ tables)
    (hf : ∀ t, s.table? table = some t → hidden t.uid = false → Agree R (f t) (f' t)) :
    Agree R (orError (s.table? table) error >>= f)
      (orError ((s.withoutRows hidden).table? table) error >>= f') := by
  have hshown := h.shown table htable
  rw [hs.table?_shown hshown]
  refine Agree.bind_same fun t ht => ?_
  have ht := orError_eq_ok.1 ht
  exact hf t ht ((hs.table_uid ht).symm ▸ hshown)

theorem Apart.insertRow (htable : table ∈ tables) :
    Agree (ShownAs hidden) (s.insertRow standing uid table fields)
      ((s.withoutRows hidden).insertRow standing uid table fields) := by
  refine h.bind_table hs htable fun t ht hshown => ?_
  rw [typedFields_withoutRows]
  refine Agree.bind_same fun kept _ => (h.rekey hs ht htable).bind fun m n hm => .ok ?_
  exact hm.shownAs.setTable hshown

theorem Apart.updateRow (htable : table ∈ tables) :
    Agree (ShownAs hidden) (s.updateRow standing uid table fields row)
      ((s.withoutRows hidden).updateRow standing uid table fields row) := by
  refine h.bind_table hs htable fun t ht hshown => Agree.bind_same fun old _ => ?_
  rw [typedFields_withoutRows]
  refine Agree.bind_same fun kept _ => (h.rekey hs ht htable).bind fun m n hm => .ok ?_
  exact hm.shownAs.setTable hshown

theorem Apart.deleteRow (htable : table ∈ tables) :
    Agree (ShownAs hidden) (s.deleteRow standing table row)
      ((s.withoutRows hidden).deleteRow standing table row) := by
  refine h.bind_table hs htable fun t ht hshown => Agree.bind_same fun old _ => ?_
  refine (h.rekey hs ht htable).bind fun m n hm => .ok ?_
  exact hm.shownAs.setTable hshown

omit hs h in
theorem createTable_shown (huid : hidden uid = false) :
    Agree (ShownAs hidden) (s.createTable uid name)
      ((s.withoutRows hidden).createTable uid name) :=
  Agree.bind_same fun _ _ =>
    .ok (((shownAs_withoutRows hidden s).withNames (·.insert name uid)).setTable huid)

theorem Apart.createColumn (htable : table ∈ tables) :
    Agree (ShownAs hidden) (s.createColumn standing uid name type table)
      ((s.withoutRows hidden).createColumn standing uid name type table) := by
  refine h.bind_table hs htable fun t ht hshown => ?_
  rw [columnNamed?_withoutRows]
  refine Agree.bind_same fun _ _ => .ok ?_
  exact ((shownAs_withoutRows hidden s).setColumn _ uid).setTable hshown

theorem Apart.renameTable (htable : table ∈ tables) :
    Agree (ShownAs hidden) (s.renameTable standing table name)
      ((s.withoutRows hidden).renameTable standing table name) := by
  refine h.bind_table hs htable fun t ht hshown => Agree.bind_same fun _ _ => .ok ?_
  have hnamed := (shownAs_withoutRows hidden s).withNames
    fun names => (names.erase t.name).insert name t.uid
  exact hnamed.setTable hshown

theorem Apart.alterColumn {type : Option DataType} (htable : table ∈ tables) :
    Agree (ShownAs hidden) (s.alterColumn standing table uid name type)
      ((s.withoutRows hidden).alterColumn standing table uid name type) := by
  refine h.bind_table hs htable fun t ht hshown => ?_
  rw [columnOf?_withoutRows, columnNamed?_withoutRows]
  refine Agree.bind_same fun column _ => Agree.bind_same fun _ _ => ?_
  have hset := fun c => (shownAs_withoutRows hidden s).setColumn c uid
  cases type with
  | none => exact .ok (hset _)
  | some type => exact Agree.bind_same fun _ _ => .ok (hset _)

theorem Apart.dropTable (htable : table ∈ tables) :
    Agree (ShownAs hidden) (s.dropTable standing table)
      ((s.withoutRows hidden).dropTable standing table) := by
  refine h.bind_table hs htable fun t ht hshown => ?_
  rw [h.foreignKeysInto hs htable]
  split
  · exact .error
  · have hrest := ((shownAs_withoutRows hidden s).eraseAll (t.columns ++ t.indexes)).erase table
    exact .ok (hrest.withNames (·.erase t.name))

theorem Apart.dropColumn (htable : table ∈ tables) :
    Agree (ShownAs hidden) (s.dropColumn standing table uid)
      ((s.withoutRows hidden).dropColumn standing table uid) := by
  refine h.bind_table hs htable fun t ht hshown => ?_
  rw [columnOf?_withoutRows, hs.indexes_shown hshown]
  refine Agree.bind_same fun column _ => ?_
  split
  · exact .error
  · exact .ok (((shownAs_withoutRows hidden s).erase uid).setTable hshown)

theorem Apart.checkTarget (htarget : target ∈ tables) :
    Agree Eq (s.checkTarget standing d target)
      ((s.withoutRows hidden).checkTarget standing d target) := by
  refine h.bind_table hs htarget fun t ht hshown => ?_
  rw [hs.primaryIndex?_shown (h.shown target htarget)]
  exact .refl _

theorem Apart.createIndex (htable : d.table ∈ tables)
    (htarget : ∀ target, d.references = some target → target ∈ tables) :
    Agree (ShownAs hidden) (s.createIndex standing uid d)
      ((s.withoutRows hidden).createIndex standing uid d) := by
  refine h.bind_table hs htable fun t ht hshown => Agree.bind_same fun _ _ => ?_
  simp only [columnOf?_withoutRows, hs.indexes_shown hshown]
  refine Agree.bind_same fun _ _ => Agree.bind_same fun _ _ => Agree.bind_same fun _ _ => ?_
  have hchecked : Agree Eq (d.references.forM (s.checkTarget standing d))
      (d.references.forM ((s.withoutRows hidden).checkTarget standing d)) := by
    cases hreferences : d.references with
    | none => exact .refl _
    | some target => exact h.checkTarget hs (htarget target hreferences)
  refine hchecked.bind fun _ _ _ => Agree.bind_same fun tree _ => ?_
  have hfilled : Agree (fun x x' => x = x' ∧ x.definition = d)
      (t.rows.values.foldlM (s.indexRow d) ⟨uid, d, tree⟩)
      (t.rows.values.foldlM ((s.withoutRows hidden).indexRow d) ⟨uid, d, tree⟩) := by
    refine Agree.foldlM (List.forall₂_same.2 fun _ _ => Eq.refl _) ⟨rfl, rfl⟩ ?_
    rintro x _ r _ ⟨rfl, hx⟩ rfl
    rw [indexRow, indexRow, hs.ensureMatched_shown fun target hreferences =>
      h.shown target (htarget target (hx ▸ hreferences))]
    refine Agree.bind_same fun _ _ => Agree.same fun y hy => ⟨rfl, ?_⟩
    obtain ⟨tree, _, rfl⟩ := addKey_eq_ok hy
    exact hx
  refine hfilled.bind ?_
  rintro x _ ⟨rfl, hx⟩
  refine .ok (((shownAs_withoutRows hidden s).setIndex ?_).setTable hshown)
  rw [hx]
  exact h.shown d.table htable

theorem Apart.dropIndex (htable : table ∈ tables) :
    Agree (ShownAs hidden) (s.dropIndex standing table columns)
      ((s.withoutRows hidden).dropIndex standing table columns) := by
  refine h.bind_table hs htable fun t ht hshown => ?_
  have huid : t.uid = table := hs.table_uid ht
  rw [hs.indexes_shown hshown, h.foreignKeysInto hs (huid ▸ htable)]
  refine Agree.bind_same fun x _ => ?_
  have hrest := ((shownAs_withoutRows hidden s).erase x.uid).setTable
    (t := { t with indexes := t.indexes.filter (· ≠ x.uid) }) hshown
  dsimp only
  split
  · split
    · exact .ok hrest
    · exact .error
  · exact .ok hrest

omit h in
/-- Hidden rows have no part in what an object does that names nothing that they are linked with. -/
theorem Apart.install {object : LogObject} (h : s.Apart hidden object.tables)
    (huid : hidden uid = false) :
    Agree (ShownAs hidden) (s.install standing uid object)
      ((s.withoutRows hidden).install standing uid object) := by
  cases object with
  | newTable name => exact createTable_shown huid
  | newColumn name type table => exact h.createColumn hs List.mem_cons_self
  | record table fields => exact h.insertRow hs List.mem_cons_self
  | update table fields row => exact h.updateRow hs List.mem_cons_self
  | delete table row => exact h.deleteRow hs List.mem_cons_self
  | alter table column name type =>
    cases column with
    | none => exact h.renameTable hs List.mem_cons_self
    | some column => exact h.alterColumn hs List.mem_cons_self
  | drop target parent =>
    cases parent with
    | none => exact h.dropTable hs List.mem_cons_self
    | some table => exact h.dropColumn hs (List.mem_cons_of_mem _ List.mem_cons_self)
  | newIndex d =>
    exact h.createIndex hs List.mem_cons_self fun target htarget =>
      List.mem_cons_of_mem _ (Option.mem_toList.2 htarget)
  | dropIndex table columns => exact h.dropIndex hs List.mem_cons_self

end

end SnapshotStore.Snapshot
