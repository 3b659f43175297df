import SnapshotStore.Proofs.Snapshot.Matching

/-!
# Foreign keys

Every foreign key refers to a table that has a primary index over as many columns, and all its keys
stand in that index. A row that comes or changes is checked against the primary index as it is
afterwards, and a primary key that goes is used by no foreign key, neither by one whose tree was
changed before nor by one whose turn is still to come.
-/

namespace SnapshotStore.Snapshot

/-- A table has at most one primary index. -/
def OnePrimary (s : Snapshot) : Prop :=
  ∀ u v x y, s.get? u = some (.index x) → s.get? v = some (.index y) → x.definition.primary →
    y.definition.primary → x.definition.table = y.definition.table → u = v

/-- The primary index of a table that a foreign key refers to. -/
structure Target (P : Value → Prop) (x y : Index) : Prop where
  references : x.definition.references = some y.definition.table
  primary : y.definition.primary
  width : y.definition.columns.length = x.definition.columns.length
  holds : ∀ {key n}, KeyOn P key → x.tree.Holds key n → ∃ m, y.tree.Holds key m

structure Referential (P : Value → Prop) (s : Snapshot) : Prop where
  one : OnePrimary s
  target : ∀ {u x}, s.get? u = some (.index x) → x.definition.references.isSome →
    ∃ v y, s.get? v = some (.index y) ∧ Target P x y

variable {P : Value → Prop} {bound more : Nat} {s s' m : Snapshot} {standing : Standing}
  {u v uid : Uid} {t : Table} {x y : Index} {object : LogObject}

theorem referential_empty (name : String) : Referential P (empty name) :=
  ⟨fun _ _ _ _ h => (nomatch h), fun h => (nomatch h)⟩

/-- The primary index of a table is found as such. -/
theorem Catalogued.primaryIndex?_eq (h : Catalogued bound s) (hone : OnePrimary s)
    (hy : s.get? v = some (.index y)) (hprimary : y.definition.primary) :
    s.primaryIndex? y.definition.table = some y := by
  cases hfind : s.primaryIndex? y.definition.table with
  | none => exact absurd hprimary (List.find?_eq_none.1 hfind y (h.mem_indexes_of_get? hy))
  | some found =>
    obtain ⟨htable, w, hw⟩ := h.get?_of_mem_indexes (List.mem_of_find?_eq_some hfind)
    have heq := hone _ _ _ _ hw hy (primaryIndex?_eq_some hfind).1 hprimary htable
    rw [heq, hy] at hw
    cases hw
    rfl

theorem ensureMatched_eq_ok {key : List Value} {target : Uid}
    (hreferences : x.definition.references = some target) (h : s.ensureMatched x key = .ok ()) :
    ∃ primary, s.primaryIndex? target = some primary ∧ primary.tree.contains key := by
  rw [ensureMatched, hreferences] at h
  exact (Option.any_eq_true _ _).1 (ensure_eq_ok.1 h)

theorem lostKey?_eq_some {old : Row} {new : Option Row}
    (h : ¬ ∃ r, new = some r ∧ SameKey (x.definition.keyOf old) (x.definition.keyOf r)) :
    x.lostKey? (some old) new = some (x.definition.keyOf old) := by
  refine Option.filter_eq_some_iff.2 ⟨rfl, ?_⟩
  cases new with
  | none => rfl
  | some r =>
    rw [Option.map_some, Option.any_some, Bool.not_eq_true']
    exact Bool.eq_false_iff.2 fun hsame => h ⟨r, rfl, Value.sameKey_iff.1 hsame⟩

theorem OnePrimary.of_same (h : OnePrimary s)
    (hindexes : ∀ u x', s'.get? u = some (.index x') →
      ∃ x, s.get? u = some (.index x) ∧ x'.definition = x.definition) : OnePrimary s' := by
  intro u v x' y' hx' hy' hx'primary hy'primary htable
  obtain ⟨x, hx, hxdefinition⟩ := hindexes u x' hx'
  obtain ⟨y, hy, hydefinition⟩ := hindexes v y' hy'
  rw [hxdefinition] at hx'primary htable
  rw [hydefinition] at hy'primary htable
  exact h u v x y hx hy hx'primary hy'primary htable

/-! ### Trees that stay -/

/-- Indexes may go, but a primary index only if no foreign key refers to its table. -/
theorem Referential.of_same (h : Referential P s)
    (hback : ∀ u x, s'.get? u = some (.index x) → s.get? u = some (.index x))
    (hforth : ∀ u v x y, s'.get? u = some (.index x) → s.get? v = some (.index y) →
      x.definition.references = some y.definition.table → y.definition.primary →
      s'.get? v = some (.index y)) : Referential P s' := by
  constructor
  · exact h.one.of_same fun u x hx => ⟨x, hback u x hx, rfl⟩
  · intro u x hx hreferences
    obtain ⟨v, y, hy, htarget⟩ := h.target (hback u x hx) hreferences
    exact ⟨v, y, hforth u v x y hx hy htarget.references htarget.primary, htarget⟩

/-- All indexes stay. -/
theorem Referential.of_iff (h : Referential P s)
    (hsame : ∀ u x, s'.get? u = some (.index x) ↔ s.get? u = some (.index x)) : Referential P s' :=
  h.of_same (fun u x => (hsame u x).1) fun _ v _ y _ hy _ _ => (hsame v y).2 hy

theorem get?_set_iff {item : CatalogItem} (hitems : s.items.Lawful) (hitem : ∀ y, item ≠ .index y)
    (hold : ∀ y, s.get? uid ≠ some (.index y)) :
    (s.set uid item).get? u = some (.index x) ↔ s.get? u = some (.index x) := by
  rw [get?_set hitems]
  split
  · next heq =>
    subst heq
    exact ⟨fun h => absurd (Option.some.inj h) (hitem x), fun h => absurd h (hold x)⟩
  · exact Iff.rfl

theorem get?_setTable_iff (hitems : s.items.Lawful) (hold : ∀ y, s.get? t.uid ≠ some (.index y)) :
    (s.setTable t).get? u = some (.index x) ↔ s.get? u = some (.index x) :=
  get?_set_iff hitems (fun _ heq => (nomatch heq)) hold

theorem ne_index_of_table (ht : s.table? u = some t) (y : Index) : s.get? u ≠ some (.index y) := by
  rw [table?_eq_some.1 ht]
  exact fun h => (nomatch h)

theorem Referential.createTable {name : String} (h : Referential P s) (hs : Catalogued bound s)
    (hfresh : bound ≤ uid.place) (hinstall : s.createTable uid name = .ok s') :
    Referential P s' := by
  obtain ⟨_, rfl⟩ := createTable_eq_ok.1 hinstall
  have hitems : ({ s with names := s.names.insert name uid } : Snapshot).items.Lawful := hs.items
  refine h.of_iff fun u x => get?_setTable_iff hitems fun y hy => ?_
  have hnone : s.get? uid = some (.index y) := hy
  rw [hs.get?_fresh hfresh] at hnone
  cases hnone

theorem Referential.createColumn {name : String} {type : DataType} {table : Uid}
    (h : Referential P s) (hs : Catalogued bound s) (hfresh : bound ≤ uid.place)
    (hinstall : s.createColumn standing uid name type table = .ok s') : Referential P s' := by
  obtain ⟨t, ht, _, rfl⟩ := createColumn_eq_ok.1 hinstall
  have huid := hs.table_uid ht
  subst huid
  have hcolumn : ∀ u x, (s.set uid (.column ⟨uid, name, type, t.uid⟩)).get? u = some (.index x) ↔
      s.get? u = some (.index x) := by
    refine fun u x => get?_set_iff hs.items (fun _ heq => (nomatch heq)) fun y hy => ?_
    rw [hs.get?_fresh hfresh] at hy
    cases hy
  refine h.of_iff fun u x => (get?_setTable_iff (lawful_set hs.items) fun y hy => ?_).trans
    (hcolumn u x)
  exact ne_index_of_table ht y ((hcolumn _ y).1 hy)

theorem Referential.renameTable {table : Uid} {name : String} (h : Referential P s)
    (hs : Catalogued bound s) (hinstall : s.renameTable standing table name = .ok s') :
    Referential P s' := by
  obtain ⟨t, ht, _, rfl⟩ := renameTable_eq_ok.1 hinstall
  have huid := hs.table_uid ht
  subst huid
  have hitems :
      ({ s with names := (s.names.erase t.name).insert name t.uid } : Snapshot).items.Lawful :=
    hs.items
  exact h.of_iff fun u x => get?_setTable_iff hitems (ne_index_of_table ht)

theorem Referential.alterColumn {table column : Uid} {name : String} {type : Option DataType}
    (h : Referential P s) (hs : Catalogued bound s)
    (hinstall : s.alterColumn standing table column name type = .ok s') : Referential P s' := by
  obtain ⟨t, found, _, hfound, _, _, rfl⟩ := alterColumn_eq_ok.1 hinstall
  refine h.of_iff fun u x => get?_set_iff hs.items (fun _ heq => (nomatch heq)) fun y hy => ?_
  rw [(columnOf?_eq_some.1 hfound).1] at hy
  cases hy

theorem Referential.dropColumn {table : Uid} (h : Referential P s) (hs : Catalogued bound s)
    (hinstall : s.dropColumn standing table uid = .ok s') : Referential P s' := by
  obtain ⟨t, column, ht, hcolumn, _, rfl⟩ := dropColumn_eq_ok.1 hinstall
  have huid := hs.table_uid ht
  subst huid
  have hget := (columnOf?_eq_some.1 hcolumn).1
  have herase : ∀ u x, (s.erase uid).get? u = some (.index x) ↔ s.get? u = some (.index x) := by
    intro u x
    rw [get?_erase hs.items]
    split
    · next heq =>
      rw [heq, hget]
      exact ⟨fun hfalse => (nomatch hfalse), fun hfalse => (nomatch hfalse)⟩
    · exact Iff.rfl
  refine h.of_iff fun u x => (get?_setTable_iff (lawful_erase hs.items) fun y hy => ?_).trans
    (herase u x)
  exact ne_index_of_table ht y ((herase _ y).1 hy)

theorem Referential.dropIndex {table : Uid} {columns : List Uid} (h : Referential P s)
    (hs : Catalogued bound s) (hinstall : s.dropIndex standing table columns = .ok s') :
    Referential P s' := by
  obtain ⟨t, x, ht, hx, hfree, rfl⟩ := dropIndex_eq_ok.1 hinstall
  have huid := hs.table_uid ht
  subst huid
  obtain ⟨htable, v, hv⟩ := hs.get?_of_mem_indexes (List.mem_of_find?_eq_some hx)
  have hxuid : x.uid = v := hs.own hv
  subst hxuid
  have hset : ∀ u y, ((s.erase x.uid).setTable
          { t with indexes := t.indexes.filter (· ≠ x.uid) }).get? u = some (.index y) ↔
      u ≠ x.uid ∧ s.get? u = some (.index y) := by
    intro u y
    have herase :
        (s.erase x.uid).get? u = some (.index y) ↔ u ≠ x.uid ∧ s.get? u = some (.index y) := by
      rw [get?_erase hs.items]
      split
      · next heq => exact ⟨fun hfalse => (nomatch hfalse), fun hand => absurd heq hand.1⟩
      · next hne => exact ⟨fun hy => ⟨hne, hy⟩, And.right⟩
    refine (get?_setTable_iff (lawful_erase hs.items) fun z hz => ?_).trans herase
    exact ne_index_of_table ht z (get?_of_get?_erase hs.items hz).2
  refine h.of_same (fun u y hy => ((hset u y).1 hy).2) fun u v y z hy hz hreferences hprimary =>
    (hset v z).2 ⟨fun heq => ?_, hz⟩
  -- the index that goes would be one that a foreign key refers to
  subst heq
  rw [hv] at hz
  cases hz
  have hnone := hfree hprimary
  have hmem : y ∈ s.foreignKeysInto t.uid := (mem_foreignKeysInto hs.items).2
    ⟨⟨u, index?_eq_some.2 ((hset u y).1 hy).2⟩, htable ▸ hreferences⟩
  rw [hnone] at hmem
  cases hmem

theorem Referential.dropTable (h : Referential P s) (hs : Catalogued bound s)
    (hinstall : s.dropTable standing uid = .ok s') : Referential P s' := by
  obtain ⟨t, ht, hown, rfl⟩ := dropTable_eq_ok.1 hinstall
  have hget := table?_eq_some.1 ht
  have hdropped :
      ∀ u x, (((t.columns ++ t.indexes).foldl erase s).erase uid).get? u = some (.index x) ↔
        x.definition.table ≠ uid ∧ s.get? u = some (.index x) := by
    intro u x
    rw [get?_erase_foldl hs.items]
    constructor
    · intro hx
      split at hx
      · cases hx
      · next hgone =>
        refine ⟨fun heq => hgone (.inr ?_), hx⟩
        exact List.mem_append_right _ ((hs.mem_indexes_iff hget hx).2 heq)
    · rintro ⟨hne, hx⟩
      refine (if_neg ?_).trans hx
      rintro (rfl | hmem)
      · exact ne_index_of_table ht x hx
      · rcases List.mem_append.1 hmem with hcolumn | hindex
        · obtain ⟨c, hc, _⟩ :=
            links_eq_column ((hs.linked.mem_columns (links_of_get? hget) u).1 hcolumn)
          rw [hx] at hc
          cases hc
        · exact hne ((hs.mem_indexes_iff hget hx).1 hindex)
  refine h.of_same (fun u x hx => ((hdropped u x).1 hx).2) fun u v x y hx hy hreferences _ =>
    (hdropped v y).2 ⟨fun heq => ?_, hy⟩
  -- a foreign key into the table is its own and has gone with it
  obtain ⟨hother, hx⟩ := (hdropped u x).1 hx
  exact hother
    (hown x ((mem_foreignKeysInto hs.items).2 ⟨⟨u, index?_eq_some.2 hx⟩, heq ▸ hreferences⟩))

/-! ### Trees that are moved -/

section

variable {row : Uid} {old new : Option Row} {rows : SortedMap Uid Row} {key : List Value}
  {n : RowId}

theorem Rekeyed.index_of_later {indexes : List Uid} (h : Rekeyed row old new indexes s m)
    (hy : m.get? v = some (.index y)) :
    ∃ x, s.get? v = some (.index x) ∧ y.definition = x.definition := by
  rcases get?_of_rekeyed h v with heq | ⟨x, tree, hx, hmoved⟩
  · exact ⟨y, heq ▸ hy, rfl⟩
  · rw [hmoved] at hy
    cases hy
    exact ⟨x, hx, rfl⟩

theorem Rekeyed.index_later {indexes : List Uid} (h : Rekeyed row old new indexes s m)
    (hx : s.get? v = some (.index x)) :
    ∃ y, m.get? v = some (.index y) ∧ y.definition = x.definition := by
  rcases get?_of_rekeyed h v with heq | ⟨x', tree, hx', hmoved⟩
  · exact ⟨x, heq ▸ hx, rfl⟩
  · rw [hx] at hx'
    cases hx'
    exact ⟨_, hmoved, rfl⟩

variable (hs : Catalogued bound s) (hP : OrderedOn P) (hm : Matched P s)
  (hm' : Matched P (m.setTable { t with rows })) (ht : s.table? t.uid = some t)
  (hrekeyed : Rekeyed row old new t.indexes s m) (hold : t.rows.get? row = old)
  (hrows : ∀ v, rows.get? v = if v = row then new else t.rows.get? v)

include ht hrekeyed

theorem get?_index_iff_of_rekeyed :
    (m.setTable { t with rows }).get? v = some (.index y) ↔ m.get? v = some (.index y) :=
  get?_setTable_iff hrekeyed.lawful (ne_index_of_table ((hrekeyed.table?_eq _).trans ht))

include hm' in
theorem agrees_later (hy : m.get? v = some (.index y)) (htable : y.definition.table = t.uid) :
    y.Agrees P rows.get? := by
  refine hm'.agrees (t := { t with rows }) ((get?_index_iff_of_rekeyed ht hrekeyed).2 hy) ?_
  rw [htable]
  exact get?_set_self hrekeyed.lawful

include hm' hrows in
theorem keyOn_of_new {r : Row} (hr : new = some r) (hy : m.get? v = some (.index y))
    (htable : y.definition.table = t.uid) : KeyOn P (y.definition.keyOf r) := by
  have hrow : rows.get? row = some r := by rw [hrows, if_pos rfl, hr]
  exact (agrees_later hm' ht hrekeyed hy htable).keyOn
    (hm'.fields (t := { t with rows }) (get?_set_self hrekeyed.lawful)) hrow

include hs hm hm' hrows

/-- An index of the table holds the new row instead of the old one, and any other index what it
held. -/
theorem holds_rekeyed (hx : s.get? v = some (.index x)) (hy : m.get? v = some (.index y))
    (hkey : KeyOn P key) :
    y.tree.Holds key n ↔
      if x.definition.table = t.uid ∧ ⟨n⟩ = row then
          ∃ r, new = some r ∧ SameKey key (x.definition.keyOf r)
        else x.tree.Holds key n := by
  have hget := table?_eq_some.1 ht
  by_cases htable : x.definition.table = t.uid
  · obtain ⟨x', hx', hdefinition⟩ := hrekeyed.index_of_later hy
    rw [hx] at hx'
    cases hx'
    have hagrees := hm.agrees hx (htable ▸ hget)
    rw [hagrees.holds_exchanged (agrees_later hm' ht hrekeyed hy (hdefinition ▸ htable)) hdefinition
      hrows hkey]
    simp only [htable, true_and]
  · rw [hrekeyed.other v fun hmem => htable ((hs.mem_indexes_iff hget hx).1 hmem), hx] at hy
    cases hy
    rw [if_neg fun hand => htable hand.1]

variable (hs' : Catalogued more (m.setTable { t with rows })) (hone : OnePrimary m)
include hs' hone hP

omit hm in
/-- The new row refers to keys that are there. -/
theorem holds_of_new {r : Row} {x' y' : Index} (hrekey : s.rekey t row old new = .ok m)
    (hr : new = some r) (hx' : m.get? u = some (.index x')) (hy' : m.get? v = some (.index y'))
    (htable : x'.definition.table = t.uid)
    (hreferences : x'.definition.references = some y'.definition.table)
    (hprimary : y'.definition.primary)
    (hwidth : y'.definition.columns.length = x'.definition.columns.length) (hkey : KeyOn P key)
    (hsame : SameKey key (x'.definition.keyOf r)) : ∃ k, y'.tree.Holds key k := by
  have hlater := hs.of_rekeyed hrekeyed
  obtain ⟨primary, hfound, hcontains⟩ :=
    ensureMatched_eq_ok hreferences ((rekey_eq_ok hrekey).2 r hr x'
      (htable ▸ hlater.mem_indexes_of_get? hx'))
  rw [hlater.primaryIndex?_eq hone hy' hprimary] at hfound
  cases hfound
  have hother := keyOn_of_new hm' ht hrekeyed hrows hr hx' htable
  obtain ⟨_, _, hagrees⟩ := hm'.agrees_of_index hs' ((get?_index_iff_of_rekeyed ht hrekeyed).2 hy')
  obtain ⟨k, hk⟩ :=
    (hagrees.contains_iff hP hother (by rw [hwidth]; exact List.length_map _)).1 hcontains
  exact ⟨k, (Level.holds_congr hP hagrees.valid hkey hother hsame).2 hk⟩

omit hone in
include hold in
/-- A key that stays in a foreign key stays in the primary index. -/
theorem holds_of_old {x' y' : Index} (hx : s.get? u = some (.index x))
    (hx' : m.get? u = some (.index x')) (hy : s.get? v = some (.index y))
    (hy' : m.get? v = some (.index y')) (htarget : Target P x y) (hkey : KeyOn P key)
    (hheld : x.tree.Holds key n) (hlater : x'.tree.Holds key n) : ∃ k, y'.tree.Holds key k := by
  obtain ⟨k, hk⟩ := htarget.holds hkey hheld
  by_cases hmoved : y.definition.table = t.uid ∧ ⟨k⟩ = row
  · obtain ⟨htable, hrow⟩ := hmoved
    have hget := table?_eq_some.1 ht
    have hagrees := hm.agrees hy (htable ▸ hget)
    obtain ⟨o, ho, hsame⟩ := (hagrees.holds key k hkey).1 hk
    have hother := hagrees.keyOn (hm.fields hget) ho
    by_cases hstays : ∃ r, new = some r ∧ SameKey (y.definition.keyOf o) (y.definition.keyOf r)
    · obtain ⟨r, hr, hsame'⟩ := hstays
      obtain ⟨y₀, hy₀, hdefinition⟩ := hrekeyed.index_of_later hy'
      rw [hy] at hy₀
      cases hy₀
      have hstayed := keyOn_of_new hm' ht hrekeyed hrows hr hy' (hdefinition ▸ htable)
      rw [hdefinition] at hstayed
      exact ⟨k, (holds_rekeyed hs hm hm' ht hrekeyed hrows hy hy' hkey).2
        ((if_pos ⟨htable, hrow⟩).mpr ⟨r, hr, hsame.trans hP hkey hother hstayed hsame'⟩)⟩
    · -- the old key goes, so that it is not used
      rw [hrow, hold] at ho
      subst ho
      have hunused :=
        hrekeyed.unused v ((hs.mem_indexes_iff hget hy).2 htable) y (index?_eq_some.2 hy)
        htarget.primary _ (lostKey?_eq_some hstays) u x (index?_eq_some.2 hx) htarget.references
      obtain ⟨_, _, hxagrees⟩ := hm.agrees_of_index hs hx
      obtain ⟨_, _, hxagrees'⟩ :=
        hm'.agrees_of_index hs' ((get?_index_iff_of_rekeyed ht hrekeyed).2 hx')
      rcases hunused with hfree | ⟨g, hg, hfree⟩
      · rw [CompositeIndex.contains_of_holds hP hxagrees.valid hkey hother hheld hsame] at hfree
        cases hfree
      · rw [index?_eq_some, hx'] at hg
        cases hg
        rw [CompositeIndex.contains_of_holds hP hxagrees'.valid hkey hother hlater hsame] at hfree
        cases hfree
  · exact ⟨k, (holds_rekeyed hs hm hm' ht hrekeyed hrows hy hy' hkey).2 ((if_neg hmoved).mpr hk)⟩

end

theorem Referential.setRows {row : Uid} {old new : Option Row} {rows : SortedMap Uid Row}
    (h : Referential P s) (hs : Catalogued bound s)
    (hs' : Catalogued more (m.setTable { t with rows })) (hm : Matched P s)
    (hm' : Matched P (m.setTable { t with rows })) (hP : OrderedOn P) (ht : s.table? u = some t)
    (hrekey : s.rekey t row old new = .ok m) (hold : t.rows.get? row = old)
    (hrows : ∀ v, rows.get? v = if v = row then new else t.rows.get? v) :
    Referential P (m.setTable { t with rows }) := by
  have huid := hs.table_uid ht
  subst huid
  have hrekeyed := hs.rekeyed (table?_eq_some.1 ht) hrekey
  have hsame :
      ∀ {v y}, (m.setTable { t with rows }).get? v = some (.index y) ↔ m.get? v = some (.index y) :=
    get?_index_iff_of_rekeyed ht hrekeyed
  have hone : OnePrimary m := h.one.of_same fun _ _ hy => hrekeyed.index_of_later hy
  refine ⟨hone.of_same fun v y hy => ⟨y, hsame.1 hy, rfl⟩, fun {w x'} hx' hreferences => ?_⟩
  have hx' := hsame.1 hx'
  obtain ⟨x, hx, hxdefinition⟩ := hrekeyed.index_of_later hx'
  obtain ⟨v, y, hy, htarget⟩ := h.target hx (hxdefinition ▸ hreferences)
  obtain ⟨y', hy', hydefinition⟩ := hrekeyed.index_later hy
  have hdefined : x'.definition.references = some y'.definition.table ∧ y'.definition.primary ∧
      y'.definition.columns.length = x'.definition.columns.length := by
    rw [hxdefinition, hydefinition]
    exact ⟨htarget.references, htarget.primary, htarget.width⟩
  obtain ⟨hreferences, hprimary, hwidth⟩ := hdefined
  refine ⟨v, y', hsame.2 hy', hreferences, hprimary, hwidth, fun {key n} hkey hholds => ?_⟩
  have hcases := (holds_rekeyed hs hm hm' ht hrekeyed hrows hx hx' hkey).1 hholds
  split at hcases
  · next hmoved =>
    obtain ⟨r, hr, hsameKey⟩ := hcases
    rw [← hxdefinition] at hmoved hsameKey
    exact holds_of_new hs hP hm' ht hrekeyed hrows hs' hone hrekey hr hx' hy' hmoved.1 hreferences
      hprimary hwidth hkey hsameKey
  · exact holds_of_old hs hP hm hm' ht hrekeyed hold hrows hs' hx hx' hy hy' htarget hkey hcases
      hholds

/-! ### Indexes that come -/

/-- The keys that have been taken into an index were all checked. -/
theorem matched_of_indexRow {d : IndexDefinition} {target : Uid} {list : List Row} {start : Index}
    (hdefinition : start.definition = d) (hreferences : d.references = some target)
    (hfold : list.foldlM (s.indexRow d) start = .ok x) :
    ∀ r ∈ list,
      ∃ primary, s.primaryIndex? target = some primary ∧ primary.tree.contains (d.keyOf r) := by
  induction list generalizing start with
  | nil => exact fun _ hr => absurd hr List.not_mem_nil
  | cons r list ih =>
    rw [List.foldlM_cons] at hfold
    obtain ⟨z, hz, hfold⟩ := bind_eq_ok.1 hfold
    obtain ⟨_, hmatched, hz⟩ := bind_eq_ok.1 hz
    obtain ⟨tree, _, rfl⟩ := addKey_eq_ok hz
    exact List.forall_mem_cons.2 ⟨ensureMatched_eq_ok (hdefinition ▸ hreferences) hmatched,
      ih (show ({ start with tree } : Index).definition = d from hdefinition) hfold⟩

/-- A new foreign key has its target. -/
theorem target_of_new {d : IndexDefinition} {target : Uid} {start : Index} (hs : Catalogued bound s)
    (hm : Matched P s) (hP : OrderedOn P) (ht : s.get? d.table = some (.table t))
    (hagrees : x.Agrees P t.rows.get?) (hx : x.definition = d) (hstart : start.definition = d)
    (hreferences : d.references = some target) (htarget : s.HasTarget d target)
    (hfold : t.rows.values.foldlM (s.indexRow d) start = .ok x) :
    ∃ v y, s.get? v = some (.index y) ∧ Target P x y := by
  obtain ⟨_, y, _, hfound, hwidth⟩ := htarget
  obtain ⟨htable, v, hy⟩ := hs.get?_of_mem_indexes (List.mem_of_find?_eq_some hfound)
  rw [← hx] at hreferences hwidth
  refine ⟨v, y, hy, ?_, (primaryIndex?_eq_some hfound).1, hwidth, fun {key n} hkey hholds => ?_⟩
  · rw [htable]
    exact hreferences
  · obtain ⟨r, hr, hsame⟩ := (hagrees.holds key n hkey).1 hholds
    have hother := hagrees.keyOn (hm.fields ht) hr
    obtain ⟨primary, hprimary, hcontains⟩ :=
      matched_of_indexRow hstart (hx ▸ hreferences) hfold r
        ((hs.rows ht).lawful.mem_values_iff.2 ⟨_, hr⟩)
    rw [hfound] at hprimary
    cases hprimary
    obtain ⟨_, _, hyagrees⟩ := hm.agrees_of_index hs hy
    obtain ⟨k, hk⟩ :=
      (hyagrees.contains_iff hP (hx ▸ hother) (by rw [hwidth, hx]; exact List.length_map _)).1
      hcontains
    exact ⟨k, (Level.holds_congr hP hyagrees.valid hkey hother hsame).2 (hx ▸ hk)⟩

/-- A new index comes to those that are there. -/
theorem get?_index_added {t' : Table} (hitems : s.items.Lawful) (hnone : s.get? uid = none)
    (ht : s.get? t'.uid = some (.table t)) :
    ((s.set uid (.index x)).setTable t').get? v = some (.index y) ↔
      v = uid ∧ y = x ∨ s.get? v = some (.index y) := by
  refine (get?_setTable_iff (lawful_set hitems) fun z hz => ?_).trans ?_
  · rw [get?_set hitems, ht] at hz
    split at hz
    · next heq =>
      rw [heq, hnone] at ht
      cases ht
    · cases hz
  · rw [get?_set hitems]
    split
    · next heq =>
      rw [heq, hnone]
      exact ⟨fun hy => .inl ⟨rfl, (CatalogItem.index.inj (Option.some.inj hy)).symm⟩,
        fun hor => hor.elim (fun hand => by rw [hand.2]) fun hfalse => (nomatch hfalse)⟩
    · next hne => exact ⟨.inr, fun hor => hor.elim (fun hand => absurd hand.1 hne) id⟩

theorem Referential.createIndex {d : IndexDefinition} (h : Referential P s)
    (hs : Catalogued bound s) (hm : Matched P s) (hm' : Matched P s') (hP : OrderedOn P)
    (hfresh : bound ≤ uid.place) (hinstall : s.createIndex standing uid d = .ok s') :
    Referential P s' := by
  obtain ⟨t, tree, x, ht, _, _, hprimary, _, htarget, _, hfold, rfl⟩ := createIndex_eq_ok.1 hinstall
  obtain ⟨hxuid, hxdefinition⟩ := indexRow_fold hfold
  have htable := table?_eq_some.1 ht
  have huid : t.uid = d.table := hs.table_uid ht
  have hset : s.setIndex x = s.set uid (.index x) := by rw [setIndex, hxuid]
  rw [hset] at hm' ⊢
  have hget : ∀ {v y}, ((s.set uid (.index x)).setTable
          { t with indexes := t.indexes ++ [uid] }).get? v = some (.index y) ↔
      v = uid ∧ y = x ∨ s.get? v = some (.index y) :=
    get?_index_added hs.items (hs.get?_fresh hfresh) (huid ▸ htable)
  have hother : ∀ {v y}, s.get? v = some (.index y) → d.primary → y.definition.primary →
      y.definition.table ≠ d.table := by
    intro v y hy hd hyprimary heq
    have hmem := hs.mem_indexes_of_get? hy
    rw [heq, ← huid] at hmem
    rw [hprimary hd y hmem] at hyprimary
    cases hyprimary
  constructor
  · intro v w y z hy hz hyprimary hzprimary heq
    rcases hget.1 hy with ⟨rfl, rfl⟩ | hyold
    · rcases hget.1 hz with ⟨rfl, rfl⟩ | hzold
      · rfl
      · rw [hxdefinition] at heq hyprimary
        exact absurd heq.symm (hother hzold hyprimary hzprimary)
    · rcases hget.1 hz with ⟨rfl, rfl⟩ | hzold
      · rw [hxdefinition] at heq hzprimary
        exact absurd heq (hother hyold hzprimary hyprimary)
      · exact h.one v w y z hyold hzold hyprimary hzprimary heq
  · intro v y hy hreferences
    rcases hget.1 hy with ⟨rfl, rfl⟩ | hyold
    · obtain ⟨target, hreferences⟩ := Option.isSome_iff_exists.1 hreferences
      rw [hxdefinition] at hreferences
      have hagrees : y.Agrees P t.rows.get? := by
        refine hm'.agrees (t := { t with indexes := t.indexes ++ [v] }) hy ?_
        rw [hxdefinition, show d.table = t.uid from huid.symm]
        exact get?_set_self (lawful_set hs.items)
      obtain ⟨w, z, hz, hzy⟩ := target_of_new hs hm hP htable hagrees hxdefinition rfl hreferences
        (htarget target hreferences) hfold
      exact ⟨w, z, hget.2 (.inr hz), hzy⟩
    · obtain ⟨w, z, hz, hzy⟩ := h.target hyold hreferences
      exact ⟨w, z, hget.2 (.inr hz), hzy⟩

/-! ### Objects -/

theorem Referential.install (h : Referential P s) (hs : Catalogued bound s) (hm : Matched P s)
    (hP : OrderedOn P) (hfresh : bound ≤ uid.place) (hvalues : object.ValuesIn P)
    (hinstall : s.install standing uid object = .ok s') : Referential P s' := by
  have hs' := hs.install hfresh hinstall
  have hm' := hm.install hs hP hfresh hvalues hinstall
  cases object with
  | newTable name => exact h.createTable hs hfresh hinstall
  | newColumn name type table => exact h.createColumn hs hfresh hinstall
  | record table fields =>
    obtain ⟨t, m, ht, _, hrekey, rfl⟩ := insertRow_eq_ok.1 hinstall
    have hrows := hs.rows (table?_eq_some.1 ht)
    exact h.setRows hs hs' hm hm' hP ht hrekey (hrows.get?_fresh hfresh)
      (hrows.lawful.get?_insert uid _)
  | update table fields row =>
    obtain ⟨t, old, m, ht, hold, _, hrekey, rfl⟩ := updateRow_eq_ok.1 hinstall
    exact h.setRows hs hs' hm hm' hP ht hrekey hold
      ((hs.rows (table?_eq_some.1 ht)).lawful.get?_insert row _)
  | delete table row =>
    obtain ⟨t, old, m, ht, hold, hrekey, rfl⟩ := deleteRow_eq_ok.1 hinstall
    exact h.setRows hs hs' hm hm' hP ht hrekey hold
      ((hs.rows (table?_eq_some.1 ht)).lawful.get?_erase row)
  | alter table column name type =>
    cases column with
    | none => exact h.renameTable hs hinstall
    | some column => exact h.alterColumn hs hinstall
  | drop target parent =>
    cases parent with
    | none => exact h.dropTable hs hinstall
    | some table => exact h.dropColumn hs hinstall
  | newIndex definition => exact h.createIndex hs hm hm' hP hfresh hinstall
  | dropIndex table columns => exact h.dropIndex hs hinstall

theorem Builds.referential {first last : Nat} {objects : List (Uid × LogObject)}
    (hbuilds : Builds first s objects last s') (h : Referential P s) (hs : Catalogued first s)
    (hm : Matched P s) (hP : OrderedOn P) (hvalues : ∀ o ∈ objects, o.2.ValuesIn P) :
    Referential P s' := by
  induction hbuilds with
  | refl => exact h
  | step hbuilds hfresh _ hinstall position ih =>
    have hearlier := fun o ho => hvalues o (List.mem_append_left _ ho)
    have hmid := (ih hearlier).install (hbuilds.catalogued hs) (hbuilds.matched hm hs hP hearlier)
      hP hfresh (hvalues _ (List.mem_append_right _ (List.mem_singleton.2 rfl))) hinstall
    exact ⟨hmid.one, hmid.target⟩

end SnapshotStore.Snapshot
