import SnapshotStore.Proofs.Snapshot.Referential

/-!
# Primary indexes come before what refers to them

A foreign key of a table to itself is defined after the primary index of the table, which stays as
long as it is referred to. So in the list of the table's indexes the primary one stands in front of
it, and as they are changed in this order, the primary index meets the foreign key as it was.
-/

namespace SnapshotStore.Snapshot

/-- No index refers to the table of a primary index that stands behind it. -/
def PrimaryFirst (s : Snapshot) (indexes : List Uid) : Prop :=
  indexes.Pairwise fun u v => ∀ x y, s.index? u = some x → s.index? v = some y →
    y.definition.primary → x.definition.references ≠ some y.definition.table

/-- Every table lists its indexes in this order. -/
def KeyOrdered (s : Snapshot) : Prop :=
  ∀ u t, s.get? u = some (.table t) → s.PrimaryFirst t.indexes

variable {P : Value → Prop} {bound : Nat} {s s' : Snapshot} {standing : Standing} {u uid : Uid}
  {t t' : Table} {object : LogObject}

theorem keyOrdered_empty (name : String) : KeyOrdered (empty name) :=
  fun _ _ h => (nomatch h)

/-- The order says nothing about the trees. -/
theorem PrimaryFirst.of_definitions {indexes : List Uid} (h : s.PrimaryFirst indexes)
    (hkept : ∀ u ∈ indexes, ∀ y, s'.index? u = some y →
      ∃ x, s.index? u = some x ∧ y.definition = x.definition) : s'.PrimaryFirst indexes := by
  refine h.imp_of_mem fun {u v} hu hv hfirst x' y' hx' hy' hprimary => ?_
  obtain ⟨x, hx, hxdefinition⟩ := hkept u hu x' hx'
  obtain ⟨y, hy, hydefinition⟩ := hkept v hv y' hy'
  rw [hydefinition] at hprimary ⊢
  rw [hxdefinition]
  exact hfirst x y hx hy hprimary

/-! ### Lists that do not grow -/

/-- A table lists nothing but indexes that it had before. -/
def ListsNoMore (s : Snapshot) (u : Uid) (t' : Table) : Prop :=
  t'.indexes = [] ∨ ∃ t, s.get? u = some (.table t) ∧ t'.indexes.Sublist t.indexes

theorem listsNoMore_self (ht : s.get? u = some (.table t)) : s.ListsNoMore u t :=
  .inr ⟨t, ht, List.Sublist.refl _⟩

theorem Catalogued.listsNoMore_setTable {changed : Table} {table : Uid} {m : Snapshot}
    (h : Catalogued bound s) (ht' : (m.setTable changed).get? u = some (.table t'))
    (hm : m.items.Lawful) (ht : s.table? table = some t) (huid : changed.uid = t.uid)
    (hsublist : changed.indexes.Sublist t.indexes)
    (hback : ∀ v found, m.get? v = some (.table found) → s.get? v = some (.table found)) :
    s.ListsNoMore u t' := by
  rcases get?_setTable_cases hm ht' with ⟨heq, hset⟩ | ⟨_, hold⟩
  · cases hset
    rw [heq, huid, h.table_uid ht]
    exact .inr ⟨t, table?_eq_some.1 ht, hsublist⟩
  · exact listsNoMore_self (hback u t' hold)

theorem Catalogued.listsNoMore_setRows {table row : Uid} {old new : Option Row}
    {rows : SortedMap Uid Row} {m : Snapshot} (h : Catalogued bound s)
    (ht' : (m.setTable { t with rows }).get? u = some (.table t')) (ht : s.table? table = some t)
    (hrekey : s.rekey t row old new = .ok m) : s.ListsNoMore u t' := by
  have hrekeyed := h.rekeyed (table?_eq_some.1 ht) hrekey
  refine h.listsNoMore_setTable ht' hrekeyed.lawful ht rfl (List.Sublist.refl _)
    fun v found hv => ?_
  rcases get?_of_rekeyed hrekeyed v with heq | ⟨x, tree, _, hx⟩
  · rw [← heq, hv]
  · rw [hx] at hv
    cases hv

/-- Only a new index makes the list of a table longer. -/
theorem Catalogued.listsNoMore_install (h : Catalogued bound s)
    (hobject : ∀ d, object ≠ .newIndex d) (hinstall : s.install standing uid object = .ok s')
    (ht' : s'.get? u = some (.table t')) : s.ListsNoMore u t' := by
  cases object with
  | newTable name =>
    obtain ⟨_, rfl⟩ := createTable_eq_ok.1 hinstall
    have hitems : ({ s with names := s.names.insert name uid } : Snapshot).items.Lawful := h.items
    rcases get?_setTable_cases hitems ht' with ⟨_, hnew⟩ | ⟨_, hold⟩
    · cases hnew
      exact .inl rfl
    · exact listsNoMore_self hold
  | newColumn name type table =>
    obtain ⟨t, ht, _, rfl⟩ := createColumn_eq_ok.1 hinstall
    refine h.listsNoMore_setTable ht' (lawful_set h.items) ht rfl (List.Sublist.refl _)
      fun v found hv => ?_
    rcases get?_set_cases h.items hv with ⟨_, hfalse⟩ | ⟨_, hold⟩
    · cases hfalse
    · exact hold
  | record table fields =>
    obtain ⟨_, _, ht, _, hrekey, rfl⟩ := insertRow_eq_ok.1 hinstall
    exact h.listsNoMore_setRows ht' ht hrekey
  | update table fields row =>
    obtain ⟨_, _, _, ht, _, _, hrekey, rfl⟩ := updateRow_eq_ok.1 hinstall
    exact h.listsNoMore_setRows ht' ht hrekey
  | delete table row =>
    obtain ⟨_, _, _, ht, _, hrekey, rfl⟩ := deleteRow_eq_ok.1 hinstall
    exact h.listsNoMore_setRows ht' ht hrekey
  | alter table column name type =>
    cases column with
    | none =>
      obtain ⟨t, ht, _, rfl⟩ := renameTable_eq_ok.1 hinstall
      exact h.listsNoMore_setTable ht' h.items ht rfl (List.Sublist.refl _) fun _ _ hv => hv
    | some column =>
      obtain ⟨_, _, _, _, _, _, rfl⟩ := alterColumn_eq_ok.1 hinstall
      rcases get?_set_cases h.items ht' with ⟨_, hfalse⟩ | ⟨_, hold⟩
      · cases hfalse
      · exact listsNoMore_self hold
  | drop target parent =>
    cases parent with
    | none =>
      obtain ⟨_, _, _, rfl⟩ := dropTable_eq_ok.1 hinstall
      exact listsNoMore_self (get?_of_erase_foldl h.items ht')
    | some table =>
      obtain ⟨_, _, ht, _, _, rfl⟩ := dropColumn_eq_ok.1 hinstall
      exact h.listsNoMore_setTable ht' (lawful_erase h.items) ht rfl (List.Sublist.refl _)
        fun _ _ hv => (get?_of_get?_erase h.items hv).2
  | newIndex d => exact absurd rfl (hobject d)
  | dropIndex table columns =>
    obtain ⟨_, _, ht, _, _, rfl⟩ := dropIndex_eq_ok.1 hinstall
    exact h.listsNoMore_setTable ht' (lawful_erase h.items) ht rfl List.filter_sublist
      fun _ _ hv => (get?_of_get?_erase h.items hv).2

/-! ### The order is kept -/

/-- An index that no object has defined just now was there before. -/
theorem Catalogued.index_of_later {x' : Index} (h : Catalogued bound s)
    (hinstall : s.install standing uid object = .ok s') (hx' : s'.index? u = some x') :
    (∃ x, s.index? u = some x ∧ x'.definition = x.definition) ∨
      u = uid ∧ object = .newIndex x'.definition := by
  cases h.kept_install hinstall u _ (index?_eq_some.1 hx') with
  | index hx hkept => exact .inl ⟨_, index?_eq_some.2 hx, hkept⟩
  | new hu hmakes =>
    cases hmakes with
    | index hdefinition => exact .inr ⟨hu, hdefinition ▸ rfl⟩

/-- Where a primary index is new, nothing refers to its table yet. -/
theorem Referential.not_references_of_new {d : IndexDefinition} {x : Index} (h : Referential P s)
    (hs : Catalogued bound s) (ht : s.table? d.table = some t)
    (hnone : ∀ other ∈ s.indexes t.uid, other.definition.primary = false)
    (hx : s.index? u = some x) : x.definition.references ≠ some d.table := by
  intro hreferences
  obtain ⟨v, y, hy, htarget⟩ := h.target (index?_eq_some.1 hx) (hreferences ▸ rfl)
  have htable : y.definition.table = t.uid := by
    rw [hs.table_uid ht]
    exact Option.some.inj (htarget.references.symm.trans hreferences)
  have hprimary := htarget.primary
  rw [hnone y (htable ▸ hs.mem_indexes_of_get? hy)] at hprimary
  cases hprimary

theorem KeyOrdered.createIndex {d : IndexDefinition} (h : KeyOrdered s) (hs : Catalogued bound s)
    (hr : Referential P s) (hfresh : bound ≤ uid.place)
    (hinstall : s.createIndex standing uid d = .ok s') : KeyOrdered s' := by
  have hlater : ∀ {v y}, s'.index? v = some y →
      (∃ x, s.index? v = some x ∧ y.definition = x.definition) ∨
        v = uid ∧ LogObject.newIndex d = .newIndex y.definition :=
    hs.index_of_later (show s.install standing uid (.newIndex d) = .ok s' from hinstall)
  have hold : ∀ {v y}, v ≠ uid → s'.index? v = some y →
      ∃ x, s.index? v = some x ∧ y.definition = x.definition :=
    fun hv hy => (hlater hy).resolve_right fun hnew => hv hnew.1
  have hlisted : ∀ {v t₀}, s.get? v = some (.table t₀) → s'.PrimaryFirst t₀.indexes ∧
      uid ∉ t₀.indexes := by
    intro v t₀ ht₀
    have hnew : uid ∉ t₀.indexes := fun hmem => by
      obtain ⟨d, hd, _⟩ := (hs.linked.mem_indexes (links_of_get? ht₀) uid).1 hmem
      rw [links, hs.get?_fresh hfresh] at hd
      cases hd
    exact ⟨(h v t₀ ht₀).of_definitions fun w hw y hy => hold (fun heq => hnew (heq ▸ hw)) hy, hnew⟩
  obtain ⟨t, _, x, ht, _, _, hprimary, _, _, _, _, rfl⟩ := createIndex_eq_ok.1 hinstall
  intro u t' ht'
  have hitems : (s.setIndex x).items.Lawful := lawful_set hs.items
  rcases get?_setTable_cases hitems ht' with ⟨_, hset⟩ | ⟨_, hset⟩
  · cases hset
    obtain ⟨hfront, hnew⟩ := hlisted (table?_eq_some.1 ht)
    refine List.pairwise_append.2 ⟨hfront, List.pairwise_singleton .., fun v hv w hw => ?_⟩
    rw [List.mem_singleton.1 hw]
    intro found last hfound hlast hlastPrimary
    obtain ⟨y, hy, hydefinition⟩ := hold (fun heq => hnew (heq ▸ hv)) hfound
    have hdefinition : last.definition = d := by
      rcases hlater hlast with ⟨z, hz, _⟩ | ⟨_, heq⟩
      · rw [index?_eq_some, hs.get?_fresh hfresh] at hz
        cases hz
      · exact (LogObject.newIndex.inj heq).symm
    rw [hdefinition] at hlastPrimary ⊢
    rw [hydefinition]
    exact hr.not_references_of_new hs ht (hprimary hlastPrimary) hy
  · rcases get?_set_cases hs.items hset with ⟨_, hfalse⟩ | ⟨_, hkept⟩
    · cases hfalse
    · exact (hlisted hkept).1

theorem KeyOrdered.install (h : KeyOrdered s) (hs : Catalogued bound s) (hr : Referential P s)
    (hfresh : bound ≤ uid.place) (hinstall : s.install standing uid object = .ok s') :
    KeyOrdered s' := by
  by_cases hobject : ∃ d, object = .newIndex d
  · obtain ⟨d, rfl⟩ := hobject
    exact h.createIndex hs hr hfresh hinstall
  · intro u t' ht'
    rcases hs.listsNoMore_install (fun d heq => hobject ⟨d, heq⟩) hinstall ht' with
      hnil | ⟨t, ht, hsublist⟩
    · rw [hnil]
      exact List.Pairwise.nil
    · have hlisted : s.PrimaryFirst t'.indexes := (h u t ht).sublist hsublist
      refine hlisted.of_definitions fun v _ x' hx' => ?_
      exact (hs.index_of_later hinstall hx').resolve_right fun hnew => hobject ⟨_, hnew.2⟩

theorem KeyOrdered.endingAt (h : KeyOrdered s) (position : Nat) :
    KeyOrdered (s.endingAt position) := h

theorem Builds.keyOrdered {first last : Nat} {objects : List (Uid × LogObject)}
    (hbuilds : Builds first s objects last s') (h : KeyOrdered s) (hs : Catalogued first s)
    (hr : Referential P s) (hm : Matched P s) (hP : OrderedOn P)
    (hvalues : ∀ o ∈ objects, o.2.ValuesIn P) : KeyOrdered s' := by
  induction hbuilds with
  | refl => exact h
  | step hbuilds hfresh _ hinstall position ih =>
    have hearlier := fun o ho => hvalues o (List.mem_append_left _ ho)
    have hmid := hbuilds.referential hr hs hm hP hearlier
    exact ((ih hearlier).install (hbuilds.catalogued hs) hmid hfresh hinstall).endingAt position

end SnapshotStore.Snapshot
