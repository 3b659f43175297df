import SnapshotStore.Proofs.Index.Acceptance
import SnapshotStore.Proofs.Snapshot.KeyOrder
import SnapshotStore.Proofs.Snapshot.Rows

/-!
# When a change of a row is accepted

The checks of a change run index by index, while the trees are being changed already. They amount to
rules about the rows before and after the change: no key of the new row has a null, no other row has
its primary key, the keys that it refers to are those of rows, and a primary key that goes was
referred to by nothing.
-/

namespace SnapshotStore

variable {P : Value → Prop} {u : Uid} {x : Index} {rows : Uid → Option Row} {r : Row}
  {old new : Option Row}

/-! ### Moving a row in one index -/

/-- What an index asks of a new row. -/
def Index.Admits (x : Index) (rows : Uid → Option Row) (u : Uid) (r : Row) : Prop :=
  (∀ value ∈ x.definition.keyOf r, value.isNull = false) ∧
    (x.definition.primary → ∀ v other, v ≠ u → rows v = some other →
      ¬ SameKey (x.definition.keyOf r) (x.definition.keyOf other))

namespace Index.Agrees

theorem length_keyOf (h : x.Agrees P rows) (r : Row) :
    (x.definition.keyOf r).length = x.tree.columns.length := by
  rw [h.columns, IndexDefinition.length_keyColumns]
  exact List.length_map _

theorem primary_of_refusesDuplicates (h : x.Agrees P rows) (hrefuses : x.tree.RefusesDuplicates) :
    x.definition.primary := by
  obtain ⟨last, hlast, hrule⟩ := hrefuses
  rw [h.columns, IndexDefinition.keyColumns] at hlast
  split at hlast
  · cases hlast
  · rw [List.getLast?_concat] at hlast
    cases hlast
    split at hrule
    · assumption
    · cases hrule

/-- A new row is taken in if its key has no null and, in a primary index, is the key of no other
row. -/
theorem exists_insert (h : x.Agrees P rows) (hP : OrderedOn P) (hr : r.FieldsIn P)
    (hnull : ∀ value ∈ x.definition.keyOf r, value.isNull = false)
    (hfree : x.definition.primary → ∀ v other, rows v = some other →
      ¬ SameKey (x.definition.keyOf r) (x.definition.keyOf other)) :
    ∃ tree, x.tree.insert (x.definition.keyOf r) u.place = .ok tree := by
  have hkey := hr.keyOn hnull
  refine CompositeIndex.exists_insert hP h.valid hkey (h.length_keyOf r) hnull
    fun hrefuses n hholds => ?_
  obtain ⟨other, hother, hsame⟩ := (h.holds _ n hkey).1 hholds
  exact hfree (h.primary_of_refusesDuplicates hrefuses) _ other hother hsame

theorem movesTo_iff (h : x.Agrees P rows) (hP : OrderedOn P)
    (hfields : ∀ v r, rows v = some r → r.FieldsIn P) (hcolumns : x.definition.columns ≠ [])
    (hold : rows u = old) (hnew : ∀ r, new = some r → r.FieldsIn P) :
    (∃ tree, x.MovesTo u old new tree) ↔ ∀ r, new = some r → x.Admits rows u r := by
  constructor
  · rintro ⟨tree, hmoves⟩ r rfl
    have hlater : Agrees P (fun v => if v = u then some r else rows v) { x with tree } :=
      h.moved hP hfields hcolumns hold hnew hmoves fun _ => rfl
    refine ⟨hlater.keys u r (if_pos rfl), fun hprimary v other hne hother hsame => hne ?_⟩
    exact (hlater.unique hprimary u v r other (if_pos rfl) ((if_neg hne).trans hother) hsame).symm
  · intro hadmits
    cases old with
    | none =>
      cases new with
      | none => exact ⟨x.tree, rfl⟩
      | some r =>
        obtain ⟨hnull, hfree⟩ := hadmits r rfl
        refine h.exists_insert hP (hnew r rfl) hnull fun hprimary v other hother => ?_
        refine hfree hprimary v other (fun heq => ?_) hother
        rw [heq, hold] at hother
        cases hother
    | some old =>
      obtain ⟨mid, hmid⟩ : ∃ mid, x.tree.erase (x.definition.keyOf old) u.place = .ok mid :=
        CompositeIndex.exists_erase (h.length_keyOf old)
      cases new with
      | none => exact ⟨mid, hmid⟩
      | some r =>
        obtain ⟨hnull, hfree⟩ := hadmits r rfl
        by_cases hsame : Value.sameKey (x.definition.keyOf old) (x.definition.keyOf r)
        · exact ⟨x.tree, (if_pos hsame).mpr rfl⟩
        · have hwithout :
              Agrees P (fun v => if v = u then none else rows v) { x with tree := mid } :=
            h.erase hP hfields hold hmid fun _ => rfl
          obtain ⟨tree, htree⟩ : ∃ tree, mid.insert (x.definition.keyOf r) u.place = .ok tree := by
            refine hwithout.exists_insert hP (hnew r rfl) hnull fun hprimary v other hother => ?_
            split at hother
            · cases hother
            · next hne => exact hfree hprimary v other hne hother
          exact ⟨tree, (if_neg hsame).mpr ⟨mid, hmid, htree⟩⟩

end Index.Agrees

/-! ### Moving a row in all indexes -/

namespace Snapshot

variable {bound : Nat} {s m : Snapshot} {row uid : Uid} {t : Table}

/-- What the move of a row in one index depends on. -/
def Movable (s : Snapshot) (row : Uid) (old new : Option Row) (x : Index) : Prop :=
  (∃ tree, x.MovesTo row old new tree) ∧ (x.definition.primary →
    ∀ key, x.lostKey? old new = some key → s.ensureUnused x.definition.table key = .ok ())

theorem exists_addKey_iff {key : List Value} :
    (∃ y, addKey row x key = .ok y) ↔ ∃ tree, x.tree.insert key row.place = .ok tree :=
  ⟨fun ⟨_, h⟩ => (addKey_eq_ok h).imp fun _ => And.left,
    fun ⟨_, h⟩ => ⟨_, bind_eq_ok.2 ⟨_, mapError_eq_ok.2 h, rfl⟩⟩⟩

theorem dropKey_of_erase {key : List Value} {tree : CompositeIndex Value}
    (hunused : x.definition.primary → s.ensureUnused x.definition.table key = .ok ())
    (htree : x.tree.erase key row.place = .ok tree) :
    s.dropKey row x key = .ok { x with tree } := by
  have hdropped : (do
      let tree ← (x.tree.erase key row.place).mapError Error.policyViolation
      .ok { x with tree } : Except Error Index) = .ok { x with tree } :=
    bind_eq_ok.2 ⟨tree, mapError_eq_ok.2 htree, rfl⟩
  rw [dropKey]
  split
  · next hprimary => exact bind_eq_ok.2 ⟨(), hunused hprimary, hdropped⟩
  · exact hdropped

theorem exists_moveKey_iff :
    (∃ m, s.moveKey row old new uid = .ok m) ↔
      ∀ x, s.index? uid = some x → s.Movable row old new x := by
  constructor
  · rintro ⟨m, hm⟩ x hx
    rcases moveKey_eq_ok hm with ⟨hnone, _⟩ | ⟨_, tree, hfound, hmoves, _, hunused⟩
    · rw [hnone] at hx
      cases hx
    · rw [hfound] at hx
      cases hx
      exact ⟨⟨tree, hmoves⟩, hunused⟩
  · intro hmovable
    rw [moveKey]
    split
    · exact ⟨s, rfl⟩
    · next x hx =>
      obtain ⟨⟨tree, hmoves⟩, hunused⟩ := hmovable x hx
      simp only [Index.MovesTo, Index.lostKey?] at hmoves hunused
      split
      · exact ⟨s, rfl⟩
      · next key hold hnew =>
        rw [hold, hnew] at hmoves
        obtain ⟨y, hy⟩ := exists_addKey_iff.2 ⟨tree, hmoves⟩
        exact ⟨_, bind_eq_ok.2 ⟨y, hy, rfl⟩⟩
      · next oldKey hold hnew =>
        rw [hold, hnew] at hmoves hunused
        exact ⟨_, bind_eq_ok.2 ⟨_, dropKey_of_erase (fun h => hunused h oldKey rfl) hmoves, rfl⟩⟩
      · next oldKey key hold hnew =>
        rw [hold, hnew] at hmoves hunused
        split
        · exact ⟨s, rfl⟩
        · next hdiffers =>
          obtain ⟨mid, hmid, htree⟩ := (if_neg hdiffers).mp hmoves
          have hlost : (some oldKey).filter (fun oldKey =>
              !(some key).any (Value.sameKey oldKey)) = some oldKey := by
            simp [hdiffers]
          obtain ⟨y, hy⟩ : ∃ y, addKey row { x with tree := mid } key = .ok y :=
            exists_addKey_iff.2 ⟨tree, htree⟩
          exact ⟨_, bind_eq_ok.2 ⟨_, dropKey_of_erase (fun h => hunused h oldKey hlost) hmid,
            bind_eq_ok.2 ⟨y, hy, rfl⟩⟩⟩

/-- Moving a row in an index that refers to another table leaves the foreign keys into a table as
they are. -/
theorem mem_foreignKeysInto_of_moveKey {table : Uid} {f : Index} (hlawful : s.items.Lawful)
    (huid : ∀ x, s.index? uid = some x → x.uid = uid)
    (hother : ∀ x, s.index? uid = some x → x.definition.references ≠ some table)
    (hm : s.moveKey row old new uid = .ok m) :
    f ∈ m.foreignKeysInto table ↔ f ∈ s.foreignKeysInto table := by
  cases hx : s.index? uid with
  | none => rw [eq_of_moveKey hx hm]
  | some x =>
    obtain ⟨tree, hmx, _, hkept, _⟩ := moveKey_index hlawful hx (huid x hx) hm
    have hmlawful : m.items.Lawful := by
      rcases moveKey_eq_ok hm with ⟨_, rfl⟩ | ⟨_, _, _, _, ⟨rfl, _⟩ | rfl, _⟩
      · exact hlawful
      · exact hlawful
      · exact lawful_set hlawful
    rw [mem_foreignKeysInto hmlawful, mem_foreignKeysInto hlawful]
    refine and_congr_left fun hreferences => exists_congr fun u => ?_
    by_cases hu : u = uid
    · rw [hu, index?_eq_some, index?_eq_some, hmx, index?_eq_some.1 hx]
      constructor
      · intro hf
        cases hf
        exact absurd hreferences (hother x hx)
      · intro hf
        cases hf
        exact absurd hreferences (hother _ hx)
    · rw [index?_congr (hkept u hu)]

/-- Moving a row in one index does not change what an index behind it depends on. -/
theorem movable_iff_of_moveKey {y : Index} (hlawful : s.items.Lawful)
    (huid : ∀ x, s.index? uid = some x → x.uid = uid)
    (hfirst : ∀ x, s.index? uid = some x → y.definition.primary →
      x.definition.references ≠ some y.definition.table)
    (hm : s.moveKey row old new uid = .ok m) :
    m.Movable row old new y ↔ s.Movable row old new y := by
  refine and_congr_right fun _ => forall_congr' fun hprimary => forall_congr' fun key =>
    forall_congr' fun _ => ?_
  rw [ensureUnused_eq_ok, ensureUnused_eq_ok]
  refine forall_congr' fun f => ?_
  rw [mem_foreignKeysInto_of_moveKey hlawful huid (fun x hx => hfirst x hx hprimary) hm]

theorem index_uid_of_rekeyed {indexes : List Uid} {y : Index}
    (huids : ∀ u x, s.index? u = some x → x.uid = u) (h : Rekeyed row old new indexes s m)
    (hy : m.index? u = some y) : y.uid = u := by
  rw [index?_eq_some] at hy
  rcases get?_of_rekeyed h u with heq | ⟨x, tree, hx, hmoved⟩
  · exact huids u y (index?_eq_some.2 (heq ▸ hy))
  · rw [hmoved] at hy
    cases hy
    exact huids u x (index?_eq_some.2 hx)

/-- As no index refers to the table of a primary index behind it, the whole pass depends on the
indexes as they were before it. -/
theorem exists_foldlM_moveKey_iff {indexes : List Uid} (hlawful : s.items.Lawful)
    (huids : ∀ u x, s.index? u = some x → x.uid = u) (hnodup : indexes.Nodup)
    (hfirst : s.PrimaryFirst indexes) :
    (∃ m, indexes.foldlM (moveKey row old new) s = .ok m) ↔
      ∀ u ∈ indexes, ∀ x, s.index? u = some x → s.Movable row old new x := by
  induction indexes generalizing s with
  | nil => exact ⟨fun _ _ hu => absurd hu List.not_mem_nil, fun _ => ⟨s, rfl⟩⟩
  | cons uid indexes ih =>
    obtain ⟨hnew, hnodup⟩ := List.nodup_cons.1 hnodup
    obtain ⟨hbehind, hfirst⟩ := List.pairwise_cons.1 hfirst
    have hrest : ∀ m, s.moveKey row old new uid = .ok m →
        ((∃ m', indexes.foldlM (moveKey row old new) m = .ok m') ↔
          ∀ u ∈ indexes, ∀ x, s.index? u = some x → s.Movable row old new x) := by
      intro m hm
      have hone : Rekeyed row old new [uid] s m :=
        rekeyed_of_foldlM hlawful huids (List.pairwise_singleton ..) (bind_eq_ok.2 ⟨m, hm, rfl⟩)
      have hindex : ∀ u ∈ indexes, m.index? u = s.index? u := fun u hu =>
        index?_congr (hone.other u fun hmem => hnew (List.mem_singleton.1 hmem ▸ hu))
      have hfirst' : m.PrimaryFirst indexes := PrimaryFirst.of_definitions hfirst fun u hu y hy =>
        ⟨y, hindex u hu ▸ hy, rfl⟩
      rw [ih hone.lawful (fun _ _ => index_uid_of_rekeyed huids hone) hnodup hfirst']
      refine forall_congr' fun u => forall_congr' fun hu => ?_
      rw [hindex u hu]
      exact forall_congr' fun y => forall_congr' fun hy => movable_iff_of_moveKey hlawful
        (huids uid) (fun x hx => hbehind u hu x y hx hy) hm
    rw [List.foldlM_cons, List.forall_mem_cons, ← exists_moveKey_iff]
    constructor
    · rintro ⟨m', h⟩
      obtain ⟨m, hm, h⟩ := bind_eq_ok.1 h
      exact ⟨⟨m, hm⟩, (hrest m hm).1 ⟨m', h⟩⟩
    · rintro ⟨⟨m, hm⟩, h⟩
      obtain ⟨m', hm'⟩ := (hrest m hm).2 h
      exact ⟨m', bind_eq_ok.2 ⟨m, hm, hm'⟩⟩

/-! ### What a row refers to -/

section Rekeyed

variable (hs : Catalogued bound s) (hmatched : Matched P s) (hP : OrderedOn P)
  (ht : s.table? t.uid = some t) (hrekeyed : Rekeyed row old new t.indexes s m)
  (hold : t.rows.get? row = old) (hnew : ∀ r, new = some r → r.FieldsIn P)

include hs hmatched hP ht hrekeyed hold hnew

/-- Once a row is exchanged, every index agrees with the rows that there are then. -/
theorem agrees_rekeyed {y : Index} (hy : m.get? uid = some (.index y)) :
    y.Agrees P (s.rowsWith t.uid row new y.definition.table) := by
  have hget := table?_eq_some.1 ht
  obtain ⟨x, hx, hdefinition⟩ := hrekeyed.index_of_later hy
  obtain ⟨found, hfound, hagrees⟩ := hmatched.agrees_of_index hs hx
  by_cases htable : x.definition.table = t.uid
  · obtain ⟨tree, htree, hmoves⟩ :=
      hrekeyed.moved uid ((hs.mem_indexes_iff hget hx).2 htable) x (index?_eq_some.2 hx)
    rw [hy] at htree
    cases htree
    rw [htable, hget] at hfound
    cases hfound
    refine hagrees.moved hP (hmatched.fields hget) (hs.columns_ne_nil hx) hold hnew hmoves
      fun v => ?_
    rw [hdefinition, htable, rowsWith_of_table ht]
  · rw [hrekeyed.other uid fun hmem => htable ((hs.mem_indexes_iff hget hx).1 hmem), hx] at hy
    cases hy
    have hrows : s.rowsWith t.uid row new y.definition.table = found.rows.get? := by
      funext v
      rw [rowsWith_of_ne htable, row?_of_table (table?_eq_some.2 hfound)]
    exact hrows ▸ hagrees

/-- A key stands in the primary index of a table if it is the primary key of a row. -/
theorem any_primaryIndex?_iff {target : Uid} {y : Index} {key : List Value} (hone : OnePrimary s)
    (hprimary : s.primaryIndex? target = some y) (hkey : KeyOn P key)
    (hlength : key.length = y.definition.columns.length) :
    (m.primaryIndex? target).any (·.tree.contains key) ↔
      ∃ v r, s.rowsWith t.uid row new target v = some r ∧ SameKey key (y.definition.keyOf r) := by
  obtain ⟨htarget, v, hy⟩ := hs.get?_of_mem_indexes (List.mem_of_find?_eq_some hprimary)
  obtain ⟨y', hy', hdefinition⟩ := hrekeyed.index_later hy
  have hyprimary := (primaryIndex?_eq_some hprimary).1
  have hlater : m.primaryIndex? target = some y' := by
    have hfound := (hs.of_rekeyed hrekeyed).primaryIndex?_eq
      (hone.of_same fun _ _ hy => hrekeyed.index_of_later hy) hy' (hdefinition ▸ hyprimary)
    rwa [hdefinition, htarget] at hfound
  have hagrees := agrees_rekeyed hs hmatched hP ht hrekeyed hold hnew hy'
  rw [hlater, Option.any_some, hagrees.contains_iff hP hkey (by rw [hdefinition, hlength])]
  rw [hdefinition, htarget] at hagrees
  constructor
  · rintro ⟨n, hn⟩
    obtain ⟨r, hr, hsame⟩ := (hagrees.holds key n hkey).1 hn
    exact ⟨⟨n⟩, r, hr, hdefinition ▸ hsame⟩
  · rintro ⟨v, r, hr, hsame⟩
    exact ⟨v.place, (hagrees.holds key v.place hkey).2 ⟨r, hr, hdefinition ▸ hsame⟩⟩

/-- What a row refers to is checked against the rows as they are once it is in. -/
theorem ensureMatched_iff {x' : Index} {key : List Value} (hr : Referential P s)
    (hx' : m.get? uid = some (.index x')) (hkey : KeyOn P key)
    (hlength : key.length = x'.definition.columns.length) :
    m.ensureMatched x' key = .ok () ↔
      ∀ target, x'.definition.references = some target →
        ∃ primary, s.primaryIndex? target = some primary ∧
          ∃ v r, s.rowsWith t.uid row new target v = some r ∧
            SameKey key (primary.definition.keyOf r) := by
  rw [ensureMatched]
  cases hreferences : x'.definition.references with
  | none => exact ⟨fun _ _ h => absurd h.symm (Option.some_ne_none _), fun _ => rfl⟩
  | some target =>
    obtain ⟨x, hx, hdefinition⟩ := hrekeyed.index_of_later hx'
    obtain ⟨v, y, hy, htarget⟩ := hr.target hx (hdefinition ▸ hreferences ▸ rfl)
    have htable : y.definition.table = target := by
      have heq := htarget.references
      rw [← hdefinition, hreferences] at heq
      exact (Option.some.inj heq).symm
    have hprimary := htable ▸ hs.primaryIndex?_eq hr.one hy htarget.primary
    have hiff := any_primaryIndex?_iff hs hmatched hP ht hrekeyed hold hnew hr.one hprimary hkey
      (by rw [hlength, htarget.width, hdefinition])
    refine ensure_eq_ok.trans (hiff.trans ⟨fun h other hother => ?_, fun h => ?_⟩)
    · cases hother
      exact ⟨y, hprimary, h⟩
    · obtain ⟨primary, hfound, h⟩ := h target rfl
      rw [hprimary] at hfound
      cases hfound
      exact h

end Rekeyed

/-! ### The rules -/

/-- A row fits into a table, in the place of the row that it replaces: its keys have no null, no
other row has its primary key, and the keys that it refers to are primary keys of rows, its own row
among them. -/
structure Takes (s : Snapshot) (table row : Uid) (new : Row) : Prop where
  noNull : ∀ x ∈ s.indexes table, ∀ value ∈ x.definition.keyOf new, value.isNull = false
  unique : ∀ primary, s.primaryIndex? table = some primary →
    ∀ v other, v ≠ row → s.row? table v = some other →
      ¬ SameKey (primary.definition.keyOf new) (primary.definition.keyOf other)
  refers : ∀ x ∈ s.indexes table, ∀ target, x.definition.references = some target →
    ∃ primary, s.primaryIndex? target = some primary ∧
      ∃ v r, s.rowsWith table row (some new) target v = some r ∧
        SameKey (x.definition.keyOf new) (primary.definition.keyOf r)

/-- No foreign key holds the primary key of a row that goes, unless the row that replaces it has the
same one. -/
def Frees (s : Snapshot) (table : Uid) (old : Row) (new : Option Row) : Prop :=
  ∀ primary, s.primaryIndex? table = some primary →
    (∀ r, new = some r → ¬ SameKey (primary.definition.keyOf old) (primary.definition.keyOf r)) →
      ∀ f ∈ s.foreignKeysInto table, f.tree.contains (primary.definition.keyOf old) = false

theorem lostKey?_eq_some_iff {o : Row} {key : List Value} :
    x.lostKey? (some o) new = some key ↔ x.definition.keyOf o = key ∧
      ∀ r, new = some r → ¬ SameKey (x.definition.keyOf o) (x.definition.keyOf r) := by
  rw [Index.lostKey?, Option.map_some, Option.filter_eq_some_iff, Option.some.injEq]
  refine and_congr_right fun heq => ?_
  subst heq
  cases new with
  | none => exact ⟨fun _ _ h => absurd h.symm (Option.some_ne_none _), fun _ => rfl⟩
  | some r =>
    rw [Option.map_some, Option.any_some, Bool.not_eq_true', Bool.eq_false_iff, Ne,
      Value.sameKey_iff]
    exact ⟨fun h _ hr => Option.some.inj hr ▸ h, fun h => h r rfl⟩

theorem Catalogued.primaryIndex?_iff (hs : Catalogued bound s) (hone : OnePrimary s) :
    s.primaryIndex? u = some x ↔ x ∈ s.indexes u ∧ x.definition.primary := by
  refine ⟨fun h => ⟨List.mem_of_find?_eq_some h, (primaryIndex?_eq_some h).1⟩, fun ⟨hx, h⟩ => ?_⟩
  obtain ⟨htable, v, hget⟩ := hs.get?_of_mem_indexes hx
  exact htable ▸ hs.primaryIndex?_eq hone hget h

section Accepted

variable (hs : Catalogued bound s) (hmatched : Matched P s) (hP : OrderedOn P)
  (hr : Referential P s) (hordered : KeyOrdered s) (ht : s.table? t.uid = some t)
  (hold : t.rows.get? row = old) (hnew : ∀ r, new = some r → r.FieldsIn P)
include hs hmatched hP hordered ht hold hnew

/-- The move of a row succeeds in all indexes if it does in each of them. -/
theorem exists_fold_iff :
    (∃ m, t.indexes.foldlM (moveKey row old new) s = .ok m) ↔
      ∀ x ∈ s.indexes t.uid, (∀ r, new = some r → x.Admits t.rows.get? row r) ∧
        (x.definition.primary → ∀ key, x.lostKey? old new = some key →
          s.ensureUnused t.uid key = .ok ()) := by
  have hget := table?_eq_some.1 ht
  rw [exists_foldlM_moveKey_iff hs.items (fun _ _ => hs.index_uid)
    (hs.linked.nodup (links_of_get? hget)).2 (hordered _ t hget)]
  have hmovable : ∀ x ∈ s.indexes t.uid, s.Movable row old new x ↔
      (∀ r, new = some r → x.Admits t.rows.get? row r) ∧
        (x.definition.primary → ∀ key, x.lostKey? old new = some key →
          s.ensureUnused t.uid key = .ok ()) := by
    intro x hx
    obtain ⟨htable, v, hv⟩ := hs.get?_of_mem_indexes hx
    have hagrees := hmatched.agrees hv (htable ▸ hget)
    rw [Movable, htable, hagrees.movesTo_iff hP (hmatched.fields hget) (hs.columns_ne_nil hv) hold
      hnew]
  constructor
  · intro h x hx
    obtain ⟨found, hfound, v, hv, hxv⟩ := mem_indexes.1 hx
    rw [ht] at hfound
    cases hfound
    exact (hmovable x hx).1 (h v hv x hxv)
  · intro h v hv x hxv
    have hx : x ∈ s.indexes t.uid := mem_indexes.2 ⟨t, ht, v, hv, hxv⟩
    exact (hmovable x hx).2 (h x hx)

include hr

/-- A row is moved exactly if the rules allow it. -/
theorem exists_rekey_iff :
    (∃ m, s.rekey t row old new = .ok m) ↔
      (∀ r, new = some r → s.Takes t.uid row r) ∧ ∀ o, old = some o → s.Frees t.uid o new := by
  have hget := table?_eq_some.1 ht
  have hfold := exists_fold_iff hs hmatched hP hordered ht hold hnew
  constructor
  · rintro ⟨m, hm⟩
    obtain ⟨hmoved, hmatches⟩ := rekey_eq_ok hm
    have hmovable := hfold.1 ⟨m, hmoved⟩
    have hrekeyed := hs.rekeyed hget hm
    refine ⟨fun r hnewRow => ⟨fun x hx => ((hmovable x hx).1 r hnewRow).1, ?_, ?_⟩, ?_⟩
    · intro primary hprimary
      obtain ⟨hx, h⟩ := (hs.primaryIndex?_iff hr.one).1 hprimary
      intro v other hne hother
      rw [row?_of_table ht] at hother
      exact ((hmovable primary hx).1 r hnewRow).2 h v other hne hother
    · intro x hx
      obtain ⟨htable, v, hv⟩ := hs.get?_of_mem_indexes hx
      obtain ⟨x', hx', hdefinition⟩ := hrekeyed.index_later hv
      have hmem := (hs.of_rekeyed hrekeyed).mem_indexes_of_get? hx'
      rw [hdefinition, htable] at hmem
      have hmatch := hmatches r hnewRow x' hmem
      have hkey := (hnew r hnewRow).keyOn ((hmovable x hx).1 r hnewRow).1
      rw [← hdefinition] at hkey ⊢
      rw [← hnewRow]
      exact (ensureMatched_iff hs hmatched hP ht hrekeyed hold hnew hr hx' hkey
        (List.length_map _)).1 hmatch
    · intro o ho primary hprimary hlost
      subst ho
      obtain ⟨hx, h⟩ := (hs.primaryIndex?_iff hr.one).1 hprimary
      exact ensureUnused_eq_ok.1 ((hmovable primary hx).2 h _
        (lostKey?_eq_some_iff.2 ⟨rfl, hlost⟩))
  · rintro ⟨htakes, hfrees⟩
    obtain ⟨m, hm⟩ := hfold.2 fun x hx => by
      refine ⟨fun r hnewRow => ⟨(htakes r hnewRow).noNull x hx, fun h v other hne hother => ?_⟩,
        fun h key hlost => ensureUnused_eq_ok.2 ?_⟩
      · exact (htakes r hnewRow).unique x ((hs.primaryIndex?_iff hr.one).2 ⟨hx, h⟩) v other hne
          ((row?_of_table ht v).trans hother)
      · cases old with
        | none => cases hlost
        | some o =>
          obtain ⟨rfl, hgone⟩ := lostKey?_eq_some_iff.1 hlost
          exact hfrees o rfl x ((hs.primaryIndex?_iff hr.one).2 ⟨hx, h⟩) hgone
    have hrekeyed : Rekeyed row old new t.indexes s m :=
      rekeyed_of_foldlM hs.items (fun _ _ => hs.index_uid)
        (hs.linked.nodup (links_of_get? hget)).2 hm
    cases new with
    | none => exact ⟨m, bind_eq_ok.2 ⟨m, hm, rfl⟩⟩
    | some r =>
      refine ⟨m, bind_eq_ok.2 ⟨m, hm, forM_bind_eq_ok.2 ⟨fun x' hx' => ?_, rfl⟩⟩⟩
      obtain ⟨htable, v, hv'⟩ := (hs.of_rekeyed hrekeyed).get?_of_mem_indexes hx'
      obtain ⟨x, hv, hdefinition⟩ := hrekeyed.index_of_later hv'
      have hx := hs.mem_indexes_of_get? hv
      rw [← hdefinition, htable] at hx
      have hkey := (hnew r rfl).keyOn ((htakes r rfl).noNull x hx)
      rw [← hdefinition] at hkey
      refine (ensureMatched_iff hs hmatched hP ht hrekeyed hold hnew hr hv' hkey
        (List.length_map _)).2 ?_
      rw [hdefinition]
      exact (htakes r rfl).refers x hx

end Accepted

/-! ### Changes of rows -/

section Changes

variable {standing : Standing} {table : Uid} {fields : List Field}
  (hs : Catalogued bound s) (hmatched : Matched P s) (hP : OrderedOn P) (hr : Referential P s)
  (hordered : KeyOrdered s)
include hs hmatched hP hr hordered

theorem exists_insertRow_iff (hvalues : (LogObject.record table fields).ValuesIn P)
    (hfresh : s.row? table uid = none) :
    (∃ s', s.insertRow standing uid table fields = .ok s') ↔
      ∃ t, s.table? table = some t ∧ s.Typed t fields ∧
        s.Takes table uid ⟨uid, uid, keptFields fields⟩ := by
  have hmoved : ∀ t, s.table? table = some t →
      ((∃ m, s.rekey t uid none (some ⟨uid, uid, keptFields fields⟩) = .ok m) ↔
        s.Takes table uid ⟨uid, uid, keptFields fields⟩) := by
    intro t ht
    have huid := hs.table_uid ht
    subst huid
    have hnew : ∀ r : Row, some ⟨uid, uid, keptFields fields⟩ = some r → r.FieldsIn P := by
      rintro _ ⟨⟩
      exact fieldsIn_keptFields hvalues uid uid
    rw [exists_rekey_iff hs hmatched hP hr hordered ht ((row?_of_table ht uid).symm.trans hfresh)
      hnew]
    exact ⟨fun h => h.1 _ rfl,
      fun h => ⟨fun _ hr => Option.some.inj hr ▸ h, fun _ ho => (nomatch ho)⟩⟩
  constructor
  · rintro ⟨s', h⟩
    obtain ⟨t, m, ht, htyped, hm, _⟩ := insertRow_eq_ok.1 h
    exact ⟨t, ht, htyped, (hmoved t ht).1 ⟨m, hm⟩⟩
  · rintro ⟨t, ht, htyped, htakes⟩
    obtain ⟨m, hm⟩ := (hmoved t ht).2 htakes
    exact ⟨_, insertRow_eq_ok.2 ⟨t, m, ht, htyped, hm, rfl⟩⟩

theorem exists_updateRow_iff (hvalues : (LogObject.update table fields row).ValuesIn P) :
    (∃ s', s.updateRow standing uid table fields row = .ok s') ↔
      ∃ t old, s.table? table = some t ∧ s.row? table row = some old ∧ s.Typed t fields ∧
        s.Takes table row ⟨row, uid, keptFields fields⟩ ∧
        s.Frees table old (some ⟨row, uid, keptFields fields⟩) := by
  have hmoved : ∀ t old, s.table? table = some t → t.rows.get? row = some old →
      ((∃ m, s.rekey t row (some old) (some ⟨row, uid, keptFields fields⟩) = .ok m) ↔
        s.Takes table row ⟨row, uid, keptFields fields⟩ ∧
          s.Frees table old (some ⟨row, uid, keptFields fields⟩)) := by
    intro t old ht hold
    have huid := hs.table_uid ht
    subst huid
    have hnew : ∀ r : Row, some ⟨row, uid, keptFields fields⟩ = some r → r.FieldsIn P := by
      rintro _ ⟨⟩
      exact fieldsIn_keptFields hvalues row uid
    rw [exists_rekey_iff hs hmatched hP hr hordered ht hold hnew]
    exact and_congr ⟨fun h => h _ rfl, fun h _ hr => Option.some.inj hr ▸ h⟩
      ⟨fun h => h _ rfl, fun h _ ho => Option.some.inj ho ▸ h⟩
  constructor
  · rintro ⟨s', h⟩
    obtain ⟨t, old, m, ht, hold, htyped, hm, _⟩ := updateRow_eq_ok.1 h
    exact ⟨t, old, ht, (row?_of_table ht row).trans hold, htyped, (hmoved t old ht hold).1 ⟨m, hm⟩⟩
  · rintro ⟨t, old, ht, hold, htyped, hrules⟩
    rw [row?_of_table ht] at hold
    obtain ⟨m, hm⟩ := (hmoved t old ht hold).2 hrules
    exact ⟨_, updateRow_eq_ok.2 ⟨t, old, m, ht, hold, htyped, hm, rfl⟩⟩

theorem exists_deleteRow_iff :
    (∃ s', s.deleteRow standing table row = .ok s') ↔
      ∃ t old, s.table? table = some t ∧ s.row? table row = some old ∧ s.Frees table old none := by
  have hmoved : ∀ t old, s.table? table = some t → t.rows.get? row = some old →
      ((∃ m, s.rekey t row (some old) none = .ok m) ↔ s.Frees table old none) := by
    intro t old ht hold
    have huid := hs.table_uid ht
    subst huid
    have hnew : ∀ r : Row, none = some r → r.FieldsIn P := fun _ hr => (nomatch hr)
    rw [exists_rekey_iff hs hmatched hP hr hordered ht hold hnew]
    exact ⟨fun h => h.2 _ rfl,
      fun h => ⟨fun _ hr => (nomatch hr), fun _ ho => Option.some.inj ho ▸ h⟩⟩
  constructor
  · rintro ⟨s', h⟩
    obtain ⟨t, old, m, ht, hold, hm, _⟩ := deleteRow_eq_ok.1 h
    exact ⟨t, old, ht, (row?_of_table ht row).trans hold, (hmoved t old ht hold).1 ⟨m, hm⟩⟩
  · rintro ⟨t, old, ht, hold, hfrees⟩
    rw [row?_of_table ht] at hold
    obtain ⟨m, hm⟩ := (hmoved t old ht hold).2 hfrees
    exact ⟨_, deleteRow_eq_ok.2 ⟨t, old, m, ht, hold, hm, rfl⟩⟩

end Changes

end Snapshot

end SnapshotStore
