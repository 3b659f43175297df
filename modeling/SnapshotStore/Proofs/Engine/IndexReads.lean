import SnapshotStore.Proofs.Engine.Arising
import SnapshotStore.Proofs.Value.Order

/-!
# Reading by an index

In every snapshot an index lists exactly the rows of its table, by their keys and then by their
identifiers. A lookup by the start of a key is a scan of this list, so that it finds what a scan of
the whole table would find.
-/

namespace SnapshotStore

/-- The order of rows by their keys and then by their identifiers. -/
def IndexDefinition.compareRows (d : IndexDefinition) (a b : Row) :
    Ordering := (compare (d.keyOf a) (d.keyOf b)).then (compare a.uid b.uid)

variable {P : Value → Prop} {bound : Nat} {x : Index} {rows : SortedMap Uid Row}
  {start : List Value}

/-- Two lists made from one, of which the second skips nothing. -/
theorem map_filter_filterMap {A B C : Type} {list : List A} {f : A → Option B} {q : B → Bool}
    {q' : A → Bool} {g : B → C} {g' : A → C}
    (h : ∀ a ∈ list, ∃ b, f a = some b ∧ q b = q' a ∧ g b = g' a) :
    ((list.filterMap f).filter q).map g = (list.filter q').map g' := by
  induction list with
  | nil => rfl
  | cons a list ih =>
    obtain ⟨⟨b, hb, hq, hg⟩, hlist⟩ := List.forall_mem_cons.1 h
    rw [List.filterMap_cons_some hb, List.filter_cons, List.filter_cons, hq]
    split
    · rw [List.map_cons, List.map_cons, hg, ih hlist]
    · exact ih hlist

namespace Index.Agrees

/-- The rows of an index in its order. -/
def found (x : Index) (rows : SortedMap Uid Row) : List Row :=
  x.tree.pairs.filterMap fun pair => rows.get? ⟨pair.2⟩

section

variable (h : x.Agrees P rows.get?) (hP : OrderedOn P) (hrows : Snapshot.RowsKept bound rows)
include h hP

theorem row_of_pair {pair : List Value × RowId} (hpair : pair ∈ x.tree.pairs) :
    KeyOn P pair.1 ∧
      ∃ row, rows.get? ⟨pair.2⟩ = some row ∧ SameKey pair.1 (x.definition.keyOf row) := by
  obtain ⟨hkey, hholds⟩ := Level.holds_of_mem_pairs hP h.valid hpair
  exact ⟨hkey, (h.holds pair.1 pair.2 hkey).1 hholds⟩

include hrows

theorem pair_of_row (hfields : ∀ u row, rows.get? u = some row → row.FieldsIn P) {row : Row}
    (hrow : row ∈ rows.values) : ∃ key, (key, row.uid.place) ∈ x.tree.pairs := by
  have hget := hrows.mem_values_iff.1 ⟨hrow, rfl⟩
  have hkey := h.keyOn hfields hget
  have hholds := (h.holds _ row.uid.place hkey).2 ⟨row, hget, .refl hP hkey⟩
  obtain ⟨key, hmem, _⟩ := Level.exists_mem_pairs_of_holds hP h.valid hkey hholds
  exact ⟨key, hmem⟩

theorem pairwise_found (hfields : ∀ u row, rows.get? u = some row → row.FieldsIn P) :
    (found x rows).Pairwise fun a b => x.definition.compareRows a b = .lt := by
  have hsorted := Level.pairwise_pairs hP h.valid
  refine List.Pairwise.filterMap _ ?_ (hsorted.imp_of_mem fun {p q} hp hq hpq => And.intro hp
    (And.intro hq hpq))
  rintro p q ⟨hp, hq, hpq⟩ a ha b hb
  obtain ⟨hpkey, row, hrow, hsame⟩ := h.row_of_pair hP hp
  obtain ⟨hqkey, row', hrow', hsame'⟩ := h.row_of_pair hP hq
  have ha : rows.get? ⟨p.2⟩ = some a := ha
  have hb : rows.get? ⟨q.2⟩ = some b := hb
  rw [ha] at hrow
  rw [hb] at hrow'
  cases hrow
  cases hrow'
  have hlength : ∀ row, (x.definition.keyOf row).length = x.tree.columns.length := by
    intro row
    rw [h.columns, IndexDefinition.length_keyColumns]
    exact List.length_map _
  have hascending : ∀ column ∈ x.tree.columns, column.direction = .ascending :=
    h.columns ▸ x.definition.keyColumns_ascending
  rw [Level.comparePairs, Level.compareKeys_parts hascending (hsame.length_eq.trans (hlength a))
    (hsame'.length_eq.trans (hlength b)), Level.compare_congr_of_sameKey hP hpkey
    (h.keyOn hfields ha) hqkey (h.keyOn hfields hb) hsame hsame'] at hpq
  rw [IndexDefinition.compareRows, hrows.own ha, hrows.own hb]
  exact hpq

theorem found_perm (hfields : ∀ u row, rows.get? u = some row → row.FieldsIn P) :
    (found x rows).Perm rows.values := by
  have hnodup : (found x rows).Nodup := by
    refine (h.pairwise_found hP hrows hfields).imp_of_mem fun {a b} ha _ hlt heq => ?_
    obtain ⟨pair, _, hget⟩ := List.mem_filterMap.1 ha
    subst heq
    have hself := Level.compare_eq_of_sameKey (.refl hP (h.keyOn hfields hget))
    rw [IndexDefinition.compareRows, hself, Std.ReflOrd.compare_self] at hlt
    cases hlt
  have hvalues : rows.values.Nodup :=
    List.Pairwise.of_map Row.uid (fun a b hne heq => hne (congrArg Row.uid heq)) hrows.nodup_values
  refine (List.perm_ext_iff_of_nodup hnodup hvalues).2 fun row => ?_
  constructor
  · intro hrow
    obtain ⟨pair, _, hget⟩ := List.mem_filterMap.1 hrow
    exact hrows.lawful.mem_values_iff.2 ⟨_, hget⟩
  · intro hrow
    obtain ⟨key, hpair⟩ := h.pair_of_row hP hrows hfields hrow
    exact List.mem_filterMap.2 ⟨_, hpair, hrows.mem_values_iff.1 ⟨hrow, rfl⟩⟩

theorem snd_pairs : x.tree.pairs.map Prod.snd = (found x rows).map (·.uid.place) := by
  have hboth : (((found x rows).filter fun _ => true).map fun row => row.uid.place) =
      (x.tree.pairs.filter fun _ => true).map Prod.snd := by
    refine map_filter_filterMap fun pair hpair => ?_
    obtain ⟨_, row, hrow, _⟩ := h.row_of_pair hP hpair
    exact ⟨row, hrow, rfl, congrArg Uid.place (hrows.own hrow)⟩
  rw [List.filter_eq_self.2 fun _ _ => rfl, List.filter_eq_self.2 fun _ _ => rfl] at hboth
  exact hboth.symm

theorem rows_eq (hfields : ∀ u row, rows.get? u = some row → row.FieldsIn P)
    (hstart : KeyOn P start) :
    x.rows start =
      ((found x rows).filter fun row => StartsWith (x.definition.keyOf row) start).map (·.uid) := by
  rw [Index.rows, CompositeIndex.rows, Level.rowsUnder_eq hP h.valid hstart, List.map_map]
  refine (map_filter_filterMap fun pair hpair => ?_).symm
  obtain ⟨hkey, row, hrow, hsame⟩ := h.row_of_pair hP hpair
  have hkeyOn := h.keyOn hfields hrow
  refine ⟨row, hrow, decide_eq_decide.2 ⟨fun hstarts => ?_, fun hstarts => ?_⟩, hrows.own hrow⟩
  · exact .of_sameKey hP hkey hkeyOn hstart hsame hstarts
  · exact .of_sameKey hP hkeyOn hkey hstart (hsame.symm hP hkey hkeyOn) hstarts

end

end Index.Agrees

/-- In every snapshot an index lists each row of its table once and nothing else, under a key
without nulls that is the row's, and a lookup finds exactly the rows that a scan of the table would
find. -/
theorem index_reads {name : String} {objects : List LogObject} {s : Snapshot} {u : Uid} {t : Table}
    (h : Arises name objects s) (hP : OrderedOn P) (hvalues : ∀ object ∈ objects, object.ValuesIn P)
    (ht : s.table? u = some t) (hx : x ∈ s.indexes u) :
    (∀ row ∈ t.rows.values, ∀ value ∈ x.definition.keyOf row, value.isNull = false) ∧
      (x.definition.primary →
        ∀ row ∈ t.rows.values, ∀ other ∈ t.rows.values,
          SameKey (x.definition.keyOf row) (x.definition.keyOf other) → row = other) ∧
      ∃ found : List Row,
        found.Perm t.rows.values ∧ (found.Pairwise fun a b => x.definition.compareRows a b = .lt) ∧
        x.tree.pairs.map Prod.snd = found.map (·.uid.place) ∧
        (∀ pair ∈ x.tree.pairs,
          ∀ row ∈ found, row.uid.place = pair.2 → SameKey pair.1 (x.definition.keyOf row)) ∧
        ∀ start, KeyOn P start →
          x.rows start =
            (found.filter fun row => StartsWith (x.definition.keyOf row) start).map (·.uid) := by
  obtain ⟨_, hs⟩ := h.catalogued
  have hmatched := h.matched hP hvalues
  have htable := Snapshot.table?_eq_some.1 ht
  have hrows := hs.rows htable
  have hfields := hmatched.fields htable
  have hagrees : x.Agrees P t.rows.get? := by
    obtain ⟨_, ht', v, hv, hxv⟩ := Snapshot.mem_indexes.1 hx
    rw [ht] at ht'
    cases ht'
    have hxget := Snapshot.index?_eq_some.1 hxv
    have hxtable := (hs.mem_indexes_iff htable hxget).1 hv
    exact hmatched.agrees hxget (hxtable ▸ htable)
  have hget : ∀ {row}, row ∈ t.rows.values → t.rows.get? row.uid = some row :=
    fun hrow => hrows.mem_values_iff.1 ⟨hrow, rfl⟩
  have hperm := hagrees.found_perm hP hrows hfields
  refine ⟨fun row hrow => hagrees.keys _ row (hget hrow),
    fun hprimary row hrow other hother hsame => ?_, Index.Agrees.found x t.rows, hperm,
    hagrees.pairwise_found hP hrows hfields, hagrees.snd_pairs hP hrows,
    fun pair hpair row hrow hplace => ?_, fun start hstart => ?_⟩
  · have huid := hagrees.unique hprimary _ _ row other (hget hrow) (hget hother) hsame
    have hrow := hget hrow
    rw [huid, hget hother] at hrow
    exact (Option.some.inj hrow).symm
  · obtain ⟨_, row', hrow', hsame⟩ := hagrees.row_of_pair hP hpair
    have hrow := hget (hperm.mem_iff.1 hrow)
    rw [← hplace, hrow] at hrow'
    cases hrow'
    exact hsame
  · exact hagrees.rows_eq hP hrows hfields hstart

/-- A transaction under way finds its own rows by their key, where `2` and `2.0` are the same. -/
theorem index_reads_in_view :
    let objects := [.newTable "t", .newColumn "a" .numeric (.provisional 0),
      .newIndex ⟨.provisional 0, true, [.provisional 1], none⟩,
      .record (.provisional 0) [(.provisional 1, .numeric ⟨20, 2, 1⟩)],
      .record (.provisional 0) [(.provisional 1, .integer 1)]]
    let view := ((Snapshot.empty "db").begin.taking objects).view
    ∃ t x, ∃ found : List Row, view.table? (.provisional 0) = some t ∧
      view.indexes (.provisional 0) = [x] ∧ found.Perm t.rows.values ∧
      x.rows [.integer 2] =
        (found.filter fun row => StartsWith (x.definition.keyOf row) [.integer 2]).map (·.uid) ∧
      x.rows [.integer 2] = [.provisional 3] := by
  intro objects view
  have hrun : Run "db" (.fresh "db") _ := Run.refl.begin List.mem_cons_self objects
  have harises : Arises "db" _ view := .view ⟨_, opened_fresh "db", hrun⟩ (by decide +kernel) rfl
    (List.mem_append_right _ List.mem_cons_self)
  have htable : (view.table? (.provisional 0)).isSome := by decide +kernel
  have hfound : (view.indexes (.provisional 0)).map (·.rows [.integer 2]) = [[.provisional 3]] := by
    decide +kernel
  obtain ⟨t, ht⟩ := Option.isSome_iff_exists.1 htable
  obtain ⟨x, hx, hrows⟩ := List.map_eq_singleton_iff.1 hfound
  obtain ⟨_, _, found, hperm, _, _, _, hreads⟩ :=
    index_reads harises Value.orderedOn_comparable (by decide +kernel) ht
      (hx ▸ List.mem_singleton.2 rfl)
  exact ⟨t, x, found, ht, hx, hperm, hreads [.integer 2] (List.forall_mem_singleton.2 trivial),
    hrows⟩

end SnapshotStore
