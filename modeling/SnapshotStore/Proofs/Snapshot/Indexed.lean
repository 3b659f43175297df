import SnapshotStore.Proofs.Index.Composite
import SnapshotStore.Proofs.Snapshot.Rekey

/-!
# Indexes that agree with the rows of their table

An index agrees with a set of rows if exactly these rows stand in its tree, each under its key, and
no key has a null. Moving a row from its old key to its new one keeps this while the row is
exchanged, and filling an empty index with all rows brings it about.
-/

namespace SnapshotStore

/-- The fields of a row are no nulls and can be compared. -/
def Row.FieldsIn (P : Value → Prop) (row : Row) : Prop :=
  ∀ column value, row.fields.get? column = some value → value.isNull = false ∧ P value

/-- The order of the keys of two rows, and of the rows under one key. -/
def IndexDefinition.Unique (d : IndexDefinition) (rows : Uid → Option Row) : Prop :=
  ∀ u v r r', rows u = some r → rows v = some r' → SameKey (d.keyOf r) (d.keyOf r') → u = v

structure Index.Agrees (P : Value → Prop) (rows : Uid → Option Row) (x : Index) : Prop where
  columns : x.tree.columns = x.definition.keyColumns
  valid : x.tree.Valid P
  keys : ∀ u row, rows u = some row → ∀ value ∈ x.definition.keyOf row, value.isNull = false
  holds : ∀ key n, KeyOn P key →
    (x.tree.Holds key n ↔ ∃ row, rows ⟨n⟩ = some row ∧ SameKey key (x.definition.keyOf row))
  unique : x.definition.primary → x.definition.Unique rows

variable {P : Value → Prop} {row r : Row} {d : IndexDefinition} {x y : Index}
  {rows rows' : Uid → Option Row} {tree : CompositeIndex Value} {key : List Value} {u : Uid}

/-! ### Keys -/

theorem Row.FieldsIn.get (h : row.FieldsIn P) {column : Uid}
    (hnull : (row.get column).isNull = false) : P (row.get column) := by
  rw [Row.get] at hnull ⊢
  cases hfield : row.fields.get? column with
  | none =>
    rw [hfield] at hnull
    cases hnull
  | some value => exact (h column value hfield).2

theorem Row.FieldsIn.keyOn (h : row.FieldsIn P)
    (hnull : ∀ value ∈ d.keyOf row, value.isNull = false) : KeyOn P (d.keyOf row) := by
  intro value hvalue
  obtain ⟨column, hcolumn, rfl⟩ := List.mem_map.1 hvalue
  exact h.get (hnull _ hvalue)

theorem Value.isNull_eq_of_compare {a b : Value} (h : compare a b = .eq) : a.isNull = b.isNull := by
  cases a <;> cases b <;> first | rfl | cases h

theorem Value.sameKey_iff {a b : List Value} : Value.sameKey a b ↔ SameKey a b := by
  induction a generalizing b with
  | nil =>
    cases b with
    | nil => exact ⟨fun _ => trivial, fun _ => rfl⟩
    | cons => exact ⟨fun h => (nomatch h), fun h => h.elim⟩
  | cons a as ih =>
    cases b with
    | nil => exact ⟨fun h => (nomatch h), fun h => h.elim⟩
    | cons b bs =>
      rw [Value.sameKey, Bool.and_eq_true, Value.same, beq_iff_eq, ih]
      rfl

theorem not_isNull_of_sameKey {a b : List Value} (h : SameKey a b)
    (ha : ∀ value ∈ a, value.isNull = false) : ∀ value ∈ b, value.isNull = false := by
  induction a generalizing b with
  | nil =>
    cases b with
    | nil => exact ha
    | cons => exact h.elim
  | cons a as ih =>
    cases b with
    | nil => exact h.elim
    | cons b bs =>
      obtain ⟨ha, has⟩ := List.forall_mem_cons.1 ha
      exact List.forall_mem_cons.2 ⟨(Value.isNull_eq_of_compare h.1).symm.trans ha, ih h.2 has⟩

/-! ### Trees -/

namespace IndexDefinition

theorem keyColumns_strict (d : IndexDefinition) :
    ∀ column ∈ d.keyColumns, column.onNull = .disallow ∧ column.onDuplicate ≠ .ignore := by
  intro column hcolumn
  rw [keyColumns] at hcolumn
  split at hcolumn
  · cases hcolumn
  · rcases List.mem_append.1 hcolumn with hcolumn | hcolumn
    · obtain ⟨_, _, rfl⟩ := List.mem_map.1 hcolumn
      decide
    · rw [List.mem_singleton.1 hcolumn]
      split <;> decide

theorem keyColumns_ascending (d : IndexDefinition) :
    ∀ column ∈ d.keyColumns, column.direction = .ascending := by
  intro column hcolumn
  rw [keyColumns] at hcolumn
  split at hcolumn
  · cases hcolumn
  · rcases List.mem_append.1 hcolumn with hcolumn | hcolumn
    · obtain ⟨_, _, rfl⟩ := List.mem_map.1 hcolumn
      rfl
    · rw [List.mem_singleton.1 hcolumn]
      split <;> rfl

theorem length_keyColumns (d : IndexDefinition) : d.keyColumns.length = d.columns.length := by
  rw [keyColumns]
  split
  · next h =>
    rw [h]
    rfl
  · next h => rw [h, List.length_append, List.length_map, List.length_singleton, List.length_cons]

theorem keyColumns_unique (hprimary : d.primary) (hcolumns : d.columns ≠ []) :
    ∃ last, d.keyColumns.getLast? = some last ∧ last.onDuplicate = .disallow := by
  rw [keyColumns]
  split
  · next h => exact absurd h hcolumns
  · rw [if_pos hprimary, List.getLast?_concat]
    exact ⟨_, rfl, rfl⟩

end IndexDefinition

namespace Index.Agrees

theorem strict (h : x.Agrees P rows) : x.tree.Strict := by
  rw [CompositeIndex.Strict, h.columns]
  exact x.definition.keyColumns_strict

theorem refusesDuplicates (h : x.Agrees P rows) (hprimary : x.definition.primary)
    (hcolumns : x.definition.columns ≠ []) : x.tree.RefusesDuplicates := by
  rw [CompositeIndex.RefusesDuplicates, h.columns]
  exact IndexDefinition.keyColumns_unique hprimary hcolumns

theorem keyOn (h : x.Agrees P rows) (hfields : ∀ v r, rows v = some r → r.FieldsIn P) {v : Uid}
    (hr : rows v = some r) : KeyOn P (x.definition.keyOf r) :=
  (hfields v r hr).keyOn (h.keys v r hr)

theorem contains_iff (h : x.Agrees P rows) (hP : OrderedOn P) (hkey : KeyOn P key)
    (hlength : key.length = x.definition.columns.length) :
    x.tree.contains key ↔ ∃ n, x.tree.Holds key n :=
  CompositeIndex.contains_iff_of_length hP h.valid hkey
    (by rw [hlength, h.columns, IndexDefinition.length_keyColumns])

/-- What an index holds when one row has been exchanged. -/
theorem holds_exchanged {new : Option Row} {n : RowId} (h : x.Agrees P rows) (h' : y.Agrees P rows')
    (hdefinition : y.definition = x.definition)
    (hrows' : ∀ v, rows' v = if v = u then new else rows v) (hkey : KeyOn P key) :
    y.tree.Holds key n ↔
      if ⟨n⟩ = u then ∃ r, new = some r ∧ SameKey key (x.definition.keyOf r)
        else x.tree.Holds key n := by
  rw [h'.holds key n hkey, hrows', hdefinition]
  split
  · exact Iff.rfl
  · exact (h.holds key n hkey).symm

/-- Rows count by their keys only. -/
theorem congr (h : x.Agrees P rows) (hP : OrderedOn P)
    (hfields : ∀ v r, rows v = some r → r.FieldsIn P)
    (hfields' : ∀ v r, rows' v = some r → r.FieldsIn P)
    (hforth : ∀ v r, rows v = some r →
      ∃ r', rows' v = some r' ∧ SameKey (x.definition.keyOf r) (x.definition.keyOf r'))
    (hback : ∀ v r', rows' v = some r' → ∃ r, rows v = some r) : x.Agrees P rows' := by
  have hboth : ∀ {v r'}, rows' v = some r' →
      ∃ r, rows v = some r ∧ SameKey (x.definition.keyOf r) (x.definition.keyOf r') := by
    intro v r' hr'
    obtain ⟨r, hr⟩ := hback v r' hr'
    obtain ⟨other, hother, hsame⟩ := hforth v r hr
    rw [hr'] at hother
    cases hother
    exact ⟨r, hr, hsame⟩
  have hkeys :
      ∀ v r', rows' v = some r' → ∀ value ∈ x.definition.keyOf r', value.isNull = false := by
    intro v r' hr'
    obtain ⟨r, hr, hsame⟩ := hboth hr'
    exact not_isNull_of_sameKey hsame (h.keys v r hr)
  have hkeyOn : ∀ {v r'}, rows' v = some r' → KeyOn P (x.definition.keyOf r') :=
    fun hr' => (hfields' _ _ hr').keyOn (hkeys _ _ hr')
  constructor
  · exact h.columns
  · exact h.valid
  · exact hkeys
  · intro key n hkey
    rw [h.holds key n hkey]
    constructor
    · rintro ⟨r, hr, hsame⟩
      obtain ⟨r', hr', hmoved⟩ := hforth _ r hr
      exact ⟨r', hr', hsame.trans hP hkey (h.keyOn hfields hr) (hkeyOn hr') hmoved⟩
    · rintro ⟨r', hr', hsame⟩
      obtain ⟨r, hr, hmoved⟩ := hboth hr'
      exact ⟨r, hr, hsame.trans hP hkey (hkeyOn hr') (h.keyOn hfields hr)
        (hmoved.symm hP (h.keyOn hfields hr) (hkeyOn hr'))⟩
  · intro hprimary v w a' b' ha' hb' hsame
    obtain ⟨a, ha, hasame⟩ := hboth ha'
    obtain ⟨b, hb, hbsame⟩ := hboth hb'
    have hab := hasame.trans hP (h.keyOn hfields ha) (hkeyOn ha') (hkeyOn hb') hsame
    exact h.unique hprimary v w a b ha hb
      (hab.trans hP (h.keyOn hfields ha) (hkeyOn hb') (h.keyOn hfields hb)
        (hbsame.symm hP (h.keyOn hfields hb) (hkeyOn hb')))

/-- A primary index holds a key for one row at most. -/
theorem eq_of_holds {n m : RowId} (h : x.Agrees P rows) (hP : OrderedOn P)
    (hfields : ∀ v r, rows v = some r → r.FieldsIn P) (hprimary : x.definition.primary)
    (hkey : KeyOn P key) (hn : x.tree.Holds key n) (hm : x.tree.Holds key m) : n = m := by
  obtain ⟨a, ha, hsame⟩ := (h.holds key n hkey).1 hn
  obtain ⟨b, hb, hother⟩ := (h.holds key m hkey).1 hm
  have hab := (hsame.symm hP hkey (h.keyOn hfields ha)).trans hP (h.keyOn hfields ha) hkey
    (h.keyOn hfields hb) hother
  exact congrArg Uid.place (h.unique hprimary _ _ a b ha hb hab)

/-- A primary index takes no row whose key it holds for another one. -/
theorem not_sameKey_of_insert {v : Uid} {other : Row} (h : x.Agrees P rows) (hP : OrderedOn P)
    (hfields : ∀ v r, rows v = some r → r.FieldsIn P) (hprimary : x.definition.primary)
    (hcolumns : x.definition.columns ≠ []) (hkey : KeyOn P (x.definition.keyOf r))
    (hinsert : x.tree.insert (x.definition.keyOf r) u.place = .ok tree) (hne : v ≠ u)
    (hother : rows v = some other) :
    ¬ SameKey (x.definition.keyOf r) (x.definition.keyOf other) := by
  intro hsame
  have hholds : x.tree.Holds (x.definition.keyOf r) v.place :=
    (h.holds _ _ hkey).2 ⟨other, hother, hsame⟩
  have hplace := CompositeIndex.eq_of_holds_of_insert hP h.valid h.strict hkey
    (h.refusesDuplicates hprimary hcolumns) (h.eq_of_holds hP hfields hprimary) hinsert hholds
  exact hne (congrArg Uid.mk hplace)

theorem insert (h : x.Agrees P rows) (hP : OrderedOn P)
    (hfields : ∀ v r, rows v = some r → r.FieldsIn P) (hcolumns : x.definition.columns ≠ [])
    (hnone : rows u = none) (hr : r.FieldsIn P)
    (hinsert : x.tree.insert (x.definition.keyOf r) u.place = .ok tree)
    (hrows' : ∀ v, rows' v = if v = u then some r else rows v) :
    Agrees P rows' { x with tree } := by
  have hnull : ∀ value ∈ x.definition.keyOf r, value.isNull = false :=
    CompositeIndex.not_isNull_of_insert h.strict hinsert
  have hkey := hr.keyOn hnull
  have hcases : ∀ {v r'}, rows' v = some r' → v = u ∧ r' = r ∨ v ≠ u ∧ rows v = some r' := by
    intro v r' hr'
    rw [hrows'] at hr'
    split at hr'
    · next heq => exact .inl ⟨heq, (Option.some.inj hr').symm⟩
    · next hne => exact .inr ⟨hne, hr'⟩
  constructor
  · exact (CompositeIndex.columns_insert hinsert).trans h.columns
  · exact CompositeIndex.valid_insert hP h.valid hkey hinsert
  · intro v r' hr'
    rcases hcases hr' with ⟨_, rfl⟩ | ⟨_, hr'⟩
    · exact hnull
    · exact h.keys v r' hr'
  · intro key n hother
    dsimp only
    rw [CompositeIndex.holds_insert hP h.valid h.strict hkey hinsert hother, h.holds key n hother,
      hrows']
    by_cases heq : (⟨n⟩ : Uid) = u
    · subst heq
      rw [if_pos rfl, hnone]
      constructor
      · rintro (⟨_, hfalse, _⟩ | ⟨hsame, _⟩)
        · cases hfalse
        · exact ⟨r, rfl, hsame⟩
      · rintro ⟨_, ⟨⟩, hsame⟩
        exact .inr ⟨hsame, rfl⟩
    · rw [if_neg heq]
      exact ⟨fun hor => hor.elim id fun ⟨_, hn⟩ => absurd (congrArg Uid.mk hn) heq, .inl⟩
  · intro hprimary v w a b ha hb hsame
    have hnew : ∀ {v r'},
        v ≠ u → rows v = some r' → ¬ SameKey (x.definition.keyOf r) (x.definition.keyOf r') :=
      h.not_sameKey_of_insert hP hfields hprimary hcolumns hkey hinsert
    rcases hcases ha with ⟨rfl, rfl⟩ | ⟨hv, ha⟩
    · rcases hcases hb with ⟨rfl, rfl⟩ | ⟨hw, hb⟩
      · rfl
      · exact absurd hsame (hnew hw hb)
    · rcases hcases hb with ⟨rfl, rfl⟩ | ⟨hw, hb⟩
      · exact absurd (hsame.symm hP (h.keyOn hfields ha) hkey) (hnew hv ha)
      · exact h.unique hprimary v w a b ha hb hsame

theorem erase (h : x.Agrees P rows) (hP : OrderedOn P)
    (hfields : ∀ v r, rows v = some r → r.FieldsIn P) (hr : rows u = some r)
    (herase : x.tree.erase (x.definition.keyOf r) u.place = .ok tree)
    (hrows' : ∀ v, rows' v = if v = u then none else rows v) : Agrees P rows' { x with tree } := by
  have hkey := h.keyOn hfields hr
  have hback : ∀ {v r'}, rows' v = some r' → rows v = some r' := by
    intro v r' hr'
    rw [hrows'] at hr'
    split at hr'
    · cases hr'
    · exact hr'
  constructor
  · exact (CompositeIndex.columns_erase herase).trans h.columns
  · exact CompositeIndex.valid_erase hP h.valid hkey herase
  · exact fun v r' hr' => h.keys v r' (hback hr')
  · intro key n hother
    dsimp only
    rw [CompositeIndex.holds_erase hP h.valid hkey herase hother, h.holds key n hother, hrows']
    by_cases heq : (⟨n⟩ : Uid) = u
    · subst heq
      rw [if_pos rfl, hr]
      constructor
      · rintro ⟨⟨_, ⟨⟩, hsame⟩, hne⟩
        exact absurd ⟨hsame, rfl⟩ hne
      · rintro ⟨_, hfalse, _⟩
        cases hfalse
    · rw [if_neg heq]
      exact ⟨And.left, fun hex => ⟨hex, fun ⟨_, hn⟩ => heq (congrArg Uid.mk hn)⟩⟩
  · exact fun hprimary v w a b ha hb hsame => h.unique hprimary v w a b (hback ha) (hback hb) hsame

/-- An index is moved along when a row is exchanged. -/
theorem moved {old new : Option Row} (h : x.Agrees P rows) (hP : OrderedOn P)
    (hfields : ∀ v r, rows v = some r → r.FieldsIn P) (hcolumns : x.definition.columns ≠ [])
    (hold : rows u = old) (hnew : ∀ r, new = some r → r.FieldsIn P)
    (hmoves : x.MovesTo u old new tree) (hrows' : ∀ v, rows' v = if v = u then new else rows v) :
    Agrees P rows' { x with tree } := by
  have hfields' : ∀ v r, rows' v = some r → r.FieldsIn P := by
    intro v r hr
    rw [hrows'] at hr
    split at hr
    · exact hnew r hr
    · exact hfields v r hr
  cases old with
  | none =>
    cases new with
    | none =>
      cases (hmoves : tree = x.tree)
      have hsame : rows' = rows := by
        funext v
        rw [hrows']
        split
        · next heq => rw [heq, hold]
        · rfl
      exact hsame ▸ h
    | some r => exact h.insert hP hfields hcolumns hold (hnew r rfl) hmoves hrows'
  | some old =>
    cases new with
    | none => exact h.erase hP hfields hold hmoves hrows'
    | some r =>
      simp only [Index.MovesTo, Option.map_some] at hmoves
      split at hmoves
      · next hsame =>
        -- the row stays where it is in the tree
        subst hmoves
        have hsame := Value.sameKey_iff.1 hsame
        refine h.congr hP hfields hfields' (fun v r' hr' => ?_) fun v r' hr' => ?_
        · by_cases heq : v = u
          · subst heq
            rw [hold] at hr'
            cases hr'
            exact ⟨r, by rw [hrows', if_pos rfl], hsame⟩
          · exact ⟨r', by rw [hrows', if_neg heq, hr'], .refl hP (h.keyOn hfields hr')⟩
        · by_cases heq : v = u
          · exact ⟨old, heq ▸ hold⟩
          · rw [hrows', if_neg heq] at hr'
            exact ⟨r', hr'⟩
      · obtain ⟨mid, herase, hinsert⟩ := hmoves
        have hmid : Agrees P (fun v => if v = u then none else rows v) { x with tree := mid } :=
          h.erase hP hfields hold herase fun _ => rfl
        refine hmid.insert hP (fun v r' hr' => ?_) hcolumns (if_pos rfl) (hnew r rfl) hinsert
          fun v => ?_
        · split at hr'
          · cases hr'
          · exact hfields v r' hr'
        · rw [hrows']
          split <;> rfl

/-- An index that is filled with rows, one after the other. -/
theorem filled {list : List Row} {s : Snapshot} (h : x.Agrees P rows) (hP : OrderedOn P)
    (hdefinition : x.definition = d) (hcolumns : d.columns ≠ [])
    (hfields : ∀ v r, rows v = some r → r.FieldsIn P) (hlist : ∀ r ∈ list, r.FieldsIn P)
    (hnone : ∀ r ∈ list, rows r.uid = none) (hnodup : (list.map Row.uid).Nodup)
    (hfold : list.foldlM (s.indexRow d) x = .ok y) :
    ∃ rows',
      y.Agrees P rows' ∧ ∀ v r, rows' v = some r ↔ (r ∈ list ∧ r.uid = v) ∨ rows v = some r := by
  induction list generalizing x rows with
  | nil =>
    cases hfold
    exact ⟨rows, h,
      fun v r => ⟨.inr, fun hor => hor.elim (fun hand => absurd hand.1 List.not_mem_nil) id⟩⟩
  | cons r list ih =>
    obtain ⟨hr, hlist⟩ := List.forall_mem_cons.1 hlist
    obtain ⟨hrnone, hnone⟩ := List.forall_mem_cons.1 hnone
    rw [List.map_cons, List.nodup_cons] at hnodup
    rw [List.foldlM_cons] at hfold
    obtain ⟨z, hz, hfold⟩ := bind_eq_ok.1 hfold
    obtain ⟨_, _, hz⟩ := bind_eq_ok.1 hz
    obtain ⟨tree, hinsert, rfl⟩ := Snapshot.addKey_eq_ok hz
    subst hdefinition
    have hmore : Agrees P (fun v => if v = r.uid then some r else rows v) { x with tree } :=
      h.insert hP hfields hcolumns hrnone hr hinsert fun _ => rfl
    have hfieldsMore :
        ∀ v r', (if v = r.uid then some r else rows v) = some r' → r'.FieldsIn P := by
      intro v r' hr'
      split at hr'
      · exact Option.some.inj hr' ▸ hr
      · exact hfields v r' hr'
    have hnoneMore : ∀ r' ∈ list, (if r'.uid = r.uid then some r else rows r'.uid) = none := by
      intro r' hr'
      have hne : r'.uid ≠ r.uid := fun heq => hnodup.1 (heq ▸ List.mem_map_of_mem hr')
      rw [if_neg hne]
      exact hnone r' hr'
    obtain ⟨rows', hrows', hmem⟩ := ih hmore rfl hfieldsMore hlist hnoneMore hnodup.2 hfold
    refine ⟨rows', hrows', fun v r' => (hmem v r').trans ?_⟩
    rw [List.mem_cons]
    by_cases heq : v = r.uid
    · rw [if_pos heq, heq, hrnone, Option.some.injEq]
      constructor
      · rintro (⟨hr', huid⟩ | rfl)
        · exact .inl ⟨.inr hr', huid⟩
        · exact .inl ⟨.inl rfl, rfl⟩
      · rintro (⟨rfl | hr', huid⟩ | hfalse)
        · exact .inr rfl
        · exact .inl ⟨hr', huid⟩
        · cases hfalse
    · rw [if_neg heq]
      refine or_congr (and_congr_left fun huid => ?_) Iff.rfl
      refine (or_iff_right fun (hsame : r' = r) => heq ?_).symm
      rw [← huid, hsame]

/-- The index of no rows. -/
theorem new {uid : Uid} (htree : CompositeIndex.new d.keyColumns = .ok tree) :
    Agrees P (fun _ => none) ⟨uid, d, tree⟩ := by
  obtain ⟨_, rfl⟩ := CompositeIndex.new_eq_ok htree
  constructor
  · rfl
  · exact CompositeIndex.valid_new
  · exact fun _ _ hr => (nomatch hr)
  · exact fun _ _ _ => ⟨fun hholds => absurd hholds CompositeIndex.not_holds_new,
      fun ⟨_, hr, _⟩ => (nomatch hr)⟩
  · exact fun _ _ _ _ _ hr => (nomatch hr)

end Index.Agrees

end SnapshotStore
