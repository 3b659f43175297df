import SnapshotStore.Index.Level
import SnapshotStore.Proofs.Index.Key
import SnapshotStore.Proofs.SortedMap.Laws

/-!
# A level as a set of keys and rows

`Holds` says that a row stands under a key, or under one that is the same, whatever the nesting. A
change of a level adds one pair to this set or takes one out of it.
-/

namespace SnapshotStore

/-- Equal places have equal entries. -/
theorem SortedMap.Valid.get?_congr {K V : Type} [Ord K] {P : K → Prop} {m : SortedMap K V} {a b : K}
    (hP : OrderedOn P) (ha : P a) (hb : P b) (h : m.Valid P) (hab : compare a b = .eq) :
    m.get? a = m.get? b := by
  have hkeys := h.keys
  rw [h.get?_eq hP ha, h.get?_eq hP hb]
  generalize m.toList = entries at hkeys
  induction entries with
  | nil => rfl
  | cons entry entries ih =>
    obtain ⟨hentry, hrest⟩ := List.forall_mem_cons.1 hkeys
    rw [Entries.get?_cons, Entries.get?_cons, hP.congr_right hentry ha hb hab, ih hrest]

namespace Level

variable {K : Type}

/-- The pairs with one more component in front of their keys. -/
def prepend (head : K) (pairs : List (List K × RowId)) : List (List K × RowId) :=
  pairs.map fun pair => (head :: pair.1, pair.2)

/-- The pairs below one entry of a column. -/
def listed {columns : List KeyColumn} (entry : KeyPart K × Level K columns) :
    List (List K × RowId) :=
  prepend entry.1.value (pairs columns entry.2)

theorem pairs_cons {column : KeyColumn} {columns : List KeyColumn}
    {level : Counted (SortedMap (KeyPart K) (Level K columns))} :
    pairs (column :: columns) level = level.entries.toList.flatMap listed :=
  rfl

/-- How many pairs stand below the entries of a column. -/
def total {columns : List KeyColumn} (entries : SortedMap (KeyPart K) (Level K columns)) : Nat :=
  (entries.toList.map fun entry => (pairs columns entry.2).length).sum

theorem length_pairs_cons {column : KeyColumn} {columns : List KeyColumn}
    {level : Counted (SortedMap (KeyPart K) (Level K columns))} :
    (pairs (column :: columns) level).length = total level.entries := by
  simp only [pairs_cons, List.length_flatMap, listed, prepend, List.length_map, total]

variable [Ord K]

/-- Every map of a level is valid, no inner level is empty, and the number of pairs is right. -/
def Valid (P : K → Prop) : (columns : List KeyColumn) → Level K columns → Prop
  | [], rows => SortedMap.Lawful rows
  | column :: columns, (level : Counted _) =>
    (SortedMap.Valid (PartOf P column) level.entries ∧
      ∀ entry ∈ SortedMap.toList level.entries,
        Valid P columns entry.2 ∧ isEmpty columns entry.2 = false) ∧
      level.count = (pairs (column :: columns) level).length

/-- A row stands under a key. -/
def Holds : (columns : List KeyColumn) → Level K columns → (key : List K) → RowId → Prop
  | [], rows, [], row => SortedMap.contains rows row
  | [], _, _ :: _, _ => False
  | _ :: _, _, [], _ => False
  | column :: columns, (level : Counted _), head :: rest, row =>
    ∃ inner, SortedMap.get? level.entries ⟨head, column.direction⟩ = some inner ∧
      Holds columns inner rest row

variable {P : K → Prop} {columns : List KeyColumn} {level : Level K columns}
  {key other : List K} {row : RowId}

theorem valid_empty : (columns : List KeyColumn) → Valid P columns (empty columns : Level K columns)
  | [] => SortedMap.valid_empty
  | _ :: _ => ⟨⟨SortedMap.valid_empty, fun _ hentry => absurd hentry List.not_mem_nil⟩, rfl⟩

theorem not_holds_empty : ¬ Holds columns (empty columns : Level K columns) key row := by
  cases columns with
  | nil => cases key <;> exact fun h => nomatch h
  | cons column columns =>
    cases key with
    | nil => exact id
    | cons head rest => exact fun ⟨_, hget, _⟩ => nomatch hget

theorem length_of_holds (h : Holds columns level key row) : key.length = columns.length := by
  induction columns generalizing key with
  | nil =>
    cases key with
    | nil => rfl
    | cons => exact h.elim
  | cons column columns ih =>
    cases key with
    | nil => exact h.elim
    | cons head rest =>
      obtain ⟨inner, _, hinner⟩ := h
      rw [List.length_cons, List.length_cons, ih hinner]

theorem holds_of_mem_pairs (hP : OrderedOn P) (hvalid : Valid P columns level)
    {pair : List K × RowId} (hpair : pair ∈ pairs columns level) :
    KeyOn P pair.1 ∧ Holds columns level pair.1 pair.2 := by
  induction columns generalizing pair with
  | nil =>
    obtain ⟨row, hrow, rfl⟩ := List.mem_map.1 hpair
    exact ⟨fun _ hmem => absurd hmem List.not_mem_nil,
      (SortedMap.Lawful.contains_iff_mem_keys hvalid).2 hrow⟩
  | cons column columns ih =>
    obtain ⟨⟨hentries, hinner⟩, _⟩ := hvalid
    obtain ⟨entry, hentry, hmem⟩ := List.mem_flatMap.1 hpair
    obtain ⟨inside, hinside, rfl⟩ := List.mem_map.1 hmem
    obtain ⟨hkey, hholds⟩ := ih (hinner entry hentry).1 hinside
    have hpart : PartOf P column entry.1 := hentries.keys entry hentry
    have hget :=
      hentries.get?_of_mem_toList (hP.part column) hpart hentry ((hP.part column).refl hpart)
    refine ⟨keyOn_cons.2 ⟨hpart.2, hkey⟩, entry.2, ?_, hholds⟩
    rw [← hpart.1]
    exact hget

theorem exists_mem_pairs_of_holds (hP : OrderedOn P) (hvalid : Valid P columns level)
    (hkey : KeyOn P key) (h : Holds columns level key row) :
    ∃ other, (other, row) ∈ pairs columns level ∧ SameKey other key := by
  induction columns generalizing key with
  | nil =>
    cases key with
    | nil =>
      exact ⟨[], List.mem_map.2 ⟨row, (SortedMap.Lawful.contains_iff_mem_keys hvalid).1 h, rfl⟩,
        trivial⟩
    | cons => exact h.elim
  | cons column columns ih =>
    cases key with
    | nil => exact h.elim
    | cons head rest =>
      obtain ⟨hhead, hrest⟩ := keyOn_cons.1 hkey
      obtain ⟨⟨hentries, hinner⟩, _⟩ := hvalid
      obtain ⟨inner, hget, hholds⟩ := h
      have hpart : PartOf P column ⟨head, column.direction⟩ := ⟨rfl, hhead⟩
      obtain ⟨entry, hentry, heq, rfl⟩ := hentries.mem_toList_of_get? (hP.part column) hpart hget
      obtain ⟨other, hother, hsame⟩ := ih (hinner entry hentry).1 hrest hholds
      refine ⟨entry.1.value :: other, List.mem_flatMap.2
        ⟨entry, hentry, List.mem_map.2 ⟨_, hother, rfl⟩⟩, ?_, hsame⟩
      exact (compare_part_eq_iff hP (hentries.keys entry hentry) hpart).1 heq

theorem isEmpty_iff (hvalid : Valid P columns level) :
    isEmpty columns level ↔ pairs columns level = [] := by
  cases columns with
  | nil =>
    refine (SortedMap.Valid.isEmpty_iff hvalid).trans ?_
    simp [pairs, SortedMap.keys]
  | cons column columns =>
    change Counted (SortedMap (KeyPart K) (Level K columns)) at level
    show decide (level.count = 0) = true ↔ _
    rw [decide_eq_true_iff, hvalid.2, List.length_eq_zero_iff]

theorem size_eq (hcolumns : columns ≠ []) (hvalid : Valid P columns level) :
    size columns level = (pairs columns level).length := by
  cases columns with
  | nil => exact absurd rfl hcolumns
  | cons => exact hvalid.2

theorem isEmpty_eq_false_of_holds (hP : OrderedOn P) (hvalid : Valid P columns level)
    (hkey : KeyOn P key) (h : Holds columns level key row) : isEmpty columns level = false := by
  obtain ⟨_, hmem, _⟩ := exists_mem_pairs_of_holds hP hvalid hkey h
  refine Bool.eq_false_iff.2 fun hempty => ?_
  rw [(isEmpty_iff hvalid).1 hempty] at hmem
  cases hmem

/-- A level that is not empty holds a row. -/
theorem exists_holds (hP : OrderedOn P) (hvalid : Valid P columns level)
    (h : isEmpty columns level = false) : ∃ key row, KeyOn P key ∧ Holds columns level key row := by
  have hne : pairs columns level ≠ [] := fun hnil => by
    rw [(isEmpty_iff hvalid).2 hnil] at h
    cases h
  obtain ⟨⟨key, row⟩, hpair⟩ := List.exists_mem_of_ne_nil _ hne
  exact ⟨key, row, holds_of_mem_pairs hP hvalid hpair⟩

theorem holds_congr (hP : OrderedOn P) (hvalid : Valid P columns level) (hkey : KeyOn P key)
    (hother : KeyOn P other) (hsame : SameKey key other) :
    Holds columns level key row ↔ Holds columns level other row := by
  induction columns generalizing key other with
  | nil =>
    cases key <;> cases other <;> first | exact Iff.rfl | exact hsame.elim
  | cons column columns ih =>
    cases key with
    | nil =>
      cases other with
      | nil => exact Iff.rfl
      | cons => exact hsame.elim
    | cons head rest =>
      cases other with
      | nil => exact hsame.elim
      | cons head' rest' =>
        obtain ⟨hhead, hrest⟩ := keyOn_cons.1 hkey
        obtain ⟨hhead', hrest'⟩ := keyOn_cons.1 hother
        obtain ⟨⟨hentries, hinner⟩, _⟩ := hvalid
        have hpart : PartOf P column ⟨head, column.direction⟩ := ⟨rfl, hhead⟩
        have hpart' : PartOf P column ⟨head', column.direction⟩ := ⟨rfl, hhead'⟩
        have hget := hentries.get?_congr (hP.part column) hpart hpart'
          ((compare_part_eq_iff hP hpart hpart').2 hsame.1)
        show (∃ inner, _ = some inner ∧ _) ↔ ∃ inner, _ = some inner ∧ _
        rw [hget]
        refine exists_congr fun inner => and_congr_right fun hfound => ?_
        obtain ⟨entry, hentry, _, rfl⟩ := hentries.mem_toList_of_get? (hP.part column) hpart' hfound
        exact ih (hinner entry hentry).1 hrest hrest' hsame.2

/-! ### One column -/

section Column

variable {column : KeyColumn} {level : Counted (SortedMap (KeyPart K) (Level K columns))}
  {entries : SortedMap (KeyPart K) (Level K columns)} {head : K} {rest : List K}
  {inner : Level K columns} {count : Nat}

theorem holds_cons :
    Holds (column :: columns) level (head :: rest) row ↔
      ∃ inner, level.entries.get? ⟨head, column.direction⟩ = some inner ∧
        Holds columns inner rest row :=
  Iff.rfl

/-- The entries of a column are valid, whatever their number is said to be. -/
def Stored (P : K → Prop) (column : KeyColumn) (columns : List KeyColumn)
    (entries : SortedMap (KeyPart K) (Level K columns)) : Prop :=
  SortedMap.Valid (PartOf P column) entries ∧
    ∀ entry ∈ entries.toList, Valid P columns entry.2 ∧ isEmpty columns entry.2 = false

theorem Valid.stored (hvalid : Valid P (column :: columns) level) :
    Stored P column columns level.entries := hvalid.1

theorem Valid.count_eq (hvalid : Valid P (column :: columns) level) :
    level.count = total level.entries := hvalid.2.trans length_pairs_cons

/-- What stands below one component of a column, nothing if it is not there. -/
def below (columns : List KeyColumn) (entries : SortedMap (KeyPart K) (Level K columns))
    (key : KeyPart K) : Level K columns := (entries.get? key).getD (empty columns)

theorem Stored.of_get? (hP : OrderedOn P) (hstored : Stored P column columns entries)
    (hhead : P head) (hget : entries.get? ⟨head, column.direction⟩ = some inner) :
    Valid P columns inner ∧ isEmpty columns inner = false := by
  obtain ⟨hentries, hinner⟩ := hstored
  obtain ⟨entry, hentry, _, rfl⟩ := hentries.mem_toList_of_get? (hP.part column) ⟨rfl, hhead⟩ hget
  exact hinner entry hentry

theorem Stored.below (hP : OrderedOn P) (hstored : Stored P column columns entries)
    (hhead : P head) : Valid P columns (below columns entries ⟨head, column.direction⟩) := by
  rw [Level.below]
  cases hget : entries.get? ⟨head, column.direction⟩ with
  | none => exact valid_empty columns
  | some inner => exact (hstored.of_get? hP hhead hget).1

theorem Stored.insert (hP : OrderedOn P) (hstored : Stored P column columns entries)
    (hhead : P head) (hinner : Valid P columns inner) (hempty : isEmpty columns inner = false) :
    Stored P column columns (entries.insert ⟨head, column.direction⟩ inner) := by
  have hpart : PartOf P column ⟨head, column.direction⟩ := ⟨rfl, hhead⟩
  refine ⟨hstored.1.insert (hP.part column) hpart, fun entry hentry => ?_⟩
  rw [hstored.1.toList_insert (hP.part column) hpart] at hentry
  rcases Entries.mem_insert hentry with rfl | hentry | ⟨_, _, hvalue⟩
  · exact ⟨hinner, hempty⟩
  · exact hstored.2 entry hentry
  · rw [hvalue]
    exact ⟨hinner, hempty⟩

theorem Stored.erase (hP : OrderedOn P) (hstored : Stored P column columns entries)
    (hhead : P head) : Stored P column columns (entries.erase ⟨head, column.direction⟩) := by
  have hpart : PartOf P column ⟨head, column.direction⟩ := ⟨rfl, hhead⟩
  refine ⟨hstored.1.erase (hP.part column) hpart, fun entry hentry => ?_⟩
  rw [hstored.1.toList_erase (hP.part column) hpart] at hentry
  exact hstored.2 entry (Entries.erase_sublist.subset hentry)

omit [Ord K] in
theorem pairs_empty : pairs columns (empty columns : Level K columns) = [] := by
  cases columns <;> rfl

theorem Stored.total_insert (hP : OrderedOn P) (hstored : Stored P column columns entries)
    (hhead : P head) (inner : Level K columns) :
    total (entries.insert ⟨head, column.direction⟩ inner) +
        (pairs columns (Level.below columns entries ⟨head, column.direction⟩)).length =
      total entries + (pairs columns inner).length := by
  have hpart : PartOf P column ⟨head, column.direction⟩ := ⟨rfl, hhead⟩
  have hsum := Entries.sum_insert (hP.part column) hpart hstored.1.keys
    hstored.1.strictlyAscending inner fun inner => (pairs columns inner).length
  rw [← hstored.1.toList_insert (hP.part column) hpart, ← hstored.1.get?_eq (hP.part column) hpart]
    at hsum
  rw [total, total, ← hsum, Level.below]
  cases entries.get? ⟨head, column.direction⟩ <;> simp [pairs_empty]

theorem Stored.total_erase (hP : OrderedOn P) (hstored : Stored P column columns entries)
    (hhead : P head) :
    total (entries.erase ⟨head, column.direction⟩) +
        (pairs columns (Level.below columns entries ⟨head, column.direction⟩)).length =
      total entries := by
  have hpart : PartOf P column ⟨head, column.direction⟩ := ⟨rfl, hhead⟩
  have hsum := Entries.sum_erase (hP.part column) hpart hstored.1.keys
    hstored.1.strictlyAscending fun inner => (pairs columns inner).length
  rw [← hstored.1.toList_erase (hP.part column) hpart, ← hstored.1.get?_eq (hP.part column) hpart]
    at hsum
  rw [total, total, ← hsum, Level.below]
  cases entries.get? ⟨head, column.direction⟩ <;> simp [pairs_empty]

/-- A key of the level after a change below one component is a key there or elsewhere. -/
theorem holds_insert_inner (hP : OrderedOn P) (hstored : Stored P column columns level.entries)
    (hhead : P head) {head' : K} {rest' : List K} (hhead' : P head') :
    Holds (column :: columns)
        (Counted.mk (level.entries.insert ⟨head, column.direction⟩ inner) count)
        (head' :: rest') row ↔
      if compare head' head = .eq then Holds columns inner rest' row
        else Holds (column :: columns) level (head' :: rest') row := by
  have hpart : PartOf P column ⟨head, column.direction⟩ := ⟨rfl, hhead⟩
  have hpart' : PartOf P column ⟨head', column.direction⟩ := ⟨rfl, hhead'⟩
  have hiff := ((hP.part column).eq_comm hpart hpart').trans (compare_part_eq_iff hP hpart' hpart)
  rw [holds_cons, hstored.1.get?_insert (hP.part column) hpart hpart']
  by_cases heq : compare head' head = .eq
  · rw [if_pos (hiff.2 heq), if_pos heq]
    exact ⟨fun ⟨_, hsome, hholds⟩ => Option.some.inj hsome ▸ hholds,
      fun hholds => ⟨inner, rfl, hholds⟩⟩
  · rw [if_neg fun h => heq (hiff.1 h), if_neg heq]
    exact Iff.rfl

theorem holds_erase_inner (hP : OrderedOn P) (hstored : Stored P column columns level.entries)
    (hhead : P head) {head' : K} {rest' : List K} (hhead' : P head') :
    Holds (column :: columns) (Counted.mk (level.entries.erase ⟨head, column.direction⟩) count)
        (head' :: rest') row ↔
      compare head' head ≠ .eq ∧ Holds (column :: columns) level (head' :: rest') row := by
  have hpart : PartOf P column ⟨head, column.direction⟩ := ⟨rfl, hhead⟩
  have hpart' : PartOf P column ⟨head', column.direction⟩ := ⟨rfl, hhead'⟩
  have hiff := ((hP.part column).eq_comm hpart hpart').trans (compare_part_eq_iff hP hpart' hpart)
  rw [holds_cons, hstored.1.get?_erase (hP.part column) hpart hpart']
  by_cases heq : compare head' head = .eq
  · rw [if_pos (hiff.2 heq)]
    exact ⟨fun ⟨_, hsome, _⟩ => (Option.some_ne_none _ hsome.symm).elim, fun h => absurd heq h.1⟩
  · rw [if_neg fun h => heq (hiff.1 h)]
    exact ⟨fun h => ⟨heq, h⟩, fun h => h.2⟩

section Replaced

variable {changed : SortedMap (KeyPart K) (Level K columns)}
  (hchanged : (if isEmpty columns inner then level.entries.erase ⟨head, column.direction⟩
    else level.entries.insert ⟨head, column.direction⟩ inner) = changed)
include hchanged

/-- A component is dropped once nothing is left below it. -/
theorem Stored.replace (hP : OrderedOn P) (hstored : Stored P column columns level.entries)
    (hhead : P head) (hinner : Valid P columns inner) : Stored P column columns changed := by
  cases hempty : isEmpty columns inner with
  | true =>
    rw [if_pos hempty] at hchanged
    subst hchanged
    exact hstored.erase hP hhead
  | false =>
    rw [if_neg (Bool.eq_false_iff.1 hempty)] at hchanged
    subst hchanged
    exact hstored.insert hP hhead hinner hempty

theorem Stored.total_replace (hP : OrderedOn P) (hstored : Stored P column columns level.entries)
    (hhead : P head) (hinner : Valid P columns inner) :
    total changed +
        (pairs columns (Level.below columns level.entries ⟨head, column.direction⟩)).length =
      total level.entries + (pairs columns inner).length := by
  cases hempty : isEmpty columns inner with
  | true =>
    rw [if_pos hempty] at hchanged
    subst hchanged
    rw [(isEmpty_iff hinner).1 hempty]
    exact hstored.total_erase hP hhead
  | false =>
    rw [if_neg (Bool.eq_false_iff.1 hempty)] at hchanged
    subst hchanged
    exact hstored.total_insert hP hhead inner

/-- Whether the component stays or goes, below it stand the rows of the inner level. -/
theorem holds_replace_inner (hP : OrderedOn P) (hstored : Stored P column columns level.entries)
    (hhead : P head) (hinner : Valid P columns inner) {head' : K} {rest' : List K}
    (hother : KeyOn P (head' :: rest')) :
    Holds (column :: columns) (Counted.mk changed count) (head' :: rest') row ↔
      if compare head' head = .eq then Holds columns inner rest' row
        else Holds (column :: columns) level (head' :: rest') row := by
  obtain ⟨hhead', hrest'⟩ := keyOn_cons.1 hother
  cases hempty : isEmpty columns inner with
  | true =>
    rw [if_pos hempty] at hchanged
    subst hchanged
    refine (holds_erase_inner hP hstored hhead hhead').trans ?_
    by_cases heq : compare head' head = .eq
    · rw [if_pos heq]
      refine ⟨fun h => absurd heq h.1, fun h => ?_⟩
      rw [isEmpty_eq_false_of_holds hP hinner hrest' h] at hempty
      cases hempty
    · rw [if_neg heq]
      exact ⟨And.right, fun h => ⟨heq, h⟩⟩
  | false =>
    rw [if_neg (Bool.eq_false_iff.1 hempty)] at hchanged
    subst hchanged
    exact holds_insert_inner hP hstored hhead hhead'

end Replaced

/-- Below one component a level holds what the inner level there does. -/
theorem holds_cons_of_get? (hP : OrderedOn P) (hstored : Stored P column columns level.entries)
    (hhead : P head) {head' : K} {rest' : List K} (hhead' : P head')
    (heq : compare head' head = .eq) :
    Holds (column :: columns) level (head' :: rest') row ↔
      ∃ inner, SortedMap.get? level.entries ⟨head, column.direction⟩ = some inner ∧
        Holds columns inner rest' row := by
  have hpart : PartOf P column ⟨head, column.direction⟩ := ⟨rfl, hhead⟩
  have hpart' : PartOf P column ⟨head', column.direction⟩ := ⟨rfl, hhead'⟩
  rw [holds_cons, hstored.1.get?_congr (hP.part column) hpart' hpart
    ((compare_part_eq_iff hP hpart' hpart).2 heq)]

end Column

end Level

end SnapshotStore
