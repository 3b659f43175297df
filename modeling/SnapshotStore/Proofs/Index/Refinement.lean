import SnapshotStore.Proofs.Index.Composite
import SnapshotStore.Proofs.Index.Flat
import SnapshotStore.Proofs.Index.Walk

/-!
# Composite indexes refine flat ones

Whatever is asked of a composite index, it answers as a flat list of keys and rows does: with the
same errors, with the same pairs in order, and with the same numbers of them. That the rules of the
columns are spread over the levels makes no difference to what they say about a whole key.
-/

namespace SnapshotStore

/-! ### The rules of the columns -/

namespace Level

variable {K : Type} [Ord K] [HasNull K] {P : K → Prop} {columns : List KeyColumn}
  {level : Level K columns} {key : List K} {row r : RowId} {place : Nat}

omit [Ord K] in
theorem barred?_cons {column : KeyColumn} {head : K} {rest : List K} :
    barred? place (column :: columns) (head :: rest) =
      if HasNull.isNull head ∧ column.onNull ≠ .allow then some (place, column.onNull)
      else barred? (place + 1) columns rest := rfl

omit [Ord K] in
theorem barred?_cons_eq_none {column : KeyColumn} {head : K} {rest : List K} :
    barred? place (column :: columns) (head :: rest) = none ↔
      ¬ (HasNull.isNull head ∧ column.onNull ≠ .allow) ∧
        barred? (place + 1) columns rest = none := by
  rw [barred?_cons]
  split <;> simp_all

theorem duplicateRule_cons {column : KeyColumn} (h : columns ≠ []) :
    duplicateRule (column :: columns) = duplicateRule columns := by
  cases columns with
  | nil => exact absurd rfl h
  | cons next columns => rw [duplicateRule, List.getLast?_cons_cons, duplicateRule]

/-- A null that is not allowed is refused or skipped before anything else is looked at. -/
theorem insert?_of_barred {found : Nat} {rule : KeyRule}
    (h : barred? place columns key = some (found, rule)) :
    insert? place columns level key row =
      if rule = .disallow then .error (.nullKey found) else .ok none := by
  induction columns generalizing place key with
  | nil => cases h
  | cons column columns ih =>
    change Counted (SortedMap (KeyPart K) (Level K columns)) at level
    cases key with
    | nil => cases h
    | cons head rest =>
      rw [barred?_cons] at h
      rw [insert?_cons]
      by_cases hnull : HasNull.isNull head ∧ column.onNull ≠ .allow
      · rw [if_pos hnull] at h
        cases h
        rw [if_pos hnull]
      · rw [if_neg hnull] at h
        have hinner : columns ≠ [] := fun hnil => by
          rw [hnil] at h
          cases h
        rw [if_neg hnull, if_neg fun hlast => hinner hlast.1, ih h]
        split <;> rfl

/-- A key that is there already is left to the rule of the last column. -/
theorem insert?_of_taken (hbar : barred? place columns key = none)
    (hrule : duplicateRule columns ≠ .allow) (htaken : Holds columns level key r)
    (row : RowId) :
    insert? place columns level key row =
      if duplicateRule columns = .disallow then .error .duplicateKey else .ok none := by
  induction columns generalizing place key with
  | nil => exact absurd rfl hrule
  | cons column columns ih =>
    change Counted (SortedMap (KeyPart K) (Level K columns)) at level
    cases key with
    | nil => exact htaken.elim
    | cons head rest =>
      obtain ⟨hnull, hbar⟩ := barred?_cons_eq_none.1 hbar
      rw [insert?_cons, if_neg hnull]
      by_cases hlast : columns = []
      · subst hlast
        obtain ⟨inner, hget, _⟩ := htaken
        exact if_pos ⟨rfl, Option.isSome_iff_exists.2 ⟨inner, hget⟩, hrule⟩
      · rw [duplicateRule_cons hlast] at hrule ⊢
        rw [if_neg fun hfirst => hlast hfirst.1, ih hbar hrule (holds_below.2 htaken)]
        split <;> rfl

/-- Where no rule stands against it, a row comes in unless it is there. -/
theorem insert?_of_free (hP : OrderedOn P) (hvalid : Valid P columns level) (hkey : KeyOn P key)
    (hlength : key.length = columns.length) (hbar : barred? place columns key = none)
    (hfree : duplicateRule columns = .allow ∨ ∀ r, ¬ Holds columns level key r) (row : RowId) :
    ∃ result, insert? place columns level key row = .ok result ∧
      (result = none ↔ Holds columns level key row) := by
  induction columns generalizing place key with
  | nil =>
    rw [List.length_eq_zero_iff.1 hlength, insert?]
    refine ⟨_, rfl, ?_⟩
    change _ ↔ (SortedMap.contains level row : Prop)
    simp
  | cons column columns ih =>
    change Counted (SortedMap (KeyPart K) (Level K columns)) at level
    cases key with
    | nil => cases hlength
    | cons head rest =>
      obtain ⟨hhead, hrest⟩ := keyOn_cons.1 hkey
      have hstored := hvalid.stored
      obtain ⟨hnull, hbar⟩ := barred?_cons_eq_none.1 hbar
      have hlast : ¬ (columns = [] ∧
          (level.entries.get? ⟨head, column.direction⟩).isSome ∧ column.onDuplicate ≠ .allow) := by
        rintro ⟨rfl, hsome, hrule⟩
        obtain ⟨inner, hget⟩ := Option.isSome_iff_exists.1 hsome
        obtain ⟨hinner, hnonempty⟩ := hstored.of_get? hP hhead hget
        obtain ⟨found, r, _, hholds⟩ := exists_holds hP hinner hnonempty
        rw [List.length_eq_zero_iff.1 (length_of_holds hholds)] at hholds
        rw [List.length_eq_zero_iff.1 (Nat.succ.inj hlength)] at hfree
        exact hfree.elim hrule fun hnone => hnone r ⟨inner, hget, hholds⟩
      have hfree' : duplicateRule columns = .allow ∨
          ∀ r, ¬ Holds columns (below columns level.entries ⟨head, column.direction⟩) rest r := by
        by_cases hnil : columns = []
        · exact .inl (by rw [hnil]; rfl)
        · rw [duplicateRule_cons hnil] at hfree
          exact hfree.imp_right fun hnone r hholds => hnone r (holds_below.1 hholds)
      obtain ⟨inner, hinner, hiff⟩ :=
        ih (hstored.below hP hhead) hrest (Nat.succ.inj hlength) hbar hfree'
      refine ⟨inner.map (level.store ⟨head, column.direction⟩), ?_, ?_⟩
      · rw [insert?_cons, if_neg hnull, if_neg hlast, hinner]
        rfl
      · exact Option.map_eq_none_iff.trans (hiff.trans holds_below)

end Level

/-! ### One change -/

variable {K : Type} [Ord K] {x : CompositeIndex K} {columns : List KeyColumn} {flat : FlatIndex K}
  {key : List K} {row : RowId}

/-- Two results are the same error, or both are right and related. -/
inductive SameResult {E A B : Type} (R : A → B → Prop) : Except E A → Except E B → Prop where
  | error {e : E} : SameResult R (.error e) (.error e)
  | ok {a : A} {b : B} (h : R a b) : SameResult R (.ok a) (.ok b)

theorem SameResult.bind {E A B C D : Type} {R : A → B → Prop} {S : C → D → Prop} {x : Except E A}
    {y : Except E B} {f : A → Except E C} {g : B → Except E D} (h : SameResult R x y)
    (hfg : ∀ a b, R a b → SameResult S (f a) (g b)) : SameResult S (x >>= f) (y >>= g) := by
  cases h with
  | error => exact .error
  | ok h => exact hfg _ _ h

theorem SameResult.mono {E A B : Type} {R S : A → B → Prop} {x : Except E A} {y : Except E B}
    (h : SameResult R x y) (hRS : ∀ a b, R a b → S a b) : SameResult S x y := by
  cases h with
  | error => exact .error
  | ok h => exact .ok (hRS _ _ h)

theorem SameResult.eq_of_same {E A B : Type} {R : A → B → Prop} {x : Except E A} {a : A} {b : B}
    {y : Except E B} (h : SameResult (fun a' b' => R a' b' ∧ (b' = b → a' = a)) x y)
    (hsame : y = .ok b) : x = .ok a := by
  cases h with
  | error => cases hsame
  | ok h => exact congrArg _ (h.2 (Except.ok.inj hsame))

/-- An index over some columns is in order and holds the pairs of a flat one. -/
structure CompositeIndex.Keeps (columns : List KeyColumn) (x : CompositeIndex K)
    (flat : FlatIndex K) : Prop where
  columns_eq : x.columns = columns
  nonempty : columns ≠ []
  valid : x.Valid fun _ => True
  distinct : flat.Distinct
  holds : ∀ key row, x.Holds key row ↔ flat.Has key row
  length_eq : x.pairs.length = flat.length

namespace CompositeIndex

open SortedMap (orderedOn_true)
open FlatIndex (keyOn_true)

theorem keeps_new (hcolumns : columns ≠ []) :
    Keeps columns (⟨columns, Level.empty columns⟩ : CompositeIndex K) [] where
  columns_eq := rfl
  nonempty := hcolumns
  valid := valid_new
  distinct := List.Pairwise.nil
  holds := fun key row => ⟨fun h => absurd h not_holds_new, fun ⟨_, hmem, _⟩ => nomatch hmem⟩
  length_eq := by rw [pairs, Level.pairs_empty]

theorem Keeps.exists_holds_iff (h : Keeps columns x flat) :
    (∃ row, x.Holds key row) ↔ flat.HasKey key := by
  rw [FlatIndex.hasKey_iff]
  exact exists_congr fun row => h.holds key row

variable [Std.TransOrd K]

section Insert

variable [HasNull K]

/-- A row that no rule stands against comes in here and there. -/
theorem Keeps.add (h : Keeps columns x flat) (hlength : key.length = columns.length)
    (hbar : barred? 0 columns key = none)
    (hfree : duplicateRule columns = .allow ∨ ¬ flat.HasKey key) :
    SameResult (fun y flat' => y.Keeps columns flat' ∧ (flat' = flat → y = x))
      (x.insert key row) (.ok (flat.add key row)) := by
  obtain ⟨rfl, hcolumns, hvalid, hdistinct, hholds, hcount⟩ := h
  have hfree' : duplicateRule x.columns = .allow ∨ ∀ r, ¬ x.Holds key r :=
    hfree.imp_right fun hnone r hr => hnone (FlatIndex.hasKey_iff.2 ⟨r, (hholds key r).1 hr⟩)
  obtain ⟨result, hresult, hiff⟩ :=
    Level.insert?_of_free orderedOn_true hvalid keyOn_true hlength hbar hfree' row
  rw [insert_eq_ok.2 ⟨hlength, result, hresult, rfl⟩, FlatIndex.add]
  cases result with
  | none =>
    rw [if_pos ((hholds key row).1 (hiff.1 rfl))]
    exact .ok ⟨⟨rfl, hcolumns, hvalid, hdistinct, hholds, hcount⟩, fun _ => rfl⟩
  | some level =>
    have hrow : ¬ flat.Has key row := fun hrow =>
      absurd (hiff.2 ((hholds key row).2 hrow)) (Option.some_ne_none level)
    obtain ⟨hlevel, hone⟩ := hvalid.insert? orderedOn_true keyOn_true hlength hresult
    rw [if_neg hrow]
    refine .ok ⟨⟨rfl, hcolumns, hlevel, ?_, fun other r => ?_, ?_⟩, fun hsame => ?_⟩
    · rw [← FlatIndex.add_of_not_has hrow]
      exact FlatIndex.distinct_add hdistinct
    · rw [← FlatIndex.add_of_not_has hrow, FlatIndex.has_add, ← hholds other r]
      exact Level.holds_insert? orderedOn_true hvalid keyOn_true hlength hresult other r keyOn_true
    · rw [List.length_append, ← hcount]
      exact hone
    · exact absurd (List.append_right_eq_self.1 hsame) (List.cons_ne_nil _ _)

/-- Inserting answers as the flat index does, and does nothing where that does nothing. -/
theorem Keeps.insert (h : Keeps columns x flat) (key : List K) (row : RowId) :
    SameResult (fun y flat' => y.Keeps columns flat' ∧ (flat' = flat → y = x))
      (x.insert key row) (flat.insert columns key row) := by
  have hkept : x.Keeps columns flat ∧ (flat = flat → x = x) := ⟨h, fun _ => rfl⟩
  have hcolumns := h.columns_eq
  subst hcolumns
  rw [FlatIndex.insert]
  by_cases hlength : key.length = x.columns.length
  · rw [if_pos hlength]
    cases hbar : barred? 0 x.columns key with
    | some found =>
      obtain ⟨place, rule⟩ := found
      rw [insert_of_length hlength, Level.insert?_of_barred hbar]
      cases rule with
      | disallow => exact .error
      | allow => exact .ok hkept
      | ignore => exact .ok hkept
    | none =>
      by_cases htaken : flat.HasKey key
      · obtain ⟨r, hholds⟩ := h.exists_holds_iff.2 htaken
        have hrefused (hrule : duplicateRule x.columns ≠ .allow) :=
          Level.insert?_of_taken hbar hrule hholds row
        simp only [if_pos htaken]
        cases hrule : duplicateRule x.columns with
        | allow => exact h.add hlength hbar (.inl hrule)
        | disallow =>
          rw [hrule] at hrefused
          rw [insert_of_length hlength, hrefused (by decide)]
          exact .error
        | ignore =>
          rw [hrule] at hrefused
          rw [insert_of_length hlength, hrefused (by decide)]
          exact .ok hkept
      · simp only [if_neg htaken]
        exact h.add hlength hbar (.inr htaken)
  · rw [if_neg hlength, CompositeIndex.insert, CompositeIndex.ensureLength, if_neg hlength]
    exact .error

end Insert

/-- Erasing answers as the flat index does, and does nothing where that does nothing. -/
theorem Keeps.erase (h : Keeps columns x flat) (key : List K) (row : RowId) :
    SameResult (fun y flat' => y.Keeps columns flat' ∧ (flat' = flat → y = x))
      (x.erase key row) (flat.erase columns key row) := by
  obtain ⟨rfl, hcolumns, hvalid, hdistinct, hholds, hcount⟩ := h
  rw [FlatIndex.erase]
  by_cases hlength : key.length = x.columns.length
  · rw [if_pos hlength, erase_eq_ok.2 ⟨hlength, rfl⟩]
    cases herase : Level.erase? x.columns x.level key row with
    | none =>
      have hrow : ¬ flat.Has key row := fun hrow =>
        (Level.erase?_eq_none_iff hlength).1 herase ((hholds key row).2 hrow)
      rw [FlatIndex.without_eq_self hrow]
      exact .ok ⟨⟨rfl, hcolumns, hvalid, hdistinct, hholds, hcount⟩, fun _ => rfl⟩
    | some level =>
      obtain ⟨hlevel, hone⟩ := hvalid.erase? orderedOn_true keyOn_true hlength herase
      have hlevelHolds := Level.holds_erase? orderedOn_true hvalid keyOn_true hlength herase
      have hrow : flat.Has key row := (hholds key row).1 <| Classical.not_not.1 fun habsent => by
        rw [(Level.erase?_eq_none_iff hlength).2 habsent] at herase
        cases herase
      have hshort := FlatIndex.length_without hdistinct hrow
      refine .ok ⟨⟨rfl, hcolumns, hlevel, hdistinct.filter _, fun other r => ?_, ?_⟩, fun hsame => ?_⟩
      · rw [FlatIndex.has_without, ← hholds other r]
        exact hlevelHolds other r keyOn_true
      · change (Level.pairs x.columns level).length = _
        change (Level.pairs x.columns x.level).length = _ at hcount
        omega
      · rw [hsame] at hshort
        omega
  · rw [if_neg hlength, CompositeIndex.erase, CompositeIndex.ensureLength, if_neg hlength]
    exact .error

/-! ### Many changes -/

variable [HasNull K]

def change (x : CompositeIndex K) : IndexChange K → Except PolicyViolation (CompositeIndex K)
  | .insert key row => x.insert key row
  | .erase key row => x.erase key row
  | .move old new row => x.move old new row

/-- What some changes come to, one after the other; those that are refused change nothing. -/
def after (x : CompositeIndex K) (changes : List (IndexChange K)) : CompositeIndex K :=
  changes.foldl (fun x change => (x.change change).toOption.getD x) x

theorem Keeps.change (h : Keeps columns x flat) (change : IndexChange K) :
    SameResult (Keeps columns) (x.change change) (flat.change columns change) := by
  cases change with
  | insert key row => exact (h.insert key row).mono fun _ _ h => h.1
  | erase key row => exact (h.erase key row).mono fun _ _ h => h.1
  | move old new row =>
    exact (h.erase old row).bind fun y flat' h => (h.1.insert new row).mono fun _ _ h => h.1

theorem Keeps.after (h : Keeps columns x flat) (changes : List (IndexChange K)) :
    (x.after changes).Keeps columns (flat.after columns changes) := by
  induction changes generalizing x flat with
  | nil => exact h
  | cons change changes ih =>
    have hchange := h.change change
    rw [CompositeIndex.after, FlatIndex.after, List.foldl_cons, List.foldl_cons]
    generalize x.change change = result, flat.change columns change = result' at hchange ⊢
    cases hchange with
    | error => exact ih h
    | ok hchanged => exact ih hchanged

/-- What can be seen of an index is what a flat list of distinct keys and rows says. -/
structure Refines (columns : List KeyColumn) (x : CompositeIndex K) (flat : FlatIndex K) :
    Prop where
  distinct : flat.Distinct
  /-- An iterator hands out the pairs of the flat index, in strictly ascending order. -/
  walk : ∀ steps, IndexCursor.walk steps x.first = x.pairs.take steps
  mem_pairs : ∀ key row, FlatIndex.Has x.pairs key row ↔ flat.Has key row
  sorted : x.pairs.Pairwise fun a b => Level.comparePairs columns a b = .lt
  size : x.size = flat.length
  isEmpty : x.isEmpty ↔ flat = []
  contains : ∀ start, x.contains start ↔ ∃ pair ∈ flat, StartsWith pair.1 start
  rows : ∀ start,
    x.rows start = (x.pairs.filter fun pair => StartsWith pair.1 start).map Prod.snd
  walk_under : ∀ start steps, IndexCursor.walk steps (x.under start) =
    (x.pairs.filter fun pair => StartsWith pair.1 start).take steps
  /-- What does nothing there does nothing here. -/
  insert : ∀ key row, flat.insert columns key row = .ok flat → x.insert key row = .ok x
  erase : ∀ key row, flat.erase columns key row = .ok flat → x.erase key row = .ok x

omit [HasNull K] [Std.TransOrd K] in
theorem Keeps.size_eq (h : Keeps columns x flat) : x.size = flat.length := by
  obtain ⟨rfl, hcolumns, hvalid, _, _, hcount⟩ := h
  rw [← hcount]
  exact Level.size_eq hcolumns hvalid

omit [HasNull K] [Std.TransOrd K] in
theorem Keeps.isEmpty_iff (h : Keeps columns x flat) : x.isEmpty ↔ flat = [] := by
  obtain ⟨rfl, _, hvalid, _, _, hcount⟩ := h
  rw [← List.length_eq_zero_iff, ← hcount, List.length_eq_zero_iff]
  exact Level.isEmpty_iff hvalid

omit [HasNull K] in
theorem Keeps.has_pairs_iff (h : Keeps columns x flat) (key : List K) (row : RowId) :
    FlatIndex.Has x.pairs key row ↔ flat.Has key row := by
  rw [← h.holds]
  constructor
  · rintro ⟨pair, hpair, hsame, rfl⟩
    obtain ⟨_, hholds⟩ := Level.holds_of_mem_pairs orderedOn_true h.valid hpair
    exact (Level.holds_congr orderedOn_true h.valid keyOn_true keyOn_true hsame).1 hholds
  · intro hholds
    obtain ⟨other, hmem, hsame⟩ :=
      Level.exists_mem_pairs_of_holds orderedOn_true h.valid keyOn_true hholds
    exact ⟨(other, row), hmem, hsame, rfl⟩

omit [HasNull K] in
theorem Keeps.contains_iff (h : Keeps columns x flat) (start : List K) :
    x.contains start ↔ ∃ pair ∈ flat, StartsWith pair.1 start := by
  rw [CompositeIndex.contains_iff orderedOn_true h.valid keyOn_true]
  constructor
  · rintro ⟨key, row, _, hholds, hstarts⟩
    obtain ⟨pair, hpair, hsame, _⟩ := (h.holds key row).1 hholds
    exact ⟨pair, hpair, hstarts.of_sameKey orderedOn_true keyOn_true keyOn_true keyOn_true hsame⟩
  · rintro ⟨pair, hpair, hstarts⟩
    have hself : SameKey pair.1 pair.1 := .refl orderedOn_true keyOn_true
    exact ⟨pair.1, pair.2, keyOn_true, (h.holds _ _).2 ⟨pair, hpair, hself, rfl⟩, hstarts⟩

theorem Keeps.refines (h : Keeps columns x flat) : x.Refines columns flat where
  distinct := h.distinct
  walk := walk_first h.valid
  mem_pairs := h.has_pairs_iff
  sorted := h.columns_eq ▸ Level.pairwise_pairs orderedOn_true h.valid
  size := h.size_eq
  isEmpty := h.isEmpty_iff
  contains := h.contains_iff
  rows := fun _ => Level.rowsUnder_eq orderedOn_true h.valid keyOn_true
  walk_under := fun _ => walk_under orderedOn_true h.valid keyOn_true
  insert := fun key row hsame => (h.insert key row).eq_of_same hsame
  erase := fun key row hsame => (h.erase key row).eq_of_same hsame

/-- Whatever changes an index over accepted columns goes through, it refines the flat index that the
same changes make, and gives the same answer to each further change. -/
theorem refines_of_new (h : new columns = .ok x) (changes : List (IndexChange K)) :
    (x.after changes).Refines columns (FlatIndex.after columns [] changes) ∧
      ∀ change, SameResult (Refines columns) ((x.after changes).change change)
        ((FlatIndex.after columns [] changes).change columns change) := by
  obtain ⟨hcolumns, rfl⟩ := new_eq_ok h
  have hkeeps := (keeps_new hcolumns).after changes
  exact ⟨hkeeps.refines, fun change => (hkeeps.change change).mono fun _ _ h => h.refines⟩

/-- Two columns, the first one descending and without nulls, the second one with duplicates. One row
comes twice, one is skipped for its null, one key is too short, and one row moves. -/
theorem refines_of_new_two_columns :
    ∃ x : CompositeIndex (Option Nat),
      new [⟨.disallow, .ignore, .descending⟩, ⟨.allow, .allow, .ascending⟩] = .ok x ∧
      (x.after [.insert [some 1, none] 7, .insert [some 2, some 5] 8, .insert [none, some 1] 9,
        .insert [some 1, none] 7, .insert [some 4] 3, .insert [some 2, some 5] 4,
        .move [some 2, some 5] [some 1, some 3] 8, .erase [some 2, some 5] 4]).Refines
        [⟨.disallow, .ignore, .descending⟩, ⟨.allow, .allow, .ascending⟩]
        [([some 1, none], 7), ([some 1, some 3], 8)] := by
  have hnew : new [⟨.disallow, .ignore, .descending⟩, ⟨.allow, .allow, .ascending⟩] =
      .ok (⟨_, Level.empty _⟩ : CompositeIndex (Option Nat)) := rfl
  refine ⟨_, hnew, ?_⟩
  have hrefines := refines_of_new hnew [.insert [some 1, none] 7, .insert [some 2, some 5] 8,
    .insert [none, some 1] 9, .insert [some 1, none] 7, .insert [some 4] 3,
    .insert [some 2, some 5] 4, .move [some 2, some 5] [some 1, some 3] 8,
    .erase [some 2, some 5] 4]
  rw [show FlatIndex.after _ _ _ = [([some 1, none], 7), ([some 1, some 3], 8)] by decide]
    at hrefines
  exact hrefines.1

end CompositeIndex

end SnapshotStore
