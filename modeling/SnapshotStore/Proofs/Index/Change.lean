import SnapshotStore.Proofs.Index.Level
import SnapshotStore.Proofs.Success

/-!
# Changing a level

Inserting adds one pair of a key and a row, unless a rule of a column refuses or skips it; erasing
takes one out. Where no column allows nulls no key has one, and where the last column allows no
duplicates no key stands for two rows.
-/

namespace SnapshotStore.Level

variable {K : Type} [Ord K] {P : K → Prop} {columns : List KeyColumn}
  {level level' : Level K columns} {key : List K} {row : RowId} {place : Nat}

/-! ### Inserting -/

section Insert

variable [HasNull K] {column : KeyColumn}
  {counted : Counted (SortedMap (KeyPart K) (Level K columns))} {head : K} {rest : List K}

/-- The rules of the first column come first, those for keys that are there already only if it is
the last one. -/
theorem insert?_cons : insert? place (column :: columns) counted (head :: rest) row =
    if HasNull.isNull head ∧ column.onNull ≠ .allow then
      if column.onNull = .disallow then .error (.nullKey place) else .ok none
    else if columns = [] ∧ (counted.entries.get? ⟨head, column.direction⟩).isSome ∧
        column.onDuplicate ≠ .allow then
      if column.onDuplicate = .disallow then .error .duplicateKey else .ok none
    else (do .ok ((← insert? (place + 1) columns
      (below columns counted.entries ⟨head, column.direction⟩) rest row).map
        (counted.store ⟨head, column.direction⟩))) := by
  rw [insert?, below]
  cases HasNull.isNull head <;> cases column.onNull <;> try rfl
  all_goals
    generalize hget : counted.entries.get? ⟨head, column.direction⟩ = found
    change SortedMap.get? counted.entries _ = found at hget
    simp only [hget]
    cases found with
    | none => simp
    | some inner => cases column.onDuplicate <;> by_cases hlast : columns = [] <;> simp [hlast]

/-- What inserting below the first column can come to: a rule skips the row, or the level of its
component, if need be an empty one, takes it. -/
theorem insert?_cons_cases {result : Option (Level K (column :: columns))}
    (h : insert? place (column :: columns) counted (head :: rest) row = .ok result) :
    (HasNull.isNull head ∧ column.onNull = .ignore ∧ result = none) ∨
      (HasNull.isNull head → column.onNull = .allow) ∧
        ((columns = [] ∧ column.onDuplicate = .ignore ∧
            (counted.entries.get? ⟨head, column.direction⟩).isSome ∧ result = none) ∨
          (columns = [] → (counted.entries.get? ⟨head, column.direction⟩).isSome →
            column.onDuplicate = .allow) ∧
            ∃ inner, insert? (place + 1) columns
              (below columns counted.entries ⟨head, column.direction⟩) rest row = .ok inner ∧
              result = inner.map (counted.store ⟨head, column.direction⟩)) := by
  rw [insert?_cons] at h
  split at h
  · next hnull =>
    split at h
    · cases h
    · next hskip =>
      cases h
      refine .inl ⟨hnull.1, ?_, rfl⟩
      cases hrule : column.onNull with
      | ignore => rfl
      | allow => exact absurd hrule hnull.2
      | disallow => exact absurd hrule hskip
  · next hnull =>
    refine .inr ⟨fun hisNull => Decidable.of_not_not fun hrule => hnull ⟨hisNull, hrule⟩, ?_⟩
    split at h
    · next htaken =>
      split at h
      · cases h
      · next hskip =>
        cases h
        refine .inl ⟨htaken.1, ?_, htaken.2.1, rfl⟩
        cases hrule : column.onDuplicate with
        | ignore => rfl
        | allow => exact absurd hrule htaken.2.2
        | disallow => exact absurd hrule hskip
    · next hfree =>
      obtain ⟨inner, hinner, hresult⟩ := bind_eq_ok.1 h
      cases hresult
      refine .inr ⟨fun hlast hsome => ?_, inner, hinner, rfl⟩
      exact Decidable.of_not_not fun hrule => hfree ⟨hlast, hsome, hrule⟩

omit [HasNull K] in
theorem holds_below {other : List K} {r : RowId} :
    Holds columns (below columns counted.entries ⟨head, column.direction⟩) other r ↔
      Holds (column :: columns) counted (head :: other) r := by
  rw [holds_cons, below]
  cases counted.entries.get? ⟨head, column.direction⟩ with
  | none =>
    refine ⟨fun h => absurd h not_holds_empty, ?_⟩
    rintro ⟨_, hsome, _⟩
    cases hsome
  | some inner =>
    refine ⟨fun h => ⟨inner, rfl, h⟩, ?_⟩
    rintro ⟨_, hsome, h⟩
    cases hsome
    exact h

/-- One pair more. -/
theorem Valid.insert? (hP : OrderedOn P) (hvalid : Valid P columns level) (hkey : KeyOn P key)
    (hlength : key.length = columns.length)
    (h : insert? place columns level key row = .ok (some level')) :
    Valid P columns level' ∧
      (pairs columns level').length = (pairs columns level).length + 1 := by
  induction columns generalizing place key with
  | nil =>
    rw [Level.insert?] at h
    split at h
    · cases h
    · next habsent =>
      cases h
      have hcount := SortedMap.Valid.length_insert SortedMap.orderedOn_true trivial hvalid
        (Option.not_isSome_iff_eq_none.1 habsent) ()
      refine ⟨SortedMap.Lawful.insert hvalid row (), ?_⟩
      simpa [pairs, SortedMap.keys] using hcount
  | cons column columns ih =>
    change Counted (SortedMap (KeyPart K) (Level K columns)) at level
    have hstored := hvalid.stored
    have hcount := hvalid.count_eq
    cases key with
    | nil => cases hlength
    | cons head rest =>
      obtain ⟨hhead, hrest⟩ := keyOn_cons.1 hkey
      rcases insert?_cons_cases h
        with ⟨_, _, hnone⟩ | ⟨_, ⟨_, _, _, hnone⟩ | ⟨_, inner, hinner, hresult⟩⟩
      · cases hnone
      · cases hnone
      obtain ⟨changed, rfl, rfl⟩ := Option.map_eq_some_iff.1 hresult.symm
      obtain ⟨hchanged, hone⟩ := ih (hstored.below hP hhead) hrest (Nat.succ.inj hlength) hinner
      have hsome : isEmpty columns changed = false := by
        refine Bool.eq_false_iff.2 fun hempty => ?_
        rw [(isEmpty_iff hchanged).1 hempty] at hone
        cases hone
      have hgrown : total (level.entries.insert ⟨head, column.direction⟩ changed) =
          total level.entries + 1 := by
        have htotal := hstored.total_insert hP hhead changed
        omega
      refine ⟨⟨hstored.insert hP hhead hchanged hsome, ?_⟩, ?_⟩
      · rw [length_pairs_cons, Counted.store, hgrown, hcount]
      · rw [length_pairs_cons, length_pairs_cons, Counted.store, hgrown]

theorem holds_insert? (hP : OrderedOn P) (hvalid : Valid P columns level) (hkey : KeyOn P key)
    (hlength : key.length = columns.length)
    (h : insert? place columns level key row = .ok (some level')) (other : List K) (r : RowId)
    (hother : KeyOn P other) :
    Holds columns level' other r ↔ Holds columns level other r ∨ SameKey other key ∧ r = row := by
  induction columns generalizing place key other with
  | nil =>
    rw [List.length_eq_zero_iff.1 hlength]
    rw [insert?] at h
    split at h
    · cases h
    · cases h
      cases other with
      | nil =>
        exact (SortedMap.Lawful.contains_insert hvalid).trans
          (or_comm.trans (or_congr_right (iff_of_eq (true_and _)).symm))
      | cons => exact ⟨False.elim, fun h => h.elim id And.left⟩
  | cons column columns ih =>
    change Counted (SortedMap (KeyPart K) (Level K columns)) at level
    cases key with
    | nil => cases hlength
    | cons head rest =>
      obtain ⟨hhead, hrest⟩ := keyOn_cons.1 hkey
      rcases insert?_cons_cases h
        with ⟨_, _, hnone⟩ | ⟨_, ⟨_, _, _, hnone⟩ | ⟨_, inner, hinner, hresult⟩⟩
      · cases hnone
      · cases hnone
      obtain ⟨changed, rfl, rfl⟩ := Option.map_eq_some_iff.1 hresult.symm
      cases other with
      | nil => exact ⟨False.elim, fun h => h.elim id And.left⟩
      | cons head' rest' =>
        obtain ⟨hhead', hrest'⟩ := keyOn_cons.1 hother
        rw [Counted.store, holds_insert_inner hP hvalid.stored hhead hhead']
        by_cases heq : compare head' head = .eq
        · rw [if_pos heq, ih (hvalid.stored.below hP hhead) hrest (Nat.succ.inj hlength) hinner rest'
            hrest', holds_below, holds_cons,
            holds_cons_of_get? hP hvalid.stored hhead hhead' heq]
          exact or_congr_right (and_congr_left fun _ => ⟨fun h => ⟨heq, h⟩, And.right⟩)
        · rw [if_neg heq]
          exact ⟨.inl, fun h => h.resolve_right fun h => heq h.1.1⟩

/-- Without rules that skip rows, nothing is inserted only if it is there. -/
theorem holds_of_insert?_eq_none (hP : OrderedOn P) (hvalid : Valid P columns level)
    (hkey : KeyOn P key) (hlength : key.length = columns.length)
    (hrules : ∀ column ∈ columns, column.onNull ≠ .ignore ∧ column.onDuplicate ≠ .ignore)
    (h : insert? place columns level key row = .ok none) : Holds columns level key row := by
  induction columns generalizing place key with
  | nil =>
    rw [List.length_eq_zero_iff.1 hlength]
    rw [insert?] at h
    split at h
    · assumption
    · cases h
  | cons column columns ih =>
    change Counted (SortedMap (KeyPart K) (Level K columns)) at level
    obtain ⟨hcolumn, hcolumns⟩ := List.forall_mem_cons.1 hrules
    cases key with
    | nil => cases hlength
    | cons head rest =>
      obtain ⟨hhead, hrest⟩ := keyOn_cons.1 hkey
      rcases insert?_cons_cases h
        with ⟨_, hskip, _⟩ | ⟨_, ⟨_, hskip, _⟩ | ⟨_, inner, hinner, hresult⟩⟩
      · exact absurd hskip hcolumn.1
      · exact absurd hskip hcolumn.2
      · rw [Option.map_eq_none_iff.1 hresult.symm] at hinner
        exact holds_below.1 (ih (hvalid.stored.below hP hhead) hrest (Nat.succ.inj hlength) hcolumns
          hinner)

theorem not_isNull_of_insert? (hlength : key.length = columns.length)
    (hrules : ∀ column ∈ columns, column.onNull = .disallow) {result : Option (Level K columns)}
    (h : insert? place columns level key row = .ok result) :
    ∀ component ∈ key, HasNull.isNull component = false := by
  induction columns generalizing place key with
  | nil =>
    rw [List.length_eq_zero_iff.1 hlength]
    exact fun _ hmem => absurd hmem List.not_mem_nil
  | cons column columns ih =>
    change Counted (SortedMap (KeyPart K) (Level K columns)) at level
    obtain ⟨hcolumn, hcolumns⟩ := List.forall_mem_cons.1 hrules
    cases key with
    | nil => cases hlength
    | cons head rest =>
      rcases insert?_cons_cases h with ⟨_, hskip, _⟩ | ⟨hnull, hcases⟩
      · rw [hcolumn] at hskip
        cases hskip
      have hhead : HasNull.isNull head = false := by
        rw [hcolumn] at hnull
        exact Bool.eq_false_iff.2 fun hisNull => nomatch hnull hisNull
      refine List.forall_mem_cons.2 ⟨hhead, ?_⟩
      rcases hcases with ⟨rfl, _⟩ | ⟨_, inner, hinner, _⟩
      · rw [List.length_eq_zero_iff.1 (Nat.succ.inj hlength)]
        exact fun _ hmem => absurd hmem List.not_mem_nil
      · exact ih (Nat.succ.inj hlength) hcolumns hinner

/-- Where the last column allows no duplicates, a key that is inserted was free. -/
theorem not_holds_of_insert? (hP : OrderedOn P) (hvalid : Valid P columns level)
    (hkey : KeyOn P key) (hlength : key.length = columns.length) {last : KeyColumn}
    (hlast : columns.getLast? = some last) (hrule : last.onDuplicate = .disallow)
    (h : insert? place columns level key row = .ok (some level')) (r : RowId) :
    ¬ Holds columns level key r := by
  induction columns generalizing place key with
  | nil => cases hlast
  | cons column columns ih =>
    change Counted (SortedMap (KeyPart K) (Level K columns)) at level
    cases key with
    | nil => cases hlength
    | cons head rest =>
      obtain ⟨hhead, hrest⟩ := keyOn_cons.1 hkey
      rcases insert?_cons_cases h
        with ⟨_, _, hnone⟩ | ⟨_, ⟨_, _, _, hnone⟩ | ⟨hduplicate, inner, hinner, hresult⟩⟩
      · cases hnone
      · cases hnone
      obtain ⟨changed, rfl, rfl⟩ := Option.map_eq_some_iff.1 hresult.symm
      rintro ⟨found, hfound, hholds⟩
      cases columns with
      | nil =>
        have hallow := hduplicate rfl (by rw [hfound]; rfl)
        rw [List.getLast?_singleton, Option.some.injEq] at hlast
        rw [hlast, hrule] at hallow
        cases hallow
      | cons next columns =>
        rw [List.getLast?_cons_cons] at hlast
        exact ih (hvalid.stored.below hP hhead) hrest (Nat.succ.inj hlength) hlast hinner
          (holds_below.2 ⟨found, hfound, hholds⟩)

end Insert

/-! ### Erasing -/

theorem erase?_cons {column : KeyColumn}
    {level : Counted (SortedMap (KeyPart K) (Level K columns))} {head : K} {rest : List K} :
    erase? (column :: columns) level (head :: rest) row =
      (level.entries.get? ⟨head, column.direction⟩).bind fun inner =>
        (erase? columns inner rest row).map fun changed =>
          ⟨if isEmpty columns changed then level.entries.erase ⟨head, column.direction⟩
            else level.entries.insert ⟨head, column.direction⟩ changed, level.count - 1⟩ := by
  change (level.entries.get? ⟨head, column.direction⟩).bind _ = _
  refine congrArg _ (funext fun inner => ?_)
  cases erase? columns inner rest row <;> rfl

/-- One pair less. -/
theorem Valid.erase? (hP : OrderedOn P) (hvalid : Valid P columns level) (hkey : KeyOn P key)
    (hlength : key.length = columns.length) (h : erase? columns level key row = some level') :
    Valid P columns level' ∧
      (pairs columns level').length + 1 = (pairs columns level).length := by
  induction columns generalizing key with
  | nil =>
    rw [Level.erase?] at h
    split at h
    · next hpresent =>
      cases h
      obtain ⟨_, hget⟩ := Option.isSome_iff_exists.1 hpresent
      have hcount := SortedMap.Valid.length_erase SortedMap.orderedOn_true trivial hvalid hget
      refine ⟨SortedMap.Lawful.erase hvalid row, ?_⟩
      simpa [pairs, SortedMap.keys] using hcount
    · cases h
  | cons column columns ih =>
    change Counted (SortedMap (KeyPart K) (Level K columns)) at level
    have hstored := hvalid.stored
    have hcount := hvalid.count_eq
    cases key with
    | nil => cases hlength
    | cons head rest =>
      obtain ⟨hhead, hrest⟩ := keyOn_cons.1 hkey
      rw [erase?_cons] at h
      obtain ⟨inner, hget, h⟩ := Option.bind_eq_some_iff.1 h
      obtain ⟨changed, hchanged, hresult⟩ := Option.map_eq_some_iff.1 h
      generalize hentries : (if isEmpty columns changed then _ else _) = entries at hresult
      subst hresult
      obtain ⟨hinner, hone⟩ :=
        ih (hstored.of_get? hP hhead hget).1 hrest (Nat.succ.inj hlength) hchanged
      have hshrunk : total entries + 1 = total level.entries := by
        have htotal := hstored.total_replace hentries hP hhead hinner
        rw [below, hget, Option.getD_some] at htotal
        omega
      refine ⟨⟨hstored.replace hentries hP hhead hinner, ?_⟩, ?_⟩
      · rw [length_pairs_cons, hcount, ← hshrunk]
        rfl
      · rw [length_pairs_cons, length_pairs_cons, ← hshrunk]

theorem holds_erase? (hP : OrderedOn P) (hvalid : Valid P columns level) (hkey : KeyOn P key)
    (hlength : key.length = columns.length) (h : erase? columns level key row = some level')
    (other : List K) (r : RowId) (hother : KeyOn P other) :
    Holds columns level' other r ↔
      Holds columns level other r ∧ ¬ (SameKey other key ∧ r = row) := by
  induction columns generalizing key other with
  | nil =>
    rw [List.length_eq_zero_iff.1 hlength]
    rw [erase?] at h
    split at h
    · cases h
      cases other with
      | nil =>
        exact (SortedMap.Lawful.contains_erase hvalid).trans
          (and_comm.trans (and_congr_right fun _ => not_congr (iff_of_eq (true_and _)).symm))
      | cons => exact ⟨False.elim, And.left⟩
    · cases h
  | cons column columns ih =>
    change Counted (SortedMap (KeyPart K) (Level K columns)) at level
    cases key with
    | nil => cases hlength
    | cons head rest =>
      obtain ⟨hhead, hrest⟩ := keyOn_cons.1 hkey
      rw [erase?_cons] at h
      obtain ⟨inner, hget, h⟩ := Option.bind_eq_some_iff.1 h
      obtain ⟨changed, hchanged, rfl⟩ := Option.map_eq_some_iff.1 h
      obtain ⟨hinner, _⟩ := hvalid.stored.of_get? hP hhead hget
      obtain ⟨hvalid', _⟩ := hinner.erase? hP hrest (Nat.succ.inj hlength) hchanged
      cases other with
      | nil => exact ⟨False.elim, And.left⟩
      | cons head' rest' =>
        obtain ⟨hhead', hrest'⟩ := keyOn_cons.1 hother
        rw [holds_replace_inner rfl hP hvalid.stored hhead hvalid' hother]
        by_cases heq : compare head' head = .eq
        · rw [if_pos heq, ih hinner hrest (Nat.succ.inj hlength) hchanged rest' hrest',
            holds_cons_of_get? hP hvalid.stored hhead hhead' heq]
          constructor
          · exact fun h => ⟨⟨inner, hget, h.1⟩, fun hsame => h.2 ⟨hsame.1.2, hsame.2⟩⟩
          · rintro ⟨⟨found, hfound, hholds⟩, hother⟩
            rw [hget] at hfound
            cases hfound
            exact ⟨hholds, fun hsame => hother ⟨⟨heq, hsame.1⟩, hsame.2⟩⟩
        · rw [if_neg heq]
          exact ⟨fun h => ⟨h, fun hsame => heq hsame.1.1⟩, And.left⟩

/-- Nothing is erased exactly if it is not there. -/
theorem erase?_eq_none_iff (hlength : key.length = columns.length) :
    erase? columns level key row = none ↔ ¬ Holds columns level key row := by
  induction columns generalizing key with
  | nil =>
    rw [List.length_eq_zero_iff.1 hlength, erase?]
    change _ ↔ ¬ (SortedMap.contains level row : Prop)
    simp
  | cons column columns ih =>
    change Counted (SortedMap (KeyPart K) (Level K columns)) at level
    cases key with
    | nil => cases hlength
    | cons head rest =>
      rw [erase?_cons, holds_cons]
      cases level.entries.get? ⟨head, column.direction⟩ with
      | none => simp
      | some inner =>
        refine Option.map_eq_none_iff.trans ((ih (Nat.succ.inj hlength)).trans ?_)
        simp

/-! ### Containing -/

theorem contains_nil_iff (hP : OrderedOn P) (hvalid : Valid P columns level) :
    contains columns level [] ↔
      ∃ key row, KeyOn P key ∧ Holds columns level key row ∧ StartsWith key [] := by
  have hcontains : contains columns level [] = !isEmpty columns level := by cases columns <;> rfl
  rw [hcontains, Bool.not_eq_true']
  refine ⟨fun h => ?_, fun ⟨key, row, hkey, hholds, _⟩ =>
    isEmpty_eq_false_of_holds hP hvalid hkey hholds⟩
  obtain ⟨key, row, hkey, hholds⟩ := exists_holds hP hvalid h
  exact ⟨key, row, hkey, hholds, startsWith_nil⟩

theorem contains_iff (hP : OrderedOn P) (hvalid : Valid P columns level) {start : List K}
    (hstart : KeyOn P start) :
    contains columns level start ↔
      ∃ key row, KeyOn P key ∧ Holds columns level key row ∧ StartsWith key start := by
  induction columns generalizing start with
  | nil =>
    cases start with
    | nil => exact contains_nil_iff hP hvalid
    | cons head rest =>
      refine ⟨fun h => absurd h Bool.false_ne_true, fun ⟨key, row, _, hholds, hstarts⟩ => ?_⟩
      rw [List.length_eq_zero_iff.1 (length_of_holds hholds)] at hstarts
      exact hstarts.elim
  | cons column columns ih =>
    change Counted (SortedMap (KeyPart K) (Level K columns)) at level
    cases start with
    | nil => exact contains_nil_iff hP hvalid
    | cons head rest =>
      obtain ⟨hhead, hrest⟩ := keyOn_cons.1 hstart
      refine (Option.any_eq_true _ _).trans ⟨?_, ?_⟩
      · rintro ⟨inner, hget, hcontains⟩
        obtain ⟨key, row, hkey, hholds, hstarts⟩ :=
          (ih (hvalid.stored.of_get? hP hhead hget).1 hrest).1 hcontains
        exact ⟨head :: key, row, keyOn_cons.2 ⟨hhead, hkey⟩, ⟨inner, hget, hholds⟩, hP.refl hhead,
          hstarts⟩
      · rintro ⟨key, row, hkey, hholds, hstarts⟩
        cases key with
        | nil => exact hstarts.elim
        | cons head' rest' =>
          obtain ⟨hhead', hrest'⟩ := keyOn_cons.1 hkey
          obtain ⟨inner, hget, hinner⟩ :=
            (holds_cons_of_get? hP hvalid.stored hhead hhead' hstarts.1).1 hholds
          exact ⟨inner, hget, (ih (hvalid.stored.of_get? hP hhead hget).1 hrest).2
            ⟨rest', row, hrest', hinner, hstarts.2⟩⟩

end SnapshotStore.Level
