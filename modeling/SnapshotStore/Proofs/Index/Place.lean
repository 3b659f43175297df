import SnapshotStore.Index.Basic
import SnapshotStore.Proofs.Index.Pairs
import SnapshotStore.Proofs.SortedMap.Place

/-!
# The place of an index cursor

An index cursor nests a cursor over the inner level in one over its own column. What it has behind
it is what is below the earlier entries of its column and then what the inner cursor has behind it;
where it is pinned to its key, only the latter. So a move inside the entry that the outer cursor
stands on is one step in the list of pairs, and so is a move of the outer cursor, which enters the
next entry at its first pair or the previous one at its last, because no entry is empty.
-/

namespace SnapshotStore

namespace LevelCursor

variable {K : Type}

/-- The pairs that a cursor has behind it. -/
def past : (columns : List KeyColumn) → LevelCursor K columns → List (List K × RowId)
  | [], (rows : SortedMap.Cursor _ _) => rows.earlier.map fun entry => ([], entry.1)
  | _ :: columns, (c : CursorStep _ _) =>
    (if c.pinned then [] else c.outer.earlier.flatMap Level.listed) ++
      Level.prepend c.outer.key.value (past columns c.inner)

/-- The pairs that a cursor still hands out, the one it stands on among them. -/
def ahead : (columns : List KeyColumn) → LevelCursor K columns → List (List K × RowId)
  | [], (rows : SortedMap.Cursor _ _) => (rows.entry :: rows.later).map fun entry => ([], entry.1)
  | _ :: columns, (c : CursorStep _ _) =>
    Level.prepend c.outer.key.value (ahead columns c.inner) ++
      if c.pinned then [] else c.outer.later.flatMap Level.listed

/-- A cursor stands on the first of the pairs that it hands out. -/
theorem ahead_eq_cons {columns : List KeyColumn} (c : LevelCursor K columns) :
    ahead columns c = (key columns c, row columns c) :: (ahead columns c).tail := by
  induction columns with
  | nil => rfl
  | cons column columns ih =>
    change CursorStep _ _ at c
    rw [ahead, ih c.inner]
    rfl

variable [Ord K] (P : K → Prop)

/-- A cursor ranges over the pairs of a level, or where it is pinned to a key, over those of its
inner cursor. -/
def Ranges : (columns : List KeyColumn) → List (List K × RowId) → LevelCursor K columns → Prop
  | [], pairs, (rows : SortedMap.Cursor _ _) =>
    ∃ entries, rows.Stands entries ∧ (entries.map fun entry => ([], entry.1)) = pairs
  | column :: columns, pairs, (c : CursorStep _ _) =>
    ∃ inside, Ranges columns inside c.inner ∧
      if c.pinned then Level.prepend c.outer.key.value inside = pairs
      else inside = Level.pairs columns c.outer.value ∧
        ∃ entries, Level.Stored P column columns entries ∧ c.outer.Stands entries.toList ∧
          entries.toList.flatMap Level.listed = pairs

/-- The cursor at a place among some pairs, which there is if the place is that of a pair. -/
def At (columns : List KeyColumn) (pairs : List (List K × RowId)) (place : Nat) :
    Option (LevelCursor K columns) → Prop
  | none => pairs.length ≤ place
  | some c => Ranges P columns pairs c ∧ (past columns c).length = place

variable {P} {column : KeyColumn} {columns : List KeyColumn} {pairs : List (List K × RowId)}
  {c d : LevelCursor K columns}

omit [Ord K] in
theorem length_past_cons {c : CursorStep (SortedMap.Cursor (KeyPart K) (Level K columns))
      (LevelCursor K columns)} :
    (past (column :: columns) c).length =
      (if c.pinned then 0 else (c.outer.earlier.flatMap Level.listed).length) +
        (past columns c.inner).length := by
  rw [past, Level.prepend, List.length_append, List.length_map]
  split <;> rfl

theorem Ranges.split (h : Ranges P columns pairs c) :
    past columns c ++ ahead columns c = pairs := by
  induction columns generalizing pairs with
  | nil =>
    obtain ⟨entries, hstands, rfl⟩ := h
    exact List.map_append.symm.trans (congrArg (List.map _) hstands.split)
  | cons column columns ih =>
    change CursorStep _ _ at c
    obtain ⟨inside, hinner, hpairs⟩ := h
    have hinside := ih hinner
    rw [past, ahead]
    cases hpinned : c.pinned with
    | true =>
      rw [hpinned] at hpairs
      rw [← show _ = pairs from hpairs, ← hinside]
      simp [Level.prepend]
    | false =>
      rw [hpinned] at hpairs
      obtain ⟨rfl, entries, _, hstands, rfl⟩ := hpairs
      have hlisted : Level.listed c.outer.entry = Level.prepend c.outer.key.value
          (past columns c.inner ++ ahead columns c.inner) := by
        rw [hinside]
        rfl
      rw [← hstands.split, List.flatMap_append, List.flatMap_cons, hlisted]
      simp [Level.prepend]

theorem Ranges.getElem? (h : Ranges P columns pairs c) :
    pairs[(past columns c).length]? = some (key columns c, row columns c) := by
  rw [← h.split, ahead_eq_cons]
  simp

theorem Ranges.lt_length (h : Ranges P columns pairs c) :
    (past columns c).length < pairs.length :=
  (List.getElem?_eq_some_iff.1 h.getElem?).1

theorem Ranges.mem (h : Ranges P columns pairs c) : (key columns c, row columns c) ∈ pairs :=
  List.mem_of_getElem? h.getElem?

theorem Ranges.drop (h : Ranges P columns pairs c) :
    pairs.drop (past columns c).length =
      (key columns c, row columns c) :: pairs.drop ((past columns c).length + 1) := by
  rw [List.drop_eq_getElem?_toList_append, h.getElem?, Option.toList_some, List.singleton_append]

theorem Ranges.take_succ (h : Ranges P columns pairs c) :
    pairs.take ((past columns c).length + 1) =
      pairs.take (past columns c).length ++ [(key columns c, row columns c)] := by
  rw [List.take_add_one, h.getElem?, Option.toList_some]

theorem at_rows {entries : List (RowId × Unit)} {place : Nat} {counted : Prop}
    {rows : Option (SortedMap.Cursor RowId Unit)}
    (h : SortedMap.Cursor.At entries place counted rows) :
    At (K := K) P [] (entries.map fun entry => ([], entry.1)) place rows := by
  cases rows with
  | none => exact Nat.le_trans (Nat.le_of_eq (List.length_map _)) h
  | some rows =>
    obtain ⟨hstands, hplace, -⟩ := h
    exact ⟨⟨entries, hstands, rfl⟩, (List.length_map _).trans hplace⟩

/-! ### Entering an entry -/

section Enter

variable {entries : SortedMap (KeyPart K) (Level K columns)} {place total : Nat} {counted : Prop}
  {outer : SortedMap.Cursor (KeyPart K) (Level K columns)}
  {inner : Option (LevelCursor K columns)}

/-- The entry that a cursor stands on is valid, and it holds a pair. -/
theorem stored_entry (hstored : Level.Stored P column columns entries)
    (hstands : outer.Stands entries.toList) :
    Level.Valid P columns outer.value ∧ 0 < (Level.pairs columns outer.value).length := by
  obtain ⟨hvalid, hnonempty⟩ := hstored.2 outer.entry hstands.mem
  refine ⟨hvalid, List.length_pos_iff.2 fun hnil => ?_⟩
  rw [(Level.isEmpty_iff hvalid).2 hnil] at hnonempty
  cases hnonempty

theorem at_enter (hstored : Level.Stored P column columns entries)
    (hstands : outer.Stands entries.toList)
    (h : At P columns (Level.pairs columns outer.value) place inner)
    (hplace : place < (Level.pairs columns outer.value).length)
    (htotal : (outer.earlier.flatMap Level.listed).length + place = total) (changed : Bool) :
    At P (column :: columns) (entries.toList.flatMap Level.listed) total
      (inner.bind fun inner => some (CursorStep.mk outer inner false changed)) := by
  cases inner with
  | none => exact absurd h (Nat.not_le_of_lt hplace)
  | some inner =>
    obtain ⟨hranges, rfl⟩ := h
    refine ⟨⟨_, hranges, rfl, entries, hstored, hstands, rfl⟩, ?_⟩
    simpa [past, Level.prepend] using htotal

/-- Entering an entry at its first pair comes to the place behind all entries before it. -/
theorem at_enter_first (hstored : Level.Stored P column columns entries)
    (hfirst : ∀ level : Level K columns, Level.Valid P columns level →
      At P columns (Level.pairs columns level) 0 (first columns level))
    {outer : Option (SortedMap.Cursor (KeyPart K) (Level K columns))}
    (houter : SortedMap.Cursor.At entries.toList place counted outer)
    (htotal : ((entries.toList.take place).flatMap Level.listed).length = total) (changed : Bool) :
    At P (column :: columns) (entries.toList.flatMap Level.listed) total
      (outer.bind fun outer => (first columns outer.value).bind fun inner =>
        some (CursorStep.mk outer inner false changed)) := by
  cases outer with
  | none =>
    rw [List.take_of_length_le houter] at htotal
    exact Nat.le_of_eq htotal
  | some outer =>
    obtain ⟨hstands, rfl, -⟩ := houter
    rw [hstands.take] at htotal
    obtain ⟨hvalid, hpos⟩ := stored_entry hstored hstands
    exact at_enter hstored hstands (hfirst outer.value hvalid) hpos htotal changed

/-- Entering an entry at its last pair comes to the place of the last one before all later entries.
-/
theorem at_enter_last (hstored : Level.Stored P column columns entries)
    (hlast : ∀ level : Level K columns, Level.Valid P columns level →
      At P columns (Level.pairs columns level) ((Level.pairs columns level).length - 1)
        (last columns level))
    (hstands : outer.Stands entries.toList)
    (htotal : ((entries.toList.take (outer.earlier.length + 1)).flatMap Level.listed).length - 1 =
      total) (changed : Bool) :
    At P (column :: columns) (entries.toList.flatMap Level.listed) total
      ((last columns outer.value).bind fun inner =>
        some (CursorStep.mk outer inner false changed)) := by
  obtain ⟨hvalid, hpos⟩ := stored_entry hstored hstands
  have hlisted : (Level.listed outer.entry).length = (Level.pairs columns outer.value).length :=
    List.length_map _
  rw [hstands.take_succ, List.flatMap_append, List.length_append, List.flatMap_singleton, hlisted]
    at htotal
  exact at_enter hstored hstands (hlast outer.value hvalid) (by omega) (by omega) changed

end Enter

/-! ### The ends of a level -/

theorem at_first {level : Level K columns} (hvalid : Level.Valid P columns level) :
    At P columns (Level.pairs columns level) 0 (first columns level) := by
  induction columns with
  | nil =>
    have hat := at_rows (K := K) (P := P) (SortedMap.Valid.at_first hvalid True)
    rwa [show Level.pairs [] level = _ from List.map_map ..]
  | cons column columns ih =>
    have hstored := Level.Valid.stored hvalid
    exact at_enter_first hstored (fun _ => ih) (hstored.1.at_first True) rfl false

theorem at_last {level : Level K columns} (hvalid : Level.Valid P columns level) :
    At P columns (Level.pairs columns level) ((Level.pairs columns level).length - 1)
      (last columns level) := by
  induction columns with
  | nil =>
    have hat := at_rows (K := K) (P := P) (SortedMap.Valid.at_last hvalid)
    rw [show Level.pairs [] level = _ from List.map_map .., List.length_map]
    exact hat
  | cons column columns ih =>
    change Counted (SortedMap (KeyPart K) (Level K columns)) at level
    have hstored := Level.Valid.stored hvalid
    have houter := hstored.1.at_last
    change At P (column :: columns) (level.entries.toList.flatMap Level.listed) _
      (level.entries.last.bind _)
    cases hlast : level.entries.last with
    | none =>
      rw [hlast] at houter
      have hnil : level.entries.toList = [] := by
        refine List.length_eq_zero_iff.1 ?_
        have hle : level.entries.toList.length ≤ level.entries.toList.length - 1 := houter
        omega
      rw [hnil]
      exact Nat.zero_le _
    | some outer =>
      rw [hlast] at houter
      obtain ⟨hstands, hplace, -⟩ := houter
      apply at_enter_last hstored (fun _ => ih) hstands
      rw [List.take_of_length_le (by omega), Level.pairs_cons]

/-! ### Moving -/

/-- Moving on goes to the next pair. -/
theorem Ranges.next (h : Ranges P columns pairs c) :
    At P columns pairs ((past columns c).length + 1) (next columns c) := by
  induction columns generalizing pairs with
  | nil =>
    obtain ⟨entries, hstands, rfl⟩ := h
    rw [show (past [] c).length = _ from List.length_map _]
    exact at_rows hstands.next
  | cons column columns ih =>
    change CursorStep _ _ at c
    obtain ⟨inside, hinner, hpairs⟩ := h
    have hat := ih hinner
    rw [LevelCursor.next]
    cases hnext : LevelCursor.next columns c.inner with
    | some inner =>
      rw [hnext] at hat
      obtain ⟨hranges, hplace⟩ := hat
      refine ⟨⟨inside, hranges, hpairs⟩, ?_⟩
      rw [length_past_cons, length_past_cons, hplace]
      exact (Nat.add_assoc ..).symm
    | none =>
      rw [hnext] at hat
      have hend : (past columns c.inner).length + 1 = inside.length :=
        Nat.le_antisymm hinner.lt_length hat
      rw [length_past_cons, Nat.add_assoc, hend]
      cases hpinned : c.pinned with
      | true =>
        rw [hpinned] at hpairs
        rw [← show _ = pairs from hpairs]
        simp [At, Level.prepend]
      | false =>
        rw [hpinned] at hpairs
        obtain ⟨rfl, entries, hstored, hstands, rfl⟩ := hpairs
        apply at_enter_first hstored (fun _ => at_first) hstands.next
        simp [hstands.take_succ, Level.listed, Level.prepend, SortedMap.Cursor.entry]

/-- Moving back goes to the pair before, and nowhere from the first one. -/
theorem Ranges.previous (h : Ranges P columns pairs c) :
    ((past columns c).length = 0 ∧ previous columns c = none) ∨
      (0 < (past columns c).length ∧
        At P columns pairs ((past columns c).length - 1) (previous columns c)) := by
  induction columns generalizing pairs with
  | nil =>
    obtain ⟨entries, hstands, rfl⟩ := h
    rw [show (past [] c).length = _ from List.length_map _]
    exact hstands.previous.imp_right fun h => ⟨h.1, at_rows h.2⟩
  | cons column columns ih =>
    change CursorStep _ _ at c
    obtain ⟨inside, hinner, hpairs⟩ := h
    rw [LevelCursor.previous, length_past_cons]
    rcases ih hinner with ⟨hzero, hnone⟩ | ⟨hpos, hat⟩
    · rw [hzero, hnone]
      cases hpinned : c.pinned with
      | true => exact .inl ⟨rfl, rfl⟩
      | false =>
        rw [hpinned] at hpairs
        obtain ⟨rfl, entries, hstored, hstands, rfl⟩ := hpairs
        cases hprevious : c.outer.previous with
        | none =>
          rw [hstands.earlier_eq_nil hprevious]
          exact .inl ⟨rfl, rfl⟩
        | some outer =>
          obtain ⟨hbefore, hplace, -⟩ := hstands.of_previous hprevious
          have htake : entries.toList.take (outer.earlier.length + 1) = c.outer.earlier := by
            rw [hplace, hstands.take]
          refine .inr ⟨?_, at_enter_last hstored (fun _ => at_last) hbefore ?_ true⟩
          · obtain ⟨-, hpos⟩ := stored_entry hstored hbefore
            rw [← htake, hbefore.take_succ]
            simpa [Level.listed, Level.prepend, SortedMap.Cursor.entry] using
              Nat.add_pos_right _ hpos
          · rw [htake]
            rfl
    · have hlt := hinner.lt_length
      cases hprevious : LevelCursor.previous columns c.inner with
      | none =>
        rw [hprevious] at hat
        exact absurd (show inside.length ≤ _ from hat) (by omega)
      | some inner =>
        rw [hprevious] at hat
        obtain ⟨hranges, hplace⟩ := hat
        refine .inr ⟨Nat.add_pos_right _ hpos, ⟨inside, hranges, hpairs⟩, ?_⟩
        rw [length_past_cons, hplace]
        exact (Nat.add_sub_assoc hpos _).symm

theorem Ranges.of_next (h : Ranges P columns pairs c)
    (hnext : LevelCursor.next columns c = some d) :
    Ranges P columns pairs d ∧ (past columns d).length = (past columns c).length + 1 := by
  have hat := h.next
  rwa [hnext] at hat

theorem Ranges.of_previous (h : Ranges P columns pairs c)
    (hprevious : LevelCursor.previous columns c = some d) :
    Ranges P columns pairs d ∧ (past columns d).length + 1 = (past columns c).length := by
  rcases h.previous with ⟨-, hnone⟩ | ⟨hpos, hat⟩
  · rw [hnone] at hprevious
    cases hprevious
  · rw [hprevious] at hat
    exact ⟨hat.1, by rw [hat.2, Nat.sub_add_cancel hpos]⟩

theorem Ranges.next_eq_none_iff (h : Ranges P columns pairs c) :
    LevelCursor.next columns c = none ↔ (past columns c).length + 1 = pairs.length := by
  constructor
  · intro hnone
    have hat := h.next
    rw [hnone] at hat
    exact Nat.le_antisymm h.lt_length hat
  · intro hend
    cases hnext : LevelCursor.next columns c with
    | none => rfl
    | some d =>
      obtain ⟨hd, hplace⟩ := h.of_next hnext
      have hlt := hd.lt_length
      omega

theorem Ranges.previous_eq_none_iff (h : Ranges P columns pairs c) :
    LevelCursor.previous columns c = none ↔ (past columns c).length = 0 := by
  rcases h.previous with ⟨hzero, hnone⟩ | ⟨hpos, hat⟩
  · exact iff_of_true hnone hzero
  · refine iff_of_false (fun hnone => ?_) (Nat.ne_of_gt hpos)
    have hlt := h.lt_length
    rw [hnone] at hat
    exact absurd (show pairs.length ≤ _ from hat) (by omega)

end LevelCursor

/-! ### Seeking -/

namespace Level

variable {K : Type} [Ord K]

/-- Whether the key of a pair is not below another one. -/
def reaches (columns : List KeyColumn) (key : List K) (pair : List K × RowId) : Bool :=
  (compareKeys (parts columns pair.1) (parts columns key)).isGE

/-- The place of the first pair whose key is not below another one. -/
def lowerPlace (columns : List KeyColumn) (key : List K) (pairs : List (List K × RowId)) : Nat :=
  pairs.findIdx (reaches columns key)

variable {P : K → Prop} {column : KeyColumn} {columns : List KeyColumn} {head : K} {rest : List K}
  {pairs left right : List (List K × RowId)}

theorem reaches_nil (pair : List K × RowId) : reaches columns [] pair = true := by
  rw [reaches, show parts columns [] = [] from List.zipWith_nil_right]
  cases parts columns pair.1 <;> rfl

theorem lowerPlace_le {key : List K} : lowerPlace columns key pairs ≤ pairs.length :=
  List.findIdx_le_length

theorem lowerPlace_eq_zero {key : List K} (h : ∀ pair ∈ pairs, reaches columns key pair = true) :
    lowerPlace columns key pairs = 0 := by
  cases pairs with
  | nil => rfl
  | cons pair pairs => rw [lowerPlace, List.findIdx_cons, h pair List.mem_cons_self, cond_true]

theorem lowerPlace_append_of_false {key : List K}
    (h : ∀ pair ∈ left, reaches columns key pair = false) :
    lowerPlace columns key (left ++ right) = left.length + lowerPlace columns key right := by
  rw [lowerPlace, List.findIdx_append, List.findIdx_eq_length_of_false h,
    if_neg (Nat.lt_irrefl _), Nat.add_comm, lowerPlace]

theorem lowerPlace_append_of_true {key : List K}
    (h : ∀ pair ∈ right, reaches columns key pair = true) :
    lowerPlace columns key (left ++ right) = lowerPlace columns key left := by
  have hright : right.findIdx (reaches columns key) = 0 := lowerPlace_eq_zero h
  have hle : left.findIdx (reaches columns key) ≤ left.length := lowerPlace_le
  rw [lowerPlace, List.findIdx_append, hright, lowerPlace]
  split <;> omega

/-- Below one entry of a column its own component decides first. -/
theorem reaches_prepend {entry : KeyPart K} (hentry : PartOf P column entry)
    (pair : List K × RowId) :
    reaches (column :: columns) (head :: rest) (entry.value :: pair.1, pair.2) =
      ((compare entry ⟨head, column.direction⟩).then
        (compareKeys (parts columns pair.1) (parts columns rest))).isGE := by
  rw [reaches, parts, parts, List.zipWith_cons_cons, List.zipWith_cons_cons, compareKeys,
    ← hentry.1]
  rfl

theorem reaches_listed {entry : KeyPart K × Level K columns} (hentry : PartOf P column entry.1)
    {order : Ordering} (horder : compare entry.1 ⟨head, column.direction⟩ = order)
    (hne : order ≠ .eq) :
    ∀ pair ∈ listed entry, reaches (column :: columns) (head :: rest) pair = order.isGE := by
  intro pair hpair
  obtain ⟨inside, _, rfl⟩ := List.mem_map.1 hpair
  rw [reaches_prepend hentry, horder]
  cases order with
  | eq => exact absurd rfl hne
  | lt => rfl
  | gt => rfl

theorem lowerPlace_listed {entry : KeyPart K × Level K columns} (hentry : PartOf P column entry.1)
    (heq : compare entry.1 ⟨head, column.direction⟩ = .eq) :
    lowerPlace (column :: columns) (head :: rest) (listed entry) =
      lowerPlace columns rest (Level.pairs columns entry.2) := by
  rw [lowerPlace, listed, prepend, List.findIdx_map, lowerPlace]
  congr 1
  funext pair
  exact (reaches_prepend hentry pair).trans (by rw [heq]; rfl)

/-- A search for the first component parts the pairs of a level. Below an entry with that component
the remaining ones decide; otherwise its first pair is the one. -/
theorem lowerPlace_cons (hP : OrderedOn P) {entries : SortedMap (KeyPart K) (Level K columns)}
    (hstored : Stored P column columns entries) (hhead : P head)
    {outer : SortedMap.Cursor (KeyPart K) (Level K columns)}
    (hfound : entries.seek ⟨head, column.direction⟩ = some outer) :
    lowerPlace (column :: columns) (head :: rest) (entries.toList.flatMap listed) =
      (outer.earlier.flatMap listed).length +
        if compare outer.key ⟨head, column.direction⟩ = .eq then
          lowerPlace columns rest (Level.pairs columns outer.value) else 0 := by
  obtain ⟨hstands, hbefore, hhere, hbehind⟩ :=
    hstored.1.of_seek (hP.part column) ⟨rfl, hhead⟩ hfound
  have hsplit := hstands.split
  have hkeys := hstored.1.keys
  rw [← hsplit] at hkeys ⊢
  have hfront : ∀ pair ∈ outer.earlier.flatMap listed,
      reaches (column :: columns) (head :: rest) pair = false := by
    intro pair hpair
    obtain ⟨entry, hentry, hpair⟩ := List.mem_flatMap.1 hpair
    exact reaches_listed (hkeys entry (by simp [hentry])) (hbefore entry hentry) (by decide) pair
      hpair
  have hback : ∀ pair ∈ outer.later.flatMap listed,
      reaches (column :: columns) (head :: rest) pair = true := by
    intro pair hpair
    obtain ⟨entry, hentry, hpair⟩ := List.mem_flatMap.1 hpair
    exact reaches_listed (hkeys entry (by simp [hentry])) (hbehind entry hentry) (by decide) pair
      hpair
  have hentry : PartOf P column outer.entry.1 := hkeys outer.entry (by simp)
  rw [List.flatMap_append, List.flatMap_cons, lowerPlace_append_of_false hfront,
    lowerPlace_append_of_true hback]
  congr 1
  by_cases heq : compare outer.key ⟨head, column.direction⟩ = .eq
  · rw [if_pos heq]
    exact lowerPlace_listed hentry heq
  · rw [if_neg heq]
    have hgt : compare outer.entry.1 ⟨head, column.direction⟩ = .gt := by
      change compare outer.key _ = .gt
      revert hhere heq
      cases compare outer.key ⟨head, column.direction⟩ <;> simp
    exact lowerPlace_eq_zero (reaches_listed hentry hgt (by decide))

end Level

namespace LevelCursor

variable {K : Type} [Ord K] {P : K → Prop} {column : KeyColumn} {columns : List KeyColumn}
  {level : Level K columns}

/-- A search comes to the first pair whose key is not below the one searched for. -/
theorem at_seek (hP : OrderedOn P) (hvalid : Level.Valid P columns level) {key : List K}
    (hkey : KeyOn P key) (hlength : key.length ≤ columns.length) :
    At P columns (Level.pairs columns level)
      (Level.lowerPlace columns key (Level.pairs columns level)) (seek columns level key) := by
  induction columns generalizing key with
  | nil =>
    obtain rfl := List.length_eq_zero_iff.1 (Nat.eq_zero_of_le_zero hlength)
    rw [Level.lowerPlace_eq_zero fun pair _ => Level.reaches_nil pair]
    exact at_first hvalid
  | cons column columns ih =>
    cases key with
    | nil =>
      rw [Level.lowerPlace_eq_zero fun pair _ => Level.reaches_nil pair]
      exact at_first hvalid
    | cons head rest =>
      change Counted (SortedMap (KeyPart K) (Level K columns)) at level
      obtain ⟨hhead, hrest⟩ := keyOn_cons.1 hkey
      have hstored := Level.Valid.stored hvalid
      rw [Level.pairs_cons]
      change At P (column :: columns) _ _ ((level.entries.seek ⟨head, column.direction⟩).bind _)
      cases hfound : level.entries.seek ⟨head, column.direction⟩ with
      | none =>
        have hbelow := hstored.1.lt_of_seek_eq_none (hP.part column) ⟨rfl, hhead⟩ hfound
        refine Nat.le_of_eq (List.findIdx_eq_length_of_false fun pair hpair => ?_).symm
        obtain ⟨entry, hentry, hpair⟩ := List.mem_flatMap.1 hpair
        exact Level.reaches_listed (hstored.1.keys entry hentry) (hbelow entry hentry) (by decide)
          pair hpair
      | some outer =>
        obtain ⟨hstands, -⟩ := hstored.1.of_seek (hP.part column) ⟨rfl, hhead⟩ hfound
        obtain ⟨hinner, hpos⟩ := stored_entry hstored hstands
        rw [Option.bind_some, Level.lowerPlace_cons hP hstored hhead hfound]
        by_cases heq : compare outer.key ⟨head, column.direction⟩ = .eq
        · have hat := ih hinner hrest (Nat.le_of_succ_le_succ hlength)
          rw [if_pos heq]
          simp only [heq, Ordering.isEq_eq, if_true]
          cases hseek : seek columns outer.value rest with
          | some inner =>
            rw [hseek] at hat
            have hlt := hat.1.lt_length
            rw [hat.2] at hlt
            exact at_enter hstored hstands hat hlt rfl false
          | none =>
            rw [hseek] at hat
            apply at_enter_first hstored (fun _ => at_first) hstands.next
            rw [hstands.take_succ, Nat.le_antisymm Level.lowerPlace_le hat]
            simp [Level.listed, Level.prepend, SortedMap.Cursor.entry]
        · rw [if_neg heq]
          simp only [Ordering.isEq_iff_eq_eq, heq, if_false]
          exact at_enter hstored hstands (at_first hinner) hpos rfl false

/-! ### The pairs under a start of keys -/

/-- The keys with one start stand together. -/
theorem startsWith_infix (hP : OrderedOn P) (hvalid : Level.Valid P columns level) {start : List K}
    (hstart : KeyOn P start) :
    ((Level.pairs columns level).filter fun pair => StartsWith pair.1 start) <:+:
      Level.pairs columns level := by
  induction columns generalizing start with
  | nil =>
    cases start with
    | nil =>
      simp only [Level.filter_pairs_nil, List.infix_rfl]
    | cons head rest =>
      rw [Level.filter_pairs_of_nil]
      exact List.nil_infix
  | cons column columns ih =>
    cases start with
    | nil =>
      simp only [Level.filter_pairs_nil, List.infix_rfl]
    | cons head rest =>
      change Counted (SortedMap (KeyPart K) (Level K columns)) at level
      obtain ⟨hhead, hrest⟩ := keyOn_cons.1 hstart
      have hstored := Level.Valid.stored hvalid
      rw [Level.filter_pairs_cons hP hstored hhead]
      cases hfound : level.entries.seek ⟨head, column.direction⟩ with
      | none => exact List.nil_infix
      | some found =>
        have hmem := hstored.mem_of_seek hP hhead hfound
        have hinner : Level.Valid P columns found.value := (hstored.2 _ hmem).1
        dsimp only
        split
        · have hkept := (ih hinner hrest).map fun pair => (found.key.value :: pair.1, pair.2)
          have hlisted : Level.listed found.entry <:+: level.entries.toList.flatMap Level.listed :=
            List.infix_of_mem_flatten (List.mem_map_of_mem hmem)
          exact hkept.trans hlisted
        · exact List.nil_infix

/-- A cursor that is pinned to the start of keys ranges over the pairs whose keys start so. -/
theorem at_under (hP : OrderedOn P) (hvalid : Level.Valid P columns level) {start : List K}
    (hstart : KeyOn P start) :
    At P columns ((Level.pairs columns level).filter fun pair => StartsWith pair.1 start) 0
      (under columns level start) := by
  induction columns generalizing start with
  | nil =>
    cases start with
    | nil =>
      rw [Level.filter_pairs_nil]
      exact at_first hvalid
    | cons head rest => exact Nat.le_of_eq (congrArg List.length Level.filter_pairs_of_nil)
  | cons column columns ih =>
    cases start with
    | nil =>
      rw [Level.filter_pairs_nil]
      exact at_first hvalid
    | cons head rest =>
      change Counted (SortedMap (KeyPart K) (Level K columns)) at level
      obtain ⟨hhead, hrest⟩ := keyOn_cons.1 hstart
      have hstored := Level.Valid.stored hvalid
      rw [Level.filter_pairs_cons hP hstored hhead]
      change At P (column :: columns) _ 0 ((level.entries.seek ⟨head, column.direction⟩).bind _)
      cases hfound : level.entries.seek ⟨head, column.direction⟩ with
      | none => exact Nat.le_refl 0
      | some found =>
        have hinner : Level.Valid P columns found.value :=
          (hstored.2 _ (hstored.mem_of_seek hP hhead hfound)).1
        have hat := ih hinner hrest
        simp only [Option.bind_some]
        cases compare found.key ⟨head, column.direction⟩ with
        | lt => exact Nat.le_refl 0
        | gt => exact Nat.le_refl 0
        | eq =>
          cases hunder : under columns found.value rest with
          | none =>
            rw [hunder] at hat
            exact Nat.le_trans (Nat.le_of_eq (List.length_map _)) hat
          | some inner =>
            rw [hunder] at hat
            obtain ⟨hranges, hplace⟩ := hat
            refine ⟨⟨_, hranges, rfl⟩, ?_⟩
            rw [length_past_cons, hplace]
            rfl

end LevelCursor

end SnapshotStore
