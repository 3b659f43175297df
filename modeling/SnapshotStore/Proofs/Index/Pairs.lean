import SnapshotStore.Proofs.Index.Change
import SnapshotStore.Proofs.SortedMap.Place

/-!
# The pairs of a level in order

A level lists its pairs by their keys, each component in the direction of its column, and by their
rows under one key. The rows under the keys that start in one way are a part of this list.
-/

namespace SnapshotStore.Level

variable {K : Type}

/-- The components of a key with the directions of their columns. -/
def parts (columns : List KeyColumn) (key : List K) : List (KeyPart K) :=
  columns.zipWith (fun column component => ⟨component, column.direction⟩) key

/-- The order in which a level lists its pairs. -/
def comparePairs [Ord K] (columns : List KeyColumn) (a b : List K × RowId) : Ordering :=
  (compareKeys (parts columns a.1) (parts columns b.1)).then (compare a.2 b.2)

variable {column : KeyColumn} {columns : List KeyColumn}

variable [Ord K] {P : K → Prop} {level : Level K columns} {key : List K} {row : RowId}

/-- The pairs are in strictly ascending order. -/
theorem pairwise_pairs (hP : OrderedOn P) (hvalid : Valid P columns level) :
    (pairs columns level).Pairwise fun a b => comparePairs columns a b = .lt := by
  induction columns with
  | nil => exact List.pairwise_map.2 (SortedMap.Lawful.pairwise_keys hvalid)
  | cons column columns ih =>
    change Counted (SortedMap (KeyPart K) (Level K columns)) at level
    obtain ⟨⟨hentries, hinner⟩, _⟩ := hvalid
    have hpart : ∀ entry ∈ level.entries.toList, PartOf P column entry.1 := hentries.keys
    refine List.pairwise_flatMap.2 ⟨fun entry hentry => ?_, ?_⟩
    · refine List.pairwise_map.2 ((ih (hinner entry hentry).1).imp fun {a b} hab => ?_)
      have hself : compare (⟨entry.1.value, column.direction⟩ : KeyPart K)
          ⟨entry.1.value, column.direction⟩ = .eq := by
        refine (hP.part column).refl ⟨rfl, (hpart entry hentry).2⟩
      rw [comparePairs, parts, parts, List.zipWith_cons_cons, List.zipWith_cons_cons, compareKeys,
        hself]
      exact hab
    · refine hentries.strictlyAscending.imp_of_mem fun {x y} hx hy hxy a ha b hb => ?_
      obtain ⟨_, _, rfl⟩ := List.mem_map.1 ha
      obtain ⟨_, _, rfl⟩ := List.mem_map.1 hb
      have hbelow : compare (⟨x.1.value, column.direction⟩ : KeyPart K)
          ⟨y.1.value, column.direction⟩ = .lt := by
        rwa [← (hpart x hx).1, show (⟨y.1.value, x.1.direction⟩ : KeyPart K) = y.1
          by rw [(hpart x hx).1, ← (hpart y hy).1]]
      rw [comparePairs, parts, parts, List.zipWith_cons_cons, List.zipWith_cons_cons, compareKeys,
        hbelow]
      rfl

/-! ### Rows under a start of keys -/

theorem rowsUnder_nil : rowsUnder columns level [] = (pairs columns level).map Prod.snd := by
  cases columns <;> rfl

theorem rowsUnder_cons {level : Counted (SortedMap (KeyPart K) (Level K columns))} {head : K}
    {rest : List K} :
    rowsUnder (column :: columns) level
      (head :: rest) = match level.entries.seek ⟨head, column.direction⟩ with
      | some found =>
        if (compare found.key ⟨head, column.direction⟩).isEq then rowsUnder columns found.value rest
          else []
      | none => [] := rfl

theorem Stored.mem_of_seek (hP : OrderedOn P) {entries : SortedMap (KeyPart K) (Level K columns)}
    (hstored : Stored P column columns entries) {head : K} (hhead : P head)
    {found : SortedMap.Cursor (KeyPart K) (Level K columns)}
    (h : entries.seek ⟨head, column.direction⟩ = some found) : found.entry ∈ entries.toList :=
  (hstored.1.of_seek (hP.part column) ⟨rfl, hhead⟩ h).1.mem

/-- A start keeps no more than what is below the entry that a search for its first component ends
on. -/
theorem filter_pairs_cons (hP : OrderedOn P)
    {level : Counted (SortedMap (KeyPart K) (Level K columns))}
    (hstored : Stored P column columns level.entries) {head : K} {rest : List K} (hhead : P head) :
    ((pairs (column :: columns) level).filter fun pair => StartsWith pair.1 (head :: rest)) =
      match level.entries.seek ⟨head, column.direction⟩ with
      | some found =>
        if (compare found.key ⟨head, column.direction⟩).isEq then
          prepend found.key.value
            ((pairs columns found.value).filter fun pair => StartsWith pair.1 rest)
        else []
      | none => [] := by
  have hentries := hstored.1
  have hpart : PartOf P column ⟨head, column.direction⟩ := ⟨rfl, hhead⟩
  have hother : ∀ entry ∈ level.entries.toList, compare entry.1 ⟨head, column.direction⟩ ≠ .eq →
      ((listed entry).filter fun pair => StartsWith pair.1 (head :: rest)) = [] := by
    intro entry hentry hne
    have hiff := compare_part_eq_iff hP (hentries.keys entry hentry) hpart
    rw [listed, prepend, List.filter_map, List.filter_eq_nil_iff.2, List.map_nil]
    exact fun pair _ h => hne (hiff.2 (of_decide_eq_true h).1)
  rw [pairs_cons, List.filter_flatMap]
  cases hfound : level.entries.seek ⟨head, column.direction⟩ with
  | none =>
    have hbelow := hentries.lt_of_seek_eq_none (hP.part column) hpart hfound
    refine List.flatMap_eq_nil_iff.2 fun entry hentry => hother entry hentry ?_
    rw [hbelow entry hentry]
    decide
  | some found =>
    obtain ⟨hstands, hbefore, -, hbehind⟩ := hentries.of_seek (hP.part column) hpart hfound
    have hsplit := hstands.split
    have hfront : found.earlier.flatMap
        (fun entry => (listed entry).filter fun pair => StartsWith pair.1 (head :: rest)) = [] := by
      refine List.flatMap_eq_nil_iff.2 fun entry hentry => hother entry ?_ ?_
      · exact hsplit ▸ List.mem_append_left _ hentry
      · rw [hbefore entry hentry]
        decide
    have hback : found.later.flatMap
        (fun entry => (listed entry).filter fun pair => StartsWith pair.1 (head :: rest)) = [] := by
      refine List.flatMap_eq_nil_iff.2 fun entry hentry => hother entry ?_ ?_
      · exact hsplit ▸ List.mem_append_right _ (List.mem_cons_of_mem _ hentry)
      · rw [hbehind entry hentry]
        decide
    rw [← hsplit, List.flatMap_append, List.flatMap_cons, hfront, hback, List.nil_append,
      List.append_nil]
    by_cases heq : compare found.key ⟨head, column.direction⟩ = .eq
    · have hiff := compare_part_eq_iff hP (hentries.keys found.entry hstands.mem) hpart
      simp only [heq, Ordering.isEq_eq, if_true]
      rw [listed, prepend, List.filter_map]
      refine congrArg _ (List.filter_congr fun pair _ => decide_eq_decide.2 ?_)
      exact ⟨And.right, fun h => ⟨hiff.1 heq, h⟩⟩
    · simp only [Ordering.isEq_iff_eq_eq, if_neg heq]
      exact hother found.entry hstands.mem heq

theorem filter_pairs_nil :
    ((pairs columns level).filter fun pair => StartsWith pair.1 []) = pairs columns level :=
  List.filter_eq_self.2 fun _ _ => decide_eq_true startsWith_nil

/-- No key of no components starts with one. -/
theorem filter_pairs_of_nil {level : Level K []} {head : K} {rest : List K} :
    ((pairs [] level).filter fun pair => StartsWith pair.1 (head :: rest)) = [] := by
  refine List.filter_eq_nil_iff.2 fun pair hpair => ?_
  obtain ⟨row, _, rfl⟩ := List.mem_map.1 hpair
  exact of_decide_eq_false rfl

/-- The rows under a start are those of the pairs whose keys start so, in the order of the level. -/
theorem rowsUnder_eq (hP : OrderedOn P) (hvalid : Valid P columns level) {start : List K}
    (hstart : KeyOn P start) :
    rowsUnder columns level start =
      ((pairs columns level).filter fun pair => StartsWith pair.1 start).map Prod.snd := by
  induction columns generalizing start with
  | nil =>
    cases start with
    | nil => rw [rowsUnder_nil, filter_pairs_nil]
    | cons head rest =>
      rw [filter_pairs_of_nil]
      rfl
  | cons column columns ih =>
    cases start with
    | nil => rw [rowsUnder_nil, filter_pairs_nil]
    | cons head rest =>
      change Counted (SortedMap (KeyPart K) (Level K columns)) at level
      obtain ⟨hhead, hrest⟩ := keyOn_cons.1 hstart
      have hstored := hvalid.stored
      rw [rowsUnder_cons, filter_pairs_cons hP hstored hhead]
      cases hfound : level.entries.seek ⟨head, column.direction⟩ with
      | none => rfl
      | some found =>
        dsimp only
        split
        · have hmem := hstored.mem_of_seek hP hhead hfound
          have hinner : Valid P columns found.value := (hstored.2 _ hmem).1
          rw [ih hinner hrest, prepend, List.map_map]
          rfl
        · rfl

/-! ### Columns that all ascend -/

theorem compare_cons (x y : K) (xs ys : List K) :
    compare (x :: xs) (y :: ys) = (compare x y).then (compare xs ys) :=
  List.compareLex_cons_cons

theorem compareKeys_parts {a b : List K}
    (hascending : ∀ column ∈ columns, column.direction = .ascending)
    (ha : a.length = columns.length) (hb : b.length = columns.length) :
    compareKeys (parts columns a) (parts columns b) = compare a b := by
  induction columns generalizing a b with
  | nil =>
    rw [List.length_eq_zero_iff.1 ha, List.length_eq_zero_iff.1 hb]
    rfl
  | cons column columns ih =>
    obtain ⟨hcolumn, hcolumns⟩ := List.forall_mem_cons.1 hascending
    cases a with
    | nil => cases ha
    | cons x xs =>
      cases b with
      | nil => cases hb
      | cons y ys =>
        have hrest := ih hcolumns (Nat.succ.inj ha) (Nat.succ.inj hb)
        rw [parts, parts] at hrest
        rw [parts, parts, List.zipWith_cons_cons, List.zipWith_cons_cons, compareKeys,
          compare_part rfl, hcolumn, compare_cons, hrest]

theorem compare_eq_of_sameKey {a b : List K} (h : SameKey a b) : compare a b = .eq := by
  induction a generalizing b with
  | nil =>
    cases b with
    | nil => rfl
    | cons => exact h.elim
  | cons x xs ih =>
    cases b with
    | nil => exact h.elim
    | cons y ys =>
      rw [compare_cons, h.1, ih h.2]
      rfl

/-- Keys that are the same stand at one place among all keys. -/
theorem compare_congr_of_sameKey (hP : OrderedOn P) {a a' b b' : List K} (ha : KeyOn P a)
    (ha' : KeyOn P a') (hb : KeyOn P b) (hb' : KeyOn P b') (haa' : SameKey a a')
    (hbb' : SameKey b b') : compare a b = compare a' b' := by
  induction a generalizing a' b b' with
  | nil =>
    cases a' with
    | cons => exact haa'.elim
    | nil =>
      cases b <;> cases b' <;> first | rfl | exact hbb'.elim
  | cons x xs ih =>
    cases a' with
    | nil => exact haa'.elim
    | cons x' xs' =>
      cases b with
      | nil =>
        cases b' with
        | nil => rfl
        | cons => exact hbb'.elim
      | cons y ys =>
        cases b' with
        | nil => exact hbb'.elim
        | cons y' ys' =>
          obtain ⟨hx, hxs⟩ := keyOn_cons.1 ha
          obtain ⟨hx', hxs'⟩ := keyOn_cons.1 ha'
          obtain ⟨hy, hys⟩ := keyOn_cons.1 hb
          obtain ⟨hy', hys'⟩ := keyOn_cons.1 hb'
          have hhead : compare x y = compare x' y' := by
            rw [hP.congr_left hx hx' hy haa'.1, hP.congr_right hx' hy hy' hbb'.1]
          rw [compare_cons, compare_cons, hhead, ih hxs hxs' hys hys' haa'.2 hbb'.2]

end SnapshotStore.Level
