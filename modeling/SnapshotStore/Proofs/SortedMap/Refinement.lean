import Mathlib.Data.List.Forall2
import SnapshotStore.Proofs.SortedMap.Checked
import SnapshotStore.Proofs.SortedMap.Walk

/-!
# Sorted maps refine ascending lists

A map that is made by any sequence of operations answers as the list that the same operations make
of entries in ascending order, whatever the shape of its tree, and the tree passes the check. Keys
at one place of the order need not be equal: a key that is stored again keeps its first form.
-/

namespace SnapshotStore.SortedMap

variable {K V : Type}

/-- A map over well-sized buckets. -/
def Proper (m : SortedMap K V) : Prop := ∀ b, m.root = some b → b.Proper

theorem proper_empty : (empty : SortedMap K V).Proper := fun _ h => by cases h

theorem proper_some {b : Bucket K V} (h : b.Proper) : (⟨some b⟩ : SortedMap K V).Proper :=
  fun _ heq => by cases heq; exact h

theorem proper_singleton (key : K) (value : V) : (singleton key value).Proper :=
  proper_some (.of_leaf (List.cons_ne_nil _ _) (Nat.le_add_left 1 7))

theorem Proper.size_eq {m : SortedMap K V} (h : m.Proper) : m.size = m.toList.length := by
  obtain ⟨root⟩ := m
  cases root with
  | none => rfl
  | some b => exact (h b rfl).total_eq

variable [Ord K] {P : K → Prop} {m changed : SortedMap K V} {key : K} {value : V}

theorem valid_singleton (hkey : P key) : (singleton key value).Valid P := by
  refine valid_some ⟨List.pairwise_singleton _ _, fun mark hmark => ?_⟩
    (.of_leaf (List.cons_ne_nil _ _))
  rw [List.mem_singleton.1 hmark]
  exact hkey

namespace Valid

theorem check (hP : OrderedOn P) (h : m.Valid P) (hproper : m.Proper) : m.check = .ok () := by
  rcases h.cases_root with rfl | ⟨b, rfl, hordered, _⟩
  · rfl
  · have hfound : b.check none none = _ := (hproper b rfl).check_eq hP hordered
      (fun bound hbound => by cases hbound) (fun bound hbound => by cases hbound)
    rw [SortedMap.check, Option.elim_some, hfound]
    rfl

/-! ### Changes keep the sizes -/

theorem proper_insert (hP : OrderedOn P) (hkey : P key) (h : m.Valid P) (hproper : m.Proper) :
    (m.insert key value).Proper := by
  obtain ⟨c, hinsert, henters⟩ := m.exists_enters key value
  obtain ⟨root⟩ := m
  rw [hinsert]
  cases henters with
  | first => exact proper_singleton key value
  | replaced hreplaced =>
    have hb : Bucket.Proper _ := hproper _ rfl
    exact proper_some (hb.replace? hreplaced)
  | placed habsent hroom =>
    have hb : Bucket.Proper _ := hproper _ rfl
    have hordered := (h.root _ rfl).1
    exact proper_some (hb.insert hP hkey hordered
      (hordered.compare_ne_of_replace?_eq_none hP hkey habsent) (hb.room hroom))
  | @grown b low high separator habsent hfull hsplit =>
    have hb : b.Proper := hproper b rfl
    have hordered := (h.root b rfl).1
    have hroom : (Bucket.join [(separator, low)] high).Room key := .inl (Nat.le_add_left 2 6)
    apply proper_some
    apply (hb.join_split hfull hsplit).insert hP hkey (hordered.join_split hP hsplit) _ hroom
    rw [Bucket.toList_join_split hsplit]
    exact hordered.compare_ne_of_replace?_eq_none hP hkey habsent

theorem proper_erase (h : m.Valid P) (hproper : m.Proper) : (m.erase key).Proper := by
  rcases h.cases_root with rfl | ⟨b, rfl, _, _⟩
  · exact proper_empty
  · have hrest : (b.erase key).Proper b := (hproper b rfl).erase
    simp only [SortedMap.erase]
    cases herase : b.erase key with
    | unchanged => exact hproper
    | nothing => exact proper_empty
    | bucket rest =>
      rw [herase] at hrest
      exact proper_some hrest.1

/-! ### Keys that are present and keys that are not -/

theorem contains_iff (hP : OrderedOn P) (hkey : P key) (h : m.Valid P) :
    m.contains key ↔ ∃ entry ∈ m.toList, compare entry.1 key = .eq := by
  rw [contains, h.get?_eq hP hkey, ← Option.ne_none_iff_isSome, ne_eq, Entries.get?_eq_none_iff]
  simp

theorem replace?_eq_none_iff (hP : OrderedOn P) (hkey : P key) (h : m.Valid P) :
    m.replace? key value = none ↔ ¬ m.contains key := by
  rw [h.contains_iff hP hkey, not_exists]
  rcases h.cases_root with rfl | ⟨b, rfl, hordered, _⟩
  · exact ⟨fun _ entry hentry => absurd hentry.1 List.not_mem_nil, fun _ => rfl⟩
  rw [SortedMap.replace?, Option.bind_some, Option.map_eq_none_iff]
  constructor
  · exact fun hnone entry hentry =>
      hordered.compare_ne_of_replace?_eq_none hP hkey hnone entry hentry.1 hentry.2
  · intro habsent
    -- an insertion of an absent key makes a list longer, and a replacement does not
    refine Option.eq_none_iff_forall_not_mem.2 fun c hc => ?_
    have hsame : c.toList.length = b.toList.length := Bucket.length_toList_replace? hc
    have hlonger : (Entries.insert key value b.toList).length = b.toList.length + 1 :=
      Entries.length_insert fun entry hentry heq => habsent entry ⟨hentry, heq⟩
    rw [hordered.toList_replace? hP hkey hc, hlonger] at hsame
    omega

theorem replace? (hP : OrderedOn P) (hkey : P key) (h : m.Valid P) (hproper : m.Proper)
    (hchanged : m.replace? key value = some changed) :
    changed.Valid P ∧ changed.Proper ∧ changed.toList = Entries.replace key value m.toList := by
  have hpresent : m.contains key := by
    refine Decidable.of_not_not fun habsent => ?_
    rw [(h.replace?_eq_none_iff hP hkey).2 habsent] at hchanged
    cases hchanged
  rw [h.contains_iff hP hkey] at hpresent
  rw [← Entries.insert_eq_replace hP hkey h.keys h.strictlyAscending hpresent]
  rcases h.cases_root with rfl | ⟨b, rfl, hordered, hfilled⟩
  · cases hchanged
  · rw [SortedMap.replace?, Option.bind_some, Option.map_eq_some_iff] at hchanged
    obtain ⟨c, hc, rfl⟩ := hchanged
    have hmarks := Bucket.marks_replace? hc
    have hb : b.Proper := hproper b rfl
    exact ⟨valid_some (hordered.of_sublist (hmarks ▸ List.Sublist.refl _)) (hfilled.replace? hc),
      proper_some (hb.replace? hc), hordered.toList_replace? hP hkey hc⟩

theorem insert_eq_replace (hP : OrderedOn P) (hkey : P key) (h : m.Valid P)
    (hpresent : m.contains key) :
    (m.insert key value).toList = Entries.replace key value m.toList := by
  rw [h.toList_insert hP hkey]
  exact Entries.insert_eq_replace hP hkey h.keys h.strictlyAscending
    ((h.contains_iff hP hkey).1 hpresent)

/-- Without the key there is nothing to take out, and the tree stays as it is. -/
theorem erase_eq_self (hP : OrderedOn P) (hkey : P key) (h : m.Valid P) (hproper : m.Proper)
    (habsent : ¬ m.contains key) : m.erase key = m := by
  rw [h.contains_iff hP hkey, not_exists] at habsent
  rcases h.cases_root with rfl | ⟨b, rfl, hordered, _⟩
  · rfl
  have hself : Entries.erase key b.toList = b.toList :=
    Entries.erase_eq_self fun entry hentry heq => habsent entry ⟨hentry, heq⟩
  have hremoves := hordered.removes_erase hP hkey
  have hb : b.Proper := hproper b rfl
  have hrest : (b.erase key).Proper b := hb.erase
  simp only [SortedMap.erase]
  cases herase : b.erase key with
  | unchanged => rfl
  | nothing =>
    rw [herase, Bucket.Remainder.Removes, hself] at hremoves
    exact absurd hremoves hb.filled.toList_ne_nil
  | bucket rest =>
    rw [herase] at hremoves hrest
    have hlength := hrest.2
    rw [hremoves.1, hself] at hlength
    omega

end Valid

/-! ### Equality -/

theorem sameEntries_iff [BEq V] {entries others : List (K × V)} :
    sameEntries entries others ↔
      List.Forall₂ (fun a b => compare a.1 b.1 = .eq ∧ a.2 == b.2) entries others := by
  fun_induction sameEntries entries others with
  | case1 => simp
  | case2 a v as b w bs ih => simp [ih, Ordering.isEq_iff_eq_eq]
  | case3 entries others hnil hcons =>
    refine ⟨fun hfalse => absurd hfalse Bool.false_ne_true, fun hsame => ?_⟩
    cases hsame with
    | nil => exact absurd rfl (hnil rfl)
    | cons => exact absurd rfl (hcons _ _ _ _ _ _ rfl)

theorem Proper.beq_iff [BEq V] {other : SortedMap K V} (h : m.Proper) (hother : other.Proper) :
    (m == other) ↔
      List.Forall₂ (fun a b => compare a.1 b.1 = .eq ∧ a.2 == b.2) m.toList other.toList := by
  have hbeq : (m == other) = (m.size == other.size && sameEntries m.toList other.toList) := rfl
  rw [hbeq, Bool.and_eq_true, sameEntries_iff, and_iff_right_of_imp]
  intro hsame
  rw [h.size_eq, hother.size_eq, hsame.length_eq, beq_self_eq_true]

/-! ### The check -/

/-- The check accepts exactly the maps over ordered trees of well-sized buckets. -/
theorem check_eq_ok_iff [Std.TransOrd K] : m.check = .ok () ↔ m.Lawful ∧ m.Proper := by
  refine ⟨fun h => ?_, fun ⟨hlawful, hproper⟩ => Valid.check orderedOn_true hlawful hproper⟩
  obtain ⟨root⟩ := m
  cases root with
  | none => exact ⟨valid_empty, proper_empty⟩
  | some b =>
    obtain ⟨found, hfound⟩ : ∃ found, b.check none none = .ok found := by
      cases hcheck : b.check none none with
      | ok found => exact ⟨found, rfl⟩
      | error fault =>
        rw [SortedMap.check, Option.elim_some, hcheck] at h
        cases h
    have haccepted := Bucket.accepted_of_check orderedOn_true b none none nofun nofun
      (fun _ _ => trivial) hfound
    exact ⟨valid_some haccepted.ordered haccepted.proper.filled, proper_some haccepted.proper⟩

/-! ### Maps and lists made alike -/

/-- A map that some operations make, and the list that the same operations make of entries. -/
inductive Made : SortedMap K V → List (K × V) → Prop where
  | empty : Made empty []
  | singleton (key : K) (value : V) : Made (singleton key value) [(key, value)]
  | ofList (entries : List (K × V)) : Made (ofList entries) (Entries.ofList entries)
  | insert {m : SortedMap K V} {entries : List (K × V)} (h : Made m entries) (key : K) (value : V) :
      Made (m.insert key value) (Entries.insert key value entries)
  | replace {m changed : SortedMap K V} {entries : List (K × V)} {key : K} {value : V}
      (h : Made m entries) (hchanged : m.replace? key value = some changed) :
      Made changed (Entries.replace key value entries)
  | erase {m : SortedMap K V} {entries : List (K × V)} (h : Made m entries) (key : K) :
      Made (m.erase key) (Entries.erase key entries)

/-- The map answers as the list does, and its tree passes the check, which is to say that it is in
order and its buckets are well-sized. -/
structure Refines (m : SortedMap K V) (entries : List (K × V)) : Prop where
  toList : m.toList = entries
  ascending : StrictlyAscending entries
  size : m.size = entries.length
  isEmpty : m.isEmpty ↔ entries = []
  walk : ∀ steps, Cursor.walk steps m.first = entries.take steps
  get? : ∀ key, m.get? key = Entries.get? key entries
  contains : ∀ key, m.contains key ↔ ∃ entry ∈ entries, compare entry.1 key = .eq
  /-- The key object first stored stays. -/
  insert : ∀ key value, m.contains key →
    (m.insert key value).toList = Entries.replace key value entries
  replace? : ∀ key value, m.replace? key value = none ↔ ¬ m.contains key
  erase : ∀ key, ¬ m.contains key → m.erase key = m
  check : m.check = .ok ()

variable [Std.TransOrd K] {entries : List (K × V)}

/-- The tree of a map is in order and well-sized, and a list has the entries of the map. -/
structure Holds (m : SortedMap K V) (entries : List (K × V)) : Prop where
  lawful : m.Lawful
  proper : m.Proper
  toList : m.toList = entries

theorem Holds.insert (h : m.Holds entries) (key : K) (value : V) :
    (m.insert key value).Holds (Entries.insert key value entries) where
  lawful := h.lawful.insert key value
  proper := Valid.proper_insert orderedOn_true trivial h.lawful h.proper
  toList := by rw [Valid.toList_insert orderedOn_true trivial h.lawful, h.toList]

theorem Holds.replace (h : m.Holds entries) {changed : SortedMap K V} {key : K} {value : V}
    (hchanged : m.replace? key value = some changed) :
    changed.Holds (Entries.replace key value entries) := by
  obtain ⟨hlawful, hproper, htoList⟩ :=
    Valid.replace? orderedOn_true trivial h.lawful h.proper hchanged
  exact ⟨hlawful, hproper, by rw [htoList, h.toList]⟩

theorem Holds.erase (h : m.Holds entries) (key : K) :
    (m.erase key).Holds (Entries.erase key entries) where
  lawful := h.lawful.erase key
  proper := Valid.proper_erase h.lawful h.proper
  toList := by rw [Valid.toList_erase orderedOn_true trivial h.lawful, h.toList]

theorem Holds.foldl_insert (h : m.Holds entries) (more : List (K × V)) :
    (more.foldl (fun m (key, value) => m.insert key value) m).Holds
      (more.foldl (fun held (key, value) => Entries.insert key value held) entries) := by
  induction more generalizing m entries with
  | nil => exact h
  | cons entry more ih => exact ih (h.insert entry.1 entry.2)

theorem Made.holds (h : Made m entries) : m.Holds entries := by
  induction h with
  | empty => exact ⟨valid_empty, proper_empty, rfl⟩
  | singleton key value => exact ⟨valid_singleton trivial, proper_singleton key value, rfl⟩
  | ofList entries =>
    have hempty : (SortedMap.empty : SortedMap K V).Holds [] := ⟨valid_empty, proper_empty, rfl⟩
    exact hempty.foldl_insert entries
  | insert _ key value ih => exact ih.insert key value
  | replace _ hchanged ih => exact ih.replace hchanged
  | erase _ key ih => exact ih.erase key

theorem Holds.refines (h : m.Holds entries) : m.Refines entries := by
  obtain ⟨hlawful, hproper, rfl⟩ := h
  exact {
    toList := rfl
    ascending := Valid.strictlyAscending hlawful
    size := hproper.size_eq
    isEmpty := Valid.isEmpty_iff hlawful
    walk := Valid.walk_first hlawful
    get? := fun key => Valid.get?_eq orderedOn_true trivial hlawful
    contains := fun key => Valid.contains_iff orderedOn_true trivial hlawful
    insert := fun key value => Valid.insert_eq_replace orderedOn_true trivial hlawful
    replace? := fun key value => Valid.replace?_eq_none_iff orderedOn_true trivial hlawful
    erase := fun key => Valid.erase_eq_self orderedOn_true trivial hlawful hproper
    check := Valid.check orderedOn_true hlawful hproper }

/-- Every map that operations make refines the list that they make, and two such maps are equal
exactly if their lists have equal entries at each place. -/
theorem refines_of_made [BEq V] (h : Made m entries) :
    m.Refines entries ∧ ∀ {other : SortedMap K V} {others : List (K × V)}, Made other others →
      ((m == other) ↔
        List.Forall₂ (fun a b => compare a.1 b.1 = .eq ∧ a.2 == b.2) entries others) := by
  refine ⟨h.holds.refines, fun {other others} hother => ?_⟩
  rw [h.holds.proper.beq_iff hother.holds.proper, h.holds.toList, hother.holds.toList]

/-- Nine keys fill more than one leaf. Then a value changes, one key goes and another comes. The map
is equal to one that is made of the remaining entries in one go. -/
theorem refines_of_made_numbers :
    ∃ m : SortedMap Nat String,
      m.Refines [(1, "a"), (2, "b"), (4, "d"), (6, "x"), (7, "g"), (8, "h"), (9, "i"), (10, "j"),
        (12, "l")] ∧
      (m == ofList [(12, "l"), (10, "j"), (9, "i"), (8, "h"), (7, "g"), (6, "x"), (4, "d"),
        (2, "b"), (1, "a")]) = true := by
  have hsome : ((ofList [(12, "l"), (1, "a"), (3, "c"), (2, "b"), (10, "j"), (9, "i"), (4, "d"),
      (8, "h"), (6, "f")]).replace? 6 "x").isSome := by decide +kernel
  obtain ⟨changed, hchanged⟩ := Option.isSome_iff_exists.1 hsome
  have hmade := (((Made.ofList _).replace hchanged).erase 3).insert 7 "g"
  obtain ⟨hrefines, hequal⟩ := refines_of_made hmade
  refine ⟨_, hrefines, (hequal (Made.ofList _)).2 ?_⟩
  exact List.forall₂_same.2 fun entry _ => ⟨Std.ReflOrd.compare_self, beq_self_eq_true _⟩

end SnapshotStore.SortedMap
