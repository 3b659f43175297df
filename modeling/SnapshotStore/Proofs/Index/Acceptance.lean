import SnapshotStore.Proofs.Index.Composite

/-!
# What an index takes in

An index refuses a full key for two reasons only: a component is null where its column refuses
nulls, or the key is held already and the last column refuses duplicates.
-/

namespace SnapshotStore

variable {K : Type} [Ord K] [HasNull K] {P : K → Prop} {key : List K} {row : RowId}

/-- A key without nulls is taken in if it is free or may be held more than once. -/
theorem Level.exists_insert? {columns : List KeyColumn} {level : Level K columns} {place : Nat}
    (hP : OrderedOn P) (hvalid : Valid P columns level) (hkey : KeyOn P key)
    (hlength : key.length = columns.length)
    (hnull : ∀ component ∈ key, HasNull.isNull component = false)
    (hfree : ∀ last, columns.getLast? = some last → last.onDuplicate = .disallow →
      ∀ r, ¬ Holds columns level key r) :
    ∃ result, insert? place columns level key row = .ok result := by
  induction columns generalizing place key with
  | nil =>
    rw [List.length_eq_zero_iff.1 hlength]
    exact ⟨_, rfl⟩
  | cons column columns ih =>
    change Counted (SortedMap (KeyPart K) (Level K columns)) at level
    cases key with
    | nil => cases hlength
    | cons head rest =>
      obtain ⟨hhead, hrest⟩ := keyOn_cons.1 hkey
      obtain ⟨hheadNull, hrestNull⟩ := List.forall_mem_cons.1 hnull
      have hbelow : Valid P columns (below columns level.entries ⟨head, column.direction⟩) :=
        hvalid.stored.below hP hhead
      rw [insert?_cons, if_neg (by simp [hheadNull])]
      split
      · next htaken =>
        obtain ⟨rfl, hsome, _⟩ := htaken
        split
        · next hrule =>
          -- what is stored under the component is not empty
          obtain ⟨inner, hget⟩ := Option.isSome_iff_exists.1 hsome
          obtain ⟨hinner, hnonempty⟩ := hvalid.stored.of_get? hP hhead hget
          obtain ⟨found, r, _, hholds⟩ := exists_holds hP hinner hnonempty
          rw [List.length_eq_zero_iff.1 (length_of_holds hholds)] at hholds
          rw [List.length_eq_zero_iff.1 (Nat.succ.inj hlength)] at hfree
          exact absurd ⟨inner, hget, hholds⟩ (hfree column rfl hrule r)
        · exact ⟨_, rfl⟩
      · have hlater : ∀ last, columns.getLast? = some last → last.onDuplicate = .disallow →
            ∀ r, ¬ Holds columns (below columns level.entries ⟨head, column.direction⟩) rest r := by
          intro last hlast hrule r hholds
          have hlast' : (column :: columns).getLast? = some last := by
            rw [List.getLast?_cons, hlast, Option.getD_some]
          exact hfree last hlast' hrule r (holds_below.1 hholds)
        obtain ⟨inner, hinner⟩ := ih hbelow hrest (Nat.succ.inj hlength) hrestNull hlater
        exact ⟨_, bind_eq_ok.2 ⟨inner, hinner, rfl⟩⟩

theorem CompositeIndex.exists_insert {x : CompositeIndex K} (hP : OrderedOn P)
    (hvalid : x.Valid P) (hkey : KeyOn P key) (hlength : key.length = x.columns.length)
    (hnull : ∀ component ∈ key, HasNull.isNull component = false)
    (hfree : x.RefusesDuplicates → ∀ r, ¬ x.Holds key r) : ∃ y, x.insert key row = .ok y := by
  obtain ⟨level, hlevel⟩ : ∃ level, Level.insert? 0 x.columns x.level key row = .ok level :=
    Level.exists_insert? hP hvalid hkey hlength hnull
      fun last hlast hrule => hfree ⟨last, hlast, hrule⟩
  exact ⟨_, insert_eq_ok.2 ⟨hlength, level, hlevel, rfl⟩⟩

omit [HasNull K] in
theorem CompositeIndex.exists_erase {x : CompositeIndex K}
    (hlength : key.length = x.columns.length) : ∃ y, x.erase key row = .ok y :=
  ⟨_, erase_eq_ok.2 ⟨hlength, rfl⟩⟩

end SnapshotStore
