import SnapshotStore.Index.Basic
import SnapshotStore.Proofs.Alike.SortedMap

/-!
# Indexes over related rows

Two indexes over the same columns are alike if they have the same keys in trees of one shape, with
related rows under them and the same numbers of them. An index only compares rows with each other, so it keeps related rows apart
or together in the same way.
-/

namespace SnapshotStore

variable {K : Type} {R : RowId → RowId → Prop}

namespace Level

def Alike (R : RowId → RowId → Prop) : (columns : List KeyColumn) → Level K columns →
    Level K columns → Prop
  | [], rows, rows' => SortedMap.Alike R Eq rows rows'
  | _ :: columns, (level : Counted _), (level' : Counted _) =>
    SortedMap.Alike Eq (Alike R columns) level.entries level'.entries ∧ level.count = level'.count

theorem empty_alike (columns : List KeyColumn) :
    Alike (K := K) R columns (empty columns) (empty columns) := by
  cases columns with
  | nil => exact SortedMap.Alike.empty
  | cons => exact ⟨SortedMap.Alike.empty, rfl⟩

theorem Alike.isEmpty_eq {columns : List KeyColumn} {level level' : Level K columns}
    (h : Alike R columns level level') : isEmpty columns level = isEmpty columns level' := by
  cases columns with
  | nil => exact SortedMap.Alike.isEmpty_eq h
  | cons => exact decide_eq_decide.2 (iff_of_eq (congrArg (· = 0) h.2))

theorem Alike.pairs {columns : List KeyColumn} {level level' : Level K columns}
    (h : Alike R columns level level') :
    List.Forall₂ (RelatedEntry Eq R) (pairs columns level) (pairs columns level') := by
  induction columns with
  | nil =>
    exact List.rel_map (fun _ _ hrow => ⟨rfl, hrow⟩) (SortedMap.Alike.keys h)
  | cons column columns ih =>
    refine List.rel_flatMap h.1.toList fun entry entry' hentry => ?_
    refine List.rel_map (fun pair pair' hpair => ⟨?_, hpair.2⟩) (ih hentry.2)
    show entry.1.value :: pair.1 = entry'.1.value :: pair'.1
    rw [hentry.1, hpair.1]

variable [Ord K] {columns : List KeyColumn} {level level' : Level K columns} {row row' : RowId}

theorem Alike.contains_eq (h : Alike R columns level level') (start : List K) :
    contains columns level start = contains columns level' start := by
  induction columns generalizing start with
  | nil =>
    cases start with
    | nil => exact congrArg _ h.isEmpty_eq
    | cons => rfl
  | cons column columns ih =>
    cases start with
    | nil => exact congrArg _ h.isEmpty_eq
    | cons head rest =>
      exact rel_option_any (SortedMap.Alike.get? comparesAlike_eq h.1 rfl) fun _ _ hinner =>
        ih hinner rest

variable (hR : ComparesAlike R) (hrow : R row row')
include hR hrow

theorem Alike.insert? [HasNull K] (h : Alike R columns level level') (place : Nat) (key : List K) :
    Agree (Option.Rel (Alike R columns)) (insert? place columns level key row)
      (insert? place columns level' key row') := by
  induction columns generalizing place key with
  | nil =>
    rw [Level.insert?, Level.insert?, SortedMap.Alike.contains_eq hR h hrow]
    split
    · exact .ok .none
    · exact .ok (.some (SortedMap.Alike.insert hR h hrow rfl))
  | cons column columns ih =>
    cases key with
    | nil => exact .ok .none
    | cons head rest =>
      change Counted (SortedMap (KeyPart K) (Level K columns)) at level level'
      obtain ⟨hentries, hcount⟩ := h
      have hfound := SortedMap.Alike.get? comparesAlike_eq hentries
        (rfl : KeyPart.mk head column.direction = ⟨head, column.direction⟩)
      have hstore : ∀ {inner inner' : Level K columns}, Alike R columns inner inner' →
          Agree (Option.Rel (Alike R (column :: columns)))
            (Level.insert? (place + 1) columns inner rest row >>= fun inner =>
              .ok (inner.map (level.store ⟨head, column.direction⟩)))
            (Level.insert? (place + 1) columns inner' rest row' >>= fun inner =>
              .ok (inner.map (level'.store ⟨head, column.direction⟩))) :=
        fun hinner => (ih hinner (place + 1) rest).bind fun _ _ hchanged =>
          .ok (rel_option_map hchanged fun _ _ hinner =>
            ⟨SortedMap.Alike.insert comparesAlike_eq hentries rfl hinner,
              congrArg (· + 1) hcount⟩)
      rw [Level.insert?, Level.insert?]
      split
      · exact .error
      · split
        · exact .ok .none
        · dsimp only
          generalize SortedMap.get? level.entries _ = found,
            SortedMap.get? level'.entries _ = found' at hfound
          cases hfound with
          | none => exact hstore (empty_alike columns)
          | some hinner =>
            dsimp only
            split
            · exact .ok .none
            · split
              · exact .error
              · exact hstore hinner

theorem Alike.erase? (h : Alike R columns level level') (key : List K) :
    Option.Rel (Alike R columns) (erase? columns level key row)
      (erase? columns level' key row') := by
  induction columns generalizing key with
  | nil =>
    rw [Level.erase?, Level.erase?, SortedMap.Alike.contains_eq hR h hrow]
    split
    · exact .some (SortedMap.Alike.erase hR h hrow)
    · exact .none
  | cons column columns ih =>
    cases key with
    | nil => exact .none
    | cons head rest =>
      obtain ⟨hentries, hcount⟩ := h
      refine rel_option_bind (SortedMap.Alike.get? comparesAlike_eq hentries rfl)
        fun _ _ hfound => ?_
      refine rel_option_bind (ih hfound rest) fun inner inner' hinner =>
        .some ⟨?_, congrArg (· - 1) hcount⟩
      rw [hinner.isEmpty_eq]
      cases isEmpty columns inner' with
      | true => exact SortedMap.Alike.erase comparesAlike_eq hentries rfl
      | false => exact SortedMap.Alike.insert comparesAlike_eq hentries rfl hinner

end Level

namespace CompositeIndex

/-- Indexes over the same columns whose levels are alike. -/
inductive Alike (R : RowId → RowId → Prop) : CompositeIndex K → CompositeIndex K → Prop where
  | intro {columns : List KeyColumn} {level level' : Level K columns}
      (h : Level.Alike R columns level level') : Alike R ⟨columns, level⟩ ⟨columns, level'⟩

theorem new_alike (columns : List KeyColumn) :
    Agree (Alike (K := K) R) (new columns) (new columns) := by
  rw [new]
  split
  · exact .error
  · split
    · exact .error
    · exact .ok (.intro (Level.empty_alike columns))

variable {x x' : CompositeIndex K}

theorem Alike.pairs (h : Alike R x x') :
    List.Forall₂ (RelatedEntry Eq R) x.pairs x'.pairs := by
  cases h with
  | intro h => exact Level.Alike.pairs h

theorem Alike.contains_eq [Ord K] (h : Alike R x x') (start : List K) :
    x.contains start = x'.contains start := by
  cases h with
  | intro h => exact h.contains_eq start

theorem Alike.ensureLength (h : Alike R x x') (key : List K) :
    Agree Eq (x.ensureLength key) (x'.ensureLength key) := by
  cases h with
  | intro h =>
    rw [CompositeIndex.ensureLength, CompositeIndex.ensureLength]
    split
    · exact .ok rfl
    · exact .error

theorem Alike.elim {columns : List KeyColumn} {level level' : Level K columns}
    {changed changed' : Option (Level K columns)} (h : Level.Alike R columns level level')
    (hchanged : Option.Rel (Level.Alike R columns) changed changed') :
    Alike R (changed.elim ⟨columns, level⟩ fun level => ⟨columns, level⟩)
      (changed'.elim ⟨columns, level'⟩ fun level => ⟨columns, level⟩) := by
  cases hchanged with
  | none => exact .intro h
  | some hchanged => exact .intro hchanged

variable [Ord K] {row row' : RowId} (hR : ComparesAlike R) (hrow : R row row')
include hR hrow

theorem Alike.insert [HasNull K] (h : Alike R x x') (key : List K) :
    Agree (Alike R) (x.insert key row) (x'.insert key row') := by
  refine (h.ensureLength key).bind fun _ _ _ => ?_
  cases h with
  | intro h =>
    exact (h.insert? hR hrow 0 key).bind fun _ _ hlevel => .ok (Alike.elim h hlevel)

theorem Alike.erase (h : Alike R x x') (key : List K) :
    Agree (Alike R) (x.erase key row) (x'.erase key row') := by
  refine (h.ensureLength key).bind fun _ _ _ => ?_
  cases h with
  | intro h => exact .ok (Alike.elim h (h.erase? hR hrow key))

end CompositeIndex

end SnapshotStore
