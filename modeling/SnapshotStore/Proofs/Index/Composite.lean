import SnapshotStore.Index.Basic
import SnapshotStore.Proofs.Index.Pairs

/-!
# Indexes that keep every row

The columns of an index over a table refuse nulls and, at most in the last one, allow duplicates.
Such an index skips no row: what is inserted without an error is there, and what is erased is gone.
-/

namespace SnapshotStore.CompositeIndex

variable {K : Type} [Ord K] {P : K → Prop} {x y : CompositeIndex K} {key start : List K}
  {row : RowId}

def Valid (P : K → Prop) (x : CompositeIndex K) : Prop := Level.Valid P x.columns x.level

/-- A row stands under a key, or under one that is the same. -/
def Holds (x : CompositeIndex K) (key : List K) (row : RowId) : Prop :=
  Level.Holds x.columns x.level key row

/-- No column skips rows or takes nulls. -/
def Strict (x : CompositeIndex K) : Prop :=
  ∀ column ∈ x.columns, column.onNull = .disallow ∧ column.onDuplicate ≠ .ignore

/-- The last column refuses duplicates. -/
def RefusesDuplicates (x : CompositeIndex K) : Prop :=
  ∃ last, x.columns.getLast? = some last ∧ last.onDuplicate = .disallow

omit [Ord K] in
theorem ensureLength_eq_ok : x.ensureLength key = .ok () ↔ key.length = x.columns.length := by
  rw [ensureLength]
  split
  · next h => exact ⟨fun _ => h, fun _ => rfl⟩
  · next h => exact ⟨fun herror => (nomatch herror), fun hlength => absurd hlength h⟩

omit [Ord K] in
theorem new_eq_ok {columns : List KeyColumn} (h : new columns = .ok x) :
    columns ≠ [] ∧ x = ⟨columns, Level.empty columns⟩ := by
  rw [new] at h
  split at h
  · cases h
  · next hne =>
    split at h
    · cases h
    · exact ⟨hne, (Except.ok.inj h).symm⟩

theorem valid_new {columns : List KeyColumn} :
    Valid P (⟨columns, Level.empty columns⟩ : CompositeIndex K) :=
  Level.valid_empty columns

theorem not_holds_new {columns : List KeyColumn} :
    ¬ Holds (⟨columns, Level.empty columns⟩ : CompositeIndex K) key row :=
  Level.not_holds_empty

theorem Holds.length_eq (h : x.Holds key row) : key.length = x.columns.length :=
  Level.length_of_holds h

theorem contains_iff (hP : OrderedOn P) (hvalid : x.Valid P) (hstart : KeyOn P start) :
    x.contains start ↔ ∃ key row, KeyOn P key ∧ x.Holds key row ∧ StartsWith key start :=
  Level.contains_iff hP hvalid hstart

/-- A full key is contained if a row stands under it. -/
theorem contains_iff_of_length (hP : OrderedOn P) (hvalid : x.Valid P) (hkey : KeyOn P key)
    (hlength : key.length = x.columns.length) : x.contains key ↔ ∃ row, x.Holds key row := by
  rw [contains_iff hP hvalid hkey]
  constructor
  · rintro ⟨other, row, hother, hholds, hstarts⟩
    have hsame := (startsWith_iff_sameKey (hholds.length_eq.trans hlength.symm)).1 hstarts
    exact ⟨row, (Level.holds_congr hP hvalid hother hkey hsame).1 hholds⟩
  · exact fun ⟨row, hholds⟩ => ⟨key, row, hkey, hholds,
      (startsWith_iff_sameKey rfl).2 (.refl hP hkey)⟩

theorem contains_of_holds (hP : OrderedOn P) (hvalid : x.Valid P) (hkey : KeyOn P key)
    (hstart : KeyOn P start) (h : x.Holds key row) (hsame : SameKey key start) : x.contains start :=
  (contains_iff hP hvalid hstart).2 ⟨key, row, hkey, h,
    (startsWith_iff_sameKey hsame.length_eq).2 hsame⟩

/-! ### Inserting and erasing -/

section Insert

variable [HasNull K]

theorem insert_eq_ok :
    x.insert key row = .ok y ↔
      key.length = x.columns.length ∧
        ∃ level, Level.insert? 0 x.columns x.level key row = .ok level ∧
          y = level.elim x fun level => ⟨x.columns, level⟩ := by
  rw [insert, bind_eq_ok]
  constructor
  · rintro ⟨⟨⟩, hlength, h⟩
    obtain ⟨level, hlevel, hy⟩ := bind_eq_ok.1 h
    exact ⟨ensureLength_eq_ok.1 hlength, level, hlevel, (Except.ok.inj hy).symm⟩
  · rintro ⟨hlength, level, hlevel, rfl⟩
    exact ⟨(), ensureLength_eq_ok.2 hlength, bind_eq_ok.2 ⟨level, hlevel, rfl⟩⟩

theorem insert_of_length (hlength : key.length = x.columns.length) :
    x.insert key row = (do
      let level ← Level.insert? 0 x.columns x.level key row
      .ok (level.elim x fun level => ⟨x.columns, level⟩)) := by
  rw [insert, ensureLength_eq_ok.2 hlength]
  rfl

theorem columns_insert (h : x.insert key row = .ok y) : y.columns = x.columns := by
  obtain ⟨_, level, _, rfl⟩ := insert_eq_ok.1 h
  cases level <;> rfl

theorem valid_insert (hP : OrderedOn P) (hvalid : x.Valid P) (hkey : KeyOn P key)
    (h : x.insert key row = .ok y) : y.Valid P := by
  obtain ⟨hlength, level, hlevel, rfl⟩ := insert_eq_ok.1 h
  cases level with
  | none => exact hvalid
  | some level => exact (hvalid.insert? hP hkey hlength hlevel).1

theorem holds_insert (hP : OrderedOn P) (hvalid : x.Valid P) (hstrict : x.Strict)
    (hkey : KeyOn P key) (h : x.insert key row = .ok y) {other : List K} {r : RowId}
    (hother : KeyOn P other) : y.Holds other r ↔ x.Holds other r ∨ SameKey other key ∧ r = row := by
  obtain ⟨hlength, level, hlevel, rfl⟩ := insert_eq_ok.1 h
  cases level with
  | none =>
    have hrow := Level.holds_of_insert?_eq_none hP hvalid hkey hlength
      (fun column hcolumn =>
        ⟨by rw [(hstrict column hcolumn).1]; decide, (hstrict column hcolumn).2⟩) hlevel
    refine ⟨.inl, fun h => h.elim id fun ⟨hsame, heq⟩ => ?_⟩
    rw [heq]
    exact (Level.holds_congr hP hvalid hother hkey hsame).2 hrow
  | some level => exact Level.holds_insert? hP hvalid hkey hlength hlevel other r hother

theorem not_isNull_of_insert (hstrict : x.Strict) (h : x.insert key row = .ok y) :
    ∀ component ∈ key, HasNull.isNull component = false := by
  obtain ⟨hlength, level, hlevel, _⟩ := insert_eq_ok.1 h
  exact Level.not_isNull_of_insert? hlength (fun column hcolumn => (hstrict column hcolumn).1)
    hlevel

/-- Where duplicates are refused, no other row stands under a key that was inserted. -/
theorem eq_of_holds_of_insert (hP : OrderedOn P) (hvalid : x.Valid P) (hstrict : x.Strict)
    (hkey : KeyOn P key) (hunique : x.RefusesDuplicates)
    (hone : ∀ {k r r'}, KeyOn P k → x.Holds k r → x.Holds k r' → r = r')
    (h : x.insert key row = .ok y) {r : RowId} (hholds : x.Holds key r) : r = row := by
  obtain ⟨hlength, level, hlevel, _⟩ := insert_eq_ok.1 h
  obtain ⟨last, hlast, hrule⟩ := hunique
  cases level with
  | none =>
    have hrow := Level.holds_of_insert?_eq_none hP hvalid hkey hlength
      (fun column hcolumn =>
        ⟨by rw [(hstrict column hcolumn).1]; decide, (hstrict column hcolumn).2⟩) hlevel
    exact hone hkey hholds hrow
  | some level =>
    exact absurd hholds (Level.not_holds_of_insert? hP hvalid hkey hlength hlast hrule hlevel r)

end Insert

theorem erase_eq_ok :
    x.erase key row = .ok y ↔
      key.length = x.columns.length ∧
        y = (Level.erase? x.columns x.level key row).elim x fun level => ⟨x.columns, level⟩ := by
  rw [erase, bind_eq_ok]
  exact ⟨fun ⟨_, hlength, hy⟩ => ⟨ensureLength_eq_ok.1 hlength, (Except.ok.inj hy).symm⟩,
    fun ⟨hlength, hy⟩ => ⟨(), ensureLength_eq_ok.2 hlength, congrArg _ hy.symm⟩⟩

theorem columns_erase (h : x.erase key row = .ok y) : y.columns = x.columns := by
  obtain ⟨_, rfl⟩ := erase_eq_ok.1 h
  cases Level.erase? x.columns x.level key row <;> rfl

theorem valid_erase (hP : OrderedOn P) (hvalid : x.Valid P) (hkey : KeyOn P key)
    (h : x.erase key row = .ok y) : y.Valid P := by
  obtain ⟨hlength, rfl⟩ := erase_eq_ok.1 h
  cases herase : Level.erase? x.columns x.level key row with
  | none => exact hvalid
  | some level => exact (hvalid.erase? hP hkey hlength herase).1

theorem holds_erase (hP : OrderedOn P) (hvalid : x.Valid P) (hkey : KeyOn P key)
    (h : x.erase key row = .ok y) {other : List K} {r : RowId} (hother : KeyOn P other) :
    y.Holds other r ↔ x.Holds other r ∧ ¬ (SameKey other key ∧ r = row) := by
  obtain ⟨hlength, rfl⟩ := erase_eq_ok.1 h
  cases herase : Level.erase? x.columns x.level key row with
  | none =>
    have habsent := (Level.erase?_eq_none_iff hlength).1 herase
    refine ⟨fun h => ⟨h, fun ⟨hsame, heq⟩ => habsent ?_⟩, And.left⟩
    rw [← heq]
    exact (Level.holds_congr hP hvalid hother hkey hsame).1 h
  | some level => exact Level.holds_erase? hP hvalid hkey hlength herase other r hother

end SnapshotStore.CompositeIndex
