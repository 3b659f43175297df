import SnapshotStore.Proofs.Alike.Install

/-!
# Snapshots under new identifiers

A snapshot with another identifier for each one that it holds, wherever it stands: in the keys of
its maps, in its items and their rows, and in the trees of its indexes. Where a relation takes each
identifier to its image under a function and to nothing else, the snapshots that it makes alike are
images of each other.
-/

namespace SnapshotStore

variable {A A' K K' V V' : Type}

/-- The relation takes nothing anywhere else than the function. -/
def Follows (R : A → A' → Prop) (f : A → A') : Prop := ∀ a a', R a a' → a' = f a

namespace Follows

variable {R : A → A' → Prop} {f : A → A'}

theorem list (hf : Follows R f) : Follows (List.Forall₂ R) (List.map f) := by
  intro xs xs' h
  induction h with
  | nil => rfl
  | cons hfirst _ ih => rw [List.map_cons, ← ih, hf _ _ hfirst]

theorem option (hf : Follows R f) : Follows (Option.Rel R) (Option.map f) := by
  intro x x' h
  cases h with
  | none => rfl
  | some h => exact congrArg some (hf _ _ h)

theorem eq : Follows (Eq : A → A → Prop) id := fun _ _ h => h.symm

end Follows

/-! ### Maps -/

namespace Bucket

mutual

/-- The separators are keys, too. -/
def map (f : K → K') (g : V → V') : Bucket K V → Bucket K' V'
  | leaf entries => leaf (entries.map (Prod.map f g))
  | inner slots last total => inner (mapSlots f g slots) (map f g last) total

def mapSlots (f : K → K') (g : V → V') : List (K × Bucket K V) → List (K' × Bucket K' V')
  | [] => []
  | (key, child) :: slots => (f key, map f g child) :: mapSlots f g slots

end

variable {R : K → K' → Prop} {S : V → V' → Prop} {f : K → K'} {g : V → V'}

mutual

theorem Alike.eq_map (hf : Follows R f) (hg : Follows S g) :
    ∀ {b : Bucket K V} {b' : Bucket K' V'}, Alike R S b b' → b' = b.map f g
  | _, _, .leaf hentries => by
    have hentry : Follows (RelatedEntry R S) (Prod.map f g) := fun _ _ h =>
      Prod.ext (hf _ _ h.1) (hg _ _ h.2)
    rw [Bucket.map, ← hentry.list _ _ hentries]
  | _, _, .inner hslots hlast => by
    rw [Bucket.map, ← hslots.eq_map hf hg, ← hlast.eq_map hf hg]

theorem SlotsAlike.eq_map (hf : Follows R f) (hg : Follows S g) :
    ∀ {slots : List (K × Bucket K V)} {slots' : List (K' × Bucket K' V')},
      SlotsAlike R S slots slots' → slots' = mapSlots f g slots
  | _, _, .nil => rfl
  | _, _, .cons hkey hchild hslots => by
    rw [mapSlots, ← hf _ _ hkey, ← hchild.eq_map hf hg, ← hslots.eq_map hf hg]

end

end Bucket

namespace SortedMap

/-- The map with new keys and values in a tree of the same shape. -/
def map (f : K → K') (g : V → V') (m : SortedMap K V) : SortedMap K' V' :=
  ⟨m.root.map (Bucket.map f g)⟩

theorem follows_map {R : K → K' → Prop} {S : V → V' → Prop} {f : K → K'} {g : V → V'}
    (hf : Follows R f) (hg : Follows S g) : Follows (Alike R S) (map f g) := by
  intro m m' h
  have hroot : Follows (Bucket.Alike R S) (Bucket.map f g) := fun _ _ h => h.eq_map hf hg
  exact congrArg SortedMap.mk (hroot.option _ _ h)

end SortedMap

/-! ### Indexes -/

namespace Level

def mapRows (f : RowId → RowId) : (columns : List KeyColumn) → Level K columns → Level K columns
  | [], rows => SortedMap.map f id rows
  | _ :: columns, (level : Counted _) =>
    Counted.mk (SortedMap.map id (mapRows f columns) level.entries) level.count

theorem follows_mapRows {R : RowId → RowId → Prop} {f : RowId → RowId} (hf : Follows R f)
    (columns : List KeyColumn) : Follows (Alike (K := K) R columns) (mapRows f columns) := by
  induction columns with
  | nil => exact SortedMap.follows_map hf .eq
  | cons column columns ih =>
    rintro ⟨entries, count⟩ ⟨entries', count'⟩ ⟨hentries, rfl⟩
    exact congrArg (Counted.mk · count) (SortedMap.follows_map .eq ih _ _ hentries)

end Level

namespace CompositeIndex

def mapRows (f : RowId → RowId) (x : CompositeIndex K) : CompositeIndex K :=
  ⟨x.columns, Level.mapRows f x.columns x.level⟩

theorem follows_mapRows {R : RowId → RowId → Prop} {f : RowId → RowId} (hf : Follows R f) :
    Follows (Alike (K := K) R) (mapRows f) := by
  intro x x' h
  cases h with
  | intro h => exact congrArg _ (Level.follows_mapRows hf _ _ _ h)

end CompositeIndex

/-! ### Items -/

def Row.mapUids (f : Uid → Uid) (row : Row) : Row :=
  ⟨f row.uid, f row.version, row.fields.map f id⟩

def Table.mapUids (f : Uid → Uid) (t : Table) : Table :=
  ⟨f t.uid, t.name, t.columns.map f, t.rows.map f (Row.mapUids f), t.indexes.map f⟩

def Column.mapUids (f : Uid → Uid) (c : Column) : Column := ⟨f c.uid, c.name, c.type, f c.table⟩

def IndexDefinition.mapUids (f : Uid → Uid) (d : IndexDefinition) : IndexDefinition :=
  ⟨f d.table, d.primary, d.columns.map f, d.references.map f⟩

def Index.mapUids (f : Uid → Uid) (x : Index) : Index :=
  ⟨f x.uid, x.definition.mapUids f, x.tree.mapRows fun row => (f ⟨row⟩).place⟩

def CatalogItem.mapUids (f : Uid → Uid) : CatalogItem → CatalogItem
  | table t => table (t.mapUids f)
  | column c => column (c.mapUids f)
  | index x => index (x.mapUids f)

/-- The snapshot with another identifier for each one that it holds. -/
def Snapshot.mapUids (f : Uid → Uid) (s : Snapshot) : Snapshot :=
  ⟨s.name, s.items.map f (CatalogItem.mapUids f), s.names.map id f, s.position⟩

section

variable {R : Uid → Uid → Prop} {f : Uid → Uid} (hf : Follows R f)
include hf

theorem Row.follows_mapUids : Follows (Row.Alike R) (Row.mapUids f) := by
  rintro ⟨uid, version, fields⟩ ⟨uid', version', fields'⟩ ⟨huid, hversion, hfields⟩
  rw [mapUids, ← hf _ _ huid, ← hf _ _ hversion, ← SortedMap.follows_map hf .eq _ _ hfields]

theorem Table.follows_mapUids : Follows (Table.Alike R) (Table.mapUids f) := by
  rintro ⟨uid, name, columns, rows, indexes⟩ ⟨uid', name', columns', rows', indexes'⟩
    ⟨huid, hname, hcolumns, hrows, hindexes⟩
  rw [mapUids, ← hf _ _ huid, ← hf.list _ _ hcolumns, ← hf.list _ _ hindexes,
    ← SortedMap.follows_map hf (Row.follows_mapUids hf) _ _ hrows]
  exact congrArg (Table.mk uid' · columns' rows' indexes') hname.symm

theorem Column.follows_mapUids : Follows (Column.Alike R) (Column.mapUids f) := by
  rintro ⟨uid, name, type, table⟩ ⟨uid', name', type', table'⟩ ⟨huid, rfl, rfl, htable⟩
  rw [mapUids, ← hf _ _ huid, ← hf _ _ htable]

theorem IndexDefinition.follows_mapUids :
    Follows (IndexDefinition.Alike R) (IndexDefinition.mapUids f) := by
  rintro ⟨table, primary, columns, references⟩ ⟨table', primary', columns', references'⟩
    ⟨htable, rfl, hcolumns, hreferences⟩
  rw [mapUids, ← hf _ _ htable, ← hf.list _ _ hcolumns, ← hf.option _ _ hreferences]

theorem Index.follows_mapUids : Follows (Index.Alike R) (Index.mapUids f) := by
  rintro ⟨uid, definition, tree⟩ ⟨uid', definition', tree'⟩ ⟨huid, hdefinition, htree⟩
  have hrows : Follows (RelatedRows R) fun row => (f ⟨row⟩).place := fun row row' h =>
    congrArg Uid.place (hf ⟨row⟩ ⟨row'⟩ h)
  rw [mapUids, ← hf _ _ huid, ← IndexDefinition.follows_mapUids hf _ _ hdefinition,
    ← CompositeIndex.follows_mapRows hrows _ _ htree]

theorem CatalogItem.follows_mapUids : Follows (CatalogItem.Alike R) (CatalogItem.mapUids f) := by
  intro item item' h
  cases h with
  | table h => exact congrArg table (Table.follows_mapUids hf _ _ h)
  | column h => exact congrArg column (Column.follows_mapUids hf _ _ h)
  | index h => exact congrArg index (Index.follows_mapUids hf _ _ h)

theorem Snapshot.Alike.eq_mapUids {s s' : Snapshot} (h : s.Alike R s') (position : Nat) :
    s'.endingAt position = (s.mapUids f).endingAt position := by
  obtain ⟨hname, hitems, hnames⟩ := h
  rw [endingAt, endingAt, mapUids, hname,
    ← SortedMap.follows_map hf (CatalogItem.follows_mapUids hf) _ _ hitems,
    ← SortedMap.follows_map .eq hf _ _ hnames]

end

end SnapshotStore
