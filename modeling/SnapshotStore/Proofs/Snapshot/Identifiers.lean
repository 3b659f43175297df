import SnapshotStore.Proofs.Alike.Building

/-!
# The identifiers in a snapshot

A snapshot holds identifiers as keys of its maps, in its items and their rows, as rows in the trees
of its indexes and under the names of its tables. Each of them belongs to one of the objects that
have led to the snapshot, for an object that can be installed names only what is there.
-/

namespace SnapshotStore

def Row.uids (row : Row) : List Uid := row.uid :: row.version :: row.fields.keys

def Table.uids (t : Table) : List Uid :=
  t.uid :: t.columns ++ t.indexes ++ t.rows.toList.flatMap fun (key, row) => key :: row.uids

def Column.uids (c : Column) : List Uid := [c.uid, c.table]

def Index.uids (x : Index) : List Uid :=
  x.uid :: (LogObject.newIndex x.definition).uids ++ x.tree.pairs.map fun (_, row) => ⟨row⟩

def CatalogItem.uids : CatalogItem → List Uid
  | table t => t.uids
  | column c => c.uids
  | index x => x.uids

/-- The identifiers that a snapshot holds, wherever they stand. -/
def Snapshot.uids (s : Snapshot) : List Uid :=
  (s.items.toList.flatMap fun (key, item) => key :: item.uids) ++ s.names.values

/-! ### Identifiers of alike snapshots -/

variable {R : Uid → Uid → Prop}

theorem SortedMap.Alike.flatMap {V V' : Type} {S : V → V' → Prop} {m : SortedMap Uid V}
    {m' : SortedMap Uid V'} {f : V → List Uid} {f' : V' → List Uid} (h : m.Alike R S m')
    (hf : ∀ value value', S value value' → List.Forall₂ R (f value) (f' value')) :
    List.Forall₂ R (m.toList.flatMap fun entry => entry.1 :: f entry.2)
      (m'.toList.flatMap fun entry => entry.1 :: f' entry.2) :=
  List.rel_flatMap h.toList fun _ _ hentry => .cons hentry.1 (hf _ _ hentry.2)

theorem Row.Alike.uids {row row' : Row} (h : row.Alike R row') :
    List.Forall₂ R row.uids row'.uids :=
  .cons h.uid (.cons h.version (List.rel_map (fun _ _ hentry => hentry.1) h.fields.toList))

theorem Table.Alike.uids {t t' : Table} (h : t.Alike R t') : List.Forall₂ R t.uids t'.uids := by
  refine List.rel_append (List.rel_append (.cons h.uid h.columns) h.indexes) ?_
  exact h.rows.flatMap fun _ _ hrow => hrow.uids

theorem Column.Alike.uids {c c' : Column} (h : c.Alike R c') : List.Forall₂ R c.uids c'.uids :=
  .cons h.uid (.cons h.table .nil)

theorem IndexDefinition.Alike.uids {d d' : IndexDefinition} (h : d.Alike R d') :
    List.Forall₂ R (LogObject.newIndex d).uids (LogObject.newIndex d').uids := by
  obtain ⟨table, primary, columns, references⟩ := d
  obtain ⟨table', primary', columns', references'⟩ := d'
  obtain ⟨htable, _, hcolumns, hreferences⟩ := h
  refine List.rel_append (.cons htable hcolumns) ?_
  cases hreferences with
  | none => exact .nil
  | some hreference => exact .cons hreference .nil

theorem Index.Alike.uids {x x' : Index} (h : x.Alike R x') : List.Forall₂ R x.uids x'.uids := by
  refine List.rel_append (.cons h.uid h.definition.uids) ?_
  exact List.rel_map (fun _ _ hpair => hpair.2) h.tree.pairs

theorem CatalogItem.Alike.uids {item item' : CatalogItem} (h : item.Alike R item') :
    List.Forall₂ R item.uids item'.uids := by
  cases h with
  | table h => exact h.uids
  | column h => exact h.uids
  | index h => exact h.uids

namespace Snapshot

variable {s m m' : Snapshot} {standing : Standing} {uid : Uid} {object : LogObject} {name : String}
  {objects : List (Uid × LogObject)} {last : Nat}

theorem Alike.uids {s' : Snapshot} (h : s.Alike R s') : List.Forall₂ R s.uids s'.uids :=
  List.rel_append (h.items.flatMap fun _ _ hitem => hitem.uids) h.names.values

/-! ### Identifiers of built snapshots -/

/-- If all objects have their identifiers from a set, so has all that they build. -/
theorem Builds.alike_within {P : Uid → Prop} (h : Builds 0 (.empty name) objects last s)
    (hP : ∀ o ∈ objects, P o.1) : s.Alike (fun u u' => u = u' ∧ P u) s := by
  have hR : ComparesAlike fun u u' : Uid => u = u' ∧ P u := by
    rintro a _ b _ ⟨rfl, _⟩ ⟨rfl, _⟩
    rfl
  induction h with
  | refl => exact alike_empty name
  | step h hfresh hlast hinstall position ih =>
    have hm := ih fun o ho => hP o (List.mem_append_left _ ho)
    have huid := hP _ (List.mem_append_right _ (List.mem_singleton_self _))
    refine (hm.install_self hR ⟨rfl, huid⟩ (fun u hu => ?_) hinstall).endingAt _ _
    obtain ⟨_, rfl, hu⟩ := hm.partners (h.catalogued (catalogued_empty name)) hinstall u hu
    exact ⟨rfl, hu⟩

/-- What the objects of a log build holds no other identifiers than theirs. -/
theorem Builds.mem_of_mem_uids (h : Builds 0 (.empty name) objects last s) {u : Uid}
    (hu : u ∈ s.uids) : ∃ object, (u, object) ∈ objects := by
  have halike := h.alike_within (P := fun u => ∃ object, (u, object) ∈ objects)
    fun o ho => ⟨o.2, ho⟩
  exact (List.forall₂_same.1 halike.uids u hu).2

/-- The definition of an index names what stands in front of the end of the log. -/
theorem Builds.definition_below {v : Uid} {x : Index} (h : Builds 0 (.empty name) objects last s)
    (hx : s.get? v = some (.index x)) :
    ∀ u ∈ (LogObject.newIndex x.definition).uids, u.place < last := by
  intro u hu
  have hentry := (h.catalogued (catalogued_empty name)).items.mem_toList_iff.2 hx
  have hmem : u ∈ x.uids := List.mem_append_left _ (List.mem_cons_of_mem _ hu)
  obtain ⟨object, hobject⟩ := h.mem_of_mem_uids (List.mem_append_left _
    (List.mem_flatMap.2 ⟨_, hentry, List.mem_cons_of_mem _ hmem⟩))
  exact h.place_lt _ hobject

end Snapshot

end SnapshotStore
