import SnapshotStore.Proofs.Engine.Arising
import SnapshotStore.Proofs.Value.Order

/-!
# Foreign keys in every snapshot

Transactions that run side by side are not compared as to what their rows refer to. That a commit
installs its steps once more, on the latest snapshot, is enough: there a row without its parent is
refused, and so is the removal of a parent that has got a child in the meantime.
-/

namespace SnapshotStore

/-- In every snapshot a foreign key refers to a table that has a primary index over as many columns,
and all its keys stand in there. -/
theorem foreign_keys_hold {P : Value → Prop} {name : String} {objects : List LogObject}
    {s : Snapshot} {u p : Uid} {x : Index} (h : Arises name objects s) (hP : OrderedOn P)
    (hvalues : ∀ object ∈ objects, object.ValuesIn P) (hx : s.index? u = some x)
    (hreferences : x.definition.references = some p) :
    ∃ t primary, s.table? p = some t ∧ s.primaryIndex? p = some primary ∧
      primary.definition.columns.length = x.definition.columns.length ∧
      ∀ pair ∈ x.tree.pairs, primary.tree.contains pair.1 := by
  obtain ⟨_, hs⟩ := h.catalogued
  have hmatched := h.matched hP hvalues
  have hreferential := h.referential hP hvalues
  have hxget := Snapshot.index?_eq_some.1 hx
  obtain ⟨v, y, hy, htarget⟩ := hreferential.target hxget (hreferences ▸ rfl)
  have heq := htarget.references
  rw [hreferences] at heq
  cases heq
  obtain ⟨t, ht, hyagrees⟩ := hmatched.agrees_of_index hs hy
  obtain ⟨_, _, hxagrees⟩ := hmatched.agrees_of_index hs hxget
  refine ⟨t, y, Snapshot.table?_eq_some.2 ht,
    hs.primaryIndex?_eq hreferential.one hy htarget.primary, htarget.width, fun pair hpair => ?_⟩
  obtain ⟨hkey, hholds⟩ := Level.holds_of_mem_pairs hP hxagrees.valid hpair
  obtain ⟨m, hm⟩ := htarget.holds hkey hholds
  exact CompositeIndex.contains_of_holds hP hyagrees.valid hkey hkey hm (.refl hP hkey)

/-- A parent is deleted while another transaction inserts a child of it. -/
theorem foreign_keys_hold_beside_delete :
    let one := (Session.fresh "db").settle "db" ((Snapshot.empty "db").begin.taking
      [.newTable "p", .newColumn "a" .integer (.provisional 0),
        .newIndex ⟨.provisional 0, true, [.provisional 1], none⟩,
        .newTable "c", .newColumn "b" .integer (.provisional 3),
        .newIndex ⟨.provisional 3, false, [.provisional 4], some (.provisional 0)⟩,
        .record (.provisional 0) [(.provisional 1, .integer 1)]])
    let start := (one.engine.latest? "db").getD (.empty "db")
    let two := (one.settle "db" (start.begin.taking [.record ⟨21⟩ [(⟨25⟩, .integer 1)]])).settle
      "db" (start.begin.taking [.delete ⟨0⟩ ⟨42⟩])
    ∃ s x primary, two.engine.latest? "db" = some s ∧ s.index? ⟨32⟩ = some x ∧
      s.primaryIndex? ⟨0⟩ = some primary ∧
      x.tree.pairs = [([.integer 1], 52)] ∧ primary.tree.contains [.integer 1] := by
  intro one start two
  have hone : Run "db" (.fresh "db") one := Run.refl.settle List.mem_cons_self _
  have hstart : start ∈ one.published :=
    getD_latest_mem ⟨_, opened_fresh "db", hone⟩ (by decide +kernel) _
  have hinserted := hone.settle hstart [.record ⟨21⟩ [(⟨25⟩, .integer 1)]]
  have htwo : Run "db" (.fresh "db") two :=
    hinserted.settle (Run.published_mono (Run.refl.settle hstart _) hstart) [.delete ⟨0⟩ ⟨42⟩]
  have hroom : two.engine.logLength "db" < Bytes.limit := by decide +kernel
  obtain ⟨s, hs, hlatest⟩ := latest_of_reachable ⟨_, opened_fresh "db", htwo⟩ hroom
  have hvalues : ∀ bytes ∈ two.engine.logBytes? "db", ∀ s ∈ two.engine.latest? "db",
      ∀ object ∈ logged (bytes.take s.position), object.ValuesIn Value.Comparable := by
    decide +kernel
  have hfound : ((two.engine.latest? "db").bind (·.index? ⟨32⟩)).map
      (fun x => (x.definition.references, x.tree.pairs)) =
      some (some ⟨0⟩, [([.integer 1], 52)]) := by
    decide +kernel
  rw [hlatest] at hfound
  obtain ⟨x, hx, hpair⟩ := Option.map_eq_some_iff.1 hfound
  obtain ⟨hreferences, hpairs⟩ := Prod.mk.inj hpair
  obtain ⟨bytes, hbytes⟩ : ∃ bytes, two.engine.logBytes? "db" = some bytes :=
    Option.isSome_iff_exists.1 (by decide +kernel)
  obtain ⟨_, primary, _, hprimary, _, hkeys⟩ :=
    foreign_keys_hold (.published ⟨_, opened_fresh "db", htwo⟩ hroom hbytes hs)
      Value.orderedOn_comparable (hvalues bytes hbytes s hlatest) hx hreferences
  exact ⟨s, x, primary, hlatest, hx, hprimary, hpairs, hkeys _ (hpairs ▸ List.mem_singleton.2 rfl)⟩

end SnapshotStore
