import SnapshotStore.Proofs.Snapshot.Lookup

/-!
# Moving a row between its keys

The indexes of a table are changed one after the other, each from the key of the old row to that of
the new one. What has become of each of them is said here for the whole pass, together with the
check that a primary key which disappears is used nowhere.
-/

namespace SnapshotStore

namespace Index

/-- The tree of an index once a row has been moved from its old key to its new one. -/
def MovesTo (x : Index) (row : Uid) (old new : Option Row) (tree : CompositeIndex Value) : Prop :=
  match old.map x.definition.keyOf, new.map x.definition.keyOf with
  | none, none => tree = x.tree
  | none, some key => x.tree.insert key row.place = .ok tree
  | some oldKey, none => x.tree.erase oldKey row.place = .ok tree
  | some oldKey, some key =>
    if Value.sameKey oldKey key then tree = x.tree
    else ∃ mid, x.tree.erase oldKey row.place = .ok mid ∧ mid.insert key row.place = .ok tree

/-- The key of the old row, unless the new row has the same one. -/
def lostKey? (x : Index) (old new : Option Row) : Option (List Value) :=
  (old.map x.definition.keyOf).filter fun oldKey => !(new.map x.definition.keyOf).any
    (Value.sameKey oldKey)

end Index

namespace Snapshot

variable {s s' : Snapshot} {row uid : Uid} {old new : Option Row} {x y : Index} {key : List Value}
  {t : Table}

theorem ensureUnused_eq_ok {table : Uid} :
    s.ensureUnused table key = .ok () ↔
      ∀ f ∈ s.foreignKeysInto table, f.tree.contains key = false := by
  rw [ensureUnused]
  split
  · next hnone =>
      exact ⟨fun _ f hf => Bool.eq_false_iff.2 (List.find?_eq_none.1 hnone f hf), fun _ => rfl⟩
  · next f hf =>
    refine ⟨fun h => (nomatch h), fun h => ?_⟩
    have hcontains := List.find?_some hf
    rw [h f (List.mem_of_find?_eq_some hf)] at hcontains
    cases hcontains

theorem addKey_eq_ok (h : addKey row x key = .ok y) :
    ∃ tree, x.tree.insert key row.place = .ok tree ∧ y = { x with tree } := by
  obtain ⟨tree, htree, hy⟩ := bind_eq_ok.1 h
  exact ⟨tree, mapError_eq_ok.1 htree, (Except.ok.inj hy).symm⟩

theorem dropKey_eq_ok (h : s.dropKey row x key = .ok y) :
    (x.definition.primary → s.ensureUnused x.definition.table key = .ok ()) ∧
      ∃ tree, x.tree.erase key row.place = .ok tree ∧ y = { x with tree } := by
  rw [dropKey] at h
  split at h
  · obtain ⟨_, hunused, h⟩ := bind_eq_ok.1 h
    obtain ⟨tree, htree, hy⟩ := bind_eq_ok.1 h
    exact ⟨fun _ => hunused, tree, mapError_eq_ok.1 htree, (Except.ok.inj hy).symm⟩
  · next hprimary =>
    obtain ⟨tree, htree, hy⟩ := bind_eq_ok.1 h
    exact ⟨fun h => absurd h hprimary, tree, mapError_eq_ok.1 htree, (Except.ok.inj hy).symm⟩

theorem moveKey_eq_ok (h : s.moveKey row old new uid = .ok s') :
    s.index? uid = none ∧ s' = s ∨
      ∃ x tree, s.index? uid = some x ∧ x.MovesTo row old new tree ∧
        (s' = s ∧ tree = x.tree ∨ s' = s.setIndex { x with tree }) ∧
        (x.definition.primary →
          ∀ key,
            x.lostKey? old new = some key → s.ensureUnused x.definition.table key = .ok ()) := by
  rw [moveKey] at h
  split at h
  · next hnone => exact .inl ⟨hnone, (Except.ok.inj h).symm⟩
  · next x hx =>
    refine .inr ⟨x, ?_⟩
    simp only [Index.MovesTo, Index.lostKey?]
    split at h
    · next hold hnew =>
      rw [hold, hnew]
      refine ⟨x.tree, hx, rfl, .inl ⟨(Except.ok.inj h).symm, rfl⟩, fun _ lost hlost => ?_⟩
      cases hlost
    · next key hold hnew =>
      rw [hold, hnew]
      obtain ⟨y, hy, h⟩ := bind_eq_ok.1 h
      obtain ⟨tree, htree, rfl⟩ := addKey_eq_ok hy
      refine ⟨tree, hx, htree, .inr (Except.ok.inj h).symm, fun _ lost hlost => ?_⟩
      cases hlost
    · next oldKey hold hnew =>
      rw [hold, hnew]
      obtain ⟨y, hy, h⟩ := bind_eq_ok.1 h
      obtain ⟨hunused, tree, htree, rfl⟩ := dropKey_eq_ok hy
      refine ⟨tree, hx, htree, .inr (Except.ok.inj h).symm, fun hprimary lost hlost => ?_⟩
      cases hlost
      exact hunused hprimary
    · next oldKey key hold hnew =>
      rw [hold, hnew]
      split at h
      · next hsame =>
        refine ⟨x.tree, hx, (if_pos hsame).mpr rfl, .inl ⟨(Except.ok.inj h).symm, rfl⟩,
          fun _ lost hlost => ?_⟩
        rw [Option.filter_some, Option.any_some, hsame] at hlost
        cases hlost
      · next hdiffers =>
        obtain ⟨dropped, hdropped, h⟩ := bind_eq_ok.1 h
        obtain ⟨hunused, mid, hmid, rfl⟩ := dropKey_eq_ok hdropped
        obtain ⟨y, hy, h⟩ := bind_eq_ok.1 h
        obtain ⟨tree, htree, rfl⟩ := addKey_eq_ok hy
        refine ⟨tree, hx, (if_neg hdiffers).mpr ⟨mid, hmid, htree⟩, .inr (Except.ok.inj h).symm,
          fun hprimary lost hlost => ?_⟩
        rw [Option.filter_some, Option.any_some] at hlost
        split at hlost
        · cases hlost
          exact hunused hprimary
        · cases hlost

/-- The snapshot after a row has been moved in some indexes, all of which stand under their own
identifiers. -/
structure Rekeyed (row : Uid) (old new : Option Row) (indexes : List Uid)
    (s s' : Snapshot) : Prop where
  name : s'.name = s.name
  names : s'.names = s.names
  position : s'.position = s.position
  lawful : s'.items.Lawful
  other : ∀ u, u ∉ indexes → s'.get? u = s.get? u
  kept : ∀ u, s.index? u = none → s'.get? u = s.get? u
  moved : ∀ u ∈ indexes, ∀ x, s.index? u = some x →
    ∃ tree, s'.get? u = some (.index { x with tree }) ∧ x.MovesTo row old new tree
  unused : ∀ u ∈ indexes, ∀ x, s.index? u = some x → x.definition.primary →
    ∀ key, x.lostKey? old new = some key →
      ∀ v f, s.index? v = some f → f.definition.references = some x.definition.table →
        f.tree.contains key = false ∨ ∃ g, s'.index? v = some g ∧ g.tree.contains key = false

theorem rekeyed_nil (hlawful : s.items.Lawful) : Rekeyed row old new [] s s where
  name := rfl
  names := rfl
  position := rfl
  lawful := hlawful
  other := fun _ _ => rfl
  kept := fun _ _ => rfl
  moved := fun _ hmem => absurd hmem List.not_mem_nil
  unused := fun _ hmem => absurd hmem List.not_mem_nil

/-- Moving a row in one index touches no other item. -/
theorem moveKey_index (hlawful : s.items.Lawful) (hx : s.index? uid = some x)
    (huid : x.uid = uid) (h : s.moveKey row old new uid = .ok s') :
    ∃ tree, s'.get? uid = some (.index { x with tree }) ∧ x.MovesTo row old new tree ∧
      (∀ u, u ≠ uid → s'.get? u = s.get? u) ∧
      (s'.name = s.name ∧ s'.names = s.names ∧ s'.position = s.position) ∧
      (x.definition.primary → ∀ key, x.lostKey? old new = some key →
        s.ensureUnused x.definition.table key = .ok ()) := by
  rcases moveKey_eq_ok h with ⟨hnone, _⟩ | ⟨x', tree, hx', hmoves, hs', hunused⟩
  · rw [hx] at hnone
    cases hnone
  rw [hx] at hx'
  cases hx'
  rcases hs' with ⟨rfl, rfl⟩ | rfl
  · exact ⟨x.tree, index?_eq_some.1 hx, hmoves, fun _ _ => rfl, ⟨rfl, rfl, rfl⟩, hunused⟩
  · rw [setIndex, huid]
    exact ⟨tree, get?_set_self hlawful, hmoves, fun _ hne => get?_set_of_ne hlawful hne,
      ⟨rfl, rfl, rfl⟩, hunused⟩

theorem eq_of_moveKey (hnone : s.index? uid = none) (h : s.moveKey row old new uid = .ok s') :
    s' = s := by
  rcases moveKey_eq_ok h with ⟨_, hs'⟩ | ⟨_, _, hx, _⟩
  · exact hs'
  · rw [hnone] at hx
    cases hx

/-- One identifier more, under which there is no index. -/
theorem Rekeyed.cons_of_none {indexes : List Uid} (hnone : s.index? uid = none)
    (hrest : Rekeyed row old new indexes s s') : Rekeyed row old new (uid :: indexes) s s' := by
  have hmem : ∀ {u y}, u ∈ uid :: indexes → s.index? u = some y → u ∈ indexes := by
    intro u y hu hy
    rcases List.mem_cons.1 hu with rfl | hu
    · rw [hnone] at hy
      cases hy
    · exact hu
  refine { hrest with other := fun u hu => ?_, moved := fun u hu y hy => ?_,
                      unused := fun u hu y hy => ?_ }
  · exact hrest.other u fun hmem => hu (List.mem_cons_of_mem _ hmem)
  · exact hrest.moved u (hmem hu hy) y hy
  · exact hrest.unused u (hmem hu hy) y hy

/-- One index more. -/
theorem Rekeyed.cons {indexes : List Uid} {m : Snapshot} (hlawful : s.items.Lawful)
    (huid : ∀ x, s.index? uid = some x → x.uid = uid) (hfresh : uid ∉ indexes)
    (hstep : s.moveKey row old new uid = .ok m) (hrest : Rekeyed row old new indexes m s') :
    Rekeyed row old new (uid :: indexes) s s' := by
  cases hx : s.index? uid with
  | none => exact (eq_of_moveKey hx hstep ▸ hrest).cons_of_none hx
  | some x =>
    obtain ⟨tree, hmx, hmoves, hmother, ⟨hname, hnames, hposition⟩, hunused⟩ :=
      moveKey_index hlawful hx (huid x hx) hstep
    have hindex : ∀ {u}, u ≠ uid → m.index? u = s.index? u :=
      fun hne => index?_congr (hmother _ hne)
    -- the index stands under `uid` with its new tree from here on
    have hfinal : s'.get? uid = some (.index { x with tree }) := (hrest.other uid hfresh).trans hmx
    refine ⟨hrest.name.trans hname, hrest.names.trans hnames, hrest.position.trans hposition,
      hrest.lawful, fun u hu => ?_, fun u hu => ?_, fun u hu y hy => ?_,
      fun u hu y hy hprimary key hlost v f hf hreferences => ?_⟩
    · rw [hrest.other u fun hmem => hu (List.mem_cons_of_mem _ hmem),
        hmother u fun heq => hu (heq ▸ List.mem_cons_self)]
    · have hne : u ≠ uid := fun heq => by
        rw [heq, hx] at hu
        cases hu
      rw [hrest.kept u ((hindex hne).trans hu), hmother u hne]
    · rcases List.mem_cons.1 hu with rfl | hu
      · rw [hx] at hy
        cases hy
        exact ⟨tree, hfinal, hmoves⟩
      · exact hrest.moved u hu y ((hindex fun heq => hfresh (heq ▸ hu)).trans hy)
    · rcases List.mem_cons.1 hu with rfl | hu
      · rw [hx] at hy
        cases hy
        exact .inl (ensureUnused_eq_ok.1 (hunused hprimary key hlost) f
          ((mem_foreignKeysInto hlawful).2 ⟨⟨v, hf⟩, hreferences⟩))
      · have hunusedLater := hrest.unused u hu y
          ((hindex fun heq => hfresh (heq ▸ hu)).trans hy) hprimary key hlost
        by_cases hv : v = uid
        · -- this one has been moved already and stays as it is
          subst hv
          rw [hx] at hf
          cases hf
          rcases hunusedLater v { x with tree } (index?_eq_some.2 hmx) hreferences with h | h
          · exact .inr ⟨_, index?_eq_some.2 hfinal, h⟩
          · exact .inr h
        · exact hunusedLater v f ((hindex hv).trans hf) hreferences

theorem rekeyed_of_foldlM {indexes : List Uid} (hlawful : s.items.Lawful)
    (huids : ∀ u x, s.index? u = some x → x.uid = u) (hnodup : indexes.Nodup)
    (h : indexes.foldlM (moveKey row old new) s = .ok s') : Rekeyed row old new indexes s s' := by
  induction indexes generalizing s with
  | nil =>
    cases h
    exact rekeyed_nil hlawful
  | cons uid indexes ih =>
    obtain ⟨hfresh, hnodup⟩ := List.nodup_cons.1 hnodup
    rw [List.foldlM_cons] at h
    obtain ⟨m, hm, hrest⟩ := bind_eq_ok.1 h
    have hone : Rekeyed row old new [uid] s m :=
      (rekeyed_nil ?_).cons hlawful (huids uid) List.not_mem_nil hm
    · refine (ih hone.lawful (fun u y hy => ?_) hnodup hrest).cons hlawful (huids uid) hfresh hm
      by_cases hu : u = uid
      · subst hu
        cases hx : s.index? u with
        | none => exact huids u y ((index?_congr (hone.kept u hx)).symm.trans hy)
        | some x =>
          obtain ⟨tree, htree, _⟩ := hone.moved u List.mem_cons_self x hx
          rw [index?_eq_some, htree] at hy
          cases hy
          exact huids u x hx
      · exact huids u y
          ((index?_congr (hone.other u fun hmem => hu (List.mem_singleton.1 hmem))).symm.trans hy)
    · rcases moveKey_eq_ok hm with ⟨_, rfl⟩ | ⟨x, tree, _, _, ⟨rfl, _⟩ | rfl, _⟩
      · exact hlawful
      · exact hlawful
      · exact lawful_set hlawful

theorem rekey_eq_ok (h : s.rekey t row old new = .ok s') :
    t.indexes.foldlM (moveKey row old new) s = .ok s' ∧
      ∀ r, new = some r →
        ∀ x ∈ s'.indexes t.uid, s'.ensureMatched x (x.definition.keyOf r) = .ok () := by
  rw [rekey] at h
  obtain ⟨m, hm, h⟩ := bind_eq_ok.1 h
  cases new with
  | none =>
    cases h
    exact ⟨hm, fun _ hr => (nomatch hr)⟩
  | some r =>
    obtain ⟨hmatched, h⟩ := forM_bind_eq_ok.1 h
    cases h
    exact ⟨hm, fun _ hr x hx => Option.some.inj hr ▸ hmatched x hx⟩

end Snapshot

end SnapshotStore
