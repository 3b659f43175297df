import SnapshotStore.Proofs.Snapshot.Rekey

/-!
# What installing does not look at

Neither the position of a snapshot nor whether an object is proposed or committed has a part in what
the snapshot is once the object is installed. This is why a commit, which installs proposed objects
in one snapshot, and a replay, which installs them from the log and moves the position on with each,
come to the same.
-/

namespace SnapshotStore.Snapshot

variable {s s' : Snapshot} {standing : Standing} {uid row : Uid} {old new : Option Row} {t : Table}
  {position : Nat}

theorem moveKey_endingAt (h : s.moveKey row old new uid = .ok s') (position : Nat) :
    (s.endingAt position).moveKey row old new uid = .ok (s'.endingAt position) := by
  rw [moveKey] at h ⊢
  have hindex : (s.endingAt position).index? uid = s.index? uid := rfl
  have hdrop : ∀ x key, (s.endingAt position).dropKey row x key = s.dropKey row x key :=
    fun _ _ => rfl
  have hset : ∀ x, (s.endingAt position).setIndex x = (s.setIndex x).endingAt position :=
    fun _ => rfl
  simp only [hindex, hdrop, hset]
  split at h
  · cases h
    rfl
  · split at h
    · cases h
      rfl
    · obtain ⟨y, hy, h⟩ := bind_eq_ok.1 h
      cases h
      exact bind_eq_ok.2 ⟨y, hy, rfl⟩
    · obtain ⟨y, hy, h⟩ := bind_eq_ok.1 h
      cases h
      exact bind_eq_ok.2 ⟨y, hy, rfl⟩
    · split at h
      · next hsame =>
        cases h
        rw [if_pos hsame]
      · next hdiffers =>
        obtain ⟨dropped, hdropped, h⟩ := bind_eq_ok.1 h
        obtain ⟨y, hy, h⟩ := bind_eq_ok.1 h
        cases h
        rw [if_neg hdiffers]
        exact bind_eq_ok.2 ⟨dropped, hdropped, bind_eq_ok.2 ⟨y, hy, rfl⟩⟩

theorem rekey_endingAt (h : s.rekey t row old new = .ok s') (position : Nat) :
    (s.endingAt position).rekey t row old new = .ok (s'.endingAt position) := by
  have hfold : ∀ (uids : List Uid) (s m : Snapshot), uids.foldlM (moveKey row old new) s = .ok m →
      uids.foldlM (moveKey row old new) (s.endingAt position) = .ok (m.endingAt position) := by
    intro uids
    induction uids with
    | nil =>
      intro s m hm
      cases hm
      rfl
    | cons uid uids ih =>
      intro s m hm
      rw [List.foldlM_cons] at hm ⊢
      obtain ⟨mid, hmid, hm⟩ := bind_eq_ok.1 hm
      exact bind_eq_ok.2 ⟨_, moveKey_endingAt hmid position, ih mid m hm⟩
  rw [rekey] at h ⊢
  obtain ⟨m, hm, h⟩ := bind_eq_ok.1 h
  refine bind_eq_ok.2 ⟨_, hfold _ _ _ hm, ?_⟩
  cases new with
  | none =>
    cases h
    rfl
  | some r =>
    obtain ⟨hmatched, h⟩ := forM_bind_eq_ok.1 h
    cases h
    exact forM_bind_eq_ok.2 ⟨hmatched, rfl⟩

/-- A success is the same success for the other standing and at any position. -/
theorem install_endingAt {object : LogObject} (h : s.install standing uid object = .ok s')
    (other : Standing) (position : Nat) :
    (s.endingAt position).install other uid object = .ok (s'.endingAt position) := by
  cases object with
  | newTable name =>
    obtain ⟨hname, rfl⟩ := createTable_eq_ok.1 h
    exact createTable_eq_ok.2 ⟨hname, rfl⟩
  | newColumn name type table =>
    obtain ⟨t, ht, hname, rfl⟩ := createColumn_eq_ok.1 h
    exact createColumn_eq_ok.2 ⟨t, ht, hname, rfl⟩
  | record table fields =>
    obtain ⟨t, m, ht, htyped, hm, rfl⟩ := insertRow_eq_ok.1 h
    exact insertRow_eq_ok.2 ⟨t, _, ht, htyped, rekey_endingAt hm position, rfl⟩
  | update table fields row =>
    obtain ⟨t, old, m, ht, hold, htyped, hm, rfl⟩ := updateRow_eq_ok.1 h
    exact updateRow_eq_ok.2 ⟨t, old, _, ht, hold, htyped, rekey_endingAt hm position, rfl⟩
  | delete table row =>
    obtain ⟨t, old, m, ht, hold, hm, rfl⟩ := deleteRow_eq_ok.1 h
    exact deleteRow_eq_ok.2 ⟨t, old, _, ht, hold, rekey_endingAt hm position, rfl⟩
  | alter table column name type =>
    cases column with
    | none =>
      obtain ⟨t, ht, hname, rfl⟩ := renameTable_eq_ok.1 h
      exact renameTable_eq_ok.2 ⟨t, ht, hname, rfl⟩
    | some column =>
      obtain ⟨t, found, ht, hfound, hname, hfits, rfl⟩ := alterColumn_eq_ok.1 h
      exact alterColumn_eq_ok.2 ⟨t, found, ht, hfound, hname, hfits, rfl⟩
  | drop target parent =>
    cases parent with
    | none =>
      obtain ⟨t, ht, hown, rfl⟩ := dropTable_eq_ok.1 h
      refine dropTable_eq_ok.2 ⟨t, ht, hown, ?_⟩
      have hfold : ∀ (uids : List Uid) (s : Snapshot),
          uids.foldl erase (s.endingAt position) = (uids.foldl erase s).endingAt position := by
        intro uids
        induction uids with
        | nil => exact fun _ => rfl
        | cons uid uids ih => exact fun s => ih (s.erase uid)
      rw [hfold]
      rfl
    | some table =>
      obtain ⟨t, column, ht, hcolumn, hfree, rfl⟩ := dropColumn_eq_ok.1 h
      exact dropColumn_eq_ok.2 ⟨t, column, ht, hcolumn, hfree, rfl⟩
  | newIndex definition =>
    obtain ⟨t, tree, x, ht, hcolumns, hlive, hprimary, hsame, htarget, htree, hx, rfl⟩ :=
      createIndex_eq_ok.1 h
    exact createIndex_eq_ok.2 ⟨t, tree, x, ht, hcolumns, hlive, hprimary, hsame, htarget, htree, hx,
      rfl⟩
  | dropIndex table columns =>
    obtain ⟨t, x, ht, hx, hfree, rfl⟩ := dropIndex_eq_ok.1 h
    exact dropIndex_eq_ok.2 ⟨t, x, ht, hx, hfree, rfl⟩

end SnapshotStore.Snapshot
