import SnapshotStore.Proofs.Snapshot.Kept

/-!
# Snapshots built object by object

Replaying a log, taking the steps of a transaction and committing them all build a snapshot from
another one, installing objects at ascending places. What is there at the end was there at the
start, or one of the objects has made it.
-/

namespace SnapshotStore.Snapshot

/-- From `s`, whose identifiers are below `first`, the objects lead to a snapshot whose identifiers
are below `last`. -/
inductive Builds (first : Nat) (s : Snapshot) : List (Uid × LogObject) → Nat → Snapshot → Prop where
  | refl {last : Nat} (h : first ≤ last) : Builds first s [] last s
  | step {objects : List (Uid × LogObject)} {mid last : Nat} {m m' : Snapshot} {standing : Standing}
      {uid : Uid} {object : LogObject} (h : Builds first s objects mid m) (hfresh : mid ≤ uid.place)
      (hlast : uid.place < last) (hinstall : m.install standing uid object = .ok m')
      (position : Nat) : Builds first s (objects ++ [(uid, object)]) last (m'.endingAt position)

variable {first mid last : Nat} {s m s' : Snapshot} {objects more : List (Uid × LogObject)}
  {u v : Uid}

namespace Builds

theorem single {standing : Standing} {uid : Uid} {object : LogObject} (hfresh : first ≤ uid.place)
    (hlast : uid.place < last) (hinstall : s.install standing uid object = .ok s')
    (position : Nat) : Builds first s [(uid, object)] last (s'.endingAt position) :=
  (refl (Nat.le_refl first)).step hfresh hlast hinstall position

theorem trans (h : Builds first s objects mid m) (hmore : Builds mid m more last s') :
    Builds first s (objects ++ more) last s' := by
  induction hmore with
  | refl hle =>
    rw [List.append_nil]
    cases h with
    | refl hfirst => exact .refl (Nat.le_trans hfirst hle)
    | step h hfresh hlast hinstall position =>
      exact h.step hfresh (Nat.lt_of_lt_of_le hlast hle) hinstall position
  | step _ hfresh hlast hinstall position ih =>
    rw [← List.append_assoc]
    exact ih.step hfresh hlast hinstall position

theorem first_le (h : Builds first s objects last s') : first ≤ last := by
  induction h with
  | refl hle => exact hle
  | step _ hfresh hlast _ _ ih => exact Nat.le_trans ih (Nat.le_trans hfresh (Nat.le_of_lt hlast))

/-- All objects stand at or behind the first place. -/
theorem le_place (h : Builds first s objects last s') :
    ∀ object ∈ objects, first ≤ object.1.place := by
  induction h with
  | refl => exact fun _ hobject => absurd hobject List.not_mem_nil
  | step h hfresh _ _ _ ih =>
    intro object hobject
    rcases List.mem_append.1 hobject with hobject | hobject
    · exact ih object hobject
    · rw [List.mem_singleton.1 hobject]
      exact Nat.le_trans h.first_le hfresh

/-- All objects stand in front of the last place. -/
theorem place_lt (h : Builds first s objects last s') :
    ∀ object ∈ objects, object.1.place < last := by
  induction h with
  | refl => exact fun _ hobject => absurd hobject List.not_mem_nil
  | step _ hfresh hlast _ _ ih =>
    intro object hobject
    rcases List.mem_append.1 hobject with hobject | hobject
    · exact Nat.lt_trans (Nat.lt_of_lt_of_le (ih object hobject) hfresh) hlast
    · rwa [List.mem_singleton.1 hobject]

theorem catalogued (h : Builds first s objects last s') (hs : Catalogued first s) :
    Catalogued last s' := by
  induction h with
  | refl hle => exact hs.mono hle
  | step _ hfresh hlast hinstall position ih =>
    exact ((ih.install hfresh hinstall).mono hlast).endingAt position

/-- Each of the objects was installed in a snapshot that those in front of it had built. -/
theorem split {before after : List (Uid × LogObject)} {uid : Uid} {object : LogObject}
    (h : Builds first s objects last s') (hobjects : objects = before ++ (uid, object) :: after) :
    ∃ mid m standing m', Builds first s before mid m ∧ mid ≤ uid.place ∧
      m.install standing uid object = .ok m' := by
  induction h generalizing after with
  | refl => exact absurd hobjects.symm (List.append_ne_nil_of_right_ne_nil _ (List.cons_ne_nil _ _))
  | @step objects mid last m m' standing uid' object' h hfresh hlast hinstall position ih =>
    rcases List.eq_nil_or_concat after with rfl | ⟨after, final, rfl⟩
    · obtain ⟨rfl, heq⟩ := List.append_inj' hobjects rfl
      cases heq
      exact ⟨mid, m, standing, m', h, hfresh, hinstall⟩
    · rw [List.concat_eq_append, ← List.cons_append, ← List.append_assoc] at hobjects
      exact ih (List.append_inj' hobjects rfl).1

/-- Each of the objects was installed in a snapshot that the earlier ones had built. -/
theorem mem (h : Builds first s objects last s') {uid : Uid} {object : LogObject}
    (hmem : (uid, object) ∈ objects) :
    ∃ earlier mid m standing m', Builds first s earlier mid m ∧ (∀ o ∈ earlier, o ∈ objects) ∧
      m.install standing uid object = .ok m' := by
  obtain ⟨before, after, hobjects⟩ := List.append_of_mem hmem
  obtain ⟨mid, m, standing, m', hbuilds, _, hinstall⟩ := h.split hobjects
  exact ⟨before, mid, m, standing, m', hbuilds,
    fun o ho => hobjects ▸ List.mem_append_left _ ho, hinstall⟩

/-- No two of the objects stand at one place. -/
theorem eq_of_uid {object object' : LogObject} (h : Builds first s objects last s')
    (hmem : (u, object) ∈ objects) (hmem' : (u, object') ∈ objects) : object = object' := by
  induction h with
  | refl => exact absurd hmem List.not_mem_nil
  | @step objects mid last m m' standing uid final h hfresh hlast hinstall position ih =>
    have hbehind : ∀ {other}, (u, other) ∈ objects → u ≠ uid := by
      rintro other hother rfl
      exact absurd (h.place_lt _ hother) (Nat.not_lt.2 hfresh)
    rcases List.mem_append.1 hmem with hold | hnew <;>
      rcases List.mem_append.1 hmem' with hold' | hnew'
    · exact ih hold hold'
    · exact absurd (congrArg Prod.fst (List.mem_singleton.1 hnew')) (hbehind hold)
    · exact absurd (congrArg Prod.fst (List.mem_singleton.1 hnew)) (hbehind hold')
    · have hsame := (List.mem_singleton.1 hnew).trans (List.mem_singleton.1 hnew').symm
      exact congrArg Prod.snd hsame

/-! ### Where things come from -/

variable (h : Builds first s objects last s') (hs : Catalogued first s)
include h hs

/-- A table was there at the start, with its name unless one of the objects altered it, or one of
the objects defined it. -/
theorem table_origin {t' : Table} (ht' : s'.table? u = some t') :
    (∃ t, s.table? u = some t ∧ ((∀ o ∈ objects, o.2.alters u = false) → t'.name = t.name)) ∨
      ∃ name, (u, .newTable name) ∈ objects := by
  induction h generalizing t' with
  | refl => exact .inl ⟨t', ht', fun _ => rfl⟩
  | @step objects mid last m m' standing uid object h hfresh hlast hinstall position ih =>
    have hsingle := List.mem_append_right objects (List.mem_singleton_self (uid, object))
    have hcatalogued := h.catalogued hs
    cases hcatalogued.kept_install hinstall u _ (table?_eq_some.1 ht') with
    | @table t _ ht htable =>
      rcases ih (table?_eq_some.2 ht) with ⟨t₀, ht₀, hname₀⟩ | ⟨name, hmem⟩
      · have huid : t.uid = u := hcatalogued.own ht
        refine .inl ⟨t₀, ht₀, fun hfree => ?_⟩
        exact (htable.name (huid ▸ hfree _ hsingle)).trans
          (hname₀ fun o ho => hfree o (List.mem_append_left _ ho))
      · exact .inr ⟨name, List.mem_append_left _ hmem⟩
    | new hu hmakes =>
      subst hu
      cases hmakes
      exact .inr ⟨_, hsingle⟩

/-- A column was in its table at the start, with its name and type unless one of the objects altered
the table, or one of the objects defined it there. -/
theorem column_origin {c' : Column} (hc' : s'.column? u = some c') :
    (∃ c, s.column? u = some c ∧ c'.table = c.table ∧
      ((∀ o ∈ objects, o.2.alters c.table = false) → c'.name = c.name ∧ c'.type = c.type)) ∨
      ∃ name type, (u, .newColumn name type c'.table) ∈ objects := by
  induction h generalizing c' with
  | refl => exact .inl ⟨c', hc', rfl, fun _ => ⟨rfl, rfl⟩⟩
  | @step objects mid last m m' standing uid object h hfresh hlast hinstall position ih =>
    have hsingle := List.mem_append_right objects (List.mem_singleton_self (uid, object))
    cases (h.catalogued hs).kept_install hinstall u _ (column?_eq_some.1 hc') with
    | column hc hcolumn =>
      rcases ih (column?_eq_some.2 hc) with ⟨c₀, hc₀, htable₀, hsame₀⟩ | ⟨name, type, hmem⟩
      · refine .inl ⟨c₀, hc₀, hcolumn.table.trans htable₀, fun hfree => ?_⟩
        obtain ⟨hname, htype⟩ := hcolumn.definition (htable₀ ▸ hfree _ hsingle)
        obtain ⟨hname₀, htype₀⟩ := hsame₀ fun o ho => hfree o (List.mem_append_left _ ho)
        exact ⟨hname.trans hname₀, htype.trans htype₀⟩
      · rw [hcolumn.table]
        exact .inr ⟨name, type, List.mem_append_left _ hmem⟩
    | new hu hmakes =>
      subst hu
      cases hmakes with
      | column htable =>
        subst htable
        exact .inr ⟨_, _, hsingle⟩

/-- An index was there at the start, or one of the objects defined it; its definition stays. -/
theorem index_origin {x' : Index} (hx' : s'.index? u = some x') :
    (∃ x, s.index? u = some x ∧ x'.definition = x.definition) ∨
      (u, .newIndex x'.definition) ∈ objects := by
  induction h generalizing x' with
  | refl => exact .inl ⟨x', hx', rfl⟩
  | @step objects mid last m m' standing uid object h hfresh hlast hinstall position ih =>
    cases (h.catalogued hs).kept_install hinstall u _ (index?_eq_some.1 hx') with
    | index hx hkept =>
      rw [hkept]
      exact (ih (index?_eq_some.2 hx)).imp id fun hmem => List.mem_append_left _ hmem
    | new hu hmakes =>
      cases hmakes with
      | index hdefinition =>
        rw [hu, hdefinition]
        exact .inr (List.mem_append_right _ (List.mem_singleton_self _))

/-- A row was in its table at the start, or one of the objects created it there. Its version is the
one that it had then, or one of the objects has updated it and is its version. -/
theorem row_origin {r' : Row} (hr' : s'.row? u v = some r') :
    (∃ r, s.row? u v = some r ∧
      (r'.version = r.version ∨ ∃ fields, (r'.version, .update u fields v) ∈ objects)) ∨
      (∃ fields, (v, .record u fields) ∈ objects) ∧
        (r'.version = v ∨ ∃ fields, (r'.version, .update u fields v) ∈ objects) := by
  induction h generalizing r' with
  | refl => exact .inl ⟨r', hr', .inl rfl⟩
  | @step objects mid last m m' standing uid object h hfresh hlast hinstall position ih =>
    have hsingle := List.mem_append_right objects (List.mem_singleton_self (uid, object))
    have hearlier : ∀ {w : Uid}, (∃ fields, (w, .update u fields v) ∈ objects) →
        ∃ fields, (w, .update u fields v) ∈ objects ++ [(uid, object)] :=
      fun ⟨fields, hmem⟩ => ⟨fields, List.mem_append_left _ hmem⟩
    have hcreated : (∃ fields, (v, .record u fields) ∈ objects) →
        ∃ fields, (v, .record u fields) ∈ objects ++ [(uid, object)] :=
      fun ⟨fields, hmem⟩ => ⟨fields, List.mem_append_left _ hmem⟩
    obtain ⟨t', ht', hr'⟩ := row?_eq_some.1 hr'
    have hcatalogued := h.catalogued hs
    cases hcatalogued.kept_install hinstall u _ (table?_eq_some.1 ht') with
    | new _ hmakes =>
      cases hmakes with
      | table hnone =>
        rw [hnone] at hr'
        cases hr'
    | @table t _ ht htable =>
      have huid : t.uid = u := hcatalogued.own ht
      have hrow : ∀ {r}, t.rows.get? v = some r → m.row? u v = some r := fun hr =>
        row?_eq_some.2 ⟨t, table?_eq_some.2 ht, hr⟩
      cases htable.rows v r' hr' with
      | same hr hversion =>
        rw [hversion]
        exact (ih (hrow hr)).imp
          (fun ⟨r₀, hr₀, hversion₀⟩ => ⟨r₀, hr₀, hversion₀.imp id hearlier⟩)
          (fun ⟨hnew, hversion₀⟩ => ⟨hcreated hnew, hversion₀.imp id hearlier⟩)
      | @updated _ fields hr hobject hversion =>
        subst hobject huid hversion
        have hnow : ∃ changes, (r'.version, .update t.uid changes v) ∈
            objects ++ [(r'.version, .update t.uid fields v)] := ⟨fields, hsingle⟩
        exact (ih (hrow hr)).imp (fun ⟨r₀, hr₀, _⟩ => ⟨r₀, hr₀, .inr hnow⟩)
          (fun ⟨hnew, _⟩ => ⟨hcreated hnew, .inr hnow⟩)
      | new hv hobject hversion =>
        subst hobject huid hv
        exact .inr ⟨⟨_, hsingle⟩, .inl hversion⟩

/-- Every item was there at the start or was made by one of the objects. -/
theorem known_item {item : CatalogItem} (hitem : s'.get? u = some item) :
    u.place < first ∨ ∃ o ∈ objects, o.1 = u := by
  cases item with
  | table t =>
    rcases h.table_origin hs (table?_eq_some.2 hitem) with ⟨t, ht, _⟩ | ⟨_, hmem⟩
    · exact .inl (hs.below_of_table ht)
    · exact .inr ⟨_, hmem, rfl⟩
  | column c =>
    rcases h.column_origin hs (column?_eq_some.2 hitem) with ⟨c, hc, _⟩ | ⟨_, _, hmem⟩
    · exact .inl (hs.below (column?_eq_some.1 hc))
    · exact .inr ⟨_, hmem, rfl⟩
  | index x =>
    rcases h.index_origin hs (index?_eq_some.2 hitem) with ⟨x, hx, _⟩ | hmem
    · exact .inl (hs.below (index?_eq_some.1 hx))
    · exact .inr ⟨_, hmem, rfl⟩

/-- Every row was there at the start or was created by one of the objects. -/
theorem known_row {r : Row} (hr : s'.row? u v = some r) :
    v.place < first ∨ ∃ o ∈ objects, o.1 = v := by
  rcases h.row_origin hs hr with ⟨r, hr, _⟩ | ⟨⟨_, hmem⟩, _⟩
  · obtain ⟨t, ht, hr⟩ := row?_eq_some.1 hr
    exact .inl ((hs.rows (table?_eq_some.1 ht)).below hr)
  · exact .inr ⟨_, hmem, rfl⟩

/-- What can be installed next names nothing else than what was there at the start or is one of the
objects. -/
theorem known_uids {standing : Standing} {uid : Uid} {object : LogObject}
    (hinstall : s'.install standing uid object = .ok m) :
    ∀ u ∈ object.uids, u.place < first ∨ ∃ o ∈ objects, o.1 = u :=
  (h.catalogued hs).uids_of_install (fun hitem => h.known_item hs hitem)
    (fun ht hr => h.known_row hs (row?_eq_some.2 ⟨_, ht, hr⟩)) hinstall

/-! ### What stays -/

/-- A row that none of the objects created was there at the start, in the same version unless one of
them wrote it. -/
theorem row_kept {r' : Row} (hr' : s'.row? u v = some r') (hnew : ∀ o ∈ objects, o.1 ≠ v) :
    ∃ r,
      s.row? u v = some r ∧ ((∀ o ∈ objects, o.2.row? o.1 ≠ some v) → r'.version = r.version) := by
  rcases h.row_origin hs hr' with ⟨r, hr, hversion⟩ | ⟨⟨fields, hmem⟩, _⟩
  · refine ⟨r, hr, fun hfree => hversion.resolve_right ?_⟩
    rintro ⟨fields, hmem⟩
    exact hfree _ hmem rfl
  · exact absurd rfl (hnew _ hmem)

/-- A table that none of the objects created was there at the start, with its name unless one of
them altered it. -/
theorem table_kept {t' : Table} (ht' : s'.table? u = some t') (hnew : ∀ o ∈ objects, o.1 ≠ u) :
    ∃ t, s.table? u = some t ∧ ((∀ o ∈ objects, o.2.alters u = false) → t'.name = t.name) :=
  (h.table_origin hs ht').resolve_right fun ⟨_, hmem⟩ => hnew _ hmem rfl

/-- A column that none of the objects created was there at the start, with its name and type unless
one of them altered its table. -/
theorem column_kept {c' : Column} (hc' : s'.column? u = some c') (hnew : ∀ o ∈ objects, o.1 ≠ u) :
    ∃ c, s.column? u = some c ∧ c'.table = c.table ∧
      ((∀ o ∈ objects, o.2.alters c.table = false) → c'.name = c.name ∧ c'.type = c.type) :=
  (h.column_origin hs hc').resolve_right fun ⟨_, _, hmem⟩ => hnew _ hmem rfl

end Builds

end SnapshotStore.Snapshot
