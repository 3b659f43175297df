import SnapshotStore.Proofs.SortedMap.Filled
import SnapshotStore.SortedMap.Basic

/-!
# The laws of sorted maps

A map over keys that can be compared is, for all operations on it, the ascending list of its
entries. Where equal places mean equal keys this gives the usual laws of finite maps.
-/

namespace SnapshotStore.SortedMap

variable {K V : Type} [Ord K] {P : K → Prop} {m : SortedMap K V} {key other : K} {value : V}

/-- What putting in an entry makes of a root: a new value for a key that is there, and otherwise an
entry more, for which a full root becomes the two children of a new one. -/
inductive Enters (key : K) (value : V) : Option (Bucket K V) → Bucket K V → Prop where
  | first : Enters key value none (.leaf [(key, value)])
  | replaced {b c : Bucket K V} (hreplaced : b.replace? key value = some c) :
      Enters key value (some b) c
  | placed {b : Bucket K V} (habsent : b.replace? key value = none) (hroom : b.isFull = false) :
      Enters key value (some b) (b.insert key value)
  | grown {b low high : Bucket K V} {separator : K} (habsent : b.replace? key value = none)
      (hfull : b.isFull) (hsplit : b.split? = some (separator, low, high)) :
      Enters key value (some b) ((Bucket.join [(separator, low)] high).insert key value)

theorem exists_enters (m : SortedMap K V) (key : K) (value : V) :
    ∃ c, m.insert key value = ⟨some c⟩ ∧ Enters key value m.root c := by
  obtain ⟨_ | b⟩ := m
  · exact ⟨_, rfl, .first⟩
  cases hreplaced : b.replace? key value with
  | some changed => exact ⟨changed, by simp only [SortedMap.insert, hreplaced], .replaced hreplaced⟩
  | none =>
    by_cases hfull : b.isFull
    · obtain ⟨⟨separator, low, high⟩, hsplit⟩ :=
        Option.ne_none_iff_exists'.1 (Bucket.split?_ne_none hfull)
      refine ⟨_, ?_, .grown hreplaced hfull hsplit⟩
      simp only [SortedMap.insert, hreplaced, hfull, hsplit, if_true, Option.elim_some]
    · refine ⟨_, ?_, .placed hreplaced (by simpa using hfull)⟩
      simp only [SortedMap.insert, hreplaced, if_neg hfull]

/-- Every map is made of an ordered tree without empty leaves. -/
structure Valid (P : K → Prop) (m : SortedMap K V) : Prop where
  root : ∀ b, m.root = some b → b.Ordered P ∧ b.Filled

theorem valid_empty : (empty : SortedMap K V).Valid P := ⟨fun _ h => by cases h⟩

theorem valid_some {b : Bucket K V} (hordered : b.Ordered P) (hfilled : b.Filled) :
    (⟨some b⟩ : SortedMap K V).Valid P :=
  ⟨fun _ h => by cases h; exact ⟨hordered, hfilled⟩⟩

namespace Valid

theorem cases_root (h : m.Valid P) : m = empty ∨ ∃ b, m = ⟨some b⟩ ∧ b.Ordered P ∧ b.Filled := by
  obtain ⟨root⟩ := m
  cases root with
  | none => exact .inl rfl
  | some b => exact .inr ⟨b, rfl, h.root b rfl⟩

theorem strictlyAscending (h : m.Valid P) : StrictlyAscending m.toList := by
  rcases h.cases_root with rfl | ⟨b, rfl, hordered, _⟩
  · exact List.Pairwise.nil
  · exact hordered.strictlyAscending

theorem keys (h : m.Valid P) : ∀ entry ∈ m.toList, P entry.1 := by
  rcases h.cases_root with rfl | ⟨b, rfl, hordered, _⟩
  · exact fun _ hentry => absurd hentry List.not_mem_nil
  · exact hordered.toList_keys

theorem isEmpty_iff (h : m.Valid P) : m.isEmpty ↔ m.toList = [] := by
  rcases h.cases_root with rfl | ⟨b, rfl, _, hfilled⟩
  · exact ⟨fun _ => rfl, fun _ => rfl⟩
  · exact ⟨fun hempty => absurd hempty Bool.false_ne_true,
      fun hnil => absurd hnil hfilled.toList_ne_nil⟩

theorem get?_eq (hP : OrderedOn P) (hkey : P key) (h : m.Valid P) :
    m.get? key = Entries.get? key m.toList := by
  rcases h.cases_root with rfl | ⟨b, rfl, hordered, _⟩
  · rfl
  · exact hordered.get?_eq hP hkey

/-! ### Changes -/

private theorem insert_spec (hP : OrderedOn P) (hkey : P key) (h : m.Valid P) :
    (m.insert key value).toList = Entries.insert key value m.toList ∧
      (m.insert key value).Valid P := by
  obtain ⟨c, hinsert, henters⟩ := m.exists_enters key value
  obtain ⟨root⟩ := m
  rw [hinsert]
  cases henters with
  | first =>
    refine ⟨rfl, valid_some ⟨List.pairwise_singleton _ _, fun mark hmark => ?_⟩
      (.of_leaf (List.cons_ne_nil _ _))⟩
    rw [List.mem_singleton.1 hmark]
    exact hkey
  | replaced hreplaced =>
    obtain ⟨hordered, hfilled⟩ := h.root _ rfl
    have hmarks := Bucket.marks_replace? hreplaced
    exact ⟨hordered.toList_replace? hP hkey hreplaced,
      valid_some (hordered.of_sublist (hmarks ▸ List.Sublist.refl _)) (hfilled.replace? hreplaced)⟩
  | placed habsent hroom =>
    obtain ⟨hordered, hfilled⟩ := h.root _ rfl
    have hgrown : Bucket.Grown P key value _ _ :=
      hordered.grown_insert hP hkey (hordered.compare_ne_of_replace?_eq_none hP hkey habsent)
    exact ⟨hgrown.toList, valid_some hgrown.ordered hfilled.insert⟩
  | @grown b low high separator habsent hfull hsplit =>
    obtain ⟨hordered, hfilled⟩ := h.root _ rfl
    have hjoined := Bucket.toList_join_split hsplit
    obtain ⟨hlow, hhigh⟩ := hfilled.split hfull hsplit
    have hfilled' : (Bucket.join [(separator, low)] high).Filled :=
      .of_inner (fun slot hslot => List.mem_singleton.1 hslot ▸ hlow) hhigh
    have hgrown : Bucket.Grown P key value _ _ := (hordered.join_split hP hsplit).grown_insert hP
      hkey (hjoined ▸ hordered.compare_ne_of_replace?_eq_none hP hkey habsent)
    exact ⟨hgrown.toList.trans (congrArg _ hjoined), valid_some hgrown.ordered hfilled'.insert⟩

theorem toList_insert (hP : OrderedOn P) (hkey : P key) (h : m.Valid P) :
    (m.insert key value).toList = Entries.insert key value m.toList :=
  (h.insert_spec hP hkey).1

theorem insert (hP : OrderedOn P) (hkey : P key) (h : m.Valid P) : (m.insert key value).Valid P :=
  (h.insert_spec hP hkey).2

private theorem erase_spec (hP : OrderedOn P) (hkey : P key) (h : m.Valid P) :
    (m.erase key).toList = Entries.erase key m.toList ∧ (m.erase key).Valid P := by
  rcases h.cases_root with rfl | ⟨b, rfl, hordered, hfilled⟩
  · exact ⟨rfl, valid_empty⟩
  · have hremoves := hordered.removes_erase hP hkey
    have hrest : (b.erase key).Filled := hfilled.erase
    simp only [SortedMap.erase]
    cases herase : b.erase key with
    | unchanged =>
      rw [herase] at hremoves
      exact ⟨(Entries.erase_eq_self hremoves).symm, h⟩
    | nothing =>
      rw [herase] at hremoves
      exact ⟨hremoves.symm, valid_empty⟩
    | bucket rest =>
      rw [herase] at hremoves hrest
      exact ⟨hremoves.1, valid_some (hordered.of_sublist hremoves.2) hrest⟩

theorem toList_erase (hP : OrderedOn P) (hkey : P key) (h : m.Valid P) :
    (m.erase key).toList = Entries.erase key m.toList :=
  (h.erase_spec hP hkey).1

theorem erase (hP : OrderedOn P) (hkey : P key) (h : m.Valid P) : (m.erase key).Valid P :=
  (h.erase_spec hP hkey).2

theorem get?_insert (hP : OrderedOn P) (hkey : P key) (hother : P other) (h : m.Valid P) :
    (m.insert key value).get? other =
      if compare key other = .eq then some value else m.get? other := by
  rw [(h.insert hP hkey).get?_eq hP hother, h.toList_insert hP hkey,
    Entries.get?_insert hP hkey hother h.keys h.strictlyAscending, h.get?_eq hP hother]

theorem get?_erase (hP : OrderedOn P) (hkey : P key) (hother : P other) (h : m.Valid P) :
    (m.erase key).get? other = if compare key other = .eq then none else m.get? other := by
  rw [(h.erase hP hkey).get?_eq hP hother, h.toList_erase hP hkey,
    Entries.get?_erase hP hkey hother h.keys, h.get?_eq hP hother]

theorem length_insert (hP : OrderedOn P) (hkey : P key) (h : m.Valid P)
    (habsent : m.get? key = none) (value : V) :
    (m.insert key value).toList.length = m.toList.length + 1 := by
  rw [h.get?_eq hP hkey, Entries.get?_eq_none_iff] at habsent
  rw [h.toList_insert hP hkey, Entries.length_insert habsent]

theorem length_erase (hP : OrderedOn P) (hkey : P key) (h : m.Valid P)
    (hpresent : m.get? key = some value) :
    (m.erase key).toList.length + 1 = m.toList.length := by
  have hsum := Entries.sum_erase hP hkey h.keys h.strictlyAscending fun _ => 1
  rw [← h.get?_eq hP hkey, hpresent, ← h.toList_erase hP hkey] at hsum
  rw [List.map_const', List.map_const', List.sum_replicate_nat, List.sum_replicate_nat] at hsum
  simpa using hsum

theorem ofList (hP : OrderedOn P) {entries : List (K × V)}
    (hentries : ∀ entry ∈ entries, P entry.1) : (SortedMap.ofList entries).Valid P := by
  have hfold : ∀ start : SortedMap K V,
      start.Valid P → (entries.foldl (fun m entry => m.insert entry.1 entry.2) start).Valid P := by
    induction entries with
    | nil => exact fun start hstart => hstart
    | cons entry entries ih =>
      obtain ⟨hentry, hrest⟩ := List.forall_mem_cons.1 hentries
      exact fun start hstart => ih hrest _ (hstart.insert hP hentry)
  exact hfold empty valid_empty

/-- A list that is in order already is the list of the map that it gives. -/
theorem toList_ofList (hP : OrderedOn P) {entries : List (K × V)}
    (hentries : ∀ entry ∈ entries, P entry.1) (hsorted : StrictlyAscending entries) :
    (SortedMap.ofList entries).toList = entries := by
  have hfold : ∀ start : SortedMap K V, start.Valid P →
    (∀ a ∈ start.toList, ∀ b ∈ entries, compare a.1 b.1 = .lt) →
      (entries.foldl (fun m entry => m.insert entry.1 entry.2) start).toList = start.toList ++
        entries := by
    induction entries with
    | nil => exact fun start _ _ => (List.append_nil _).symm
    | cons entry entries ih =>
      intro start hstart hbelow
      obtain ⟨hentry, hrest⟩ := List.forall_mem_cons.1 hentries
      obtain ⟨habove, hsorted⟩ := List.pairwise_cons.1 hsorted
      have hinsert : (start.insert entry.1 entry.2).toList = start.toList ++ [entry] := by
        rw [hstart.toList_insert hP hentry, ← List.append_nil start.toList,
          Entries.insert_append_of_lt fun a ha => ?_]
        · rw [List.append_nil]
          rfl
        · exact hbelow a ha entry List.mem_cons_self
      rw [List.foldl_cons, ih hrest hsorted _ (hstart.insert hP hentry), hinsert, List.append_assoc,
        List.singleton_append]
      intro a ha b hb
      rw [hinsert] at ha
      rcases List.mem_append.1 ha with ha | ha
      · exact hbelow a ha b (List.mem_cons_of_mem _ hb)
      · rw [List.mem_singleton.1 ha]
        exact habove b hb
  exact hfold empty valid_empty fun a ha => absurd ha List.not_mem_nil

/-! ### Entries found -/

theorem mem_toList_of_get? (hP : OrderedOn P) (hkey : P key) (h : m.Valid P)
    (hget : m.get? key = some value) :
    ∃ entry ∈ m.toList, compare entry.1 key = .eq ∧ entry.2 = value :=
  Entries.exists_mem_of_get?_eq_some ((h.get?_eq hP hkey).symm.trans hget)

theorem get?_of_mem_toList (hP : OrderedOn P) (hkey : P key) (h : m.Valid P) {entry : K × V}
    (hentry : entry ∈ m.toList) (heq : compare entry.1 key = .eq) : m.get? key = some entry.2 := by
  rw [h.get?_eq hP hkey]
  exact Entries.get?_eq_some_of_mem hP hkey h.keys h.strictlyAscending hentry heq

end Valid

/-! ### Lawful keys -/

section Lawful

variable [Std.TransOrd K] [Std.LawfulEqOrd K]

/-- The maps whose keys are compared by a lawful order. -/
abbrev Lawful (m : SortedMap K V) : Prop := m.Valid fun _ => True

omit [Std.LawfulEqOrd K] in
theorem orderedOn_true : OrderedOn fun _ : K => True := .of_transOrd _

namespace Lawful

omit [Std.LawfulEqOrd K] in
theorem insert (h : m.Lawful) (key : K) (value : V) : (m.insert key value).Lawful :=
  Valid.insert orderedOn_true trivial h

omit [Std.LawfulEqOrd K] in
theorem erase (h : m.Lawful) (key : K) : (m.erase key).Lawful :=
  Valid.erase orderedOn_true trivial h

theorem get?_insert_self (h : m.Lawful) (key : K) (value : V) :
    (m.insert key value).get? key = some value := by
  rw [Valid.get?_insert orderedOn_true trivial trivial h, if_pos Std.ReflOrd.compare_self]

theorem get?_insert_of_ne (h : m.Lawful) (hne : other ≠ key) :
    (m.insert key value).get? other = m.get? other := by
  rw [Valid.get?_insert orderedOn_true trivial trivial h,
    if_neg fun heq => hne (Std.LawfulEqOrd.eq_of_compare heq).symm]

theorem get?_erase_self (h : m.Lawful) (key : K) : (m.erase key).get? key = none := by
  rw [Valid.get?_erase orderedOn_true trivial trivial h, if_pos Std.ReflOrd.compare_self]

theorem get?_erase_of_ne (h : m.Lawful) (hne : other ≠ key) :
    (m.erase key).get? other = m.get? other := by
  rw [Valid.get?_erase orderedOn_true trivial trivial h,
    if_neg fun heq => hne (Std.LawfulEqOrd.eq_of_compare heq).symm]

theorem get?_insert [DecidableEq K] (h : m.Lawful) (key : K) (value : V) (other : K) :
    (m.insert key value).get? other = if other = key then some value else m.get? other := by
  by_cases heq : other = key
  · rw [if_pos heq, heq, h.get?_insert_self]
  · rw [if_neg heq, h.get?_insert_of_ne heq]

theorem get?_erase [DecidableEq K] (h : m.Lawful) (key other : K) :
    (m.erase key).get? other = if other = key then none else m.get? other := by
  by_cases heq : other = key
  · rw [if_pos heq, heq, h.get?_erase_self]
  · rw [if_neg heq, h.get?_erase_of_ne heq]

theorem contains_insert (h : m.Lawful) :
    (m.insert key value).contains other ↔ other = key ∨ m.contains other := by
  by_cases heq : other = key
  · rw [contains, heq, h.get?_insert_self]
    exact ⟨fun _ => .inl rfl, fun _ => rfl⟩
  · rw [contains, h.get?_insert_of_ne heq]
    exact ⟨.inr, fun hcontains => hcontains.resolve_left heq⟩

theorem contains_erase (h : m.Lawful) :
    (m.erase key).contains other ↔ other ≠ key ∧ m.contains other := by
  by_cases heq : other = key
  · rw [contains, heq, h.get?_erase_self]
    exact ⟨fun hfalse => absurd hfalse Bool.false_ne_true, fun hne => absurd rfl hne.1⟩
  · rw [contains, h.get?_erase_of_ne heq]
    exact ⟨fun hcontains => ⟨heq, hcontains⟩, And.right⟩

theorem mem_toList_iff (h : m.Lawful) : (key, value) ∈ m.toList ↔ m.get? key = some value := by
  constructor
  · exact fun hmem => Valid.get?_of_mem_toList orderedOn_true trivial h hmem
      Std.ReflOrd.compare_self
  · intro hget
    obtain ⟨entry, hentry, heq, rfl⟩ := Valid.mem_toList_of_get? orderedOn_true trivial h hget
    rwa [← Std.LawfulEqOrd.eq_of_compare heq]

theorem mem_values_iff (h : m.Lawful) : value ∈ m.values ↔ ∃ key, m.get? key = some value := by
  rw [values, List.mem_map]
  constructor
  · exact fun ⟨entry, hentry, heq⟩ => ⟨entry.1, heq ▸ h.mem_toList_iff.1 hentry⟩
  · exact fun ⟨key, hget⟩ => ⟨(key, value), h.mem_toList_iff.2 hget, rfl⟩

theorem contains_iff_mem_keys (h : m.Lawful) : m.contains key ↔ key ∈ m.keys := by
  rw [contains, Option.isSome_iff_exists, SortedMap.keys, List.mem_map]
  constructor
  · exact fun ⟨value, hget⟩ => ⟨(key, value), h.mem_toList_iff.2 hget, rfl⟩
  · exact fun ⟨entry, hentry, heq⟩ => ⟨entry.2, heq ▸ h.mem_toList_iff.1 hentry⟩

/-- A map over the values of another one. -/
theorem mapValues (h : m.Lawful) {W : Type} (f : V → W) :
    (SortedMap.ofList (m.toList.map fun (key, value) => (key, f value))).Lawful ∧
      ∀ key, (SortedMap.ofList (m.toList.map fun (key, value) => (key, f value))).get? key =
        (m.get? key).map f := by
  have hlawful : (SortedMap.ofList (m.toList.map fun (key, value) => (key, f value))).Lawful :=
    Valid.ofList orderedOn_true fun _ _ => trivial
  have hsorted : StrictlyAscending (m.toList.map fun (key, value) => (key, f value)) :=
    List.pairwise_map.2 (Valid.strictlyAscending h)
  have htoList := Valid.toList_ofList orderedOn_true (fun _ _ => trivial) hsorted
  refine ⟨hlawful, fun key => Option.ext fun w => ?_⟩
  rw [← hlawful.mem_toList_iff, htoList, List.mem_map, Option.map_eq_some_iff]
  constructor
  · rintro ⟨⟨other, value⟩, hentry, heq⟩
    cases heq
    exact ⟨value, h.mem_toList_iff.1 hentry, rfl⟩
  · rintro ⟨value, hget, rfl⟩
    exact ⟨(key, value), h.mem_toList_iff.2 hget, rfl⟩

omit [Std.TransOrd K] [Std.LawfulEqOrd K] in
/-- The keys of a map are in strictly ascending order. -/
theorem pairwise_keys (h : m.Lawful) : m.keys.Pairwise fun a b => compare a b = .lt :=
  List.pairwise_map.2 (Valid.strictlyAscending h)

end Lawful

end Lawful

end SnapshotStore.SortedMap
