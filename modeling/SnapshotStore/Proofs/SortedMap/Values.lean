import SnapshotStore.Proofs.Alike.Renaming

/-!
# Maps under other values

A map whose values are exchanged by a function keeps the shape of its tree and its keys, so looking
up and changing entries goes along with the exchange. Setting a value that stands there already
changes nothing at all.
-/

namespace SnapshotStore

variable {K V W : Type}

namespace Bucket

open SortedMap (lowerBound find?)

mutual

theorem alike_map (f : V → W) : ∀ b : Bucket K V, Alike Eq (fun v w => w = f v) b (b.map id f)
  | leaf entries => by
    rw [map]
    exact .leaf (List.forall₂_map_right_iff.2 (List.forall₂_same.2 fun _ _ => ⟨rfl, rfl⟩))
  | inner slots last total => by
    rw [map]
    exact .inner (slotsAlike_map f slots) (alike_map f last)

theorem slotsAlike_map (f : V → W) : ∀ slots : List (K × Bucket K V),
    SlotsAlike Eq (fun v w => w = f v) slots (mapSlots id f slots)
  | [] => by
    rw [mapSlots]
    exact .nil
  | (key, child) :: slots => by
    rw [mapSlots]
    exact .cons rfl (alike_map f child) (slotsAlike_map f slots)

end

variable {K' V' W' : Type} {R : K → K' → Prop} {S : V → V' → Prop} {T : W → W' → Prop}
  {f : V → W} {f' : V' → W'}

mutual

theorem Alike.map_values (hf : ∀ v v', S v v' → T (f v) (f' v')) :
    ∀ {b : Bucket K V} {b' : Bucket K' V'}, Alike R S b b' → Alike R T (b.map id f) (b'.map id f')
  | _, _, .leaf hentries => by
    rw [Bucket.map, Bucket.map]
    exact .leaf (List.rel_map (fun _ _ h => ⟨h.1, hf _ _ h.2⟩) hentries)
  | _, _, .inner hslots hlast => by
    rw [Bucket.map, Bucket.map]
    exact .inner (hslots.map_values hf) (hlast.map_values hf)

theorem SlotsAlike.map_values (hf : ∀ v v', S v v' → T (f v) (f' v')) :
    ∀ {slots : List (K × Bucket K V)} {slots' : List (K' × Bucket K' V')},
      SlotsAlike R S slots slots' → SlotsAlike R T (mapSlots id f slots) (mapSlots id f' slots')
  | _, _, .nil => by
    rw [mapSlots, mapSlots]
    exact .nil
  | _, _, .cons hkey hchild hslots => by
    rw [mapSlots, mapSlots]
    exact .cons hkey (hchild.map_values hf) (hslots.map_values hf)

end

/-- A value that is there already may be set again. -/
theorem replace?_self [Ord K] {key : K} {value : V} {b : Bucket K V}
    (h : b.get? key = some value) : b.replace? key value = some b := by
  induction b using Bucket.get?.induct key with
  | case1 entries =>
    rw [Bucket.get?] at h
    obtain ⟨place, hplace, h⟩ := Option.bind_eq_some_iff.1 h
    obtain ⟨entry, hentry, rfl⟩ := Option.map_eq_some_iff.1 h
    rw [Bucket.replace?, hplace, Option.map_some]
    refine congrArg (some ∘ leaf) (List.ext_getElem? fun other => ?_)
    rw [List.getElem?_modify]
    split
    · next heq =>
      subst heq
      rw [hentry]
      rfl
    · exact id_map _
  | case2 slots last total separator child hslot ih =>
    rw [get?_of_child hslot] at h
    rw [replace?_of_child hslot, ih h, Option.map_some]
    obtain ⟨hbound, hget⟩ := List.getElem?_eq_some_iff.1 hslot
    rw [← hget, List.set_getElem_self]
  | case3 slots last total hslot ih =>
    rw [get?_of_last hslot] at h
    rw [replace?_of_last hslot, ih h, Option.map_some]

end Bucket

namespace SortedMap

theorem alike_map (f : V → W) (m : SortedMap K V) :
    m.Alike Eq (fun v w => w = f v) (m.map id f) := by
  obtain ⟨root⟩ := m
  cases root with
  | none => exact .none
  | some root => exact .some (root.alike_map f)

/-- Alike maps stay alike if their values are exchanged alike. -/
theorem alike_map_values {K' V' W' : Type} {R : K → K' → Prop} {S : V → V' → Prop}
    {T : W → W' → Prop} {f : V → W} {f' : V' → W'} (hf : ∀ v v', S v v' → T (f v) (f' v'))
    {m : SortedMap K V} {m' : SortedMap K' V'} (h : m.Alike R S m') :
    SortedMap.Alike R T (m.map id f) (m'.map id f') :=
  rel_option_map h fun _ _ hroot => hroot.map_values hf

variable [Ord K] {m : SortedMap K V} {key : K} {value : V}

theorem get?_map (f : V → W) (m : SortedMap K V) (key : K) :
    (m.map id f).get? key = (m.get? key).map f := by
  have hvalue := (m.alike_map f).get? comparesAlike_eq (rfl : key = key)
  generalize m.get? key = value, (m.map id f).get? key = value' at hvalue
  cases hvalue with
  | none => rfl
  | some hvalue => exact congrArg some hvalue

theorem map_insert (f : V → W) (m : SortedMap K V) (key : K) (value : V) :
    (m.insert key value).map id f = (m.map id f).insert key (f value) :=
  (follows_map .eq (fun _ _ h => h) _ _
    ((m.alike_map f).insert comparesAlike_eq rfl rfl)).symm

theorem map_erase (f : V → W) (m : SortedMap K V) (key : K) :
    (m.erase key).map id f = (m.map id f).erase key :=
  (follows_map .eq (fun _ _ h => h) _ _ ((m.alike_map f).erase comparesAlike_eq rfl)).symm

omit [Ord K] in
theorem values_map (f : V → W) (m : SortedMap K V) : (m.map id f).values = m.values.map f := by
  have hvalues := List.forall₂_map_left_iff.2 ((m.alike_map f).values.imp fun _ _ h => h.symm)
  exact (List.forall₂_eq_eq_eq ▸ hvalues : m.values.map f = _).symm

theorem insert_self (h : m.get? key = some value) : m.insert key value = m := by
  obtain ⟨root⟩ := m
  cases root with
  | none => cases h
  | some root =>
    simp only [insert]
    rw [Bucket.replace?_self h]

end SortedMap

end SnapshotStore
