import SnapshotStore.Catalog.Uid

/-!
# Ordered sets of keys

`OrderedOn` says that `compare` is a total order on a set of keys, in which keys at one place need
not be equal. Searching and sorting are right for the keys of such a set; for a lawful order that is
the set of all keys.
-/

namespace SnapshotStore

/-- `compare` puts the keys that satisfy `P` into one line. -/
structure OrderedOn {K : Type} [Ord K] (P : K → Prop) : Prop where
  swap : ∀ {a b}, P a → P b → compare a b = (compare b a).swap
  isLE_trans : ∀ {a b c},
    P a → P b → P c → (compare a b).isLE → (compare b c).isLE → (compare a c).isLE

namespace OrderedOn

variable {K : Type} [Ord K] {P Q : K → Prop} {a b c : K}

theorem of_transOrd [Std.TransOrd K] (P : K → Prop) : OrderedOn P :=
  ⟨fun _ _ => Std.OrientedOrd.eq_swap, fun _ _ _ => Std.TransOrd.isLE_trans⟩

theorem mono (h : OrderedOn P) (hsub : ∀ a, Q a → P a) : OrderedOn Q :=
  ⟨fun ha hb => h.swap (hsub _ ha) (hsub _ hb), fun ha hb hc => h.isLE_trans (hsub _ ha) (hsub _ hb)
    (hsub _ hc)⟩

/-- The order of the set as an order of a type, for which the library has the laws. -/
theorem transCmp (h : OrderedOn P) : Std.TransCmp fun a b : {key // P key} => compare a.1 b.1 where
  eq_swap := fun {a b} => h.swap a.2 b.2
  isLE_trans := fun {a b c} => h.isLE_trans a.2 b.2 c.2

theorem refl (h : OrderedOn P) (ha : P a) : compare a a = .eq := by
  have := h.transCmp
  exact @Std.ReflCmp.compare_self {key // P key} (fun a b => compare a.1 b.1) _ ⟨a, ha⟩

theorem gt_iff_lt (h : OrderedOn P) (ha : P a) (hb : P b) :
    compare a b = .gt ↔ compare b a = .lt := by
  have := h.transCmp
  exact @Std.OrientedCmp.gt_iff_lt {key // P key} (fun a b => compare a.1 b.1) _ ⟨a, ha⟩ ⟨b, hb⟩

theorem eq_comm (h : OrderedOn P) (ha : P a) (hb : P b) :
    compare a b = .eq ↔ compare b a = .eq := by
  have := h.transCmp
  exact @Std.OrientedCmp.eq_comm {key // P key} (fun a b => compare a.1 b.1) _ ⟨a, ha⟩ ⟨b, hb⟩

theorem isLE_antisymm (h : OrderedOn P) (ha : P a) (hb : P b) (hab : (compare a b).isLE)
    (hba : (compare b a).isLE) : compare a b = .eq := by
  have := h.transCmp
  exact @Std.OrientedCmp.isLE_antisymm {key // P key} (fun a b => compare a.1 b.1) _ ⟨a, ha⟩ ⟨b, hb⟩
    hab hba

theorem lt_trans (h : OrderedOn P) (ha : P a) (hb : P b) (hc : P c) (hab : compare a b = .lt)
    (hbc : compare b c = .lt) : compare a c = .lt := by
  have := h.transCmp
  exact @Std.TransCmp.lt_trans {key // P key} (fun a b => compare a.1 b.1) _ ⟨a, ha⟩ ⟨b, hb⟩
    ⟨c, hc⟩ hab hbc

theorem lt_of_isLE_of_lt (h : OrderedOn P) (ha : P a) (hb : P b) (hc : P c)
    (hab : (compare a b).isLE) (hbc : compare b c = .lt) : compare a c = .lt := by
  have := h.transCmp
  exact @Std.TransCmp.lt_of_isLE_of_lt {key // P key} (fun a b => compare a.1 b.1) _ ⟨a, ha⟩ ⟨b, hb⟩
    ⟨c, hc⟩ hab hbc

theorem lt_of_lt_of_isLE (h : OrderedOn P) (ha : P a) (hb : P b) (hc : P c)
    (hab : compare a b = .lt) (hbc : (compare b c).isLE) : compare a c = .lt := by
  have := h.transCmp
  exact @Std.TransCmp.lt_of_lt_of_isLE {key // P key} (fun a b => compare a.1 b.1) _ ⟨a, ha⟩ ⟨b, hb⟩
    ⟨c, hc⟩ hab hbc

theorem congr_left (h : OrderedOn P) (ha : P a) (hb : P b) (hc : P c) (hab : compare a b = .eq) :
    compare a c = compare b c := by
  have := h.transCmp
  exact @Std.TransCmp.congr_left {key // P key} (fun a b => compare a.1 b.1) _ ⟨a, ha⟩ ⟨b, hb⟩
    ⟨c, hc⟩ hab

theorem congr_right (h : OrderedOn P) (ha : P a) (hb : P b) (hc : P c) (hbc : compare b c = .eq) :
    compare a b = compare a c := by
  have := h.transCmp
  exact @Std.TransCmp.congr_right {key // P key} (fun a b => compare a.1 b.1) _ ⟨a, ha⟩ ⟨b, hb⟩
    ⟨c, hc⟩ hbc

end OrderedOn

/-! ### Identifiers -/

instance : Std.TransOrd Uid where
  eq_swap := fun {a b} => @Std.OrientedOrd.eq_swap Nat _ _ a.place b.place
  isLE_trans := fun {a b c} => @Std.TransOrd.isLE_trans Nat _ _ a.place b.place c.place

instance : Std.LawfulEqOrd Uid where
  compare_self := fun {a} => @Std.ReflOrd.compare_self Nat _ _ a.place
  eq_of_compare :=
    fun {a b} h => congrArg Uid.mk (@Std.LawfulEqOrd.eq_of_compare Nat _ _ a.place b.place h)

end SnapshotStore
