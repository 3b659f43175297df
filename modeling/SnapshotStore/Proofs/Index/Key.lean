import SnapshotStore.Index.Policy
import SnapshotStore.Proofs.Order

/-!
# Keys at one place in the order

Two keys are the same for an index if their components are pairwise at one place in the order, and a
key starts with those that it goes on from in this sense. The direction of a column turns the order
of its components around and leaves these notions alone.
-/

namespace SnapshotStore

variable {K : Type} [Ord K]

/-- The components of a column's keys, for values that can be compared. -/
def PartOf (P : K → Prop) (column : KeyColumn) (part : KeyPart K) : Prop :=
  part.direction = column.direction ∧ P part.value

def SameKey : List K → List K → Prop
  | [], [] => True
  | a :: as, b :: bs => compare a b = .eq ∧ SameKey as bs
  | _, _ => False

def StartsWith : (key start : List K) → Prop
  | _, [] => True
  | [], _ :: _ => False
  | a :: as, b :: bs => compare a b = .eq ∧ StartsWith as bs

instance : (key start : List K) → Decidable (StartsWith key start)
  | [], [] | _ :: _, [] => .isTrue trivial
  | [], _ :: _ => .isFalse id
  | a :: as, b :: bs =>
    have : Decidable (StartsWith as bs) := instDecidableStartsWith as bs
    inferInstanceAs (Decidable (compare a b = .eq ∧ StartsWith as bs))

variable {P : K → Prop} {a b c : List K}

/-- All components of a key can be compared. -/
def KeyOn (P : K → Prop) (key : List K) : Prop := ∀ component ∈ key, P component

omit [Ord K] in
theorem keyOn_cons {head : K} {rest : List K} : KeyOn P (head :: rest) ↔ P head ∧ KeyOn P rest :=
  List.forall_mem_cons

theorem startsWith_nil : StartsWith a [] := by
  cases a <;> trivial

theorem SameKey.length_eq (h : SameKey a b) : a.length = b.length := by
  fun_induction SameKey a b with
  | case1 => rfl
  | case2 a as b bs ih => rw [List.length_cons, List.length_cons, ih h.2]
  | case3 => exact h.elim

theorem SameKey.refl (hP : OrderedOn P) (ha : KeyOn P a) : SameKey a a := by
  induction a with
  | nil => trivial
  | cons head rest ih => exact ⟨hP.refl (keyOn_cons.1 ha).1, ih (keyOn_cons.1 ha).2⟩

theorem SameKey.symm (hP : OrderedOn P) (ha : KeyOn P a) (hb : KeyOn P b) (h : SameKey a b) :
    SameKey b a := by
  fun_induction SameKey a b with
  | case1 => trivial
  | case2 a as b bs ih =>
    obtain ⟨hhead, hrest⟩ := keyOn_cons.1 ha
    obtain ⟨hhead', hrest'⟩ := keyOn_cons.1 hb
    exact ⟨(hP.eq_comm hhead hhead').1 h.1, ih hrest hrest' h.2⟩
  | case3 => exact h.elim

theorem SameKey.trans (hP : OrderedOn P) (ha : KeyOn P a) (hb : KeyOn P b) (hc : KeyOn P c)
    (hab : SameKey a b) (hbc : SameKey b c) : SameKey a c := by
  induction a generalizing b c with
  | nil =>
    cases b with
    | nil => exact hbc
    | cons => exact hab.elim
  | cons head rest ih =>
    cases b with
    | nil => exact hab.elim
    | cons head' rest' =>
      cases c with
      | nil => exact hbc.elim
      | cons head'' rest'' =>
        obtain ⟨hhead, hrest⟩ := keyOn_cons.1 ha
        obtain ⟨hhead', hrest'⟩ := keyOn_cons.1 hb
        obtain ⟨hhead'', hrest''⟩ := keyOn_cons.1 hc
        refine ⟨?_, ih hrest hrest' hrest'' hab.2 hbc.2⟩
        rw [hP.congr_left hhead hhead' hhead'' hab.1]
        exact hbc.1

/-- Full keys start with the keys that are the same. -/
theorem startsWith_iff_sameKey (hlength : a.length = b.length) : StartsWith a b ↔ SameKey a b := by
  induction a generalizing b with
  | nil =>
    cases b with
    | nil => exact Iff.rfl
    | cons => cases hlength
  | cons head rest ih =>
    cases b with
    | nil => cases hlength
    | cons head' rest' => exact and_congr_right fun _ => ih (Nat.succ.inj hlength)

theorem StartsWith.of_sameKey (hP : OrderedOn P) (ha : KeyOn P a) (hb : KeyOn P b) (hc : KeyOn P c)
    (hab : SameKey a b) (h : StartsWith b c) : StartsWith a c := by
  induction c generalizing a b with
  | nil => exact startsWith_nil
  | cons head'' rest'' ih =>
    cases b with
    | nil => exact h.elim
    | cons head' rest' =>
      cases a with
      | nil => exact hab.elim
      | cons head rest =>
        obtain ⟨hhead, hrest⟩ := keyOn_cons.1 ha
        obtain ⟨hhead', hrest'⟩ := keyOn_cons.1 hb
        obtain ⟨hhead'', hrest''⟩ := keyOn_cons.1 hc
        refine ⟨?_, ih hrest hrest' hrest'' hab.2 h.2⟩
        rw [hP.congr_left hhead hhead' hhead'' hab.1]
        exact h.1

/-! ### Directions -/

theorem compare_part {column : KeyColumn} {x y : KeyPart K} (hx : x.direction = column.direction) :
    compare x y = match column.direction with
      | .ascending => compare x.value y.value
      | .descending => compare y.value x.value := by
  rw [← hx]
  rfl

theorem compare_part_eq_iff (hP : OrderedOn P) {column : KeyColumn} {x y : KeyPart K}
    (hx : PartOf P column x) (hy : PartOf P column y) :
    compare x y = .eq ↔ compare x.value y.value = .eq := by
  rw [compare_part hx.1]
  cases column.direction with
  | ascending => exact Iff.rfl
  | descending => exact hP.eq_comm hy.2 hx.2

/-- Either direction puts the components of a column into one line. -/
theorem OrderedOn.part (hP : OrderedOn P) (column : KeyColumn) : OrderedOn (PartOf P column) where
  swap := by
    intro x y hx hy
    rw [compare_part hx.1, compare_part hy.1]
    cases column.direction with
    | ascending => exact hP.swap hx.2 hy.2
    | descending => exact hP.swap hy.2 hx.2
  isLE_trans := by
    intro x y z hx hy hz
    rw [compare_part hx.1, compare_part hx.1, compare_part hy.1]
    cases column.direction with
    | ascending => exact hP.isLE_trans hx.2 hy.2 hz.2
    | descending => exact fun hxy hyz => hP.isLE_trans hz.2 hy.2 hx.2 hyz hxy

end SnapshotStore
