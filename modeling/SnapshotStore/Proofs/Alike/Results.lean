import Mathlib.Data.List.Forall2
import SnapshotStore.Proofs.Success

/-!
# Related lists and results

An operation that treats what it works on alike makes related results of related arguments. These
are the rules for lists whose items are related one by one, and for steps that may fail: both
succeed with related results or both fail, each with an error of its own.
-/

namespace SnapshotStore

variable {A A' B B' E E' F F' : Type} {R : A → A' → Prop} {S : B → B' → Prop}

/-! ### Lists -/

section Lists

variable {xs : List A} {xs' : List A'} {a : A} {a' : A'}

theorem rel_getElem? (h : List.Forall₂ R xs xs') (place : Nat) :
    Option.Rel R xs[place]? xs'[place]? := by
  induction h generalizing place with
  | nil => simp
  | cons hfirst _ ih =>
    cases place with
    | zero => exact .some hfirst
    | succ place => simpa using ih place

theorem rel_exists_of_mem (h : List.Forall₂ R xs xs') (ha : a ∈ xs) : ∃ a', R a a' := by
  induction h with
  | nil => exact absurd ha List.not_mem_nil
  | cons hfirst _ ih =>
    rcases List.mem_cons.1 ha with rfl | ha
    · exact ⟨_, hfirst⟩
    · exact ih ha

theorem rel_set (h : List.Forall₂ R xs xs') (ha : R a a') (place : Nat) :
    List.Forall₂ R (xs.set place a) (xs'.set place a') := by
  induction h generalizing place with
  | nil => exact .nil
  | cons hfirst hrest ih =>
    cases place with
    | zero => exact .cons ha hrest
    | succ place => exact .cons hfirst (ih place)

theorem rel_modify {f : A → A} {f' : A' → A'} (h : List.Forall₂ R xs xs')
    (hf : ∀ a a', R a a' → R (f a) (f' a')) (place : Nat) :
    List.Forall₂ R (xs.modify place f) (xs'.modify place f') := by
  induction h generalizing place with
  | nil => simp
  | cons hfirst hrest ih =>
    cases place with
    | zero => exact .cons (hf _ _ hfirst) hrest
    | succ place => exact .cons hfirst (ih place)

theorem rel_eraseIdx (h : List.Forall₂ R xs xs') (place : Nat) :
    List.Forall₂ R (xs.eraseIdx place) (xs'.eraseIdx place) := by
  induction h generalizing place with
  | nil => exact .nil
  | cons hfirst hrest ih =>
    cases place with
    | zero => exact hrest
    | succ place => exact .cons hfirst (ih place)

theorem rel_insertIdx (h : List.Forall₂ R xs xs') (ha : R a a') (place : Nat) :
    List.Forall₂ R (xs.insertIdx place a) (xs'.insertIdx place a') := by
  induction h generalizing place with
  | nil => cases place <;> simp [ha]
  | cons hfirst hrest ih =>
    cases place with
    | zero => exact .cons ha (.cons hfirst hrest)
    | succ place => exact .cons hfirst (ih place)

theorem rel_dropLast (h : List.Forall₂ R xs xs') : List.Forall₂ R xs.dropLast xs'.dropLast := by
  rw [List.dropLast_eq_take, List.dropLast_eq_take, h.length_eq]
  exact List.forall₂_take _ h

theorem rel_getLast? (h : List.Forall₂ R xs xs') : Option.Rel R xs.getLast? xs'.getLast? := by
  rw [List.getLast?_eq_getElem?, List.getLast?_eq_getElem?, h.length_eq]
  exact rel_getElem? h _

theorem rel_find? {p : A → Bool} {p' : A' → Bool} (h : List.Forall₂ R xs xs')
    (hp : ∀ a a', R a a' → p a = p' a') : Option.Rel R (xs.find? p) (xs'.find? p') := by
  induction h with
  | nil => exact .none
  | cons hfirst _ ih =>
    rw [List.find?_cons, List.find?_cons, hp _ _ hfirst]
    split
    · exact .some hfirst
    · exact ih

theorem rel_any {p : A → Bool} {p' : A' → Bool} (h : List.Forall₂ R xs xs')
    (hp : ∀ a a', R a a' → p a = p' a') : xs.any p = xs'.any p' := by
  induction h with
  | nil => rfl
  | cons hfirst _ ih => rw [List.any_cons, List.any_cons, hp _ _ hfirst, ih]

theorem rel_isEmpty (h : List.Forall₂ R xs xs') : xs.isEmpty = xs'.isEmpty := by
  cases h <;> rfl

end Lists

/-! ### Options -/

theorem rel_option_map {x : Option A} {x' : Option A'} {f : A → B} {f' : A' → B'}
    (h : Option.Rel R x x') (hf : ∀ a a', R a a' → S (f a) (f' a')) :
    Option.Rel S (x.map f) (x'.map f') := by
  cases h with
  | none => exact .none
  | some h => exact .some (hf _ _ h)

theorem rel_option_bind {x : Option A} {x' : Option A'} {f : A → Option B} {f' : A' → Option B'}
    (h : Option.Rel R x x') (hf : ∀ a a', R a a' → Option.Rel S (f a) (f' a')) :
    Option.Rel S (x.bind f) (x'.bind f') := by
  cases h with
  | none => exact .none
  | some h => exact hf _ _ h

theorem rel_option_filter {x : Option A} {x' : Option A'} {p : A → Bool} {p' : A' → Bool}
    (h : Option.Rel R x x') (hp : ∀ a a', R a a' → p a = p' a') :
    Option.Rel R (x.filter p) (x'.filter p') := by
  cases h with
  | none => exact .none
  | some h =>
    rw [Option.filter_some, Option.filter_some, hp _ _ h]
    split
    · exact .some h
    · exact .none

theorem rel_option_any {x : Option A} {x' : Option A'} {p : A → Bool} {p' : A' → Bool}
    (h : Option.Rel R x x') (hp : ∀ a a', R a a' → p a = p' a') : x.any p = x'.any p' := by
  cases h with
  | none => rfl
  | some h => exact hp _ _ h

theorem rel_option_all {x : Option A} {x' : Option A'} {p : A → Bool} {p' : A' → Bool}
    (h : Option.Rel R x x') (hp : ∀ a a', R a a' → p a = p' a') : x.all p = x'.all p' := by
  cases h with
  | none => rfl
  | some h => exact hp _ _ h

theorem rel_some {x : Option A} {x' : Option A'} {a : A} (h : Option.Rel R x x') (hx : x = some a) :
    ∃ a', x' = some a' ∧ R a a' := by
  subst hx
  cases h with
  | some h => exact ⟨_, rfl, h⟩

theorem rel_none {x : Option A} {x' : Option A'} (h : Option.Rel R x x') (hx : x = none) :
    x' = none := by
  subst hx
  cases h
  rfl

theorem rel_isSome {x : Option A} {x' : Option A'} (h : Option.Rel R x x') :
    x.isSome = x'.isSome := by
  cases h <;> rfl

/-! ### Steps that may fail -/

/-- Both fail, or both succeed with related results. -/
inductive Agree (R : A → A' → Prop) : Except E A → Except E' A' → Prop where
  | error {e : E} {e' : E'} : Agree R (.error e) (.error e')
  | ok {a : A} {a' : A'} (h : R a a') : Agree R (.ok a) (.ok a')

namespace Agree

/-- One and the same step. -/
theorem same {R : A → A → Prop} {x : Except E A} (h : ∀ a, x = .ok a → R a a) : Agree R x x := by
  cases x with
  | error => exact .error
  | ok a => exact .ok (h a rfl)

theorem refl (x : Except E A) : Agree Eq x x := same fun _ _ => rfl

theorem bind {x : Except E A} {x' : Except E' A'} {f : A → Except E B} {f' : A' → Except E' B'}
    (h : Agree R x x') (hf : ∀ a a', R a a' → Agree S (f a) (f' a')) :
    Agree S (x >>= f) (x' >>= f') := by
  cases h with
  | error => exact .error
  | ok h => exact hf _ _ h

theorem mapError {x : Except E A} {x' : Except E' A'} {f : E → F} {f' : E' → F'}
    (h : Agree R x x') : Agree R (x.mapError f) (x'.mapError f') := by
  cases h with
  | error => exact .error
  | ok h => exact .ok h

theorem exists_ok {x : Except E A} {x' : Except E' A'} {a : A} (h : Agree R x x')
    (hx : x = .ok a) : ∃ a', x' = .ok a' ∧ R a a' := by
  subst hx
  cases h with
  | ok h => exact ⟨_, rfl, h⟩

theorem exists_ok_left {x : Except E A} {x' : Except E' A'} {a' : A'} (h : Agree R x x')
    (hx' : x' = .ok a') : ∃ a, x = .ok a ∧ R a a' := by
  subst hx'
  cases h with
  | ok h => exact ⟨_, rfl, h⟩

/-- Steps that go on from one and the same result. -/
theorem bind_same {x : Except E A} {f : A → Except E B} {f' : A → Except E B'}
    (h : ∀ a, x = .ok a → Agree S (f a) (f' a)) : Agree S (x >>= f) (x >>= f') := by
  cases x with
  | error => exact .error
  | ok a => exact h a rfl

theorem orError {value : Option A} {value' : Option A'} {error error' : Error}
    (h : Option.Rel R value value') :
    Agree R (SnapshotStore.orError value error) (SnapshotStore.orError value' error') := by
  cases h with
  | none => exact .error
  | some h => exact .ok h

theorem ensure {holds holds' : Bool} {error error' : Error} (h : holds = holds') :
    Agree Eq (SnapshotStore.ensure holds error) (SnapshotStore.ensure holds' error') := by
  subst h
  cases holds with
  | false => exact .error
  | true => exact .ok rfl

theorem foldlM {xs : List A} {xs' : List A'} {f : B → A → Except E B}
    {f' : B' → A' → Except E' B'} {b : B} {b' : B'} (h : List.Forall₂ R xs xs') (hb : S b b')
    (hf : ∀ b b' a a', S b b' → R a a' → Agree S (f b a) (f' b' a')) :
    Agree S (xs.foldlM f b) (xs'.foldlM f' b') := by
  induction h generalizing b b' with
  | nil => exact .ok hb
  | cons hfirst _ ih =>
    rw [List.foldlM_cons, List.foldlM_cons]
    exact (hf _ _ _ _ hb hfirst).bind fun _ _ hnext => ih hnext

theorem forM {xs : List A} {xs' : List A'} {f : A → Except E Unit} {f' : A' → Except E' Unit}
    (h : List.Forall₂ R xs xs') (hf : ∀ a a', R a a' → Agree Eq (f a) (f' a')) :
    Agree Eq (xs.forM f) (xs'.forM f') := by
  induction h with
  | nil => exact .ok rfl
  | cons hfirst _ ih => exact (hf _ _ hfirst).bind fun _ _ _ => ih

theorem option_forM {value : Option A} {value' : Option A'} {f : A → Except E Unit}
    {f' : A' → Except E' Unit} (h : Option.Rel R value value')
    (hf : ∀ a a', R a a' → Agree Eq (f a) (f' a')) :
    Agree Eq (value.forM f) (value'.forM f') := by
  cases h with
  | none => exact .ok rfl
  | some h => exact hf _ _ h

end Agree

end SnapshotStore
