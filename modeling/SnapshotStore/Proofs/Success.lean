import SnapshotStore.Snapshot.Install

/-!
# What success says

An operation that goes on only where every check passes has succeeded if each of its parts has.
These lemmas open such an operation one part at a time.
-/

namespace SnapshotStore

variable {E F A B : Type}

theorem bind_eq_ok {x : Except E A} {f : A → Except E B} {b : B} :
    x >>= f = .ok b ↔ ∃ a, x = .ok a ∧ f a = .ok b := by
  cases x with
  | error e => exact ⟨fun h => (nomatch h), fun ⟨_, h, _⟩ => (nomatch h)⟩
  | ok a => exact ⟨fun h => ⟨a, rfl, h⟩, fun ⟨_, ha, h⟩ => Except.ok.inj ha ▸ h⟩

theorem mapError_eq_ok {x : Except E A} {f : E → F} {a : A} : x.mapError f = .ok a ↔ x = .ok a := by
  cases x with
  | error e => exact ⟨fun h => (nomatch h), fun h => (nomatch h)⟩
  | ok a => exact ⟨fun h => congrArg _ (Except.ok.inj h), fun h => congrArg _ (Except.ok.inj h)⟩

theorem toOption_eq_some {x : Except E A} {a : A} : x.toOption = some a ↔ x = .ok a := by
  cases x with
  | error e => exact ⟨fun h => (nomatch h), fun h => (nomatch h)⟩
  | ok a => exact ⟨fun h => congrArg _ (Option.some.inj h), fun h => congrArg _ (Except.ok.inj h)⟩

theorem orError_eq_ok {value : Option A} {error : Error} {a : A} :
    orError value error = .ok a ↔ value = some a := by
  cases value with
  | none => exact ⟨fun h => (nomatch h), fun h => (nomatch h)⟩
  | some a => exact ⟨fun h => congrArg _ (Except.ok.inj h), fun h => congrArg _ (Option.some.inj h)⟩

theorem orError_bind_eq_ok {value : Option A} {error : Error} {f : A → Except Error B} {b : B} :
    orError value error >>= f = .ok b ↔ ∃ a, value = some a ∧ f a = .ok b := by
  rw [bind_eq_ok]
  exact exists_congr fun a => and_congr_left fun _ => orError_eq_ok

theorem ensure_eq_ok {holds : Bool} {error : Error} : ensure holds error = .ok () ↔ holds := by
  cases holds with
  | false => exact ⟨fun h => (nomatch h), fun h => (nomatch h)⟩
  | true => exact ⟨fun _ => rfl, fun _ => rfl⟩

theorem ensure_bind_eq_ok {holds : Bool} {error : Error} {x : Unit → Except Error B} {b : B} :
    ensure holds error >>= x = .ok b ↔ holds ∧ x () = .ok b := by
  rw [bind_eq_ok]
  exact ⟨fun ⟨_, h, hx⟩ => ⟨ensure_eq_ok.1 h, hx⟩, fun ⟨h, hx⟩ => ⟨(), ensure_eq_ok.2 h, hx⟩⟩

theorem forM_eq_ok {items : List A} {f : A → Except E Unit} :
    items.forM f = .ok () ↔ ∀ a ∈ items, f a = .ok () := by
  induction items with
  | nil => exact ⟨fun _ _ h => absurd h List.not_mem_nil, fun _ => rfl⟩
  | cons a items ih =>
    rw [List.forall_mem_cons]
    refine (bind_eq_ok : f a >>= _ = _ ↔ _).trans ⟨fun ⟨_, ha, hitems⟩ => ⟨ha, ih.1 hitems⟩,
      fun ⟨ha, hitems⟩ => ⟨(), ha, ih.2 hitems⟩⟩

theorem option_forM_eq_ok {value : Option A} {f : A → Except E Unit} :
    value.forM f = .ok () ↔ ∀ a, value = some a → f a = .ok () := by
  cases value with
  | none => exact ⟨fun _ _ h => (nomatch h), fun _ => rfl⟩
  | some a => exact ⟨fun h _ ha => Option.some.inj ha ▸ h, fun h => h a rfl⟩

theorem option_forM_bind_eq_ok {value : Option A} {f : A → Except E Unit} {x : Unit → Except E B}
    {b : B} : value.forM f >>= x = .ok b ↔ (∀ a, value = some a → f a = .ok ()) ∧ x () = .ok b := by
  rw [bind_eq_ok]
  exact ⟨fun ⟨_, h, hx⟩ => ⟨option_forM_eq_ok.1 h, hx⟩,
    fun ⟨h, hx⟩ => ⟨(), option_forM_eq_ok.2 h, hx⟩⟩

theorem forM_bind_eq_ok {items : List A} {f : A → Except E Unit} {x : Unit → Except E B} {b : B} :
    items.forM f >>= x = .ok b ↔ (∀ a ∈ items, f a = .ok ()) ∧ x () = .ok b := by
  rw [bind_eq_ok]
  exact ⟨fun ⟨_, h, hx⟩ => ⟨forM_eq_ok.1 h, hx⟩, fun ⟨h, hx⟩ => ⟨(), forM_eq_ok.2 h, hx⟩⟩

/-- What every step of a fold keeps, the whole fold keeps. -/
theorem foldlM_invariant {I : B → Prop} {f : B → A → Except E B} {items : List A} {b c : B}
    (hstep : ∀ b a c, a ∈ items → I b → f b a = .ok c → I c) (hb : I b)
    (h : items.foldlM f b = .ok c) : I c := by
  induction items generalizing b with
  | nil => exact Except.ok.inj h ▸ hb
  | cons a items ih =>
    rw [List.foldlM_cons] at h
    obtain ⟨mid, hmid, hrest⟩ := bind_eq_ok.1 h
    exact ih (fun b a c ha => hstep b a c (List.mem_cons_of_mem _ ha))
      (hstep b a mid List.mem_cons_self hb hmid) hrest

end SnapshotStore
