import SnapshotStore.Log.Decoding

/-!
# What a read takes

A read that succeeds takes some bytes off the front of the slice and looks at no others: on any
slice that starts with the same bytes at the same place it gives the same result. The one exception
is the length of a list, which is held against the length of the whole slice; since every item of a
list takes a byte, a slice that holds the list is long enough.
-/

namespace SnapshotStore.Decoder

variable {A B : Type}

/-! ### Running -/

theorem run_bind (d : Decoder A) (f : A → Decoder B) (r : Reader) :
    (d >>= f).run.run r = match d.run.run r with
      | (.ok x, r) => (f x).run.run r
      | (.error fault, r) => (.error fault, r) := by
  simp only [ExceptT.run_bind, StateT.run_bind]
  cases h : d.run.run r with
  | mk result r => cases result <;> rfl

theorem run_offset_bind (f : Nat → Decoder B) (r : Reader) :
    (offset >>= f).run.run r = (f r.offset).run.run r :=
  rfl

theorem run_get_bind (f : Reader → Decoder B) (r : Reader) :
    (get >>= f).run.run r = (f r).run.run r :=
  rfl

/-! ### Reading given bytes -/

/-- On every slice of `size` bytes that goes on with `bytes` from `offset`, the read takes these and
gives `x`. -/
def Reads (offset size : Nat) (d : Decoder A) (bytes : List UInt8) (x : A) : Prop :=
  ∀ rest ranOut, d.run.run ⟨bytes ++ rest, offset, size, ranOut⟩ = (.ok x,
    ⟨rest, offset + bytes.length, size, ranOut⟩)

variable {offset size : Nat} {bytes more : List UInt8} {d : Decoder A} {f : A → Decoder B} {x : A}
  {y : B}

theorem reads_pure (x : A) : Reads offset size (pure x) [] x := fun _ _ => rfl

theorem reads_offset : Reads offset size Decoder.offset [] offset := fun _ _ => rfl

theorem reads_byte (byte : UInt8) : Reads offset size Decoder.byte [byte] byte := fun _ _ => rfl

theorem reads_take (bytes : List UInt8) (piece : Piece) :
    Reads offset size (take bytes.length piece) bytes bytes := by
  intro rest ranOut
  have hlength : bytes.length ≤ (bytes ++ rest).length := by simp
  change (if bytes.length ≤ (bytes ++ rest).length then _ else _) = _
  rw [if_pos hlength, List.take_left, List.drop_left]

theorem Reads.bind (hd : Reads offset size d bytes x)
    (hf : Reads (offset + bytes.length) size (f x) more y) :
    Reads offset size (d >>= f) (bytes ++ more) y := by
  intro rest ranOut
  rw [run_bind, List.append_assoc, hd, List.length_append, ← Nat.add_assoc]
  exact hf rest ranOut

theorem Reads.bind_nil (hd : Reads offset size d [] x) (hf : Reads offset size (f x) bytes y) :
    Reads offset size (d >>= f) bytes y :=
  Reads.bind hd hf

theorem Reads.bind_end (hd : Reads offset size d bytes x)
    (hf : Reads (offset + bytes.length) size (f x) [] y) : Reads offset size (d >>= f) bytes y := by
  have h := hd.bind hf
  rwa [List.append_nil] at h

theorem Reads.of_not {holds : Prop} [Decidable holds] {e : Decoder A} (h : ¬holds)
    (hd : Reads offset size d bytes x) : Reads offset size (if holds then e else d) bytes x := by
  rw [if_neg h]
  exact hd

/-! ### Taking bytes -/

/-- The read takes at least `least` bytes, and what it gives hangs on these alone. -/
def Takes (least : Nat) (d : Decoder A) : Prop :=
  ∀ r x r', d.run.run r = (.ok x, r') → ∃ used rest, least ≤ used.length ∧ r.rest = used ++ rest ∧
    r' = ⟨rest, r.offset + used.length, r.size, r.ranOut⟩ ∧ ∀ size, used.length ≤ size →
      Reads r.offset size d used x

theorem Takes.mono {least more : Nat} (h : more ≤ least) (hd : Takes least d) : Takes more d := by
  intro r x r' hrun
  obtain ⟨used, rest, hleast, hrest⟩ := hd r x r' hrun
  exact ⟨used, rest, Nat.le_trans h hleast, hrest⟩

theorem takes_pure (x : A) : Takes 0 (pure x) := by
  intro r y r' hrun
  cases hrun
  exact ⟨[], r.rest, Nat.le_refl _, rfl, rfl, fun _ _ => reads_pure x⟩

theorem takes_throw (fault : ReadFault) (least : Nat) : Takes least (throw fault : Decoder A) := by
  intro r x r' hrun
  cases hrun

theorem takes_offset : Takes 0 Decoder.offset := by
  intro r y r' hrun
  cases hrun
  exact ⟨[], r.rest, Nat.le_refl _, rfl, rfl, fun _ _ => reads_offset⟩

theorem takes_byte : Takes 1 Decoder.byte := by
  intro ⟨rest, offset, size, ranOut⟩ x r' hrun
  cases rest with
  | nil => cases hrun
  | cons first rest =>
    cases hrun
    exact ⟨[x], rest, Nat.le_refl _, rfl, rfl, fun _ _ => reads_byte x⟩

theorem takes_take (count : Nat) (piece : Piece) : Takes count (take count piece) := by
  intro r x r' hrun
  change (if count ≤ r.rest.length then _ else _) = _ at hrun
  split at hrun
  · next h =>
    cases hrun
    have hlength : (r.rest.take count).length = count := List.length_take_of_le h
    refine ⟨r.rest.take count, r.rest.drop count, Nat.le_of_eq hlength.symm,
      (List.take_append_drop _ _).symm, ?_, ?_⟩
    · rw [hlength]
    · intro size _
      have hreads : Reads r.offset size _ _ _ := reads_take (r.rest.take count) piece
      rwa [hlength] at hreads
  · cases hrun

theorem Takes.bind {least more : Nat} (hd : Takes least d) (hf : ∀ x, Takes more (f x)) :
    Takes (least + more) (d >>= f) := by
  intro r y r'' hrun
  rw [run_bind] at hrun
  split at hrun
  · next x r' hfirst =>
    obtain ⟨used, rest, hleast, hrest, rfl, hreads⟩ := hd r x r' hfirst
    obtain ⟨used', rest', hmore, hrest', rfl, hreads'⟩ := hf x _ y r'' hrun
    refine ⟨used ++ used', rest', ?_, ?_, ?_, ?_⟩
    · rw [List.length_append]
      omega
    · rw [hrest, List.append_assoc]
      exact congrArg (used ++ ·) hrest'
    · rw [List.length_append, ← Nat.add_assoc]
    · intro size hsize
      rw [List.length_append] at hsize
      exact (hreads size (by omega)).bind (hreads' size (by omega))
  · cases hrun

theorem Takes.bind_zero {least : Nat} (hd : Takes 0 d) (hf : ∀ x, Takes least (f x)) :
    Takes least (d >>= f) := by
  have h := hd.bind hf
  rwa [Nat.zero_add] at h

theorem Takes.bind_pure {least : Nat} (hd : Takes least d) (hf : ∀ x, Takes 0 (f x)) :
    Takes least (d >>= f) :=
  hd.bind hf

/-- A check that refuses what was read takes nothing. -/
theorem Takes.guard {holds : Prop} [Decidable holds] {least : Nat} {fault : ReadFault}
    {next : A → Decoder B} {d : Decoder B} (hd : ¬holds → Takes least d) :
    Takes least (if holds then throw fault >>= next else d) := by
  split
  · intro r x r' hrun
    cases hrun
  · next h => exact hd h

theorem Takes.ite {holds : Prop} [Decidable holds] {least : Nat} {e : Decoder A}
    (hd : Takes least d) (he : Takes least e) : Takes least (if holds then d else e) := by
  split
  · exact hd
  · exact he

/-- A list whose items take a byte each is at least as long as its length says. -/
theorem Takes.times {least : Nat} (hd : Takes least d) (count : Nat) :
    Takes (least * count) (times d count) := by
  induction count with
  | zero => exact takes_pure []
  | succ count ih =>
    rw [Nat.mul_succ, Nat.add_comm]
    exact hd.bind fun x => ih.bind_pure fun xs => takes_pure _

/-! ### Integers and lengths -/

theorem takes_int : Takes 2 int := by
  refine takes_offset.bind_zero fun start => takes_byte.bind fun length => (?_ : Takes 1 _)
  refine Takes.guard fun h => ?_
  have hpos : 1 ≤ length.toNat := by
    have : length.toNat ≠ 0 := fun h0 => h (.inl (UInt8.toNat_inj.1 h0))
    omega
  exact ((takes_take _ _).mono hpos).bind_pure fun _ => takes_pure _

theorem run_count (r : Reader) :
    count.run.run r = match int.run.run r with
      | (.ok number, r') =>
        if number < 0 ∨ r'.size < number.toInt.toNat then (.error (.count number r.offset), r')
          else (.ok number.toInt.toNat, r')
      | (.error fault, r') => (.error fault, r') := by
  unfold count
  rw [run_offset_bind, run_bind]
  cases int.run.run r with
  | mk result r' =>
    cases result with
    | error fault => rfl
    | ok number =>
      simp only [run_get_bind]
      split <;> rfl

theorem Reads.count {number : Int64} (hint : Reads offset size int bytes number)
    (hsign : ¬number < 0) (hsize : number.toInt.toNat ≤ size) :
    Reads offset size Decoder.count bytes number.toInt.toNat := by
  intro rest ranOut
  rw [run_count, hint]
  exact if_neg fun h => h.elim hsign (Nat.not_lt.2 hsize)

/-- What follows a length takes at least as many bytes as the length says, so that no slice which
holds them is too short for the length. -/
theorem takes_count_bind {least : Nat} {f : Nat → Decoder B}
    (hf : ∀ count, Takes (max least count) (f count)) : Takes (2 + least) (count >>= f) := by
  intro r y r'' hrun
  rw [run_bind, run_count] at hrun
  cases hint : int.run.run r with
  | mk result r' =>
    rw [hint] at hrun
    cases result with
    | error fault => cases hrun
    | ok number =>
      obtain ⟨used, rest, hleast, hrest, rfl, hreads⟩ := takes_int r number r' hint
      by_cases hcount : number < 0 ∨ r.size < number.toInt.toNat
      · simp only [if_pos hcount] at hrun
        cases hrun
      · simp only [if_neg hcount] at hrun
        obtain ⟨used', rest', hmore, hrest', rfl, hreads'⟩ := hf _ _ y r'' hrun
        refine ⟨used ++ used', rest', ?_, ?_, ?_, ?_⟩
        · rw [List.length_append]
          omega
        · rw [hrest, List.append_assoc]
          exact congrArg (used ++ ·) hrest'
        · rw [List.length_append, ← Nat.add_assoc]
        · intro size hsize
          rw [List.length_append] at hsize
          have hsign : ¬number < 0 := fun h => hcount (.inl h)
          exact ((hreads size (by omega)).count hsign (by omega)).bind (hreads' size (by omega))

theorem takes_string : Takes 2 string := by
  refine (takes_count_bind fun count => ?_ : Takes (2 + 0) _)
  refine takes_offset.bind_zero fun start => ?_
  rw [Nat.zero_max]
  refine (takes_take count .string).bind_pure fun bytes => ?_
  split
  · exact takes_pure _
  · exact takes_throw _ 0

theorem takes_counted {least : Nat} (hd : Takes (1 + least) d) : Takes 2 (count >>= times d) := by
  refine (takes_count_bind fun count => (hd.times count).mono ?_ : Takes (2 + 0) _)
  rw [Nat.zero_max, Nat.add_mul, Nat.one_mul]
  exact Nat.le_add_right _ _

end SnapshotStore.Decoder
