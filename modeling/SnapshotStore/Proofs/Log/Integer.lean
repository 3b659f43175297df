import SnapshotStore.Log.Bytes

/-!
# Integers read back

The bytes of an integer stand for that integer, whatever the number of bytes that its sign made
superfluous, and no fewer bytes stand for it.
-/

namespace SnapshotStore.Bytes

theorem length_bigEndian (count n : Nat) : (bigEndian count n).length = count := by
  induction count with
  | zero => rfl
  | succ count ih => rw [bigEndian, List.length_cons, ih]

private theorem foldl_unsigned (bytes : List UInt8) (start : Nat) :
    bytes.foldl (fun n byte => 256 * n + byte.toNat) start =
      start * Nat.pow 256 bytes.length + unsigned bytes := by
  induction bytes generalizing start with
  | nil => simp [unsigned]
  | cons byte bytes ih =>
    rw [unsigned, List.foldl_cons, List.foldl_cons, ih, ih (256 * 0 + byte.toNat), List.length_cons]
    rw [show Nat.pow 256 (bytes.length + 1) = Nat.pow 256 bytes.length * 256 from rfl]
    grind

theorem unsigned_cons (byte : UInt8) (bytes : List UInt8) :
    unsigned (byte :: bytes) = byte.toNat * Nat.pow 256 bytes.length + unsigned bytes := by
  rw [unsigned, List.foldl_cons, foldl_unsigned]
  simp

theorem unsigned_bigEndian (count n : Nat) :
    unsigned (bigEndian count n) = n % Nat.pow 256 count := by
  induction count with
  | zero => simp [bigEndian, unsigned, Nat.mod_one]
  | succ count ih =>
    rw [bigEndian, unsigned_cons, length_bigEndian, ih, UInt8.toNat_ofNat']
    rw [show Nat.pow 256 (count + 1) = Nat.pow 256 count * 256 from rfl, Nat.mod_mul]
    rw [Nat.mul_comm, Nat.add_comm]

/-! ### Two's complement -/

theorem signed_eq_unsigned_or (bytes : List UInt8) :
    signed bytes = unsigned bytes ∨ signed bytes = unsigned bytes - Nat.pow 256 bytes.length := by
  cases bytes with
  | nil => exact .inl rfl
  | cons first bytes =>
    rw [signed]
    split
    · exact .inl rfl
    · exact .inr rfl

/-- A leading byte that repeats the sign of the next one adds nothing. -/
theorem signed_cons_sign {first next : UInt8} (bytes : List UInt8)
    (h : (first = 0x00 ∧ next < 0x80) ∨ (first = 0xff ∧ 0x80 ≤ next)) :
    signed (first :: next :: bytes) = signed (next :: bytes) := by
  have hlength :
      Nat.pow 256 (first :: next :: bytes).length = 256 * Nat.pow 256 (next :: bytes).length :=
    Nat.mul_comm _ _
  rcases h with ⟨rfl, hnext⟩ | ⟨rfl, hnext⟩
  · rw [signed, signed, if_pos (by decide), if_pos hnext, unsigned_cons]
    simp
  · have hsign : ¬ next < 0x80 := UInt8.not_lt.2 hnext
    rw [signed, signed, if_neg (by decide), if_neg hsign, hlength, unsigned_cons 0xff]
    rw [show (0xff : UInt8).toNat = 255 from rfl]
    omega

theorem signed_withoutSignBytes (bytes : List UInt8) :
    signed (withoutSignBytes bytes) = signed bytes := by
  induction bytes with
  | nil => rfl
  | cons first bytes ih =>
    cases bytes with
    | nil => rfl
    | cons next bytes =>
      rw [withoutSignBytes]
      split
      · next h => rw [ih, signed_cons_sign bytes h]
      · rfl

theorem length_withoutSignBytes_le (bytes : List UInt8) :
    (withoutSignBytes bytes).length ≤ bytes.length := by
  induction bytes with
  | nil => exact Nat.le_refl _
  | cons first bytes ih =>
    cases bytes with
    | nil => exact Nat.le_refl _
    | cons next bytes =>
      rw [withoutSignBytes]
      split
      · exact Nat.le_succ_of_le ih
      · exact Nat.le_refl _

theorem withoutSignBytes_ne_nil {bytes : List UInt8} (h : bytes ≠ []) :
    withoutSignBytes bytes ≠ [] := by
  induction bytes with
  | nil => exact absurd rfl h
  | cons first bytes ih =>
    cases bytes with
    | nil => exact h
    | cons next bytes =>
      rw [withoutSignBytes]
      split
      · exact ih (List.cons_ne_nil _ _)
      · exact List.cons_ne_nil _ _

/-- The bytes behind the length byte of an integer. -/
def digits (n : Int64) : List UInt8 := withoutSignBytes (bigEndian 8 n.toUInt64.toNat)

theorem ofInt_eq (n : Int64) : ofInt n = UInt8.ofNat (digits n).length :: digits n := rfl

theorem length_digits_le (n : Int64) : (digits n).length ≤ 8 := by
  have h := length_withoutSignBytes_le (bigEndian 8 n.toUInt64.toNat)
  rwa [length_bigEndian] at h

theorem length_digits_pos (n : Int64) : 0 < (digits n).length := by
  refine List.length_pos_iff.2 (withoutSignBytes_ne_nil (List.length_pos_iff.1 ?_))
  rw [length_bigEndian]
  decide

theorem length_ofInt (n : Int64) : (ofInt n).length = (digits n).length + 1 := by
  rw [ofInt_eq, List.length_cons]

theorem two_le_length_ofInt (n : Int64) : 2 ≤ (ofInt n).length := by
  have := length_digits_pos n
  rw [length_ofInt]
  omega

theorem ofInt_signed_digits (n : Int64) : Int64.ofInt (signed (digits n)) = n := by
  have hunsigned : unsigned (bigEndian 8 n.toUInt64.toNat) = n.toUInt64.toNat := by
    rw [unsigned_bigEndian]
    exact Nat.mod_eq_of_lt n.toUInt64.toNat_lt
  rw [digits, signed_withoutSignBytes]
  apply Int64.toBitVec_inj.1
  rw [Int64.toBitVec_ofInt]
  have hself : BitVec.ofInt 64 (n.toUInt64.toNat : Int) = n.toBitVec := by
    rw [BitVec.ofInt_natCast, ← Int64.toNat_toBitVec, BitVec.ofNat_toNat, BitVec.setWidth_eq]
  rcases signed_eq_unsigned_or (bigEndian 8 n.toUInt64.toNat) with h | h
  · rw [h, hunsigned, hself]
  · rw [h, hunsigned, length_bigEndian, ← hself]
    apply BitVec.eq_of_toInt_eq
    rw [BitVec.toInt_ofInt, BitVec.toInt_ofInt]
    exact Int.sub_bmod_right _ _

/-! ### The fewest bytes -/

theorem unsigned_lt (bytes : List UInt8) : unsigned bytes < Nat.pow 256 bytes.length := by
  induction bytes with
  | nil => decide
  | cons byte bytes ih =>
    have hbyte := byte.toNat_lt
    have hle : byte.toNat * Nat.pow 256 bytes.length ≤ 255 * Nat.pow 256 bytes.length :=
      Nat.mul_le_mul_right _ (by omega)
    rw [unsigned_cons, List.length_cons]
    rw [show Nat.pow 256 (bytes.length + 1) = Nat.pow 256 bytes.length * 256 from rfl]
    omega

/-- As many bytes reach no further in either direction. -/
theorem signed_bounds (first : UInt8) (bytes : List UInt8) :
    -(128 * Nat.pow 256 bytes.length : Int) ≤ signed (first :: bytes) ∧
      signed (first :: bytes) < 128 * Nat.pow 256 bytes.length := by
  have hrest := unsigned_lt bytes
  have hfirst := first.toNat_lt
  rw [signed, unsigned_cons, List.length_cons]
  rw [show Nat.pow 256 (bytes.length + 1) = Nat.pow 256 bytes.length * 256 from rfl]
  generalize Nat.pow 256 bytes.length = unit at hrest ⊢
  split
  · next hsmall =>
    have hle : first.toNat * unit ≤ 127 * unit :=
      Nat.mul_le_mul_right _ (Nat.le_of_lt_succ (UInt8.lt_iff_toNat_lt.1 hsmall))
    omega
  · next hlarge =>
    have hge : 128 * unit ≤ first.toNat * unit :=
      Nat.mul_le_mul_right _ (UInt8.le_iff_toNat_le.1 (UInt8.not_lt.1 hlarge))
    have hle : first.toNat * unit ≤ 255 * unit := Nat.mul_le_mul_right _ (by omega)
    omega

/-- A leading byte that does not repeat the sign of the next one is needed. -/
theorem signed_cons_needed {first next : UInt8} (bytes : List UInt8)
    (h : ¬ ((first = 0x00 ∧ next < 0x80) ∨ (first = 0xff ∧ 0x80 ≤ next))) :
    signed (first :: next :: bytes) < -(128 * Nat.pow 256 bytes.length : Int) ∨
      128 * Nat.pow 256 bytes.length ≤ signed (first :: next :: bytes) := by
  have hsigns : ¬ ((first.toNat = 0 ∧ next.toNat < 128) ∨
      (first.toNat = 255 ∧ 128 ≤ next.toNat)) := by
    simpa [UInt8.lt_iff_toNat_lt, UInt8.le_iff_toNat_le, ← UInt8.toNat_inj] using h
  have hrest := unsigned_lt bytes
  have hfirst := first.toNat_lt
  have hnext := next.toNat_lt
  rw [signed, unsigned_cons, unsigned_cons]
  simp only [List.length_cons]
  rw [show Nat.pow 256 (bytes.length + 1 + 1) = Nat.pow 256 bytes.length * 256 * 256 from rfl,
    show Nat.pow 256 (bytes.length + 1) = Nat.pow 256 bytes.length * 256 from rfl]
  generalize Nat.pow 256 bytes.length = unit at hrest ⊢
  have hle : next.toNat * unit ≤ 255 * unit := Nat.mul_le_mul_right _ (by omega)
  split
  · right
    by_cases hzero : first.toNat = 0
    · have hge : 128 * unit ≤ next.toNat * unit := Nat.mul_le_mul_right _ (by omega)
      omega
    · have hge : 1 * (unit * 256) ≤ first.toNat * (unit * 256) :=
        Nat.mul_le_mul_right _ (Nat.pos_of_ne_zero hzero)
      omega
  · left
    by_cases hfull : first.toNat = 255
    · have hle' : next.toNat * unit ≤ 127 * unit := Nat.mul_le_mul_right _ (by omega)
      rw [hfull]
      omega
    · have hle' : first.toNat * (unit * 256) ≤ 254 * (unit * 256) :=
        Nat.mul_le_mul_right _ (by omega)
      omega

theorem withoutSignBytes_needed {bytes rest : List UInt8} {first next : UInt8}
    (h : withoutSignBytes bytes = first :: next :: rest) :
    ¬ ((first = 0x00 ∧ next < 0x80) ∨ (first = 0xff ∧ 0x80 ≤ next)) := by
  fun_induction withoutSignBytes bytes with
  | case1 a b bytes hsign ih => exact ih h
  | case2 a b bytes hsign =>
    cases h
    exact hsign
  | case3 bytes hshort => exact absurd h (hshort first next rest)

/-- The number that up to eight bytes stand for is that of a 64-bit integer. -/
theorem toInt_ofInt_signed {bytes : List UInt8} (h : bytes.length ≤ 8) :
    (Int64.ofInt (signed bytes)).toInt = signed bytes := by
  cases bytes with
  | nil => decide
  | cons first bytes =>
    obtain ⟨hlow, hhigh⟩ := signed_bounds first bytes
    have hpow : Nat.pow 256 bytes.length ≤ Nat.pow 256 7 :=
      Nat.pow_le_pow_right (by decide) (Nat.le_of_succ_le_succ h)
    have h7 : Nat.pow 256 7 = 72057594037927936 := by decide
    have hsize : Int64.size = 18446744073709551616 := rfl
    rw [Int64.toInt_ofInt, Int.bmod_eq_of_le] <;> omega

/-- No bytes that stand for an integer are fewer than those that it is written with. -/
theorem length_digits_le_length {bytes : List UInt8} (hne : bytes ≠ []) (h : bytes.length ≤ 8) :
    (digits (Int64.ofInt (signed bytes))).length ≤ bytes.length := by
  generalize hn : Int64.ofInt (signed bytes) = n
  have hsame : signed (digits n) = signed bytes := by
    rw [← toInt_ofInt_signed (length_digits_le n), ofInt_signed_digits, ← hn,
      toInt_ofInt_signed h]
  obtain ⟨byte, bytes, rfl⟩ := List.exists_cons_of_ne_nil hne
  obtain ⟨hlow, hhigh⟩ := signed_bounds byte bytes
  match hdigits : digits n with
  | [] => exact Nat.zero_le _
  | [_] => exact Nat.succ_le_succ (Nat.zero_le _)
  | first :: next :: rest =>
    rw [hdigits] at hsame
    have hneeded := signed_cons_needed rest (withoutSignBytes_needed hdigits)
    rw [hsame] at hneeded
    refine Nat.le_of_not_lt fun hlt => ?_
    have hpow : Nat.pow 256 bytes.length ≤ Nat.pow 256 rest.length :=
      Nat.pow_le_pow_right (by decide) (by simp at hlt; omega)
    omega

end SnapshotStore.Bytes
