import SnapshotStore.Proofs.Log.Lengths
import SnapshotStore.Proofs.Log.Reading

/-!
# Written objects read back

Reading an object at its own bytes gives that object. Identifiers and lengths have to be below
`2 ^ 63`, the numbers that an integer of the log can stand for; in an object that is shorter than
that, all lengths are.
-/

namespace SnapshotStore

/-- The first number that an integer of the log does not reach. -/
def Bytes.limit : Nat := 0x8000000000000000

/-- The identifiers that an object holds. -/
def LogObject.uids : LogObject → List Uid
  | newTable _ => []
  | newColumn _ _ table => [table]
  | record table fields => table :: fields.map Prod.fst
  | update table fields row => table :: row :: fields.map Prod.fst
  | delete table row => [table, row]
  | alter table column _ _ => table :: column.toList
  | drop target parent => target :: parent.toList
  | newIndex definition => definition.table :: definition.columns ++ definition.references.toList
  | dropIndex table columns => table :: columns

namespace Decoder

variable {offset size longest : Nat}

/-! ### Numbers -/

theorem toNat_length_digits (n : Int64) :
    (UInt8.ofNat (Bytes.digits n).length).toNat = (Bytes.digits n).length := by
  have hle := Bytes.length_digits_le n
  rw [UInt8.toNat_ofNat']
  exact Nat.mod_eq_of_lt (by omega)

/-- The number of bytes that an integer is written with passes the check of the reader. -/
theorem not_bad_length (n : Int64) :
    ¬(UInt8.ofNat (Bytes.digits n).length = 0 ∨ 8 < UInt8.ofNat (Bytes.digits n).length) := by
  have hpos := Bytes.length_digits_pos n
  have hle := Bytes.length_digits_le n
  have hlength := toNat_length_digits n
  rintro (h | h)
  · rw [h] at hlength
    exact absurd hlength (by simp; omega)
  · rw [UInt8.lt_iff_toNat_lt, hlength] at h
    exact absurd h (Nat.not_lt.2 hle)

theorem reads_int (n : Int64) : Reads offset size int (Bytes.ofInt n) n := by
  rw [Bytes.ofInt_eq, ← List.singleton_append]
  refine Reads.bind_nil reads_offset ((reads_byte _).bind (Reads.of_not (not_bad_length n) ?_))
  rw [toNat_length_digits]
  refine (reads_take (Bytes.digits n) .integer).bind_end ?_
  rw [Bytes.ofInt_signed_digits]
  exact reads_pure n

theorem toInt_ofNat {n : Nat} (hn : n < Bytes.limit) : (Int64.ofNat n).toInt = n := by
  have h63 : Bytes.limit = 9223372036854775808 := rfl
  have hsize : Int64.size = 18446744073709551616 := rfl
  rw [Int64.toInt_ofNat', Int.bmod_eq_of_le] <;> omega

theorem not_ofNat_lt_zero {n : Nat} (hn : n < Bytes.limit) : ¬Int64.ofNat n < 0 := by
  rw [Int64.lt_iff_toInt_lt, toInt_ofNat hn]
  simp

theorem reads_uid {u : Uid} (hu : u.place < Bytes.limit) : Reads offset size uid u.encode u := by
  refine Reads.bind_nil reads_offset ((reads_int _).bind_end
    (Reads.of_not (not_ofNat_lt_zero hu) ?_))
  rw [toInt_ofNat hu]
  exact reads_pure u

theorem reads_uidOption {u : Option Uid} (hu : ∀ v ∈ u, v.place < Bytes.limit) :
    Reads offset size uidOption (Uid.encodeOption u) u := by
  cases u with
  | none => exact Reads.bind_nil reads_offset ((reads_int (-1)).bind_end (reads_pure none))
  | some v =>
    have hv := hu v rfl
    have hne : Int64.ofNat v.place ≠ -1 := by
      intro h
      exact not_ofNat_lt_zero hv (by rw [h]; decide)
    refine Reads.bind_nil reads_offset ((reads_int _).bind_end ?_)
    refine Reads.of_not hne (Reads.of_not (not_ofNat_lt_zero hv) ?_)
    rw [toInt_ofNat hv]
    exact reads_pure (some v)

theorem reads_dataType (type : DataType) : Reads offset size dataType [type.tag] type := by
  refine Reads.bind_nil reads_offset ((reads_byte _).bind_end ?_)
  simp only [DataType.ofTag?_tag]
  exact reads_pure type

theorem reads_int32 (part : DecimalPart) (n : Int32) :
    Reads offset size (int32 part) (Bytes.ofInt n.toInt64) n := by
  refine Reads.bind_nil reads_offset ((reads_int _).bind_end (Reads.of_not ?_ ?_))
  · have hlow := n.le_toInt
    have hhigh := n.toInt_lt
    rw [Int64.lt_iff_toInt_lt, Int64.lt_iff_toInt_lt, Int32.toInt_toInt64]
    have h1 : (-2147483648 : Int64).toInt = -2147483648 := by decide
    have h2 : (2147483647 : Int64).toInt = 2147483647 := by decide
    omega
  · rw [Int32.toInt32_toInt64]
    exact reads_pure n

/-! ### Lists and texts -/

theorem reads_count {n : Nat} (hn : n < Bytes.limit) (hsize : n ≤ size) :
    Reads offset size count (Bytes.ofNat n) n := by
  have hvalue := toInt_ofNat hn
  have hint : Reads offset size int (Bytes.ofNat n) (Int64.ofNat n) := reads_int _
  have h := hint.count (not_ofNat_lt_zero hn) (by rw [hvalue]; exact hsize)
  rwa [hvalue] at h

theorem reads_times {A : Type} {d : Decoder A} {encode : A → List UInt8} {xs : List A}
    (h : ∀ x ∈ xs, ∀ offset, Reads offset size d (encode x) x) :
    Reads offset size (times d xs.length) (xs.flatMap encode) xs := by
  induction xs generalizing offset with
  | nil => exact reads_pure []
  | cons x xs ih =>
    have hrest := @ih (offset + (encode x).length) fun y hy => h y (List.mem_cons_of_mem x hy)
    exact (h x List.mem_cons_self offset).bind (hrest.bind_end (reads_pure (x :: xs)))

theorem reads_counted {A : Type} {d : Decoder A} {encode : A → List UInt8} {xs : List A}
    (h : ∀ x ∈ xs, ∀ offset, Reads offset size d (encode x) x)
    (hpos : ∀ x ∈ xs, 1 ≤ (encode x).length) (hlimit : xs.length < Bytes.limit)
    (hsize : (xs.flatMap encode).length ≤ size) :
    Reads offset size (count >>= times d) (Bytes.ofNat xs.length ++ xs.flatMap encode) xs := by
  have hlength := length_le_flatMap encode xs hpos
  exact (reads_count hlimit (by omega)).bind (reads_times h)

theorem reads_string {s : String} (hlimit : s.utf8ByteSize < Bytes.limit)
    (hsize : (Bytes.ofString s).length ≤ size) : Reads offset size string (Bytes.ofString s) s := by
  rw [length_ofString] at hsize
  refine (reads_count hlimit (by omega)).bind (Reads.bind_nil reads_offset ?_)
  refine (reads_take s.toByteArray.data.toList .string).bind_end ?_
  simp only [Bytes.toString?_utf8]
  exact reads_pure s

theorem reads_uids {us : List Uid} (hus : ∀ u ∈ us, u.place < Bytes.limit)
    (hlimit : us.length < Bytes.limit) (hsize : (Uid.encodeList us).length ≤ size) :
    Reads offset size uids (Uid.encodeList us) us := by
  rw [Uid.encodeList, List.length_append] at hsize
  refine reads_counted (fun u hu offset => reads_uid (hus u hu)) (fun u _ => ?_) hlimit (by omega)
  exact Nat.le_trans (by decide) (Bytes.two_le_length_ofInt _)

/-! ### Values and fields -/

section

variable (hlimit : longest < Bytes.limit)
include hlimit

theorem reads_value {v : Value} (hlengths : v.counts.Within longest)
    (hsize : v.encode.length ≤ size) : Reads offset size value v.encode v := by
  rw [Value.encode, List.length_cons] at hsize
  rw [Value.encode, ← List.singleton_append]
  refine Reads.bind_nil reads_offset ((reads_byte _).bind ?_)
  cases v with
  | null => exact reads_pure Value.null
  | integer n => exact (reads_int n).bind_end (reads_pure _)
  | numeric d =>
    rw [Value.encodeBody, List.append_assoc]
    refine (reads_int d.mantissa).bind ((reads_int32 .precision d.precision).bind ?_)
    exact (reads_int32 .scale d.scale).bind_end (reads_pure _)
  | string s =>
    rw [Value.encodeBody] at hsize ⊢
    rw [Value.counts, Counts.within_behind, Counts.within_counted] at hlengths
    exact (reads_string (by omega) (by omega)).bind_end (reads_pure _)
  | date t => exact (reads_int t).bind_end (reads_pure _)
  | timeSpan t => exact (reads_int t).bind_end (reads_pure _)
  | boolean b =>
    refine (reads_int (Int64.ofNat b.toNat)).bind_end ?_
    cases b <;> exact reads_pure _

theorem reads_field {field : Field} (hcolumn : field.1.place < Bytes.limit)
    (hlengths : field.counts.Within longest) (hsize : field.encode.length ≤ size) :
    Reads offset size Decoder.field field.encode field := by
  rw [Field.counts, Counts.within_behind] at hlengths
  rw [Field.encode, List.length_append] at hsize
  exact (reads_uid hcolumn).bind ((reads_value hlimit hlengths (by omega)).bind_end (reads_pure _))

theorem reads_fields {fields : List Field}
    (hcolumns : ∀ u ∈ fields.map Prod.fst, u.place < Bytes.limit)
    (hlengths : (Field.countsOfList fields).Within longest)
    (hsize : (Field.encodeList fields).length ≤ size) :
    Reads offset size Decoder.fields (Field.encodeList fields) fields := by
  rw [Field.countsOfList, Counts.within_counted, Counts.within_ofItems] at hlengths
  obtain ⟨hlength, hlengths⟩ := hlengths
  rw [Field.encodeList, List.length_append] at hsize
  refine reads_counted (fun field hfield offset => ?_) (fun field _ => one_le_length_field field)
    (by omega) (by omega)
  have hle := length_le_length_flatMap Field.encode hfield
  exact reads_field hlimit (hcolumns _ (List.mem_map_of_mem hfield)) (hlengths field hfield)
    (by omega)

/-! ### Objects -/

omit hlimit in
theorem reads_alteredType (object : Uid) (type : Option DataType) :
    Reads offset size (alteredType object) [type.elim 0 DataType.tag] type := by
  cases type with
  | none => exact (reads_byte 0).bind_end (reads_pure none)
  | some type =>
    refine (reads_byte type.tag).bind_end (Reads.of_not type.tag_ne_zero ?_)
    simp only [DataType.ofTag?_tag]
    exact reads_pure (some type)

theorem reads_body (uid : Uid) {object : LogObject}
    (huids : ∀ u ∈ object.uids, u.place < Bytes.limit)
    (hlengths : object.countsOfBody.Within longest) (hsize : object.encodeBody.length ≤ size) :
    Reads offset size (body uid object.tag) object.encodeBody object := by
  cases object with
  | newTable name =>
    rw [LogObject.countsOfBody, Counts.within_counted] at hlengths
    exact (reads_string (by omega) hsize).bind_end (reads_pure _)
  | newColumn name type table =>
    have htable := huids table List.mem_cons_self
    rw [LogObject.countsOfBody, Counts.within_counted] at hlengths
    rw [LogObject.encodeBody, List.length_append] at hsize
    rw [LogObject.encodeBody, ← List.singleton_append]
    refine (reads_string (by omega) (by omega)).bind ((reads_dataType type).bind ?_)
    exact (reads_uid htable).bind_end (reads_pure _)
  | record table fields =>
    rw [LogObject.uids, List.forall_mem_cons] at huids
    rw [LogObject.countsOfBody, Counts.within_behind] at hlengths
    rw [LogObject.encodeBody, List.length_append] at hsize
    exact (reads_uid huids.1).bind ((reads_fields hlimit huids.2 hlengths (by omega)).bind_end
      (reads_pure _))
  | update table fields row =>
    rw [LogObject.uids, List.forall_mem_cons, List.forall_mem_cons] at huids
    obtain ⟨htable, hrow, hcolumns⟩ := huids
    rw [LogObject.countsOfBody, Counts.within_behind] at hlengths
    rw [LogObject.encodeBody, List.length_append, List.length_append] at hsize
    rw [LogObject.encodeBody, List.append_assoc]
    refine (reads_uid htable).bind ((reads_fields hlimit hcolumns hlengths (by omega)).bind ?_)
    exact (reads_uid hrow).bind_end (reads_pure _)
  | delete table row =>
    rw [LogObject.uids, List.forall_mem_cons, List.forall_mem_singleton] at huids
    exact (reads_uid huids.1).bind ((reads_uid huids.2).bind_end (reads_pure _))
  | alter table column name type =>
    simp only [LogObject.uids, List.forall_mem_cons, Option.mem_toList] at huids
    rw [LogObject.countsOfBody, Counts.within_behind, Counts.within_counted] at hlengths
    rw [LogObject.encodeBody, List.length_append, List.length_append, List.length_append] at hsize
    rw [LogObject.encodeBody, List.append_assoc, List.append_assoc]
    refine (reads_uid huids.1).bind ((reads_uidOption huids.2).bind
      ((reads_string (by omega) (by omega)).bind ?_))
    exact (reads_alteredType uid type).bind_end (reads_pure _)
  | drop target parent =>
    simp only [LogObject.uids, List.forall_mem_cons, Option.mem_toList] at huids
    exact (reads_uid huids.1).bind ((reads_uidOption huids.2).bind_end (reads_pure _))
  | newIndex definition =>
    obtain ⟨table, primary, columns, references⟩ := definition
    simp only [LogObject.uids, List.cons_append, List.forall_mem_cons, List.forall_mem_append,
      Option.mem_toList] at huids
    obtain ⟨htable, hcolumns, hreferences⟩ := huids
    rw [LogObject.countsOfBody, Counts.within_behind, Counts.within_counted] at hlengths
    rw [LogObject.encodeBody, List.length_append, List.length_cons, List.length_append] at hsize
    rw [LogObject.encodeBody, ← List.singleton_append]
    refine (reads_uid htable).bind ((reads_byte _).bind
      ((reads_uids hcolumns (Nat.lt_of_le_of_lt hlengths.1 hlimit) (by omega)).bind ?_))
    refine (reads_uidOption hreferences).bind_end ?_
    cases primary <;> exact reads_pure _
  | dropIndex table columns =>
    rw [LogObject.uids, List.forall_mem_cons] at huids
    rw [LogObject.countsOfBody, Counts.within_behind, Counts.within_counted] at hlengths
    rw [LogObject.encodeBody, List.length_append] at hsize
    exact (reads_uid huids.1).bind ((reads_uids huids.2 (by omega) (by omega)).bind_end
      (reads_pure _))

theorem reads_object {object : LogObject} (huids : ∀ u ∈ object.uids, u.place < Bytes.limit)
    (hlengths : object.counts.Within longest) (hsize : object.encode.length ≤ size) :
    Reads offset size Decoder.object object.encode (⟨offset⟩, object) := by
  rw [LogObject.counts, Counts.within_behind] at hlengths
  rw [LogObject.encode, List.length_cons] at hsize
  rw [LogObject.encode, ← List.singleton_append]
  refine Reads.bind_nil reads_offset ((reads_byte _).bind ?_)
  exact (reads_body hlimit ⟨offset⟩ huids hlengths (by omega)).bind_end (reads_pure _)

end

end Decoder

end SnapshotStore
