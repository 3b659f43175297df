import SnapshotStore.Proofs.Log.RoundTrip

/-!
# Objects cut short

A slice that ends within an object is read up to its end, and the read knows that it ran out of
bytes. There is one way to fail sooner: a length that the cut has left whole is held against the
whole slice, and if it is greater the read takes it for a wrong one.
-/

namespace SnapshotStore

/-! ### Lengths in front of the cut -/

/-- All lengths that end in the first `k` bytes are at most `size`. -/
def Counts.Fit (counts : Counts) (k size : Nat) : Prop := ∀ c ∈ counts, c.1 ≤ k → c.2 ≤ size

instance (counts : Counts) (k size : Nat) : Decidable (counts.Fit k size) :=
  inferInstanceAs (Decidable (∀ c ∈ counts, c.1 ≤ k → c.2 ≤ size))

namespace Counts

variable {counts more : Counts} {k size length : Nat}

theorem behind_behind (first second : Nat) :
    behind first (behind second counts) = behind (first + second) counts := by
  simp [behind, Nat.add_assoc]

@[simp] theorem fit_nil : Fit [] k size := fun _ h => absurd h List.not_mem_nil

@[simp] theorem fit_append : (counts ++ more).Fit k size ↔ counts.Fit k size ∧ more.Fit k size :=
  List.forall_mem_append

theorem fit_of_lt (h : k < length) : (counts.behind length).Fit k size := by
  intro c hc hle
  obtain ⟨c, _, rfl⟩ := List.mem_map.1 hc
  dsimp only at hle
  omega

theorem fit_behind (h : length ≤ k) :
    (counts.behind length).Fit k size ↔ counts.Fit (k - length) size := by
  refine List.forall_mem_map.trans (forall₂_congr fun c _ => ?_)
  dsimp only
  rw [Nat.le_sub_iff_add_le' h]

theorem Within.fit (h : counts.Within length) (hle : length ≤ size) : counts.Fit k size :=
  fun c hc _ => Nat.le_trans (h c hc) hle

theorem fit_counted {count : Nat} :
    (counted count counts).Fit k size ↔
      ((Bytes.ofNat count).length ≤ k → count ≤ size) ∧
        (counts.behind (Bytes.ofNat count).length).Fit k size :=
  List.forall_mem_cons

end Counts

/-! ### Reading what is cut short -/

namespace Decoder

variable {A B : Type} {offset size length : Nat} {bytes more : List UInt8} {counts later : Counts}
  {d : Decoder A} {f : A → Decoder B} {x : A}

/-- On a slice of `size` bytes that ends within `bytes` the read fails, and it has run out of bytes
unless some length in front of the cut exceeds the slice. -/
def Tears (offset size : Nat) (d : Decoder A) (bytes : List UInt8) (counts : Counts) : Prop :=
  ∀ k, k < bytes.length → k ≤ size →
    ∃ fault r, d.run.run ⟨bytes.take k, offset, size, false⟩ = (.error fault, r) ∧
      (r.ranOut = true ↔ counts.Fit k size)

theorem tears_nil (d : Decoder A) : Tears offset size d [] [] :=
  fun _ hk => absurd hk (Nat.not_lt_zero _)

theorem tears_byte (byte : UInt8) : Tears offset size Decoder.byte [byte] [] := by
  intro k hk _
  obtain rfl := Nat.lt_one_iff.1 hk
  exact ⟨_, _, rfl, by simp⟩

theorem tears_take (bytes : List UInt8) (piece : Piece) :
    Tears offset size (take bytes.length piece) bytes [] := by
  intro k hk _
  have hshort : ¬bytes.length ≤ (bytes.take k).length := by
    rw [List.length_take_of_le (Nat.le_of_lt hk)]
    omega
  refine ⟨_, _, if_neg hshort, ?_⟩
  simp

/-! ### One read after the other -/

theorem Tears.bind_offset {f : Nat → Decoder B} (hf : Tears offset size (f offset) bytes counts) :
    Tears offset size (Decoder.offset >>= f) bytes counts := hf

/-- A read of bytes that are cut short does not get to what follows. -/
theorem Tears.bind_end (hd : Tears offset size d bytes counts) :
    Tears offset size (d >>= f) bytes counts := by
  intro k hk hsize
  obtain ⟨fault, r, hrun, hranOut⟩ := hd k hk hsize
  exact ⟨fault, r, by rw [run_bind, hrun], hranOut⟩

/-- What has been read in whole is no longer than the slice, and so are the lengths in it. -/
theorem Tears.bind (hd : Tears offset size d bytes counts)
    (hreads : bytes.length ≤ size → Reads offset size d bytes x)
    (hwithin : counts.Within bytes.length)
    (hf : Tears (offset + bytes.length) size (f x) more later) :
    Tears offset size (d >>= f) (bytes ++ more) (counts ++ later.behind bytes.length) := by
  intro k hk hsize
  rw [List.length_append] at hk
  rw [Counts.fit_append, List.take_append]
  by_cases hcut : k < bytes.length
  · obtain ⟨fault, r, hrun, hranOut⟩ := hd k hcut hsize
    refine ⟨fault, r, ?_, ?_⟩
    · rw [Nat.sub_eq_zero_of_le (Nat.le_of_lt hcut), List.take_zero, List.append_nil, run_bind,
        hrun]
    · rw [hranOut, and_iff_left (Counts.fit_of_lt hcut)]
  · have hle : bytes.length ≤ k := Nat.le_of_not_lt hcut
    obtain ⟨fault, r, hrun, hranOut⟩ := hf (k - bytes.length) (by omega) (by omega)
    refine ⟨fault, r, ?_, ?_⟩
    · rw [List.take_of_length_le hle, run_bind, hreads (Nat.le_trans hle hsize)]
      exact hrun
    · rw [hranOut, Counts.fit_behind hle, and_iff_right (hwithin.fit (Nat.le_trans hle hsize))]

theorem Tears.bind_behind (hd : Tears offset size d bytes [])
    (hreads : bytes.length ≤ size → Reads offset size d bytes x)
    (hf : Tears (offset + bytes.length) size (f x) more later) :
    Tears offset size (d >>= f) (bytes ++ more) (later.behind bytes.length) :=
  hd.bind hreads Counts.within_nil hf

theorem Tears.bind_front (hd : Tears offset size d bytes counts)
    (hreads : bytes.length ≤ size → Reads offset size d bytes x)
    (hwithin : counts.Within bytes.length)
    (hf : Tears (offset + bytes.length) size (f x) more []) :
    Tears offset size (d >>= f) (bytes ++ more) counts := by
  have h := hd.bind hreads hwithin hf
  rwa [Counts.behind_nil, List.append_nil] at h

theorem Tears.bind_plain (hd : Tears offset size d bytes [])
    (hreads : bytes.length ≤ size → Reads offset size d bytes x)
    (hf : Tears (offset + bytes.length) size (f x) more []) :
    Tears offset size (d >>= f) (bytes ++ more) [] :=
  hd.bind_front hreads Counts.within_nil hf

theorem Tears.of_not {holds : Prop} [Decidable holds] {e : Decoder A} (h : ¬holds)
    (hd : Tears offset size d bytes counts) :
    Tears offset size (if holds then e else d) bytes counts := by
  rw [if_neg h]
  exact hd

/-! ### Integers, lengths and texts -/

theorem tears_int (n : Int64) : Tears offset size int (Bytes.ofInt n) [] := by
  rw [Bytes.ofInt_eq, ← List.singleton_append]
  refine Tears.bind_offset ((tears_byte _).bind_plain (fun _ => reads_byte _) ?_)
  refine Tears.of_not (not_bad_length n) ?_
  rw [toNat_length_digits]
  exact (tears_take (Bytes.digits n) .integer).bind_end

/-- A length is the one thing that may be refused though all its bytes are there. -/
theorem Tears.counted {n : Nat} {f : Nat → Decoder B} (hn : n < Bytes.limit)
    (hf : Tears (offset + (Bytes.ofNat n).length) size (f n) more later) :
    Tears offset size (count >>= f) (Bytes.ofNat n ++ more) (.counted n later) := by
  intro k hk hsize
  rw [List.length_append] at hk
  rw [Counts.fit_counted, List.take_append]
  by_cases hcut : k < (Bytes.ofNat n).length
  · have hint : Tears offset size int (Bytes.ofNat n) [] := tears_int _
    obtain ⟨fault, r, hrun, hranOut⟩ := hint k hcut hsize
    refine ⟨fault, r, ?_, ?_⟩
    · rw [Nat.sub_eq_zero_of_le (Nat.le_of_lt hcut), List.take_zero, List.append_nil, run_bind,
        run_count, hrun]
    · rw [hranOut, and_iff_left (Counts.fit_of_lt hcut)]
      simp [Nat.not_le.2 hcut]
  · have hle : (Bytes.ofNat n).length ≤ k := Nat.le_of_not_lt hcut
    rw [List.take_of_length_le hle]
    by_cases hfits : n ≤ size
    · obtain ⟨fault, r, hrun, hranOut⟩ := hf (k - (Bytes.ofNat n).length) (by omega) (by omega)
      refine ⟨fault, r, ?_, ?_⟩
      · rw [run_bind, reads_count hn hfits]
        exact hrun
      · rw [hranOut, Counts.fit_behind hle, and_iff_right fun _ => hfits]
    · have hvalue := toInt_ofNat hn
      have hint : Reads offset size int (Bytes.ofNat n) (Int64.ofNat n) := reads_int _
      refine ⟨.count (Int64.ofNat n) offset, ⟨more.take (k - (Bytes.ofNat n).length),
        offset + (Bytes.ofNat n).length, size, false⟩, ?_, ?_⟩
      · rw [run_bind, run_count, hint]
        simp only [hvalue]
        rw [if_pos (.inr (by simpa using hfits))]
      · simp [hle, hfits]

theorem tears_uid (u : Uid) : Tears offset size uid u.encode [] :=
  Tears.bind_offset (tears_int _).bind_end

theorem tears_uidOption (u : Option Uid) :
    Tears offset size uidOption (Uid.encodeOption u) [] := by
  cases u <;> exact Tears.bind_offset (tears_int _).bind_end

theorem tears_dataType (type : DataType) : Tears offset size dataType [type.tag] [] :=
  Tears.bind_offset (tears_byte _).bind_end

theorem tears_int32 (part : DecimalPart) (n : Int32) :
    Tears offset size (int32 part) (Bytes.ofInt n.toInt64) [] :=
  Tears.bind_offset (tears_int _).bind_end

theorem tears_string {s : String} (hlimit : s.utf8ByteSize < Bytes.limit) :
    Tears offset size string (Bytes.ofString s) (.counted s.utf8ByteSize []) := by
  refine Tears.counted hlimit (Tears.bind_offset ?_)
  exact (tears_take s.toByteArray.data.toList .string).bind_end

/-! ### Lists -/

theorem tears_times {encode : A → List UInt8} {counts : A → Counts} {xs : List A}
    (h : ∀ x ∈ xs, ∀ offset, Tears offset size d (encode x) (counts x))
    (hreads : ∀ x ∈ xs, ∀ offset, (encode x).length ≤ size → Reads offset size d (encode x) x)
    (hwithin : ∀ x ∈ xs, (counts x).Within (encode x).length) :
    Tears offset size (times d xs.length) (xs.flatMap encode) (.ofItems encode counts xs) := by
  induction xs generalizing offset with
  | nil => exact tears_nil _
  | cons x xs ih =>
    have hrest := @ih (offset + (encode x).length) (fun y hy => h y (List.mem_cons_of_mem x hy))
      (fun y hy => hreads y (List.mem_cons_of_mem x hy))
      (fun y hy => hwithin y (List.mem_cons_of_mem x hy))
    exact (h x List.mem_cons_self offset).bind (hreads x List.mem_cons_self offset)
      (hwithin x List.mem_cons_self) hrest.bind_end

theorem tears_uids {us : List Uid} (hus : ∀ u ∈ us, u.place < Bytes.limit)
    (hlimit : us.length < Bytes.limit) :
    Tears offset size uids (Uid.encodeList us) (.counted us.length []) := by
  refine Tears.counted hlimit ?_
  have h := @tears_times _ (offset + (Bytes.ofNat us.length).length) size uid Uid.encode
    (fun _ => []) us (fun u _ offset => tears_uid u) (fun u hu offset _ => reads_uid (hus u hu))
    fun _ _ => Counts.within_nil
  rwa [Counts.ofItems_plain] at h

/-! ### Values and fields -/

theorem tears_value {v : Value} (hlimit : v.encode.length < Bytes.limit) :
    Tears offset size value v.encode v.counts := by
  rw [Value.encode, List.length_cons] at hlimit
  rw [Value.encode, ← List.singleton_append]
  refine Tears.bind_offset ?_
  have hbody : ∀ {f : UInt8 → Decoder Value} {later : Counts}, v.counts = later.behind 1 →
      Tears (offset + 1) size (f v.tag) v.encodeBody later →
        Tears offset size (byte >>= f) ([v.tag] ++ v.encodeBody) v.counts := by
    intro f later hcounts hf
    rw [hcounts]
    exact (tears_byte v.tag).bind_behind (fun _ => reads_byte _) hf
  cases v with
  | null => exact @hbody _ [] rfl (tears_nil _)
  | integer n => exact @hbody _ [] rfl (tears_int n).bind_end
  | numeric d =>
    refine @hbody _ [] rfl ?_
    rw [Value.encodeBody, List.append_assoc]
    refine (tears_int d.mantissa).bind_plain (fun _ => reads_int _) ?_
    refine (tears_int32 .precision d.precision).bind_plain (fun _ => reads_int32 _ _) ?_
    exact (tears_int32 .scale d.scale).bind_end
  | string s =>
    rw [Value.encodeBody, length_ofString] at hlimit
    exact hbody rfl (tears_string (by omega)).bind_end
  | date t => exact @hbody _ [] rfl (tears_int t).bind_end
  | timeSpan t => exact @hbody _ [] rfl (tears_int t).bind_end
  | boolean b => exact @hbody _ [] rfl (tears_int (Int64.ofNat b.toNat)).bind_end

theorem tears_field {field : Field} (hcolumn : field.1.place < Bytes.limit)
    (hlimit : field.encode.length < Bytes.limit) :
    Tears offset size Decoder.field field.encode field.counts := by
  rw [Field.encode, List.length_append] at hlimit
  refine (tears_uid field.1).bind_behind (fun _ => reads_uid hcolumn) ?_
  exact (tears_value (by omega)).bind_end

theorem tears_fields {fields : List Field}
    (hcolumns : ∀ u ∈ fields.map Prod.fst, u.place < Bytes.limit)
    (hlimit : (Field.encodeList fields).length < Bytes.limit) :
    Tears offset size Decoder.fields (Field.encodeList fields) (Field.countsOfList fields) := by
  have hlength := length_le_flatMap Field.encode fields fun field _ => one_le_length_field field
  rw [Field.encodeList, List.length_append] at hlimit
  have hfield : ∀ field ∈ fields, field.encode.length < Bytes.limit := fun field hfield =>
    Nat.lt_of_le_of_lt (length_le_length_flatMap Field.encode hfield) (by omega)
  have hcolumn : ∀ field ∈ fields, field.1.place < Bytes.limit := fun field hfield =>
    hcolumns _ (List.mem_map_of_mem hfield)
  refine Tears.counted (by omega) (tears_times (fun field hmem offset => ?_)
    (fun field hmem offset hsize => ?_) fun field _ => within_field field)
  · exact tears_field (hcolumn field hmem) (hfield field hmem)
  · exact reads_field (hfield field hmem) (hcolumn field hmem) (within_field field) hsize

/-! ### Objects -/

theorem tears_alteredType (object : Uid) (type : Option DataType) :
    Tears offset size (alteredType object) [type.elim 0 DataType.tag] [] :=
  (tears_byte _).bind_end

theorem tears_body (uid : Uid) {object : LogObject}
    (huids : ∀ u ∈ object.uids, u.place < Bytes.limit)
    (hlimit : object.encodeBody.length < Bytes.limit) :
    Tears offset size (body uid object.tag) object.encodeBody object.countsOfBody := by
  cases object with
  | newTable name =>
    rw [LogObject.encodeBody, length_ofString] at hlimit
    exact (tears_string (by omega)).bind_end
  | newColumn name type table =>
    rw [LogObject.encodeBody, List.length_append, length_ofString] at hlimit
    rw [LogObject.encodeBody, ← List.singleton_append]
    refine (tears_string (by omega)).bind_front (x := name) (fun hsize => ?_)
      (within_string name) ?_
    · exact reads_string (by omega) hsize
    · exact (tears_dataType type).bind_plain (fun _ => reads_dataType type)
        (tears_uid table).bind_end
  | record table fields =>
    rw [LogObject.uids, List.forall_mem_cons] at huids
    rw [LogObject.encodeBody, List.length_append] at hlimit
    refine (tears_uid table).bind_behind (fun _ => reads_uid huids.1) ?_
    exact (tears_fields huids.2 (by omega)).bind_end
  | update table fields row =>
    rw [LogObject.uids, List.forall_mem_cons, List.forall_mem_cons] at huids
    obtain ⟨htable, hrow, hcolumns⟩ := huids
    rw [LogObject.encodeBody, List.length_append, List.length_append] at hlimit
    rw [LogObject.encodeBody, List.append_assoc]
    refine (tears_uid table).bind_behind (fun _ => reads_uid htable) ?_
    refine (tears_fields hcolumns (by omega)).bind_front (x := fields) (fun hsize => ?_)
      (within_fields fields) ?_
    · exact reads_fields (by omega) hcolumns (within_fields fields) hsize
    · exact (tears_uid row).bind_end
  | delete table row =>
    rw [LogObject.uids, List.forall_mem_cons] at huids
    exact (tears_uid table).bind_plain (fun _ => reads_uid huids.1) (tears_uid row).bind_end
  | alter table column name type =>
    simp only [LogObject.uids, List.forall_mem_cons, Option.mem_toList] at huids
    rw [LogObject.encodeBody, List.length_append, List.length_append, List.length_append,
      length_ofString] at hlimit
    rw [LogObject.encodeBody, List.append_assoc, List.append_assoc, LogObject.countsOfBody,
      ← Counts.behind_behind]
    refine (tears_uid table).bind_behind (fun _ => reads_uid huids.1) ?_
    refine (tears_uidOption column).bind_behind (fun _ => reads_uidOption huids.2) ?_
    refine (tears_string (by omega)).bind_front (x := name) (fun hsize => ?_)
      (within_string name) ?_
    · exact reads_string (by omega) hsize
    · exact (tears_alteredType uid type).bind_end
  | drop target parent =>
    simp only [LogObject.uids, List.forall_mem_cons, Option.mem_toList] at huids
    exact (tears_uid target).bind_plain (fun _ => reads_uid huids.1)
      (tears_uidOption parent).bind_end
  | newIndex definition =>
    obtain ⟨table, primary, columns, references⟩ := definition
    simp only [LogObject.uids, List.cons_append, List.forall_mem_cons, List.forall_mem_append,
      Option.mem_toList] at huids
    obtain ⟨htable, hcolumns, hreferences⟩ := huids
    have hlength := within_uids columns _ List.mem_cons_self
    rw [LogObject.encodeBody, List.length_append, List.length_cons, List.length_append] at hlimit
    rw [LogObject.encodeBody, ← List.singleton_append, LogObject.countsOfBody,
      ← Counts.behind_behind]
    refine (tears_uid table).bind_behind (fun _ => reads_uid htable) ?_
    refine (tears_byte _).bind_behind (fun _ => reads_byte _) ?_
    refine (tears_uids hcolumns (by omega)).bind_front (x := columns) (fun hsize => ?_)
      (within_uids columns) ?_
    · exact reads_uids hcolumns (by omega) hsize
    · exact (tears_uidOption references).bind_end
  | dropIndex table columns =>
    rw [LogObject.uids, List.forall_mem_cons] at huids
    have hlength := within_uids columns _ List.mem_cons_self
    rw [LogObject.encodeBody, List.length_append] at hlimit
    refine (tears_uid table).bind_behind (fun _ => reads_uid huids.1) ?_
    exact (tears_uids huids.2 (by omega)).bind_end

theorem tears_object {object : LogObject} (huids : ∀ u ∈ object.uids, u.place < Bytes.limit)
    (hlimit : object.encode.length < Bytes.limit) :
    Tears offset size Decoder.object object.encode object.counts := by
  rw [LogObject.encode, List.length_cons] at hlimit
  rw [LogObject.encode, ← List.singleton_append]
  refine Tears.bind_offset ((tears_byte _).bind_behind (fun _ => reads_byte _) ?_)
  exact (tears_body ⟨offset⟩ huids (by omega)).bind_end

end Decoder

end SnapshotStore
