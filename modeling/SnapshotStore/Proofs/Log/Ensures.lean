import SnapshotStore.Proofs.Log.Listing

/-!
# What reads ensure

Whatever the bytes are, a read walks over bytes of its slice and over no others, also where it
fails. What it gives is written in no more bytes than it has walked over, with identifiers and
lengths that an integer of the log can stand for; if it fails, the fault lies in what has been
walked over.
-/

namespace SnapshotStore

/-- The place in the log that a fault is about. -/
def ReadFault.place : ReadFault → Nat
  | truncated _ offset | integerLength _ offset | count _ offset | identifier _ offset
  | utf8 offset | dataType _ offset | valueTag _ offset | boolean _ offset
  | outOfRange _ _ offset => offset
  | alteredType _ object | objectTag _ object => object.place

/-- A reader has walked over some bytes. -/
structure Reader.Walks (r : Reader) (used : List UInt8) (r' : Reader) : Prop where
  rest : r.rest = used ++ r'.rest
  offset : r'.offset = r.offset + used.length
  size : r'.size = r.size

theorem Reader.Walks.refl (r : Reader) : r.Walks [] r := ⟨rfl, rfl, rfl⟩

theorem Reader.Walks.trans {r r' r'' : Reader} {used more : List UInt8} (h : r.Walks used r')
    (hmore : r'.Walks more r'') : r.Walks (used ++ more) r'' where
  rest := by rw [h.rest, hmore.rest, List.append_assoc]
  offset := by rw [hmore.offset, h.offset, List.length_append, Nat.add_assoc]
  size := hmore.size.trans h.size

namespace Decoder

variable {A B : Type} {low reach : Nat} {d : Decoder A} {f : A → Decoder B}
  {good fine : A → Nat → Prop}

/-- From the place `reach` on, the read walks over bytes of the slice. What it gives is good for
their number, or the fault stands between `low` and the place that the read has come to. -/
def Ensures (low reach : Nat) (d : Decoder A) (good : A → Nat → Prop) : Prop :=
  ∀ r result r', reach ≤ r.offset → d.run.run r = (result, r') →
    ∃ used, r.Walks used r' ∧ match result with
      | .ok x => good x used.length
      | .error fault => low ≤ fault.place ∧ fault.place ≤ r'.offset

theorem Ensures.imp (h : Ensures low reach d good) (himp : ∀ x n, good x n → fine x n) :
    Ensures low reach d fine := by
  intro r result r' hr hrun
  obtain ⟨used, hwalks, hresult⟩ := h r result r' hr hrun
  cases result with
  | ok x => exact ⟨used, hwalks, himp x _ hresult⟩
  | error fault => exact ⟨used, hwalks, hresult⟩

theorem ensures_pure {x : A} (h : good x 0) : Ensures low reach (pure x) good := by
  intro r result r' _ hrun
  cases hrun
  exact ⟨[], .refl r, h⟩

theorem ensures_throw {fault : ReadFault} (hlow : low ≤ fault.place)
    (hreach : fault.place ≤ reach) : Ensures low reach (throw fault : Decoder A) good := by
  intro r result r' hr hrun
  cases hrun
  exact ⟨[], .refl r, hlow, Nat.le_trans hreach hr⟩

theorem Ensures.bind {better : B → Nat → Prop} (hd : Ensures low reach d good)
    (hf : ∀ x n, good x n → Ensures low reach (f x) fun y more => better y (n + more)) :
    Ensures low reach (d >>= f) better := by
  intro r result r'' hr hrun
  rw [run_bind] at hrun
  cases hfirst : d.run.run r with
  | mk first r' =>
    rw [hfirst] at hrun
    obtain ⟨used, hwalks, hgood⟩ := hd r first r' hr hfirst
    cases first with
    | error fault =>
      cases hrun
      exact ⟨used, hwalks, hgood⟩
    | ok x =>
      have hr' : reach ≤ r'.offset := by
        rw [hwalks.offset]
        exact Nat.le_add_right_of_le hr
      obtain ⟨more, hmore, hresult⟩ := hf x _ hgood r' result r'' hr' hrun
      refine ⟨used ++ more, hwalks.trans hmore, ?_⟩
      cases result with
      | ok y => rwa [List.length_append]
      | error fault => exact hresult

/-- A place that was noted before is one that a later fault may name. -/
theorem Ensures.bind_offset {f : Nat → Decoder A}
    (hf : ∀ start, reach ≤ start → Ensures low start (f start) good) :
    Ensures low reach (Decoder.offset >>= f) good := by
  intro r result r' hr hrun
  rw [run_offset_bind] at hrun
  exact hf r.offset hr r result r' (Nat.le_refl _) hrun

theorem Ensures.guard {holds : Prop} [Decidable holds] {fault : ReadFault} {next : B → Decoder A}
    (hlow : low ≤ fault.place) (hreach : fault.place ≤ reach)
    (hd : ¬ holds → Ensures low reach d good) :
    Ensures low reach (if holds then throw fault >>= next else d) good := by
  split
  · exact (ensures_throw hlow hreach : Ensures low reach _ fun _ _ => False).bind
      fun _ _ hfalse => hfalse.elim
  · next h => exact hd h

theorem Ensures.ite {holds : Prop} [Decidable holds] {e : Decoder A}
    (hd : holds → Ensures low reach d good) (he : ¬ holds → Ensures low reach e good) :
    Ensures low reach (if holds then d else e) good := by
  split
  · next h => exact hd h
  · next h => exact he h

/-! ### Bytes and numbers -/

theorem ensures_byte (hlow : low ≤ reach) : Ensures low reach byte fun _ n => n = 1 := by
  intro ⟨rest, offset, size, ranOut⟩ result r' hr hrun
  cases rest with
  | nil =>
    cases hrun
    exact ⟨[], ⟨rfl, rfl, rfl⟩, Nat.le_trans hlow hr, Nat.le_refl _⟩
  | cons first rest =>
    cases hrun
    exact ⟨[first], ⟨rfl, rfl, rfl⟩, rfl⟩

theorem ensures_take (hlow : low ≤ reach) (count : Nat) (piece : Piece) :
    Ensures low reach (take count piece) fun bytes n => bytes.length = count ∧ n = count := by
  intro r result r' hr hrun
  change (if count ≤ r.rest.length then _ else _) = _ at hrun
  split at hrun
  · next hcount =>
    cases hrun
    have hlength : (r.rest.take count).length = count := List.length_take_of_le hcount
    exact ⟨r.rest.take count, ⟨(List.take_append_drop _ _).symm, by rw [hlength], rfl⟩, hlength,
      hlength⟩
  · cases hrun
    exact ⟨[], ⟨rfl, rfl, rfl⟩, Nat.le_trans hlow hr, Nat.le_refl _⟩

/-- An integer is written in no more bytes than it has been read from. -/
theorem ensures_int (hlow : low ≤ reach) :
    Ensures low reach int fun number n => (Bytes.ofInt number).length ≤ n := by
  refine .bind_offset fun start hstart => ?_
  have hlow : low ≤ start := Nat.le_trans hlow hstart
  refine (ensures_byte hlow).bind fun length one hone => ?_
  refine .guard hlow (Nat.le_refl _) fun hlength => ?_
  refine (ensures_take hlow _ _).bind fun bytes n hbytes => ensures_pure ?_
  obtain ⟨hbytes, rfl⟩ := hbytes
  have hpos : length.toNat ≠ 0 := fun h0 => hlength (.inl (UInt8.toNat_inj.1 h0))
  have hle : length.toNat ≤ 8 :=
    Nat.le_of_not_lt fun h => hlength (.inr (UInt8.lt_iff_toNat_lt.2 h))
  have hne : bytes ≠ [] := fun hnil => hpos (by rw [← hbytes, hnil]; rfl)
  have hdigits := Bytes.length_digits_le_length hne (by omega)
  rw [Bytes.length_ofInt]
  omega

theorem toNat_toInt_lt (number : Int64) : number.toInt.toNat < Bytes.limit := by
  have hlimit : Bytes.limit = 9223372036854775808 := rfl
  have hlt := number.toInt_lt
  omega

/-- An integer that is not negative is a number that is written in the same way. -/
theorem ofNat_toNat {number : Int64} (h : ¬ number < 0) :
    Bytes.ofNat number.toInt.toNat = Bytes.ofInt number := by
  have hpos : 0 ≤ number.toInt := by simpa [Int64.lt_iff_toInt_lt] using h
  rw [Bytes.ofNat]
  congr 1
  apply Int64.toInt_inj.1
  rw [toInt_ofNat (toNat_toInt_lt number), Int.toNat_of_nonneg hpos]

theorem ensures_count (hlow : low ≤ reach) :
    Ensures low reach count fun length n =>
      length < Bytes.limit ∧ (Bytes.ofNat length).length ≤ n := by
  intro r result r' hr hrun
  rw [run_count] at hrun
  cases hint : int.run.run r with
  | mk first walked =>
    rw [hint] at hrun
    obtain ⟨used, hwalks, hgood⟩ := ensures_int hlow r first walked hr hint
    cases first with
    | error fault =>
      cases hrun
      exact ⟨used, hwalks, hgood⟩
    | ok number =>
      dsimp only at hrun hgood
      split at hrun
      · cases hrun
        refine ⟨used, hwalks, Nat.le_trans hlow hr, ?_⟩
        rw [hwalks.offset]
        exact Nat.le_add_right _ _
      · next hcount =>
        cases hrun
        refine ⟨used, hwalks, toNat_toInt_lt number, ?_⟩
        rwa [ofNat_toNat fun h => hcount (.inl h)]

theorem ensures_int32 (hlow : low ≤ reach) (part : DecimalPart) :
    Ensures low reach (int32 part) fun number n => (Bytes.ofInt number.toInt64).length ≤ n := by
  refine .bind_offset fun start hstart => ?_
  have hlow : low ≤ start := Nat.le_trans hlow hstart
  refine (ensures_int hlow).bind fun number n hnumber => ?_
  refine .guard hlow (Nat.le_refl _) fun hrange => ensures_pure ?_
  have hsame : number.toInt32.toInt64 = number := by
    have h1 : (-2147483648 : Int64).toInt = -2147483648 := by decide
    have h2 : (2147483647 : Int64).toInt = 2147483647 := by decide
    rw [Int64.lt_iff_toInt_lt, Int64.lt_iff_toInt_lt, h1, h2] at hrange
    apply Int64.toInt_inj.1
    rw [Int32.toInt_toInt64, Int64.toInt_toInt32, Int.bmod_eq_of_le] <;> omega
  rwa [hsame]

/-! ### Texts and lists -/

theorem toString?_eq_some {bytes : List UInt8} {s : String} (h : Bytes.toString? bytes = some s) :
    s.utf8ByteSize = bytes.length := by
  rw [Bytes.toString?, String.fromUTF8?] at h
  split at h
  · cases h
    rfl
  · cases h

theorem ensures_string (hlow : low ≤ reach) :
    Ensures low reach string fun s n =>
      s.utf8ByteSize < Bytes.limit ∧ (Bytes.ofString s).length ≤ n := by
  refine (ensures_count hlow).bind fun length n hlength => .bind_offset fun start hstart => ?_
  have hlow : low ≤ start := Nat.le_trans hlow hstart
  refine (ensures_take hlow length .string).bind fun bytes taken hbytes => ?_
  obtain ⟨hlimit, hlength⟩ := hlength
  obtain ⟨hbytes, rfl⟩ := hbytes
  split
  · next s hs =>
    have hsize := toString?_eq_some hs
    rw [hbytes] at hsize
    refine ensures_pure ?_
    rw [length_ofString, hsize]
    exact ⟨hlimit, by omega⟩
  · exact ensures_throw hlow (Nat.le_refl _)

/-- What is good of each item is good of all, and their encodings are no longer than what was walked
over. -/
theorem Ensures.times {encode : A → List UInt8} {fine : A → Prop}
    (hd : Ensures low reach d fun x n => fine x ∧ (encode x).length ≤ n) (count : Nat) :
    Ensures low reach (times d count) fun xs n =>
      xs.length = count ∧ (∀ x ∈ xs, fine x) ∧ (xs.flatMap encode).length ≤ n := by
  induction count with
  | zero => exact ensures_pure ⟨rfl, fun _ hx => absurd hx List.not_mem_nil, Nat.le_refl _⟩
  | succ count ih =>
    refine hd.bind fun x n hx => ih.bind fun xs more hxs => ensures_pure ?_
    obtain ⟨rfl, hfine, hlength⟩ := hxs
    refine ⟨rfl, List.forall_mem_cons.2 ⟨hx.1, hfine⟩, ?_⟩
    rw [List.flatMap_cons, List.length_append]
    omega

theorem Ensures.counted (hlow : low ≤ reach) {encode : A → List UInt8} {fine : A → Prop}
    (hd : Ensures low reach d fun x n => fine x ∧ (encode x).length ≤ n) :
    Ensures low reach (Decoder.count >>= Decoder.times d) fun xs n =>
      (∀ x ∈ xs, fine x) ∧ xs.length < Bytes.limit ∧
        (Bytes.ofNat xs.length ++ xs.flatMap encode).length ≤ n := by
  refine (ensures_count hlow).bind fun count n hcount => (hd.times count).imp fun xs more hxs => ?_
  obtain ⟨rfl, hfine, hlength⟩ := hxs
  refine ⟨hfine, hcount.1, ?_⟩
  rw [List.length_append]
  omega

/-! ### Identifiers -/

theorem ensures_uid (hlow : low ≤ reach) :
    Ensures low reach uid fun u n => u.place < Bytes.limit ∧ u.encode.length ≤ n := by
  refine .bind_offset fun start hstart => ?_
  have hlow : low ≤ start := Nat.le_trans hlow hstart
  refine (ensures_int hlow).bind fun number n hnumber => ?_
  refine .guard hlow (Nat.le_refl _) fun hsign => ensures_pure ⟨toNat_toInt_lt number, ?_⟩
  rwa [Uid.encode, ofNat_toNat hsign]

theorem ensures_uidOption (hlow : low ≤ reach) :
    Ensures low reach uidOption fun u n =>
      (∀ v ∈ u, v.place < Bytes.limit) ∧ (Uid.encodeOption u).length ≤ n := by
  refine .bind_offset fun start hstart => ?_
  have hlow : low ≤ start := Nat.le_trans hlow hstart
  refine (ensures_int hlow).bind fun number n hnumber => ?_
  refine .ite (fun habsent => ensures_pure ⟨fun _ h => (nomatch h), ?_⟩) fun _ => ?_
  · rwa [Uid.encodeOption, Option.elim_none, ← habsent]
  · refine .guard hlow (Nat.le_refl _) fun hsign => ensures_pure ⟨?_, ?_⟩
    · rintro v ⟨⟩
      exact toNat_toInt_lt number
    · rwa [Uid.encodeOption, Option.elim_some, Uid.encode, ofNat_toNat hsign]

theorem ensures_uids (hlow : low ≤ reach) :
    Ensures low reach uids fun us n =>
      (∀ u ∈ us, u.place < Bytes.limit) ∧ us.length < Bytes.limit ∧
        (Uid.encodeList us).length ≤ n :=
  (ensures_uid hlow).counted hlow

/-! ### Values and fields -/

/-- The greatest number that is below the limit of integers. -/
def longest : Nat := Bytes.limit - 1

theorem le_longest {n : Nat} : n ≤ longest ↔ n < Bytes.limit := by
  have hlimit : Bytes.limit = 9223372036854775808 := rfl
  rw [longest]
  omega

theorem ensures_dataType (hlow : low ≤ reach) :
    Ensures low reach dataType fun _ n => 1 ≤ n := by
  refine .bind_offset fun start hstart => ?_
  have hlow : low ≤ start := Nat.le_trans hlow hstart
  refine (ensures_byte hlow).bind fun tag n hn => ?_
  split
  · exact ensures_pure (Nat.le_of_eq hn.symm)
  · exact ensures_throw hlow (Nat.le_refl _)

theorem ensures_value (hlow : low ≤ reach) :
    Ensures low reach value fun v n => v.counts.Within longest ∧ v.encode.length ≤ n := by
  refine .bind_offset fun start hstart => ?_
  have hlow : low ≤ start := Nat.le_trans hlow hstart
  refine (ensures_byte hlow).bind fun tag one hone => ?_
  subst hone
  refine .ite (fun _ => ensures_pure ⟨Counts.within_nil, Nat.le_refl _⟩) fun _ => ?_
  have hint {f : Int64 → Value} (hcounts : ∀ n, (f n).counts = [])
      (hbody : ∀ n, (f n).encodeBody = Bytes.ofInt n) :
      Ensures low start (do return f (← int)) fun v n =>
        v.counts.Within longest ∧ v.encode.length ≤ 1 + n := by
    refine (ensures_int hlow).bind fun number n hnumber => ensures_pure ⟨?_, ?_⟩
    · rw [hcounts]
      exact Counts.within_nil
    · rw [Value.encode, List.length_cons, hbody]
      omega
  split
  · exact ensures_throw hlow (Nat.le_refl _)
  · exact hint (fun _ => rfl) fun _ => rfl
  · refine (ensures_int hlow).bind fun mantissa n hmantissa => ?_
    refine (ensures_int32 hlow .precision).bind fun precision n' hprecision => ?_
    refine (ensures_int32 hlow .scale).bind fun scale n'' hscale => ensures_pure ?_
    refine ⟨Counts.within_nil, ?_⟩
    rw [Value.encode, List.length_cons, Value.encodeBody, List.length_append, List.length_append]
    dsimp only
    omega
  · refine (ensures_string hlow).bind fun s n hs => ensures_pure ⟨?_, ?_⟩
    · simpa [Value.counts] using le_longest.2 hs.1
    · rw [Value.encode, List.length_cons, Value.encodeBody]
      omega
  · exact hint (fun _ => rfl) fun _ => rfl
  · exact hint (fun _ => rfl) fun _ => rfl
  · refine (ensures_int hlow).bind fun number n hnumber => ?_
    have hboolean (b : Bool) (h : number = Int64.ofNat b.toNat) :
        (Value.boolean b).counts.Within longest ∧ (Value.boolean b).encode.length ≤ 1 + n := by
      rw [Value.encode, List.length_cons, Value.encodeBody, Bytes.ofNat, ← h]
      exact ⟨Counts.within_nil, by omega⟩
    refine .ite (fun hfalse => ensures_pure (hboolean false hfalse)) fun _ => ?_
    exact .ite (fun htrue => ensures_pure (hboolean true htrue)) fun _ =>
      ensures_throw hlow (Nat.le_refl _)

theorem ensures_field (hlow : low ≤ reach) :
    Ensures low reach field fun x n =>
      (x.1.place < Bytes.limit ∧ x.counts.Within longest) ∧ x.encode.length ≤ n := by
  refine (ensures_uid hlow).bind fun column n hcolumn => ?_
  refine (ensures_value hlow).bind fun held n' hheld => ensures_pure ⟨⟨hcolumn.1, ?_⟩, ?_⟩
  · exact Counts.within_behind.2 hheld.1
  · rw [Field.encode, List.length_append]
    dsimp only
    omega

theorem ensures_fields (hlow : low ≤ reach) :
    Ensures low reach fields fun xs n =>
      (∀ u ∈ xs.map Prod.fst, u.place < Bytes.limit) ∧
        (Field.countsOfList xs).Within longest ∧ (Field.encodeList xs).length ≤ n := by
  refine ((ensures_field hlow).counted hlow).imp fun xs n hxs => ?_
  obtain ⟨hxs, hlimit, hlength⟩ := hxs
  refine ⟨List.forall_mem_map.2 fun x hx => (hxs x hx).1, ?_, hlength⟩
  rw [Field.countsOfList, Counts.within_counted, Counts.within_ofItems]
  exact ⟨le_longest.2 hlimit, fun x hx => (hxs x hx).2⟩

/-! ### Objects -/

theorem ensures_alteredType (hlow : low ≤ reach) {object : Uid} (hobject : low ≤ object.place)
    (hreach : object.place ≤ reach) : Ensures low reach (alteredType object) fun _ n => n = 1 := by
  refine (ensures_byte hlow).bind fun tag n hn => ?_
  refine .ite (fun _ => ensures_pure hn) fun _ => ?_
  split
  · exact ensures_pure hn
  · exact ensures_throw hobject hreach

/-- What an object says behind its tag. -/
def Behind (object : LogObject) (n : Nat) : Prop :=
  (∀ u ∈ object.uids, u.place < Bytes.limit) ∧ object.countsOfBody.Within longest ∧
    object.encodeBody.length ≤ n

theorem ensures_body (hlow : low ≤ reach) {object : Uid} (hobject : low ≤ object.place)
    (hreach : object.place ≤ reach) (tag : UInt8) :
    Ensures low reach (body object tag) Behind := by
  have hstring := ensures_string hlow
  have huid := ensures_uid hlow
  have huidOption := ensures_uidOption hlow
  have huids := ensures_uids hlow
  have hfields := ensures_fields hlow
  unfold body
  split
  · refine hstring.bind fun name n hname => ensures_pure ⟨?_, ?_, ?_⟩
    · exact fun _ h => absurd h List.not_mem_nil
    · simpa [LogObject.countsOfBody] using le_longest.2 hname.1
    · exact hname.2
  · refine hstring.bind fun name n hname => (ensures_dataType hlow).bind fun type n' htype =>
      huid.bind fun table n'' htable => ensures_pure ⟨?_, ?_, ?_⟩
    · simpa [LogObject.uids] using htable.1
    · simpa [LogObject.countsOfBody] using le_longest.2 hname.1
    · rw [LogObject.encodeBody, List.length_append, List.length_cons]
      omega
  · refine huid.bind fun table n htable => hfields.bind fun fields n' hfields =>
      ensures_pure ⟨?_, ?_, ?_⟩
    · exact List.forall_mem_cons.2 ⟨htable.1, hfields.1⟩
    · exact Counts.within_behind.2 hfields.2.1
    · rw [LogObject.encodeBody, List.length_append]
      omega
  · refine huid.bind fun table n htable => hfields.bind fun fields n' hfields =>
      huid.bind fun row n'' hrow => ensures_pure ⟨?_, ?_, ?_⟩
    · exact List.forall_mem_cons.2 ⟨htable.1, List.forall_mem_cons.2 ⟨hrow.1, hfields.1⟩⟩
    · exact Counts.within_behind.2 hfields.2.1
    · rw [LogObject.encodeBody, List.length_append, List.length_append]
      omega
  · refine huid.bind fun table n htable => huid.bind fun row n' hrow => ensures_pure ⟨?_, ?_, ?_⟩
    · exact List.forall_mem_cons.2 ⟨htable.1, List.forall_mem_singleton.2 hrow.1⟩
    · exact Counts.within_nil
    · rw [LogObject.encodeBody, List.length_append]
      omega
  · refine huid.bind fun table n htable => huidOption.bind fun column n' hcolumn =>
      hstring.bind fun name n'' hname =>
        (ensures_alteredType hlow hobject hreach).bind fun type one hone =>
          ensures_pure ⟨?_, ?_, ?_⟩
    · simpa [LogObject.uids] using And.intro htable.1 hcolumn.1
    · simpa [LogObject.countsOfBody] using le_longest.2 hname.1
    · rw [LogObject.encodeBody, List.length_append, List.length_append, List.length_append,
        List.length_singleton]
      omega
  · refine huid.bind fun target n htarget => huidOption.bind fun parent n' hparent =>
      ensures_pure ⟨?_, ?_, ?_⟩
    · simpa [LogObject.uids] using And.intro htarget.1 hparent.1
    · exact Counts.within_nil
    · rw [LogObject.encodeBody, List.length_append]
      omega
  · refine huid.bind fun table n htable => (ensures_byte hlow).bind fun primary one hone =>
      huids.bind fun columns n' hcolumns => huidOption.bind fun references n'' hreferences =>
        ensures_pure ⟨?_, ?_, ?_⟩
    · simp only [LogObject.uids, List.cons_append, List.forall_mem_cons, List.forall_mem_append,
        Option.mem_toList]
      exact ⟨htable.1, hcolumns.1, hreferences.1⟩
    · simpa [LogObject.countsOfBody] using le_longest.2 hcolumns.2.1
    · rw [LogObject.encodeBody, List.length_append, List.length_cons, List.length_append]
      omega
  · refine huid.bind fun table n htable => huids.bind fun columns n' hcolumns =>
      ensures_pure ⟨?_, ?_, ?_⟩
    · exact List.forall_mem_cons.2 ⟨htable.1, hcolumns.1⟩
    · simpa [LogObject.countsOfBody] using le_longest.2 hcolumns.2.1
    · rw [LogObject.encodeBody, List.length_append]
      omega
  · exact ensures_throw hobject hreach

/-- An object that is read from a place can be written, in no more bytes, and every fault in it
stands behind that place. -/
theorem ensures_object (hlow : low ≤ reach) :
    Ensures low reach object fun x n => x.2.Writable ∧ x.2.encode.length ≤ n := by
  refine .bind_offset fun start hstart => ?_
  have hlow : low ≤ start := Nat.le_trans hlow hstart
  have hbody (tag : UInt8) : Ensures low start (body ⟨start⟩ tag) Behind :=
    ensures_body hlow hlow (Nat.le_refl start) tag
  refine (ensures_byte hlow).bind fun tag one hone => (hbody tag).bind fun object n h =>
    ensures_pure ⟨⟨h.1, ?_⟩, ?_⟩
  · exact fun c hc => le_longest.1 (Counts.within_behind.2 h.2.1 c hc)
  · have hlength := h.2.2
    rw [LogObject.encode, List.length_cons]
    dsimp only
    omega

end Decoder

end SnapshotStore
