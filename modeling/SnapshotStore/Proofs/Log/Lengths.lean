import SnapshotStore.Log.Encoding
import SnapshotStore.Proofs.Log.Integer

/-!
# Lengths in an object

The length of each text and of each list is written in front of it. No length exceeds the bytes that
it announces, so none exceeds the object that it stands in.
-/

namespace SnapshotStore

/-- The lengths that are written in some bytes, each with the place behind it. -/
abbrev Counts := List (Nat × Nat)

/-- The same lengths when other bytes stand in front. -/
def Counts.behind (length : Nat) (counts : Counts) : Counts :=
  counts.map fun (stop, count) => (length + stop, count)

/-- None of the lengths exceeds `length`. -/
def Counts.Within (counts : Counts) (length : Nat) : Prop := ∀ c ∈ counts, c.2 ≤ length

/-- A length and what follows it. -/
def Counts.counted (count : Nat) (counts : Counts) : Counts :=
  ((Bytes.ofNat count).length, count) :: counts.behind (Bytes.ofNat count).length

/-- The lengths in items written one behind the other. -/
def Counts.ofItems {A : Type} (encode : A → List UInt8) (counts : A → Counts) : List A → Counts
  | [] => []
  | item :: items => counts item ++ Counts.behind (encode item).length (ofItems encode counts items)

def Value.counts : Value → Counts
  | string s => Counts.behind 1 (.counted s.utf8ByteSize [])
  | _ => []

def Field.counts (field : Field) : Counts := field.2.counts.behind field.1.encode.length

def Field.countsOfList (fields : List Field) : Counts :=
  .counted fields.length (.ofItems Field.encode Field.counts fields)

namespace LogObject

/-- The lengths behind the tag of an object: those of texts and of lists. -/
def countsOfBody : LogObject → Counts
  | newTable name => .counted name.utf8ByteSize []
  | newColumn name _ _ => .counted name.utf8ByteSize []
  | record table fields => (Field.countsOfList fields).behind table.encode.length
  | update table fields _ => (Field.countsOfList fields).behind table.encode.length
  | delete _ _ => []
  | alter table column name _ =>
    (Counts.counted name.utf8ByteSize []).behind
      (table.encode.length + (Uid.encodeOption column).length)
  | drop _ _ => []
  | newIndex d => (Counts.counted d.columns.length []).behind (d.table.encode.length + 1)
  | dropIndex table columns => (Counts.counted columns.length []).behind table.encode.length

def counts (object : LogObject) : Counts := object.countsOfBody.behind 1

end LogObject

namespace Counts

variable {counts more : Counts} {length : Nat}

@[simp] theorem behind_nil : behind length [] = [] := rfl

@[simp] theorem ofItems_plain {A : Type} (encode : A → List UInt8) (items : List A) :
    ofItems encode (fun _ => []) items = [] := by
  induction items with
  | nil => rfl
  | cons item items ih => simp [ofItems, ih]

@[simp] theorem within_nil : Within [] length := fun _ h => absurd h List.not_mem_nil

@[simp] theorem within_append {n : Nat} :
    (counts ++ more).Within n ↔ counts.Within n ∧ more.Within n :=
  List.forall_mem_append

@[simp] theorem within_behind {n : Nat} : (counts.behind length).Within n ↔ counts.Within n :=
  List.forall_mem_map

@[simp] theorem within_counted {count n : Nat} :
    (counted count counts).Within n ↔ count ≤ n ∧ counts.Within n := by
  rw [counted, Within, List.forall_mem_cons]
  exact and_congr_right fun _ => within_behind

@[simp] theorem within_ofItems {A : Type} {encode : A → List UInt8} {inItem : A → Counts}
    {items : List A} :
    (ofItems encode inItem items).Within length ↔ ∀ item ∈ items, (inItem item).Within length := by
  induction items with
  | nil => simp [ofItems]
  | cons item items ih => simp [ofItems, ih]

theorem Within.mono {n : Nat} (h : counts.Within length) (hle : length ≤ n) : counts.Within n :=
  fun c hc => Nat.le_trans (h c hc) hle

end Counts

namespace Decoder

theorem length_ofString (s : String) :
    (Bytes.ofString s).length = (Bytes.ofNat s.utf8ByteSize).length + s.utf8ByteSize := by
  rw [Bytes.ofString, List.length_append]
  rfl

/-- A list whose items are written in at least one byte each is not longer than its bytes. -/
theorem length_le_flatMap {A : Type} (encode : A → List UInt8) (xs : List A)
    (hpos : ∀ x ∈ xs, 1 ≤ (encode x).length) : xs.length ≤ (xs.flatMap encode).length := by
  induction xs with
  | nil => exact Nat.le_refl _
  | cons x xs ih =>
    have hx := hpos x List.mem_cons_self
    have hxs := ih fun y hy => hpos y (List.mem_cons_of_mem x hy)
    rw [List.flatMap_cons, List.length_append, List.length_cons]
    omega

theorem length_le_length_flatMap {A : Type} (encode : A → List UInt8) {x : A} {xs : List A}
    (hx : x ∈ xs) : (encode x).length ≤ (xs.flatMap encode).length := by
  obtain ⟨before, after, rfl⟩ := List.append_of_mem hx
  rw [List.flatMap_append, List.flatMap_cons, List.length_append, List.length_append]
  omega

theorem within_string (s : String) :
    (Counts.counted s.utf8ByteSize []).Within (Bytes.ofString s).length := by
  simp [length_ofString]

theorem within_uids (us : List Uid) :
    (Counts.counted us.length []).Within (Uid.encodeList us).length := by
  have hlength := length_le_flatMap Uid.encode us fun u _ =>
    Nat.le_trans (by decide) (Bytes.two_le_length_ofInt _)
  rw [Uid.encodeList, List.length_append, Counts.within_counted]
  exact ⟨by omega, Counts.within_nil⟩

theorem within_value (v : Value) : v.counts.Within v.encode.length := by
  cases v with
  | string s =>
    rw [Value.counts, Value.encode, List.length_cons, Counts.within_behind]
    exact (within_string s).mono (Nat.le_succ _)
  | _ => exact Counts.within_nil

theorem one_le_length_field (field : Field) : 1 ≤ field.encode.length := by
  rw [Field.encode, List.length_append, Value.encode, List.length_cons]
  omega

theorem within_field (field : Field) : field.counts.Within field.encode.length := by
  rw [Field.counts, Counts.within_behind, Field.encode, List.length_append]
  exact (within_value field.2).mono (Nat.le_add_left _ _)

theorem within_fields (fields : List Field) :
    (Field.countsOfList fields).Within (Field.encodeList fields).length := by
  have hlength := length_le_flatMap Field.encode fields fun field _ => one_le_length_field field
  rw [Field.countsOfList, Field.encodeList, List.length_append, Counts.within_counted]
  refine ⟨by omega, Counts.within_ofItems.2 fun field hfield => (within_field field).mono ?_⟩
  exact Nat.le_add_left_of_le (length_le_length_flatMap Field.encode hfield)

/-- No length in an object exceeds the object. -/
theorem within_object (object : LogObject) : object.counts.Within object.encode.length := by
  have hbody : object.countsOfBody.Within object.encodeBody.length := by
    cases object with
    | newTable name => exact within_string name
    | newColumn name type table =>
      rw [LogObject.encodeBody, List.length_append]
      exact (within_string name).mono (Nat.le_add_right _ _)
    | record table fields =>
      rw [LogObject.countsOfBody, Counts.within_behind, LogObject.encodeBody, List.length_append]
      exact (within_fields fields).mono (Nat.le_add_left _ _)
    | update table fields row =>
      rw [LogObject.countsOfBody, Counts.within_behind, LogObject.encodeBody, List.length_append,
        List.length_append]
      exact (within_fields fields).mono (by omega)
    | delete | drop => exact Counts.within_nil
    | alter table column name type =>
      rw [LogObject.countsOfBody, Counts.within_behind, LogObject.encodeBody, List.length_append,
        List.length_append]
      exact (within_string name).mono (by omega)
    | newIndex definition =>
      rw [LogObject.countsOfBody, Counts.within_behind, LogObject.encodeBody, List.length_append,
        List.length_cons, List.length_append]
      exact (within_uids definition.columns).mono (by omega)
    | dropIndex table columns =>
      rw [LogObject.countsOfBody, Counts.within_behind, LogObject.encodeBody, List.length_append]
      exact (within_uids columns).mono (Nat.le_add_left _ _)
  rw [LogObject.counts, Counts.within_behind, LogObject.encode, List.length_cons]
  exact hbody.mono (Nat.le_succ _)

end Decoder

end SnapshotStore
