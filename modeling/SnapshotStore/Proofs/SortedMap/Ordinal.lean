import SnapshotStore.Proofs.SortedMap.Merge

/-!
# Cursors as ordinals

The entries of a map are numbered from 0 in the order of their keys, and a cursor amounts to such a
number, whatever the shape of the tree and however the cursor was come by: it shows the entry with
its number, moves by one, and is missing exactly where there is no entry. A search ends on the
number of keys that are below the one it is for.
-/

namespace SnapshotStore.SortedMap

variable {K V : Type}

/-- The cursor at a place shows the entry there and the place; without an entry there is none. -/
def Cursor.Shows (entries : List (K × V)) (place : Nat) (o : Option (Cursor K V)) : Prop :=
  (o.map fun c => (c.key, c.value, c.position)) =
    entries[place]?.map fun (key, value) => (key, value, place)

theorem Cursor.At.shows {entries : List (K × V)} {place : Nat} {counted : Prop}
    {o : Option (Cursor K V)} (h : At entries place counted o) (hcounted : counted) :
    Shows entries place o := by
  cases o with
  | none =>
    rw [Shows, List.getElem?_eq_none h]
    rfl
  | some c =>
    obtain ⟨hstands, rfl, hposition⟩ := h
    rw [Shows, hstands.getElem?, ← hposition hcounted]
    rfl

variable [Ord K] {P : K → Prop} {m : SortedMap K V} {key : K} {entries : List (K × V)}

/-- The cursors of a map: those that it starts on, those that a search ends on, and what moves lead
to from there. -/
inductive Reached (m : SortedMap K V) : Cursor K V → Prop where
  | first {c : Cursor K V} (h : m.first = some c) : Reached m c
  | last {c : Cursor K V} (h : m.last = some c) : Reached m c
  | seek {c : Cursor K V} (key : K) (h : m.seek key = some c) : Reached m c
  | next {c d : Cursor K V} (h : Reached m c) (hnext : c.next = some d) : Reached m d
  | previous {c d : Cursor K V} (h : Reached m c) (hprevious : c.previous = some d) : Reached m d

variable [Std.TransOrd K]

/-- A cursor of a map stands on one of its entries, and its position is the place of that one. -/
theorem Reached.stands (h : m.Holds entries) {c : Cursor K V} (hc : m.Reached c) :
    c.Stands entries ∧ c.position = c.earlier.length := by
  have hstart : ∀ {place : Nat} {o : Option (Cursor K V)} {c : Cursor K V},
      Cursor.At m.toList place m.Proper o → o = some c →
        c.Stands entries ∧ c.position = c.earlier.length := fun hat hsome => by
    subst hsome
    obtain ⟨hstands, hplace, hposition⟩ := hat
    exact ⟨h.toList ▸ hstands, (hposition h.proper).trans hplace.symm⟩
  induction hc with
  | first hc => exact hstart (Valid.at_first h.lawful _) hc
  | last hc => exact hstart (Valid.at_last h.lawful) hc
  | seek key hc => exact hstart (Valid.at_seek orderedOn_true trivial h.lawful) hc
  | next _ hnext ih =>
    obtain ⟨hstands, -, hposition⟩ := ih.1.of_next hnext
    exact ⟨hstands, hposition ih.2⟩
  | previous _ hprevious ih =>
    obtain ⟨hstands, -, hposition⟩ := ih.1.of_previous hprevious
    exact ⟨hstands, hposition ih.2⟩

/-- A map and its cursors, read off the list of its entries. -/
structure Ordinals (m : SortedMap K V) (entries : List (K × V)) : Prop where
  toList : m.toList = entries
  ascending : StrictlyAscending entries
  first : Cursor.Shows entries 0 m.first
  last : Cursor.Shows entries (entries.length - 1) m.last
  seek : ∀ key, Cursor.Shows entries
    (entries.countP fun entry => (compare entry.1 key).isLT) (m.seek key)
  here : ∀ c, m.Reached c → Cursor.Shows entries c.position (some c)
  next : ∀ c, m.Reached c → Cursor.Shows entries (c.position + 1) c.next
  previous : ∀ c, m.Reached c → if c.position = 0 then c.previous = none
    else Cursor.Shows entries (c.position - 1) c.previous

/-- Whatever operations a map is made by, its cursors are the ordinals of its entries. -/
theorem ordinals_of_assembled (h : Assembled m entries) : m.Ordinals entries := by
  have hholds := h.holds
  have hlawful := hholds.lawful
  have htoList := hholds.toList
  exact {
    toList := htoList
    ascending := htoList ▸ Valid.strictlyAscending hlawful
    first := htoList ▸ (Valid.at_first hlawful True).shows trivial
    last := htoList ▸ (Valid.at_last hlawful).shows hholds.proper
    seek := fun key =>
      htoList ▸ (Valid.at_seek orderedOn_true trivial hlawful).shows hholds.proper
    here := fun c hc => by
      obtain ⟨hstands, hposition⟩ := hc.stands hholds
      have hat : Cursor.At entries c.position True (some c) :=
        ⟨hstands, hposition.symm, fun _ => rfl⟩
      exact hat.shows trivial
    next := fun c hc => by
      obtain ⟨hstands, hposition⟩ := hc.stands hholds
      rw [hposition]
      exact hstands.next.shows hposition
    previous := fun c hc => by
      obtain ⟨hstands, hposition⟩ := hc.stands hholds
      rw [hposition]
      rcases hstands.previous with ⟨hzero, hnone⟩ | ⟨hpos, hat⟩
      · rw [if_pos hzero]
        exact hnone
      · rw [if_neg (Nat.ne_of_gt hpos)]
        exact hat.shows hposition }

/-- The first leaf has lost its greatest key 4, and the separator behind it still says 4: the search
for 4 goes down to that leaf and on to the next one. -/
theorem ordinals_of_assembled_past_leaf :
    ∃ m : SortedMap Nat String,
      m.Ordinals [(1, "a"), (2, "b"), (3, "c"), (5, "e"), (6, "f"), (7, "x"), (8, "h"), (9, "i"),
        (10, "j")] ∧
      (m.seek 4).map (fun c => (c.key, c.value, c.position)) = some (5, "e", 3) := by
  have hassembled := (((Assembled.made (Made.ofList [(1, "a"), (2, "b"), (3, "c"), (4, "d"),
    (5, "e"), (6, "f"), (7, "g"), (8, "h"), (9, "i")])).erase 4).merge
      (.made (.ofList [(10, "j"), (7, "x")])))
  have hordinals := ordinals_of_assembled hassembled
  exact ⟨_, hordinals, hordinals.seek 4⟩

end SnapshotStore.SortedMap
