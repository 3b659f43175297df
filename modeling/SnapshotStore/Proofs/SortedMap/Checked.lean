import SnapshotStore.Proofs.SortedMap.Proper
import SnapshotStore.Proofs.Success
import SnapshotStore.SortedMap.Check

/-!
# Well-built trees are those that pass the check

An ordered tree of well-sized buckets is what `Bucket.check` looks for, and the number that it finds
is the number of entries. A separator may be greater than all that is left of the child below it,
but some entry stands between two separators, and so they are apart and within bounds. The other way
round, whatever passes the check is in order between its bounds: each child was checked between the
separators on both sides of it.
-/

namespace SnapshotStore.Bucket

variable {K V : Type} {P : K → Prop} {b : Bucket K V} {slots : List (K × Bucket K V)}
  {last : Bucket K V} {total : Nat} {low high below : Option K}

theorem mem_slotsToList {slot : K × Bucket K V} (hslot : slot ∈ slots) {entry : K × V}
    (hentry : entry ∈ slot.2.toList) : entry ∈ slotsToList slots := by
  induction slots with
  | nil => exact absurd hslot List.not_mem_nil
  | cons first slots ih =>
    rw [slotsToList]
    rcases List.mem_cons.1 hslot with rfl | hslot
    · exact List.mem_append_left _ hentry
    · exact List.mem_append_right _ (ih hslot)

/-- The separator in front of what stands behind some slots. -/
def lastSeparator (below : Option K) (slots : List (K × Bucket K V)) : Option K :=
  slots.foldl (fun _ slot => some slot.1) below

theorem mem_lastSeparator {bound : K} (h : bound ∈ lastSeparator below slots) :
    bound ∈ below ∨ Mark.separator bound ∈ slotsMarks slots := by
  induction slots generalizing below with
  | nil => exact .inl h
  | cons slot slots ih =>
    refine .inr (List.mem_append_right _ ?_)
    rcases ih h with hself | hmark
    · cases hself
      exact List.mem_cons_self
    · exact List.mem_cons_of_mem _ hmark

theorem exists_lastSeparator (hsome : slots ≠ []) (below : Option K) :
    ∃ separator ∈ lastSeparator below slots, Mark.separator separator ∈ slotsMarks slots := by
  induction slots generalizing below with
  | nil => exact absurd rfl hsome
  | cons slot slots ih =>
    by_cases hnone : slots = []
    · subst hnone
      exact ⟨slot.1, rfl, List.mem_append_right _ List.mem_cons_self⟩
    · obtain ⟨separator, hlast, hmark⟩ := ih hnone (some slot.1)
      exact ⟨separator, hlast, List.mem_append_right _ (List.mem_cons_of_mem _ hmark)⟩

variable [Ord K]

/-- All of some entries are above a bound. -/
def Under (P : K → Prop) (low : Option K) (entries : List (K × V)) : Prop :=
  ∀ bound ∈ low, P bound ∧ ∀ entry ∈ entries, compare bound entry.1 = .lt

/-- Nothing on a walk is above a bound. -/
def Over (high : Option K) (marks : List (Mark K)) : Prop :=
  ∀ bound ∈ high, ∀ mark ∈ marks, (compare mark.key bound).isLE

theorem Under.mono {entries others : List (K × V)} (h : Under P low entries)
    (hsub : ∀ entry ∈ others, entry ∈ entries) : Under P low others := by
  intro bound hbound
  obtain ⟨hkey, hentries⟩ := h bound hbound
  exact ⟨hkey, fun entry hentry => hentries entry (hsub entry hentry)⟩

theorem Over.mono {marks others : List (Mark K)} (h : Over high marks)
    (hsub : ∀ mark ∈ others, mark ∈ marks) : Over high others :=
  fun bound hbound mark hmark => h bound hbound mark (hsub mark hmark)

theorem inBounds_eq_true {key : K} (hlow : ∀ bound ∈ low, compare key bound = .gt)
    (hhigh : ∀ bound ∈ high, (compare key bound).isLE) : inBounds low high key = true := by
  unfold inBounds
  cases low <;> cases high <;> simp_all

theorem ascending_eq_true {A : Type} {slots : List (K × A)}
    (h : slots.Pairwise fun a b => compare a.1 b.1 = .lt) : ascending slots = true := by
  fun_induction ascending slots with
  | case1 a b slots ih =>
    obtain ⟨hfirst, hrest⟩ := List.pairwise_cons.1 h
    rw [hfirst b List.mem_cons_self, ih hrest]
    rfl
  | case2 => rfl

/-! ### Separators -/

/-- What is below all entries of a child is below the separator above them. -/
theorem Ordered.lt_separator (hP : OrderedOn P) (h : (inner slots last total).Ordered P)
    {slot : K × Bucket K V} (hslot : slot ∈ slots) (hfilled : slot.2.Filled) {key : K}
    (hkey : P key) (hbelow : ∀ entry ∈ slot.2.toList, compare key entry.1 = .lt) :
    compare key slot.1 = .lt := by
  obtain ⟨entry, hentry⟩ := List.exists_mem_of_ne_nil _ hfilled.toList_ne_nil
  obtain ⟨place, hplace⟩ := List.getElem?_of_mem hslot
  have hmark := entry_mem_marks hentry
  have hentrykey : P entry.1 := (h.child hplace).keys _ hmark
  exact hP.lt_of_lt_of_isLE hkey hentrykey (h.slots_keys slot hslot) (hbelow entry hentry)
    (h.before_separator hslot hmark)

theorem Ordered.tail {slot : K × Bucket K V} (h : (inner (slot :: slots) last total).Ordered P) :
    (inner slots last total).Ordered P := by
  apply h.of_sublist
  simp only [marks, slotsMarks, List.append_assoc, List.cons_append]
  exact (List.sublist_cons_self _ _).trans (List.sublist_append_right _ _)

/-- The entries behind a separator are above it. -/
theorem Ordered.under_separator {slot : K × Bucket K V}
    (h : (inner (slot :: slots) last total).Ordered P) :
    Under P (some slot.1) (slotsToList slots ++ last.toList) := by
  intro bound hbound
  cases hbound
  refine ⟨h.slots_keys slot List.mem_cons_self, fun entry hentry => ?_⟩
  have hmark : Mark.entry entry.1 ∈ slotsMarks slots ++ last.marks := by
    rcases List.mem_append.1 hentry with hentry | hentry
    · exact List.mem_append_left _ (entry_mem_slotsMarks hentry)
    · exact List.mem_append_right _ (entry_mem_marks hentry)
  have hslot : (slot :: slots)[0]? = some (slot.1, slot.2) := rfl
  exact h.separator_before hslot hmark

theorem Ordered.pairwise_separators (hP : OrderedOn P) (h : (inner slots last total).Ordered P)
    (hfilled : ∀ slot ∈ slots, slot.2.Filled) :
    slots.Pairwise fun a b => compare a.1 b.1 = .lt := by
  induction slots with
  | nil => exact List.Pairwise.nil
  | cons slot slots ih =>
    obtain ⟨_, hrest⟩ := List.forall_mem_cons.1 hfilled
    refine List.pairwise_cons.2 ⟨fun later hlater => ?_, ih h.tail hrest⟩
    obtain ⟨hkey, hunder⟩ := h.under_separator slot.1 rfl
    apply h.tail.lt_separator hP hlater (hrest later hlater) hkey
    exact fun entry hentry => hunder entry (List.mem_append_left _ (mem_slotsToList hlater hentry))

/-! ### The check -/

theorem checkSlots_eq (hP : OrderedOn P) (h : (inner slots last total).Ordered P)
    (hfilled : ∀ slot ∈ slots, slot.2.Filled)
    (hcheck : ∀ slot ∈ slots, ∀ low high, Under P low slot.2.toList → Over high slot.2.marks →
      slot.2.check low high = .ok slot.2.toList.length)
    (hlow : Under P low (slotsToList slots)) (hbelow : Under P below (slotsToList slots))
    (hhigh : Over high (slotsMarks slots)) :
    checkSlots low high below slots =
      .ok (lastSeparator below slots, (slotsToList slots).length) := by
  induction slots generalizing below with
  | nil => rfl
  | cons slot slots ih =>
    obtain ⟨separator, child⟩ := slot
    obtain ⟨hchild, hrest⟩ := List.forall_mem_cons.1 hfilled
    obtain ⟨hcheckchild, hcheckrest⟩ := List.forall_mem_cons.1 hcheck
    have hseparator : inBounds low high separator = true := by
      apply inBounds_eq_true
      · intro bound hbound
        obtain ⟨hkey, hunder⟩ := hlow bound hbound
        rw [hP.gt_iff_lt (h.slots_keys _ List.mem_cons_self) hkey]
        exact h.lt_separator hP List.mem_cons_self hchild hkey fun entry hentry =>
          hunder entry (List.mem_append_left _ hentry)
      · exact fun bound hbound => hhigh bound hbound (.separator separator)
          (List.mem_append_right _ List.mem_cons_self)
    have hfound : child.check below (some separator) = .ok child.toList.length := by
      apply hcheckchild
      · exact hbelow.mono fun entry hentry => List.mem_append_left _ hentry
      · intro bound hbound mark hmark
        cases hbound
        exact h.before_separator List.mem_cons_self hmark
    have hslots := ih h.tail hrest hcheckrest
      (hlow.mono fun entry hentry => List.mem_append_right _ hentry)
      (h.under_separator.mono fun entry hentry => List.mem_append_left _ hentry)
      (hhigh.mono fun mark hmark => List.mem_append_right _ (List.mem_cons_of_mem _ hmark))
    simp [checkSlots, hseparator, hfound, hslots, slotsToList, lastSeparator]
    rfl

theorem Ordered.under_lastSeparator (h : (inner slots last total).Ordered P)
    (hbelow : Under P below (slotsToList slots ++ last.toList)) :
    Under P (lastSeparator below slots) last.toList := by
  induction slots generalizing below with
  | nil => exact hbelow
  | cons slot slots ih => exact ih h.tail h.under_separator

theorem Proper.check_eq (hP : OrderedOn P) (h : b.Proper) (hordered : b.Ordered P)
    (hlow : Under P low b.toList) (hhigh : Over high b.marks) :
    b.check low high = .ok b.toList.length := by
  induction h generalizing low high with
  | @of_leaf entries hsome hroom =>
    have hcount : ¬ (entries.length = 0 ∨ capacity < entries.length) := by
      have := List.length_pos_iff.2 hsome
      omega
    have hsorted : ascending entries = true := ascending_eq_true hordered.strictlyAscending
    have hbounds : (entries.all fun entry => inBounds low high entry.1) = true := by
      rw [List.all_eq_true]
      intro entry hentry
      apply inBounds_eq_true
      · intro bound hbound
        obtain ⟨hkey, hunder⟩ := hlow bound hbound
        rw [hP.gt_iff_lt (hordered.toList_keys entry hentry) hkey]
        exact hunder entry hentry
      · exact fun bound hbound => hhigh bound hbound _ (entry_mem_marks hentry)
    rw [check, if_neg hcount, hsorted, hbounds]
    rfl
  | @of_inner slots last total hsome hroom hslots hlast htotal ihslots ihlast =>
    have hcount : ¬ (slots.length = 0 ∨ capacity < slots.length) := by
      have := List.length_pos_iff.2 hsome
      omega
    have hfilled : ∀ slot ∈ slots, slot.2.Filled := fun slot hslot => (hslots slot hslot).filled
    have hsorted : ascending slots = true :=
      ascending_eq_true (hordered.pairwise_separators hP hfilled)
    have hcheck : ∀ slot ∈ slots, ∀ low high, Under P low slot.2.toList →
        Over high slot.2.marks → slot.2.check low high = .ok slot.2.toList.length := by
      intro slot hslot low high
      obtain ⟨place, hplace⟩ := List.getElem?_of_mem hslot
      exact ihslots slot hslot (hordered.child hplace)
    have hunder : Under P low (slotsToList slots) :=
      hlow.mono fun entry hentry => List.mem_append_left _ hentry
    have hfound : checkSlots low high low slots = _ :=
      checkSlots_eq hP hordered hfilled hcheck hunder hunder
        (hhigh.mono fun mark hmark => List.mem_append_left _ hmark)
    have hfoundlast := ihlast hordered.last_child (hordered.under_lastSeparator hlow)
      (hhigh.mono fun mark hmark => List.mem_append_right _ hmark)
    rw [toList, List.length_append] at htotal ⊢
    rw [check, if_neg hcount, hsorted, hfound, htotal]
    show (do
      let found := (slotsToList slots).length + (← last.check (lastSeparator low slots) high)
      if found = _ then _ else _) = _
    rw [hfoundlast]
    exact if_pos rfl

/-! ### What passes the check -/

theorem pairwise_of_ascending (hP : OrderedOn P) {A : Type} {slots : List (K × A)}
    (hkeys : ∀ slot ∈ slots, P slot.1) (h : ascending slots = true) :
    slots.Pairwise fun a b => compare a.1 b.1 = .lt := by
  fun_induction ascending slots with
  | case1 a b slots ih =>
    obtain ⟨ha, hrest⟩ := List.forall_mem_cons.1 hkeys
    rw [Bool.and_eq_true, Ordering.isLT_iff_eq_lt] at h
    have hsorted := ih hrest h.2
    refine List.pairwise_cons.2 ⟨fun slot hslot => ?_, hsorted⟩
    rcases List.mem_cons.1 hslot with rfl | hslot
    · exact h.1
    · exact hP.lt_trans ha (hrest b List.mem_cons_self) (hrest slot (List.mem_cons_of_mem _ hslot))
        h.1 ((List.pairwise_cons.1 hsorted).1 slot hslot)
  | case2 slots hshort =>
    match slots with
    | [] => exact .nil
    | [slot] => exact List.pairwise_singleton ..
    | a :: b :: slots => exact absurd rfl (hshort a b slots)

theorem of_inBounds (hP : OrderedOn P) {key : K} (hkey : P key) (hlow : ∀ bound ∈ low, P bound)
    (h : inBounds low high key = true) :
    (∀ bound ∈ low, compare bound key = .lt) ∧ ∀ bound ∈ high, (compare key bound).isLE := by
  rw [inBounds, Bool.and_eq_true, Option.all_eq_true, Option.all_eq_true] at h
  refine ⟨fun bound hbound => ?_, fun bound hbound => h.2 bound hbound⟩
  exact (hP.gt_iff_lt hkey (hlow bound hbound)).1 (Ordering.isGT_iff_eq_gt.1 (h.1 bound hbound))

/-- A bucket that is in order between its bounds, with its number of entries. -/
structure Accepted (b : Bucket K V) (P : K → Prop) (low high : Option K) (found : Nat) :
    Prop where
  proper : b.Proper
  ordered : b.Ordered P
  found_eq : found = b.toList.length
  under : ∀ bound ∈ low, ∀ mark ∈ b.marks, compare bound mark.key = .lt
  capped : Over high b.marks

/-- Children in order behind a bound, with the last separator and the number of entries. -/
structure AcceptedSlots (below : Option K) (slots : List (K × Bucket K V))
    (found : Option K × Nat) : Prop where
  proper : ∀ slot ∈ slots, slot.2.Proper
  sorted : (slotsMarks slots).Pairwise Mark.Before
  found_eq : found = (lastSeparator below slots, (slotsToList slots).length)
  under : ∀ bound ∈ below, ∀ mark ∈ slotsMarks slots, compare bound mark.key = .lt
  capped : Over (lastSeparator below slots) (slotsMarks slots)

/-- Some entry stands in a bucket that was accepted. -/
theorem Accepted.exists_mark {found : Nat} (h : b.Accepted P low high found) :
    ∃ mark ∈ b.marks, P mark.key := by
  obtain ⟨entry, hentry⟩ := List.exists_mem_of_ne_nil _ h.proper.filled.toList_ne_nil
  exact ⟨_, entry_mem_marks hentry, h.ordered.keys _ (entry_mem_marks hentry)⟩

theorem before_of_lt {a b : Mark K} (h : compare a.key b.key = .lt) : a.Before b := by
  cases b with
  | entry key => exact h
  | separator key => exact congrArg Ordering.isLE h

theorem accepted_leaf (hP : OrderedOn P) {entries : List (K × V)}
    (hkeys : ∀ mark ∈ (leaf entries).marks, P mark.key) (hlow : ∀ bound ∈ low, P bound)
    (hcount : ¬(entries.length = 0 ∨ capacity < entries.length))
    (hsorted : ascending entries = true)
    (hbounds : (entries.all fun entry => inBounds low high entry.1) = true) :
    (leaf entries).Accepted P low high entries.length := by
  have hentries : ∀ entry ∈ entries, P entry.1 := fun entry hentry =>
    hkeys _ (entry_mem_marks hentry)
  have hbounds : ∀ mark ∈ (leaf entries).marks, (∀ bound ∈ low, compare bound mark.key = .lt) ∧
      ∀ bound ∈ high, (compare mark.key bound).isLE := by
    intro mark hmark
    obtain ⟨entry, hentry, rfl⟩ := List.mem_map.1 hmark
    exact of_inBounds hP (hentries entry hentry) hlow (List.all_eq_true.1 hbounds entry hentry)
  rw [not_or, Nat.not_lt] at hcount
  exact {
    proper := .of_leaf (fun hnil => hcount.1 (by rw [hnil]; rfl)) hcount.2
    ordered := ⟨List.pairwise_map.2 (pairwise_of_ascending hP hentries hsorted), hkeys⟩
    found_eq := rfl
    under := fun bound hbound mark hmark => (hbounds mark hmark).1 bound hbound
    capped := fun bound hbound mark hmark => (hbounds mark hmark).2 bound hbound }

/-- One more child in front, between the bound and its separator. -/
theorem AcceptedSlots.cons (hP : OrderedOn P) {separator : K} {child : Bucket K V}
    {found : Nat} {behind : Option K × Nat} (hbelow : ∀ bound ∈ below, P bound)
    (hkeys : ∀ mark ∈ slotsMarks ((separator, child) :: slots), P mark.key)
    (hchild : child.Accepted P below (some separator) found)
    (h : AcceptedSlots (some separator) slots behind) :
    AcceptedSlots below ((separator, child) :: slots) (behind.1, found + behind.2) := by
  have hmark := List.forall_mem_append.1 hkeys
  have hkey : P separator := hmark.2 _ List.mem_cons_self
  have hrest := (List.forall_mem_cons.1 hmark.2).2
  have hbefore : ∀ mark ∈ slotsMarks slots, compare separator mark.key = .lt := h.under _ rfl
  have hover : ∀ mark ∈ child.marks, (compare mark.key separator).isLE := hchild.capped _ rfl
  have hlast : ∀ bound ∈ lastSeparator (some separator) slots,
      P bound ∧ (compare separator bound).isLE := by
    intro bound hbound
    rcases mem_lastSeparator hbound with hself | hmark
    · cases hself
      exact ⟨hkey, by rw [hP.refl hkey]; rfl⟩
    · exact ⟨hrest _ hmark, congrArg Ordering.isLE (hbefore _ hmark)⟩
  refine ⟨List.forall_mem_cons.2 ⟨hchild.proper, h.proper⟩, ?_, ?_, ?_, ?_⟩
  · refine List.pairwise_append.2 ⟨hchild.ordered.sorted, List.pairwise_cons.2
      ⟨fun mark hmark => before_of_lt (hbefore mark hmark), h.sorted⟩, fun a ha b hb => ?_⟩
    rcases List.mem_cons.1 hb with rfl | hb
    · exact hover a ha
    · exact before_of_lt
        (hP.lt_of_isLE_of_lt (hmark.1 a ha) hkey (hrest b hb) (hover a ha) (hbefore b hb))
  · rw [h.found_eq, hchild.found_eq, slotsToList, List.length_append]
    rfl
  · intro bound hbound
    obtain ⟨entry, hentry, hentrykey⟩ := hchild.exists_mark
    have hseparator : compare bound separator = .lt :=
      hP.lt_of_lt_of_isLE (hbelow bound hbound) hentrykey hkey (hchild.under bound hbound _ hentry)
        (hover _ hentry)
    refine List.forall_mem_append.2 ⟨hchild.under bound hbound, List.forall_mem_cons.2
      ⟨hseparator, fun mark hmark => ?_⟩⟩
    exact hP.lt_trans (hbelow bound hbound) hkey (hrest mark hmark) hseparator
      (hbefore mark hmark)
  · intro bound hbound
    obtain ⟨hboundkey, hle⟩ := hlast bound hbound
    refine List.forall_mem_append.2 ⟨fun mark hmarkchild => ?_, List.forall_mem_cons.2
      ⟨hle, h.capped bound hbound⟩⟩
    exact hP.isLE_trans (hmark.1 mark hmarkchild) hkey hboundkey (hover mark hmarkchild) hle

theorem accepted_inner (hP : OrderedOn P) {found : Nat} {behind : Option K × Nat}
    (hkeys : ∀ mark ∈ (inner slots last total).marks, P mark.key)
    (hlow : ∀ bound ∈ low, P bound) (hhigh : ∀ bound ∈ high, P bound)
    (hcount : ¬(slots.length = 0 ∨ capacity < slots.length))
    (hslots : AcceptedSlots low slots behind) (hlast : last.Accepted P behind.1 high found)
    (htotal : behind.2 + found = total) :
    (inner slots last total).Accepted P low high total := by
  rw [not_or, Nat.not_lt] at hcount
  have hsome : slots ≠ [] := fun hnil => hcount.1 (by rw [hnil]; rfl)
  rw [hslots.found_eq] at hlast htotal
  obtain ⟨separator, hseparator, hmem⟩ := exists_lastSeparator hsome low
  have hmark := List.forall_mem_append.1 hkeys
  have hkey : P separator := hmark.1 _ hmem
  have hover : ∀ mark ∈ slotsMarks slots, (compare mark.key separator).isLE :=
    hslots.capped separator hseparator
  have hbehind : ∀ mark ∈ last.marks, compare separator mark.key = .lt :=
    hlast.under separator hseparator
  refine ⟨.of_inner hsome hcount.2 hslots.proper hlast.proper ?_, ⟨?_, hkeys⟩, ?_, ?_, ?_⟩
  · rw [← htotal, hlast.found_eq, toList, List.length_append]
  · refine List.pairwise_append.2 ⟨hslots.sorted, hlast.ordered.sorted, fun a ha b hb => ?_⟩
    exact before_of_lt
      (hP.lt_of_isLE_of_lt (hmark.1 a ha) hkey (hmark.2 b hb) (hover a ha) (hbehind b hb))
  · rw [← htotal, hlast.found_eq, toList, List.length_append]
  · intro bound hbound
    refine List.forall_mem_append.2 ⟨hslots.under bound hbound, fun mark hlastmark => ?_⟩
    exact hP.lt_trans (hlow bound hbound) hkey (hmark.2 mark hlastmark)
      (hslots.under bound hbound _ hmem) (hbehind mark hlastmark)
  · intro bound hbound
    obtain ⟨entry, hentry, hentrykey⟩ := hlast.exists_mark
    refine List.forall_mem_append.2 ⟨fun mark hslotmark => ?_, hlast.capped bound hbound⟩
    have hbelow := hP.lt_of_isLE_of_lt (hmark.1 mark hslotmark) hkey hentrykey
      (hover mark hslotmark) (hbehind entry hentry)
    exact congrArg Ordering.isLE (hP.lt_of_lt_of_isLE (hmark.1 mark hslotmark) hentrykey
      (hhigh bound hbound) hbelow (hlast.capped bound hbound entry hentry))

mutual

/-- What passes the check is in order between its bounds, if the keys can be compared. -/
theorem accepted_of_check (hP : OrderedOn P) : (b : Bucket K V) → (low high : Option K) →
    (∀ bound ∈ low, P bound) → (∀ bound ∈ high, P bound) → (∀ mark ∈ b.marks, P mark.key) →
      ∀ {found : Nat}, b.check low high = .ok found → b.Accepted P low high found
  | leaf entries, low, high, hlow, hhigh, hkeys, found, h => by
    rw [check] at h
    split at h
    · cases h
    next hcount =>
    split at h
    · cases h
    next hsorted =>
    split at h
    · cases h
    next hbounds =>
    cases h
    rw [Bool.not_eq_true', Bool.not_eq_false] at hsorted hbounds
    exact accepted_leaf hP hkeys hlow hcount hsorted hbounds
  | inner slots last total, low, high, hlow, hhigh, hkeys, found, h => by
    rw [check] at h
    split at h
    · cases h
    next hcount =>
    split at h
    · cases h
    obtain ⟨behind, hslots, h⟩ := bind_eq_ok.1 h
    obtain ⟨more, hlast, h⟩ := bind_eq_ok.1 h
    dsimp only at h
    split at h
    · next htotal =>
      cases h
      have hmark := List.forall_mem_append.1 hkeys
      have haccepted := acceptedSlots_of_checkSlots hP slots low high low hlow hmark.1 hslots
      refine accepted_inner hP hkeys hlow hhigh hcount haccepted
        (accepted_of_check hP last behind.1 high ?_ hhigh hmark.2 hlast) htotal
      intro bound hbound
      rw [haccepted.found_eq] at hbound
      exact (mem_lastSeparator hbound).elim (hlow bound) (hmark.1 (.separator bound))
    · cases h

theorem acceptedSlots_of_checkSlots (hP : OrderedOn P) : (slots : List (K × Bucket K V)) →
    (low high below : Option K) → (∀ bound ∈ below, P bound) →
      (∀ mark ∈ slotsMarks slots, P mark.key) → ∀ {found : Option K × Nat},
        checkSlots low high below slots = .ok found → AcceptedSlots below slots found
  | [], low, high, below, hbelow, hkeys, found, h => by
    cases h
    exact ⟨nofun, .nil, rfl, fun _ _ => nofun, fun _ _ => nofun⟩
  | (separator, child) :: slots, low, high, below, hbelow, hkeys, found, h => by
    rw [checkSlots] at h
    split at h
    · cases h
    obtain ⟨foundchild, hchild, h⟩ := bind_eq_ok.1 h
    obtain ⟨behind, hslots, h⟩ := bind_eq_ok.1 h
    cases h
    have hmark := List.forall_mem_append.1 hkeys
    have hseparator : ∀ bound ∈ some separator, P bound := fun bound hbound => by
      cases hbound
      exact hmark.2 _ List.mem_cons_self
    exact .cons hP hbelow hkeys
      (accepted_of_check hP child below (some separator) hbelow hseparator hmark.1 hchild)
      (acceptedSlots_of_checkSlots hP slots low high (some separator) hseparator
        (List.forall_mem_cons.1 hmark.2).2 hslots)

end

end SnapshotStore.Bucket
