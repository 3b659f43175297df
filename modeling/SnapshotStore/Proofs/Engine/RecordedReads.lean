import SnapshotStore.Proofs.Engine.FirstCommitter
import SnapshotStore.Proofs.Snapshot.Versions

/-!
# Recorded reads hold when a transaction commits

A read records the row that it asks for, or the whole table, and nothing is ever taken out of the
record. A commit looks through the objects that were committed since its transaction began for one
that wrote a row the transaction has read, or any row of a table that it has read as a whole. If
there is none, the versions of all these rows are still what they were.
-/

namespace SnapshotStore

variable {name : String} {w : Session} {tx : Transaction} {s : Snapshot} {e : Engine}

/-! ### What a read records -/

theorem ReadSet.contains_insert (reads : ReadSet) (uid u : Uid) :
    (reads.insert uid).contains u = (decide (u = uid) || reads.contains u) := by
  rw [insert]
  split
  · next hthere =>
    by_cases hu : u = uid
    · rw [hu, hthere, Bool.or_true]
    · rw [decide_eq_false hu, Bool.false_or]
  · next hmissing =>
    rw [contains, contains, Bool.eq_iff_iff, Bool.or_eq_true, decide_eq_true_iff,
      List.contains_iff_mem, List.contains_iff_mem, List.mem_append, List.mem_cons,
      List.mem_filter, List.mem_filter, decide_eq_true_iff, decide_eq_true_iff]
    have hplace : u.place = uid.place → u = uid := fun h => by
      cases u
      cases uid
      cases h
      rfl
    constructor
    · rintro (⟨hu, _⟩ | hu | ⟨hu, _⟩)
      · exact .inr hu
      · exact .inl hu
      · exact .inr hu
    · rintro (hu | hu)
      · exact .inr (.inl hu)
      · rcases Nat.lt_trichotomy u.place uid.place with hlt | heq | hgt
        · exact .inl ⟨hu, hlt⟩
        · exact .inr (.inl (hplace heq))
        · exact .inr (.inr ⟨hu, hgt⟩)

namespace Transaction

variable {tx' : Transaction} {table row index uid : Uid}

/-- Between the two states of a transaction one more read is recorded. -/
def Records (tx tx' : Transaction) (uid : Uid) : Prop :=
  ∀ u, tx'.reads.contains u = (decide (u = uid) || tx.reads.contains u)

theorem records_noteRead (tx : Transaction) (uid : Uid) : tx.Records (tx.noteRead uid) uid :=
  tx.reads.contains_insert uid

theorem reads_of_add {object : LogObject} (h : tx.add object = .ok (uid, tx')) :
    tx'.reads = tx.reads := by
  obtain ⟨view, _, _, rfl⟩ := add_eq_ok.1 h
  rfl

/-- The read of a row records the row, also if there is none. -/
theorem records_of_readRow {found : Option Row} (h : tx.readRow table row = .ok (found, tx')) :
    found = tx.view.row? table row ∧ tx.Records tx' row := by
  obtain ⟨_, h⟩ := ensure_bind_eq_ok.1 h
  cases h
  exact ⟨rfl, tx.records_noteRead row⟩

theorem records_of_readTable {found : List Row} (h : tx.readTable table = .ok (found, tx')) :
    (∃ t, tx.view.table? table = some t ∧ found = t.rows.values) ∧ tx.Records tx' table := by
  obtain ⟨t, ht, h⟩ := orError_bind_eq_ok.1 h
  cases h
  exact ⟨⟨t, ht, rfl⟩, tx.records_noteRead table⟩

/-- The read of several rows by key, or of all, records their table; that of a single row records
the row, and one that finds nothing records nothing. -/
theorem records_of_readByKey {start : List Value} {found : List Row}
    (h : tx.readByKey index start = .ok (found, tx')) :
    ∃ x, tx.view.index? index = some x ∧
      found = (x.rows start).filterMap (tx.view.row? x.definition.table) ∧
      ((start = [] ∨ 2 ≤ (x.rows start).length) ∧ tx.Records tx' x.definition.table ∨
        start ≠ [] ∧ (∃ row, x.rows start = [row] ∧ tx.Records tx' row) ∨
        start ≠ [] ∧ x.rows start = [] ∧ tx' = tx) := by
  obtain ⟨x, hx, h⟩ := orError_bind_eq_ok.1 h
  cases h
  refine ⟨x, hx, rfl, ?_⟩
  generalize x.rows start = rows
  cases start with
  | nil => exact .inl ⟨.inl rfl, tx.records_noteRead _⟩
  | cons value start =>
    match rows with
    | [] => exact .inr (.inr ⟨List.cons_ne_nil _ _, rfl, rfl⟩)
    | [row] => exact .inr (.inl ⟨List.cons_ne_nil _ _, row, rfl, tx.records_noteRead row⟩)
    | _ :: _ :: _ =>
      exact .inl ⟨.inr (Nat.le_add_left 2 _), tx.records_noteRead _⟩

end Transaction

/-- What is recorded stays so. -/
theorem Changes.reads_mono {tx' : Transaction} {uid : Uid} (h : Changes tx tx')
    (hread : tx.reads.contains uid) : tx'.reads.contains uid := by
  have hmono : ∀ {noted : Uid}, tx.Records tx' noted → tx'.reads.contains uid := fun hrecords =>
    (hrecords uid).trans (by rw [hread, Bool.or_true])
  cases h with
  | add h => rwa [Transaction.reads_of_add h]
  | readRow h => exact hmono (Transaction.records_of_readRow h).2
  | readTable h => exact hmono (Transaction.records_of_readTable h).2
  | readByKey h =>
    obtain ⟨_, _, _, ⟨_, htable⟩ | ⟨_, row, _, hrow⟩ | ⟨_, _, rfl⟩⟩ :=
      Transaction.records_of_readByKey h
    · exact hmono htable
    · exact hmono hrow
    · exact hread

/-! ### What a commit makes of it -/

/-- An object that violates no read writes neither a row nor a table that was read. -/
theorem ReadSet.unread_of_written {reads : ReadSet} {object : LogObject} {uid row : Uid}
    (h : reads.violatedBy object uid = false) (hrow : object.row? uid = some row) :
    reads.contains row = false ∧
      ∀ table, object.table? = some table → reads.contains table = false := by
  rw [violatedBy, hrow] at h
  obtain ⟨hrow, htable⟩ := Bool.or_eq_false_iff.1 h
  refine ⟨hrow, fun table heq => ?_⟩
  rw [heq] at htable
  exact htable

theorem Changes.noteTable {table : Uid} {t : Table} (h : tx.view.table? table = some t) :
    Changes tx (tx.noteRead table) :=
  .readTable (orError_bind_eq_ok.2 ⟨t, h, rfl⟩)

theorem Changes.noteRow {table : Uid} {t : Table} (h : tx.view.table? table = some t) (row : Uid) :
    Changes tx (tx.noteRead row) :=
  .readRow (ensure_bind_eq_ok.2 ⟨Option.isSome_iff_exists.2 ⟨t, h⟩, rfl⟩)

namespace Consistent

variable {opened bytes : List UInt8} {handle : Handle} {u : Uid} {t latest : Table}

/-- A row that was read, by itself or with its whole table, has the same version as at the start. -/
theorem version_at_commit (h : Consistent name opened w handle bytes) (htx : tx ∈ w.transactions)
    (hcommit : w.engine.commit tx = (.ok s, e)) (hsteps : tx.steps ≠ [])
    (ht : tx.rollbackPoint.table? u = some t) (hlatest : handle.published.table? u = some latest)
    {row : Uid} (hread : tx.reads.contains u ∨ tx.reads.contains row) :
    latest.version? row = t.version? row := by
  have hbegun := (h.begun tx htx).1
  obtain ⟨hcheck, _⟩ := h.commit_ok htx hcommit hsteps
  refine (h.builds_since hbegun).version_eq (h.reflects _ hbegun).catalogued ht hlatest
    fun o ho hrow htable => ?_
  have hunviolated := (Transaction.checkAgainst_eq_ok.1 hcheck o ho).1
  obtain ⟨hrow, htables⟩ := ReadSet.unread_of_written hunviolated hrow
  rcases hread with hread | hread
  · rw [htables u htable] at hread
    cases hread
  · rw [hrow] at hread
    cases hread

end Consistent

/-- If a transaction can be committed with its steps, then each table that it has read as a whole
and each row that it has read has kept its versions since the transaction began, where the table is
there at both ends. -/
theorem recorded_reads_hold (h : Reachable name w) (htx : tx ∈ w.transactions)
    (hcommit : w.engine.commit tx = (.ok s, e)) (hsteps : tx.steps ≠ [])
    (hroom : w.engine.logLength name < Bytes.limit) :
    ∃ latest, w.engine.latest? name = some latest ∧ tx.rollbackPoint ∈ w.published ∧
      ∀ table t t', tx.rollbackPoint.table? table = some t → latest.table? table = some t' →
        (tx.reads.contains table →
          ∀ row, (t'.rows.get? row).map (·.version) = (t.rows.get? row).map (·.version)) ∧
        ∀ row, tx.reads.contains row →
          (t'.rows.get? row).map (·.version) = (t.rows.get? row).map (·.version) := by
  obtain ⟨opened, handle, bytes, hw⟩ := consistent_of_reachable h hroom
  refine ⟨handle.published, hw.latest?_eq, (hw.begun tx htx).1, fun table t t' ht ht' => ?_⟩
  exact ⟨fun hread row => hw.version_at_commit htx hcommit hsteps ht ht' (.inl hread),
    fun row hread => hw.version_at_commit htx hcommit hsteps ht ht' (.inr hread)⟩

/-- All rows of one table and a row that is missing there are read while another transaction inserts
a row into a second table. -/
theorem recorded_reads_hold_beside_insert :
    let one := (Session.fresh "db").settle "db" ((Snapshot.empty "db").begin.taking
      [.newTable "t", .newTable "u", .record (.provisional 0) []])
    let start := (one.engine.latest? "db").getD (.empty "db")
    let two := one.settle "db" (start.begin.taking [.record ⟨4⟩ []])
    let tx := ((start.begin.noteRead ⟨0⟩).noteRead ⟨99⟩).taking [.record ⟨4⟩ []]
    two.engine.logLength "db" < Bytes.limit ∧ two.committed.map (·.1.place) = [0, 4, 8, 13] ∧
      ∃ s e latest t t', two.engine.commit tx = (.ok s, e) ∧ two.engine.latest? "db" = some latest ∧
        start.table? ⟨0⟩ = some t ∧ latest.table? ⟨0⟩ = some t' ∧
        (t'.rows.get? ⟨8⟩).map (·.version) = (t.rows.get? ⟨8⟩).map (·.version) ∧
        (t'.rows.get? ⟨99⟩).map (·.version) = (t.rows.get? ⟨99⟩).map (·.version) := by
  intro one start two tx
  have hroom : two.engine.logLength "db" < Bytes.limit := by decide +kernel
  have hone : Run "db" (.fresh "db") one := Run.refl.settle List.mem_cons_self
    [.newTable "t", .newTable "u", .record (.provisional 0) []]
  have hstart : start ∈ one.published :=
    getD_latest_mem ⟨_, opened_fresh "db", hone⟩ (by decide +kernel) _
  have htwo : Run "db" (.fresh "db") two := hone.settle hstart [.record ⟨4⟩ []]
  have hbegun := htwo.step (.begin (Run.published_mono (Run.refl.settle hstart _) hstart))
  have hlive : (start.table? ⟨0⟩).isSome := by decide +kernel
  obtain ⟨t, ht⟩ := Option.isSome_iff_exists.1 hlive
  have hread : Run "db" (.fresh "db") { two with transactions := two.transactions ++
      [(start.begin.noteRead ⟨0⟩).noteRead ⟨99⟩] } :=
    (hbegun.step (.change rfl (.noteTable ht))).step (.change rfl (.noteRow ht ⟨99⟩))
  have hthree := hread.taking [.record ⟨4⟩ []]
  have hok : (two.engine.commit tx).1.isOk = true := by decide +kernel
  have hreads : tx.reads.contains ⟨0⟩ = true ∧ tx.reads.contains ⟨99⟩ = true := by decide +kernel
  have hsteps : tx.steps ≠ [] := by decide +kernel
  refine ⟨hroom, by decide +kernel, ?_⟩
  cases hcommit : two.engine.commit tx with
  | mk result e =>
    cases result with
    | error error =>
      rw [hcommit] at hok
      cases hok
    | ok s =>
      obtain ⟨latest, hlatest, _, hholds⟩ :=
        recorded_reads_hold ⟨_, opened_fresh "db", hthree⟩
          (List.mem_append_right _ List.mem_cons_self) hcommit hsteps hroom
      have hkept : ((two.engine.latest? "db").bind (·.table? ⟨0⟩)).isSome := by decide +kernel
      rw [hlatest, Option.bind_some] at hkept
      obtain ⟨t', ht'⟩ := Option.isSome_iff_exists.1 hkept
      rw [Transaction.rollbackPoint_taking] at hholds
      obtain ⟨hrows, hrow⟩ := hholds ⟨0⟩ t t' ht ht'
      exact ⟨s, e, latest, t, t', rfl, hlatest, ht, ht', hrows hreads.1 ⟨8⟩,
        hrow ⟨99⟩ hreads.2⟩

end SnapshotStore
