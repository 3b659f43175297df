import SnapshotStore.Proofs.Log.Mirrors

/-!
# The bytes of a log

A log of which nothing is lost stands for the bytes up to its end, wherever they are held. Appending
puts bytes behind them or leaves them as they are, and cutting back keeps the front of them; a file
goes on behind its log only once it could not be cut back.
-/

namespace SnapshotStore.Log

variable {log : Log} {disk : Disk} {bytes payload : List UInt8} {name : String}
  {first last length : Nat} {durability : Durability}

/-- The log is made of these bytes. -/
def Contains (log : Log) (disk : Disk) (bytes : List UInt8) : Prop :=
  bytes.length = log.length ∧ match log.backing with
    | .memory held => held = bytes
    | .file name => ∃ medium, disk name = some medium ∧ bytes = medium.bytes.take log.length ∧
        (log.unknownTail = false → medium.bytes = bytes)

theorem Contains.of_file {medium : Medium} (h : log.Contains disk bytes)
    (hbacking : log.backing = .file name) (hdisk : disk name = some medium) :
    bytes = medium.bytes.take log.length ∧ (log.unknownTail = false → medium.bytes = bytes) := by
  have hheld := h.2
  rw [hbacking] at hheld
  obtain ⟨found, hfound, hbytes⟩ := hheld
  cases hdisk.symm.trans hfound
  exact hbytes

theorem Contains.mirrors (h : log.Contains disk bytes) :
    log.Mirrors disk ⟨bytes, 0, log.unknownTail⟩ := by
  obtain ⟨backing, length, unknownTail⟩ := log
  obtain ⟨hlength, hheld⟩ := h
  cases hlength
  cases backing with
  | memory held =>
    cases hheld
    exact .memory bytes unknownTail
  | file name =>
    obtain ⟨medium, hmedium, htake, hexact⟩ := hheld
    dsimp only at htake hexact ⊢
    have hlong : bytes.length ≤ medium.bytes.length :=
      htake ▸ (List.take_prefix bytes.length medium.bytes).length_le
    have hcontent : Content.ofFile medium.bytes bytes.length unknownTail =
        ⟨bytes, 0, unknownTail⟩ := by
      rw [Content.ofFile, Nat.sub_eq_zero_of_le hlong, ← htake]
    exact hcontent ▸ .file hmedium fun htail => Nat.le_of_eq (congrArg _ (hexact htail))

theorem Mirrors.contains (h : log.Mirrors disk c) (hlost : c.lost = 0) :
    log.Contains disk c.bytes := by
  refine ⟨h.length_eq.symm, ?_⟩
  rw [Content.bytes_of_lost hlost]
  cases h with
  | memory => rfl
  | @file _ medium length unknownTail hmedium hend =>
    exact ⟨medium, hmedium, rfl, fun htail => (List.take_of_length_le (hend htail)).symm⟩

theorem contains_inMemory (disk : Disk) : inMemory.Contains disk [] := ⟨rfl, rfl⟩

theorem Contains.read (h : log.Contains disk bytes) (hfirst : first ≤ last)
    (hlast : last ≤ log.length) :
    log.read disk first last = .ok ((bytes.drop first).take (last - first)) := by
  rw [h.mirrors.read_eq, Content.read, Content.bytes_whole, h.1, if_neg (by omega)]
  exact if_pos (.inr (h.1 ▸ hlast))

theorem Contains.read_all (h : log.Contains disk bytes) :
    log.read disk 0 log.length = .ok bytes := by
  rw [h.read (Nat.zero_le _) (Nat.le_refl _), List.drop_zero, Nat.sub_zero,
    List.take_of_length_le (Nat.le_of_eq h.1)]

/-- Logs that are made of the same bytes are read alike. -/
theorem Contains.read_eq {log' : Log} {disk' : Disk} (h : log.Contains disk bytes)
    (h' : log'.Contains disk' bytes) (first last : Nat) :
    log'.read disk' first last = log.read disk first last :=
  (h'.mirrors.read_eq first last).trans (h.mirrors.read_eq first last).symm

/-- An append takes place as a whole or not at all. -/
theorem Contains.append (h : log.Contains disk bytes) {outcome : Outcome Nat}
    (houtcome : log.append disk payload durability = outcome) :
    outcome.log.path? = log.path? ∧
      (outcome.result = .ok (log.length + payload.length) ∧
          outcome.log.length = log.length + payload.length ∧
          outcome.log.Contains outcome.disk (bytes ++ payload) ∨
        (∃ error, outcome.result = .error error) ∧ outcome.log.length = log.length ∧
          outcome.log.Contains outcome.disk bytes) := by
  subst houtcome
  have happends := log.appends disk payload durability
  obtain ⟨hresult, hmirrors⟩ := h.mirrors.append happends
  have hcontains := hmirrors.contains ((Content.lost_appended ..).elim id id)
  refine ⟨happends.path?_eq, ?_⟩
  rcases Content.bytes_appended ⟨bytes, 0, log.unknownTail⟩ payload
      (log.appendFate disk payload durability) with ⟨hok, happended⟩ | ⟨herror, happended⟩
  · rw [happended, Content.bytes_whole] at hcontains
    refine .inl ⟨?_, ?_, hcontains⟩
    · rw [hresult, hok, Content.bytes_whole, h.1]
    · rw [← hcontains.1, List.length_append, h.1]
  · rw [happended, Content.bytes_whole] at hcontains
    exact .inr ⟨hresult ▸ herror, hcontains.1.symm.trans h.1, hcontains⟩

/-- A log opened in a file is made of all bytes of the file. -/
theorem contains_openFile {create : Bool} {disk' : Disk}
    (h : openFile disk name create = .ok (log, disk')) :
    log.path? = some name ∧ log.unknownTail = false ∧
      ∃ medium, disk' name = some medium ∧ log.Contains disk' medium.bytes := by
  rw [openFile] at h
  cases hmedium : disk name with
  | some medium =>
    rw [hmedium] at h
    cases h
    refine ⟨rfl, rfl, medium, hmedium, medium.length_bytes, medium, hmedium, ?_, fun _ => rfl⟩
    exact (List.take_of_length_le (Nat.le_of_eq medium.length_bytes)).symm
  | none =>
    rw [hmedium] at h
    dsimp only at h
    split at h
    · cases h
      exact ⟨rfl, rfl, .file [] [], Disk.set_same .., rfl, .file [] [], Disk.set_same .., rfl,
        fun _ => rfl⟩
    · cases h

/-- The file of a log is opened with what the log is made of, and with any bytes that stand behind.
-/
theorem Contains.openFile (h : log.Contains disk bytes) (hfile : log.path? = some name)
    (create : Bool) :
    ∃ opened more, Log.openFile disk name create = .ok (opened, disk) ∧
      opened.Contains disk (bytes ++ more) ∧ (log.unknownTail = false → more = []) := by
  obtain ⟨hlength, hheld⟩ := h
  rw [path?] at hfile
  split at hfile
  · cases hfile
  · next hbacking =>
    cases hfile
    rw [hbacking] at hheld
    obtain ⟨medium, hmedium, htake, hexact⟩ := hheld
    refine ⟨⟨.file name, medium.length, false⟩, medium.bytes.drop log.length,
      by rw [Log.openFile, hmedium], ?_, fun htail => ?_⟩
    · rw [htake, List.take_append_drop]
      exact ⟨medium.length_bytes, medium, hmedium,
        (List.take_of_length_le (Nat.le_of_eq medium.length_bytes)).symm, fun _ => rfl⟩
    · rw [hexact htail]
      exact List.drop_of_length_le (Nat.le_of_eq hlength)

theorem contains_of_truncate (h : log.Contains disk bytes) (hlength : length ≤ log.length)
    (hok : (log.truncate disk length).result = .ok ()) :
    (log.truncate disk length).log.Contains (log.truncate disk length).disk (bytes.take length) ∧
      (log.truncate disk length).log.path? = log.path? ∧
      (log.truncate disk length).log.length = length := by
  obtain ⟨hresult, hpath, hmirrors⟩ :=
    h.mirrors.truncate hlength (log.truncates disk length)
  cases hfate : log.truncateFate disk length with
  | undone | torn =>
    rw [hfate, hok] at hresult
    cases hresult
  | done =>
    rw [hfate] at hmirrors
    have hcontains := hmirrors.contains rfl
    rw [Content.truncated, Content.bytes_whole, Content.bytes_whole] at hcontains
    refine ⟨hcontains, hpath, hcontains.1.symm.trans ?_⟩
    rw [List.length_take, h.1, Nat.min_eq_left hlength]

end SnapshotStore.Log
