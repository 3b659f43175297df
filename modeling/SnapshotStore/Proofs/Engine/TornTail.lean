import SnapshotStore.Proofs.Engine.Opening
import SnapshotStore.Proofs.Log.Torn

/-!
# Opening a file after an append that was cut short

Behind a whole log the file holds the first bytes of one more object. If the read of that object
knows that it ran out of bytes, and the configuration allows it, the file is cut back to the log.
-/

namespace SnapshotStore

variable {name : String} {bytes : List UInt8} {objects : List Stored} {object : LogObject} {k : Nat}
  {s : Snapshot}

/-- A scan reads the whole objects and then fails at the torn one. -/
theorem Tiled.scan_torn {base : Nat} (h : Tiled base bytes objects)
    (huids : ∀ u ∈ object.uids, u.place < Bytes.limit)
    (hlimit : object.encode.length < Bytes.limit) (hpos : 0 < k) (hcut : k < object.encode.length) :
    ∃ fault torn,
      Scan.ofBytes (bytes ++ object.encode.take k) base = ⟨objects, some (fault, torn)⟩ ∧
        (torn = true ↔ object.counts.Fit k (bytes.length + k)) := by
  have htorn : (object.encode.take k).length = k := List.length_take_of_le (Nat.le_of_lt hcut)
  have hsize : (bytes ++ object.encode.take k).length = bytes.length + k := by
    rw [List.length_append, htorn]
  obtain ⟨left, hleft, hscan⟩ := h.scan_append (Nat.le_refl (bytes ++ object.encode.take k).length)
    (hsize ▸ Nat.le_add_right _ _) false
  obtain ⟨fault, r, hrun, hranOut⟩ :=
    (Decoder.tears_object huids hlimit : Decoder.Tears (base + bytes.length) (bytes.length + k)
      Decoder.object object.encode object.counts) k hcut (Nat.le_add_left _ _)
  refine ⟨fault, r.ranOut, ?_, hranOut⟩
  rw [htorn] at hleft
  obtain ⟨left, rfl⟩ : ∃ smaller, left = smaller + 1 := ⟨left - 1, by omega⟩
  have hdone : ∀ size, (⟨object.encode.take k, base + bytes.length, size, false⟩ : Reader).isDone =
      false := by
    intro size
    rw [Reader.isDone, Bool.eq_false_iff, Ne, List.isEmpty_iff_length_eq_zero]
    dsimp only
    omega
  rw [Scan.ofBytes, Reader.start, hscan, hsize, Scan.upTo, hdone, if_neg Bool.false_ne_true, hrun]
  simp

namespace Snapshot

/-- A log that is replayed to its end is tiled by its objects. -/
theorem tiled_of_replay_whole (h : replay name bytes false = .ok s) :
    ∃ objects, Tiled 0 bytes objects ∧ objects.foldlM extend (empty name) = .ok s ∧
      s.position = bytes.length := by
  obtain ⟨used, rest, hbytes, htiled, hend⟩ : ∃ used rest, bytes = used ++ rest ∧
    Tiled 0 used (Scan.ofBytes bytes 0).objects ∧
      ((Scan.ofBytes bytes 0).fault = none → rest = []) :=
    Tiled.of_scan (r := .start bytes 0) (Nat.le_refl bytes.length)
  obtain ⟨last, hlast, h⟩ := bind_eq_ok.1 h
  split at h
  · next hfault =>
    cases h
    rw [hend hfault, List.append_nil] at hbytes
    subst hbytes
    refine ⟨_, htiled, hlast, ?_⟩
    rw [position_extend htiled rfl hlast, Nat.zero_add]
  · cases h

/-- A torn object is left out where that is allowed, and it is known to be torn unless a length in
it exceeds the log. -/
theorem replay_torn (h : replay name bytes false = .ok s)
    (huids : ∀ u ∈ object.uids, u.place < Bytes.limit)
    (hlimit : object.encode.length < Bytes.limit) (hpos : 0 < k) (hcut : k < object.encode.length)
    (skipTorn : Bool) :
    ∃ fault, replay name (bytes ++ object.encode.take k) skipTorn =
      if skipTorn = true ∧ object.counts.Fit k (bytes.length + k) then .ok s
      else .error (.corruption (.unreadable fault)) := by
  obtain ⟨objects, htiled, hextend, _⟩ := tiled_of_replay_whole h
  obtain ⟨fault, torn, hscan, htorn⟩ := htiled.scan_torn huids hlimit hpos hcut
  refine ⟨fault, ?_⟩
  rw [replay, hscan, hextend]
  change (if (skipTorn && torn) = true then _ else _) = _
  simp only [Bool.and_eq_true, htorn]

end Snapshot

/-! ### Opening -/

variable {e : Engine} {config : Config} {outcomes : List ChangeOutcome} {torn : List UInt8}

/-- A file that goes on behind a whole log with the first bytes of an object is opened with the
snapshot of the log and cut back to it, if the configuration allows it, no length in front of the
cut exceeds the file and the file can be cut. Otherwise it is refused, and nothing has changed
unless the cut was tried. A file that is at least as long as the object has room for all of its
lengths. -/
theorem openFile_of_torn {k : Nat} (hclosed : e.handle? name = none)
    (hfile : e.disk name = some (.file (bytes ++ object.encode.take k) outcomes))
    (hdurability : config.durability ≠ .memory) (hreplay : Snapshot.replay name bytes false = .ok s)
    (hroom : bytes.length < Bytes.limit) (huids : ∀ u ∈ object.uids, u.place < Bytes.limit)
    (hlimit : object.encode.length < Bytes.limit) (hpos : 0 < k)
    (hcut : k < object.encode.length) :
    s.position = bytes.length ∧
      (config.truncateTornTail = true → object.counts.Fit k (bytes.length + k) →
        outcomes.headD .done = .done →
          ∃ e', e.openFile name config = .ok (s, e') ∧ e'.latest? name = some s ∧
            e'.disk = e.disk.set name (.file bytes outcomes.tail)) ∧
      (config.truncateTornTail = false ∨ ¬object.counts.Fit k (bytes.length + k) →
        ∃ fault, e.opening name config = (.error (.corruption (.unreadable fault)), e) ∧
          e.openFile name config = .error (.corruption (.unreadable fault))) ∧
      (object.encode.length ≤ bytes.length + k → object.counts.Fit k (bytes.length + k)) := by
  obtain ⟨_, _, _, hposition⟩ := Snapshot.tiled_of_replay_whole hreplay
  obtain ⟨fault, htorn⟩ :=
    Snapshot.replay_torn hreplay huids hlimit hpos hcut config.truncateTornTail
  have hopen := Handle.openFile_of_file hfile hdurability
  have hlonger : bytes.length < (bytes ++ object.encode.take k).length := by
    rw [List.length_append, List.length_take]
    omega
  have hrecovers := Handle.recovers_file hfile config
  rw [← hopen] at hrecovers
  refine ⟨hposition, fun htruncate hfit hdone => ?_, fun hrefused => ?_,
    (Decoder.within_object object).fit⟩
  · rw [if_pos ⟨htruncate, hfit⟩] at htorn
    generalize hopened : Handle.openFile name config e.disk = opened at hrecovers
    cases hrecovers with
    | refused hfound => cases htorn.symm.trans hfound
    | whole hfound hend =>
      cases htorn.symm.trans hfound
      omega
    | uncut hfound hreason =>
      cases htorn.symm.trans hfound
      rcases hreason with hlong | hundone
      · omega
      · cases hdone.symm.trans hundone
    | torn hfound _ htears => cases hdone.symm.trans htears
    | cut hfound =>
      cases htorn.symm.trans hfound
      rw [hposition, List.take_left] at hopened
      refine ⟨_, Engine.openFile_eq_ok.2
        ((Engine.opening_eq_ok hclosed).2 ⟨_, _, hopened, rfl, rfl⟩), ?_, rfl⟩
      rw [Engine.latest?, Engine.handle?_setHandle_self]
      rfl
  · have hnot : ¬(config.truncateTornTail = true ∧ object.counts.Fit k (bytes.length + k)) := by
      rintro ⟨htruncate, hfit⟩
      rcases hrefused with hkeep | hmiss
      · exact Bool.false_ne_true (hkeep.symm.trans htruncate)
      · exact hmiss hfit
    rw [if_neg hnot] at htorn
    generalize hopened : Handle.openFile name config e.disk = opened at hrecovers
    cases hrecovers with
    | whole hfound | uncut hfound | torn hfound | cut hfound => cases htorn.symm.trans hfound
    | refused hfound =>
      cases htorn.symm.trans hfound
      have hopening := Engine.opening_of_error hclosed hopened
      exact ⟨fault, hopening, by rw [Engine.openFile, hopening]; rfl⟩

/-- Behind a table of four bytes there is room for a length that is read in a torn object. -/
theorem openFile_of_torn_behind_table :
    let e : Engine := ⟨Disk.empty.set "f" (.file [9, 1, 1, 116, 9, 1, 5] []), []⟩
    ∃ s e', e.openFile "f" .default = .ok (s, e') ∧ s.position = 4 ∧ e'.latest? "f" = some s ∧
      e'.disk "f" = some (.file [9, 1, 1, 116] []) := by
  intro e
  have hfile : e.disk "f" =
      some (.file ([9, 1, 1, 116] ++ (LogObject.newTable "abcde").encode.take 3) []) := rfl
  have hdurability : Config.default.durability ≠ .memory := by decide
  obtain ⟨hposition, hopens, _, hfit⟩ :=
    openFile_of_torn rfl hfile hdurability rfl (by decide) (by decide) (by decide) (by decide)
      (by decide)
  obtain ⟨e', hopen, hlatest, hdisk⟩ := hopens rfl (by decide) rfl
  exact ⟨_, e', hopen, hposition, hlatest, by rw [hdisk]; rfl⟩

/-- A name of five bytes is announced in a file of three: the file is not cut back but refused. -/
theorem openFile_of_torn_refuses_count :
    let object := LogObject.newTable "abcde"
    let e : Engine := ⟨Disk.empty.set "f" (.file (object.encode.take 3) []), []⟩
    Snapshot.replay "f" [] false = .ok (.empty "f") ∧ 3 < object.encode.length ∧
      object.uids = [] ∧ Config.default.truncateTornTail = true ∧
      e.openFile "f" .default = .error (.corruption (.unreadable (.count 5 1))) :=
  ⟨rfl, by decide, rfl, rfl, rfl⟩

end SnapshotStore
