import SnapshotStore.Proofs.Log.Reading

/-!
# What the parts of an object take

Every decoder of the log format takes the bytes that it reads and no more, and an object takes at
least one.
-/

namespace SnapshotStore.Decoder

theorem takes_uid : Takes 2 uid := by
  refine takes_offset.bind_zero fun start => takes_int.bind_pure fun number => ?_
  exact Takes.guard fun _ => takes_pure _

theorem takes_uidOption : Takes 2 uidOption := by
  refine takes_offset.bind_zero fun start => takes_int.bind_pure fun number => ?_
  exact Takes.ite (takes_pure _) (Takes.guard fun _ => takes_pure _)

theorem takes_uids : Takes 2 uids := takes_counted (takes_uid.mono (by decide) : Takes (1 + 1) uid)

theorem takes_dataType : Takes 1 dataType := by
  refine takes_offset.bind_zero fun start => takes_byte.bind_pure fun tag => ?_
  split
  · exact takes_pure _
  · exact takes_throw _ 0

theorem takes_int32 (part : DecimalPart) : Takes 2 (int32 part) := by
  refine takes_offset.bind_zero fun start => takes_int.bind_pure fun number => ?_
  exact Takes.guard fun _ => takes_pure _

theorem takes_value : Takes 1 value := by
  refine takes_offset.bind_zero fun start => takes_byte.bind_pure fun tag => Takes.ite
    (takes_pure _) ?_
  have hint : Takes 0 int := takes_int.mono (Nat.zero_le _)
  split
  · exact takes_throw _ 0
  · exact hint.bind_zero fun _ => takes_pure _
  · refine hint.bind_zero fun mantissa => ?_
    refine ((takes_int32 _).mono (Nat.zero_le _)).bind_zero fun precision => ?_
    exact ((takes_int32 _).mono (Nat.zero_le _)).bind_zero fun scale => takes_pure _
  · exact (takes_string.mono (Nat.zero_le _)).bind_zero fun _ => takes_pure _
  · exact hint.bind_zero fun _ => takes_pure _
  · exact hint.bind_zero fun _ => takes_pure _
  · refine hint.bind_zero fun number => Takes.ite (takes_pure _)
      (Takes.ite (takes_pure _) (takes_throw _ 0))

theorem takes_field : Takes 2 field :=
  takes_uid.bind_pure fun _ => (takes_value.mono (Nat.zero_le _)).bind_zero fun _ => takes_pure _

theorem takes_fields : Takes 2 fields :=
  takes_counted (takes_field.mono (by decide) : Takes (1 + 1) field)

theorem takes_alteredType (object : Uid) : Takes 1 (alteredType object) := by
  refine takes_byte.bind_pure fun tag => Takes.ite (takes_pure _) ?_
  split
  · exact takes_pure _
  · exact takes_throw _ 0

theorem takes_body (object : Uid) (tag : UInt8) : Takes 0 (body object tag) := by
  have hstring : Takes 0 string := takes_string.mono (Nat.zero_le _)
  have huid : Takes 0 uid := takes_uid.mono (Nat.zero_le _)
  have huidOption : Takes 0 uidOption := takes_uidOption.mono (Nat.zero_le _)
  have huids : Takes 0 uids := takes_uids.mono (Nat.zero_le _)
  have hfields : Takes 0 fields := takes_fields.mono (Nat.zero_le _)
  have htype : Takes 0 dataType := takes_dataType.mono (Nat.zero_le _)
  have haltered : Takes 0 (alteredType object) := (takes_alteredType object).mono (Nat.zero_le _)
  have hbyte : Takes 0 byte := takes_byte.mono (Nat.zero_le _)
  unfold body
  split
  · exact hstring.bind_zero fun _ => takes_pure _
  · exact hstring.bind_zero fun _ => htype.bind_zero fun _ => huid.bind_zero fun _ => takes_pure _
  · exact huid.bind_zero fun _ => hfields.bind_zero fun _ => takes_pure _
  · exact huid.bind_zero fun _ => hfields.bind_zero fun _ => huid.bind_zero fun _ => takes_pure _
  · exact huid.bind_zero fun _ => huid.bind_zero fun _ => takes_pure _
  · refine huid.bind_zero fun _ => huidOption.bind_zero fun _ => hstring.bind_zero fun _ => ?_
    exact haltered.bind_zero fun _ => takes_pure _
  · exact huid.bind_zero fun _ => huidOption.bind_zero fun _ => takes_pure _
  · refine huid.bind_zero fun _ => hbyte.bind_zero fun _ => huids.bind_zero fun _ => ?_
    exact huidOption.bind_zero fun _ => takes_pure _
  · exact huid.bind_zero fun _ => huids.bind_zero fun _ => takes_pure _
  · exact takes_throw _ 0

theorem takes_object : Takes 1 object := by
  refine takes_offset.bind_zero fun start => takes_byte.bind_pure fun tag => ?_
  exact (takes_body _ tag).bind_zero fun _ => takes_pure _

end SnapshotStore.Decoder
