import UmaDB.Codec
import UmaDB.EventsTreeNodes

/-! # The event tree's overflow and internal node codecs

An overflow node is `next` and then the rest of the page: its reader takes the whole slice as the
data, so it round-trips exactly and not under a suffix. An internal node writes `keys_len`, the
keys and the child ids but not their count, which the reader takes to be `keys_len + 1`: what
round-trips is a node with one more child than keys. -/
namespace UmaDB

/-- An overflow node on the wire: `next`, then the data. -/
def EventOverflowNode.encode (n : EventOverflowNode) : List UInt8 := u64Bytes n.next.val ++ n.data

/-- The overflow node's `calc_serialized_size`, `serialize_into` and `from_slice`. -/
def EventOverflowNode.codec : Codec EventOverflowNode :=
  ⟨EventOverflowNode.calcSerializedSize, EventOverflowNode.serializeInto,
    EventOverflowNode.fromSlice⟩

namespace EventOverflowNode

theorem codec_layout : codec.Layout encode := by
  refine ⟨fun n => by simp [codec, calcSerializedSize, encode], fun n buf h => ?_⟩
  show serializeInto n buf = _
  rw [serializeInto, ← bind_assoc, ← Cursor.put_append,
    @Cursor.start_put buf (u64Bytes n.next.val ++ n.data) h]
  simp [calcSerializedSize, encode]

theorem sliceRange_eight {s : List UInt8} (h : ¬ s.length < 8) :
    sliceRange s 0 8 = .ok (s.take 8) := by
  rw [sliceRange, if_pos ⟨by omega, by omega⟩]
  rfl

/-- `from_slice` gives back the node from exactly its encoding. -/
theorem fromSlice_encode (n : EventOverflowNode) : fromSlice n.encode = .ok n := by
  have h8 : ¬ n.encode.length < 8 := by simp [encode]
  rw [fromSlice, if_neg h8, sliceRange_eight h8]
  simp [encode]

/-- `from_slice` refuses a slice shorter than `next`, and otherwise the slice is the encoding of
the node it returns. -/
theorem fromSlice_parses (s : List UInt8) :
    Rejects (fromSlice s) ∨ ∃ n, fromSlice s = .ok n ∧ n.encode = s := by
  unfold fromSlice
  refine check_parses (rejects_reject (by decide)) fun h8 => ?_
  rw [sliceRange_eight h8]
  refine .inr ⟨_, rfl, ?_⟩
  rw [encode, u64Bytes_readU64Value (by simp; omega), List.take_append_drop]

end EventOverflowNode

/-- An internal node on the wire: `keys_len`, the keys and the child ids, whose count is not
written. -/
def EventInternalNode.encode (n : EventInternalNode) : List UInt8 :=
  leBytes 2 n.keys.length ++ (n.keys.map Position.val).flatMap u64Bytes ++
    (n.childIds.map PageID.val).flatMap u64Bytes

/-- What round-trips: the key count fits its `u16`, and there is one more child than keys. -/
structure EventInternalNode.Encodable (n : EventInternalNode) : Prop where
  keys_fit : n.keys.length ≤ 65535
  childIds_length : n.childIds.length = n.keys.length + 1

instance EventInternalNode.decidableEncodable (n : EventInternalNode) :
    Decidable n.Encodable :=
  decidable_of_iff (n.keys.length ≤ 65535 ∧ n.childIds.length = n.keys.length + 1)
    ⟨fun ⟨a, b⟩ => ⟨a, b⟩, fun ⟨a, b⟩ => ⟨a, b⟩⟩

/-- The event internal node's `calc_serialized_size`, `serialize_into` and `from_slice`. -/
def EventInternalNode.codec : Codec EventInternalNode :=
  ⟨EventInternalNode.calcSerializedSize, EventInternalNode.serializeInto,
    EventInternalNode.fromSlice⟩

namespace EventInternalNode

theorem codec_layout : codec.Layout encode := by
  refine ⟨fun n => by simp [codec, calcSerializedSize, encode]; omega, fun n buf h => ?_⟩
  show serializeInto n buf = _
  rw [← start_put_pure h]
  simp only [serializeInto, encode, Cursor.foldlM_put (fun c key => rfl), Cursor.put_append,
    bind_assoc, List.flatMap_map]

theorem decodesPrefix : codec.DecodesPrefix encode Encodable := by
  intro n ⟨hk, hc⟩ s t hs
  show if _ then fromSlice s = _ else Rejects (fromSlice s)
  have he : n.encode.length = 2 + n.keys.length * 8 + (n.keys.length + 1) * 8 := by
    simp [encode, hc]
    omega
  rw [he]
  unfold fromSlice
  refine check_decodes (rejects_expected_two _) (fun _ => by omega) fun h2 => ?_
  have h0 := drop_of_isPrefix (leBytes 2 n.keys.length) 0 hs
    (by simp [encode, List.append_assoc]) (by simp; omega)
  rw [sliceRange_u16 h0 (Nat.zero_le _), except_ok_bind]
  dsimp only
  rw [ofLE_leBytes_of_lt (by omega)]
  refine check_decodes (rejects_expected_at_least _ _ _) (fun _ => by omega) fun h3 => ?_
  have hks := readU64sAt_of_drop _ (drop_of_isPrefix _ 2 hs
    (by rw [encode, List.append_assoc, List.drop_left' (length_leBytes 2 _)]
        exact List.prefix_append _ _)
    (by simp; omega))
  rw [List.length_map] at hks
  rw [hks, except_ok_bind]
  refine check_decodes (rejects_expected_at_least _ _ _) (fun _ => by omega) fun h4 => ?_
  have hcs := readU64sAt_of_drop _ (drop_of_isPrefix _ (2 + n.keys.length * 8) hs
    (by rw [encode, List.drop_left' (by simp)]) (by simp; omega))
  rw [List.length_map, hc] at hcs
  rw [if_pos (by omega), hcs]
  simp

theorem parsesPrefix : codec.ParsesPrefix encode Encodable := by
  intro s
  show Rejects (fromSlice s) ∨ ∃ x, fromSlice s = .ok x ∧ x.Encodable ∧ x.encode <+: s
  unfold fromSlice
  refine check_parses (rejects_expected_two _) fun h2 => ?_
  obtain ⟨hk, ht⟩ := take_two_ofLE s h2
  rw [sliceRange_header h2, except_ok_bind]
  dsimp only
  generalize ofLE (s.take 2) = k at hk ht ⊢
  refine check_parses (rejects_expected_at_least _ _ _) fun h3 => ?_
  obtain ⟨keys, hks, hkl, hkd⟩ := @readU64sAt_ok s k 2 (by omega)
  rw [hks, except_ok_bind]
  refine check_parses (rejects_expected_at_least _ _ _) fun h4 => ?_
  obtain ⟨cs, hcs, hcl, hcd⟩ := @readU64sAt_ok s (k + 1) (2 + k * 8) (by omega)
  rw [hcs, except_ok_bind]
  refine .inr ⟨_, rfl, ⟨by simp; omega, by simp; omega⟩, s.drop (2 + k * 8 + (k + 1) * 8), ?_⟩
  simp only [encode, List.length_map, List.map_map, Position.val_comp_mk, PageID.val_comp_mk,
    List.map_id, hkl, ht, List.append_assoc]
  rw [← hcd, ← hkd, List.take_append_drop]

end EventInternalNode

end UmaDB
