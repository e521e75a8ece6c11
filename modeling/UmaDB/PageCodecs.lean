import UmaDB.EventLeafCodec
import UmaDB.EventNodeCodecs
import UmaDB.FreeListCodecs

/-! # The seven page codecs

The laws of `Codec` for every node type, each derived from the node's layout lemma and its two
reader lemmas. The six length-prefixed codecs round-trip under any trailing bytes, refuse every
proper prefix of an encoding and accept nothing but encodings. The overflow node's data is the
rest of the page, so it round-trips exactly, and what it accepts is exactly an encoding. No
writer checks the `u16` limits, so a node beyond them is written without an error and never read
back. -/
namespace UmaDB

theorem event_leaf_round_trip (x : EventLeafNode) (hx : x.Encodable) (buf buf' : List UInt8)
    (n : ℕ) (hb : x.calcSerializedSize ≤ buf.length) (hs : x.serializeInto buf = .ok (buf', n))
    (t : List UInt8) : EventLeafNode.fromSlice (buf'.take n ++ t) = .ok x :=
  EventLeafNode.codec_layout.roundTrips EventLeafNode.decodesPrefix x hx buf buf' n hb hs t

/-- A leaf at position 7 with one inline event of type `"a"`, data `[1, 2]`, tag `"t"` and no
uuid, written into a zeroed buffer of its size and read back with two bytes of padding. -/
theorem event_leaf_round_trip_sample :
    EventLeafNode.Encodable ⟨[⟨7⟩], [.inline ⟨⟨[0x61], rfl⟩, [1, 2], [⟨[0x74], rfl⟩], none⟩]⟩ ∧
      EventLeafNode.serializeInto
          ⟨[⟨7⟩], [.inline ⟨⟨[0x61], rfl⟩, [1, 2], [⟨[0x74], rfl⟩], none⟩]⟩ (List.replicate 23 0) =
        .ok ([1, 0, 7, 0, 0, 0, 0, 0, 0, 0, 0, 1, 0, 0x61, 2, 0, 1, 2, 1, 0, 1, 0, 0x74], 23) ∧
      EventLeafNode.fromSlice
          (([1, 0, 7, 0, 0, 0, 0, 0, 0, 0, 0, 1, 0, 0x61, 2, 0, 1, 2, 1, 0, 1, 0, 0x74] : List UInt8).take
            23 ++ [9, 9]) =
        .ok ⟨[⟨7⟩], [.inline ⟨⟨[0x61], rfl⟩, [1, 2], [⟨[0x74], rfl⟩], none⟩]⟩ :=
  ⟨by decide, rfl,
    event_leaf_round_trip _ (by decide) (List.replicate 23 0) _ 23 (by decide) (by rfl) [9, 9]⟩

/-- Each writer stays in a buffer of at least `calc_serialized_size` bytes, returns that size and
leaves the bytes after it alone, and what it writes before it is the node's wire layout, whose
length is `calc_serialized_size`. -/
theorem serialize_into_in_bounds :
    (EventLeafNode.codec.WritesInBounds ∧ EventLeafNode.codec.Layout EventLeafNode.encode) ∧
      (EventInternalNode.codec.WritesInBounds ∧
        EventInternalNode.codec.Layout EventInternalNode.encode) ∧
      (EventOverflowNode.codec.WritesInBounds ∧
        EventOverflowNode.codec.Layout EventOverflowNode.encode) ∧
      (FreeListLeafNode.codec.WritesInBounds ∧
        FreeListLeafNode.codec.Layout FreeListLeafNode.encode) ∧
      (FreeListInternalNode.codec.WritesInBounds ∧
        FreeListInternalNode.codec.Layout FreeListInternalNode.encode) ∧
      (FreeListTsnLeafNode.codec.WritesInBounds ∧
        FreeListTsnLeafNode.codec.Layout FreeListTsnLeafNode.encode) ∧
      (FreeListTsnInternalNode.codec.WritesInBounds ∧
        FreeListTsnInternalNode.codec.Layout FreeListTsnInternalNode.encode) :=
  ⟨⟨EventLeafNode.codec_layout.writesInBounds, EventLeafNode.codec_layout⟩,
    ⟨EventInternalNode.codec_layout.writesInBounds, EventInternalNode.codec_layout⟩,
    ⟨EventOverflowNode.codec_layout.writesInBounds, EventOverflowNode.codec_layout⟩,
    ⟨FreeListLeafNode.codec_layout.writesInBounds, FreeListLeafNode.codec_layout⟩,
    ⟨FreeListInternalNode.codec_layout.writesInBounds, FreeListInternalNode.codec_layout⟩,
    ⟨FreeListTsnLeafNode.codec_layout.writesInBounds, FreeListTsnLeafNode.codec_layout⟩,
    ⟨FreeListTsnInternalNode.codec_layout.writesInBounds, FreeListTsnInternalNode.codec_layout⟩⟩

theorem other_codecs_round_trip :
    FreeListLeafNode.codec.RoundTrips FreeListLeafNode.Encodable ∧
      EventInternalNode.codec.RoundTrips EventInternalNode.Encodable ∧
      FreeListInternalNode.codec.RoundTrips InternalNode.CountsFit ∧
      FreeListTsnInternalNode.codec.RoundTrips InternalNode.CountsFit ∧
      FreeListTsnLeafNode.codec.RoundTrips FreeListTsnLeafNode.Encodable ∧
      ∀ (x : EventOverflowNode) (buf buf' : List UInt8) (n : ℕ),
        x.calcSerializedSize ≤ buf.length → x.serializeInto buf = .ok (buf', n) →
          EventOverflowNode.fromSlice (buf'.take n) = .ok x :=
  ⟨FreeListLeafNode.codec_layout.roundTrips FreeListLeafNode.decodesPrefix,
    EventInternalNode.codec_layout.roundTrips EventInternalNode.decodesPrefix,
    FreeListInternalNode.codec_layout.roundTrips FreeListInternalNode.decodesPrefix,
    FreeListTsnInternalNode.codec_layout.roundTrips FreeListTsnInternalNode.decodesPrefix,
    FreeListTsnLeafNode.codec_layout.roundTrips FreeListTsnLeafNode.decodesPrefix,
    fun x _ _ _ hb hs => by
      rw [(EventOverflowNode.codec_layout.written hb hs).1]
      exact EventOverflowNode.fromSlice_encode x⟩

theorem from_slice_total :
    EventLeafNode.codec.Total ∧ EventInternalNode.codec.Total ∧ EventOverflowNode.codec.Total ∧
      FreeListLeafNode.codec.Total ∧ FreeListInternalNode.codec.Total ∧
      FreeListTsnLeafNode.codec.Total ∧ FreeListTsnInternalNode.codec.Total :=
  ⟨EventLeafNode.parsesPrefix.total, EventInternalNode.parsesPrefix.total,
    fun s => (EventOverflowNode.fromSlice_parses s).elim .inr fun ⟨x, hx, _⟩ => .inl ⟨x, hx⟩,
    FreeListLeafNode.parsesPrefix.total, FreeListInternalNode.parsesPrefix.total,
    FreeListTsnLeafNode.parsesPrefix.total, FreeListTsnInternalNode.parsesPrefix.total⟩

theorem truncated_encodings_rejected :
    EventLeafNode.codec.RejectsTruncations EventLeafNode.Encodable ∧
      EventInternalNode.codec.RejectsTruncations EventInternalNode.Encodable ∧
      FreeListLeafNode.codec.RejectsTruncations FreeListLeafNode.Encodable ∧
      FreeListInternalNode.codec.RejectsTruncations InternalNode.CountsFit ∧
      FreeListTsnLeafNode.codec.RejectsTruncations FreeListTsnLeafNode.Encodable ∧
      FreeListTsnInternalNode.codec.RejectsTruncations InternalNode.CountsFit :=
  ⟨EventLeafNode.codec_layout.rejectsTruncations EventLeafNode.decodesPrefix,
    EventInternalNode.codec_layout.rejectsTruncations EventInternalNode.decodesPrefix,
    FreeListLeafNode.codec_layout.rejectsTruncations FreeListLeafNode.decodesPrefix,
    FreeListInternalNode.codec_layout.rejectsTruncations FreeListInternalNode.decodesPrefix,
    FreeListTsnLeafNode.codec_layout.rejectsTruncations FreeListTsnLeafNode.decodesPrefix,
    FreeListTsnInternalNode.codec_layout.rejectsTruncations FreeListTsnInternalNode.decodesPrefix⟩

/-- What the overflow node's reader accepts is exactly what its writer writes. -/
theorem EventOverflowNode.fromSlice_canonical {s : List UInt8} {x : EventOverflowNode}
    (h : EventOverflowNode.fromSlice s = .ok x) :
    x.calcSerializedSize = s.length ∧ ∀ buf, x.calcSerializedSize ≤ buf.length →
      ∃ buf', x.serializeInto buf = .ok (buf', x.calcSerializedSize) ∧
        buf'.take x.calcSerializedSize = s := by
  rcases EventOverflowNode.fromSlice_parses s with hr | ⟨y, hy, rfl⟩
  · exact absurd h (hr.not_ok x)
  obtain rfl : y = x := Except.ok.inj (hy.symm.trans h)
  have hl := EventOverflowNode.codec_layout
  have hsz : y.calcSerializedSize = y.encode.length := hl.size_eq y
  refine ⟨hsz, fun buf hb => ?_⟩
  rw [hsz] at hb ⊢
  exact ⟨_, hl.serialize_eq y buf hb, List.take_left _ _⟩

theorem from_slice_canonical :
    EventLeafNode.codec.Canonical EventLeafNode.Encodable ∧
      EventInternalNode.codec.Canonical EventInternalNode.Encodable ∧
      FreeListLeafNode.codec.Canonical FreeListLeafNode.Encodable ∧
      FreeListInternalNode.codec.Canonical InternalNode.CountsFit ∧
      FreeListTsnLeafNode.codec.Canonical FreeListTsnLeafNode.Encodable ∧
      FreeListTsnInternalNode.codec.Canonical InternalNode.CountsFit ∧
      (∀ (s : List UInt8) (x : EventOverflowNode), EventOverflowNode.fromSlice s = .ok x →
        x.calcSerializedSize = s.length ∧ ∀ buf, x.calcSerializedSize ≤ buf.length →
          ∃ buf', x.serializeInto buf = .ok (buf', x.calcSerializedSize) ∧
            buf'.take x.calcSerializedSize = s) ∧
      ∀ (s r : List UInt8) (o : ℕ) (b : UInt8), s.drop o = b :: r → 4 ≤ b.toNat →
        Rejects ((readFlags s).run o) :=
  ⟨EventLeafNode.codec_layout.canonical EventLeafNode.parsesPrefix,
    EventInternalNode.codec_layout.canonical EventInternalNode.parsesPrefix,
    FreeListLeafNode.codec_layout.canonical FreeListLeafNode.parsesPrefix,
    FreeListInternalNode.codec_layout.canonical FreeListInternalNode.parsesPrefix,
    FreeListTsnLeafNode.codec_layout.canonical FreeListTsnLeafNode.parsesPrefix,
    FreeListTsnInternalNode.codec_layout.canonical FreeListTsnInternalNode.parsesPrefix,
    fun _ _ h => EventOverflowNode.fromSlice_canonical h,
    fun _ _ _ _ h hb => readFlags_rejects_unknown h hb⟩

theorem serialize_into_injective :
    EventLeafNode.codec.Injective EventLeafNode.Encodable ∧
      EventInternalNode.codec.Injective EventInternalNode.Encodable ∧
      EventOverflowNode.codec.Injective (fun _ => True) ∧
      FreeListLeafNode.codec.Injective FreeListLeafNode.Encodable ∧
      FreeListInternalNode.codec.Injective InternalNode.CountsFit ∧
      FreeListTsnLeafNode.codec.Injective FreeListTsnLeafNode.Encodable ∧
      FreeListTsnInternalNode.codec.Injective InternalNode.CountsFit :=
  ⟨EventLeafNode.codec_layout.injective EventLeafNode.decodesPrefix,
    EventInternalNode.codec_layout.injective EventInternalNode.decodesPrefix,
    fun x y _ _ _ hx hy hs => by
      have he := EventOverflowNode.codec_layout.encode_eq hx hy hs
      have := EventOverflowNode.fromSlice_encode y
      rwa [← he, EventOverflowNode.fromSlice_encode x, Except.ok.injEq] at this,
    FreeListLeafNode.codec_layout.injective FreeListLeafNode.decodesPrefix,
    FreeListInternalNode.codec_layout.injective FreeListInternalNode.decodesPrefix,
    FreeListTsnLeafNode.codec_layout.injective FreeListTsnLeafNode.decodesPrefix,
    FreeListTsnInternalNode.codec_layout.injective FreeListTsnInternalNode.decodesPrefix⟩

/-- The writers do not check the `u16` limits, nor that an event internal node has one more child
than keys: such a node is written without an error, and no page ever reads back as it. -/
theorem unencodable_nodes_lost :
    EventLeafNode.codec.LosesOutside EventLeafNode.Encodable ∧
      EventInternalNode.codec.LosesOutside EventInternalNode.Encodable ∧
      FreeListLeafNode.codec.LosesOutside FreeListLeafNode.Encodable ∧
      FreeListInternalNode.codec.LosesOutside InternalNode.CountsFit ∧
      FreeListTsnLeafNode.codec.LosesOutside FreeListTsnLeafNode.Encodable ∧
      FreeListTsnInternalNode.codec.LosesOutside InternalNode.CountsFit :=
  ⟨EventLeafNode.codec_layout.losesOutside EventLeafNode.parsesPrefix,
    EventInternalNode.codec_layout.losesOutside EventInternalNode.parsesPrefix,
    FreeListLeafNode.codec_layout.losesOutside FreeListLeafNode.parsesPrefix,
    FreeListInternalNode.codec_layout.losesOutside FreeListInternalNode.parsesPrefix,
    FreeListTsnLeafNode.codec_layout.losesOutside FreeListTsnLeafNode.parsesPrefix,
    FreeListTsnInternalNode.codec_layout.losesOutside FreeListTsnInternalNode.parsesPrefix⟩

end UmaDB
