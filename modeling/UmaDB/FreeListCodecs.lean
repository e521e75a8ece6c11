import UmaDB.Codec
import UmaDB.FreeListsTreeNodes

/-! # The free-list tree's codecs

The free-list leaf has the event leaf's frame, with values made of `page_ids_len`, the page ids
and `root_id`. Both internal nodes write their child count, so a node round-trips whatever its two
counts are, as long as each fits its `u16`; their readers differ in where they check the bounds.
The TSN leaf is a counted run of page ids. -/
namespace UmaDB

/-- What round-trips in both free-list internal nodes: each count fits its `u16`. -/
structure InternalNode.CountsFit {K : Type} (n : InternalNode K) : Prop where
  keys_fit : n.keys.length ≤ 65535
  childIds_fit : n.childIds.length ≤ 65535

instance InternalNode.decidableCountsFit {K : Type} (n : InternalNode K) :
    Decidable n.CountsFit :=
  decidable_of_iff (n.keys.length ≤ 65535 ∧ n.childIds.length ≤ 65535)
    ⟨fun ⟨a, b⟩ => ⟨a, b⟩, fun ⟨a, b⟩ => ⟨a, b⟩⟩

/-- Where each field of `keysAndChildrenBytes` sits. -/
theorem keysAndChildrenBytes_windows (ks cs : List UInt64) :
    leBytes 2 ks.length <+: keysAndChildrenBytes ks cs ∧
    ks.flatMap u64Bytes <+: (keysAndChildrenBytes ks cs).drop 2 ∧
    leBytes 2 cs.length <+: (keysAndChildrenBytes ks cs).drop (2 + ks.length * 8) ∧
    cs.flatMap u64Bytes <+: (keysAndChildrenBytes ks cs).drop (2 + ks.length * 8 + 2) := by
  simp only [keysAndChildrenBytes, List.append_assoc]
  refine ⟨List.prefix_append _ _, ?_, ?_, ?_⟩
  · rw [List.drop_left' (by simp)]
    exact List.prefix_append _ _
  · rw [← List.append_assoc, List.drop_left' (by simp)]
    exact List.prefix_append _ _
  · rw [← List.append_assoc, ← List.append_assoc, List.drop_left' (by simp; omega)]

/-- A free-list value on the wire: `page_ids_len`, the page ids, `root_id`. -/
def FreeListLeafValue.encode (v : FreeListLeafValue) : List UInt8 :=
  leBytes 2 v.pageIds.length ++ (v.pageIds.map PageID.val).flatMap u64Bytes ++
    u64Bytes v.rootId.val

/-- A free-list leaf on the wire. -/
def FreeListLeafNode.encode (n : FreeListLeafNode) : List UInt8 :=
  leafBytes (n.keys.map Tsn.val) n.values FreeListLeafValue.encode

/-- What round-trips: one value per key, and every count within its `u16`. -/
structure FreeListLeafNode.Encodable (n : FreeListLeafNode) : Prop where
  keys_values : n.keys.length = n.values.length
  keys_fit : n.keys.length ≤ 65535
  pageIds_fit : ∀ v ∈ n.values, v.pageIds.length ≤ 65535

instance FreeListLeafNode.decidableEncodable (n : FreeListLeafNode) :
    Decidable n.Encodable :=
  decidable_of_iff (n.keys.length = n.values.length ∧ n.keys.length ≤ 65535 ∧
      ∀ v ∈ n.values, v.pageIds.length ≤ 65535)
    ⟨fun ⟨a, b, c⟩ => ⟨a, b, c⟩, fun ⟨a, b, c⟩ => ⟨a, b, c⟩⟩

/-- The free-list leaf's `calc_serialized_size`, `serialize_into` and `from_slice`. -/
def FreeListLeafNode.codec : Codec FreeListLeafNode :=
  ⟨FreeListLeafNode.calcSerializedSize, FreeListLeafNode.serializeInto,
    FreeListLeafNode.fromSlice⟩

namespace FreeListLeafNode

theorem valueSize_eq (total : ℕ) (v : FreeListLeafValue) :
    total + 2 + v.pageIds.length * 8 + 8 = total + v.encode.length := by
  simp [FreeListLeafValue.encode]
  omega

theorem writeValue_eq (c : Cursor) (v : FreeListLeafValue) : writeValue c v = c.put v.encode := by
  simp only [writeValue, FreeListLeafValue.encode, Cursor.foldlM_put (fun c pageId => rfl),
    Cursor.put_append, bind_assoc, List.flatMap_map]

theorem codec_layout : codec.Layout encode :=
  ⟨fun n => by
    show n.calcSerializedSize = _
    rw [calcSerializedSize, foldl_eq_add_length valueSize_eq, encode, length_leafBytes,
      List.length_map],
    fun n buf h => (writeLeaf_eq writeValue_eq buf _ _).trans (start_put_pure h)⟩

theorem readValue_decodes {v : FreeListLeafValue} (hv : v.pageIds.length ≤ 65535) :
    Decodes readValue v v.encode := by
  have hp := @readU64s_decodes "Unexpected end of data while reading page_ids" (by decide)
    (v.pageIds.map PageID.val)
  rw [List.length_map] at hp
  refine Decodes.of_eq ?_ (show FreeListLeafValue.mk ((v.pageIds.map PageID.val).map PageID.mk)
    ⟨v.rootId.val⟩ = v by simp)
  unfold readValue
  simp only [FreeListLeafValue.encode, List.append_assoc]
  exact (readU16_decodes (by decide) hv).bind
    (hp.bind ((readU64_decodes (by decide) v.rootId.val).bind_pure _))

theorem readValue_parses :
    Parses readValue fun v e => v.pageIds.length ≤ 65535 ∧ e = v.encode :=
  (readU16_parses (by decide)).bind fun _ e₁ ⟨hn, he₁⟩ =>
    (readU64s_parses (by decide) _).bind fun ks e₂ ⟨hl, he₂⟩ =>
      (readU64_parses (by decide)).bind fun _ e₃ he₃ => Parses.pure (by
        subst he₁ he₂ he₃ hl
        exact ⟨by simpa using hn, by simp [FreeListLeafValue.encode]⟩)

theorem decodesPrefix : codec.DecodesPrefix encode Encodable := by
  intro n hn s t hs
  have h : if n.encode.length ≤ s.length then
      readLeaf s (readValue s) = .ok (n.keys.map Tsn.val, n.values)
      else Rejects (readLeaf s (readValue s)) :=
    readLeaf_decodes (by simpa using hn.keys_values) (by simpa using hn.keys_fit)
      (fun v hv => readValue_decodes (hn.pageIds_fit v hv)) hs
  show if _ then fromSlice s = _ else Rejects (fromSlice s)
  unfold fromSlice
  split_ifs at h ⊢
  · rw [h]
    simp
  · exact h.bind _

theorem parsesPrefix : codec.ParsesPrefix encode Encodable := by
  intro s
  rcases readLeaf_parses readValue_parses s with h | ⟨keys, values, h, hl, hk, hP, hpre⟩
  · exact .inl (h.bind _)
  · refine .inr ⟨⟨keys.map Tsn.mk, values⟩, by show fromSlice s = _; rw [fromSlice, h]; rfl,
      ⟨by simpa using hl, by simpa using hk, hP⟩, by simpa [encode] using hpre⟩

end FreeListLeafNode

/-- A free-list internal node on the wire. -/
def FreeListInternalNode.encode (n : FreeListInternalNode) : List UInt8 :=
  keysAndChildrenBytes (n.keys.map Tsn.val) (n.childIds.map PageID.val)

/-- The free-list internal node's `calc_serialized_size`, `serialize_into` and `from_slice`. -/
def FreeListInternalNode.codec : Codec FreeListInternalNode :=
  ⟨FreeListInternalNode.calcSerializedSize, FreeListInternalNode.serializeInto,
    FreeListInternalNode.fromSlice⟩

namespace FreeListInternalNode

theorem codec_layout : codec.Layout encode :=
  ⟨fun n => by simp [codec, calcSerializedSize, encode, length_keysAndChildrenBytes],
    fun n buf h => (writeKeysAndChildren_eq buf _ _).trans (start_put_pure h)⟩

theorem decodesPrefix : codec.DecodesPrefix encode InternalNode.CountsFit := by
  intro n ⟨hk, hc⟩ s t hs
  show if _ then fromSlice s = _ else Rejects (fromSlice s)
  obtain ⟨w0, w1, w2, w3⟩ :=
    keysAndChildrenBytes_windows (n.keys.map Tsn.val) (n.childIds.map PageID.val)
  simp only [List.length_map] at w0 w2 w3
  rw [encode, length_keysAndChildrenBytes, List.length_map, List.length_map]
  unfold fromSlice
  refine check_decodes (rejects_expected_two _) (fun _ => by omega) fun h2 => ?_
  rw [sliceRange_u16_of_isPrefix 0 hs w0 (by omega), except_ok_bind]
  dsimp only
  rw [ofLE_leBytes_of_lt (by omega)]
  refine check_decodes (rejects_expected_at_least _ _ _) (fun _ => by omega) fun h3 => ?_
  have hks := readU64sAt_of_isPrefix _ 2 hs w1 (by simp; omega)
  rw [List.length_map] at hks
  rw [hks, except_ok_bind]
  refine check_decodes (rejects_reject (by decide)) (fun _ => by omega) fun h4 => ?_
  rw [sliceRange_u16_of_isPrefix _ hs w2 (by omega), except_ok_bind, ofLE_leBytes_of_lt (by omega)]
  refine check_decodes (rejects_expected_at_least _ _ _) (fun _ => by omega) fun h5 => ?_
  have hcs := readU64sAt_of_isPrefix _ _ hs w3 (by simp; omega)
  rw [List.length_map] at hcs
  rw [if_pos (by omega), hcs]
  simp

theorem parsesPrefix : codec.ParsesPrefix encode InternalNode.CountsFit := by
  intro s
  show Rejects (fromSlice s) ∨ ∃ x, fromSlice s = .ok x ∧ _ ∧ _
  unfold fromSlice
  refine check_parses (rejects_expected_two _) fun h2 => ?_
  obtain ⟨hr0, hk, hd0⟩ := sliceRange_u16_ok s 0 (by omega)
  rw [hr0, except_ok_bind]
  dsimp only
  generalize ofLE ((s.drop 0).take 2) = k at hk hd0 ⊢
  refine check_parses (rejects_expected_at_least _ _ _) fun h3 => ?_
  obtain ⟨keys, hks, hkl, hkd⟩ := @readU64sAt_ok s k 2 (by omega)
  rw [hks, except_ok_bind]
  refine check_parses (rejects_reject (by decide)) fun h4 => ?_
  obtain ⟨hr1, hc, hd1⟩ := sliceRange_u16_ok s (2 + k * 8) (by omega)
  rw [hr1, except_ok_bind]
  generalize ofLE ((s.drop (2 + k * 8)).take 2) = c at hc hd1 ⊢
  refine check_parses (rejects_expected_at_least _ _ _) fun h5 => ?_
  obtain ⟨cs, hcs, hcl, hcd⟩ := @readU64sAt_ok s c (2 + k * 8 + 2) (by omega)
  rw [hcs, except_ok_bind]
  refine .inr ⟨_, rfl, ⟨by simp; omega, by simp; omega⟩, s.drop (2 + k * 8 + 2 + c * 8), ?_⟩
  simp only [encode, keysAndChildrenBytes, List.length_map, List.map_map, Tsn.val_comp_mk,
    PageID.val_comp_mk, List.map_id, hkl, hcl, List.append_assoc]
  rw [← hcd, ← hd1, ← hkd, ← hd0]
  rfl

end FreeListInternalNode

/-- A TSN leaf on the wire: `page_ids_len`, then the page ids. -/
def FreeListTsnLeafNode.encode (n : FreeListTsnLeafNode) : List UInt8 :=
  leBytes 2 n.pageIds.length ++ (n.pageIds.map PageID.val).flatMap u64Bytes

/-- What round-trips: the page count fits its `u16`. -/
structure FreeListTsnLeafNode.Encodable (n : FreeListTsnLeafNode) : Prop where
  pageIds_fit : n.pageIds.length ≤ 65535

instance FreeListTsnLeafNode.decidableEncodable (n : FreeListTsnLeafNode) :
    Decidable n.Encodable :=
  decidable_of_iff (n.pageIds.length ≤ 65535) ⟨fun h => ⟨h⟩, fun ⟨h⟩ => h⟩

/-- The TSN leaf's `calc_serialized_size`, `serialize_into` and `from_slice`. -/
def FreeListTsnLeafNode.codec : Codec FreeListTsnLeafNode :=
  ⟨FreeListTsnLeafNode.calcSerializedSize, FreeListTsnLeafNode.serializeInto,
    FreeListTsnLeafNode.fromSlice⟩

namespace FreeListTsnLeafNode

theorem codec_layout : codec.Layout encode := by
  refine ⟨fun n => by simp [codec, calcSerializedSize, encode], fun n buf h => ?_⟩
  show serializeInto n buf = _
  rw [← start_put_pure h]
  simp only [serializeInto, encode, Cursor.foldlM_put (fun c pageId => rfl), Cursor.put_append,
    bind_assoc, List.flatMap_map]

theorem decodesPrefix : codec.DecodesPrefix encode Encodable := by
  intro n ⟨hp⟩ s t hs
  show if _ then fromSlice s = _ else Rejects (fromSlice s)
  have he : n.encode.length = 2 + n.pageIds.length * 8 := by simp [encode]
  rw [he]
  unfold fromSlice
  refine check_decodes (rejects_expected_two _) (fun _ => by omega) fun h2 => ?_
  rw [sliceRange_u16_of_isPrefix 0 hs (List.prefix_append (leBytes 2 _) _) (by omega),
    except_ok_bind]
  dsimp only
  rw [ofLE_leBytes_of_lt (by omega)]
  refine check_decodes (rejects_expected_at_least _ _ _) (fun _ => by omega) fun h3 => ?_
  have hps := readU64sAt_of_isPrefix _ 2 hs (by rw [encode, List.drop_left' (by simp)])
    (by simp; omega)
  rw [List.length_map] at hps
  rw [if_pos (by omega), hps]
  simp

theorem parsesPrefix : codec.ParsesPrefix encode Encodable := by
  intro s
  show Rejects (fromSlice s) ∨ ∃ x, fromSlice s = .ok x ∧ _ ∧ _
  unfold fromSlice
  refine check_parses (rejects_expected_two _) fun h2 => ?_
  obtain ⟨hr0, hp, hd0⟩ := sliceRange_u16_ok s 0 (by omega)
  rw [hr0, except_ok_bind]
  dsimp only
  generalize ofLE ((s.drop 0).take 2) = p at hp hd0 ⊢
  refine check_parses (rejects_expected_at_least _ _ _) fun h3 => ?_
  obtain ⟨ps, hps, hpl, hpd⟩ := @readU64sAt_ok s p 2 (by omega)
  rw [hps, except_ok_bind]
  refine .inr ⟨_, rfl, ⟨by simp; omega⟩, s.drop (2 + p * 8), ?_⟩
  simp only [encode, List.length_map, List.map_map, PageID.val_comp_mk, List.map_id, hpl,
    List.append_assoc]
  rw [← hpd, ← hd0]
  rfl

end FreeListTsnLeafNode

/-- A TSN internal node on the wire, laid out as a free-list internal node. -/
def FreeListTsnInternalNode.encode (n : FreeListTsnInternalNode) : List UInt8 :=
  keysAndChildrenBytes (n.keys.map PageID.val) (n.childIds.map PageID.val)

/-- The TSN internal node's `calc_serialized_size`, `serialize_into` and `from_slice`. -/
def FreeListTsnInternalNode.codec : Codec FreeListTsnInternalNode :=
  ⟨FreeListTsnInternalNode.calcSerializedSize, FreeListTsnInternalNode.serializeInto,
    FreeListTsnInternalNode.fromSlice⟩

namespace FreeListTsnInternalNode

theorem codec_layout : codec.Layout encode :=
  ⟨fun n => by simp [codec, calcSerializedSize, encode, length_keysAndChildrenBytes],
    fun n buf h => (writeKeysAndChildren_eq buf _ _).trans (start_put_pure h)⟩

theorem decodesPrefix : codec.DecodesPrefix encode InternalNode.CountsFit := by
  intro n ⟨hk, hc⟩ s t hs
  show if _ then fromSlice s = _ else Rejects (fromSlice s)
  obtain ⟨w0, w1, w2, w3⟩ :=
    keysAndChildrenBytes_windows (n.keys.map PageID.val) (n.childIds.map PageID.val)
  simp only [List.length_map] at w0 w2 w3
  rw [encode, length_keysAndChildrenBytes, List.length_map, List.length_map]
  unfold fromSlice
  refine check_decodes (rejects_reject (by decide)) (fun _ => by omega) fun h2 => ?_
  rw [sliceRange_u16_of_isPrefix 0 hs w0 (by omega), except_ok_bind]
  dsimp only
  rw [ofLE_leBytes_of_lt (by omega)]
  refine check_decodes (rejects_reject (by decide)) (fun _ => by omega) fun h3 => ?_
  have hks := readU64sAt_of_isPrefix _ 2 hs w1 (by simp; omega)
  rw [List.length_map] at hks
  rw [hks, except_ok_bind, sliceRange_u16_of_isPrefix _ hs w2 (by omega), except_ok_bind,
    ofLE_leBytes_of_lt (by omega)]
  refine check_decodes (rejects_reject (by decide)) (fun _ => by omega) fun h4 => ?_
  have hcs := readU64sAt_of_isPrefix _ _ hs w3 (by simp; omega)
  rw [List.length_map] at hcs
  rw [if_pos (by omega), hcs]
  simp

theorem parsesPrefix : codec.ParsesPrefix encode InternalNode.CountsFit := by
  intro s
  show Rejects (fromSlice s) ∨ ∃ x, fromSlice s = .ok x ∧ _ ∧ _
  unfold fromSlice
  refine check_parses (rejects_reject (by decide)) fun h2 => ?_
  obtain ⟨hr0, hk, hd0⟩ := sliceRange_u16_ok s 0 (by omega)
  rw [hr0, except_ok_bind]
  dsimp only
  generalize ofLE ((s.drop 0).take 2) = k at hk hd0 ⊢
  refine check_parses (rejects_reject (by decide)) fun h3 => ?_
  obtain ⟨keys, hks, hkl, hkd⟩ := @readU64sAt_ok s k 2 (by omega)
  obtain ⟨hr1, hc, hd1⟩ := sliceRange_u16_ok s (2 + k * 8) (by omega)
  rw [hks, except_ok_bind, hr1, except_ok_bind]
  generalize ofLE ((s.drop (2 + k * 8)).take 2) = c at hc hd1 ⊢
  refine check_parses (rejects_reject (by decide)) fun h4 => ?_
  obtain ⟨cs, hcs, hcl, hcd⟩ := @readU64sAt_ok s c (2 + k * 8 + 2) (by omega)
  rw [hcs, except_ok_bind]
  refine .inr ⟨_, rfl, ⟨by simp; omega, by simp; omega⟩, s.drop (2 + k * 8 + 2 + c * 8), ?_⟩
  simp only [encode, keysAndChildrenBytes, List.length_map, List.map_map, PageID.val_comp_mk,
    List.map_id, hkl, hcl, List.append_assoc]
  rw [← hcd, ← hd1, ← hkd, ← hd0]
  rfl

end FreeListTsnInternalNode

end UmaDB
