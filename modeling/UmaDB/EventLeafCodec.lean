import UmaDB.Codec
import UmaDB.EventsTreeNodes

/-! # The event leaf codec

The leaf's byte layout as a function, `EventLeafNode.encode`, and the three functions of the
codec against it: `calc_serialized_size` is its length, `serialize_into` writes it, and
`from_slice` reads it back from any slice it begins, rejects any slice that ends inside it, and
accepts nothing else. Only the `u16` prefixes bound what round-trips: `Encodable` says every
count and byte length fits its prefix and each key has its value. -/
namespace UmaDB

/-- A string on the wire: its `u16` byte length, then its bytes. -/
def strBytes (s : Utf8String) : List UInt8 := leBytes 2 s.len ++ s.bytes

/-- An optional uuid on the wire: sixteen bytes or nothing. -/
def uuidBytes : Option Uuid → List UInt8
  | some u => u.bytes
  | none => []

/-- The tag count, then the tags. -/
def tagsBytes (tags : List Utf8String) : List UInt8 :=
  leBytes 2 tags.length ++ tags.flatMap strBytes

/-- Bit 0 marks an overflow value, bit 1 a uuid. -/
def EventValue.flagsByte : EventValue → UInt8
  | .inline r => if r.uuid.isSome then 2 else 0
  | .overflow _ _ _ _ uuid => if uuid.isSome then 3 else 1

def EventValue.eventType : EventValue → Utf8String
  | .inline r => r.eventType
  | .overflow eventType .. => eventType

/-- What follows the event type: the data or its length, the tags, `root_id`, the uuid. -/
def EventValue.bodyBytes : EventValue → List UInt8
  | .inline r => leBytes 2 r.data.length ++ r.data ++ tagsBytes r.tags ++ uuidBytes r.uuid
  | .overflow _ dataLen tags rootId uuid =>
    u64Bytes dataLen ++ tagsBytes tags ++ u64Bytes rootId.val ++ uuidBytes uuid

/-- A value on the wire. -/
def EventValue.encode (v : EventValue) : List UInt8 :=
  [v.flagsByte] ++ strBytes v.eventType ++ v.bodyBytes

/-- A leaf on the wire. -/
def EventLeafNode.encode (n : EventLeafNode) : List UInt8 :=
  leafBytes (n.keys.map Position.val) n.values EventValue.encode

/-- Every length in the value fits the `u16` that prefixes it. -/
def EventValue.Fits : EventValue → Prop
  | .inline r => r.eventType.len ≤ 65535 ∧ r.data.length ≤ 65535 ∧ r.tags.length ≤ 65535 ∧
      ∀ tag ∈ r.tags, tag.len ≤ 65535
  | .overflow eventType _ tags _ _ => eventType.len ≤ 65535 ∧ tags.length ≤ 65535 ∧
      ∀ tag ∈ tags, tag.len ≤ 65535

instance EventValue.decidableFits : DecidablePred EventValue.Fits
  | .inline _ => inferInstanceAs (Decidable (_ ∧ _ ∧ _ ∧ _))
  | .overflow .. => inferInstanceAs (Decidable (_ ∧ _ ∧ _))

/-- What round-trips: one value per key, and every count and length within its `u16`. -/
structure EventLeafNode.Encodable (n : EventLeafNode) : Prop where
  keys_values : n.keys.length = n.values.length
  keys_fit : n.keys.length ≤ 65535
  values_fit : ∀ v ∈ n.values, v.Fits

instance EventLeafNode.decidableEncodable (n : EventLeafNode) : Decidable n.Encodable :=
  decidable_of_iff (n.keys.length = n.values.length ∧ n.keys.length ≤ 65535 ∧
      ∀ v ∈ n.values, v.Fits)
    ⟨fun ⟨a, b, c⟩ => ⟨a, b, c⟩, fun ⟨a, b, c⟩ => ⟨a, b, c⟩⟩

theorem tagsSize_eq (total : ℕ) (tags : List Utf8String) :
    tagsSize total tags = total + (tags.flatMap strBytes).length :=
  foldl_eq_add_length (fun _ _ => by simp [strBytes, Utf8String.len]) tags total

theorem valueSize_eq (total : ℕ) (v : EventValue) :
    valueSize total v = total + v.encode.length := by
  cases v with
  | inline r => cases h : r.uuid <;> simp [valueSize, EventValue.encode, EventValue.eventType,
      EventValue.bodyBytes, tagsSize_eq, tagsBytes, strBytes, uuidBytes, Utf8String.len, h] <;>
      omega
  | overflow _ _ _ _ uuid => cases uuid <;> simp [valueSize, EventValue.encode,
      EventValue.eventType, EventValue.bodyBytes, tagsSize_eq, tagsBytes, strBytes, uuidBytes,
      Utf8String.len] <;> omega

theorem EventLeafNode.calcSerializedSize_eq (n : EventLeafNode) :
    n.calcSerializedSize = n.encode.length := by
  rw [calcSerializedSize, foldl_eq_add_length valueSize_eq, encode, length_leafBytes,
    List.length_map]

theorem writeTag_eq (c : Cursor) (tag : Utf8String) : writeTag c tag = c.put (strBytes tag) := by
  rw [writeTag, strBytes, Cursor.put_append]

theorem writeUuid_eq (c : Cursor) (u : Option Uuid) : writeUuid c u = c.put (uuidBytes u) := by
  cases u <;> simp [writeUuid, uuidBytes]

theorem writeValue_eq (c : Cursor) (v : EventValue) : writeValue c v = c.put v.encode := by
  cases v with
  | inline r =>
    have hf : (if r.uuid.isSome then EventValueFlags.empty.union .hasUuid else .empty).bits =
        (EventValue.inline r).flagsByte := by
      obtain ⟨_, _, _, _ | _⟩ := r <;> rfl
    simp only [writeValue, EventValue.encode, EventValue.eventType, EventValue.bodyBytes, hf,
      Cursor.foldlM_put writeTag_eq, writeUuid_eq, tagsBytes, strBytes, Cursor.put_append,
      bind_assoc]
  | overflow eventType dataLen tags rootId uuid =>
    have hf : (if uuid.isSome then (EventValueFlags.empty.union .overflow).union .hasUuid
        else EventValueFlags.empty.union .overflow).bits =
        (EventValue.overflow eventType dataLen tags rootId uuid).flagsByte := by
      cases uuid <;> rfl
    simp only [writeValue, EventValue.encode, EventValue.eventType, EventValue.bodyBytes, hf,
      Cursor.foldlM_put writeTag_eq, writeUuid_eq, tagsBytes, strBytes, Cursor.put_append,
      bind_assoc]

/-- `serialize_into` writes the layout from the start of the buffer, and panics if it does not
fit. -/
theorem EventLeafNode.serializeInto_eq (n : EventLeafNode) (buf : List UInt8) :
    n.serializeInto buf = ((Cursor.start buf).put n.encode >>= fun c => pure (c.buf, c.i)) :=
  writeLeaf_eq writeValue_eq buf _ _

theorem fromBits_eq_some {b : UInt8} {f : EventValueFlags}
    (h : EventValueFlags.fromBits b = some f) : f = ⟨b⟩ ∧ b.toNat < 4 := by
  unfold EventValueFlags.fromBits at h
  split at h
  · next hb =>
    cases h
    have h3 := congrArg UInt8.toNat hb
    have e3 : (EventValueFlags.overflow.union .hasUuid).bits.toNat = 3 := rfl
    rw [UInt8.and_toNat, e3] at h3
    have := @Nat.and_le_right b.toNat 3
    exact ⟨rfl, by omega⟩
  · cases h

theorem uint8_cases {b : UInt8} (h : b.toNat < 4) : b = 0 ∨ b = 1 ∨ b = 2 ∨ b = 3 := by
  have hc : b.toNat = 0 ∨ b.toNat = 1 ∨ b.toNat = 2 ∨ b.toNat = 3 := by omega
  rcases hc with h | h | h | h
  · exact .inl (UInt8.toNat.inj h)
  · exact .inr (.inl (UInt8.toNat.inj h))
  · exact .inr (.inr (.inl (UInt8.toNat.inj h)))
  · exact .inr (.inr (.inr (UInt8.toNat.inj h)))

theorem fromBits_of_lt {b : UInt8} (h : b.toNat < 4) : EventValueFlags.fromBits b = some ⟨b⟩ := by
  rcases uint8_cases h with rfl | rfl | rfl | rfl <;> decide

/-- The two flag bits of a byte `from_bits` accepts give the byte back. -/
theorem flags_bits {b : UInt8} (hb : b.toNat < 4) :
    b = if (⟨b⟩ : EventValueFlags).contains .overflow then
      (if (⟨b⟩ : EventValueFlags).contains .hasUuid then 3 else 1)
    else if (⟨b⟩ : EventValueFlags).contains .hasUuid then 2 else 0 := by
  rcases uint8_cases hb with rfl | rfl | rfl | rfl <;> decide

theorem fromBits_flagsByte (v : EventValue) :
    EventValueFlags.fromBits v.flagsByte = some ⟨v.flagsByte⟩ := by
  apply fromBits_of_lt
  cases v <;> simp only [EventValue.flagsByte] <;> split <;> decide

/-- A flags byte that `from_bits` accepts is the one `serialize_into` writes for an inline value
read under it. -/
theorem flagsByte_inline {b : UInt8} (hb : b.toNat < 4)
    (ho : (⟨b⟩ : EventValueFlags).contains .overflow = false) (r : EventRecord)
    (hu : r.uuid.isSome = (⟨b⟩ : EventValueFlags).contains .hasUuid) :
    (EventValue.inline r).flagsByte = b := by
  conv_rhs => rw [flags_bits hb]
  rw [ho, ← hu]
  simp [EventValue.flagsByte]

/-- The same for an overflow value. -/
theorem flagsByte_overflow {b : UInt8} (hb : b.toNat < 4)
    (ho : (⟨b⟩ : EventValueFlags).contains .overflow = true) (eventType : Utf8String)
    (dataLen : UInt64) (tags : List Utf8String) (rootId : PageID) (u : Option Uuid)
    (hu : u.isSome = (⟨b⟩ : EventValueFlags).contains .hasUuid) :
    (EventValue.overflow eventType dataLen tags rootId u).flagsByte = b := by
  conv_rhs => rw [flags_bits hb]
  rw [ho, ← hu]
  simp [EventValue.flagsByte]

theorem readFlags_decodes (v : EventValue) : Decodes readFlags ⟨v.flagsByte⟩ [v.flagsByte] := by
  intro s o t ho hp
  simp only [readFlags, StateT.run, List.length_singleton]
  refine check_decodes (rejects_reject (by decide)) id fun h => ?_
  rw [if_pos (by omega), byteAt_of_drop (drop_prefix_of_le hp (by simp; omega)), except_ok_bind,
    fromBits_flagsByte]
  rfl

theorem readFlags_parses : Parses readFlags fun f e => f.bits.toNat < 4 ∧ e = [f.bits] := by
  intro s o
  simp only [readFlags, StateT.run]
  split_ifs with h
  · exact .inl (rejects_reject (by decide))
  · have hd := List.drop_eq_getElem_cons (show o < s.length by omega)
    rw [byteAt_of_drop hd, except_ok_bind]
    split
    · next f hf =>
      obtain ⟨rfl, hb⟩ := fromBits_eq_some hf
      exact .inr ⟨⟨s[o]⟩, [s[o]], rfl, hd, hb, rfl⟩
    · exact .inl (rejects_reject (by decide))

/-- A flags byte with a bit other than `OVERFLOW` and `HAS_UUID` set is refused. -/
theorem readFlags_rejects_unknown {s r : List UInt8} {o : ℕ} {b : UInt8}
    (h : s.drop o = b :: r) (hb : 4 ≤ b.toNat) : Rejects ((readFlags s).run o) := by
  rcases readFlags_parses s o with hr | ⟨f, e, -, hd, hf, he⟩
  · exact hr
  · subst he
    rw [h] at hd
    obtain ⟨rfl, -⟩ := List.cons.inj hd
    omega

section String

variable {lenMsg strMsg utf8Msg : String} (h₁ : NotUuidFailure lenMsg)
  (h₂ : NotUuidFailure strMsg)

include h₁ h₂

theorem readString_decodes {s : Utf8String} (h : s.len ≤ 65535) :
    Decodes (fun slice => readString slice lenMsg strMsg utf8Msg) s (strBytes s) :=
  (readU16_decodes h₁ h).bind (readStr_decodes h₂ s)

theorem readString_parses (h₃ : NotUuidFailure utf8Msg) :
    Parses (fun slice => readString slice lenMsg strMsg utf8Msg) fun s e =>
      s.len ≤ 65535 ∧ e = strBytes s :=
  (readU16_parses h₁).bind fun n e ⟨hn, he⟩ =>
    (readStr_parses h₂ h₃ n).mono fun str e' ⟨hb, hl⟩ => by
      subst he hb
      exact ⟨by simpa [Utf8String.len, hl] using hn, by simp [strBytes, Utf8String.len, hl]⟩

end String

theorem readTags_decodes {tags : List Utf8String} (hl : tags.length ≤ 65535)
    (h : ∀ tag ∈ tags, tag.len ≤ 65535) : Decodes readTags tags (tagsBytes tags) :=
  (readU16_decodes (by decide) hl).bind
    (readN_decodes fun tag ht => readString_decodes (by decide) (by decide) (h tag ht))

theorem readTags_parses :
    Parses readTags fun tags e =>
      tags.length ≤ 65535 ∧ (∀ tag ∈ tags, tag.len ≤ 65535) ∧ e = tagsBytes tags :=
  (readU16_parses (by decide)).bind fun n e ⟨hn, he⟩ =>
    (readN_parses (readString_parses (by decide) (by decide) (by decide)) n).mono
      fun tags e' ⟨hl, hP, he'⟩ => by
      subst he he' hl
      exact ⟨hn, hP, rfl⟩

theorem readUuid_decodes (u : Option Uuid) :
    Decodes (fun s => readUuid s u.isSome) u (uuidBytes u) := by
  cases u with
  | none => simpa [readUuid, uuidBytes] using Decodes.pure (none : Option Uuid)
  | some u =>
    have h₂ : Decodes (fun _ => uuidOrReject u.bytes) (some u) [] := by
      simpa [uuidOrReject, Uuid.fromSlice_bytes] using Decodes.pure (some u)
    simpa [readUuid, uuidBytes] using @Decodes.bind _ _ _ (fun b _ => uuidOrReject b) _ _ _ _
      (readBytes_decodes (by decide) u.length_eq) h₂

theorem readUuid_parses (b : Bool) :
    Parses (fun s => readUuid s b) fun u e => u.isSome = b ∧ e = uuidBytes u := by
  cases b with
  | false =>
    show Parses (fun _ => pure none) _
    exact Parses.pure ⟨rfl, rfl⟩
  | true =>
    simp only [readUuid, if_true]
    refine (readBytes_parses (by decide) 16).bind fun b e ⟨hb, hl⟩ => ?_
    subst hb
    have hu : uuidOrReject b = pure (some ⟨b, hl⟩) := by
      simp [uuidOrReject, Uuid.fromSlice, hl]
    simp only [hu]
    exact Parses.pure ⟨rfl, by simp [uuidBytes]⟩

theorem readInlineValue_decodes (r : EventRecord) (hd : r.data.length ≤ 65535)
    (hl : r.tags.length ≤ 65535) (ht : ∀ tag ∈ r.tags, tag.len ≤ 65535) :
    Decodes (fun s => readInlineValue s r.eventType r.uuid.isSome) (.inline r)
      (EventValue.inline r).bodyBytes := by
  unfold readInlineValue
  simp only [EventValue.bodyBytes, List.append_assoc]
  exact (readU16_decodes (by decide) hd).bind ((readBytes_decodes (by decide) rfl).bind
    ((readTags_decodes hl ht).bind ((readUuid_decodes r.uuid).bind_pure _)))

theorem readOverflowValue_decodes (eventType : Utf8String) (dataLen : UInt64)
    (tags : List Utf8String) (rootId : PageID) (uuid : Option Uuid) (hl : tags.length ≤ 65535)
    (ht : ∀ tag ∈ tags, tag.len ≤ 65535) :
    Decodes (fun s => readOverflowValue s eventType uuid.isSome)
      (.overflow eventType dataLen tags rootId uuid)
      (EventValue.overflow eventType dataLen tags rootId uuid).bodyBytes := by
  unfold readOverflowValue
  simp only [EventValue.bodyBytes, List.append_assoc]
  exact (readU64_decodes (by decide) dataLen).bind ((readTags_decodes hl ht).bind
    ((readU64_decodes (by decide) rootId.val).bind ((readUuid_decodes uuid).bind_pure _)))

theorem readInlineValue_parses (eventType : Utf8String) (b : Bool) :
    Parses (fun s => readInlineValue s eventType b) fun v e => ∃ r : EventRecord,
      v = .inline r ∧ r.eventType = eventType ∧ r.uuid.isSome = b ∧ r.data.length ≤ 65535 ∧
      r.tags.length ≤ 65535 ∧ (∀ tag ∈ r.tags, tag.len ≤ 65535) ∧ e = v.bodyBytes :=
  (readU16_parses (by decide)).bind fun n e₁ ⟨hn, he₁⟩ =>
    (readBytes_parses (by decide) n).bind fun data e₂ ⟨hd, hl⟩ =>
      readTags_parses.bind fun tags e₃ ⟨htl, ht, he₃⟩ =>
        (readUuid_parses b).bind fun uuid e₄ ⟨hu, he₄⟩ => Parses.pure (by
          subst he₁ hd hl he₃ he₄
          exact ⟨⟨eventType, data, tags, uuid⟩, rfl, rfl, hu, hn, htl, ht, by
            simp [EventValue.bodyBytes]⟩)

theorem readOverflowValue_parses (eventType : Utf8String) (b : Bool) :
    Parses (fun s => readOverflowValue s eventType b) fun v e => ∃ dataLen tags rootId uuid,
      v = .overflow eventType dataLen tags rootId uuid ∧ uuid.isSome = b ∧
      tags.length ≤ 65535 ∧ (∀ tag ∈ tags, tag.len ≤ 65535) ∧ e = v.bodyBytes :=
  (readU64_parses (by decide)).bind fun dataLen e₁ he₁ =>
    readTags_parses.bind fun tags e₂ ⟨htl, ht, he₂⟩ =>
      (readU64_parses (by decide)).bind fun rootId e₃ he₃ =>
        (readUuid_parses b).bind fun uuid e₄ ⟨hu, he₄⟩ => Parses.pure (by
          subst he₁ he₂ he₃ he₄
          exact ⟨dataLen, tags, ⟨rootId⟩, uuid, rfl, hu, htl, ht, by
            simp [EventValue.bodyBytes]⟩)

theorem inline_flags (r : EventRecord) :
    (⟨(EventValue.inline r).flagsByte⟩ : EventValueFlags).contains .overflow = false ∧
      (⟨(EventValue.inline r).flagsByte⟩ : EventValueFlags).contains .hasUuid = r.uuid.isSome := by
  cases h : r.uuid.isSome <;> simp [EventValue.flagsByte, h] <;> decide

theorem overflow_flags (eventType : Utf8String) (dataLen : UInt64) (tags : List Utf8String)
    (rootId : PageID) (u : Option Uuid) :
    (⟨(EventValue.overflow eventType dataLen tags rootId u).flagsByte⟩ :
      EventValueFlags).contains .overflow = true ∧
    (⟨(EventValue.overflow eventType dataLen tags rootId u).flagsByte⟩ :
      EventValueFlags).contains .hasUuid = u.isSome := by
  cases h : u.isSome <;> simp [EventValue.flagsByte, h] <;> decide

theorem readValue_decodes {v : EventValue} (hv : v.Fits) : Decodes readValue v v.encode := by
  unfold readValue
  simp only [EventValue.encode, List.append_assoc]
  refine (readFlags_decodes v).bind ((readString_decodes (by decide) (by decide) ?_).bind ?_)
  · cases v <;> exact hv.1
  · cases v with
    | inline r =>
      obtain ⟨ho, hu⟩ := inline_flags r
      simp only [ho, hu, Bool.not_false, if_true]
      exact readInlineValue_decodes r hv.2.1 hv.2.2.1 hv.2.2.2
    | overflow eventType dataLen tags rootId uuid =>
      obtain ⟨ho, hu⟩ := overflow_flags eventType dataLen tags rootId uuid
      simp only [ho, hu, Bool.not_true]
      exact readOverflowValue_decodes eventType dataLen tags rootId uuid hv.2.1 hv.2.2

theorem readValue_parses : Parses readValue fun v e => v.Fits ∧ e = v.encode := by
  unfold readValue
  refine readFlags_parses.bind fun ⟨b⟩ e₁ ⟨hb, he₁⟩ =>
    (readString_parses (by decide) (by decide) (by decide)).bind fun eventType e₂ ⟨het, he₂⟩ =>
      ?_
  subst he₁ he₂
  cases ho : (⟨b⟩ : EventValueFlags).contains .overflow
  · simp only [Bool.not_false, if_true]
    refine (readInlineValue_parses eventType _).mono fun v e₃ ⟨r, hv, hr, hu, hd, hl, ht, he₃⟩ => ?_
    subst hv he₃ hr
    exact ⟨⟨het, hd, hl, ht⟩, by
      simp [EventValue.encode, EventValue.eventType, flagsByte_inline hb ho r hu]⟩
  · simp only [Bool.not_true]
    refine (readOverflowValue_parses eventType _).mono
      fun v e₃ ⟨dataLen, tags, rootId, uuid, hv, hu, hl, ht, he₃⟩ => ?_
    subst hv he₃
    exact ⟨⟨het, hl, ht⟩, by
      simp [EventValue.encode, EventValue.eventType, flagsByte_overflow hb ho _ _ _ _ _ hu]⟩

/-- The event leaf's `calc_serialized_size`, `serialize_into` and `from_slice`. -/
def EventLeafNode.codec : Codec EventLeafNode :=
  ⟨EventLeafNode.calcSerializedSize, EventLeafNode.serializeInto, EventLeafNode.fromSlice⟩

theorem EventLeafNode.codec_layout : EventLeafNode.codec.Layout EventLeafNode.encode :=
  ⟨calcSerializedSize_eq, fun n buf h => (serializeInto_eq n buf).trans (start_put_pure h)⟩

theorem EventLeafNode.decodesPrefix :
    EventLeafNode.codec.DecodesPrefix EventLeafNode.encode EventLeafNode.Encodable := by
  intro n hn s t hs
  have h : if n.encode.length ≤ s.length then
      readLeaf s (readValue s) = .ok (n.keys.map Position.val, n.values)
      else Rejects (readLeaf s (readValue s)) :=
    readLeaf_decodes (by simpa using hn.keys_values) (by simpa using hn.keys_fit)
      (fun v hv => readValue_decodes (hn.values_fit v hv)) hs
  show if _ then fromSlice s = _ else Rejects (fromSlice s)
  unfold fromSlice
  split_ifs at h ⊢
  · rw [h]
    simp
  · exact h.bind _

theorem EventLeafNode.parsesPrefix :
    EventLeafNode.codec.ParsesPrefix EventLeafNode.encode EventLeafNode.Encodable := by
  intro s
  rcases readLeaf_parses readValue_parses s with h | ⟨keys, values, h, hl, hk, hP, hpre⟩
  · exact .inl (h.bind _)
  · refine .inr ⟨⟨keys.map Position.mk, values⟩, by show fromSlice s = _; rw [fromSlice, h]; rfl,
      ⟨by simpa using hl, by simpa using hk, hP⟩, by simpa [encode] using hpre⟩

end UmaDB
