import UmaDB.NodeFrame

/-! # The event tree's nodes

`events_tree_nodes.rs`: the leaf of events, the overflow page of a large payload and the
internal node, each with `calc_serialized_size`, `serialize_into` and `from_slice`. Strings are
written as a `u16` byte length and their bytes; `(len as u16)` keeps the low sixteen bits of a
longer length. -/
namespace UmaDB

/-- `EventRecord`: an event stored inline in its leaf. -/
structure EventRecord where
  eventType : Utf8String
  data : List UInt8
  tags : List Utf8String
  uuid : Option Uuid
  deriving DecidableEq

/-- `EventValue`: the event itself, or the metadata of one whose data lives in an overflow
chain from `root_id`. -/
inductive EventValue where
  | inline (record : EventRecord)
  | overflow (eventType : Utf8String) (dataLen : UInt64) (tags : List Utf8String)
      (rootId : PageID) (uuid : Option Uuid)
  deriving DecidableEq

/-- `impl PartialEq<EventValue> for EventRecord`: an overflow value matches a record with the
same event type, tags and data length, whatever its uuid. -/
def EventRecord.eqValue (r : EventRecord) : EventValue → Bool
  | .inline r' => r = r'
  | .overflow eventType dataLen tags _ _ =>
    r.eventType = eventType && r.tags = tags && UInt64.ofNat r.data.length = dataLen

/-- `impl PartialEq<EventRecord> for EventValue`: `other == self`. -/
def EventValue.eqRecord (v : EventValue) (r : EventRecord) : Bool := r.eqValue v

/-- The `EventValueFlags` bitflags byte. -/
structure EventValueFlags where
  bits : UInt8
  deriving DecidableEq, Repr

namespace EventValueFlags

/-- `OVERFLOW = 0b0000_0001`: the payload is in an overflow chain. -/
def overflow : EventValueFlags := ⟨0b00000001⟩

/-- `HAS_UUID = 0b0000_0010`: a uuid follows the value. -/
def hasUuid : EventValueFlags := ⟨0b00000010⟩

def empty : EventValueFlags := ⟨0⟩

/-- `a | b`: the bits set in either flag set. -/
def union (f g : EventValueFlags) : EventValueFlags := ⟨f.bits ||| g.bits⟩

/-- `flags.contains(other)`: every bit of `other` is set in `flags`. -/
def contains (f g : EventValueFlags) : Bool := f.bits &&& g.bits == g.bits

/-- `from_bits`: `None` when a bit outside `OVERFLOW | HAS_UUID` is set. -/
def fromBits (b : UInt8) : Option EventValueFlags :=
  if b &&& (overflow.union hasUuid).bits = b then some ⟨b⟩ else none

end EventValueFlags

/-- `EventLeafNode`: positions and their values. -/
structure EventLeafNode where
  keys : List Position
  values : List EventValue
  deriving DecidableEq

/-- `String::len()`: the byte length. -/
def Utf8String.len (s : Utf8String) : ℕ := s.bytes.length

/-- `for tag in tags { total_size += 2 + tag.len() }`. -/
def tagsSize (total : ℕ) (tags : List Utf8String) : ℕ :=
  tags.foldl (fun t tag => t + (2 + tag.len)) total

/-- One pass of `calc_serialized_size`'s values loop: the flags byte, the event type, the inline
data or the `u64` data length, the tags, the `root_id` of an overflow value, the uuid. -/
def valueSize (total : ℕ) : EventValue → ℕ
  | .inline r =>
    tagsSize (total + 1 + (2 + r.eventType.len) + (2 + r.data.length) + 2) r.tags +
      if r.uuid.isSome then 16 else 0
  | .overflow eventType _ tags _ uuid =>
    tagsSize (total + 1 + (2 + eventType.len) + 8 + 2) tags + 8 +
      if uuid.isSome then 16 else 0

/-- `calc_serialized_size`: two bytes of key count and eight per key, then each value's bytes
in the order `serialize_into` writes them. -/
def EventLeafNode.calcSerializedSize (n : EventLeafNode) : ℕ :=
  n.values.foldl valueSize (2 + n.keys.length * 8)

/-- One pass of the tags loop of `serialize_into`. -/
def writeTag (c : Cursor) (tag : Utf8String) : Except Fault Cursor := do
  let c ← c.put (leBytes 2 tag.len)
  c.put tag.bytes

/-- `if let Some(uuid) = uuid { buf[i..i + 16].copy_from_slice(uuid.as_bytes()); i += 16 }`. -/
def writeUuid (c : Cursor) : Option Uuid → Except Fault Cursor
  | some u => c.put u.bytes
  | none => pure c

/-- One pass of `serialize_into`'s values loop. -/
def writeValue (c : Cursor) : EventValue → Except Fault Cursor
  | .inline r => do
    let flags := if r.uuid.isSome then EventValueFlags.empty.union .hasUuid else .empty
    let c ← c.put [flags.bits]
    let c ← c.put (leBytes 2 r.eventType.len)
    let c ← c.put r.eventType.bytes
    let c ← c.put (leBytes 2 r.data.length)
    let c ← c.put r.data
    let c ← c.put (leBytes 2 r.tags.length)
    let c ← r.tags.foldlM writeTag c
    writeUuid c r.uuid
  | .overflow eventType dataLen tags rootId uuid => do
    let flags := EventValueFlags.empty.union .overflow
    let flags := if uuid.isSome then flags.union .hasUuid else flags
    let c ← c.put [flags.bits]
    let c ← c.put (leBytes 2 eventType.len)
    let c ← c.put eventType.bytes
    let c ← c.put (u64Bytes dataLen)
    let c ← c.put (leBytes 2 tags.length)
    let c ← tags.foldlM writeTag c
    let c ← c.put (u64Bytes rootId.val)
    writeUuid c uuid

/-- `EventLeafNode::serialize_into`: the buffer afterwards and the number of bytes written. -/
def EventLeafNode.serializeInto (n : EventLeafNode) (buf : List UInt8) :
    Except Fault (List UInt8 × ℕ) :=
  writeLeaf buf (n.keys.map Position.val) n.values writeValue

/-- The flags byte of a value: a bounds check, `slice[offset]`, `from_bits(..).ok_or(..)?`. -/
def readFlags (slice : List UInt8) : Reader EventValueFlags := fun offset =>
  if offset + 1 > slice.length then reject "Unexpected end of data while reading value kind"
  else do
    let b ← byteAt slice offset
    match EventValueFlags.fromBits b with
    | some flags => pure (flags, offset + 1)
    | none => reject "unknown flag bits set"

/-- A checked `u16` byte length, then the checked UTF-8 string of that length: how
`from_slice` reads the event type and each tag, with its own three messages. -/
def readString (slice : List UInt8) (lenMsg strMsg utf8Msg : String) : Reader Utf8String := do
  let len ← readU16 slice lenMsg
  readStr slice len strMsg utf8Msg

/-- The `event_type` length and string. -/
def readEventType (slice : List UInt8) : Reader Utf8String :=
  readString slice "Unexpected end of data while reading event_type length"
    "Unexpected end of data while reading event_type" "Invalid UTF-8 sequence in event_type"

/-- One pass of the tags loop of `from_slice`. -/
def readTag (slice : List UInt8) : Reader Utf8String :=
  readString slice "Unexpected end of data while reading tag length"
    "Unexpected end of data while reading tag" "Invalid UTF-8 sequence in tag"

/-- The tag count and the tags loop, as both kinds of value read them. -/
def readTags (slice : List UInt8) : Reader (List Utf8String) := do
  let numTags ← readU16 slice "Unexpected end of data while reading number of tags"
  readN (readTag slice) numTags

/-- `match Uuid::from_slice(b) { Ok(uuid) => Some(uuid), Err(err) => return Err(..) }`. -/
def uuidOrReject (b : List UInt8) : Reader (Option Uuid) :=
  match Uuid.fromSlice b with
  | .ok u => pure (some u)
  | .error err => Reader.reject (invalidUuidSequence err)

/-- The uuid block: nothing unless `has_uuid`, else a bounds check and sixteen bytes. -/
def readUuid (slice : List UInt8) (hasUuid : Bool) : Reader (Option Uuid) :=
  if hasUuid then do
    let b ← readBytes slice 16 "Unexpected end of data while reading UUID"
    uuidOrReject b
  else pure none

/-- The rest of an inline value: `data_len` and the data, the tags, the uuid. -/
def readInlineValue (slice : List UInt8) (eventType : Utf8String) (hasUuid : Bool) :
    Reader EventValue := do
  let dataLen ← readU16 slice "Unexpected end of data while reading data length"
  let data ← readBytes slice dataLen "Unexpected end of data while reading data"
  let tags ← readTags slice
  let uuid ← readUuid slice hasUuid
  pure (.inline ⟨eventType, data, tags, uuid⟩)

/-- The rest of an overflow value: the `u64` data length, the tags, `root_id`, the uuid. -/
def readOverflowValue (slice : List UInt8) (eventType : Utf8String) (hasUuid : Bool) :
    Reader EventValue := do
  let dataLen ← readU64 slice "Unexpected end of data while reading overflow data_len"
  let tags ← readTags slice
  let rootId ← readU64 slice "Unexpected end of data while reading overflow root_id"
  let uuid ← readUuid slice hasUuid
  pure (.overflow eventType dataLen tags ⟨rootId⟩ uuid)

/-- One pass of `from_slice`'s values loop: the flags byte and the event type, then the inline or
the overflow branch. -/
def readValue (slice : List UInt8) : Reader EventValue := do
  let flags ← readFlags slice
  let eventType ← readEventType slice
  if !flags.contains .overflow then readInlineValue slice eventType (flags.contains .hasUuid)
  else readOverflowValue slice eventType (flags.contains .hasUuid)

/-- `from_slice`: the leaf frame, each value read where the previous one ended. -/
def EventLeafNode.fromSlice (slice : List UInt8) : Except Fault EventLeafNode := do
  let (keys, values) ← readLeaf slice (readValue slice)
  pure ⟨keys.map Position.mk, values⟩

/-- `pop_last_key_and_value`: the pop both leaves share, over positions and event values. -/
def EventLeafNode.popLastKeyAndValue (n : EventLeafNode) :
    Except Fault (EventLeafNode × Except DCBError (Position × EventValue)) :=
  popLast EventLeafNode.mk n.keys n.values

/-- `EventOverflowNode`: one page of an overflow chain; `next = PageID(0)` ends it. -/
structure EventOverflowNode where
  next : PageID
  data : List UInt8
  deriving DecidableEq

/-- `calc_serialized_size`: eight bytes of `next`, then the data. -/
def EventOverflowNode.calcSerializedSize (n : EventOverflowNode) : ℕ := 8 + n.data.length

/-- `EventOverflowNode::serialize_into`: `buf[0..8]` takes `next`, `buf[8..size]` the data. -/
def EventOverflowNode.serializeInto (n : EventOverflowNode) (buf : List UInt8) :
    Except Fault (List UInt8 × ℕ) := do
  let size := n.calcSerializedSize
  let c ← (Cursor.start buf).put (u64Bytes n.next.val)
  let c ← c.put n.data
  pure (c.buf, size)

/-- `EventOverflowNode::from_slice`: `next`, then the rest of the slice is the data. -/
def EventOverflowNode.fromSlice (slice : List UInt8) : Except Fault EventOverflowNode :=
  if slice.length < 8 then reject "Overflow node too small"
  else do
    let next ← sliceRange slice 0 8
    pure ⟨⟨readU64Value next⟩, slice.drop 8⟩

/-- `EventInternalNode`: positions and child page ids. -/
abbrev EventInternalNode := InternalNode Position

/-- `calc_serialized_size`: two bytes of key count, eight per key and eight per child id; the
child count itself is not written. -/
def EventInternalNode.calcSerializedSize (n : EventInternalNode) : ℕ :=
  2 + n.keys.length * 8 + n.childIds.length * 8

/-- `EventInternalNode::serialize_into`, which returns `Ok(i)`. -/
def EventInternalNode.serializeInto (n : EventInternalNode) (buf : List UInt8) :
    Except Fault (List UInt8 × ℕ) := do
  let c ← (Cursor.start buf).put (leBytes 2 n.keys.length)
  let c ← n.keys.foldlM (fun c key => c.put (u64Bytes key.val)) c
  let c ← n.childIds.foldlM (fun c childId => c.put (u64Bytes childId.val)) c
  pure (c.buf, c.i)

/-- `EventInternalNode::from_slice`: the child count is `keys_len + 1`, not read. -/
def EventInternalNode.fromSlice (slice : List UInt8) : Except Fault EventInternalNode :=
  if slice.length < 2 then
    reject ("Expected at least 2 bytes, got " ++ toString slice.length)
  else do
    let keysLen := ofLE (← sliceRange slice 0 2)
    if slice.length < 2 + keysLen * 8 then
      reject ("Expected at least " ++ toString (2 + keysLen * 8) ++ " bytes for keys, got " ++
        toString slice.length)
    else do
      let keys ← readU64sAt slice 2 keysLen
      let offset := 2 + keysLen * 8
      let childIdsLen := keysLen + 1
      if slice.length < offset + childIdsLen * 8 then
        reject ("Expected at least " ++ toString (offset + childIdsLen * 8) ++
          " bytes for child_ids, got " ++ toString slice.length)
      else do
        let childIds ← readU64sAt slice offset childIdsLen
        pure ⟨keys.map Position.mk, childIds.map PageID.mk⟩

/-- The event internal node's `replace_last_child_id`, `append_promoted_key_and_page_id` and
`split_off` are the internal-node methods both trees share, over positions. -/
def EventInternalNode.replaceLastChildId (n : EventInternalNode) (oldId newId : PageID) :
    Except Fault (EventInternalNode × Except DCBError Unit) :=
  InternalNode.replaceLastChildId n oldId newId

def EventInternalNode.appendPromotedKeyAndPageId (n : EventInternalNode) (promotedKey : Position)
    (promotedPageId : PageID) : Except Fault (EventInternalNode × Except DCBError Unit) :=
  InternalNode.appendPromotedKeyAndPageId n promotedKey promotedPageId

def EventInternalNode.splitOff (n : EventInternalNode) :
    Except Fault (EventInternalNode × Except DCBError (Position × List Position × List PageID)) :=
  InternalNode.splitOff n

end UmaDB
