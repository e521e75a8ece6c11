import UmaDB.NodeFrame

/-! # The free-list tree's nodes

`free_lists_tree_nodes.rs`: the free-list leaf maps a TSN to the pages it freed, inline or in a
TSN subtree from `root_id`; the free-list internal node; the TSN subtree's leaf and internal
node. Unlike the event internal node, both internal nodes here write their child count. The fit
predicates compare the size after one more entry with the room in a page. -/
namespace UmaDB

/-- `FreeListLeafValue`: the freed pages of one TSN; `root_id = PageID(0)` means no subtree. -/
structure FreeListLeafValue where
  pageIds : List PageID
  rootId : PageID
  deriving DecidableEq, Repr

/-- `FreeListLeafNode`: TSNs and their freed pages. -/
structure FreeListLeafNode where
  keys : List Tsn
  values : List FreeListLeafValue
  deriving DecidableEq, Repr

namespace FreeListLeafNode

/-- `calc_serialized_size`: two bytes of key count and eight per TSN, then per value two bytes of
page count, eight per page id and eight of `root_id`. -/
def calcSerializedSize (n : FreeListLeafNode) : ℕ :=
  n.values.foldl (fun total value => total + 2 + value.pageIds.length * 8 + 8)
    (2 + n.keys.length * 8)

/-- One pass of `serialize_into`'s values loop. -/
def writeValue (c : Cursor) (value : FreeListLeafValue) : Except Fault Cursor := do
  let c ← c.put (leBytes 2 value.pageIds.length)
  let c ← value.pageIds.foldlM (fun c pageId => c.put (u64Bytes pageId.val)) c
  c.put (u64Bytes value.rootId.val)

/-- `serialize_into`: the buffer afterwards and the number of bytes written. -/
def serializeInto (n : FreeListLeafNode) (buf : List UInt8) : Except Fault (List UInt8 × ℕ) :=
  writeLeaf buf (n.keys.map Tsn.val) n.values writeValue

/-- One pass of `from_slice`'s values loop: `page_ids_len`, the page ids after one bounds check
over all of them, then `root_id`. -/
def readValue (slice : List UInt8) : Reader FreeListLeafValue := do
  let pageIdsLen ← readU16 slice "Unexpected end of data while reading page_ids length"
  let pageIds ← readU64s slice pageIdsLen "Unexpected end of data while reading page_ids"
  let rootId ← readU64 slice "Unexpected end of data while reading root_id"
  pure ⟨pageIds.map PageID.mk, ⟨rootId⟩⟩

/-- `from_slice`: the leaf frame, each value read where the previous one ended. -/
def fromSlice (slice : List UInt8) : Except Fault FreeListLeafNode := do
  let (keys, values) ← readLeaf slice (readValue slice)
  pure ⟨keys.map Tsn.mk, values⟩

/-- `would_fit_new_tsn_and_page_id`: a new entry adds a key, a length, one page id and a
`root_id`, 26 bytes. -/
def wouldFitNewTsnAndPageId (n : FreeListLeafNode) (maxNodeSize : ℕ) : Bool :=
  n.calcSerializedSize + 8 + 2 + 8 + 8 ≤ maxNodeSize

/-- `push_new_key_and_value`: a new TSN with one freed page and no subtree. -/
def pushNewKeyAndValue (n : FreeListLeafNode) (tsn : Tsn) (pageId : PageID) : FreeListLeafNode :=
  ⟨n.keys ++ [tsn], n.values ++ [⟨[pageId], ⟨0⟩⟩]⟩

/-- `would_fit_new_page_id`: one more page id adds eight bytes. -/
def wouldFitNewPageId (n : FreeListLeafNode) (maxNodeSize : ℕ) : Bool :=
  n.calcSerializedSize + 8 ≤ maxNodeSize

/-- `push_new_page_id`: `self.values[idx]` panics past the end. -/
def pushNewPageId (n : FreeListLeafNode) (idx : ℕ) (pageId : PageID) :
    Except Fault FreeListLeafNode :=
  if h : idx < n.values.length then
    let value := n.values[idx]
    .ok { n with values := n.values.set idx { value with pageIds := value.pageIds ++ [pageId] } }
  else .error .panic

/-- `pop_last_key_and_value`: the pop both leaves share, over TSNs and free-list values. -/
def popLastKeyAndValue (n : FreeListLeafNode) :
    Except Fault (FreeListLeafNode × Except DCBError (Tsn × FreeListLeafValue)) :=
  popLast FreeListLeafNode.mk n.keys n.values

end FreeListLeafNode

/-- `FreeListInternalNode`: TSNs and child page ids. -/
abbrev FreeListInternalNode := InternalNode Tsn

namespace FreeListInternalNode

/-- `calc_serialized_size`: unlike the event internal node, both counts are written. -/
def calcSerializedSize (n : FreeListInternalNode) : ℕ :=
  2 + n.keys.length * 8 + 2 + n.childIds.length * 8

def serializeInto (n : FreeListInternalNode) (buf : List UInt8) : Except Fault (List UInt8 × ℕ) :=
  writeKeysAndChildren buf (n.keys.map Tsn.val) (n.childIds.map PageID.val)

/-- `from_slice`: the child count is read after the keys, then checked against the slice. -/
def fromSlice (slice : List UInt8) : Except Fault FreeListInternalNode :=
  if slice.length < 2 then
    reject ("Expected at least 2 bytes, got " ++ toString slice.length)
  else do
    let keysLen := ofLE (← sliceRange slice 0 2)
    if slice.length < 2 + keysLen * 8 then
      reject ("Expected at least " ++ toString (2 + keysLen * 8) ++ " bytes for keys, got " ++
        toString slice.length)
    else do
      let keys ← readU64sAt slice 2 keysLen
      let offset := 2 + keysLen * 8
      if offset + 2 > slice.length then
        reject "Unexpected end of data while reading child_ids length"
      else do
        let childIdsLen := ofLE (← sliceRange slice offset (offset + 2))
        if slice.length < offset + 2 + childIdsLen * 8 then
          reject ("Expected at least " ++ toString (offset + 2 + childIdsLen * 8) ++
            " bytes for child_ids, got " ++ toString slice.length)
        else do
          let childIds ← readU64sAt slice (offset + 2) childIdsLen
          pure ⟨keys.map Tsn.mk, childIds.map PageID.mk⟩

/-- The free-list internal node's `replace_last_child_id`, `append_promoted_key_and_page_id` and
`split_off` are the internal-node methods both trees share, over TSNs. -/
def replaceLastChildId (n : FreeListInternalNode) (oldId newId : PageID) :
    Except Fault (FreeListInternalNode × Except DCBError Unit) :=
  InternalNode.replaceLastChildId n oldId newId

def appendPromotedKeyAndPageId (n : FreeListInternalNode) (promotedKey : Tsn)
    (promotedPageId : PageID) : Except Fault (FreeListInternalNode × Except DCBError Unit) :=
  InternalNode.appendPromotedKeyAndPageId n promotedKey promotedPageId

def splitOff (n : FreeListInternalNode) :
    Except Fault (FreeListInternalNode × Except DCBError (Tsn × List Tsn × List PageID)) :=
  InternalNode.splitOff n

end FreeListInternalNode

/-- `FreeListTsnLeafNode`: the page ids of one TSN's subtree leaf. -/
structure FreeListTsnLeafNode where
  pageIds : List PageID
  deriving DecidableEq, Repr

namespace FreeListTsnLeafNode

def calcSerializedSize (n : FreeListTsnLeafNode) : ℕ := 2 + n.pageIds.length * 8

def serializeInto (n : FreeListTsnLeafNode) (dst : List UInt8) : Except Fault (List UInt8 × ℕ) := do
  let c ← (Cursor.start dst).put (leBytes 2 n.pageIds.length)
  let c ← n.pageIds.foldlM (fun c pageId => c.put (u64Bytes pageId.val)) c
  pure (c.buf, c.i)

/-- `from_slice`: `plen`, one bounds check `need = 2 + plen * 8`, the ids from offset 2. -/
def fromSlice (slice : List UInt8) : Except Fault FreeListTsnLeafNode :=
  if slice.length < 2 then
    reject ("Expected at least 2 bytes, got " ++ toString slice.length)
  else do
    let plen := ofLE (← sliceRange slice 0 2)
    if slice.length < 2 + plen * 8 then
      reject ("Expected at least " ++ toString (2 + plen * 8) ++ " bytes, got " ++
        toString slice.length)
    else do
      let pageIds ← readU64sAt slice 2 plen
      pure ⟨pageIds.map PageID.mk⟩

/-- `would_fit_new_page_id`: one more page id adds eight bytes. -/
def wouldFitNewPageId (n : FreeListTsnLeafNode) (maxNodeSize : ℕ) : Bool :=
  n.calcSerializedSize + 8 ≤ maxNodeSize

end FreeListTsnLeafNode

/-- `FreeListTsnInternalNode`: page-id keys and child page ids of a TSN subtree. -/
abbrev FreeListTsnInternalNode := InternalNode PageID

namespace FreeListTsnInternalNode

def calcSerializedSize (n : FreeListTsnInternalNode) : ℕ :=
  2 + n.keys.length * 8 + 2 + n.childIds.length * 8

/-- `serialize_into`: the free-list internal node's frame, with page-id keys. -/
def serializeInto (n : FreeListTsnInternalNode) (dst : List UInt8) :
    Except Fault (List UInt8 × ℕ) :=
  writeKeysAndChildren dst (n.keys.map PageID.val) (n.childIds.map PageID.val)

/-- `from_slice`: one bounds check covers the keys and the child count, a second the child
ids. -/
def fromSlice (slice : List UInt8) : Except Fault FreeListTsnInternalNode :=
  if slice.length < 2 then reject "Expected at least 2 bytes"
  else do
    let klen := ofLE (← sliceRange slice 0 2)
    if slice.length < 2 + klen * 8 + 2 then reject "Data too short"
    else do
      let keys ← readU64sAt slice 2 klen
      let offset := 2 + klen * 8
      let clen := ofLE (← sliceRange slice offset (offset + 2))
      let offset := offset + 2
      if slice.length < offset + clen * 8 then reject "Data too short"
      else do
        let childIds ← readU64sAt slice offset clen
        pure ⟨keys.map PageID.mk, childIds.map PageID.mk⟩

/-- `would_fit_new_key_and_child`: a key and a child id add sixteen bytes. -/
def wouldFitNewKeyAndChild (n : FreeListTsnInternalNode) (maxNodeSize : ℕ) : Bool :=
  n.calcSerializedSize + 16 ≤ maxNodeSize

end FreeListTsnInternalNode

end UmaDB
