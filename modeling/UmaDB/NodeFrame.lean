import UmaDB.Read

/-! # What the two node files share

`events_tree_nodes.rs` and `free_lists_tree_nodes.rs` repeat code line for line, over different
key and value types; each repeated piece is defined here once, and each node type keeps its own
definition under its own name.

* `EventInternalNode`, `FreeListInternalNode` and `FreeListTsnInternalNode` have the same fields,
  and the first two the same three methods. A method that takes `&mut self` and returns a
  `DCBResult` gives the node after the call beside the result, the error case included; a panic
  gives no node.
* Both leaves are written and read in one frame: `keys_len`, the keys, then one value per key;
  both pop their last key and value the same way.
* Both free-list internal nodes are written as `keys_len`, keys, `child_ids_len`, child ids. -/
namespace UmaDB

/-- Keys and child page ids of a B⁺ internal node. -/
structure InternalNode (K : Type) where
  keys : List K
  childIds : List PageID
  deriving DecidableEq, Repr

namespace InternalNode

variable {K : Type}

/-- `replace_last_child_id`: the last child id must be `old_id`, and becomes `new_id`; otherwise
the node is left as it was and the call returns `DatabaseCorrupted`. `self.child_ids.len() - 1`
panics on a node with no children. -/
def replaceLastChildId (n : InternalNode K) (oldId newId : PageID) :
    Except Fault (InternalNode K × Except DCBError Unit) :=
  if h : n.childIds.length = 0 then .error .panic
  else
    let lastIdx := n.childIds.length - 1
    if n.childIds[lastIdx] = oldId then
      .ok ({ n with childIds := n.childIds.set lastIdx newId }, .ok ())
    else .ok (n, .error (.databaseCorrupted "Child ID mismatch"))

/-- `append_promoted_key_and_page_id`: push the key and the child id. -/
def appendPromotedKeyAndPageId (n : InternalNode K) (promotedKey : K) (promotedPageId : PageID) :
    Except Fault (InternalNode K × Except DCBError Unit) :=
  .ok (⟨n.keys ++ [promotedKey], n.childIds ++ [promotedPageId]⟩, .ok ())

/-- `split_off`: `middle_idx = keys.len() - 2`; `keys.remove(middle_idx)` is the promoted key,
`keys.split_off(middle_idx)` the right node's keys and `child_ids.split_off(middle_idx + 1)` its
child ids. Returns the shrunken node and `Ok((promoted_key, new_keys, new_child_ids))`. With
fewer than two keys `len() - 2` underflows; `split_off` past the end of `child_ids` panics. -/
def splitOff (n : InternalNode K) :
    Except Fault (InternalNode K × Except DCBError (K × List K × List PageID)) :=
  if h : n.keys.length < 2 then .error .panic
  else
    let middleIdx := n.keys.length - 2
    let promotedKey := n.keys[middleIdx]
    let keys := n.keys.eraseIdx middleIdx
    if middleIdx + 1 > n.childIds.length then .error .panic
    else
      .ok (⟨keys.take middleIdx, n.childIds.take (middleIdx + 1)⟩,
        .ok (promotedKey, keys.drop middleIdx, n.childIds.drop (middleIdx + 1)))

end InternalNode

variable {α : Type}

/-- The `pop_last_key_and_value` of both leaves: `keys.pop().expect(..)`, then
`values.pop().expect(..)`, each of which panics on an empty list. Gives the leaf afterwards,
built by `mk`, beside `Ok((last_key, last_value))`. -/
def popLast {K V L : Type} (mk : List K → List V → L) (keys : List K) (values : List V) :
    Except Fault (L × Except DCBError (K × V)) :=
  match keys.getLast?, values.getLast? with
  | some k, some v => .ok (mk keys.dropLast values.dropLast, .ok (k, v))
  | _, _ => .error .panic

/-- The `serialize_into` of both leaves: `keys_len as u16`, the keys, then the values loop. -/
def writeLeaf (buf : List UInt8) (keys : List UInt64) (values : List α)
    (writeValue : Cursor → α → Except Fault Cursor) : Except Fault (List UInt8 × ℕ) := do
  let c ← (Cursor.start buf).put (leBytes 2 keys.length)
  let c ← keys.foldlM (fun c key => c.put (u64Bytes key)) c
  let c ← values.foldlM writeValue c
  pure (c.buf, c.i)

/-- The `from_slice` of both leaves: the `keys_len` check and read, the bounds check over the
keys, the keys at `2 + i * 8`, then `keys_len` passes of `readValue` from `2 + keys_len * 8`. -/
def readLeaf (slice : List UInt8) (readValue : Reader α) : Except Fault (List UInt64 × List α) :=
  if slice.length < 2 then
    reject ("Expected at least 2 bytes, got " ++ toString slice.length)
  else do
    let keysLen := ofLE (← sliceRange slice 0 2)
    if slice.length < 2 + keysLen * 8 then
      reject ("Expected at least " ++ toString (2 + keysLen * 8) ++ " bytes for keys, got " ++
        toString slice.length)
    else do
      let keys ← readU64sAt slice 2 keysLen
      let values ← (readN readValue keysLen).run' (2 + keysLen * 8)
      pure (keys, values)

/-- The `serialize_into` of both free-list internal nodes: `keys_len`, keys, `child_ids_len`,
child ids. -/
def writeKeysAndChildren (buf : List UInt8) (keys childIds : List UInt64) :
    Except Fault (List UInt8 × ℕ) := do
  let c ← (Cursor.start buf).put (leBytes 2 keys.length)
  let c ← keys.foldlM (fun c key => c.put (u64Bytes key)) c
  let c ← c.put (leBytes 2 childIds.length)
  let c ← childIds.foldlM (fun c childId => c.put (u64Bytes childId)) c
  pure (c.buf, c.i)

/-- Both leaves on the wire: `keys_len`, the keys, the values. -/
def leafBytes (keys : List UInt64) (values : List α) (enc : α → List UInt8) : List UInt8 :=
  leBytes 2 keys.length ++ keys.flatMap u64Bytes ++ values.flatMap enc

theorem length_leafBytes (keys : List UInt64) (values : List α) (enc : α → List UInt8) :
    (leafBytes keys values enc).length = 2 + keys.length * 8 + (values.flatMap enc).length := by
  simp [leafBytes, Nat.add_assoc]

/-- A size loop `total_size += ..` that adds, each pass, the length of that pass's bytes. -/
theorem foldl_eq_add_length {f : ℕ → α → ℕ} {g : α → List UInt8}
    (h : ∀ total x, f total x = total + (g x).length) (l : List α) (a : ℕ) :
    l.foldl f a = a + (l.flatMap g).length := by
  induction l generalizing a with
  | nil => simp
  | cons x l ih => simp [h, ih, Nat.add_assoc]

/-- Writing a whole layout from the start of a buffer with room for it. -/
theorem start_put_pure {buf e : List UInt8} (h : e.length ≤ buf.length) :
    ((Cursor.start buf).put e >>= fun c => pure (c.buf, c.i)) =
      .ok (e ++ buf.drop e.length, e.length) := by
  rw [Cursor.start_put h]
  rfl

theorem writeLeaf_eq {writeValue : Cursor → α → Except Fault Cursor} {enc : α → List UInt8}
    (hw : ∀ c v, writeValue c v = c.put (enc v)) (buf : List UInt8) (keys : List UInt64)
    (values : List α) :
    writeLeaf buf keys values writeValue =
      ((Cursor.start buf).put (leafBytes keys values enc) >>= fun c => pure (c.buf, c.i)) := by
  simp only [writeLeaf, leafBytes, Cursor.foldlM_put (fun c key => rfl), Cursor.foldlM_put hw,
    Cursor.put_append, bind_assoc]

/-- Both free-list internal nodes on the wire: `keys_len`, the keys, `child_ids_len`, the child
ids. -/
def keysAndChildrenBytes (keys childIds : List UInt64) : List UInt8 :=
  leBytes 2 keys.length ++ keys.flatMap u64Bytes ++ leBytes 2 childIds.length ++
    childIds.flatMap u64Bytes

theorem length_keysAndChildrenBytes (keys childIds : List UInt64) :
    (keysAndChildrenBytes keys childIds).length =
      2 + keys.length * 8 + 2 + childIds.length * 8 := by
  simp [keysAndChildrenBytes]
  omega

theorem writeKeysAndChildren_eq (buf : List UInt8) (keys childIds : List UInt64) :
    writeKeysAndChildren buf keys childIds =
      ((Cursor.start buf).put (keysAndChildrenBytes keys childIds) >>= fun c =>
        pure (c.buf, c.i)) := by
  simp only [writeKeysAndChildren, keysAndChildrenBytes, Cursor.foldlM_put (fun c key => rfl),
    Cursor.put_append, bind_assoc]

theorem eq_append_drop_of_isPrefix {s e t : List UInt8} (hp : s <+: e ++ t)
    (hl : e.length ≤ s.length) : s = e ++ s.drop e.length := by
  have h := @drop_prefix_of_le s e t 0 (by simpa using hp) (by simpa using hl)
  simpa using h

theorem take_of_isPrefix {s e t : List UInt8} (hp : s <+: e ++ t) (hl : e.length ≤ s.length) :
    s.take e.length = e := by
  rw [eq_append_drop_of_isPrefix hp hl, List.take_left]

/-- A slice that runs along `e ++ t` holds, at an offset where `e` has `a`, the bytes of `a`,
as far as the slice reaches past them. -/
theorem drop_of_isPrefix {s e t : List UInt8} (a : List UInt8) (o : ℕ) (hp : s <+: e ++ t)
    (he : a <+: e.drop o) (hs : o + a.length ≤ s.length) :
    s.drop o = a ++ s.drop (o + a.length) := by
  obtain ⟨u, hu⟩ := hp
  obtain ⟨r, hr⟩ := he
  have h : s.drop o ++ u = a ++ (r ++ t.drop (o - e.length)) := by
    rw [← List.drop_append_of_le_length (by omega), hu, List.drop_append_eq_append_drop, ← hr,
      List.append_assoc]
  have ht : (s.drop o).take a.length = a := by
    have := congrArg (List.take a.length) h
    rwa [List.take_append_of_le_length (by simp; omega), List.take_left] at this
  conv_lhs => rw [← List.take_append_drop a.length (s.drop o), ht, List.drop_drop]

/-- The `u16` at offset `o` of a slice that has `leBytes 2 n` there. -/
theorem sliceRange_u16 {s r : List UInt8} {o n : ℕ} (h : s.drop o = leBytes 2 n ++ r)
    (ho : o ≤ s.length) : sliceRange s o (o + 2) = .ok (leBytes 2 n) := by
  simpa using sliceRange_of_drop ho h

theorem sliceRange_u16_of_isPrefix {s e t : List UInt8} {n : ℕ} (o : ℕ) (hp : s <+: e ++ t)
    (he : leBytes 2 n <+: e.drop o) (hs : o + 2 ≤ s.length) :
    sliceRange s o (o + 2) = .ok (leBytes 2 n) :=
  sliceRange_u16 (drop_of_isPrefix _ o hp he (by simpa using hs)) (by omega)

theorem readU64sAt_of_isPrefix {s e t : List UInt8} (ks : List UInt64) (o : ℕ) (hp : s <+: e ++ t)
    (he : ks.flatMap u64Bytes <+: e.drop o) (hs : o + ks.length * 8 ≤ s.length) :
    readU64sAt s o ks.length = .ok ks :=
  readU64sAt_of_drop ks (drop_of_isPrefix _ o hp he (by simpa using hs))

/-- A `u16` read inside the slice: its value fits, and the slice has its bytes there. -/
theorem sliceRange_u16_ok (s : List UInt8) (o : ℕ) (h : o + 2 ≤ s.length) :
    sliceRange s o (o + 2) = .ok ((s.drop o).take 2) ∧ ofLE ((s.drop o).take 2) ≤ 65535 ∧
      s.drop o = leBytes 2 (ofLE ((s.drop o).take 2)) ++ s.drop (o + 2) := by
  have hl : ((s.drop o).take 2).length = 2 := by simp; omega
  have hlt := ofLE_lt ((s.drop o).take 2)
  have hb := leBytes_ofLE ((s.drop o).take 2)
  rw [hl] at hlt hb
  refine ⟨by rw [sliceRange, if_pos ⟨by omega, by omega⟩, Nat.add_sub_cancel_left],
    by omega, ?_⟩
  rw [hb, ← List.drop_drop, List.take_append_drop]

theorem sliceRange_header {s : List UInt8} (h : ¬ s.length < 2) :
    sliceRange s 0 2 = .ok (s.take 2) := by
  rw [sliceRange, if_pos ⟨by omega, by omega⟩]
  rfl

theorem readLeaf_decodes {readValue : List UInt8 → Reader α} {enc : α → List UInt8}
    {keys : List UInt64} {values : List α} (hlen : keys.length = values.length)
    (hk : keys.length ≤ 65535) (hv : ∀ v ∈ values, Decodes readValue v (enc v))
    {s t : List UInt8} (hs : s <+: leafBytes keys values enc ++ t) :
    if (leafBytes keys values enc).length ≤ s.length then
      readLeaf s (readValue s) = .ok (keys, values)
    else Rejects (readLeaf s (readValue s)) := by
  rw [length_leafBytes]
  unfold readLeaf
  refine check_decodes (rejects_expected_two _) (fun _ => by omega) fun h2 => ?_
  have hp : s <+: (leBytes 2 keys.length ++ keys.flatMap u64Bytes) ++ (values.flatMap enc ++ t) :=
    by simpa [leafBytes] using hs
  have hhead : s.take 2 = leBytes 2 keys.length := by
    simpa using take_of_isPrefix (by simpa [leafBytes] using hs) (by simp; omega)
  rw [sliceRange_header h2, except_ok_bind, hhead, ofLE_leBytes_of_lt (by simp; omega)]
  refine check_decodes (rejects_expected_at_least _ _ _) (fun _ => by omega) fun h3 => ?_
  have hsplit := eq_append_drop_of_isPrefix hp (by simp; omega)
  have hd : s.drop 2 = keys.flatMap u64Bytes ++ s.drop (2 + keys.length * 8) := by
    conv_lhs => rw [hsplit]
    simp [List.drop_append_eq_append_drop]
  have hpv : s.drop (2 + keys.length * 8) <+: values.flatMap enc ++ t := by
    have := hp.drop (2 + keys.length * 8)
    rwa [List.drop_left' (by simp)] at this
  have hN := readN_decodes hv s (2 + keys.length * 8) t (by omega) hpv
  rw [← hlen] at hN
  rw [readU64sAt_of_drop keys hd, except_ok_bind]
  split_ifs at hN with h4
  · rw [if_pos (by omega)]
    simp only [StateT.run', StateT.run] at hN ⊢
    rw [hN]
    rfl
  · rw [if_neg (by omega)]
    exact (hN.map Prod.fst).bind _

theorem take_two_ofLE (s : List UInt8) (h : ¬ s.length < 2) :
    ofLE (s.take 2) ≤ 65535 ∧ leBytes 2 (ofLE (s.take 2)) = s.take 2 := by
  have hl : (s.take 2).length = 2 := by simp; omega
  have := ofLE_lt (s.take 2)
  rw [hl] at this
  have hb := leBytes_ofLE (s.take 2)
  rw [hl] at hb
  exact ⟨by omega, hb⟩

theorem readLeaf_parses {readValue : List UInt8 → Reader α} {P : α → Prop}
    {enc : α → List UInt8} (hv : Parses readValue fun v e => P v ∧ e = enc v) (s : List UInt8) :
    Rejects (readLeaf s (readValue s)) ∨ ∃ keys values,
      readLeaf s (readValue s) = .ok (keys, values) ∧ keys.length = values.length ∧
      keys.length ≤ 65535 ∧ (∀ v ∈ values, P v) ∧ leafBytes keys values enc <+: s := by
  unfold readLeaf
  by_cases h2 : s.length < 2
  · exact .inl (by rw [if_pos h2]; exact rejects_expected_two _)
  rw [if_neg h2, sliceRange_header h2, except_ok_bind]
  obtain ⟨hk, ht⟩ := take_two_ofLE s h2
  by_cases h3 : s.length < 2 + ofLE (s.take 2) * 8
  · exact .inl (by rw [if_pos h3]; exact rejects_expected_at_least _ _ _)
  rw [if_neg h3]
  obtain ⟨keys, hks, hkl, hkd⟩ := @readU64sAt_ok s (ofLE (s.take 2)) 2 (by omega)
  rw [hks, except_ok_bind]
  rcases readN_parses hv (ofLE (s.take 2)) s (2 + ofLE (s.take 2) * 8) with
    hr | ⟨values, e, hrun, hdrop, hl, hP, he⟩
  · exact .inl ((hr.map Prod.fst).bind _)
  · refine .inr ⟨keys, values, ?_, by omega, by omega, hP,
      s.drop (2 + keys.length * 8 + e.length), ?_⟩
    · simp only [StateT.run', StateT.run] at hrun ⊢
      rw [hrun]
      rfl
    · rw [hkl]
      calc leafBytes keys values enc ++ s.drop (2 + ofLE (s.take 2) * 8 + e.length)
          = s.take 2 ++
              (keys.flatMap u64Bytes ++ (e ++ s.drop (2 + ofLE (s.take 2) * 8 + e.length))) := by
            simp [leafBytes, hkl, ht, he]
        _ = s := by rw [← hdrop, ← hkd, List.take_append_drop]

end UmaDB
