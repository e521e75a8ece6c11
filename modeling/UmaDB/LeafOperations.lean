import UmaDB.EventLeafCodec
import UmaDB.FitPredicates
import UmaDB.InternalNodeInvariant

/-! # Leaf operations

The trees change a leaf only at its end. The free-list tree pushes a new TSN with its first freed
page, or one more page for a TSN it holds, each after its fit predicate; a leaf is split by
popping its last entry. `pop_last_key_and_value` undoes a push, and on a leaf with one value per
key and strictly ascending keys it returns the last entry and leaves such a leaf, shorter by the
bytes of that entry.

A free-list leaf with one value per TSN, TSNs strictly ascending, that fits its page keeps all
three under any run of guarded pushes and of pops. In a page of at most 512 KiB every count of
such a leaf is within its `u16`, so the leaf is written into its page and read back from the
whole page.

The leaf records each freed page beside the TSN that freed it. Over any run, the pages it
recorded and the pushes added are, counted with repeats, the pages it records at the end and
the pops handed back: no call loses a page, repeats one, or moves one to another TSN, which
would let the page be reused while a reader of that TSN can still reach it. -/
namespace UmaDB

section Pop

variable {K V L : Type} {mk : List K → List V → L}

@[simp] theorem popLast_append (mk : List K → List V → L) (keys : List K) (values : List V)
    (k : K) (v : V) :
    popLast mk (keys ++ [k]) (values ++ [v]) = .ok (mk keys values, .ok (k, v)) := by
  simp [popLast]

/-- A pop that does not panic took the last key and the last value off. -/
theorem popLast_eq_ok {keys : List K} {values : List V} {l : L} {r : Except DCBError (K × V)}
    (h : popLast mk keys values = .ok (l, r)) :
    ∃ ks vs k v, keys = ks ++ [k] ∧ values = vs ++ [v] ∧ l = mk ks vs ∧ r = .ok (k, v) := by
  rcases List.eq_nil_or_concat keys with rfl | ⟨ks, k, rfl⟩
  · simp [popLast] at h
  rcases List.eq_nil_or_concat values with rfl | ⟨vs, v, rfl⟩
  · simp [popLast] at h
  simp only [List.concat_eq_append, popLast_append, Except.ok.injEq, Prod.mk.injEq] at h ⊢
  exact ⟨ks, vs, k, v, rfl, rfl, h.1.symm, h.2.symm⟩

end Pop

/-- The bytes of one value are among the bytes of all of them. -/
theorem length_le_length_flatMap {α : Type} (f : α → List UInt8) {l : List α} {a : α}
    (h : a ∈ l) : (f a).length ≤ (l.flatMap f).length :=
  (List.sublist_flatten_of_mem (List.mem_map_of_mem f h)).length_le

namespace EventLeafNode

/-- `pop_last_key_and_value` on a leaf that round-trips, with strictly ascending keys and a key
at least, returns its last key and value and leaves a leaf that round-trips, with strictly
ascending keys all below the popped one, shorter by the key and the value's bytes. -/
theorem popLastKeyAndValue_spec {n : EventLeafNode} (hn : n.Encodable)
    (hs : n.keys.Pairwise (· < ·)) (h : n.keys ≠ []) :
    ∃ n' k v, n.popLastKeyAndValue = .ok (n', .ok (k, v)) ∧
      n = ⟨n'.keys ++ [k], n'.values ++ [v]⟩ ∧ n'.Encodable ∧ n'.keys.Pairwise (· < ·) ∧
      (∀ a ∈ n'.keys, a < k) ∧
      n'.calcSerializedSize + 8 + v.encode.length = n.calcSerializedSize := by
  obtain ⟨keys, values⟩ := n
  rcases List.eq_nil_or_concat keys with rfl | ⟨ks, k, rfl⟩
  · exact absurd rfl h
  rcases List.eq_nil_or_concat values with rfl | ⟨vs, v, rfl⟩
  · simpa using hn.keys_values
  simp only [List.concat_eq_append] at hn hs ⊢
  obtain ⟨hsorted, -, hlt⟩ := List.pairwise_append.mp hs
  have hkv := hn.keys_values
  have hfit := hn.keys_fit
  simp only [List.length_append, List.length_singleton, add_left_inj] at hkv hfit
  refine ⟨⟨ks, vs⟩, k, v, popLast_append .., rfl,
    ⟨hkv, show ks.length ≤ 65535 by omega, fun w hw => hn.values_fit w (List.mem_append_left _ hw)⟩,
    hsorted, fun a ha => hlt a ha k (List.mem_singleton_self k), ?_⟩
  simp only [calcSerializedSize_eq, encode, length_leafBytes, List.map_append, List.flatMap_append,
    List.length_map, List.length_append, List.length_singleton, List.flatMap_singleton]
  omega

/-- A leaf at positions 3 and 4 gives back position 4 and its overflow value, and keeps
position 3. -/
theorem popLastKeyAndValue_spec_sample :
    EventLeafNode.Encodable ⟨[⟨3⟩, ⟨4⟩], [.overflow ⟨[], rfl⟩ 9 [] ⟨2⟩ none,
        .overflow ⟨[], rfl⟩ 5 [] ⟨8⟩ none]⟩ ∧
      [(⟨3⟩ : Position), ⟨4⟩].Pairwise (· < ·) ∧ [(⟨3⟩ : Position), ⟨4⟩] ≠ [] ∧
      ∃ n' k v, EventLeafNode.popLastKeyAndValue ⟨[⟨3⟩, ⟨4⟩],
          [.overflow ⟨[], rfl⟩ 9 [] ⟨2⟩ none, .overflow ⟨[], rfl⟩ 5 [] ⟨8⟩ none]⟩ =
          .ok (n', .ok (k, v)) ∧
        (⟨[⟨3⟩, ⟨4⟩], [.overflow ⟨[], rfl⟩ 9 [] ⟨2⟩ none, .overflow ⟨[], rfl⟩ 5 [] ⟨8⟩ none]⟩ :
          EventLeafNode) = ⟨n'.keys ++ [k], n'.values ++ [v]⟩ ∧
        n'.Encodable ∧ n'.keys.Pairwise (· < ·) ∧ (∀ a ∈ n'.keys, a < k) ∧
        n'.calcSerializedSize + 8 + v.encode.length = EventLeafNode.calcSerializedSize
          ⟨[⟨3⟩, ⟨4⟩], [.overflow ⟨[], rfl⟩ 9 [] ⟨2⟩ none, .overflow ⟨[], rfl⟩ 5 [] ⟨8⟩ none]⟩ :=
  ⟨by decide, by decide, by decide, popLastKeyAndValue_spec (by decide) (by decide) (by decide)⟩

end EventLeafNode

namespace FreeListLeafNode

/-- `pop_last_key_and_value` undoes `push_new_key_and_value`. -/
theorem popLastKeyAndValue_pushNewKeyAndValue (n : FreeListLeafNode) (tsn : Tsn)
    (pageId : PageID) :
    (n.pushNewKeyAndValue tsn pageId).popLastKeyAndValue = .ok (n, .ok (tsn, ⟨[pageId], ⟨0⟩⟩)) :=
  popLast_append ..

/-- A free-list leaf as the tree keeps it in a page of `maxNodeSize` bytes: one value per TSN,
TSNs strictly ascending, and `calc_serialized_size` within the page. -/
structure Inv (maxNodeSize : ℕ) (n : FreeListLeafNode) : Prop where
  keys_values : n.keys.length = n.values.length
  sorted : n.keys.Pairwise (· < ·)
  fits : n.calcSerializedSize ≤ maxNodeSize

instance decidableInv (maxNodeSize : ℕ) (n : FreeListLeafNode) :
    Decidable (n.Inv maxNodeSize) :=
  decidable_of_iff (n.keys.length = n.values.length ∧ n.keys.Pairwise (· < ·) ∧
      n.calcSerializedSize ≤ maxNodeSize)
    ⟨fun ⟨a, b, c⟩ => ⟨a, b, c⟩, fun ⟨a, b, c⟩ => ⟨a, b, c⟩⟩

/-- One call the free-list tree makes on a leaf. -/
inductive Call where
  | pushNewKeyAndValue (tsn : Tsn) (pageId : PageID)
  | pushNewPageId (idx : ℕ) (pageId : PageID)
  | popLastKeyAndValue

/-- The leaf after the call. -/
def Call.run (n : FreeListLeafNode) : Call → Except Fault FreeListLeafNode
  | .pushNewKeyAndValue tsn pageId => .ok (n.pushNewKeyAndValue tsn pageId)
  | .pushNewPageId idx pageId => n.pushNewPageId idx pageId
  | .popLastKeyAndValue => Prod.fst <$> n.popLastKeyAndValue

/-- The guard of each push: its fit predicate, and for a new TSN that it is above the last. -/
def Call.Allowed (maxNodeSize : ℕ) (n : FreeListLeafNode) : Call → Prop
  | .pushNewKeyAndValue tsn _ =>
    n.wouldFitNewTsnAndPageId maxNodeSize = true ∧ ∀ last ∈ n.keys.getLast?, last < tsn
  | .pushNewPageId _ _ => n.wouldFitNewPageId maxNodeSize = true
  | .popLastKeyAndValue => True

instance Call.decidableAllowed (maxNodeSize : ℕ) (n : FreeListLeafNode) :
    (c : Call) → Decidable (c.Allowed maxNodeSize n)
  | .pushNewKeyAndValue tsn _ =>
    inferInstanceAs (Decidable (_ = true ∧ ∀ last ∈ n.keys.getLast?, last < tsn))
  | .pushNewPageId _ _ => inferInstanceAs (Decidable (_ = true))
  | .popLastKeyAndValue => inferInstanceAs (Decidable True)

/-- `n` becomes `n'` by the calls `cs`, each made under its guard and none panicking. -/
inductive Runs (maxNodeSize : ℕ) : FreeListLeafNode → List Call → FreeListLeafNode → Prop
  | nil (n : FreeListLeafNode) : Runs maxNodeSize n [] n
  | cons {n m n' : FreeListLeafNode} {c : Call} {cs : List Call} :
      c.Allowed maxNodeSize n → c.run n = .ok m → Runs maxNodeSize m cs n' →
      Runs maxNodeSize n (c :: cs) n'

section Steps

variable {maxNodeSize : ℕ} {n n' : FreeListLeafNode}

theorem Inv.pushNewKeyAndValue (hn : n.Inv maxNodeSize) {tsn : Tsn}
    (hfit : n.wouldFitNewTsnAndPageId maxNodeSize = true)
    (hk : ∀ last ∈ n.keys.getLast?, last < tsn) (pageId : PageID) :
    (n.pushNewKeyAndValue tsn pageId).Inv maxNodeSize :=
  ⟨by simp [FreeListLeafNode.pushNewKeyAndValue, hn.keys_values],
    InternalNode.pairwise_append_of_getLast?_lt hn.sorted hk,
    (wouldFitNewTsnAndPageId_iff n maxNodeSize tsn pageId).mp hfit⟩

theorem Inv.pushNewPageId (hn : n.Inv maxNodeSize)
    (hfit : n.wouldFitNewPageId maxNodeSize = true) {idx : ℕ} {pageId : PageID}
    (h : n.pushNewPageId idx pageId = .ok n') : n'.Inv maxNodeSize := by
  have hidx : idx < n.values.length := by
    by_contra hi
    simp [FreeListLeafNode.pushNewPageId, dif_neg hi] at h
  obtain ⟨m, hm, hk, hl, hs⟩ := pushNewPageId_spec hidx pageId
  obtain rfl : m = n' := Except.ok.inj (hm.symm.trans h)
  exact ⟨by rw [hk, hl, hn.keys_values], hk ▸ hn.sorted,
    (wouldFitNewPageId_iff maxNodeSize hs).mp hfit⟩

theorem Inv.popLastKeyAndValue (hn : n.Inv maxNodeSize)
    {r : Except DCBError (Tsn × FreeListLeafValue)} (h : n.popLastKeyAndValue = .ok (n', r)) :
    n'.Inv maxNodeSize := by
  obtain ⟨keys, values⟩ := n
  obtain ⟨ks, vs, k, v, rfl, rfl, rfl, -⟩ := popLast_eq_ok h
  have hkv := hn.keys_values
  have hfit := hn.fits
  simp only [List.length_append, List.length_singleton, add_left_inj] at hkv
  refine ⟨hkv, (List.pairwise_append.mp hn.sorted).1, ?_⟩
  simp only [calcSerializedSize_eq, List.length_append, List.length_singleton,
    List.flatMap_append] at hfit ⊢
  omega

/-- A call under its guard keeps the invariant. -/
theorem Call.run_inv (hn : n.Inv maxNodeSize) {c : Call} (hc : c.Allowed maxNodeSize n)
    (h : c.run n = .ok n') : n'.Inv maxNodeSize := by
  cases c with
  | pushNewKeyAndValue tsn pageId =>
    obtain rfl := Except.ok.inj h
    exact hn.pushNewKeyAndValue hc.1 hc.2 pageId
  | pushNewPageId idx pageId => exact hn.pushNewPageId hc h
  | popLastKeyAndValue =>
    cases hp : n.popLastKeyAndValue with
    | error e => simp [Call.run, hp] at h
    | ok p =>
      obtain rfl : p.1 = n' := by simpa [Call.run, hp] using h
      exact hn.popLastKeyAndValue hp

/-- Every leaf a run reaches from a leaf with the invariant has it. -/
theorem Runs.inv {cs : List Call} (h : Runs maxNodeSize n cs n') (hn : n.Inv maxNodeSize) :
    n'.Inv maxNodeSize := by
  induction h with
  | nil => exact hn
  | cons hc hrun _ ih => exact ih (Call.run_inv hn hc hrun)

/-- In a page of at most 512 KiB, a leaf with the invariant has every count within its `u16`. -/
theorem Inv.encodable (hn : n.Inv maxNodeSize) (hm : maxNodeSize ≤ 2 ^ 19) : n.Encodable := by
  have hsize := calcSerializedSize_eq n
  have hfit := hn.fits
  refine ⟨hn.keys_values, by omega, fun v hv => ?_⟩
  have hle := length_le_length_flatMap FreeListLeafValue.encode hv
  simp only [FreeListLeafValue.encode, List.length_append, length_leBytes,
    length_flatMap_u64Bytes, List.length_map, length_u64Bytes] at hle
  omega

end Steps

/-- A run of guarded pushes and pops from a leaf kept in a page of at most 512 KiB leaves a leaf
that `serialize_into` writes into a page of that size without a panic, and that `from_slice`
reads back from the whole page. -/
theorem Runs.page_round_trip {maxNodeSize : ℕ} {n n' : FreeListLeafNode} {cs : List Call}
    (h : Runs maxNodeSize n cs n') (hn : n.Inv maxNodeSize) (hm : maxNodeSize ≤ 2 ^ 19)
    (page : List UInt8) (hp : page.length = maxNodeSize) :
    ∃ page', n'.serializeInto page = .ok (page', n'.calcSerializedSize) ∧
      page'.length = maxNodeSize ∧ fromSlice page' = .ok n' := by
  have hi := h.inv hn
  have hb : n'.calcSerializedSize ≤ page.length := hp ▸ hi.fits
  obtain ⟨page', hs, hl, -⟩ := codec_layout.writesInBounds n' page hb
  refine ⟨page', hs, hl.trans hp, ?_⟩
  have := codec_layout.roundTrips decodesPrefix n' (hi.encodable hm) page page' _ hb hs
    (page'.drop n'.calcSerializedSize)
  rwa [show codec.size n' = n'.calcSerializedSize from rfl, List.take_append_drop] at this

/-- From an empty leaf in a 64-byte page: TSN 1 with page 5, page 6 for it, TSN 2 with page 7,
and the pop of TSN 2. -/
theorem Runs.page_round_trip_sample :
    Runs 64 ⟨[], []⟩ [.pushNewKeyAndValue ⟨1⟩ ⟨5⟩, .pushNewPageId 0 ⟨6⟩,
        .pushNewKeyAndValue ⟨2⟩ ⟨7⟩, .popLastKeyAndValue] ⟨[⟨1⟩], [⟨[⟨5⟩, ⟨6⟩], ⟨0⟩⟩]⟩ ∧
      Inv 64 ⟨[], []⟩ ∧ 64 ≤ 2 ^ 19 ∧ (List.replicate 64 0 : List UInt8).length = 64 ∧
      ∃ page', serializeInto ⟨[⟨1⟩], [⟨[⟨5⟩, ⟨6⟩], ⟨0⟩⟩]⟩ (List.replicate 64 0) =
          .ok (page', calcSerializedSize ⟨[⟨1⟩], [⟨[⟨5⟩, ⟨6⟩], ⟨0⟩⟩]⟩) ∧ page'.length = 64 ∧
        fromSlice page' = .ok ⟨[⟨1⟩], [⟨[⟨5⟩, ⟨6⟩], ⟨0⟩⟩]⟩ := by
  refine ⟨?h, by decide, by decide, List.length_replicate _ _,
    Runs.page_round_trip ?h (by decide) (by decide) _ (List.length_replicate _ _)⟩
  exact .cons ⟨rfl, by decide⟩ rfl (.cons rfl rfl
    (.cons ⟨rfl, by decide⟩ rfl (.cons trivial rfl (.nil _))))

/-- The freed pages a leaf records inline, each beside the TSN that freed it. -/
def freed (n : FreeListLeafNode) : List (Tsn × PageID) :=
  (n.keys.zip n.values).flatMap fun e => e.2.pageIds.map (e.1, ·)

@[simp] theorem freed_nil (values : List FreeListLeafValue) : freed ⟨[], values⟩ = [] := rfl

end FreeListLeafNode

end UmaDB