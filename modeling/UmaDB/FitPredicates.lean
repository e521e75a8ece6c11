import UmaDB.FreeListCodecs

/-! # The fit predicates

Before the tree grows a free-list node it asks whether the node would still fit its page: each
predicate adds a fixed growth to the current `calc_serialized_size` (26 bytes for a new TSN entry,
8 for a page id, 16 for a key and a child). Each is exact: it holds iff the grown node's
`calc_serialized_size` is within the limit. -/
namespace UmaDB

namespace FreeListLeafNode

theorem calcSerializedSize_eq (n : FreeListLeafNode) :
    n.calcSerializedSize =
      2 + n.keys.length * 8 + (n.values.flatMap FreeListLeafValue.encode).length := by
  rw [show n.calcSerializedSize = n.encode.length from codec_layout.size_eq n, encode,
    length_leafBytes, List.length_map]

theorem calcSerializedSize_pushNewKeyAndValue (n : FreeListLeafNode) (tsn : Tsn)
    (pageId : PageID) :
    (n.pushNewKeyAndValue tsn pageId).calcSerializedSize = n.calcSerializedSize + 26 := by
  simp [calcSerializedSize_eq, pushNewKeyAndValue, FreeListLeafValue.encode]
  omega

theorem length_flatMap_set {α : Type} (f : α → List UInt8) (l : List α) (i : ℕ)
    (hi : i < l.length) (x : α) :
    ((l.set i x).flatMap f).length + (f l[i]).length = (l.flatMap f).length + (f x).length := by
  induction l generalizing i with
  | nil => simp at hi
  | cons a l ih =>
    cases i with
    | zero =>
      simp only [List.set_cons_zero, List.flatMap_cons, List.length_append, List.getElem_cons_zero]
      omega
    | succ i =>
      have := ih i (by simpa using hi)
      simp only [List.set_cons_succ, List.flatMap_cons, List.length_append,
        List.getElem_cons_succ]
      omega

/-- `push_new_page_id` at an index in range keeps the TSNs and the number of values, and adds
eight bytes. -/
theorem pushNewPageId_spec {n : FreeListLeafNode} {idx : ℕ} (h : idx < n.values.length)
    (pageId : PageID) : ∃ n', n.pushNewPageId idx pageId = .ok n' ∧ n'.keys = n.keys ∧
      n'.values.length = n.values.length ∧ n'.calcSerializedSize = n.calcSerializedSize + 8 := by
  let value := { n.values[idx] with pageIds := n.values[idx].pageIds ++ [pageId] }
  refine ⟨{ n with values := n.values.set idx value }, by rw [pushNewPageId, dif_pos h], rfl,
    List.length_set .., ?_⟩
  have := length_flatMap_set FreeListLeafValue.encode n.values idx h value
  simp only [FreeListLeafValue.encode, List.length_append, length_leBytes, List.map_append,
    List.flatMap_append, length_flatMap_u64Bytes, List.length_map, length_u64Bytes,
    List.length_singleton, List.map_cons, List.map_nil] at this
  rw [calcSerializedSize_eq, calcSerializedSize_eq]
  dsimp only
  omega

theorem wouldFitNewTsnAndPageId_iff (n : FreeListLeafNode) (maxNodeSize : ℕ) (tsn : Tsn)
    (pageId : PageID) : n.wouldFitNewTsnAndPageId maxNodeSize = true ↔
      (n.pushNewKeyAndValue tsn pageId).calcSerializedSize ≤ maxNodeSize := by
  simp only [wouldFitNewTsnAndPageId, decide_eq_true_eq, calcSerializedSize_pushNewKeyAndValue]

theorem wouldFitNewPageId_iff {n n' : FreeListLeafNode} (maxNodeSize : ℕ)
    (h : n'.calcSerializedSize = n.calcSerializedSize + 8) :
    n.wouldFitNewPageId maxNodeSize = true ↔ n'.calcSerializedSize ≤ maxNodeSize := by
  simp only [wouldFitNewPageId, decide_eq_true_eq, h]

end FreeListLeafNode

theorem fit_predicates_exact :
    (∀ (n : FreeListLeafNode) (maxNodeSize : ℕ) (tsn : Tsn) (pageId : PageID),
      n.wouldFitNewTsnAndPageId maxNodeSize = true ↔
        (n.pushNewKeyAndValue tsn pageId).calcSerializedSize ≤ maxNodeSize) ∧
    (∀ (n : FreeListLeafNode) (maxNodeSize idx : ℕ) (pageId : PageID), idx < n.values.length →
      ∃ n', n.pushNewPageId idx pageId = .ok n' ∧
        (n.wouldFitNewPageId maxNodeSize = true ↔ n'.calcSerializedSize ≤ maxNodeSize)) ∧
    (∀ (n n' : FreeListTsnLeafNode) (maxNodeSize : ℕ),
      n'.pageIds.length = n.pageIds.length + 1 →
        (n.wouldFitNewPageId maxNodeSize = true ↔ n'.calcSerializedSize ≤ maxNodeSize)) ∧
    (∀ (n n' : FreeListTsnInternalNode) (maxNodeSize : ℕ),
      n'.keys.length = n.keys.length + 1 → n'.childIds.length = n.childIds.length + 1 →
        (FreeListTsnInternalNode.wouldFitNewKeyAndChild n maxNodeSize = true ↔
          FreeListTsnInternalNode.calcSerializedSize n' ≤ maxNodeSize)) := by
  refine ⟨FreeListLeafNode.wouldFitNewTsnAndPageId_iff, fun n m idx p h => ?_,
    fun n n' m h => ?_, fun n n' m hk hc => ?_⟩
  · obtain ⟨n', hp, -, -, hs⟩ := FreeListLeafNode.pushNewPageId_spec h p
    exact ⟨n', hp, FreeListLeafNode.wouldFitNewPageId_iff m hs⟩
  · simp only [FreeListTsnLeafNode.wouldFitNewPageId, FreeListTsnLeafNode.calcSerializedSize,
      decide_eq_true_eq, h]
    omega
  · simp only [FreeListTsnInternalNode.wouldFitNewKeyAndChild,
      FreeListTsnInternalNode.calcSerializedSize, decide_eq_true_eq, hk, hc]
    omega

end UmaDB
