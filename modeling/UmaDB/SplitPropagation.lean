import UmaDB.InternalNodeInvariant
import UmaDB.LeafOperations

/-! # Splitting the rightmost child

Both trees grow at their right edge. When a node there is split, the spec fixes its parent with
two calls: the parent's last child pointer is rewritten to the split node's new copy
(`replace_last_child_id`), then the promoted key is appended with the new right node
(`append_promoted_key_and_page_id`). An internal node is split by `split_off`; a leaf hands its
last entry to a new right leaf (`pop_last_key_and_value`), and that entry's key is promoted. A
root splits the same way under a parent with no keys and the root as its one child.

Looked up through the parent, every key reaches the same entry after the split as before: the
split changes where entries are stored, not what the two levels hold, and the parent keeps the
B⁺ invariant. Routing is the spec's (`InternalNode.route`), a leaf is searched by key
(`leafGet`), and the split node's two halves are stored at fresh page ids. -/
namespace UmaDB

section LeafGet

variable {K V : Type} [LinearOrder K]

/-- Modelled from the spec: the value a leaf holds for `q`, the one beside the first occurrence
of `q` among its keys, as `get(position)` finds it within one leaf. -/
def leafGet : List K → List V → K → Option V
  | k :: ks, v :: vs, q => if k = q then some v else leafGet ks vs q
  | _, _, _ => none

theorem leafGet_append : ∀ {ks : List K} {vs : List V}, ks.length = vs.length →
    ∀ (ks' : List K) (vs' : List V) (q : K),
      leafGet (ks ++ ks') (vs ++ vs') q = (leafGet ks vs q).or (leafGet ks' vs' q)
  | [], [], _, _, _, _ => rfl
  | [], _ :: _, h, _, _, _ => absurd h (by simp)
  | _ :: _, [], h, _, _, _ => absurd h (by simp)
  | k :: ks, v :: vs, h, ks', vs', q => by
    simp only [List.cons_append, leafGet]
    split_ifs
    · rfl
    · exact leafGet_append (by simpa using h) ks' vs' q

theorem leafGet_eq_none : ∀ {ks : List K} {vs : List V} {q : K}, q ∉ ks → leafGet ks vs q = none
  | [], _, _, _ => rfl
  | _ :: _, [], _, _ => rfl
  | k :: ks, _ :: _, q, h => by
    rw [leafGet, if_neg fun he : k = q => h (List.mem_cons.mpr (.inl he.symm)),
      leafGet_eq_none fun hq => h (List.mem_cons_of_mem k hq)]

/-- A leaf whose last key `k` is above the others: the keys below `k` are found among the others,
the keys from `k` up in the last entry alone. -/
theorem leafGet_concat {ks : List K} {vs : List V} (h : ks.length = vs.length) {k : K}
    (hk : ∀ a ∈ ks, a < k) (v : V) (q : K) :
    leafGet (ks ++ [k]) (vs ++ [v]) q = if q < k then leafGet ks vs q else leafGet [k] [v] q := by
  rw [leafGet_append h]
  split_ifs with hq
  · rw [@leafGet_eq_none K V _ [k] [v] q (by simpa using hq.ne), Option.or_none]
  · rw [leafGet_eq_none fun hm => hq (hk q hm)]
    rfl

end LeafGet

namespace InternalNode

variable {K : Type} [LinearOrder K]

/-- Modelled from the spec: a key looked up through a parent, routed to a child page and then
looked up in that child by `look`. -/
def descend {N β : Type} (P : InternalNode K) (child : PageID → Option N)
    (look : N → K → Option β) (q : K) : Option β :=
  (P.route q).bind fun c => (child c).bind fun n => look n q

section Promote

variable {P : InternalNode K} {k : K}

/-- The parent after both calls keeps the invariant when the promoted key is above its keys. -/
theorem Inv.promote (hP : P.Inv) (hk : ∀ a ∈ P.keys, a < k) (leftId rightId : PageID) :
    (⟨P.keys ++ [k], P.childIds.dropLast ++ [leftId] ++ [rightId]⟩ : InternalNode K).Inv :=
  ⟨by simp [hP.childIds_length], List.pairwise_append.mpr ⟨hP.sorted, List.pairwise_singleton _ _,
    fun a ha _ hb => List.mem_singleton.mp hb ▸ hk a ha⟩⟩

/-- The parent after both calls: the keys from `k` up go to the new right node, the other keys
its last child covered to the split node's copy, and the rest where they went. -/
theorem route_promote (hP : P.Inv) (hk : ∀ a ∈ P.keys, a < k) (leftId rightId : PageID)
    (q : K) :
    route ⟨P.keys ++ [k], P.childIds.dropLast ++ [leftId] ++ [rightId]⟩ q =
      if q < k then (if ∀ a ∈ P.keys, a ≤ q then some leftId else P.route q)
      else some rightId := by
  have hP₁ : (⟨P.keys, P.childIds.dropLast ++ [leftId]⟩ : InternalNode K).Inv :=
    ⟨by simp [hP.childIds_length], hP.sorted⟩
  rw [route_append hP₁ hk, route_replaceLast hP]

variable {N β : Type} {look : N → K → Option β} {oldId leftId rightId : PageID}
  {child child' : PageID → Option N} {C left right : N}

/-- A page map that changed only the pages at two ids a parent does not point at gives every key
the lookup it had through that parent: a reader of the snapshot before the split, which holds the
old parent, sees what it saw. -/
theorem descend_of_agree (hleft : leftId ∉ P.childIds) (hright : rightId ∉ P.childIds)
    (hrest : ∀ c, c ≠ leftId → c ≠ rightId → child' c = child c) (q : K) :
    descend P child' look q = descend P child look q := by
  unfold descend
  cases hr : P.route q with
  | none => rfl
  | some c =>
    have hc : c ∈ P.childIds := List.getElem?_mem hr
    simp only [Option.some_bind,
      hrest c (ne_of_mem_of_not_mem hc hleft) (ne_of_mem_of_not_mem hc hright)]

/-- The parent fixed after its last child `C` was split at `k` into `left` and `right`, stored at
fresh page ids, gives every key the lookup it had. -/
theorem descend_promote (hP : P.Inv) (hlast : P.childIds.getLast? = some oldId)
    (hleft : leftId ∉ P.childIds) (hright : rightId ∉ P.childIds) (hC : child oldId = some C)
    (hk : ∀ a ∈ P.keys, a < k)
    (hsplit : ∀ q, look C q = if q < k then look left q else look right q)
    (hl : child' leftId = some left) (hr : child' rightId = some right)
    (hrest : ∀ c, c ≠ leftId → c ≠ rightId → child' c = child c) (q : K) :
    descend ⟨P.keys ++ [k], P.childIds.dropLast ++ [leftId] ++ [rightId]⟩ child' look q =
      descend P child look q := by
  simp only [descend, route_promote hP hk]
  split_ifs with hq hall
  · simp [route_of_forall_le hP hall, hlast, hl, hC, hsplit, hq]
  · exact descend_of_agree hleft hright hrest q
  · have hall : ∀ a ∈ P.keys, a ≤ q := fun a ha => (hk a ha).le.trans (not_lt.mp hq)
    simp [route_of_forall_le hP hall, hlast, hr, hC, hsplit, hq]

end Promote

variable {P : InternalNode K} {oldId leftId rightId : PageID}

/-- The split of the parent's last child, an internal node with two keys or more whose keys are
above the parent's: `split_off` and both calls on the parent return `Ok`, and the parent keeps
the invariant. Once the two halves are stored at their fresh page ids and no other page changed,
every key is routed through the new parent to the page it reached before, and through the old
one, as a reader of the previous snapshot does, too. -/
theorem descend_splitOff (hP : P.Inv) (hlast : P.childIds.getLast? = some oldId)
    (hleft : leftId ∉ P.childIds) (hright : rightId ∉ P.childIds)
    {child : PageID → Option (InternalNode K)} {C : InternalNode K} (hC : child oldId = some C)
    (hCi : C.Inv) (h2 : 2 ≤ C.keys.length) (hsep : ∀ a ∈ P.keys, ∀ b ∈ C.keys, a < b) :
    ∃ left k rk rc P₁ P', C.splitOff = .ok (left, .ok (k, rk, rc)) ∧
      P.replaceLastChildId oldId leftId = .ok (P₁, .ok ()) ∧
      P₁.appendPromotedKeyAndPageId k rightId = .ok (P', .ok ()) ∧ P'.Inv ∧
      ∀ child' : PageID → Option (InternalNode K), child' leftId = some left →
        child' rightId = some ⟨rk, rc⟩ → (∀ c, c ≠ leftId → c ≠ rightId → child' c = child c) →
        ∀ q, P'.descend child' route q = P.descend child route q ∧
          P.descend child' route q = P.descend child route q := by
  obtain ⟨left, k, rk, rc, hs, hsp⟩ := splitOff_spec hCi h2
  have hkC : k ∈ C.keys := hsp.keys_eq ▸ by simp
  have hk : ∀ a ∈ P.keys, a < k := fun a ha => hsep a ha k hkC
  exact ⟨left, k, rk, rc, _, _, hs, replaceLastChildId_of_getLast? hP hlast leftId, rfl,
    hP.promote hk leftId rightId, fun _ hl hr hrest q =>
      ⟨descend_promote hP hlast hleft hright hC hk hsp.route_eq hl hr hrest q,
        descend_of_agree hleft hright hrest q⟩⟩

/-- A root over positions 3 and 5 splits under a parent with no keys and the root as its child:
position 3 is promoted, the root's copy is page 2 and the new right node page 4. -/
theorem descend_splitOff_sample :
    (⟨[], [⟨1⟩]⟩ : InternalNode Position).Inv ∧ [(⟨1⟩ : PageID)].getLast? = some ⟨1⟩ ∧
      (⟨2⟩ : PageID) ∉ [(⟨1⟩ : PageID)] ∧ (⟨4⟩ : PageID) ∉ [(⟨1⟩ : PageID)] ∧
      (⟨[⟨3⟩, ⟨5⟩], [⟨10⟩, ⟨11⟩, ⟨12⟩]⟩ : InternalNode Position).Inv ∧
      ∃ left k rk rc P₁ P',
        (⟨[⟨3⟩, ⟨5⟩], [⟨10⟩, ⟨11⟩, ⟨12⟩]⟩ : InternalNode Position).splitOff =
          .ok (left, .ok (k, rk, rc)) ∧
        (⟨[], [⟨1⟩]⟩ : InternalNode Position).replaceLastChildId ⟨1⟩ ⟨2⟩ = .ok (P₁, .ok ()) ∧
        P₁.appendPromotedKeyAndPageId k ⟨4⟩ = .ok (P', .ok ()) ∧ P'.Inv ∧
        ∀ child' : PageID → Option (InternalNode Position), child' ⟨2⟩ = some left →
          child' ⟨4⟩ = some ⟨rk, rc⟩ → (∀ c, c ≠ ⟨2⟩ → c ≠ ⟨4⟩ → child' c =
            if c = ⟨1⟩ then some ⟨[⟨3⟩, ⟨5⟩], [⟨10⟩, ⟨11⟩, ⟨12⟩]⟩ else none) →
          ∀ q, P'.descend child' route q = (⟨[], [⟨1⟩]⟩ : InternalNode Position).descend
              (fun c => if c = ⟨1⟩ then some ⟨[⟨3⟩, ⟨5⟩], [⟨10⟩, ⟨11⟩, ⟨12⟩]⟩ else none) route q ∧
            (⟨[], [⟨1⟩]⟩ : InternalNode Position).descend child' route q =
              (⟨[], [⟨1⟩]⟩ : InternalNode Position).descend
                (fun c => if c = ⟨1⟩ then some ⟨[⟨3⟩, ⟨5⟩], [⟨10⟩, ⟨11⟩, ⟨12⟩]⟩ else none)
                route q :=
  ⟨by decide, rfl, by decide, by decide, by decide,
    descend_splitOff (by decide) (by rfl) (by decide) (by decide) (by rfl) (by decide) (by decide)
      (by decide)⟩

/-- The split of the parent's last child, a leaf with one value per key, keys strictly ascending
and its last key above the parent's: the pop and both calls on the parent return `Ok`, and the
parent keeps the invariant. Once the rest of the leaf and a new leaf of the popped entry alone are
stored at their fresh page ids and no other page changed, every key finds through the new parent
the value it found before, and through the old one too. -/
theorem descend_popLast {L V : Type} {mk : List K → List V → L} {look : L → K → Option V}
    (hlook : ∀ ks vs, look (mk ks vs) = leafGet ks vs) (hP : P.Inv)
    (hlast : P.childIds.getLast? = some oldId) (hleft : leftId ∉ P.childIds)
    (hright : rightId ∉ P.childIds) {leaves : PageID → Option L} {keys : List K}
    {values : List V} (hL : leaves oldId = some (mk keys values))
    (hkv : keys.length = values.length) (hs : keys.Pairwise (· < ·)) (hne : keys ≠ [])
    (hsep : ∀ a ∈ P.keys, ∀ b ∈ keys.getLast?, a < b) :
    ∃ left k v P₁ P', popLast mk keys values = .ok (left, .ok (k, v)) ∧
      P.replaceLastChildId oldId leftId = .ok (P₁, .ok ()) ∧
      P₁.appendPromotedKeyAndPageId k rightId = .ok (P', .ok ()) ∧ P'.Inv ∧
      ∀ leaves' : PageID → Option L, leaves' leftId = some left →
        leaves' rightId = some (mk [k] [v]) →
        (∀ c, c ≠ leftId → c ≠ rightId → leaves' c = leaves c) →
        ∀ q, P'.descend leaves' look q = P.descend leaves look q ∧
          P.descend leaves' look q = P.descend leaves look q := by
  rcases List.eq_nil_or_concat keys with rfl | ⟨ks, k, rfl⟩
  · exact absurd rfl hne
  rcases List.eq_nil_or_concat values with rfl | ⟨vs, v, rfl⟩
  · simp at hkv
  simp only [List.concat_eq_append, List.length_append, List.length_singleton,
    add_left_inj] at hL hkv hs hsep ⊢
  have hk : ∀ a ∈ P.keys, a < k := fun a ha => hsep a ha k (by simp)
  have hks : ∀ a ∈ ks, a < k := fun a ha =>
    (List.pairwise_append.mp hs).2.2 a ha k (List.mem_singleton_self k)
  have hsplit : ∀ q, look (mk (ks ++ [k]) (vs ++ [v])) q =
      if q < k then look (mk ks vs) q else look (mk [k] [v]) q := fun q => by
    rw [hlook, hlook, hlook, leafGet_concat hkv hks]
  exact ⟨mk ks vs, k, v, _, _, popLast_append .., replaceLastChildId_of_getLast? hP hlast leftId,
    rfl, hP.promote hk leftId rightId, fun _ hl hr hrest q =>
      ⟨descend_promote hP hlast hleft hright hL hk hsplit hl hr hrest q,
        descend_of_agree hleft hright hrest q⟩⟩

/-- An event leaf at positions 3 and 4, the root, splits under a parent with no keys: position 4
moves to a new right leaf at page 4 and is promoted, and the rest is copied to page 2. -/
theorem descend_popLast_sample :
    (∀ ks vs, (fun l : EventLeafNode => leafGet l.keys l.values) (EventLeafNode.mk ks vs) =
      leafGet ks vs) ∧
      (⟨[], [⟨1⟩]⟩ : InternalNode Position).Inv ∧ [(⟨1⟩ : PageID)].getLast? = some ⟨1⟩ ∧
      (⟨2⟩ : PageID) ∉ [(⟨1⟩ : PageID)] ∧ (⟨4⟩ : PageID) ∉ [(⟨1⟩ : PageID)] ∧
      [(⟨3⟩ : Position), ⟨4⟩].Pairwise (· < ·) ∧
      ∃ left k v P₁ P', popLast EventLeafNode.mk [⟨3⟩, ⟨4⟩]
          [.overflow ⟨[], rfl⟩ 9 [] ⟨7⟩ none, .overflow ⟨[], rfl⟩ 5 [] ⟨8⟩ none] =
          .ok (left, .ok (k, v)) ∧
        (⟨[], [⟨1⟩]⟩ : InternalNode Position).replaceLastChildId ⟨1⟩ ⟨2⟩ = .ok (P₁, .ok ()) ∧
        P₁.appendPromotedKeyAndPageId k ⟨4⟩ = .ok (P', .ok ()) ∧ P'.Inv ∧
        ∀ leaves' : PageID → Option EventLeafNode, leaves' ⟨2⟩ = some left →
          leaves' ⟨4⟩ = some (EventLeafNode.mk [k] [v]) → (∀ c, c ≠ ⟨2⟩ → c ≠ ⟨4⟩ → leaves' c =
            if c = ⟨1⟩ then some (EventLeafNode.mk [⟨3⟩, ⟨4⟩]
              [.overflow ⟨[], rfl⟩ 9 [] ⟨7⟩ none, .overflow ⟨[], rfl⟩ 5 [] ⟨8⟩ none]) else none) →
          ∀ q, P'.descend leaves' (fun l => leafGet l.keys l.values) q =
              (⟨[], [⟨1⟩]⟩ : InternalNode Position).descend
                (fun c => if c = ⟨1⟩ then some (EventLeafNode.mk [⟨3⟩, ⟨4⟩]
                  [.overflow ⟨[], rfl⟩ 9 [] ⟨7⟩ none, .overflow ⟨[], rfl⟩ 5 [] ⟨8⟩ none]) else none)
                (fun l => leafGet l.keys l.values) q ∧
            (⟨[], [⟨1⟩]⟩ : InternalNode Position).descend leaves'
                (fun l => leafGet l.keys l.values) q =
              (⟨[], [⟨1⟩]⟩ : InternalNode Position).descend
                (fun c => if c = ⟨1⟩ then some (EventLeafNode.mk [⟨3⟩, ⟨4⟩]
                  [.overflow ⟨[], rfl⟩ 9 [] ⟨7⟩ none, .overflow ⟨[], rfl⟩ 5 [] ⟨8⟩ none]) else none)
                (fun l => leafGet l.keys l.values) q :=
  ⟨fun _ _ => rfl, by decide, rfl, by decide, by decide, by decide,
    descend_popLast (fun _ _ => rfl) (by decide) (by rfl) (by decide) (by decide) (by rfl) rfl
      (by decide) (by decide) (by decide)⟩

end InternalNode

end UmaDB
