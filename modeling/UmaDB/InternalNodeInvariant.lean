import Mathlib.Data.List.Sort
import UmaDB.EventsTreeNodes
import UmaDB.FreeListsTreeNodes

/-! # The B⁺ invariant of internal nodes

An internal node has one more child than keys and its keys strictly ascending. In the spec's
layout the child at index `i` covers the keys below `keys[i]` and not below `keys[i - 1]`, so a
search key `q` goes to the child after the keys at or below it (`route`).

The three methods the event and the free-list internal node share keep the invariant.
`split_off` cuts a node at its second-to-last key: a left node, the promoted key, and a right
node of one key and two children, with every key routed to the child it was routed to before.
`append_promoted_key_and_page_id` keeps the invariant when the key is above the last one, and
the new child takes exactly the keys from the promoted one up. `replace_last_child_id` changes
only the last child, so only the keys it covered go elsewhere, and nothing when it fails. A run of
such calls, each under its precondition, never panics and keeps the invariant. -/
namespace UmaDB

namespace InternalNode

variable {K : Type}

theorem splitOff_eq {L : List K} {p r : K} {C D : List PageID} (hC : C.length = L.length + 1) :
    splitOff ⟨L ++ [p, r], C ++ D⟩ = .ok (⟨L, C⟩, .ok (p, [r], D)) := by
  have hk : ∀ h, getElem (L ++ [p, r]) L.length h = p := fun _ => by
    rw [List.getElem_append_right (le_refl _)]
    simp
  rw [splitOff, dif_neg (by simp)]
  simp only [List.length_append, List.length_cons, List.length_nil, Nat.add_sub_cancel, hk]
  rw [if_neg (by omega)]
  simp [← hC, List.eraseIdx_append_of_length_le (le_refl L.length) [p, r]]

variable [LinearOrder K]

/-- The B⁺ invariant: one more child than keys, keys strictly ascending. -/
structure Inv (n : InternalNode K) : Prop where
  childIds_length : n.childIds.length = n.keys.length + 1
  sorted : n.keys.Pairwise (· < ·)

instance decidableInv (n : InternalNode K) : Decidable n.Inv :=
  decidable_of_iff (n.childIds.length = n.keys.length + 1 ∧ n.keys.Pairwise (· < ·))
    ⟨fun ⟨a, b⟩ => ⟨a, b⟩, fun ⟨a, b⟩ => ⟨a, b⟩⟩

/-- Modelled from the spec: B⁺ routing as the spec lays an internal node out, where `q` goes to
the child after the keys at or below it. The tree's search code is not in the model. -/
def route (n : InternalNode K) (q : K) : Option PageID :=
  n.childIds[n.keys.countP (· ≤ q)]?

theorem countP_le_eq_zero {l : List K} {q : K} (h : ∀ k ∈ l, q < k) : l.countP (· ≤ q) = 0 :=
  List.countP_eq_zero.mpr fun k hk => by simpa using h k hk

theorem countP_le_eq_length {l : List K} {q : K} (h : ∀ k ∈ l, k ≤ q) :
    l.countP (· ≤ q) = l.length :=
  List.countP_eq_length.mpr fun k hk => by simpa using h k hk

/-- In a strictly ascending list, a key above the last key is above every key. -/
theorem lt_of_getLast?_lt {l : List K} (h : l.Pairwise (· < ·)) {k : K}
    (hk : ∀ last ∈ l.getLast?, last < k) {a : K} (ha : a ∈ l) : a < k := by
  rcases List.eq_nil_or_concat l with rfl | ⟨ys, last, rfl⟩
  · simp at ha
  rw [List.concat_eq_append] at h hk ha
  have hlast : last < k := hk last (by simp)
  rcases List.mem_append.mp ha with ha | ha
  · exact lt_trans ((List.pairwise_append.mp h).2.2 a ha last (List.mem_singleton_self _)) hlast
  · rwa [List.mem_singleton.mp ha]

/-- A key above the last keeps a strictly ascending list so when appended. -/
theorem pairwise_append_of_getLast?_lt {l : List K} (h : l.Pairwise (· < ·)) {k : K}
    (hk : ∀ last ∈ l.getLast?, last < k) : (l ++ [k]).Pairwise (· < ·) :=
  List.pairwise_append.mpr ⟨h, List.pairwise_singleton _ _,
    fun _ ha _ hb => List.mem_singleton.mp hb ▸ lt_of_getLast?_lt h hk ha⟩

/-- `split_off` cut `n` into `left`, the promoted key `p` and `right` as a B⁺ split must: both
halves keep the invariant, no key or child is lost or repeated, `p` separates the halves, the
right half has one key and two children, and every key is routed to the child it went to in
`n`. -/
structure SplitsAt (n left : InternalNode K) (p : K) (right : InternalNode K) : Prop where
  left_inv : left.Inv
  right_inv : right.Inv
  keys_eq : left.keys ++ [p] ++ right.keys = n.keys
  childIds_eq : left.childIds ++ right.childIds = n.childIds
  left_lt : ∀ k ∈ left.keys, k < p
  lt_right : ∀ k ∈ right.keys, p < k
  right_keys_length : right.keys.length = 1
  right_childIds_length : right.childIds.length = 2
  route_eq : ∀ q, n.route q = if q < p then left.route q else right.route q

/-- A node with the invariant and two keys or more ends in two keys `p, r`, over children whose
first `|L| + 1` are `C`. -/
theorem eq_of_two_le {n : InternalNode K} (hn : n.Inv) (h : 2 ≤ n.keys.length) :
    ∃ L p r C D, n = ⟨L ++ [p, r], C ++ D⟩ ∧ C.length = L.length + 1 ∧ D.length = 2 := by
  obtain ⟨p, r, hpr⟩ := List.length_eq_two.mp
    (show (n.keys.drop (n.keys.length - 2)).length = 2 by simp; omega)
  refine ⟨n.keys.take (n.keys.length - 2), p, r, n.childIds.take (n.keys.length - 1),
    n.childIds.drop (n.keys.length - 1), ?_, by simp [hn.childIds_length]; omega,
    by simp [hn.childIds_length]; omega⟩
  rw [← hpr, List.take_append_drop, List.take_append_drop]

theorem splitOff_spec {n : InternalNode K} (hn : n.Inv) (h : 2 ≤ n.keys.length) :
    ∃ left p rk rc, n.splitOff = .ok (left, .ok (p, rk, rc)) ∧ SplitsAt n left p ⟨rk, rc⟩ := by
  obtain ⟨L, p, r, C, D, rfl, hC, hD⟩ := eq_of_two_le hn h
  refine ⟨⟨L, C⟩, p, [r], D, splitOff_eq hC, ?_⟩
  obtain ⟨hL, hpr, hcross⟩ := List.pairwise_append.mp hn.sorted
  have hLp : ∀ k ∈ L, k < p := fun k hk => hcross k hk p (by simp)
  have hp_r : p < r := by simpa using hpr
  refine ⟨⟨hC, hL⟩, ⟨by simpa using hD, List.pairwise_singleton _ _⟩, by simp, rfl, hLp,
    by simpa using hp_r, rfl, hD, fun q => ?_⟩
  simp only [route, List.countP_append]
  split_ifs with hq
  · have h0 : [p, r].countP (· ≤ q) = 0 :=
      countP_le_eq_zero (by simp; exact ⟨hq, lt_trans hq hp_r⟩)
    have hlt : L.countP (· ≤ q) < C.length := by
      have := L.countP_le_length (· ≤ q)
      omega
    rw [h0, Nat.add_zero, List.getElem?_append_left hlt]
  · have hL' : L.countP (· ≤ q) = L.length :=
      countP_le_eq_length fun k hk => le_of_lt (lt_of_lt_of_le (hLp k hk) (not_lt.mp hq))
    have h1 : [p, r].countP (· ≤ q) = [r].countP (· ≤ q) + 1 := by
      simp [List.countP_cons, not_lt.mp hq]
    rw [hL', h1, List.getElem?_append_right (by omega)]
    congr 1
    omega

theorem appendPromotedKeyAndPageId_spec {n : InternalNode K} (hn : n.Inv) {k : K}
    (hk : ∀ last ∈ n.keys.getLast?, last < k) (c : PageID) :
    ∃ n', n.appendPromotedKeyAndPageId k c = .ok (n', .ok ()) ∧ n'.Inv :=
  ⟨_, rfl, by simp [hn.childIds_length], pairwise_append_of_getLast?_lt hn.sorted hk⟩

/-- Appending a key above every key and a child: the child takes the keys from that key up. -/
theorem route_append {n : InternalNode K} (hn : n.Inv) {k : K} (hk : ∀ a ∈ n.keys, a < k)
    (c : PageID) (q : K) :
    route ⟨n.keys ++ [k], n.childIds ++ [c]⟩ q = if q < k then n.route q else some c := by
  simp only [route, List.countP_append]
  split_ifs with hq
  · have : n.keys.countP (· ≤ q) < n.childIds.length := by
      have := n.keys.countP_le_length (· ≤ q)
      rw [hn.childIds_length]
      omega
    rw [@countP_le_eq_zero K _ [k] q (by simpa using hq), Nat.add_zero,
      List.getElem?_append_left this]
  · have hall : n.keys.countP (· ≤ q) = n.keys.length :=
      countP_le_eq_length fun a ha => le_of_lt (lt_of_lt_of_le (hk a ha) (not_lt.mp hq))
    rw [hall, @countP_le_eq_length K _ [k] q (by simpa using not_lt.mp hq),
      List.getElem?_append_right (by rw [hn.childIds_length]; simp)]
    simp [hn.childIds_length]

/-- The appended child takes exactly the keys at or above the promoted key. -/
theorem route_appendPromotedKeyAndPageId {n : InternalNode K} (hn : n.Inv) {k : K}
    (hk : ∀ last ∈ n.keys.getLast?, last < k) (c : PageID) :
    ∃ n', n.appendPromotedKeyAndPageId k c = .ok (n', .ok ()) ∧
      ∀ q, n'.route q = if q < k then n.route q else some c :=
  ⟨_, rfl, route_append hn (fun _ ha => lt_of_getLast?_lt hn.sorted hk ha) c⟩

/-- A node over position 1 gets the promoted key 5 with child 12: from then on positions from 5
up go to child 12. -/
theorem route_appendPromotedKeyAndPageId_sample :
    (⟨[⟨1⟩], [⟨10⟩, ⟨11⟩]⟩ : InternalNode Position).Inv ∧
      (∀ last ∈ [(⟨1⟩ : Position)].getLast?, last < ⟨5⟩) ∧
      ∃ n', (⟨[⟨1⟩], [⟨10⟩, ⟨11⟩]⟩ : InternalNode Position).appendPromotedKeyAndPageId ⟨5⟩ ⟨12⟩ =
          .ok (n', .ok ()) ∧
        ∀ q, n'.route q =
          if q < ⟨5⟩ then (⟨[⟨1⟩], [⟨10⟩, ⟨11⟩]⟩ : InternalNode Position).route q else some ⟨12⟩ :=
  ⟨by decide, by decide,
    @route_appendPromotedKeyAndPageId Position _ ⟨[⟨1⟩], [⟨10⟩, ⟨11⟩]⟩ (by decide) ⟨5⟩ (by decide)
      ⟨12⟩⟩

theorem replaceLastChildId_spec {n : InternalNode K} (hn : n.Inv) (oldId newId : PageID) :
    ∃ n' r, n.replaceLastChildId oldId newId = .ok (n', r) ∧ n'.Inv ∧
      ((n.childIds.getLast? = some oldId ∧ r = .ok () ∧
          n' = ⟨n.keys, n.childIds.dropLast ++ [newId]⟩) ∨
        (n.childIds.getLast? ≠ some oldId ∧ r = .error (.databaseCorrupted "Child ID mismatch") ∧
          n' = n)) := by
  obtain ⟨keys, childIds⟩ := n
  rcases List.eq_nil_or_concat childIds with rfl | ⟨C, a, rfl⟩
  · exact absurd hn.childIds_length (by simp)
  simp only [List.concat_eq_append] at hn ⊢
  have hlast : ∀ h, getElem (C ++ [a]) ((C ++ [a]).length - 1) h = a := fun _ => by simp
  rw [replaceLastChildId, dif_neg (by simp)]
  simp only [hlast]
  by_cases ha : a = oldId
  · subst ha
    rw [if_pos rfl]
    refine ⟨_, _, rfl, ⟨by simpa using hn.childIds_length, hn.sorted⟩, .inl ⟨by simp, rfl, ?_⟩⟩
    rw [List.length_append, List.length_singleton, Nat.add_sub_cancel,
      List.set_append_right _ _ (le_refl _)]
    simp
  · rw [if_neg ha]
    exact ⟨_, _, rfl, hn, .inr ⟨by simpa using ha, rfl, rfl⟩⟩

/-- A replaced last child takes the keys at or above every key, the ones the old one covered. -/
theorem route_replaceLast {n : InternalNode K} (hn : n.Inv) (newId : PageID) (q : K) :
    route ⟨n.keys, n.childIds.dropLast ++ [newId]⟩ q =
      if ∀ k ∈ n.keys, k ≤ q then some newId else n.route q := by
  obtain ⟨keys, childIds⟩ := n
  rcases List.eq_nil_or_concat childIds with rfl | ⟨C, a, rfl⟩
  · exact absurd hn.childIds_length (by simp)
  have hC : C.length = keys.length := by simpa using hn.childIds_length
  simp only [route, List.concat_eq_append, List.dropLast_concat]
  split_ifs with hall
  · rw [List.countP_eq_length.mpr (by simpa using hall), ← hC, List.getElem?_concat_length]
  · have hlt : keys.countP (· ≤ q) < C.length := by
      have hne : keys.countP (· ≤ q) ≠ keys.length := fun he =>
        hall fun k hk => by simpa using List.countP_eq_length.mp he k hk
      have := keys.countP_le_length (· ≤ q)
      omega
    rw [List.getElem?_append_left hlt, List.getElem?_append_left hlt]

/-- The keys at or above every key go to the last child. -/
theorem route_of_forall_le {n : InternalNode K} (hn : n.Inv) {q : K} (h : ∀ k ∈ n.keys, k ≤ q) :
    n.route q = n.childIds.getLast? := by
  rw [route, countP_le_eq_length h, List.getLast?_eq_getElem?, hn.childIds_length,
    Nat.add_sub_cancel]

/-- When the last child is `old_id`, `replace_last_child_id` replaces it and returns `Ok`. -/
theorem replaceLastChildId_of_getLast? {n : InternalNode K} (hn : n.Inv) {oldId : PageID}
    (h : n.childIds.getLast? = some oldId) (newId : PageID) :
    n.replaceLastChildId oldId newId = .ok (⟨n.keys, n.childIds.dropLast ++ [newId]⟩, .ok ()) := by
  obtain ⟨_, _, hm, -, ⟨-, rfl, rfl⟩ | ⟨hne, -⟩⟩ := replaceLastChildId_spec hn oldId newId
  · exact hm
  · exact absurd h hne

/-- After a successful `replace_last_child_id` the keys at or above every key, the ones the
replaced last child covered, go to the new child, and every other key is routed as before. -/
theorem route_replaceLastChildId {n n' : InternalNode K} (hn : n.Inv) {oldId newId : PageID}
    (h : n.replaceLastChildId oldId newId = .ok (n', .ok ())) :
    ∀ q, n'.route q = if ∀ k ∈ n.keys, k ≤ q then some newId else n.route q := by
  obtain ⟨m, r, hm, -, hcase⟩ := replaceLastChildId_spec hn oldId newId
  obtain ⟨rfl, rfl⟩ := Prod.mk.inj (Except.ok.inj (h.symm.trans hm))
  rcases hcase with ⟨-, -, rfl⟩ | ⟨-, hr, -⟩
  · exact route_replaceLast hn newId
  · cases hr

/-- Node 10 | 1 | 11 has its last child 11 replaced by 14: position 7 goes to 14, position 0 to
10 as before. -/
theorem route_replaceLastChildId_sample :
    (⟨[⟨1⟩], [⟨10⟩, ⟨11⟩]⟩ : InternalNode Position).Inv ∧
      (⟨[⟨1⟩], [⟨10⟩, ⟨11⟩]⟩ : InternalNode Position).replaceLastChildId ⟨11⟩ ⟨14⟩ =
        .ok (⟨[⟨1⟩], [⟨10⟩, ⟨14⟩]⟩, .ok ()) ∧
      ∀ q, (⟨[⟨1⟩], [⟨10⟩, ⟨14⟩]⟩ : InternalNode Position).route q =
        if ∀ k ∈ [(⟨1⟩ : Position)], k ≤ q then some ⟨14⟩
        else (⟨[⟨1⟩], [⟨10⟩, ⟨11⟩]⟩ : InternalNode Position).route q :=
  ⟨by decide, rfl, @route_replaceLastChildId Position _ ⟨[⟨1⟩], [⟨10⟩, ⟨11⟩]⟩
    ⟨[⟨1⟩], [⟨10⟩, ⟨14⟩]⟩ (by decide) ⟨11⟩ ⟨14⟩ rfl⟩

/-- What one node type's `split_off`, `append_promoted_key_and_page_id` and
`replace_last_child_id` do to a node with the invariant. -/
def MethodsKeepInv
    (splitOff : InternalNode K →
      Except Fault (InternalNode K × Except DCBError (K × List K × List PageID)))
    (append : InternalNode K → K → PageID → Except Fault (InternalNode K × Except DCBError Unit))
    (replace : InternalNode K → PageID → PageID →
      Except Fault (InternalNode K × Except DCBError Unit)) : Prop :=
  ∀ n : InternalNode K, n.Inv →
    (2 ≤ n.keys.length → ∃ left p rk rc, splitOff n = .ok (left, .ok (p, rk, rc)) ∧
      SplitsAt n left p ⟨rk, rc⟩) ∧
    (∀ k c, (∀ last ∈ n.keys.getLast?, last < k) →
      ∃ n', append n k c = .ok (n', .ok ()) ∧ n'.Inv) ∧
    (∀ oldId newId, ∃ n' r, replace n oldId newId = .ok (n', r) ∧ n'.Inv ∧
      ((n.childIds.getLast? = some oldId ∧ r = .ok () ∧
          n' = ⟨n.keys, n.childIds.dropLast ++ [newId]⟩) ∨
        (n.childIds.getLast? ≠ some oldId ∧ r = .error (.databaseCorrupted "Child ID mismatch") ∧
          n' = n)))

theorem methodsKeepInv :
    @MethodsKeepInv K _ splitOff appendPromotedKeyAndPageId replaceLastChildId :=
  fun _ hn => ⟨splitOff_spec hn, fun _ c hk => appendPromotedKeyAndPageId_spec hn hk c,
    replaceLastChildId_spec hn⟩

/-- One `&mut self` call on an internal node. The caller of `split_off` keeps the shrunken node. -/
inductive Call (K : Type) where
  | splitOff
  | appendPromotedKeyAndPageId (promotedKey : K) (promotedPageId : PageID)
  | replaceLastChildId (oldId newId : PageID)

/-- The node after the call. -/
def Call.run (n : InternalNode K) : Call K → Except Fault (InternalNode K)
  | .splitOff => Prod.fst <$> n.splitOff
  | .appendPromotedKeyAndPageId k c => Prod.fst <$> n.appendPromotedKeyAndPageId k c
  | .replaceLastChildId oldId newId => Prod.fst <$> n.replaceLastChildId oldId newId

/-- The precondition a call is made under: two keys to split, a promoted key above the last. -/
def Call.Allowed (n : InternalNode K) : Call K → Prop
  | .splitOff => 2 ≤ n.keys.length
  | .appendPromotedKeyAndPageId k _ => ∀ last ∈ n.keys.getLast?, last < k
  | .replaceLastChildId _ _ => True

instance Call.decidableAllowed (n : InternalNode K) : (c : Call K) → Decidable (c.Allowed n)
  | .splitOff => inferInstanceAs (Decidable (2 ≤ _))
  | .appendPromotedKeyAndPageId k _ =>
    inferInstanceAs (Decidable (∀ last ∈ n.keys.getLast?, last < k))
  | .replaceLastChildId _ _ => inferInstanceAs (Decidable True)

/-- `n` becomes `n'` by the calls `cs`, each made under its precondition. -/
inductive Runs : InternalNode K → List (Call K) → InternalNode K → Prop
  | nil (n : InternalNode K) : Runs n [] n
  | cons {n m n' : InternalNode K} {c : Call K} {cs : List (Call K)} :
      c.Allowed n → c.run n = .ok m → Runs m cs n' → Runs n (c :: cs) n'

/-- A call under its precondition does not panic and keeps the invariant. -/
theorem Call.run_inv {n : InternalNode K} (hn : n.Inv) {c : Call K} (hc : c.Allowed n) :
    ∃ m, c.run n = .ok m ∧ m.Inv := by
  cases c with
  | splitOff =>
    obtain ⟨left, _, _, _, h, hs⟩ := splitOff_spec hn hc
    exact ⟨left, by simp [run, h], hs.left_inv⟩
  | appendPromotedKeyAndPageId k c =>
    obtain ⟨n', h, hi⟩ := appendPromotedKeyAndPageId_spec hn hc c
    exact ⟨n', by simp [run, h], hi⟩
  | replaceLastChildId oldId newId =>
    obtain ⟨n', _, h, hi, -⟩ := replaceLastChildId_spec hn oldId newId
    exact ⟨n', by simp [run, h], hi⟩

/-- Every node a run reaches from a node with the invariant has it. -/
theorem Runs.inv_of_inv {n n' : InternalNode K} {cs : List (Call K)} (h : Runs n cs n')
    (hn : n.Inv) : n'.Inv := by
  induction h with
  | nil => exact hn
  | cons hc hrun _ ih =>
    obtain ⟨m, hm, hi⟩ := Call.run_inv hn hc
    exact ih (Except.ok.inj (hm.symm.trans hrun) ▸ hi)

/-- Appending the promoted key 5 to a node over positions 1 and 3, splitting it, then replacing
the left node's last child. -/
theorem Runs.inv_of_inv_sample :
    Runs (⟨[⟨1⟩, ⟨3⟩], [⟨10⟩, ⟨11⟩, ⟨12⟩]⟩ : InternalNode Position)
        [.appendPromotedKeyAndPageId ⟨5⟩ ⟨13⟩, .splitOff, .replaceLastChildId ⟨11⟩ ⟨14⟩]
        ⟨[⟨1⟩], [⟨10⟩, ⟨14⟩]⟩ ∧
      (⟨[⟨1⟩], [⟨10⟩, ⟨14⟩]⟩ : InternalNode Position).Inv := by
  refine ⟨?h, Runs.inv_of_inv ?h (by decide)⟩
  exact .cons (by decide) rfl (.cons (by decide) rfl (.cons trivial rfl (.nil _)))

/-- A split leaves two keys and two children fewer in the left node. -/
theorem SplitsAt.lengths {n left right : InternalNode K} {p : K} (h : SplitsAt n left p right) :
    left.keys.length + 2 = n.keys.length ∧ left.childIds.length + 2 = n.childIds.length := by
  have hk := congrArg List.length h.keys_eq
  have hc := congrArg List.length h.childIds_eq
  simp only [List.length_append, List.length_singleton, h.right_keys_length,
    h.right_childIds_length] at hk hc
  omega

end InternalNode

/-- `split_off` takes 32 bytes off the node, and the right node it returns the pieces of is 26
bytes in the event tree and 28 in the free-list tree, less than the node split: both halves fit
any page the node fitted. -/
theorem split_off_sizes :
    (∀ n : EventInternalNode, n.Inv → 2 ≤ n.keys.length →
      ∃ left p rk rc, n.splitOff = .ok (left, .ok (p, rk, rc)) ∧
        EventInternalNode.calcSerializedSize left + 32 = n.calcSerializedSize ∧
        EventInternalNode.calcSerializedSize ⟨rk, rc⟩ = 26 ∧ 26 < n.calcSerializedSize) ∧
    (∀ n : FreeListInternalNode, n.Inv → 2 ≤ n.keys.length →
      ∃ left p rk rc, n.splitOff = .ok (left, .ok (p, rk, rc)) ∧
        FreeListInternalNode.calcSerializedSize left + 32 = n.calcSerializedSize ∧
        FreeListInternalNode.calcSerializedSize ⟨rk, rc⟩ = 28 ∧ 28 < n.calcSerializedSize) := by
  constructor <;> intro n hn h <;>
    obtain ⟨left, p, rk, rc, hs, hsp⟩ := InternalNode.splitOff_spec hn h <;>
    refine ⟨left, p, rk, rc, hs, ?_⟩ <;>
    obtain ⟨hk, hc⟩ := hsp.lengths <;> have := hn.childIds_length <;>
    simp only [EventInternalNode.calcSerializedSize, FreeListInternalNode.calcSerializedSize,
      hsp.right_keys_length, hsp.right_childIds_length, true_and] <;>
    omega

theorem internal_node_methods_keep_invariant :
    InternalNode.MethodsKeepInv EventInternalNode.splitOff
        EventInternalNode.appendPromotedKeyAndPageId EventInternalNode.replaceLastChildId ∧
      InternalNode.MethodsKeepInv FreeListInternalNode.splitOff
        FreeListInternalNode.appendPromotedKeyAndPageId FreeListInternalNode.replaceLastChildId :=
  ⟨InternalNode.methodsKeepInv, InternalNode.methodsKeepInv⟩

end UmaDB
