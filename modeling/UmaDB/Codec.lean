import UmaDB.Read

/-! # Page codecs and their laws

Every node type of both trees has a `calc_serialized_size`, a `serialize_into` and a
`from_slice`. A `Codec` is the three of them, and the laws below are what the pages of the
database rely on: the writer stays inside a buffer of the computed size, what it writes reads
back, a cut-short page is refused, the reader never panics, and what the reader accepts is the
encoding of what it returns. The last law says what happens outside the round-trip
precondition: the writer still succeeds, and the node is lost.

Each law follows from two facts about one byte layout `enc`: the writer puts `enc x` at the
start of the buffer (`Layout`), and the reader takes `enc x` off the front of any slice
(`DecodesPrefix`, `ParsesPrefix`). The node modules prove those facts; the laws are derived once,
here. -/
namespace UmaDB

/-- A node type's `calc_serialized_size`, `serialize_into` and `from_slice`. -/
structure Codec (α : Type) where
  size : α → ℕ
  serialize : α → List UInt8 → Except Fault (List UInt8 × ℕ)
  deserialize : List UInt8 → Except Fault α

namespace Codec

variable {α : Type} (c : Codec α)

/-- `serialize_into` on a buffer of at least `calc_serialized_size` bytes does not panic, returns
that size, keeps the buffer's length and leaves the bytes after that size as they were. -/
def WritesInBounds : Prop :=
  ∀ x buf, c.size x ≤ buf.length → ∃ buf', c.serialize x buf = .ok (buf', c.size x) ∧
    buf'.length = buf.length ∧ buf'.drop (c.size x) = buf.drop (c.size x)

/-- The bytes `serialize_into` writes, followed by anything, decode to the node written. -/
def RoundTrips (P : α → Prop) : Prop :=
  ∀ x, P x → ∀ buf buf' n, c.size x ≤ buf.length → c.serialize x buf = .ok (buf', n) →
    ∀ t, c.deserialize (buf'.take n ++ t) = .ok x

/-- Every proper prefix of the bytes `serialize_into` writes is refused. -/
def RejectsTruncations (P : α → Prop) : Prop :=
  ∀ x, P x → ∀ buf buf' n, c.size x ≤ buf.length → c.serialize x buf = .ok (buf', n) →
    ∀ p, p <+: buf'.take n → p.length < c.size x → Rejects (c.deserialize p)

/-- `from_slice` returns a node or a deserialization error on every slice, and never panics. -/
def Total : Prop :=
  ∀ s, (∃ x, c.deserialize s = .ok x) ∨ Rejects (c.deserialize s)

/-- What `from_slice` accepts satisfies `P`, and its first `calc_serialized_size` bytes are what
`serialize_into` writes for the node returned. -/
def Canonical (P : α → Prop) : Prop :=
  ∀ s x, c.deserialize s = .ok x → P x ∧ c.size x ≤ s.length ∧
    ∀ buf, c.size x ≤ buf.length → ∃ buf', c.serialize x buf = .ok (buf', c.size x) ∧
      buf'.take (c.size x) = s.take (c.size x)

/-- Two nodes with `P` that `serialize_into` writes as the same bytes are the same node. -/
def Injective (P : α → Prop) : Prop :=
  ∀ x y, P x → P y → ∀ buf, c.size x ≤ buf.length → c.size y ≤ buf.length →
    c.serialize x buf = c.serialize y buf → x = y

/-- A node outside `P` is written without a panic, yet no slice reads back as it. -/
def LosesOutside (P : α → Prop) : Prop :=
  ∀ x, ¬ P x → ∀ buf, c.size x ≤ buf.length →
    (∃ buf', c.serialize x buf = .ok (buf', c.size x)) ∧ ∀ s, c.deserialize s ≠ .ok x

/-- The writer puts `enc x` at the start of any buffer with room for it, and the size is the
length of `enc x`. -/
structure Layout (enc : α → List UInt8) : Prop where
  size_eq : ∀ x, c.size x = (enc x).length
  serialize_eq : ∀ x buf, (enc x).length ≤ buf.length →
    c.serialize x buf = .ok (enc x ++ buf.drop (enc x).length, (enc x).length)

/-- The reader takes `enc x` off the front of any slice that starts with it, and refuses any slice
that is a proper prefix of `enc x ++ t`. -/
def DecodesPrefix (enc : α → List UInt8) (P : α → Prop) : Prop :=
  ∀ x, P x → ∀ s t, s <+: enc x ++ t →
    if (enc x).length ≤ s.length then c.deserialize s = .ok x else Rejects (c.deserialize s)

/-- On every slice the reader refuses, or returns an `x` with `P x` whose encoding starts the
slice. -/
def ParsesPrefix (enc : α → List UInt8) (P : α → Prop) : Prop :=
  ∀ s, Rejects (c.deserialize s) ∨ ∃ x, c.deserialize s = .ok x ∧ P x ∧ enc x <+: s

variable {c} {enc : α → List UInt8} {P : α → Prop}

theorem Layout.writesInBounds (h : c.Layout enc) : c.WritesInBounds := by
  intro x buf hb
  rw [h.size_eq] at hb ⊢
  exact ⟨_, h.serialize_eq x buf hb, by simp; omega, by simp⟩

/-- What the writer wrote is `enc x`, and it reports the size. -/
theorem Layout.written (h : c.Layout enc) {x : α} {buf buf' : List UInt8} {n : ℕ}
    (hb : c.size x ≤ buf.length) (hs : c.serialize x buf = .ok (buf', n)) :
    buf'.take n = enc x ∧ n = c.size x := by
  rw [h.size_eq] at hb ⊢
  rw [h.serialize_eq x buf hb] at hs
  obtain ⟨rfl, rfl⟩ := Prod.mk.inj (Except.ok.inj hs)
  exact ⟨List.take_left _ _, rfl⟩

theorem Layout.roundTrips (h : c.Layout enc) (hd : c.DecodesPrefix enc P) : c.RoundTrips P := by
  intro x hx buf buf' n hb hs t
  rw [(h.written hb hs).1]
  simpa using hd x hx (enc x ++ t) t (List.prefix_refl _)

theorem Layout.rejectsTruncations (h : c.Layout enc) (hd : c.DecodesPrefix enc P) :
    c.RejectsTruncations P := by
  intro x hx buf buf' n hb hs p hp hl
  rw [(h.written hb hs).1] at hp
  have := hd x hx p [] (by simpa using hp)
  rwa [if_neg (by rw [← h.size_eq]; omega)] at this

/-- Equal writes mean equal encodings. -/
theorem Layout.encode_eq (h : c.Layout enc) {x y : α} {buf : List UInt8}
    (hx : c.size x ≤ buf.length) (hy : c.size y ≤ buf.length)
    (hs : c.serialize x buf = c.serialize y buf) : enc x = enc y := by
  rw [h.size_eq] at hx hy
  rw [h.serialize_eq x buf hx, h.serialize_eq y buf hy] at hs
  obtain ⟨he, hl⟩ := Prod.mk.inj (Except.ok.inj hs)
  rw [← List.take_left (enc x) (buf.drop (enc x).length), he, hl, List.take_left]

theorem Layout.injective (h : c.Layout enc) (hd : c.DecodesPrefix enc P) : c.Injective P := by
  intro x y hx hy buf hbx hby hs
  have hdx := hd x hx (enc x) [] (by simp)
  have hdy := hd y hy (enc x) [] (by simp [h.encode_eq hbx hby hs])
  rw [if_pos (le_refl _)] at hdx
  rw [h.encode_eq hbx hby hs, if_pos (le_refl _), ← h.encode_eq hbx hby hs, hdx] at hdy
  exact Except.ok.inj hdy

theorem ParsesPrefix.total (hp : c.ParsesPrefix enc P) : c.Total := fun s =>
  (hp s).elim .inr fun ⟨x, hx, _⟩ => .inl ⟨x, hx⟩

theorem Layout.canonical (h : c.Layout enc) (hp : c.ParsesPrefix enc P) : c.Canonical P := by
  intro s x hs
  rcases hp s with hr | ⟨y, hy, hP, hpre⟩
  · exact absurd hs (hr.not_ok x)
  obtain rfl : y = x := Except.ok.inj (hy.symm.trans hs)
  rw [h.size_eq]
  refine ⟨hP, hpre.length_le, fun buf hb => ⟨_, h.serialize_eq y buf hb, ?_⟩⟩
  rw [List.take_left _ _]
  exact List.prefix_iff_eq_take.mp hpre

theorem Layout.losesOutside (h : c.Layout enc) (hp : c.ParsesPrefix enc P) :
    c.LosesOutside P := fun x hx buf hb =>
  ⟨(h.writesInBounds x buf hb).imp fun _ hw => hw.1, fun s hs => hx ((h.canonical hp) s x hs).1⟩

end Codec

end UmaDB
