import Mathlib.Data.List.Infix
import Mathlib.Tactic.Ring

/-! # Little-endian integers, slices and write buffers

The byte-level Rust the node codecs are written in, over `List UInt8`: `to_le_bytes` and
`LittleEndian::read_*`, slice indexing `&s[lo..hi]`, and `buf[i..j].copy_from_slice(..)` with
its running index. A call that panics (an index out of bounds) ends in `Fault.panic`; a call
that returns `Err(e)` ends in `Fault.err e`. Sizes are `ℕ`: a `usize` sum of buffer lengths
cannot overflow while the buffer is in memory. -/
namespace UmaDB

/-- The `w` low bytes of `n`, least significant first: `(n as uW).to_le_bytes()`. -/
def leBytes : ℕ → ℕ → List UInt8
  | 0, _ => []
  | w + 1, n => UInt8.ofNat n :: leBytes w (n / 256)

/-- `LittleEndian::read_uW` applied to exactly `w` bytes. -/
def ofLE : List UInt8 → ℕ
  | [] => 0
  | b :: bs => b.toNat + 256 * ofLE bs

@[simp] theorem length_leBytes (w n : ℕ) : (leBytes w n).length = w := by
  induction w generalizing n <;> simp [leBytes, *]

@[simp] theorem ofLE_nil : ofLE [] = 0 := rfl

@[simp] theorem ofLE_cons (b : UInt8) (bs : List UInt8) :
    ofLE (b :: bs) = b.toNat + 256 * ofLE bs := rfl

theorem uint8_toNat_ofNat (n : ℕ) : (UInt8.ofNat n).toNat = n % 256 := by
  simp [UInt8.ofNat, UInt8.toNat, BitVec.toNat_ofNat]

theorem ofLE_leBytes (w n : ℕ) : ofLE (leBytes w n) = n % 256 ^ w := by
  induction w generalizing n with
  | zero => simp [leBytes, Nat.mod_one]
  | succ w ih =>
    rw [leBytes, ofLE_cons, ih, uint8_toNat_ofNat, pow_succ', Nat.mod_mul]

theorem ofLE_lt (l : List UInt8) : ofLE l < 256 ^ l.length := by
  induction l with
  | nil => simp
  | cons b bs ih =>
    have hb : b.toNat < 256 := b.toNat_lt_size
    rw [ofLE_cons, List.length_cons, pow_succ']
    omega

theorem ofLE_leBytes_of_lt {w n : ℕ} (h : n < 256 ^ w) : ofLE (leBytes w n) = n := by
  rw [ofLE_leBytes, Nat.mod_eq_of_lt h]

/-- Decoding then re-encoding a run of bytes gives it back: the layout has no redundancy. -/
theorem leBytes_ofLE (l : List UInt8) : leBytes l.length (ofLE l) = l := by
  induction l with
  | nil => rfl
  | cons b bs ih =>
    have hb : b.toNat < 256 := b.toNat_lt_size
    have hq : (b.toNat + 256 * ofLE bs) / 256 = ofLE bs := by omega
    simp only [List.length_cons, leBytes, ofLE_cons, hq, ih, List.cons.injEq, and_true]
    apply UInt8.toNat.inj
    rw [uint8_toNat_ofNat]
    omega

/-- The error type of the store (`umadb_dcb::DCBError`), with the variants the node code raises. -/
inductive DCBError where
  | deserializationError (msg : String)
  | databaseCorrupted (msg : String)
  deriving DecidableEq, Repr

/-- How a call ends without a value: the `Err` it returns, or a panic. -/
inductive Fault where
  | err (e : DCBError)
  | panic
  deriving DecidableEq, Repr

section Except

variable {ε α β : Type}

@[simp] theorem except_pure (a : α) : (pure a : Except ε α) = .ok a := rfl

@[simp] theorem except_ok_bind (a : α) (f : α → Except ε β) : (Except.ok a >>= f) = f a := rfl

@[simp] theorem except_error_bind (e : ε) (f : α → Except ε β) :
    (Except.error e >>= f) = .error e := rfl

end Except

/-- `&s[lo..hi]`, which panics unless `lo ≤ hi ≤ s.len()`. -/
def sliceRange (s : List UInt8) (lo hi : ℕ) : Except Fault (List UInt8) :=
  if lo ≤ hi ∧ hi ≤ s.length then .ok ((s.drop lo).take (hi - lo)) else .error .panic

/-- `s[i]`, which panics unless `i < s.len()`. -/
def byteAt (s : List UInt8) (i : ℕ) : Except Fault UInt8 :=
  match s[i]? with
  | some b => .ok b
  | none => .error .panic

theorem sliceRange_of_drop {s e r : List UInt8} {lo : ℕ} (hlo : lo ≤ s.length)
    (h : s.drop lo = e ++ r) : sliceRange s lo (lo + e.length) = .ok e := by
  have hl : lo + e.length ≤ s.length := by
    have := congrArg List.length h
    simp only [List.length_drop, List.length_append] at this
    omega
  simp [sliceRange, hl, h]

theorem byteAt_of_drop {s r : List UInt8} {i : ℕ} {b : UInt8} (h : s.drop i = b :: r) :
    byteAt s i = .ok b := by
  simp [byteAt, ← List.head?_drop, h]

/-- `serialize_into`'s output buffer and its write index `i`, which never passes the end. -/
structure Cursor where
  buf : List UInt8
  i : ℕ
  le : i ≤ buf.length

/-- A fresh buffer, written from the start. -/
def Cursor.start (buf : List UInt8) : Cursor := ⟨buf, 0, Nat.zero_le _⟩

theorem Cursor.le_put {c : Cursor} {b : List UInt8} (h : c.i + b.length ≤ c.buf.length) :
    c.i + b.length ≤ (c.buf.take c.i ++ b ++ c.buf.drop (c.i + b.length)).length := by
  simp only [List.length_append, List.length_take, List.length_drop]
  omega

/-- `buf[i..i + b.len()].copy_from_slice(b); i += b.len()`, which panics past the end of `buf`;
a one-byte store `buf[i] = x; i += 1` is the case `[x]`. -/
def Cursor.put (c : Cursor) (b : List UInt8) : Except Fault Cursor :=
  if h : c.i + b.length ≤ c.buf.length then
    .ok ⟨c.buf.take c.i ++ b ++ c.buf.drop (c.i + b.length), c.i + b.length, Cursor.le_put h⟩
  else .error .panic

theorem Cursor.put_of_le {c : Cursor} {b : List UInt8} (h : c.i + b.length ≤ c.buf.length) :
    c.put b = .ok ⟨c.buf.take c.i ++ b ++ c.buf.drop (c.i + b.length), c.i + b.length,
      Cursor.le_put h⟩ := dif_pos h

@[simp] theorem Cursor.put_nil (c : Cursor) : c.put [] = .ok c := by
  rw [put_of_le (by simpa using c.le)]
  simp

/-- Two writes in a row are one write of both byte runs; a panic in either is a panic of the
whole. -/
theorem Cursor.put_append (c : Cursor) (a b : List UInt8) :
    c.put (a ++ b) = c.put a >>= fun c' => c'.put b := by
  obtain ⟨buf, i, hi⟩ := c
  by_cases ha : i + a.length ≤ buf.length
  · have h1 : (buf.take i ++ a).length = i + a.length := by simp; omega
    have hlen : (buf.take i ++ a ++ buf.drop (i + a.length)).length = buf.length := by
      simp; omega
    by_cases hb : i + a.length + b.length ≤ buf.length
    · have hab : i + (a ++ b).length ≤ buf.length := by simpa [Nat.add_assoc] using hb
      have hb' : i + a.length + b.length ≤
          (buf.take i ++ a ++ buf.drop (i + a.length)).length := by rwa [hlen]
      have hT : (buf.take i ++ (a ++ buf.drop (i + a.length))).drop (i + (a.length + b.length)) =
          buf.drop (i + (a.length + b.length)) := by
        rw [← List.append_assoc, ← Nat.add_assoc, ← List.drop_drop, List.drop_left' h1,
          List.drop_drop]
      have hA : (buf.take i ++ (a ++ buf.drop (i + a.length))).take (i + a.length) =
          buf.take i ++ a := by
        rw [← List.append_assoc, List.take_left' h1]
      rw [put, dif_pos hab, put, dif_pos ha, except_ok_bind, put, dif_pos hb']
      simp only [Except.ok.injEq, Cursor.mk.injEq, List.length_append, List.append_assoc,
        Nat.add_assoc, and_true]
      rw [hA, hT, List.append_assoc]
    · have hab : ¬ i + (a ++ b).length ≤ buf.length := by simpa [Nat.add_assoc] using hb
      have hb' : ¬ i + a.length + b.length ≤
          (buf.take i ++ a ++ buf.drop (i + a.length)).length := by rwa [hlen]
      rw [put, dif_neg hab, put, dif_pos ha, except_ok_bind, put, dif_neg hb']
  · have hab : ¬ i + (a ++ b).length ≤ buf.length := by simp; omega
    rw [put, dif_neg hab, put, dif_neg ha, except_error_bind]

/-- Writing `b` from the start of a buffer with room for it. -/
theorem Cursor.start_put {buf b : List UInt8} (h : b.length ≤ buf.length) :
    (Cursor.start buf).put b = .ok ⟨b ++ buf.drop b.length, b.length, by simp⟩ := by
  rw [put_of_le (by simpa [start] using h)]
  simp [start]

/-- A loop whose every pass writes `g x` writes the bytes of all passes in one run. -/
theorem Cursor.foldlM_put {α : Type} {f : Cursor → α → Except Fault Cursor}
    {g : α → List UInt8} (hf : ∀ c x, f c x = c.put (g x)) (l : List α) (c : Cursor) :
    l.foldlM f c = c.put (l.flatMap g) := by
  induction l generalizing c with
  | nil => simp
  | cons x l ih =>
    rw [List.foldlM_cons, hf, List.flatMap_cons, put_append]
    cases c.put (g x) <;> simp [ih]

end UmaDB
