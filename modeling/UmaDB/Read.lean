import UmaDB.Common

/-! # Reading length-prefixed fields

The read idioms of the `from_slice` decoders, with the input `slice` fixed and the mutable
`offset` as the state of `Reader`: each field is a bounds check that returns
`Err(DeserializationError(msg))`, then a slice read that would panic without the check, then
`offset += n`. Two properties of a reader, each closed under sequencing:

* `Decodes r v e`: on any slice whose bytes at the offset run along `e`, possibly cut short,
  `r` returns `v` past `e` when all of `e` is there, and rejects when the slice ends inside it.
* `Parses r R`: on any slice at any offset, `r` rejects, or returns some `v` after stepping over
  bytes `e` with `R v e`; it never panics. -/
namespace UmaDB

/-- A decoding step over a fixed input slice; the state is the read offset. -/
abbrev Reader := StateT ℕ (Except Fault)

variable {α β : Type}

/-- `return Err(DCBError::DeserializationError(msg))`. -/
def reject (msg : String) : Except Fault α := .error (.err (.deserializationError msg))

/-- `reject` inside a reader. -/
def Reader.reject (msg : String) : Reader α := fun _ => UmaDB.reject msg

/-- `format!("Invalid UUID sequence: {err} ")`. -/
def invalidUuidSequence (err : UuidError) : String :=
  "Invalid UUID sequence: " ++ toString err ++ " "

/-- `if offset + n > slice.len() { return Err(DeserializationError(msg)) }`, then
`&slice[offset..offset + n]` and `offset += n`. -/
def readBytes (slice : List UInt8) (n : ℕ) (msg : String) : Reader (List UInt8) := fun offset =>
  if offset + n > slice.length then UmaDB.reject msg
  else do
    let b ← sliceRange slice offset (offset + n)
    pure (b, offset + n)

/-- A checked `LittleEndian::read_u16(&slice[offset..offset + 2]) as usize`. -/
def readU16 (slice : List UInt8) (msg : String) : Reader ℕ := do
  let b ← readBytes slice 2 msg
  pure (ofLE b)

/-- A checked `LittleEndian::read_u64(&slice[offset..offset + 8])`. -/
def readU64 (slice : List UInt8) (msg : String) : Reader UInt64 := do
  let b ← readBytes slice 8 msg
  pure (readU64Value b)

/-- `match std::str::from_utf8(b) { Ok(s) => s.to_string(), Err(_) => return Err(..msg..) }`. -/
def utf8OrReject (b : List UInt8) (msg : String) : Reader Utf8String :=
  match Utf8String.fromUtf8 b with
  | some s => pure s
  | none => Reader.reject msg

/-- A checked `std::str::from_utf8(&slice[offset..offset + n])`. -/
def readStr (slice : List UInt8) (n : ℕ) (lenMsg utf8Msg : String) : Reader Utf8String := do
  let b ← readBytes slice n lenMsg
  utf8OrReject b utf8Msg

/-- `for _ in 0..n { out.push(r?) }`. -/
def readN (r : Reader α) : ℕ → Reader (List α)
  | 0 => pure []
  | n + 1 => do
    let a ← r
    let as ← readN r n
    pure (a :: as)

/-- `for i in 0..n { out.push(LittleEndian::read_u64(&slice[start + i * 8..start + i * 8 + 8])) }`,
after a bounds check made by the caller. -/
def readU64sAt (slice : List UInt8) (start : ℕ) : ℕ → Except Fault (List UInt64)
  | 0 => pure []
  | n + 1 => do
    let b ← sliceRange slice start (start + 8)
    let rest ← readU64sAt slice (start + 8) n
    pure (readU64Value b :: rest)

/-- `if offset + n * 8 > slice.len() { return Err(..msg..) }`, the `n` ids at `offset + j * 8`,
then `offset += n * 8`. -/
def readU64s (slice : List UInt8) (n : ℕ) (msg : String) : Reader (List UInt64) := fun offset =>
  if offset + n * 8 > slice.length then UmaDB.reject msg
  else do
    let ids ← readU64sAt slice offset n
    pure (ids, offset + n * 8)

/-- A message that is not the invalid-UUID text. -/
def NotUuidFailure (m : String) : Prop := ¬ "Invalid UUID sequence: ".data <+: m.data

instance : DecidablePred NotUuidFailure := fun m =>
  inferInstanceAs (Decidable (¬ "Invalid UUID sequence: ".data <+: m.data))

theorem not_notUuidFailure (err : UuidError) : ¬ NotUuidFailure (invalidUuidSequence err) := by
  simp [NotUuidFailure, invalidUuidSequence, String.data_append, List.append_assoc]

/-- The call returns `Err(DeserializationError(m))`, and `m` is not the invalid-UUID text. -/
def Rejects (x : Except Fault α) : Prop := ∃ m, x = reject m ∧ NotUuidFailure m

theorem Rejects.bind {x : Except Fault α} (h : Rejects x) (f : α → Except Fault β) :
    Rejects (x >>= f) := by
  obtain ⟨m, rfl, hm⟩ := h
  exact ⟨m, rfl, hm⟩

theorem rejects_reject {m : String} (h : NotUuidFailure m) : Rejects (reject m : Except Fault α) :=
  ⟨m, rfl, h⟩

theorem Rejects.map {x : Except Fault α} (h : Rejects x) (f : α → β) : Rejects (f <$> x) := by
  obtain ⟨m, rfl, hm⟩ := h
  exact ⟨m, rfl, hm⟩

/-- A message that starts with a text unrelated to the invalid-UUID one. -/
theorem notUuidFailure_of_isPrefix {a m : String} (ha : a.data <+: m.data)
    (h₁ : ¬ a.data <+: "Invalid UUID sequence: ".data) (h₂ : NotUuidFailure a) :
    NotUuidFailure m := fun hm =>
  (List.prefix_or_prefix_of_prefix hm ha).elim h₂ h₁

/-- The size messages, all of the form `format!("Expected at least {} ...", ..)`. -/
theorem notUuidFailure_expected {m : String} (h : "Expected at least ".data <+: m.data) :
    NotUuidFailure m :=
  notUuidFailure_of_isPrefix h (by decide) (by decide)

theorem data_prefix_append {a b c : String} (h : a.data <+: b.data) : a.data <+: (b ++ c).data := by
  rw [String.data_append]
  exact h.trans (List.prefix_append _ _)

/-- `format!("Expected at least {} bytes .., got {}", ..)`. -/
theorem rejects_expected_at_least (a b c : String) :
    Rejects (reject ("Expected at least " ++ a ++ b ++ c) : Except Fault α) :=
  rejects_reject (notUuidFailure_expected
    (data_prefix_append (data_prefix_append (data_prefix_append (List.prefix_refl _)))))

/-- `format!("Expected at least 2 bytes, got {}", slice.len())`. -/
theorem rejects_expected_two (n : ℕ) :
    Rejects (reject ("Expected at least 2 bytes, got " ++ toString n) : Except Fault α) :=
  rejects_reject (notUuidFailure_expected (data_prefix_append (by decide)))

theorem Rejects.not_ok {x : Except Fault α} (h : Rejects x) (a : α) : x ≠ .ok a := by
  obtain ⟨m, rfl, -⟩ := h
  simp [reject]

/-- A bounds check `if p { return Err(..) }` before the rest of a decoder, on a slice that is a
prefix of an encoding of length `L`: the check may only fire on a slice shorter than that, and
then it is the decoder's refusal. -/
theorem check_decodes {p : Prop} [Decidable p] {r rest : Except Fault α} {L n : ℕ} {x : α}
    (hr : Rejects r) (hp : p → n < L) (h : ¬ p → if L ≤ n then rest = .ok x else Rejects rest) :
    if L ≤ n then (if p then r else rest) = .ok x else Rejects (if p then r else rest) := by
  by_cases hc : p
  · rw [if_pos hc, if_neg (Nat.not_le.mpr (hp hc))]
    exact hr
  · simpa only [if_neg hc] using h hc

/-- The same check on any slice: it refuses, or the rest of the decoder runs. -/
theorem check_parses {p : Prop} [Decidable p] {r rest : Except Fault α} {Q : α → Prop}
    (hr : Rejects r) (h : ¬ p → Rejects rest ∨ ∃ x, rest = .ok x ∧ Q x) :
    Rejects (if p then r else rest) ∨ ∃ x, (if p then r else rest) = .ok x ∧ Q x := by
  by_cases hc : p
  · exact .inl (by rwa [if_pos hc])
  · simpa only [if_neg hc] using h hc

@[simp high] theorem length_flatMap_u64Bytes (ks : List UInt64) :
    (ks.flatMap u64Bytes).length = ks.length * 8 := by
  induction ks with
  | nil => rfl
  | cons k ks ih => simp [List.flatMap_cons, ih, Nat.succ_mul, Nat.add_comm]

theorem readU64sAt_of_drop {s r : List UInt8} (ks : List UInt64) {start : ℕ}
    (h : s.drop start = ks.flatMap u64Bytes ++ r) : readU64sAt s start ks.length = .ok ks := by
  induction ks generalizing start with
  | nil => rfl
  | cons k ks ih =>
    rw [List.flatMap_cons, List.append_assoc] at h
    have hs : start + 8 ≤ s.length := by
      have := congrArg List.length h
      simp only [List.length_drop, List.length_append, length_u64Bytes] at this
      omega
    have h' : s.drop (start + 8) = ks.flatMap u64Bytes ++ r := by
      rw [← List.drop_drop, h, ← length_u64Bytes k, List.drop_left]
    have h8 := sliceRange_of_drop (by omega) h
    rw [length_u64Bytes] at h8
    rw [List.length_cons, readU64sAt, h8, except_ok_bind, ih h', except_ok_bind,
      readU64Value_u64Bytes]
    rfl

theorem readU64sAt_ok (s : List UInt8) (n : ℕ) {start : ℕ} (h : start + n * 8 ≤ s.length) :
    ∃ ks, readU64sAt s start n = .ok ks ∧ ks.length = n ∧
      s.drop start = ks.flatMap u64Bytes ++ s.drop (start + n * 8) := by
  induction n generalizing start with
  | zero => exact ⟨[], rfl, rfl, by simp⟩
  | succ n ih =>
    obtain ⟨ks, hks, hl, hd⟩ := @ih (start + 8) (by rw [Nat.succ_mul] at h; omega)
    have hb : ((s.drop start).take 8).length = 8 := by simp; omega
    refine ⟨readU64Value ((s.drop start).take 8) :: ks, ?_, by simp [hl], ?_⟩
    · rw [readU64sAt, sliceRange, if_pos ⟨by omega, by omega⟩, Nat.add_sub_cancel_left,
        except_ok_bind, hks]
      rfl
    · have e : start + (n + 1) * 8 = start + 8 + n * 8 := by ring
      rw [List.flatMap_cons, u64Bytes_readU64Value hb, List.append_assoc, e, ← hd,
        ← List.drop_drop, List.take_append_drop]

/-- On any slice whose bytes from offset `o` run along `e ++ t`, possibly cut short, `r` returns
`v` and the offset past `e` when the slice holds all of `e`, and rejects when it ends inside. -/
def Decodes (r : List UInt8 → Reader α) (v : α) (e : List UInt8) : Prop :=
  ∀ s o t, o ≤ s.length → s.drop o <+: e ++ t →
    if o + e.length ≤ s.length then (r s).run o = .ok (v, o + e.length)
    else Rejects ((r s).run o)

theorem drop_prefix_of_le {s e t : List UInt8} {o : ℕ} (hp : s.drop o <+: e ++ t)
    (hl : o + e.length ≤ s.length) : s.drop o = e ++ s.drop (o + e.length) := by
  have he : e <+: s.drop o :=
    List.prefix_of_prefix_length_le (List.prefix_append e t) hp (by simp; omega)
  obtain ⟨r, hr⟩ := he
  rw [← hr, ← List.drop_drop, ← hr, List.drop_left]

theorem Decodes.pure (v : α) : Decodes (fun _ => Pure.pure v) v [] := by
  intro s o t ho _
  simp [ho]

theorem Decodes.bind {r₁ : List UInt8 → Reader α} {r₂ : α → List UInt8 → Reader β}
    {a : α} {b : β} {e₁ e₂ : List UInt8} (h₁ : Decodes r₁ a e₁) (h₂ : Decodes (r₂ a) b e₂) :
    Decodes (fun s => r₁ s >>= fun x => r₂ x s) b (e₁ ++ e₂) := by
  intro s o t ho hp
  have h := h₁ s o (e₂ ++ t) ho (by simpa using hp)
  simp only [StateT.run_bind]
  split_ifs at h with h1
  · have hd : s.drop (o + e₁.length) <+: e₂ ++ t := by
      have := hp.drop e₁.length
      rwa [List.drop_drop, List.append_assoc, List.drop_left] at this
    have h2 := h₂ s (o + e₁.length) t h1 hd
    rw [h, except_ok_bind, List.length_append, ← Nat.add_assoc]
    exact h2
  · rw [if_neg (by simp; omega)]
    exact h.bind _

/-- Every run of `r`, on any slice at any offset, rejects or returns some `v` after stepping over
exactly the bytes `e` of the slice, with `R v e`. In particular it never panics. -/
def Parses (r : List UInt8 → Reader α) (R : α → List UInt8 → Prop) : Prop :=
  ∀ s o, Rejects ((r s).run o) ∨
    ∃ v e, (r s).run o = .ok (v, o + e.length) ∧ s.drop o = e ++ s.drop (o + e.length) ∧ R v e

theorem Parses.pure {R : α → List UInt8 → Prop} {v : α} (h : R v []) :
    Parses (fun _ => Pure.pure v) R :=
  fun _ _ => .inr ⟨v, [], rfl, rfl, h⟩

theorem Parses.bind {r₁ : List UInt8 → Reader α} {r₂ : α → List UInt8 → Reader β}
    {R₁ : α → List UInt8 → Prop} {R : β → List UInt8 → Prop} (h₁ : Parses r₁ R₁)
    (h₂ : ∀ a e, R₁ a e → Parses (r₂ a) fun b e' => R b (e ++ e')) :
    Parses (fun s => r₁ s >>= fun x => r₂ x s) R := by
  intro s o
  simp only [StateT.run_bind]
  rcases h₁ s o with hr | ⟨a, e, hrun, hdrop, hR⟩
  · exact .inl (hr.bind _)
  · rw [hrun, except_ok_bind]
    rcases h₂ a e hR s (o + e.length) with hr | ⟨b, e', hrun', hdrop', hR'⟩
    · exact .inl hr
    · refine .inr ⟨b, e ++ e', ?_, ?_, hR'⟩
      · simpa [Nat.add_assoc] using hrun'
      · rw [hdrop, hdrop']
        simp [Nat.add_assoc]

theorem Parses.mono {r : List UInt8 → Reader α} {R R' : α → List UInt8 → Prop}
    (h : Parses r R) (hR : ∀ v e, R v e → R' v e) : Parses r R' := fun s o =>
  (h s o).imp id fun ⟨v, e, h₁, h₂, h₃⟩ => ⟨v, e, h₁, h₂, hR v e h₃⟩

theorem Decodes.bind_pure {r : List UInt8 → Reader α} {v : α} {e : List UInt8} (h : Decodes r v e)
    (f : α → β) : Decodes (fun s => r s >>= fun x => Pure.pure (f x)) (f v) e := by
  simpa using @Decodes.bind _ _ _ (fun x _ => Pure.pure (f x)) _ _ _ _ h (Decodes.pure (f v))

theorem Decodes.of_eq {r : List UInt8 → Reader α} {v v' : α} {e : List UInt8} (h : Decodes r v e)
    (hv : v = v') : Decodes r v' e :=
  hv ▸ h

theorem Parses.reject {R : α → List UInt8 → Prop} {m : String} (hm : NotUuidFailure m) :
    Parses (fun _ => Reader.reject m) R :=
  fun _ _ => .inl (rejects_reject hm)

section Fields

variable {m : String} (hm : NotUuidFailure m)
include hm

theorem readBytes_decodes {b : List UInt8} {n : ℕ} (hb : b.length = n) :
    Decodes (fun s => readBytes s n m) b b := by
  subst hb
  intro s o t ho hp
  simp only [readBytes, StateT.run]
  refine check_decodes (rejects_reject hm) id fun h => ?_
  rw [if_pos (by omega), sliceRange_of_drop ho (drop_prefix_of_le hp (by omega))]
  rfl

theorem readBytes_parses (n : ℕ) :
    Parses (fun s => readBytes s n m) fun b e => b = e ∧ e.length = n := by
  intro s o
  simp only [readBytes, StateT.run]
  split_ifs with h
  · exact .inl (rejects_reject hm)
  · have hl : ((s.drop o).take n).length = n := by simp; omega
    have hs : sliceRange s o (o + n) = .ok ((s.drop o).take n) := by
      rw [sliceRange, if_pos ⟨by omega, by omega⟩, Nat.add_sub_cancel_left]
    refine .inr ⟨_, _, ?_, ?_, rfl, hl⟩
    · rw [hs, except_ok_bind, hl]
      rfl
    · rw [hl, ← List.drop_drop, List.take_append_drop]

theorem readU16_decodes {n : ℕ} (hn : n ≤ 65535) :
    Decodes (fun s => readU16 s m) n (leBytes 2 n) := by
  have h := (readBytes_decodes hm (length_leBytes 2 n)).bind_pure ofLE
  rwa [ofLE_leBytes_of_lt (by simp; omega)] at h

theorem readU16_parses :
    Parses (fun s => readU16 s m) fun n e => n ≤ 65535 ∧ e = leBytes 2 n := by
  refine (readBytes_parses hm 2).bind fun b e ⟨hb, he⟩ => Parses.pure ?_
  subst hb
  have := ofLE_lt b
  rw [he] at this
  exact ⟨by simp at this; omega, by rw [List.append_nil, ← he, leBytes_ofLE]⟩

theorem readU64_decodes (x : UInt64) : Decodes (fun s => readU64 s m) x (u64Bytes x) := by
  simpa using (readBytes_decodes hm (length_u64Bytes x)).bind_pure readU64Value

theorem readU64_parses :
    Parses (fun s => readU64 s m) fun x e => e = u64Bytes x := by
  refine (readBytes_parses hm 8).bind fun b e ⟨hb, he⟩ => Parses.pure ?_
  subst hb
  rw [List.append_nil, u64Bytes_readU64Value he]

theorem readStr_decodes {m' : String} (str : Utf8String) :
    Decodes (fun s => readStr s str.bytes.length m m') str str.bytes := by
  have h₂ : Decodes (fun _ => utf8OrReject str.bytes m') str [] := by
    simpa [utf8OrReject, Utf8String.fromUtf8_bytes] using Decodes.pure str
  simpa using
    @Decodes.bind _ _ _ (fun b _ => utf8OrReject b m') _ _ _ _ (readBytes_decodes hm rfl) h₂

theorem readStr_parses {m' : String} (hm' : NotUuidFailure m') (n : ℕ) :
    Parses (fun s => readStr s n m m') fun str e => e = str.bytes ∧ e.length = n := by
  refine (readBytes_parses hm n).bind fun b e ⟨hb, he⟩ => ?_
  subst hb
  unfold utf8OrReject
  split
  · next str h => exact Parses.pure ⟨by simp [Utf8String.bytes_of_fromUtf8 h], by simpa⟩
  · exact Parses.reject hm'

theorem readU64s_decodes (ks : List UInt64) :
    Decodes (fun s => readU64s s ks.length m) ks (ks.flatMap u64Bytes) := by
  intro s o t ho hp
  simp only [readU64s, StateT.run, length_flatMap_u64Bytes]
  refine check_decodes (rejects_reject hm) id fun h => ?_
  rw [if_pos (by omega), readU64sAt_of_drop ks (drop_prefix_of_le hp (by simp; omega))]
  rfl

theorem readU64s_parses (n : ℕ) :
    Parses (fun s => readU64s s n m) fun ks e => ks.length = n ∧ e = ks.flatMap u64Bytes := by
  intro s o
  simp only [readU64s, StateT.run]
  split_ifs with h
  · exact .inl (rejects_reject hm)
  · obtain ⟨ks, hks, hl, hd⟩ := @readU64sAt_ok s n o (by omega)
    refine .inr ⟨ks, ks.flatMap u64Bytes, ?_, by simpa [hl] using hd, hl, rfl⟩
    rw [hks, except_ok_bind, length_flatMap_u64Bytes, hl]
    rfl

end Fields

theorem readN_decodes {r : List UInt8 → Reader α} {enc : α → List UInt8} {l : List α}
    (h : ∀ a ∈ l, Decodes r a (enc a)) :
    Decodes (fun s => readN (r s) l.length) l (l.flatMap enc) := by
  induction l with
  | nil => exact Decodes.pure []
  | cons a l ih =>
    have hl := (ih fun x hx => h x (List.mem_cons_of_mem a hx)).bind_pure (a :: ·)
    exact (h a (List.mem_cons_self a l)).bind hl

theorem readN_parses {r : List UInt8 → Reader α} {P : α → Prop} {enc : α → List UInt8}
    (h : Parses r fun v e => P v ∧ e = enc v) (n : ℕ) :
    Parses (fun s => readN (r s) n)
      fun l e => l.length = n ∧ (∀ v ∈ l, P v) ∧ e = l.flatMap enc := by
  induction n with
  | zero => exact Parses.pure ⟨rfl, by simp, rfl⟩
  | succ n ih =>
    refine h.bind fun a e ⟨ha, he⟩ => ih.bind fun l e' ⟨hl, hP, he'⟩ => Parses.pure ?_
    subst he he'
    exact ⟨by simp [hl], List.forall_mem_cons.2 ⟨ha, hP⟩, by simp⟩

end UmaDB
