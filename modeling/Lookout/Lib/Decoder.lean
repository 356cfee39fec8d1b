-- SUMMARY: Byte-stream decoders, base-128 varints, and the round-trip rules that compose them.
import Mathlib.Algebra.Group.Nat.Defs
import Mathlib.Data.List.Basic
import Mathlib.Tactic.Common

/-!
# Byte-stream decoders

A decoder consumes a prefix of a byte list and either fails or returns a value
together with the unread rest. `Reads d bs a` says that `d` reads exactly the
bytes `bs` and returns `a`, whatever comes after them. The rules for `Reads`
follow the structure of the decoder, so a round trip is proved by walking the
encoder and the decoder side by side. `bind_ok` goes the other way and takes a
successful run apart.
-/

/-- A decoder over a byte stream that may fail with an error `ε`. -/
abbrev Decoder (ε α : Type) : Type := StateT (List UInt8) (Except ε) α

namespace Decoder

variable {ε α β σ : Type}

/-- `d` reads exactly `bs` and returns `a`, for every continuation of the stream. -/
def Reads (d : Decoder ε α) (bs : List UInt8) (a : α) : Prop :=
  ∀ rest, d (bs ++ rest) = .ok (a, rest)

/-- Fail with `e`. -/
def fail (e : ε) : Decoder ε α := fun _ => .error e

/-- Run a check that reads nothing. -/
def check (r : Except ε α) : Decoder ε α := fun bs => r.map (·, bs)

/-- Run `step` exactly `n` times, threading an accumulator. -/
def loop (step : σ → Decoder ε σ) : Nat → σ → Decoder ε σ
  | 0, s => pure s
  | n + 1, s => step s >>= loop step n

/-- Read `n` records with `d`. -/
def many (d : Decoder ε α) : Nat → Decoder ε (List α)
  | 0 => pure []
  | n + 1 => do
    let a ← d
    let as ← many d n
    return a :: as

/-! ## Reading -/

theorem Reads.pure (a : α) : Reads (pure a : Decoder ε α) [] a :=
  fun _ => rfl

variable {bs rest : List UInt8} {n : Nat} {d : Decoder ε α} {f : α → Decoder ε β} {a : α} {b : β}

theorem Reads.bind {cs : List UInt8} (hd : Reads d bs a) (hf : Reads (f a) cs b) :
    Reads (d >>= f) (bs ++ cs) b := by
  intro rest
  change (do let p ← d (bs ++ cs ++ rest); f p.1 p.2) = _
  rw [List.append_assoc, hd (cs ++ rest)]
  exact hf rest

theorem Reads.check {r : Except ε α} (h : r = .ok a) : Reads (check r) [] a := by
  subst h
  exact fun _ => rfl

/-! ## Taking a run apart -/

theorem bind_ok :
    (d >>= f) bs = .ok (b, rest) ↔ ∃ a mid, d bs = .ok (a, mid) ∧ f a mid = .ok (b, rest) := by
  change (do let p ← d bs; f p.1 p.2) = _ ↔ _
  cases hd : d bs with
  | error e => simp [Bind.bind, Except.bind]
  | ok p =>
    obtain ⟨a, mid⟩ := p
    simp [Bind.bind, Except.bind]

theorem pure_ok {b : α} : (pure a : Decoder ε α) bs = .ok (b, rest) ↔ a = b ∧ bs = rest := by
  change Except.ok (a, bs) = _ ↔ _
  simp

@[simp] theorem fail_ok : (fail e : Decoder ε α) bs = .ok (a, rest) ↔ False := by
  simp [fail]

/-- Every record that was read has what the reader guarantees. -/
theorem forall_of_many_ok {P : α → Prop} (h : ∀ bs a rest, d bs = .ok (a, rest) → P a) {as : List α}
    (hread : many d n bs = .ok (as, rest)) : ∀ a ∈ as, P a := by
  induction n generalizing bs rest as with
  | zero =>
    obtain ⟨rfl, -⟩ := pure_ok.1 hread
    simp
  | succ n ih =>
    obtain ⟨a, mid, ha, hrest⟩ := bind_ok.1 hread
    obtain ⟨as', mid', has, hpure⟩ := bind_ok.1 hrest
    obtain ⟨rfl, -⟩ := pure_ok.1 hpure
    intro a' ha'
    rcases List.mem_cons.1 ha' with rfl | ha'
    · exact h _ _ _ ha
    · exact ih has a' ha'

/-! ## Bytes and varints

The varint is the one of Go's `encoding/binary`: seven bits a byte, lowest
first, the high bit set on every byte but the last, at most ten bytes and the
tenth at most one, so that every accepted value fits 64 bits. -/

/-- The next byte of the stream. -/
def byte (short : ε) : Decoder ε UInt8
  | [] => .error short
  | b :: rest => .ok (b, rest)

/-- The next `n` bytes of the stream, which must be there. -/
def take (n : Nat) : Decoder ε (List UInt8) :=
  fun bs => .ok (bs.take n, bs.drop n)

/-- The varint of `n` in at most `k + 1` bytes. -/
def putUvarint : Nat → Nat → List UInt8
  | 0, n => [n.toUInt8]
  | k + 1, n =>
    if n < 0x80 then [n.toUInt8] else (n % 0x80 + 0x80).toUInt8 :: putUvarint k (n / 0x80)

/-- The varint of a 64-bit value: ten bytes are always enough. -/
def appendUvarint (n : Nat) : List UInt8 := putUvarint 9 n

/-- Read a varint of which `i` bytes have been read already. -/
def uvarintFrom : Nat → List UInt8 → Option (Nat × List UInt8)
  | _, [] => none
  | i, b :: rest =>
    if i = 10 then none
    else if b < 0x80 then
      if i = 9 ∧ 1 < b then none else some (b.toNat, rest)
    else (uvarintFrom (i + 1) rest).map fun p => (b.toNat % 0x80 + 0x80 * p.1, p.2)

def uvarint (bad : ε) : Decoder ε Nat := fun bs =>
  match uvarintFrom 0 bs with
  | none => .error bad
  | some p => .ok p

theorem reads_byte (short : ε) (b : UInt8) : Reads (byte short) [b] b :=
  fun _ => rfl

theorem reads_take (bs : List UInt8) : Reads (take bs.length : Decoder ε _) bs bs := by
  intro rest
  simp [take]

theorem toNat_toUInt8 (h : n < 256) : n.toUInt8.toNat = n := by
  simp [Nat.mod_eq_of_lt h]

theorem toUInt8_lt (h : n < 256) : n.toUInt8 < 0x80 ↔ n < 0x80 := by
  rw [UInt8.lt_iff_toNat_lt, toNat_toUInt8 h]
  rfl

/-- A value below `2 * 128 ^ k` fits the `k + 1` bytes that are left after `i` of them. -/
theorem uvarintFrom_putUvarint (rest : List UInt8) :
    ∀ (k i n : Nat), i + k = 9 → n < 2 * 0x80 ^ k →
      uvarintFrom i (putUvarint k n ++ rest) = some (n, rest) := by
  intro k
  induction k with
  | zero =>
    intro i n hi hn
    have hbyte : n.toUInt8.toNat = n := toNat_toUInt8 (by omega)
    rw [putUvarint, List.singleton_append, uvarintFrom, if_neg (by omega),
      if_pos ((toUInt8_lt (by omega)).2 (by omega)), if_neg, hbyte]
    rintro ⟨-, hone⟩
    rw [UInt8.lt_iff_toNat_lt, hbyte] at hone
    have : (1 : UInt8).toNat = 1 := rfl
    omega
  | succ k ih =>
    intro i n hi hn
    rw [putUvarint]
    by_cases hsmall : n < 0x80
    · rw [if_pos hsmall, List.singleton_append, uvarintFrom, if_neg (by omega),
        if_pos ((toUInt8_lt (by omega)).2 hsmall), if_neg (by omega), toNat_toUInt8 (by omega)]
    · have hbig : n % 0x80 + 0x80 < 256 := by omega
      have hdiv : n / 0x80 < 2 * 0x80 ^ k := by
        rw [Nat.div_lt_iff_lt_mul (by omega), Nat.mul_assoc, ← Nat.pow_succ]
        exact hn
      rw [if_neg hsmall, List.cons_append, uvarintFrom, if_neg (by omega),
        if_neg (by rw [toUInt8_lt hbig]; omega), ih (i + 1) (n / 0x80) (by omega) hdiv,
        toNat_toUInt8 hbig]
      simp only [Option.map_some, Option.some.injEq, Prod.mk.injEq, and_true]
      omega

/-- Every 64-bit value is read back from its varint. -/
theorem reads_uvarint (bad : ε) (h : n < 2 ^ 64) : Reads (uvarint bad) (appendUvarint n) n := by
  intro rest
  have hn : n < 2 * 0x80 ^ 9 := by omega
  simp [uvarint, appendUvarint, uvarintFrom_putUvarint rest 9 0 n rfl hn]

end Decoder
