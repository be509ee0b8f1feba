-- SUMMARY: Byte codecs that compose, and what a buffer holds after a value is written over its front.
import Mathlib.Data.List.Basic
import Mathlib.Tactic.Ring

/-!
# Codecs

A `Codec` writes values as bytes and reads them back from the front of a buffer.
Codecs compose by concatenation, so the position of a field depends on the values
before it. A value written over the front of a buffer leaves the bytes behind it
as they were; a field appended to the format reads exactly those.
-/

variable {α β : Type}

/-! ## Little-endian numbers -/

/-- The `k` low bytes of `n`. -/
def toBytes : Nat → Nat → List UInt8
  | 0, _ => []
  | k + 1, n => UInt8.ofNat n :: toBytes k (n / 256)

def ofBytes : List UInt8 → Nat
  | [] => 0
  | b :: bs => b.toNat + 256 * ofBytes bs

@[simp] theorem toBytes_zero (n : Nat) : toBytes 0 n = [] := rfl

theorem toBytes_succ (k n : Nat) : toBytes (k + 1) n = UInt8.ofNat n :: toBytes k (n / 256) := rfl

@[simp] theorem ofBytes_nil : ofBytes [] = 0 := rfl

theorem ofBytes_cons (b : UInt8) (bs : List UInt8) :
    ofBytes (b :: bs) = b.toNat + 256 * ofBytes bs := rfl

@[simp] theorem length_toBytes (k n : Nat) : (toBytes k n).length = k := by
  induction k generalizing n with
  | zero => rfl
  | succ k ih => simp [toBytes_succ, ih]

theorem ofBytes_toBytes (k n : Nat) : ofBytes (toBytes k n) = n % 256 ^ k := by
  induction k generalizing n with
  | zero => simp [Nat.mod_one]
  | succ k ih =>
      have hbyte : (UInt8.ofNat n).toNat = n % 256 := by simp
      rw [toBytes_succ, ofBytes_cons, ih, hbyte, Nat.pow_succ', Nat.mod_mul]

theorem ofBytes_lt (bs : List UInt8) : ofBytes bs < 256 ^ bs.length := by
  induction bs with
  | nil => simp
  | cons b bs ih =>
      have hb : b.toNat < 256 := b.toNat_lt
      rw [ofBytes_cons, List.length_cons, Nat.pow_succ']
      omega

theorem ofBytes_eq_zero {bs : List UInt8} : ofBytes bs = 0 ↔ ∀ b ∈ bs, b = 0 := by
  induction bs with
  | nil => simp
  | cons b bs ih =>
      have hb : b.toNat = 0 ↔ b = 0 := by
        rw [← UInt8.toNat_inj]
        rfl
      simp only [ofBytes_cons, List.mem_cons, forall_eq_or_imp, ← ih, ← hb]
      omega

/-- A word read from all its bytes is zero when they are. -/
theorem ofNat_ofBytes_eq_zero {bs : List UInt8} {w : Nat} (h : 8 * bs.length = w) :
    BitVec.ofNat w (ofBytes bs) = 0 ↔ ∀ b ∈ bs, b = 0 := by
  have hlt : ofBytes bs < 2 ^ w := by
    rw [← h, Nat.pow_mul]
    exact ofBytes_lt bs
  rw [← BitVec.toNat_inj, BitVec.toNat_ofNat, Nat.mod_eq_of_lt hlt, ← ofBytes_eq_zero]
  simp

/-! ## Codecs -/

structure Codec (α : Type) where
  encode : α → List UInt8
  /-- Read a value off the front of a buffer. -/
  decode : List UInt8 → Option (α × List UInt8)
  /-- The value can be represented. -/
  Fits : α → Prop
  decode_encode : ∀ a rest, Fits a → decode (encode a ++ rest) = some (a, rest)

namespace Codec

/-- All encodings have the same length. -/
def HasSize (A : Codec α) (n : Nat) : Prop :=
  ∀ a, (A.encode a).length = n

/-- A fixed sequence of bytes, which the reader checks. -/
def tag (front : List UInt8) : Codec Unit where
  encode _ := front
  decode data := if front.isPrefixOf data then some ((), data.drop front.length) else none
  Fits _ := True
  decode_encode _ rest _ := by simp

/-- An unsigned number of `w` bits, in as many bytes as it takes. -/
def word (w : Nat) : Codec (BitVec w) where
  encode n := toBytes ((w + 7) / 8) n.toNat
  decode data :=
    if (w + 7) / 8 ≤ data.length then
      some (BitVec.ofNat w (ofBytes (data.take ((w + 7) / 8))), data.drop ((w + 7) / 8))
    else none
  Fits _ := True
  decode_encode n rest _ := by
    have hlt : n.toNat < 256 ^ ((w + 7) / 8) := by
      calc n.toNat < 2 ^ w := n.isLt
        _ ≤ 2 ^ (8 * ((w + 7) / 8)) := Nat.pow_le_pow_right (by decide) (by omega)
        _ = 256 ^ ((w + 7) / 8) := Nat.pow_mul 2 8 _
    have htake : (toBytes ((w + 7) / 8) n.toNat ++ rest).take ((w + 7) / 8) =
        toBytes ((w + 7) / 8) n.toNat := List.take_left' (by simp)
    have hdrop : (toBytes ((w + 7) / 8) n.toNat ++ rest).drop ((w + 7) / 8) = rest :=
      List.drop_left' (by simp)
    rw [if_pos (by simp), htake, hdrop, ofBytes_toBytes, Nat.mod_eq_of_lt hlt, BitVec.ofNat_toNat,
      BitVec.setWidth_eq]

def bool : Codec Bool where
  encode b := [if b then 1 else 0]
  decode
    | 0 :: rest => some (false, rest)
    | 1 :: rest => some (true, rest)
    | _ => none
  Fits _ := True
  decode_encode b rest _ := by cases b <;> rfl

def pair (A : Codec α) (B : Codec β) : Codec (α × β) where
  encode ab := A.encode ab.1 ++ B.encode ab.2
  decode data := do
    let (a, rest) ← A.decode data
    let (b, rest) ← B.decode rest
    some ((a, b), rest)
  Fits ab := A.Fits ab.1 ∧ B.Fits ab.2
  decode_encode ab rest h := by
    simp [List.append_assoc, A.decode_encode _ _ h.1, B.decode_encode _ _ h.2]

/-- Read another type through the format of `α`. -/
def iso (A : Codec α) (f : α → β) (g : β → α) (hfg : ∀ b, f (g b) = b) : Codec β where
  encode b := A.encode (g b)
  decode data := (A.decode data).map fun read => (f read.1, read.2)
  Fits b := A.Fits (g b)
  decode_encode b rest h := by simp [A.decode_encode _ _ h, hfg]

def decodeMany (A : Codec α) : Nat → List UInt8 → Option (List α × List UInt8)
  | 0, data => some ([], data)
  | n + 1, data => do
    let (a, rest) ← A.decode data
    let (as, rest) ← A.decodeMany n rest
    some (a :: as, rest)

theorem decodeMany_encode (A : Codec α) (as : List α) (rest : List UInt8)
    (h : ∀ a ∈ as, A.Fits a) :
    A.decodeMany as.length (as.flatMap A.encode ++ rest) = some (as, rest) := by
  induction as with
  | nil => rfl
  | cons a as ih =>
      have hrest := ih fun a' ha' => h a' (List.mem_cons_of_mem _ ha')
      simp [decodeMany, List.append_assoc, A.decode_encode _ _ (h a (by simp)), hrest]

/-- A list behind its length, which is a word of 32 bits. -/
def list (A : Codec α) : Codec (List α) where
  encode as := (word 32).encode (BitVec.ofNat 32 as.length) ++ as.flatMap A.encode
  decode data := do
    let (n, rest) ← (word 32).decode data
    A.decodeMany n.toNat rest
  Fits as := as.length < 2 ^ 32 ∧ ∀ a ∈ as, A.Fits a
  decode_encode as rest h := by
    have hlen : (BitVec.ofNat 32 as.length).toNat = as.length := by
      rw [BitVec.toNat_ofNat, Nat.mod_eq_of_lt h.1]
    simp only [List.append_assoc, (word 32).decode_encode _ _ trivial, Option.bind_eq_bind,
      Option.bind_some, hlen, A.decodeMany_encode as rest h.2]

/-! ## Sizes -/

theorem hasSize_tag (front : List UInt8) : (tag front).HasSize front.length := fun _ => rfl

theorem hasSize_word (w : Nat) : (word w).HasSize ((w + 7) / 8) := fun _ => length_toBytes _ _

theorem hasSize_bool : bool.HasSize 1 := fun _ => rfl

theorem HasSize.pair {A : Codec α} {B : Codec β} {m n : Nat} (hA : A.HasSize m)
    (hB : B.HasSize n) : (A.pair B).HasSize (m + n) := by
  intro ab
  rw [Codec.pair, List.length_append, hA, hB]

theorem HasSize.length_list {A : Codec α} {n : Nat} (h : A.HasSize n) (as : List α) :
    (A.list.encode as).length = 4 + as.length * n := by
  have helems : (as.flatMap A.encode).length = as.length * n := by
    induction as with
    | nil => simp
    | cons a as ih => simp [h a, ih, Nat.add_mul, Nat.add_comm]
  simp only [list, List.length_append, hasSize_word 32 _, helems]

/-! ## Buffers -/

/-- Write over the front of a buffer. -/
def overwrite (front data : List UInt8) : List UInt8 :=
  front ++ data.drop front.length

theorem length_overwrite {front data : List UInt8} (h : front.length ≤ data.length) :
    (overwrite front data).length = data.length := by
  rw [overwrite, List.length_append, List.length_drop]
  omega

/-- Behind what is written, nothing changes. -/
theorem drop_overwrite {front : List UInt8} (data : List UInt8) {k : Nat} (h : front.length ≤ k) :
    (overwrite front data).drop k = data.drop k := by
  rw [overwrite, List.drop_append, List.drop_eq_nil_of_le h, List.nil_append, List.drop_drop]
  congr 1
  omega

theorem decode_overwrite (A : Codec α) {a : α} (data : List UInt8) (h : A.Fits a) :
    A.decode (overwrite (A.encode a) data) = some (a, data.drop (A.encode a).length) :=
  A.decode_encode a _ h

/-- A word appended to the format reads the bytes that the last write has left. -/
theorem decode_appended_word (A : Codec α) {a : α} {data : List UInt8} {w : Nat} (h : A.Fits a)
    (hroom : (A.encode a).length + (w + 7) / 8 ≤ data.length) :
    ∃ rest, (A.pair (word w)).decode (overwrite (A.encode a) data) =
      some ((a, BitVec.ofNat w
        (ofBytes ((data.drop (A.encode a).length).take ((w + 7) / 8)))), rest) := by
  have hlen : (w + 7) / 8 ≤ (data.drop (A.encode a).length).length := by
    rw [List.length_drop]
    omega
  have hword : (word w).decode (data.drop (A.encode a).length) = some (BitVec.ofNat w
      (ofBytes ((data.drop (A.encode a).length).take ((w + 7) / 8))),
      (data.drop (A.encode a).length).drop ((w + 7) / 8)) := if_pos hlen
  refine ⟨(data.drop (A.encode a).length).drop ((w + 7) / 8), ?_⟩
  simp only [pair, decode_overwrite A data h, Option.bind_eq_bind, Option.bind_some, hword]

end Codec
