-- SUMMARY: Buffers as a JavaScript host reads them: by position, with or without a check before each read.
import DeadMansVault.Library.Codec
import Mathlib.Data.Nat.Log

/-!
# Buffers

A `Read` consumes a buffer from a position on. `bytes` takes what it asks for on
trust and runs off the buffer where there is less; `need` looks first and throws.
A reader that looks before each read and one that computes the whole length up front
are compared by `Guards`. `Finds` ties a reader to what a `Codec` has written: wherever
the bytes stand in a buffer, the reader returns the value they encode.
-/

/-! ## Numbers and texts of the host -/

/-- `Number(x)`: the double nearest to an integer; of two nearest the even one. -/
def toNumber (x : Int) : Int :=
  let unit := 2 ^ (Nat.log2 x.natAbs + 1 - 53)
  let mantissa := x.natAbs / unit
  let below := 2 * (x.natAbs % unit)
  let rounded := if below < unit ∨ (below = unit ∧ mantissa % 2 = 0) then mantissa else mantissa + 1
  x.sign * (rounded * unit : Nat)

/-- An integer of 53 bits is a double. -/
theorem toNumber_eq {x : Int} (h : x.natAbs < 2 ^ 53) : toNumber x = x := by
  have hunit : Nat.log2 x.natAbs + 1 - 53 = 0 := by
    rcases Nat.eq_zero_or_pos x.natAbs with hzero | hpos
    · rw [hzero]
      rfl
    · have hlog : Nat.log2 x.natAbs < 53 := (Nat.log2_lt hpos.ne').mpr h
      omega
  simp only [toNumber, hunit, Nat.pow_zero, Nat.div_one, Nat.mod_one]
  rw [if_pos (by omega), Nat.mul_one, Int.sign_mul_natAbs]

def hexDigit (n : Nat) : Char := Char.ofNat (if n < 10 then 48 + n else 87 + n)

/-- `toString('hex')` -/
def toHex (bs : List UInt8) : List Char :=
  bs.flatMap fun b => [hexDigit (b.toNat / 16), hexDigit (b.toNat % 16)]

def hexValue (c : Char) : Option Nat :=
  if '0' ≤ c ∧ c ≤ '9' then some (c.toNat - 48)
  else if 'a' ≤ c ∧ c ≤ 'f' then some (c.toNat - 87)
  else if 'A' ≤ c ∧ c ≤ 'F' then some (c.toNat - 55)
  else none

/-- `Buffer.from(text, 'hex')`: the bytes up to the first pair that is not of digits. -/
def fromHex : List Char → List UInt8
  | high :: low :: rest =>
    match hexValue high, hexValue low with
    | some h, some l => UInt8.ofNat (16 * h + l) :: fromHex rest
    | _, _ => []
  | _ => []

theorem hexValue_hexDigit {n : Nat} (h : n < 16) : hexValue (hexDigit n) = some n := by
  have hall : ∀ n, n < 16 → hexValue (hexDigit n) = some n := by decide
  exact hall n h

theorem fromHex_toHex (bs : List UInt8) : fromHex (toHex bs) = bs := by
  induction bs with
  | nil => rfl
  | cons b bs ih =>
      have hb : b.toNat < 256 := b.toNat_lt
      have hbyte : 16 * (b.toNat / 16) + b.toNat % 16 = b.toNat := Nat.div_add_mod _ _
      have hstep : fromHex (toHex (b :: bs)) =
          UInt8.ofNat (16 * (b.toNat / 16) + b.toNat % 16) :: fromHex (toHex bs) := by
        rw [toHex, List.flatMap_cons, List.cons_append, List.singleton_append, fromHex,
          hexValue_hexDigit (by omega), hexValue_hexDigit (by omega)]
        rfl
      rw [hstep, hbyte, ih, UInt8.ofNat_toNat]

/-- Comparing the texts is comparing the bytes, for a text that is one of bytes. -/
theorem toHex_eq_iff {bs : List UInt8} {text : List Char} (h : toHex (fromHex text) = text) :
    toHex bs = text ↔ bs = fromHex text := by
  constructor
  · intro htext
    rw [← htext, fromHex_toHex]
  · intro hbytes
    rw [hbytes, h]

/-! ## Reading by position -/

inductive ReadError
  | thrown (message : String)
  /-- The reader has run off the buffer. -/
  | overread
  deriving DecidableEq, Repr

abbrev Read (α : Type) := ReaderT (List UInt8) (StateT Nat (Except ReadError)) α

namespace Read

variable {α β : Type}

/-- The next `n` bytes. -/
def bytes (n : Nat) : Read (List UInt8) := fun data offset =>
  if offset + n ≤ data.length then .ok ((data.drop offset).take n, offset + n)
  else .error .overread

/-- There are less than `n` more bytes. -/
def short (n : Nat) : Read Bool := fun data offset =>
  .ok (decide (data.length < offset + n), offset)

def skip (n : Nat) : Read Unit := fun _ offset => .ok ((), offset + n)

def fail (message : String) : Read α := fun _ _ => .error (.thrown message)

/-- Look for `n` more bytes. -/
def need (message : String) (n : Nat) : Read Unit := fun data offset =>
  if offset + n ≤ data.length then .ok ((), offset) else .error (.thrown message)

/-- The next `k` bytes as an unsigned number. -/
def number (k : Nat) : Read Nat := ofBytes <$> bytes k

/-- `data[offset]` -/
def byte : Read Nat := number 1

/-- `data[offset] !== 0` -/
def flag : Read Bool := (· != 0) <$> byte

def many (r : Read α) : Nat → Read (List α)
  | 0 => pure []
  | n + 1 => do
    let a ← r
    let as ← many r n
    return a :: as

/-- The value read from `offset` on. -/
def parse (r : Read α) (data : List UInt8) (offset : Nat) : Except ReadError α :=
  (r data offset).map Prod.fst

theorem run_bind (r : Read α) (k : α → Read β) (data : List UInt8) (offset : Nat) :
    (r >>= k) data offset = (r data offset).bind fun (a, offset) => k a data offset := rfl

theorem run_map (f : α → β) (r : Read α) (data : List UInt8) (offset : Nat) :
    (f <$> r) data offset = (r data offset).map fun (a, offset) => (f a, offset) := by
  cases h : r data offset with
  | error e =>
      show Except.bind (r data offset) _ = _
      rw [h]
      rfl
  | ok read =>
      show Except.bind (r data offset) _ = _
      rw [h]
      rfl

/-! ## Checked and unchecked readers -/

/-- The reader consumes `n` bytes wherever there are as many. -/
def Consumes (n : Nat) (r : Read α) : Prop :=
  ∀ data offset, offset + n ≤ data.length → ∃ a, r data offset = .ok (a, offset + n)

theorem Consumes.bytes (n : Nat) : Consumes n (Read.bytes n) :=
  fun _ _ h => ⟨_, if_pos h⟩

theorem Consumes.map {f : α → β} {n : Nat} {r : Read α} (h : Consumes n r) :
    Consumes n (f <$> r) := by
  intro data offset hroom
  obtain ⟨a, hread⟩ := h data offset hroom
  refine ⟨f a, ?_⟩
  rw [run_map, hread]
  rfl

/-- Both readers consume `n` bytes and return the same where these are there; where they are
not, the checked one throws. -/
structure Guards (message : String) (n : Nat) (checked plain : Read α) : Prop where
  inside : ∀ data offset, offset + n ≤ data.length → ∃ a,
    checked data offset = .ok (a, offset + n) ∧ plain data offset = .ok (a, offset + n)
  outside : ∀ data offset, offset ≤ data.length → data.length < offset + n →
    checked data offset = .error (.thrown message)

namespace Guards

variable {message : String} {m n : Nat} {checked plain : Read α}

/-- Looking for all that a reader consumes guards it. -/
theorem need (message : String) (h : Consumes n plain) :
    Guards message n (do Read.need message n; plain) plain where
  inside data offset hroom := by
    obtain ⟨a, hread⟩ := h data offset hroom
    refine ⟨a, ?_, hread⟩
    rw [run_bind, Read.need, if_pos hroom]
    exact hread
  outside data offset _ hshort := by
    rw [run_bind, Read.need, if_neg (by omega)]
    rfl

theorem pure (a : α) : Guards message 0 (Pure.pure a) (Pure.pure a) where
  inside _ _ _ := ⟨a, rfl, rfl⟩
  outside _ _ hle h := by omega

theorem bind {k k' : α → Read β} (h : Guards message m checked plain)
    (hk : ∀ a, Guards message n (k a) (k' a)) :
    Guards message (m + n) (checked >>= k) (plain >>= k') where
  inside data offset hroom := by
    obtain ⟨a, hchecked, hplain⟩ := h.inside data offset (by omega)
    obtain ⟨b, hchecked', hplain'⟩ := (hk a).inside data (offset + m) (by omega)
    refine ⟨b, ?_, ?_⟩
    · rw [run_bind, hchecked, ← Nat.add_assoc]
      exact hchecked'
    · rw [run_bind, hplain, ← Nat.add_assoc]
      exact hplain'
  outside data offset hle hshort := by
    rw [run_bind]
    rcases Nat.lt_or_ge data.length (offset + m) with hfirst | hfirst
    · rw [h.outside data offset hle hfirst]
      rfl
    · obtain ⟨a, hchecked, -⟩ := h.inside data offset hfirst
      rw [hchecked]
      exact (hk a).outside data (offset + m) hfirst (by omega)

theorem map {f : α → β} (h : Guards message n checked plain) :
    Guards message n (f <$> checked) (f <$> plain) where
  inside data offset hroom := by
    obtain ⟨a, hchecked, hplain⟩ := h.inside data offset hroom
    refine ⟨f a, ?_, ?_⟩
    · rw [run_map, hchecked]
      rfl
    · rw [run_map, hplain]
      rfl
  outside data offset hle hshort := by
    rw [run_map, h.outside data offset hle hshort]
    rfl

theorem many (h : Guards message n checked plain) (k : Nat) :
    Guards message (k * n) (checked.many k) (plain.many k) := by
  induction k with
  | zero =>
      rw [Nat.zero_mul]
      exact pure []
  | succ k ih =>
      have hsum : (k + 1) * n = n + (k * n + 0) := by ring
      rw [hsum]
      exact h.bind fun a => ih.bind fun as => pure (a :: as)

/-- Where the first readers find their bytes, the rest decides. -/
theorem bind_inside (h : Guards message n checked plain) (k k' : α → Read β) {data : List UInt8}
    {offset : Nat} (hroom : offset + n ≤ data.length) :
    ∃ a, (checked >>= k) data offset = k a data (offset + n) ∧
      (plain >>= k') data offset = k' a data (offset + n) := by
  obtain ⟨a, hchecked, hplain⟩ := h.inside data offset hroom
  refine ⟨a, ?_, ?_⟩
  · rw [run_bind, hchecked]
    rfl
  · rw [run_bind, hplain]
    rfl

end Guards

/-! ## Readers and codecs -/

/-- Wherever `encoded` stands in a buffer, the reader returns `a` and stops behind it. -/
def Takes (r : Read α) (encoded : List UInt8) (a : α) : Prop :=
  ∀ front rest, r (front ++ (encoded ++ rest)) front.length =
    .ok (a, front.length + encoded.length)

/-- Wherever `encoded` stands in a buffer, the reader returns `a`; it may stop anywhere. -/
def Finds (r : Read α) (encoded : List UInt8) (a : α) : Prop :=
  ∀ front rest, ∃ stop, r (front ++ (encoded ++ rest)) front.length = .ok (a, stop)

variable {r : Read α} {k : α → Read β} {w w' : List UInt8} {a : α} {b : β}

theorem Finds.pure (a : α) (encoded : List UInt8) : Finds (Pure.pure a) encoded a :=
  fun front _ => ⟨front.length, rfl⟩

theorem Finds.append (h : Finds r w a) (w' : List UInt8) : Finds r (w ++ w') a := by
  intro front rest
  rw [List.append_assoc]
  exact h front (w' ++ rest)

theorem Finds.parse (h : Finds r w a) (front rest : List UInt8) :
    r.parse (front ++ (w ++ rest)) front.length = .ok a := by
  obtain ⟨stop, hread⟩ := h front rest
  rw [Read.parse, hread]
  rfl

theorem Finds.need {message : String} {n : Nat} (h : Finds r w a) (hlen : n ≤ w.length) :
    Finds (do Read.need message n; r) w a := by
  intro front rest
  have hroom : front.length + n ≤ (front ++ (w ++ rest)).length := by
    simp only [List.length_append]
    omega
  rw [run_bind, Read.need, if_pos hroom]
  exact h front rest

theorem Takes.toFinds (h : Takes r w a) : Finds r w a :=
  fun front rest => ⟨_, h front rest⟩

theorem Takes.bytes {n : Nat} (h : w.length = n) : Takes (Read.bytes n) w w := by
  intro front rest
  subst h
  have hroom : front.length + w.length ≤ (front ++ (w ++ rest)).length := by
    simp only [List.length_append]
    omega
  rw [Read.bytes, if_pos hroom, List.drop_left, List.take_left]

theorem Takes.skip {n : Nat} (h : w.length = n) : Takes (Read.skip n) w () := by
  intro front rest
  rw [h]
  rfl

theorem Takes.need {message : String} {n : Nat} (h : Takes r w a) (hlen : w.length = n) :
    Takes (do Read.need message n; r) w a := by
  intro front rest
  have hroom : front.length + n ≤ (front ++ (w ++ rest)).length := by
    simp only [List.length_append]
    omega
  rw [run_bind, Read.need, if_pos hroom]
  exact h front rest

theorem Takes.map {f : α → β} (h : Takes r w a) : Takes (f <$> r) w (f a) := by
  intro front rest
  rw [run_map, h front rest]
  rfl

theorem Takes.bind (h : Takes r w a) (hk : Takes (k a) w' b) : Takes (r >>= k) (w ++ w') b := by
  intro front rest
  have hnext := hk (front ++ w) rest
  rw [List.append_assoc, List.length_append] at hnext
  rw [run_bind, List.append_assoc, h front (w' ++ rest), List.length_append, ← Nat.add_assoc]
  exact hnext

theorem Takes.finds (h : Takes r w a) (hk : Finds (k a) w' b) : Finds (r >>= k) (w ++ w') b := by
  intro front rest
  obtain ⟨stop, hnext⟩ := hk (front ++ w) rest
  rw [List.append_assoc, List.length_append] at hnext
  refine ⟨stop, ?_⟩
  rw [run_bind, List.append_assoc, h front (w' ++ rest)]
  exact hnext

/-- The last field of a value. -/
theorem Takes.last {f : α → β} (h : Takes r w a) :
    Takes (r >>= fun a => Pure.pure (f a)) w (f a) := by
  intro front rest
  rw [run_bind, h front rest]
  rfl

theorem Takes.many {A : Codec α} {r : Read β} {f : α → β} (as : List α)
    (h : ∀ a ∈ as, Takes r (A.encode a) (f a)) :
    Takes (r.many as.length) (as.flatMap A.encode) (as.map f) := by
  induction as with
  | nil => exact fun _ _ => rfl
  | cons a as ih =>
      have hrest := ih fun a' ha' => h a' (List.mem_cons_of_mem _ ha')
      exact (h a (by simp)).bind hrest.last

theorem Takes.number {n k : Nat} (h : n < 256 ^ k) : Takes (Read.number k) (toBytes k n) n := by
  have hread : Takes (Read.number k) (toBytes k n) (ofBytes (toBytes k n)) :=
    (Takes.bytes (length_toBytes k n)).map
  rwa [ofBytes_toBytes, Nat.mod_eq_of_lt h] at hread

theorem Takes.bit (x : Bool) : Takes Read.byte (Codec.bool.encode x) x.toNat := by
  have hbyte : Takes Read.byte (Codec.bool.encode x) (ofBytes (Codec.bool.encode x)) :=
    Takes.map (f := ofBytes) (Takes.bytes (n := 1) rfl)
  cases x with
  | false => exact hbyte
  | true => exact hbyte

/-- Whichever reader finds the byte of a flag: not zero is true. -/
theorem Takes.nonzero {r : Read Nat} {x : Bool} (h : Takes r w x.toNat) :
    Takes ((· != 0) <$> r) w x := by
  cases x with
  | false => exact h.map
  | true => exact h.map

theorem Takes.flag (x : Bool) : Takes Read.flag (Codec.bool.encode x) x := (Takes.bit x).nonzero

end Read
