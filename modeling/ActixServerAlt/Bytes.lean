import Mathlib.Data.Nat.Digits

/-!
# Bytes, ASCII literals and number formatting

The encoder writes into byte buffers (`BytesMut`, `Bytes`, `&[u8]`), all of which are lists of
bytes here. This file collects the byte-level helpers the source calls out to:

* `ascii`: a byte-string literal such as `b"\r\n"`;
* `radix`, `decimal`, `upperHex`: `itoa::Buffer::format` and `format!("{:X}", n)`, with the
  fact that reading the digits back gives the number;
* `trim` and `eqIgnoreAsciiCase`: `str::trim` and `str::eq_ignore_ascii_case` on ASCII text.
-/

namespace ActixServerAlt

/-- A byte buffer. -/
abbrev Bytes := List UInt8

/-- The bytes of an ASCII literal, `b"..."` in the source. -/
def ascii (s : String) : Bytes := s.toList.map fun c => c.toNat.toUInt8

/-- The line terminator. -/
def crlf : Bytes := ascii "\r\n"

@[simp] theorem crlf_eq : crlf = [13, 10] := rfl

@[simp] theorem ascii_crlf : ascii "\r\n" = [13, 10] := rfl

@[simp] theorem ascii_crlfcrlf : ascii "\r\n\r\n" = [13, 10, 13, 10] := rfl

@[simp] theorem ascii_cr : ascii "\r" = [13] := rfl

@[simp] theorem ascii_lf : ascii "\n" = [10] := rfl

theorem ascii_append (s t : String) : ascii (s ++ t) = ascii s ++ ascii t := by
  simp [ascii]

/-! ### Digits -/

/-- The digits of `n` in base `b`, most significant first, as a formatter prints them: no
leading zero, and the single digit `0` for zero. -/
def radix (b n : Nat) : List Nat := if n = 0 then [0] else (Nat.digits b n).reverse

/-- The ASCII digit for `d < 16`, in upper case as `{:X}` writes it. -/
def digitByte (d : Nat) : UInt8 := if d < 10 then (48 + d).toUInt8 else (55 + d).toUInt8

/-- `itoa::Buffer::format`: the decimal form of `n`. -/
def decimal (n : Nat) : Bytes := (radix 10 n).map digitByte

/-- `format!("{:X}", n)`: the upper-case hexadecimal form of `n`. -/
def upperHex (n : Nat) : Bytes := (radix 16 n).map digitByte

/-- Reading digits most significant first. -/
def ofRadix (b : Nat) (ds : List Nat) : Nat := ds.foldl (fun acc d => acc * b + d) 0

theorem radix_ne_nil (b n : Nat) : radix b n ≠ [] := by
  unfold radix; split_ifs with h
  · simp
  · simpa using Nat.digits_ne_nil_iff_ne_zero.mpr h

theorem lt_of_mem_radix {b n d : Nat} (hb : 2 ≤ b) (h : d ∈ radix b n) : d < b := by
  unfold radix at h; split_ifs at h
  · simp at h; omega
  · exact Nat.digits_lt_base hb (List.mem_reverse.mp h)

theorem ofRadix_reverse (b : Nat) (l : List Nat) : ofRadix b l.reverse = Nat.ofDigits b l := by
  rw [ofRadix, List.foldl_reverse]
  induction l with
  | nil => rfl
  | cons d l ih => simp only [List.foldr_cons, ih, Nat.ofDigits_cons]; ring

/-- **Digits read back.** -/
@[simp] theorem ofRadix_radix (b n : Nat) : ofRadix b (radix b n) = n := by
  unfold radix; split_ifs with h
  · simp [h, ofRadix]
  · rw [ofRadix_reverse, Nat.ofDigits_digits]

/-! ### Splitting and 64-bit counters -/

/-- `Bytes::split_to(n)`: the first `n` bytes; the caller shows `n` is within the buffer, where
the source panics otherwise. -/
def splitTo (b : Bytes) (n : Nat) (_ : n ≤ b.length) : Bytes := b.take n

theorem u64_ofNat_toNat (n : UInt64) : UInt64.ofNat n.toNat = n :=
  UInt64.toNat.inj (UInt64.toNat_ofNat_of_lt n.toNat_lt_size)

theorem u64_pos_iff (n : UInt64) : 0 < n ↔ 0 < n.toNat := by
  simp [UInt64.lt_def, BitVec.lt_def]; rfl

theorem u64_le_iff (a b : UInt64) : a ≤ b ↔ a.toNat ≤ b.toNat := by
  simp [UInt64.le_def, BitVec.le_def]; rfl

theorem u64_eq_zero_iff (n : UInt64) : n = 0 ↔ n.toNat = 0 :=
  ⟨fun h => by simp [h], fun h => UInt64.toNat.inj h⟩

theorem u64_toNat_ofNat {k : Nat} (h : k < UInt64.size) : (UInt64.ofNat k).toNat = k :=
  UInt64.toNat_ofNat_of_lt h

/-- The subtraction `n - k` does not wrap when `k ≤ n`. -/
theorem u64_toNat_sub {n : UInt64} {k : Nat} (h : k ≤ n.toNat) :
    (n - UInt64.ofNat k).toNat = n.toNat - k := by
  have hk : (UInt64.ofNat k).toNat = k := u64_toNat_ofNat (by have := n.toNat_lt_size; omega)
  rw [UInt64.toNat_sub_of_le _ _ ((u64_le_iff _ _).mpr (by rw [hk]; exact h)), hk]

/-! ### ASCII text -/

/-- `char::is_whitespace` on a byte of ASCII text. -/
def isWhitespace (c : UInt8) : Bool := c.toNat == 32 || (9 ≤ c.toNat && c.toNat ≤ 13)

/-- `str::trim` on ASCII text: leading and trailing whitespace removed. -/
def trim (s : Bytes) : Bytes :=
  ((s.dropWhile isWhitespace).reverse.dropWhile isWhitespace).reverse

/-- `u8::to_ascii_lowercase`. -/
def asciiLower (c : UInt8) : UInt8 := if 65 ≤ c.toNat ∧ c.toNat ≤ 90 then c + 32 else c

/-- `str::eq_ignore_ascii_case`. -/
def eqIgnoreAsciiCase (a b : Bytes) : Bool := a.map asciiLower == b.map asciiLower

end ActixServerAlt
