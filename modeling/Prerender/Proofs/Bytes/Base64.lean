import Prerender.Bytes.Base64
import Prerender.Proofs.Text.Search
import Prerender.Text.Blank

set_option autoImplicit false

namespace Prerender.Bytes.Base64

def octet (c : Char) : UInt8 := c.val.toUInt8

def Bare (c : Char) : Prop := c.toNat < 128 ∧ Text.isBlank c = false

theorem value_symbol (n : Nat) (low : n < 64) : value? (octet (symbol n)) = some n := by
  have all : ∀ n < 64, value? (octet (symbol n)) = some n := by decide
  exact all n low

theorem symbol_ne_pad (n : Nat) (low : n < 64) : octet (symbol n) ≠ pad := by
  have all : ∀ n < 64, octet (symbol n) ≠ pad := by decide
  exact all n low

theorem bare_symbol (n : Nat) (low : n < 64) : Bare (symbol n) := by
  have all : ∀ n < 64, (symbol n).toNat < 128 ∧ Text.isBlank (symbol n) = false := by decide
  exact all n low

theorem sextet_symbol (n offset : Nat) (low : n < 64) : sextet (octet (symbol n)) offset = .ok n := by
  rw [sextet, value_symbol n low]

theorem byte_toNat (a : UInt8) (n : Nat) (is : n = a.toNat) : byte n = a := by
  rw [byte, is, UInt8.ofNat_toNat]

theorem bare_pad : Bare '=' := by
  unfold Bare
  decide

theorem bare_encode (bs : List UInt8) : ∀ c ∈ encode bs, Bare c := by
  induction bs using encode.induct with
  | case1 => simp [encode]
  | case2 a =>
      have := a.toNat_lt
      simp only [encode, List.forall_mem_cons]
      exact ⟨bare_symbol _ (by omega), bare_symbol _ (by omega), bare_pad, bare_pad, nofun⟩
  | case3 a b =>
      have := a.toNat_lt
      have := b.toNat_lt
      simp only [encode, List.forall_mem_cons]
      exact ⟨bare_symbol _ (by omega), bare_symbol _ (by omega), bare_symbol _ (by omega), bare_pad, nofun⟩
  | case4 a b c rest ih =>
      have := a.toNat_lt
      have := b.toNat_lt
      have := c.toNat_lt
      simp only [encode, List.forall_mem_cons]
      exact ⟨bare_symbol _ (by omega), bare_symbol _ (by omega), bare_symbol _ (by omega), bare_symbol _ (by omega), ih⟩

theorem length_encode (bs : List UInt8) : (encode bs).length % 4 = 0 := by
  induction bs using encode.induct with
  | case1 => simp [encode]
  | case2 a => simp [encode]
  | case3 a b => simp [encode]
  | case4 a b c rest ih =>
      simp only [encode, List.length_cons]
      omega

theorem encode_cons (a : UInt8) (bs : List UInt8) : ∃ c cs, encode (a :: bs) = c :: cs := by
  cases bs with
  | nil => exact ⟨_, _, encode.eq_2 a⟩
  | cons b bs =>
      cases bs with
      | nil => exact ⟨_, _, encode.eq_3 a b⟩
      | cons c bs => exact ⟨_, _, encode.eq_4 a b c bs⟩

section Last

variable (start : Nat) {w x y z : Nat}

theorem group_symbol (i n : Nat) (low : n < 64) (rest : List UInt8) :
    group start i none (octet (symbol n) :: rest) =
      (group start (i + 1) none rest).map ((octet (symbol n), n) :: ·) := by
  rw [group, if_neg (symbol_ne_pad n low)]
  simp only [sextet_symbol n _ low]
  cases group start (i + 1) none rest <;> rfl

theorem decodeLast_two (w_low : w < 64) (x_low : x < 64) (clean : x % 16 = 0) :
    decodeLast start [octet (symbol w), octet (symbol x), pad, pad] = .ok [byte (w * 4 + x / 16)] := by
  have pads : group start 2 none [pad, pad] = .ok [] := rfl
  simp only [decodeLast, group_symbol start 0 w w_low, group_symbol start 1 x x_low, pads]
  simp [Except.map, bind, Except.bind, pure, Except.pure, clean]

theorem decodeLast_three (w_low : w < 64) (x_low : x < 64) (y_low : y < 64) (clean : y % 4 = 0) :
    decodeLast start [octet (symbol w), octet (symbol x), octet (symbol y), pad] =
      .ok [byte (w * 4 + x / 16), byte (x % 16 * 16 + y / 4)] := by
  have pads : group start 3 none [pad] = .ok [] := rfl
  simp only [decodeLast, group_symbol start 0 w w_low, group_symbol start 1 x x_low, group_symbol start 2 y y_low, pads]
  simp [Except.map, bind, Except.bind, pure, Except.pure, clean]

theorem decodeLast_four (w_low : w < 64) (x_low : x < 64) (y_low : y < 64) (z_low : z < 64) :
    decodeLast start [octet (symbol w), octet (symbol x), octet (symbol y), octet (symbol z)] =
      .ok [byte (w * 4 + x / 16), byte (x % 16 * 16 + y / 4), byte (y % 4 * 64 + z)] := by
  have stop : group start 4 none [] = .ok [] := rfl
  simp only [decodeLast, group_symbol start 0 w w_low, group_symbol start 1 x x_low, group_symbol start 2 y y_low,
    group_symbol start 3 z z_low, stop]
  simp [Except.map, bind, Except.bind, pure, Except.pure]

theorem decodeFrom_four (w_low : w < 64) (x_low : x < 64) (y_low : y < 64) (z_low : z < 64) (e : UInt8)
    (rest : List UInt8) :
    decodeFrom start (octet (symbol w) :: octet (symbol x) :: octet (symbol y) :: octet (symbol z) :: e :: rest) =
      (decodeFrom (start + 4) (e :: rest)).map fun bytes =>
        byte (w * 4 + x / 16) :: byte (x % 16 * 16 + y / 4) :: byte (y % 4 * 64 + z) :: bytes := by
  simp only [decodeFrom, sextet_symbol w _ w_low, sextet_symbol x _ x_low, sextet_symbol y _ y_low,
    sextet_symbol z _ z_low]
  cases decodeFrom (start + 4) (e :: rest) <;> rfl

end Last

theorem bytes_of_symbols (a b c : UInt8) :
    byte (a.toNat / 4 * 4 + (a.toNat % 4 * 16 + b.toNat / 16) / 16) = a ∧
    byte ((a.toNat % 4 * 16 + b.toNat / 16) % 16 * 16 + (b.toNat % 16 * 4 + c.toNat / 64) / 4) = b ∧
    byte ((b.toNat % 16 * 4 + c.toNat / 64) % 4 * 64 + c.toNat % 64) = c := by
  have := b.toNat_lt
  have := c.toNat_lt
  exact ⟨byte_toNat a _ (by omega), byte_toNat b _ (by omega), byte_toNat c _ (by omega)⟩

-- The last three bytes are decoded by another branch than those before them, so the rest is split as well.
theorem decodeFrom_encode (start : Nat) (bs : List UInt8) (some_byte : bs ≠ []) :
    decodeFrom start ((encode bs).map octet) = .ok bs := by
  induction bs using encode.induct generalizing start with
  | case1 => exact absurd rfl some_byte
  | case2 a =>
      have := a.toNat_lt
      have last := decodeLast_two start (w := a.toNat / 4) (x := a.toNat % 4 * 16) (by omega) (by omega) (by omega)
      rw [byte_toNat a _ (by omega)] at last
      rw [encode]
      exact last
  | case3 a b =>
      have := a.toNat_lt
      have := b.toNat_lt
      have last := decodeLast_three start (w := a.toNat / 4) (x := a.toNat % 4 * 16 + b.toNat / 16)
        (y := b.toNat % 16 * 4) (by omega) (by omega) (by omega) (by omega)
      rw [byte_toNat a _ (by omega), byte_toNat b _ (by omega)] at last
      rw [encode]
      exact last
  | case4 a b c rest ih =>
      have a_low := a.toNat_lt
      have b_low := b.toNat_lt
      have c_low := c.toNat_lt
      obtain ⟨first, second, third⟩ := bytes_of_symbols a b c
      rw [encode]
      simp only [List.map_cons]
      cases rest with
      | nil =>
          rw [encode, List.map_nil]
          refine (decodeLast_four start (by omega) (by omega) (by omega) (by omega)).trans ?_
          rw [first, second, third]
      | cons d rest =>
          have others := ih (start + 4) (List.cons_ne_nil d rest)
          obtain ⟨e, es, is⟩ := encode_cons d rest
          rw [is, List.map_cons] at others ⊢
          rw [decodeFrom_four start (by omega) (by omega) (by omega) (by omega), others, first, second, third]
          rfl

theorem decode_octets (bs : List UInt8) : decode ((encode bs).map octet) = .ok bs := by
  have whole := length_encode bs
  cases bs with
  | nil => rfl
  | cons a bs =>
      rw [decode]
      split
      next last is =>
        rw [if_neg fun bad => absurd bad.1 (by rw [List.length_map, whole]; decide)]
        exact decodeFrom_encode 0 (a :: bs) (List.cons_ne_nil a bs)
      next none =>
        obtain ⟨c, cs, is⟩ := encode_cons a bs
        simp [is] at none

theorem trim_bare {cs : List Char} (bare : ∀ c ∈ cs, Bare c) : Text.trim cs = cs :=
  Text.trim_solid fun c here => (bare c here).2

theorem utf8_bare {cs : List Char} (bare : ∀ c ∈ cs, Bare c) :
    (String.ofList cs).toUTF8.data.toList = cs.map octet := by
  rw [String.toUTF8_eq_toByteArray, String.toByteArray_ofList]
  induction cs with
  | nil => rfl
  | cons c cs ih =>
      have single : c.utf8Size = 1 := by
        rw [Char.utf8Size_eq_one_iff, UInt32.le_iff_toNat_le]
        exact Nat.le_of_lt_succ (bare c List.mem_cons_self).1
      have others := ih fun d here => bare d (List.mem_cons_of_mem c here)
      rw [List.utf8Encode_cons, List.utf8Encode_singleton, String.utf8EncodeChar_eq_singleton single]
      simp [others, octet]

end Prerender.Bytes.Base64
