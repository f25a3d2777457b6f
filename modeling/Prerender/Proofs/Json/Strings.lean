import Prerender.Json.Printer
import Prerender.Json.Reader

set_option autoImplicit false

namespace Prerender.Json

open Text (hexValue?)
open Text.Quoted (hexDigit hex4 jsonChar)

theorem hexValue_hexDigit (n : Nat) (low : n < 16) : hexValue? (hexDigit n) = some n := by
  have all : ∀ n < 16, hexValue? (hexDigit n) = some n := by decide
  exact all n low

theorem unit_hex4 (n : Nat) (low : n < 0x10000) :
    unit? (hexDigit (n / 4096 % 16)) (hexDigit (n / 256 % 16)) (hexDigit (n / 16 % 16)) (hexDigit (n % 16)) =
      some n := by
  have digit (k : Nat) : hexValue? (hexDigit (k % 16)) = some (k % 16) :=
    hexValue_hexDigit (k % 16) (Nat.mod_lt k (by decide))
  have sum : ((n / 4096 % 16 * 16 + n / 256 % 16) * 16 + n / 16 % 16) * 16 + n % 16 = n := by omega
  simp only [unit?, digit, Option.bind_eq_bind, Option.bind_some, sum]
  rfl

theorem stringRest_unit (n : Nat) (low : n < 0xD800) (rest : List Char) :
    stringRest ('\\' :: 'u' :: hex4 n ++ rest) = (stringRest rest).map fun (s, r) => (Char.ofNat n :: s, r) := by
  have no_low : isLowHalf n = false := by simp [isLowHalf]; omega
  have no_high : isHighHalf n = false := by simp [isHighHalf]; omega
  simp only [hex4, List.cons_append, List.nil_append]
  rw [stringRest, unit_hex4 n (by omega)]
  simp only [no_low, no_high, Bool.false_eq_true, if_false]

-- The letters of the short escapes are those that the reader knows; no other control character has one.
theorem stringRest_control (c : Char) (control : c.toNat < 0x20) (rest : List Char) :
    stringRest (jsonChar c ++ rest) = (stringRest rest).map fun (s, r) => (c :: s, r) := by
  have named (n : Nat) (is : c.toNat = n) : c = Char.ofNat n := by rw [← is, Char.ofNat_toNat]
  have quote : c ≠ '"' := fun is => absurd control (by rw [is]; decide)
  have slash : c ≠ '\\' := fun is => absurd control (by rw [is]; decide)
  rw [jsonChar, if_neg quote, if_neg slash, if_pos control]
  split
  next is => rw [named 8 is]; rfl
  next =>
  split
  next is => rw [named 9 is]; rfl
  next =>
  split
  next is => rw [named 10 is]; rfl
  next =>
  split
  next is => rw [named 12 is]; rfl
  next =>
  split
  next is => rw [named 13 is]; rfl
  next =>
    have escaped := stringRest_unit c.toNat (by omega) rest
    rw [Char.ofNat_toNat] at escaped
    exact escaped

theorem stringRest_plain {c : Char} (quote : c ≠ '"') (slash : c ≠ '\\') (control : ¬ c.toNat < 0x20)
    (rest : List Char) : stringRest (c :: rest) = (stringRest rest).map fun (s, r) => (c :: s, r) := by
  rw [stringRest.eq_def]
  split
  next text => cases text
  next text => exact absurd (List.cons.inj text).1 quote
  next text => exact absurd (List.cons.inj text).1 slash
  next text => exact absurd (List.cons.inj text).1 slash
  next text =>
    obtain ⟨rfl, rfl⟩ := List.cons.inj text
    rw [if_neg fun bad => bad.elim slash control]

theorem stringRest_jsonChar (c : Char) (rest : List Char) :
    stringRest (jsonChar c ++ rest) = (stringRest rest).map fun (s, r) => (c :: s, r) := by
  by_cases control : c.toNat < 0x20
  · exact stringRest_control c control rest
  · unfold jsonChar
    by_cases quote : c = '"'
    · rw [if_pos quote, quote]
      rfl
    · by_cases slash : c = '\\'
      · rw [if_neg quote, if_pos slash, slash]
        rfl
      · rw [if_neg quote, if_neg slash, if_neg control]
        exact stringRest_plain quote slash control rest

theorem stringRest_escaped (cs rest : List Char) :
    stringRest (cs.flatMap jsonChar ++ '"' :: rest) = some (cs, rest) := by
  induction cs with
  | nil => rfl
  | cons c cs ih =>
      rw [List.flatMap_cons, List.append_assoc, stringRest_jsonChar, ih]
      rfl

end Prerender.Json
