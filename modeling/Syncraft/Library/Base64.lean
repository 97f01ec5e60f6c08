import Mathlib.Data.List.Basic
import Mathlib.Data.UInt

/-!
# Syncraft.Library.Base64

**Base64 over UTF-16.** `encode` writes the standard alphabet with padding. `decode` reads it
and the URL-safe one, wants the padding, which may be percent-encoded, and refuses bits that
the padding does not account for. What was written is read back (`decode_encode`).
-/

namespace Syncraft.Base64

/-- The character of a 6-bit value. -/
def sextetChar (n : Nat) : UInt16 :=
  if n < 26 then UInt16.ofNat (65 + n)
  else if n < 52 then UInt16.ofNat (71 + n)
  else if n < 62 then UInt16.ofNat (n - 4)
  else if n = 62 then 0x2B
  else 0x2F

/-- The 6-bit value of a character, in either alphabet. -/
def sextet (u : UInt16) : Option Nat :=
  let n := u.toNat
  if 65 ≤ n ∧ n ≤ 90 then some (n - 65)
  else if 97 ≤ n ∧ n ≤ 122 then some (n - 71)
  else if 48 ≤ n ∧ n ≤ 57 then some (n + 4)
  else if n = 0x2B ∨ n = 0x2D then some 62
  else if n = 0x2F ∨ n = 0x5F then some 63
  else none

theorem sextet_sextetChar {n : Nat} (h : n < 64) : sextet (sextetChar n) = some n := by
  have hall : ∀ k : Fin 64, sextet (sextetChar k) = some k.val := by decide
  exact hall ⟨n, h⟩

/-- `base64Encode` -/
def encode : List UInt8 → List UInt16
  | [] => []
  | [a] => [sextetChar (a.toNat / 4), sextetChar (a.toNat % 4 * 16), 0x3D, 0x3D]
  | [a, b] =>
    [sextetChar (a.toNat / 4), sextetChar (a.toNat % 4 * 16 + b.toNat / 16),
      sextetChar (b.toNat % 16 * 4), 0x3D]
  | a :: b :: c :: rest =>
    sextetChar (a.toNat / 4) :: sextetChar (a.toNat % 4 * 16 + b.toNat / 16) ::
      sextetChar (b.toNat % 16 * 4 + c.toNat / 64) :: sextetChar (c.toNat % 64) :: encode rest

/-- How many padding characters there are, where there is nothing else. -/
def padding : List UInt16 → Option Nat
  | [] => some 0
  | u :: rest =>
    if u = 0x3D then (padding rest).map (· + 1)
    else
      match rest with
      | v :: w :: rest =>
        if u = 0x25 ∧ v = 0x33 ∧ (w = 0x44 ∨ w = 0x64) then (padding rest).map (· + 1) else none
      | _ => none

/-- What a padded group stands for. -/
def lastGroup : List UInt16 → Option (List UInt8)
  | u₁ :: u₂ :: rest => do
    let a ← sextet u₁
    let b ← sextet u₂
    if padding rest = some 2 then
      if b % 16 = 0 then some [UInt8.ofNat (a * 4 + b / 16)] else none
    else
      match rest with
      | u₃ :: rest => do
        let c ← sextet u₃
        if padding rest = some 1 ∧ c % 4 = 0 then
          some [UInt8.ofNat (a * 4 + b / 16), UInt8.ofNat (b % 16 * 16 + c / 4)]
        else none
      | [] => none
  | _ => none

/-- `base64Decode` -/
def decode : List UInt16 → Option (List UInt8)
  | [] => some []
  | u₁ :: u₂ :: u₃ :: u₄ :: rest =>
    match sextet u₁, sextet u₂, sextet u₃, sextet u₄ with
    | some a, some b, some c, some d =>
      (decode rest).map fun bytes => UInt8.ofNat (a * 4 + b / 16) ::
        UInt8.ofNat (b % 16 * 16 + c / 4) :: UInt8.ofNat (c % 4 * 64 + d) :: bytes
    | _, _, _, _ => lastGroup (u₁ :: u₂ :: u₃ :: u₄ :: rest)
  | us => lastGroup us

theorem ofNat_eq {n : Nat} {b : UInt8} (h : n = b.toNat) : UInt8.ofNat n = b := by
  rw [h, UInt8.ofNat_toNat]

/-- **What was written is read back.** -/
@[simp] theorem decode_encode (bytes : List UInt8) : decode (encode bytes) = some bytes := by
  have hpad : sextet 0x3D = none := by decide
  induction bytes using encode.induct with
  | case1 => rfl
  | case2 a =>
      have ha := a.toNat_lt
      have hb : a.toNat % 4 * 16 % 16 = 0 := by omega
      have hbyte : a.toNat / 4 * 4 + a.toNat % 4 * 16 / 16 = a.toNat := by omega
      have htwo : padding [0x3D, 0x3D] = some 2 := by decide
      rw [encode, decode, hpad]
      simp only [lastGroup, sextet_sextetChar (show a.toNat / 4 < 64 by omega),
        sextet_sextetChar (show a.toNat % 4 * 16 < 64 by omega), Option.bind_eq_bind,
        Option.bind_some, htwo, if_true, hb, ofNat_eq hbyte]
  | case3 a b =>
      have ha := a.toNat_lt
      have hb := b.toNat_lt
      have hthird := sextet_sextetChar (show b.toNat % 16 * 4 < 64 by omega)
      have hfirst : (a.toNat / 4) * 4 + (a.toNat % 4 * 16 + b.toNat / 16) / 16 = a.toNat := by omega
      have hsecond : (a.toNat % 4 * 16 + b.toNat / 16) % 16 * 16 + b.toNat % 16 * 4 / 4 =
          b.toNat := by omega
      have hone : padding [0x3D] = some 1 := by decide
      -- A character of the alphabet is no padding.
      have hnotwo : padding [sextetChar (b.toNat % 16 * 4), 0x3D] ≠ some 2 := by
        have hne : sextetChar (b.toNat % 16 * 4) ≠ 0x3D := by
          intro heq
          rw [heq, hpad] at hthird
          cases hthird
        rw [padding.eq_def]
        simp [hne]
      rw [encode, decode, hpad]
      simp only [lastGroup, sextet_sextetChar (show a.toNat / 4 < 64 by omega),
        sextet_sextetChar (show a.toNat % 4 * 16 + b.toNat / 16 < 64 by omega), hthird,
        Option.bind_eq_bind, Option.bind_some, if_neg hnotwo, hone, ofNat_eq hfirst,
        ofNat_eq hsecond]
      rw [if_pos ⟨trivial, by omega⟩]
  | case4 a b c rest ih =>
      have ha := a.toNat_lt
      have hb := b.toNat_lt
      have hc := c.toNat_lt
      have hfirst : (a.toNat / 4) * 4 + (a.toNat % 4 * 16 + b.toNat / 16) / 16 = a.toNat := by omega
      have hsecond : (a.toNat % 4 * 16 + b.toNat / 16) % 16 * 16 +
          (b.toNat % 16 * 4 + c.toNat / 64) / 4 = b.toNat := by omega
      have hthird : (b.toNat % 16 * 4 + c.toNat / 64) % 4 * 64 + c.toNat % 64 = c.toNat := by omega
      rw [encode, decode, sextet_sextetChar (by omega), sextet_sextetChar (by omega),
        sextet_sextetChar (by omega), sextet_sextetChar (by omega), ih]
      simp only [Option.map_some, ofNat_eq hfirst, ofNat_eq hsecond, ofNat_eq hthird]

end Syncraft.Base64
