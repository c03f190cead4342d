import DefTable.Text.Quoted
import DefTable.Token.Numeral

/-!
# Hexadecimal digits

A number is written in a fixed count of hexadecimal digits, each of which stands for its own value.
So bytes can be told from their digits.
-/

namespace DefTable
namespace Quoted

theorem digitValue_hexDigit : forall d, d < 16 -> Numeral.digitValue? (hexDigit d) = some d := by
  decide

theorem hexDigit_injective
    {n m : Nat} (hn : n < 16) (hm : m < 16) (h : hexDigit n = hexDigit m) : n = m := by
  have hvalues := congrArg Numeral.digitValue? h
  rw [digitValue_hexDigit n hn, digitValue_hexDigit m hm] at hvalues
  exact Option.some.inj hvalues

theorem length_hex (width n : Nat) : (hex width n).length = width := by
  induction width generalizing n with
  | zero => rfl
  | succ width ih => rw [hex, List.length_append, ih, List.length_singleton]

theorem mem_hex {c : Char} {width n : Nat} (h : c ∈ hex width n) :
    exists d, d < 16 ∧ c = hexDigit d := by
  induction width generalizing n with
  | zero => exact absurd h List.not_mem_nil
  | succ width ih =>
      rw [hex, List.mem_append, List.mem_singleton] at h
      rcases h with hinit | hlast
      · exact ih hinit
      · exact ⟨n % 16, Nat.mod_lt _ (by decide), hlast⟩

theorem hex_byte_injective
    {b b' : UInt8} (h : hex 2 b.toNat = hex 2 b'.toNat) : b = b' := by
  have hb := b.toNat_lt
  have hb' := b'.toNat_lt
  simp only [hex, List.nil_append, List.cons_append, List.cons.injEq, and_true] at h
  have hhigh := hexDigit_injective (Nat.mod_lt _ (by decide)) (Nat.mod_lt _ (by decide)) h.1
  have hlow := hexDigit_injective (Nat.mod_lt _ (by decide)) (Nat.mod_lt _ (by decide)) h.2
  apply UInt8.toNat_inj.mp
  omega

theorem flatMap_hex_injective
    {bs bs' : List UInt8}
    (h : (bs.flatMap fun b => hex 2 b.toNat) = bs'.flatMap fun b => hex 2 b.toNat) :
    bs = bs' := by
  induction bs generalizing bs' with
  | nil =>
      cases bs' with
      | nil => rfl
      | cons b' bs' =>
          have hlength := congrArg List.length h
          rw [List.flatMap_cons, List.length_append, length_hex, List.flatMap_nil,
            List.length_nil] at hlength
          omega
  | cons b bs ih =>
      cases bs' with
      | nil =>
          have hlength := congrArg List.length h
          rw [List.flatMap_cons, List.length_append, length_hex, List.flatMap_nil,
            List.length_nil] at hlength
          omega
      | cons b' bs' =>
          rw [List.flatMap_cons, List.flatMap_cons] at h
          have hlength : (hex 2 b.toNat).length = (hex 2 b'.toNat).length := by
            rw [length_hex, length_hex]
          rcases List.append_inj h hlength with ⟨hfirst, hrest⟩
          rw [hex_byte_injective hfirst, ih hrest]

end Quoted
end DefTable
