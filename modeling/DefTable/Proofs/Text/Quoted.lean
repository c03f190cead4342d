import DefTable.Proofs.Text.Hex
import DefTable.Proofs.Text.Told
import Mathlib.Algebra.Group.Nat.Defs

/-!
# Quoted strings can be told

Between double quotes every character is written by itself or behind a backslash.  There a mark says
how many digits follow, and the marks and digits of different characters differ.  So a quoted string
can be told from whatever follows it.
-/

namespace DefTable
namespace Quoted

/-!
## Escapes
-/

theorem hex_injective
    {width n n' : Nat} (hn : n < 16 ^ width) (hn' : n' < 16 ^ width)
    (h : hex width n = hex width n') : n = n' := by
  induction width generalizing n n' with
  | zero => omega
  | succ width ih =>
      rw [Nat.pow_succ'] at hn hn'
      rcases List.append_inj' h rfl with ⟨hinit, hlast⟩
      have hhigh := ih (Nat.div_lt_of_lt_mul hn) (Nat.div_lt_of_lt_mul hn') hinit
      have hlow := hexDigit_injective (Nat.mod_lt n (by decide)) (Nat.mod_lt n' (by decide))
        (List.cons.inj hlast).1
      omega

def controls : List (Nat × Char) :=
  [(0x07, 'a'), (0x08, 'b'), (0x0C, 'f'), (0x0A, 'n'), (0x0D, 'r'), (0x09, 't'), (0x0B, 'v')]

theorem mem_controls {c e : Char} (h : control? c = some e) : (c.toNat, e) ∈ controls := by
  unfold control? at h
  split at h
  case h_8 => cases h
  all_goals
    rename_i hc
    cases h
    rw [hc]
    decide

def codes : List (Char × Nat) :=
  [('x', 2), ('u', 4), ('U', 8)]

/-- How the character is written behind a backslash: a mark and perhaps digits. -/
inductive Escaped (c : Char) : Char -> List Char -> Prop where
  | self : c = '"' ∨ c = '\\' -> Escaped c c []
  | control {e} : control? c = some e -> Escaped c e []
  | code {mark width digits} :
      (mark, width) ∈ codes -> c.toNat < 16 ^ width -> digits = hex width c.toNat ->
      Escaped c mark digits

theorem char_cases (c : Char) :
    (char '"' c = [c] ∧ c ≠ '"' ∧ c ≠ '\\') ∨
      exists mark digits, char '"' c = '\\' :: mark :: digits ∧ Escaped c mark digits := by
  unfold char
  split
  · rename_i hself
    rw [Bool.or_eq_true, decide_eq_true_eq, decide_eq_true_eq] at hself
    exact Or.inr ⟨c, [], rfl, .self hself⟩
  · rename_i hself
    rw [Bool.or_eq_true, decide_eq_true_eq, decide_eq_true_eq, not_or] at hself
    split
    · exact Or.inl ⟨rfl, hself⟩
    · right
      split
      · rename_i e he
        exact ⟨e, [], rfl, .control he⟩
      · split
        · rename_i hbyte
          exact ⟨'x', _, rfl, .code (by decide) (Nat.lt_trans hbyte (by decide)) rfl⟩
        · split
          · rename_i hshort
            exact ⟨'u', _, rfl, .code (by decide) hshort rfl⟩
          · exact ⟨'U', _, rfl, .code (by decide) c.val.toNat_lt rfl⟩

def digitCount (mark : Char) : Nat :=
  (codes.lookup mark).getD 0

theorem Escaped.length {c mark : Char} {digits : List Char} (h : Escaped c mark digits) :
    digits.length = digitCount mark := by
  have hcontrols : forall p, p ∈ controls -> digitCount p.2 = 0 := by decide
  have hcodes : forall p, p ∈ codes -> digitCount p.1 = p.2 := by decide
  cases h with
  | self hself => rcases hself with rfl | rfl <;> rfl
  | control hcontrol => exact (hcontrols _ (mem_controls hcontrol)).symm
  | code hmark _ hdigits =>
      rw [hdigits, length_hex]
      exact (hcodes _ hmark).symm

theorem Escaped.eq
    {c c' mark : Char} {digits : List Char} (h : Escaped c mark digits)
    (h' : Escaped c' mark digits) : c = c' := by
  have hselves : forall p, p ∈ controls -> ¬ (p.2 = '"' ∨ p.2 = '\\') := by decide
  have hcontrols : forall p, p ∈ controls -> forall q, q ∈ controls -> p.2 = q.2 -> p.1 = q.1 := by
    decide
  have hcodes : forall p, p ∈ codes -> p.2 ≠ 0 := by decide
  have hempty : forall {d : Char} {width : Nat}, (mark, width) ∈ codes ->
      [] ≠ hex width d.toNat := by
    intro d width hmark heq
    have hlength := congrArg List.length heq
    rw [length_hex] at hlength
    exact hcodes _ hmark hlength.symm
  cases h with
  | self hself =>
      cases h' with
      | self _ => rfl
      | control hcontrol => exact absurd hself (hselves _ (mem_controls hcontrol))
      | code hmark _ hdigits => exact absurd hdigits (hempty hmark)
  | control hcontrol =>
      cases h' with
      | self hself => exact absurd hself (hselves _ (mem_controls hcontrol))
      | control hcontrol' =>
          have hsame := hcontrols _ (mem_controls hcontrol) _ (mem_controls hcontrol') rfl
          exact Char.toNat_inj.mp hsame
      | code hmark _ hdigits => exact absurd hdigits (hempty hmark)
  | code hmark hbound hdigits =>
      cases h' with
      | self _ => exact absurd hdigits (hempty hmark)
      | control _ => exact absurd hdigits (hempty hmark)
      | code hmark' hbound' hdigits' =>
          have hwidths := congrArg List.length (hdigits.symm.trans hdigits')
          rw [length_hex, length_hex] at hwidths
          subst hwidths
          exact Char.toNat_inj.mp (hex_injective hbound hbound' (hdigits.symm.trans hdigits'))

/-!
## Quoted strings
-/

theorem allTold_char : AllTold (fun _ => True) (fun _ => True) (char '"') := by
  intro c c' rest rest' _ _ _ _ heq
  rcases char_cases c with ⟨hc, _, hplain⟩ | ⟨mark, digits, hc, hescaped⟩
  · rcases char_cases c' with ⟨hc', _, _⟩ | ⟨mark', digits', hc', _⟩
    · rw [hc, hc'] at heq
      exact List.cons.inj heq
    · rw [hc, hc'] at heq
      exact absurd (List.cons.inj heq).1 hplain
  · rcases char_cases c' with ⟨hc', _, hplain'⟩ | ⟨mark', digits', hc', hescaped'⟩
    · rw [hc, hc'] at heq
      exact absurd (List.cons.inj heq).1.symm hplain'
    · rw [hc, hc'] at heq
      rcases List.cons.inj (List.cons.inj heq).2 with ⟨rfl, hdigits⟩
      have hlength := hescaped.length.trans hescaped'.length.symm
      rcases List.append_inj hdigits hlength with ⟨rfl, hrest⟩
      exact ⟨hescaped.eq hescaped', hrest⟩

theorem not_starts_quote (c : Char) (rest : List Char) : ¬ Starts '"' (char '"' c ++ rest) := by
  intro hstarts
  rcases char_cases c with ⟨hc, hquote, _⟩ | ⟨mark, digits, hc, _⟩
  · rw [hc] at hstarts
    exact hquote (Option.some.inj hstarts)
  · rw [hc] at hstarts
    cases hstarts

theorem allTold_string : AllTold (fun _ => True) (fun _ => True) fun s => (string s).toList := by
  have hbody := allTold_char.flatMap (fun _ _ => trivial) (fun _ _ _ => trivial)
    fun c rest (_ : True) => not_starts_quote c rest
  have htext : forall (s : String) rest, (string s).toList ++ rest =
      '"' :: (s.toList.flatMap (char '"') ++ '"' :: rest) := by
    intro s rest
    rw [string, text, String.toList_ofList, Text.ofString, List.flatMap_map, List.append_assoc]
    rfl
  intro s s' rest rest' _ _ _ _ heq
  dsimp only at heq
  rw [htext, htext] at heq
  rcases hbody s.toList s'.toList _ _ (fun _ _ => trivial) (fun _ _ => trivial)
    (starts_cons '"' rest) (starts_cons '"' rest') (List.cons.inj heq).2 with ⟨hchars, hrest⟩
  exact ⟨String.toList_injective hchars, (List.cons.inj hrest).2⟩

end Quoted
end DefTable
