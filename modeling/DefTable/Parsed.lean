/-!
# Readers

A reader takes a value from the front of a list and returns what is left, with a proof that it is
less than before.  A loop that reads one piece after another then ends because the list gets
shorter.
-/

namespace DefTable

/-- A value read from the front of `ts`. -/
structure Parsed {τ : Type} (α : Type) (ts : List τ) where
  value : α
  rest : List τ
  shorter : rest.length < ts.length

namespace Parsed

variable {τ α β : Type}

def widen {part whole : List τ} (h : part.length ≤ whole.length) (p : Parsed α part) :
    Parsed α whole :=
  ⟨p.value, p.rest, Nat.lt_of_lt_of_le p.shorter h⟩

def lift {ts : List τ} (t : τ) (p : Parsed α ts) : Parsed α (t :: ts) :=
  p.widen (by simp)

def map {ts : List τ} (f : α → β) (p : Parsed α ts) : Parsed β ts :=
  ⟨f p.value, p.rest, p.shorter⟩

/-- A value that takes the first element and `more` further ones. -/
def taking (v : α) (t : τ) (more : Nat) (ts : List τ) : Parsed α (t :: ts) :=
  ⟨v, ts.drop more, by simp only [List.length_drop, List.length_cons]; omega⟩

end Parsed
end DefTable
