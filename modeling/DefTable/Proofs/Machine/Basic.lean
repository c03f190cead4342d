/-!
# Runs that may crash or go on forever

The definitions of the compiler are total functions on texts, chains and trees.  The machines here
do the same work step by step: they move positions in arrays, loop until something is found, and
stop dead where an operation makes no sense.  Nothing in the definition of a machine says that its
loops end or that its positions stay inside of their arrays; this is what is proved, together with
the result, by comparing each machine with the function it computes.

A machine that goes round in a loop names the calls it makes again in front of its body.
-/

namespace DefTable
namespace Machine

/-- Why a machine stops dead. -/
inductive Crash where
  | sliceOutOfRange
  | missingOperand
  | notReduced
  | reducedToOperator
  | unexpectedExpression
  | unknownScopeKind
  | unknownDefinition
deriving DecidableEq, Repr

/-- What a run comes to: nothing if it goes on forever, else a crash or a result. -/
abbrev Run := ExceptT Crash Option

abbrev Action (σ : Type) := StateT σ Run

variable {σ α β : Type}

/-- Started in `s` the machine ends in `s'` with the result `a`: it neither crashes nor goes on
forever. -/
def Returns (m : Action σ α) (s : σ) (a : α) (s' : σ) : Prop :=
  m.run s = pure (a, s')

namespace Returns

variable {m : Action σ α} {f : α -> Action σ β} {s s₁ s₂ : σ} {a : α} {b : β}

theorem pure (a : α) (s : σ) : Returns (pure a) s a s :=
  rfl

theorem get (s : σ) : Returns get s s s :=
  rfl

theorem set (s s' : σ) : Returns (set s') s () s' :=
  rfl

theorem modify (f : σ -> σ) (s : σ) : Returns (modify f) s () (f s) :=
  rfl

theorem bind (hm : Returns m s a s₁) (hf : Returns (f a) s₁ b s₂) :
    Returns (m >>= f) s b s₂ := by
  unfold Returns at hm hf ⊢
  rw [StateT.run_bind, hm, pure_bind, hf]

theorem lift {r : Run α} (hr : r = Pure.pure a) (s : σ) :
    Returns (liftM r : Action σ α) s a s := by
  rw [hr]
  rfl

theorem pos {c : Prop} [Decidable c] {m' : Action σ α} (hc : c) (hm : Returns m s a s₁) :
    Returns (if c then m else m') s a s₁ := by
  rwa [if_pos hc]

theorem neg {c : Prop} [Decidable c] {m' : Action σ α} (hc : ¬ c) (hm : Returns m s a s₁) :
    Returns (if c then m' else m) s a s₁ := by
  rwa [if_neg hc]

end Returns
end Machine
end DefTable
