import DotGraph.SyntaxError
import Mathlib.Tactic.Common

/-!
# Runs that trap or never end

Operations that are not defined everywhere: a text is cut inside of a character, a counter falls
below zero, an index points behind a list, a loop goes round for ever. A run tells each of these
from a result and from a source that is refused. `Ends` is the statement that none of them happens.
-/

namespace DotGraph

/-- What an operation is given that it is not defined on. -/
inductive Trap
  /-- An offset inside of a character or behind the text. -/
  | offBoundary
  /-- A counter at zero that is to be lowered. -/
  | belowZero
  /-- An index behind the end of a list. -/
  | outOfRange
deriving DecidableEq

/-- Why a run has no result. -/
inductive Halt
  | refused (error : SyntaxError)
  | trapped (trap : Trap)
deriving DecidableEq

/-- A run that ends with a result or halts; `none` is a run that never ends. -/
abbrev Attempt (α : Type) := ExceptT Halt Option α

/-- A run from every input. -/
abbrev Machine (ι α : Type) := ReaderT ι Attempt α

namespace Attempt

def refuse (e : SyntaxError) : Attempt α := throw (.refused e)

/-- The value of an operation that is not defined everywhere. -/
def checked (trap : Trap) : Option α → Attempt α
  | some a => pure a
  | none => throw (.trapped trap)

/-- The run that ends with a reading or refuses the source, as the reading does. -/
def ofExcept : Except SyntaxError α → Attempt α
  | .ok a => pure a
  | .error e => refuse e

@[simp] lemma refuse_bind (e : SyntaxError) (f : α → Attempt β) : refuse e >>= f = refuse e := rfl

@[simp] lemma checked_some (trap : Trap) (a : α) : checked trap (some a) = pure a := rfl

@[simp] lemma ofExcept_ok (a : α) : ofExcept (.ok a) = pure a := rfl

@[simp] lemma ofExcept_error (e : SyntaxError) : ofExcept (.error e : Except _ α) = refuse e := rfl

lemma ofExcept_eq_pure_iff {read : Except SyntaxError α} {a : α} :
    ofExcept read = pure a ↔ read = .ok a := by
  constructor
  · intro h
    cases read <;> cases h
    rfl
  · rintro rfl
    rfl

lemma ofExcept_eq_refuse_iff {read : Except SyntaxError α} {e : SyntaxError} :
    ofExcept read = refuse e ↔ read = .error e := by
  constructor
  · intro h
    cases read <;> cases h
    rfl
  · rintro rfl
    rfl

/-- The run ends. It refuses the source, or its result has the property. -/
def Ends (run : Attempt α) (P : α → Prop) : Prop :=
  ∃ read, run = ofExcept read ∧ ∀ a, read = .ok a → P a

section Ends

variable {P : α → Prop} {Q : β → Prop} {run : Attempt α}

lemma ends_pure {a : α} (h : P a) : Ends (pure a) P :=
  ⟨.ok a, rfl, by rintro _ ⟨⟩; exact h⟩

lemma ends_refuse (e : SyntaxError) : Ends (refuse e) P :=
  ⟨.error e, rfl, by rintro _ ⟨⟩⟩

lemma Ends.bind {f : α → Attempt β} (h : Ends run P) (hf : ∀ a, P a → Ends (f a) Q) :
    Ends (run >>= f) Q := by
  obtain ⟨read, rfl, hread⟩ := h
  cases read with
  | error e => exact ends_refuse e
  | ok a => exact hf a (hread a rfl)

lemma Ends.mono {P' : α → Prop} (h : Ends run P) (hP : ∀ a, P a → P' a) : Ends run P' := by
  obtain ⟨read, rfl, hread⟩ := h
  exact ⟨read, rfl, fun a ha => hP a (hread a ha)⟩

end Ends

end Attempt

/-- A counter lowered by one. -/
def lower : Nat → Attempt Nat
  | 0 => throw (.trapped .belowZero)
  | n + 1 => pure n

/-- The text between two byte offsets. Each must stand in front of a character or at the end, and
they must be in order. -/
def slice (source : String) (start stop : Nat) : Attempt String :=
  if h : (⟨start⟩ : String.Pos.Raw).IsValid source ∧ (⟨stop⟩ : String.Pos.Raw).IsValid source ∧
      start ≤ stop then
    pure (source.extract ⟨⟨start⟩, h.1⟩ ⟨⟨stop⟩, h.2.1⟩)
  else throw (.trapped .offBoundary)

lemma slice_append (a b c : String) :
    slice (a ++ b ++ c) a.utf8ByteSize (a ++ b).utf8ByteSize = pure b := by
  have hstart : a.rawEndPos.IsValid (a ++ b ++ c) :=
    String.Pos.Raw.isValid_iff_exists_append.2 ⟨a, b ++ c, String.append_assoc .., rfl⟩
  have hstop : (a ++ b).rawEndPos.IsValid (a ++ b ++ c) :=
    String.Pos.Raw.isValid_iff_exists_append.2 ⟨a ++ b, c, rfl, rfl⟩
  have hle : a.utf8ByteSize ≤ (a ++ b).utf8ByteSize := by
    rw [String.utf8ByteSize_append]
    exact Nat.le_add_right _ _
  obtain ⟨horder, hcopy⟩ := String.copy_slice_eq_iff_splits.2
    ⟨a, c, (⟨String.append_assoc .., rfl⟩ : (⟨_, hstart⟩ : (a ++ b ++ c).Pos).Splits a (b ++ c)),
      (⟨rfl, rfl⟩ : (⟨_, hstop⟩ : (a ++ b ++ c).Pos).Splits (a ++ b) c)⟩
  rw [slice, dif_pos ⟨hstart, hstop, hle⟩]
  exact congrArg pure ((String.extract_eq_copy_slice _ _ horder).trans hcopy)

end DotGraph
