/-! Runs of a structure's members: blocks of neighbouring simple members, and every other member alone. -/

set_option autoImplicit false
set_option relaxedAutoImplicit false

namespace TradeWire

/-- A run: a block of at least one elementary member, or a single other member. -/
inductive Run (α : Type) where
  | block (first : α) (rest : List α)
  | single (member : α)
deriving Repr, DecidableEq

namespace Run

variable {α : Type}

def members : Run α → List α
  | block first rest => first :: rest
  | single member => [member]

def head : Run α → α
  | block first _ => first
  | single member => member

def partition (elementary : α → Bool) : List α → List (Run α)
  | [] => []
  | a :: rest =>
    if elementary a then
      match partition elementary rest with
      | block b more :: runs => block a (b :: more) :: runs
      | runs => block a [] :: runs
    else single a :: partition elementary rest

theorem flatMap_members_partition (elementary : α → Bool) (l : List α) :
    (partition elementary l).flatMap members = l := by
  induction l with
  | nil => rfl
  | cons a rest ih =>
    by_cases simple : elementary a = true
    · simp only [partition, simple, if_true]
      cases runs : partition elementary rest with
      | nil =>
        rw [runs] at ih
        simpa [members] using ih
      | cons run others =>
        rw [runs] at ih
        cases run with
        | block b more => simpa [members] using ih
        | single b => simpa [members] using ih
    · simp [partition, simple, members, ih]

end Run

end TradeWire
