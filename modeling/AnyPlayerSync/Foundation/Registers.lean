import Mathlib.Data.List.Induction
import Mathlib.Tactic.Common

/-!
# Last-writer-wins registers with one counter

A bank of registers with a common version. A write covers some of the registers, gives each of them
a value and raises the version by one. After any sequence of writes the version has grown by their
number (`version_writeAll`) and a register holds the value of the last write that covers it
(`value_writeAll`).
-/

set_option autoImplicit false

namespace AnyPlayerSync.Foundation

universe u v

/-- The registers `κ` with values `β` and their version. -/
structure Registers (κ : Type u) (β : Type v) where
  version : Nat
  value : κ → β

namespace Registers

variable {κ : Type u} {β : Type v}

/-- A write: the registers it covers with their new values. -/
def write (r : Registers κ β) (covers : κ → Option β) : Registers κ β where
  version := r.version + 1
  value k := (covers k).getD (r.value k)

@[simp] theorem version_write (r : Registers κ β) (covers : κ → Option β) :
    (r.write covers).version = r.version + 1 := rfl

@[simp] theorem value_write (r : Registers κ β) (covers : κ → Option β) (k : κ) :
    (r.write covers).value k = (covers k).getD (r.value k) := rfl

/-- A sequence of writes, oldest first. -/
def writeAll (r : Registers κ β) (ws : List (κ → Option β)) : Registers κ β := ws.foldl write r

theorem writeAll_append (r : Registers κ β) (ws vs : List (κ → Option β)) :
    r.writeAll (ws ++ vs) = (r.writeAll ws).writeAll vs := List.foldl_append

theorem writeAll_concat (r : Registers κ β) (ws : List (κ → Option β)) (w : κ → Option β) :
    r.writeAll (ws ++ [w]) = (r.writeAll ws).write w := by
  rw [writeAll_append]; rfl

/-- The version counts the writes. -/
theorem version_writeAll (r : Registers κ β) (ws : List (κ → Option β)) :
    (r.writeAll ws).version = r.version + ws.length := by
  induction ws using List.reverseRecOn with
  | nil => rfl
  | append_singleton ws w ih =>
      rw [writeAll_concat, version_write, ih, List.length_append, List.length_singleton,
        Nat.add_assoc]

/-- A register holds the value of the last write that covers it. -/
theorem value_writeAll (r : Registers κ β) (ws : List (κ → Option β)) (k : κ) :
    (r.writeAll ws).value k = ((ws.filterMap fun w => w k).getLast?).getD (r.value k) := by
  induction ws using List.reverseRecOn with
  | nil => rfl
  | append_singleton ws w ih =>
      rw [writeAll_concat, value_write, ih, List.filterMap_append]
      cases hw : w k with
      | none => simp [hw]
      | some x => simp [hw]

end Registers

end AnyPlayerSync.Foundation
