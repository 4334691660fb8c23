import ArithTree.Expr
import Mathlib.Data.List.Nodup

/-!
# Places of nodes

Equal expressions can stand in one expression more than once. So a node is told from the others by
its place, the way that leads to it from the root. An expression has as many places as nodes, each
of them once, and the list of places gives the nodes in their order.
-/

set_option autoImplicit false

namespace ArithTree

inductive Side
  | left | right
  deriving DecidableEq

abbrev Place := List Side

namespace Expr

def at? : Expr → Place → Option Expr
  | e, [] => some e
  | .const _, _ :: _ => none
  | .var _, _ :: _ => none
  | .binary _ left _, .left :: place => left.at? place
  | .binary _ _ right, .right :: place => right.at? place

/-- All places, those in the operands of a node before its own and the left ones first. -/
def places : Expr → List Place
  | .const _ => [[]]
  | .var _ => [[]]
  | .binary _ left right =>
      left.places.map (Side.left :: ·) ++ right.places.map (Side.right :: ·) ++ [[]]

@[simp]
theorem at?_nil (e : Expr) : e.at? [] = some e := by
  cases e <;> rfl

theorem map_at?_places (e : Expr) : e.places.map e.at? = e.nodes.map some := by
  induction e with
  | const value => rfl
  | var name => rfl
  | binary op left right ihl ihr =>
    have hleft : (binary op left right).at? ∘ (Side.left :: ·) = left.at? := rfl
    have hright : (binary op left right).at? ∘ (Side.right :: ·) = right.at? := rfl
    simp only [places, nodes, List.map_append, List.map_map, hleft, hright, ihl, ihr]
    rfl

@[simp]
theorem length_places (e : Expr) : e.places.length = e.size := by
  induction e with
  | const value => rfl
  | var name => rfl
  | binary op left right ihl ihr =>
    simp only [places, List.length_append, List.length_map, List.length_singleton, ihl, ihr, size]
    omega

theorem nodup_places (e : Expr) : e.places.Nodup := by
  induction e with
  | const value => simp [places]
  | var name => simp [places]
  | binary op left right ihl ihr =>
    have hcons : ∀ side : Side, Function.Injective (side :: · : Place → Place) :=
      fun _ => List.cons_injective
    rw [places, List.nodup_append, List.nodup_append]
    refine ⟨⟨ihl.map (hcons .left), ihr.map (hcons .right), ?_⟩, List.nodup_singleton _, ?_⟩
    · simp
    · rintro place hplace own hown rfl
      rw [List.mem_singleton] at hown
      simp [hown] at hplace

theorem mem_places {e node : Expr} {place : Place} (h : e.at? place = some node) :
    place ∈ e.places := by
  induction e generalizing place with
  | const value =>
    cases place with
    | nil => exact List.mem_singleton_self []
    | cons side place => cases h
  | var name =>
    cases place with
    | nil => exact List.mem_singleton_self []
    | cons side place => cases h
  | binary op left right ihl ihr =>
    cases place with
    | nil => simp [places]
    | cons side place =>
      cases side with
      | left => simpa [places] using ihl h
      | right => simpa [places] using ihr h

theorem mem_nodes_of_at? {e node : Expr} {place : Place} (h : e.at? place = some node) :
    node ∈ e.nodes := by
  have hmem : e.at? place ∈ e.places.map e.at? := List.mem_map_of_mem (mem_places h)
  rw [h, map_at?_places] at hmem
  simpa using hmem

end Expr
end ArithTree
