import GatewayGrpc.Library.Run
import Mathlib.Data.List.Nodup

/-!
# Linearizable calls

The calls of an object are numbered as they begin. An order of effect is a list that only grows: a
call enters it at some moment between its begin and its return, with the reply that a sequential
object gives at this place of the list.
-/

namespace GatewayGrpc.Library

structure Taken (Op Reply : Type*) where
  call : Nat
  op : Op
  reply : Reply
  deriving DecidableEq

section Order
variable {Spec Op Reply : Type*} (respond : Spec → Op → Reply × Spec)

def settle (init : Spec) (order : List (Taken Op Reply)) : Spec :=
  after respond init (order.map Taken.op)

def Legal (init : Spec) (order : List (Taken Op Reply)) : Prop :=
  replies respond init (order.map Taken.op) = order.map Taken.reply

/-- `calls` are the operations of the calls that have begun, with the replies of those that have
returned. -/
structure Linearized (init : Spec) (calls : List (Op × Option Reply))
    (order : List (Taken Op Reply)) : Prop where
  legal : Legal respond init order
  once : (order.map Taken.call).Nodup
  begun : ∀ e ∈ order, ∃ reply, calls[e.call]? = some (e.op, reply)
  returned : ∀ i op reply, calls[i]? = some (op, some reply) → ⟨i, op, reply⟩ ∈ order

def Precedes (order : List (Taken Op Reply)) (i j : Nat) : Prop :=
  [i, j].Sublist (order.map Taken.call)

variable {respond}

theorem replies_append (init : Spec) (before ops : List Op) :
    replies respond init (before ++ ops) =
      replies respond init before ++ replies respond (after respond init before) ops := by
  induction before generalizing init with
  | nil => rfl
  | cons op before ih => simp only [List.cons_append, replies, ih, after, List.foldl_cons]

theorem settle_append (init : Spec) (order : List (Taken Op Reply)) (e : Taken Op Reply) :
    settle respond init (order ++ [e]) = (respond (settle respond init order) e.op).2 := by
  simp [settle, after]

theorem Legal.append {init : Spec} {order : List (Taken Op Reply)} {e : Taken Op Reply}
    (legal : Legal respond init order)
    (reply : (respond (settle respond init order) e.op).1 = e.reply) :
    Legal respond init (order ++ [e]) := by
  rw [Legal, List.map_append, replies_append, List.map_append, legal]
  exact congrArg (_ ++ [·]) reply

theorem Linearized.precedes {init : Spec} {calls : List (Op × Option Reply)}
    {order later : List (Taken Op Reply)} (linearized : Linearized respond init calls order)
    (grown : order <+: later) {i j : Nat} {op : Op} {reply : Reply}
    (returned : calls[i]? = some (op, some reply)) (notBegun : calls.length ≤ j)
    (tookEffect : j ∈ later.map Taken.call) : Precedes later i j := by
  obtain ⟨rest, rfl⟩ := grown
  have first : [i].Sublist (order.map Taken.call) := by
    rw [List.singleton_sublist]
    exact List.mem_map_of_mem (f := Taken.call) (linearized.returned i op reply returned)
  have second : [j].Sublist (rest.map Taken.call) := by
    rw [List.singleton_sublist]
    rw [List.map_append, List.mem_append] at tookEffect
    refine tookEffect.resolve_left fun early => ?_
    obtain ⟨e, member, rfl⟩ := List.mem_map.mp early
    obtain ⟨_, here⟩ := linearized.begun e member
    rw [List.getElem?_eq_none notBegun] at here
    cases here
  rw [Precedes, List.map_append]
  exact first.append second

end Order

end GatewayGrpc.Library
