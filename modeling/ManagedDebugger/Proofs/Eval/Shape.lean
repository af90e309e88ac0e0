import ManagedDebugger.Eval.Interpreter

/-!
# What instructions need of the stack

An instruction takes some entries off the stack; a member access takes a name off the top, and an
invocation takes a target that ends in the name of a method, unless a conditional access has met
null before. A stack with all that fits the instruction. Besides, every entry there ever is has
something to bind.
-/

namespace ManagedDebugger

/-- How many entries an operation takes off the stack. -/
def Operation.takes : Operation → Nat
  | name .. | this | predefined _ | literal _ | sizeOf _ => 0
  | conditionalAccess | unary _ => 1
  | memberAccess | binary _ => 2
  | elementAccess count | invocation count => count + 1
  | interpolate pieces => EvalScope.holeCount pieces

structure Operation.Fits (op : Operation) (stack : Stack) : Prop where
  enough : op.takes ≤ stack.length
  named : op = .memberAccess → ∃ name, stack.head? = some (.ofName name)
  called : ∀ count, op = .invocation count → ∃ target, stack[count]? = some target ∧
    (target.skipped = true ∨ ∃ method, target.chain.getLast? = some method)

theorem Operation.Fits.not_short {op : Operation} {stack : Stack} (fits : op.Fits stack)
    (short : stack.length < op.takes) : False :=
  Nat.not_lt.mpr fits.enough short

namespace StackEntry

/-- There is null, something bound, or a name. -/
def Bindable (e : StackEntry) : Prop := e.skipped = true ∨ e.base.isSome = true ∨ e.chain ≠ []

theorem bindable_ofValue (v : EvalValue) (editable : Bool) : (ofValue v editable).Bindable :=
  .inr (.inl rfl)

theorem bindable_ofName (name : Segment) : (ofName name).Bindable := .inr (.inr nofun)

end StackEntry

namespace Stack

/-- Every entry has something to bind. -/
def Bindable (stack : Stack) : Prop := ∀ e ∈ stack, e.Bindable

theorem bindable_nil : Bindable [] := List.forall_mem_nil _

theorem bindable_cons_iff {e : StackEntry} {stack : Stack} :
    Bindable (e :: stack) ↔ e.Bindable ∧ stack.Bindable :=
  List.forall_mem_cons

theorem Bindable.push {e : StackEntry} {stack : Stack} (below : stack.Bindable)
    (bindable : e.Bindable) : Bindable (e :: stack) :=
  bindable_cons_iff.mpr ⟨bindable, below⟩

theorem bindable_append_iff {xs stack : Stack} :
    Bindable (xs ++ stack) ↔ xs.Bindable ∧ stack.Bindable :=
  List.forall_mem_append

theorem popMany_reverse_append (xs : List StackEntry) (stack : Stack) :
    popMany xs.length (xs.reverse ++ stack) = pure (xs, stack) := by
  have enough : ¬ (xs.reverse ++ stack).length < xs.length := by simp
  rw [popMany, if_neg enough, List.take_left' (by simp), List.drop_left' (by simp),
    List.reverse_reverse]

/-- Either there are too few entries, or the topmost ones come off. -/
theorem popMany_cases (n : Nat) (stack : Stack) :
    (stack.length < n ∧ stack.popMany n = throw .stackUnderflow) ∨
    ∃ xs rest, xs.length = n ∧ stack = xs.reverse ++ rest ∧ stack.popMany n = pure (xs, rest) := by
  by_cases few : stack.length < n
  · exact .inl ⟨few, if_pos few⟩
  · refine .inr ⟨(stack.take n).reverse, stack.drop n, ?_, ?_, if_neg few⟩
    · rw [List.length_reverse, List.length_take]
      omega
    · rw [List.reverse_reverse, List.take_append_drop]

end Stack

end ManagedDebugger
