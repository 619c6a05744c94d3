import PuppetInventory.Value

/-!
Calls without a receiver, such as `mod 'puppetlabs/stdlib', '9.0.0'`, with the calls that stand
inside them.
-/

namespace PuppetInventory

structure Call where
  name : String
  /-- The positional arguments; pairs without braces form one last hash. -/
  arguments : List Value
  /-- The line of the call, from one. -/
  line : Nat
  /-- The calls inside the arguments or the block, in source order. -/
  children : List Call
deriving Repr, BEq, Inhabited

namespace Call

def render (call : Call) : String :=
  call.name ++ "(" ++ String.intercalate ", " (call.arguments.map Value.render) ++ ")"

mutual

def count : Call → Nat
  | ⟨_, _, _, children⟩ => 1 + countAll children

def countAll : List Call → Nat
  | [] => 0
  | call :: rest => count call + countAll rest

end

mutual

/-- A call and all calls inside it, each before its children. -/
def preorder : Call → List Call
  | ⟨name, arguments, line, children⟩ => ⟨name, arguments, line, children⟩ :: preorderAll children

def preorderAll : List Call → List Call
  | [] => []
  | call :: rest => preorder call ++ preorderAll rest

end

end Call

end PuppetInventory
