/-!
The values that arguments have on the page. Nothing is evaluated: what is no literal stays as its
source text.
-/

namespace PuppetInventory

inductive Value where
  | text (content : String)
  | symbol (name : String)
  | absent
  | hash (pairs : List (String × Value))
  | list (items : List Value)
  | source (content : String)
deriving Repr, BEq, Inhabited

namespace Value

mutual

/-- How a value is shown in messages: texts in single quotes, symbols with a colon, hashes with
arrows. -/
def render : Value → String
  | .text content => "'" ++ content ++ "'"
  | .symbol name => ":" ++ name
  | .absent => "nil"
  | .hash pairs => "\x7b" ++ String.intercalate ", " (renderPairs pairs) ++ "\x7d"
  | .list items => "[" ++ String.intercalate ", " (renderItems items) ++ "]"
  | .source content => content

def renderPairs : List (String × Value) → List String
  | [] => []
  | (key, value) :: rest => (":" ++ key ++ " => " ++ render value) :: renderPairs rest

def renderItems : List Value → List String
  | [] => []
  | item :: rest => render item :: renderItems rest

end

theorem renderPairs_eq_map (pairs : List (String × Value)) :
    renderPairs pairs = pairs.map fun pair => ":" ++ pair.1 ++ " => " ++ pair.2.render := by
  induction pairs with
  | nil => rfl
  | cons pair rest ih => simp [renderPairs, ih]

theorem renderItems_eq_map (items : List Value) : renderItems items = items.map render := by
  induction items with
  | nil => rfl
  | cons item rest ih => simp [renderItems, ih]

end Value

end PuppetInventory
