import Reckoner.Json.Token

/-!
# Reading JSON texts

The tokens of a text drive a machine that keeps the containers still open, innermost first.  A text
is accepted when its tokens leave exactly one complete value.

At most `depthLimit` containers that are not empty can be open at once; a deeper text is refused.
Repeated names are kept, in order.
-/

namespace Reckoner
namespace Json

/-- The most containers with a member that may be open at once. -/
def depthLimit : Nat := 200

/-- An open container: its complete members in reverse, and for an object the name whose value is
being read. -/
inductive Frame where
  | items (before : List Data)
  | fields (before : List (String × Data)) (key : String)

/-- What has been read, and what may follow. -/
inductive State where
  /-- A value must follow. -/
  | needValue (stack : List Frame)
  /-- An array has been opened. -/
  | firstItem (stack : List Frame)
  /-- An object has been opened. -/
  | firstKey (stack : List Frame)
  /-- A name must follow. -/
  | needKey (before : List (String × Data)) (stack : List Frame)
  /-- A colon must follow. -/
  | needColon (before : List (String × Data)) (key : String) (stack : List Frame)
  /-- A value is complete. -/
  | complete (value : Data) (stack : List Frame)

namespace State

/-- The token with which a value begins. -/
def startValue (stack : List Frame) : Token → Option State
  | .string text => some (.complete (.string text) stack)
  | .literal value => some (.complete value stack)
  | .beginArray => some (.firstItem stack)
  | .beginObject => some (.firstKey stack)
  | _ => none

/-- A token after a complete value. -/
def afterValue (value : Data) : List Frame → Token → Option State
  | .items before :: stack, .comma => some (.needValue (.items (value :: before) :: stack))
  | .items before :: stack, .endArray =>
    some (.complete (.array (value :: before).reverse) stack)
  | .fields before key :: stack, .comma => some (.needKey ((key, value) :: before) stack)
  | .fields before key :: stack, .endObject =>
    some (.complete (.object ((key, value) :: before).reverse) stack)
  | _, _ => none

/-- One more token. -/
def next : State → Token → Option State
  | .needValue stack, token => startValue stack token
  | .firstItem stack, .endArray => some (.complete (.array []) stack)
  | .firstItem stack, token =>
    if stack.length < depthLimit then startValue (.items [] :: stack) token else none
  | .firstKey stack, .endObject => some (.complete (.object []) stack)
  | .firstKey stack, .string key =>
    if stack.length < depthLimit then some (.needColon [] key stack) else none
  | .needKey before stack, .string key => some (.needColon before key stack)
  | .needColon before key stack, .colon => some (.needValue (.fields before key :: stack))
  | .complete value stack, token => afterValue value stack token
  | _, _ => none

/-- The value that has been read, when nothing is open. -/
def result? : State → Option Data
  | .complete value [] => some value
  | _ => none

end State

/-- The data tree that a text denotes. -/
def read? (text : String) : Option Data := do
  let tokens ← tokens? text.toList
  let state ← tokens.foldlM State.next (.needValue [])
  state.result?

end Json
end Reckoner
