import JobClosure.Form.Basic

/-!
# Values from outside

Callers may hand over any value: nothing, a truth value, a number, a text, a list or a record. Only some
values are forms (`Value.form?`), and a value that is refused is shown in the message (`Value.shown`).
-/

namespace JobClosure

open Numeral (Binary64)

/-- A value that a caller hands over. -/
inductive Value
  | nothing
  | truth (value : Bool)
  | whole (value : Int)
  | real (value : Binary64)
  | text (content : String)
  | list (items : List Value)
  | record (fields : List (String × Value))
  deriving Repr, Inhabited

/-- Why a value is not a form. -/
inductive ValueFault
  | truthValue
  | notAForm (shown : String)
  deriving DecidableEq, Repr

namespace Value

/-- The word for the kind of a value. -/
def kindName : Value → String
  | .nothing => "NoneType"
  | .truth _ => "bool"
  | .whole _ => "int"
  | .real _ => "float"
  | .text _ => "str"
  | .list _ => "list"
  | .record _ => "dict"

mutual

def shown : Value → String
  | .nothing => "None"
  | .truth value => if value then "True" else "False"
  | .whole value => toString value
  | .real value => value.text
  | .text content => Text.quoted content
  | .list items => Form.shownItems (shownAll items)
  | .record fields => "\x7b" ++ ", ".intercalate (shownFields fields) ++ "\x7d"

def shownAll : List Value → List String
  | [] => []
  | value :: rest => shown value :: shownAll rest

def shownFields : List (String × Value) → List String
  | [] => []
  | (name, value) :: rest => (Text.quoted name ++ ": " ++ shown value) :: shownFields rest

end

mutual

/-- The form that a value stands for. Nothing stands for the empty list. -/
def form : Value → Except ValueFault Form
  | .nothing => .ok (.list [])
  | .truth _ => .error .truthValue
  | .whole value => .ok (.whole value)
  | .real value => .ok (.real value)
  | .text content => .ok (.text content)
  | .list items => do .ok (.list (← forms items))
  | .record fields => .error (.notAForm (shown (.record fields)))

/-- The forms that the values of a list stand for. The first value that is none is reported. -/
def forms : List Value → Except ValueFault (List Form)
  | [] => .ok []
  | value :: rest => do
    let first ← form value
    .ok (first :: (← forms rest))

end

end Value

end JobClosure
