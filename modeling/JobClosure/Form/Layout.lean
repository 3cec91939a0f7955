import JobClosure.Form.Basic

/-!
# The layout of a form

A form is written on one line if it fits and holds no line break. Otherwise a list keeps its head and its
first operand on the opening line and every other operand gets a line of its own, one step further in. The
same form is always written the same way. A quoted form is written as a list of one item, and a list in
square brackets as a list that holds one list.
-/

namespace JobClosure.Form

/-- How lists are broken into lines: what one step of indentation is and how long a line may be. -/
structure PageStyle where
  step : List Char
  limit : Int
  deriving Repr

/-- Documents are indented by two spaces and have lines of up to a hundred characters. -/
def documentStyle : PageStyle := ⟨[' ', ' '], 100⟩

/-- The indentation of a line that is `depth` steps in; none if it is further out than the margin. -/
def PageStyle.indentation (style : PageStyle) (depth : Int) : List Char :=
  (List.replicate depth.toNat style.step).flatten

/-- A quoted text: quotes and backslashes inside are escaped, everything else stays. -/
def quotedText (content : String) : List Char :=
  '"' :: content.toList.flatMap (fun c => if c == '\\' || c == '"' then ['\\', c] else [c]) ++ ['"']

/-- Parts on one line. -/
def spaced (parts : List (List Char)) : List Char := [' '].intercalate parts

/-- How many parts stay on the opening line of a broken list. -/
def headCount : List (List Char) → Nat
  | _ :: second :: _ => if second.contains '\n' then 1 else 2
  | _ => 1

/-- Parts in round brackets, `depth` steps in, on one line if that fits. -/
def enclosed (style : PageStyle) (depth : Int) (parts : List (List Char)) : List Char :=
  let oneLine := '(' :: spaced parts ++ [')']
  let fits := (oneLine.length : Int) + style.step.length * depth ≤ style.limit
  if parts.isEmpty || (fits && !oneLine.contains '\n') then oneLine
  else
    let count := headCount parts
    let line (part : List Char) := '\n' :: style.indentation (depth + 1) ++ part
    '(' :: spaced (parts.take count) ++ (parts.drop count).flatMap line ++ [')']

mutual

/-- A form laid out `depth` steps in. -/
def layout (style : PageStyle) (depth : Int) : Form → List Char
  | .symbol name => name.toList
  | .text content => quotedText content
  | .whole value => (toString value).toList
  | .real value => value.text.toList
  | .list items => enclosed style depth (layoutAll style (depth + 1) items)
  | .brackets items => enclosed style depth [enclosed style (depth + 1) (layoutAll style (depth + 2) items)]
  | .quote form => enclosed style depth [layout style (depth + 1) form]

/-- The items of a list laid out `depth` steps in. -/
def layoutAll (style : PageStyle) (depth : Int) : List Form → List (List Char)
  | [] => []
  | form :: rest => layout style depth form :: layoutAll style depth rest

end

/-- A form as a document of its own, ending with a line feed. -/
def document (form : Form) : String := String.ofList (layout documentStyle 0 form ++ ['\n'])

end JobClosure.Form
