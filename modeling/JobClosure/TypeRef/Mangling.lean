import JobClosure.TypeRef.Basic

/-!
# Mangled spellings

A mangled spelling may serve as a part of a member name: separators become underscores, and closing angle
brackets and parameter marks disappear. Different references can have the same mangled spelling.
-/

namespace JobClosure

/-- Separators as underscores. A comma takes the space after it along; parameter marks are dropped. -/
def foldSeparators : List Char → List Char
  | [] => []
  | ',' :: ' ' :: rest => '_' :: foldSeparators rest
  | c :: rest =>
    if c == '!' then foldSeparators rest
    else if c == '<' || c == ',' || c == '.' || c == '/' || c == '\x60' then '_' :: foldSeparators rest
    else c :: foldSeparators rest

/-- The mangled form of a spelling. -/
def mangleText (text : String) : String :=
  String.ofList (foldSeparators (text.toList.filter (· != '>')))

def TypeArg.mangle (arg : TypeArg) : String := mangleText arg.spell

def TypeRef.mangle (ref : TypeRef) : String := mangleText ref.spell

end JobClosure
