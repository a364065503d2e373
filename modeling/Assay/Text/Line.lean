/-!
# Line ends

A text is read with line feeds as its only line ends: a carriage return counts as one, together with
a line feed that follows it.
-/

namespace Assay.Text

/-- The characters with every line end as a line feed. -/
def unifyLines : List Char → List Char
  | [] => []
  | '\r' :: '\n' :: rest => '\n' :: unifyLines rest
  | c :: rest => (if c = '\r' then '\n' else c) :: unifyLines rest

end Assay.Text
