import Assay.Yaml.Node.Compose
import Assay.Yaml.Node.Meaning
import Assay.Yaml.Token.Scan

/-!
# Reading YAML documents

A text is read as tokens, the tokens as a node, and the node as a value. A text without a document
is null.
-/

namespace Assay.Yaml

/-- The value of a text, or nothing for one that holds itself. -/
def parseChars (cs : List Char) : Except Fault (Option Value) := do
  match ← Node.ofTokens (Tokens.ofChars cs) with
  | (none, _) => return some .null
  | (some n, endless) => do
    let v ← n.toValue
    return if endless then none else some v

end Assay.Yaml
