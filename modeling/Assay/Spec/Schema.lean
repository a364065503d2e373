import Assay.Spec.Problem

/-!
# The schema of specification documents

A schema is a list of keywords, each of which asks something of a value. Schemas may refer to
definitions by name, and definitions to each other. The schema of specifications is written out here; a
validator from elsewhere tells what a value lacks.
-/

namespace Assay

mutual

/-- A schema: what it asks of a value, keyword by keyword. -/
inductive Schema where
  | mk (keywords : List Keyword)

/-- A keyword of a schema. -/
inductive Keyword where
  /-- The value is of a type that is known by name. -/
  | type (name : String)
  /-- A text has so many characters at least. -/
  | minLength (n : Nat)
  /-- A number is not below a bound. -/
  | minimum (bound : Int)
  /-- The value is one of some texts. -/
  | enum (texts : List String)
  /-- A mapping has all of some names. -/
  | required (names : List String)
  /-- What a mapping has under each of some names fits the schema for the name. -/
  | properties (schemas : List (String × Schema))
  /-- A mapping has no other names than those with a schema of their own. -/
  | noOthers
  /-- What a mapping has under all names without a schema of their own fits a schema. -/
  | others (schema : Schema)
  /-- The items of a list fit a schema. -/
  | items (schema : Schema)
  /-- The value fits exactly one of some schemas. -/
  | oneOf (schemas : List Schema)
  /-- The value fits a definition. -/
  | ref (name : String)

end

/-- A schema with the definitions that it may refer to. -/
structure SchemaDocument where
  root : Schema
  definitions : List (String × Schema)

/-- A validator of schemas: it tells the problems of a value, or it fails. -/
abbrev Validator := SchemaDocument → Value → Except Fault (List Told)

/-- The definition of a name. -/
def SchemaDocument.definition? (d : SchemaDocument) (name : String) : Option Schema :=
  (d.definitions.find? fun e => e.1 == name).map Prod.snd

namespace Schema

/-- Any value. -/
def anything : Schema := ⟨[]⟩

/-- A text. -/
def text : Schema := ⟨[.type "string"]⟩

/-- A text that is not empty. -/
def nonEmptyText : Schema := ⟨[.type "string", .minLength 1]⟩

/-- A truth value. -/
def truthValue : Schema := ⟨[.type "boolean"]⟩

/-- A number that is not below zero. -/
def bound : Schema := ⟨[.type "number", .minimum 0]⟩

/-- What fits a definition. -/
def reference (name : String) : Schema := ⟨[.ref name]⟩

/-- A list of what fits a schema. -/
def listOf (item : Schema) : Schema := ⟨[.type "array", .items item]⟩

/-- A comparison mode. -/
def mode : Schema := ⟨[.enum ["strict", "deep", "approx"]]⟩

/-- A mapping of bounds and of fields that are tolerances. -/
def structuredTolerance : Schema :=
  ⟨[.type "object", .noOthers, .properties
    [("abs", bound), ("rel", bound),
      ("fields", ⟨[.type "object", .others (reference "tolerance")]⟩)]]⟩

/-- A tolerance. -/
def tolerance : Schema := ⟨[.oneOf [bound, structuredTolerance]]⟩

/-- Defaults. -/
def defaults : Schema :=
  ⟨[.type "object", .noOthers, .properties
    [("compare", reference "compare"), ("tolerance", reference "tolerance")]]⟩

/-- A group. -/
def group : Schema :=
  ⟨[.type "object", .required ["group"], .noOthers, .properties
    [("group", nonEmptyText), ("description", text), ("defaults", reference "defaults"),
      ("groups", listOf (reference "group")), ("tests", listOf (reference "test"))]]⟩

/-- A test. -/
def test : Schema :=
  ⟨[.type "object", .required ["id", "op", "input", "expected"], .noOthers, .properties
    [("id", nonEmptyText), ("kind", text), ("op", nonEmptyText), ("input", anything),
      ("expected", anything), ("description", text), ("compare", reference "compare"),
      ("tolerance", reference "tolerance"), ("xfail", truthValue), ("skip", text),
      ("meta", anything)]]⟩

/-- A document. -/
def document : Schema :=
  ⟨[.type "object", .required ["spec", "version", "groups"], .properties
    [("spec", nonEmptyText), ("version", text), ("schema", text), ("capabilities", listOf text),
      ("defaults", reference "defaults"), ("groups", listOf (reference "group"))]]⟩

/-- The schema of specifications. -/
def specification : SchemaDocument :=
  ⟨document, [("compare", mode), ("tolerance", tolerance), ("defaults", defaults), ("group", group),
    ("test", test)]⟩

end Schema

end Assay
