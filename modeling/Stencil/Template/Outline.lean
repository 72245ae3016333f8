import Stencil.Template.Segment
import Stencil.Text.Case
import Stencil.Text.Visible

/-!
# Outlines

The segments of a template written out for diagnostics, blocks with the name of the template and
tags of the host by their names with a capital.
-/

namespace Stencil.Outline

def commas (parts : List String) : String :=
  ", ".intercalate parts

def listed (parts : List String) : String :=
  "[" ++ commas parts ++ "]"

def formula (f : Formula) : String :=
  "CompiledExpression(" ++ Text.visible f.source ++ ")"

def block (name : String) (segments : List String) : String :=
  "Block \x7b name: " ++ Text.visible name ++ ", segments: " ++ listed segments ++ " \x7d"

mutual

def step (name : String) : Step → String
  | .text content => "Text(" ++ Text.visible content ++ ")"
  | .output value => "Output(" ++ formula value ++ ")"
  | .choice branches none =>
    "Conditional \x7b clauses: " ++ listed (clauses name branches) ++ ", otherwise: None \x7d"
  | .choice branches (some body) =>
    "Conditional \x7b clauses: " ++ listed (clauses name branches) ++ ", otherwise: Some(" ++
      block name (segments name body) ++ ") \x7d"
  | .loop targets unpack items body =>
    "Loop \x7b targets: " ++ listed (targets.map Text.visible) ++ ", unpack: " ++
      (if unpack then "true" else "false") ++ ", iterable: " ++ formula items ++ ", body: " ++
      block name (segments name body) ++ " \x7d"
  | .insertion target => "Include \x7b target: " ++ formula target ++ " \x7d"
  | .captured tag _ body =>
    String.ofList (Text.capitalize tag.toList) ++ "(" ++ block name (segments name body) ++ ")"

def clauses (name : String) : List (Formula × List (Located Step)) → List String
  | [] => []
  | (condition, body) :: rest =>
    ("(" ++ formula condition ++ ", " ++ block name (segments name body) ++ ")") ::
      clauses name rest

def segments (name : String) : List (Located Step) → List String
  | [] => []
  | ⟨line, s⟩ :: rest =>
    ("Segment \x7b line: " ++ String.ofList (Nat.toDigits 10 line) ++ ", executable: " ++
      step name s ++ " \x7d") :: segments name rest

end

end Stencil.Outline
