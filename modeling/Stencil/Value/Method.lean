import Stencil.Text.Case
import Stencil.Value.Builtin
import Stencil.Value.Subscript

/-!
# Methods

What texts, lists and maps can be asked to do.
-/

namespace Stencil.Value

def ofChars (cs : List Char) : Value :=
  text (String.ofList cs)

/-- The class of characters that stripping removes: blanks, or those of the argument. -/
def stripped (name : String) (args : List Value) : Except EvalError (Char → Bool) :=
  match args with
  | [] => .ok Text.isBlank
  | none :: _ => .ok Text.isBlank
  | v :: _ => (expectText name v).map fun s c => s.toList.contains c

def joinTexts (separator : List Char) (parts : List String) : Value :=
  ofChars (separator.intercalate (parts.map String.toList))

def textMethod (cs : List Char) (name : String) (args : List Value) : Except EvalError Value :=
  match name with
  | "upper" => do
    arity name args 0 0
    return ofChars (Text.upper cs)
  | "lower" => do
    arity name args 0 0
    return ofChars (Text.lower cs)
  | "strip" => do
    arity name args 0 1
    return ofChars (Text.dropEnds (← stripped name args) cs)
  | "lstrip" => do
    arity name args 0 1
    return ofChars (cs.dropWhile (← stripped name args))
  | "rstrip" => do
    arity name args 0 1
    return ofChars (Text.dropEnd (← stripped name args) cs)
  | "title" => do
    arity name args 0 0
    return ofChars (Text.title cs)
  | "capitalize" => do
    arity name args 0 0
    return ofChars (Text.capitalize cs)
  | "startswith" => do
    arity name args 1 1
    return bool ((← expectText name (args.headD none)).toList.isPrefixOf cs)
  | "endswith" => do
    arity name args 1 1
    return bool ((← expectText name (args.headD none)).toList.isSuffixOf cs)
  | "replace" => do
    arity name args 2 2
    let old ← expectText name (args.headD none)
    let new ← expectText name (args[1]?.getD none)
    return ofChars (Text.replace old.toList new.toList cs)
  | "split" => do
    arity name args 0 1
    match args.headD none with
    | none => return list ((Text.words cs).map ofChars)
    | v =>
      let separator ← expectText name v
      if separator.isEmpty then .error (.value "empty separator")
      else return list ((Text.split separator.toList cs).map ofChars)
  | "join" => do
    arity name args 1 1
    let items ← (args.headD none).iterate
    return joinTexts cs (← items.mapM (expectText name))
  | "find" => do
    arity name args 1 1
    match Text.find? (← expectText name (args.headD none)).toList cs with
    | some place => return ofNat place
    | Option.none => return int (-1)
  | "count" => do
    arity name args 1 1
    return ofNat (Text.countOf (← expectText name (args.headD none)).toList cs)
  | _ => .error (noMember (text "") name)

def listMethod (items : List Value) (name : String) (args : List Value) :
    Except EvalError Value :=
  match name with
  | "index" => do
    arity name args 1 1
    let wanted := args.headD none
    match items.findIdx? fun v => v.equal wanted with
    | some place => return ofNat place
    | Option.none => .error (.value (wanted.repr ++ " is not in list"))
  | "count" => do
    arity name args 1 1
    return ofNat (items.countP fun v => v.equal (args.headD none))
  | _ => .error (noMember (list []) name)

def mapMethod (entries : Dict Value) (name : String) (args : List Value) :
    Except EvalError Value :=
  match name with
  | "get" => do
    arity name args 1 2
    let default := args[1]?.getD none
    match args.headD none with
    | text key => return (entries.get? key).getD default
    | _ => return default
  | "keys" => do
    arity name args 0 0
    return list (entries.keys.map text)
  | "values" => do
    arity name args 0 0
    return list entries.values
  | "items" => do
    arity name args 0 0
    return list (entries.map fun entry => list [text entry.1, entry.2])
  | _ => .error (noMember (map []) name)

def method (v : Value) (name : String) (args : List Value) : Except EvalError Value :=
  match v with
  | text s => textMethod s.toList name args
  | list items => listMethod items name args
  | map entries => mapMethod entries name args
  | _ => .error (noMember v name)

end Stencil.Value
