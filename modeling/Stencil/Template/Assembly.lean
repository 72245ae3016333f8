import Stencil.Expr.Targets
import Stencil.Markup.Token
import Stencil.Template.Segment
import Stencil.Template.Tag

/-!
# Assembly

Tokens put together into segments, one at a time, over a stack of the blocks that are open. A
fault carries the line of the token it is about.
-/

namespace Stencil

/-- What an open block will become. -/
inductive Opening where
  /-- The block of a condition, behind earlier clauses. -/
  | clause (done : List (Formula × Block)) (condition : Formula)
  /-- The last block of a choice. -/
  | otherwise (clauses : List (Formula × Block))
  | loop (targets : List String) (unpack : Bool) (items : Formula)
  | captured (tag : CustomTag)

/-- An open block: the line of its tag, and the segments before the tag, the latest first. -/
structure Frame where
  line : Nat
  opening : Opening
  before : Block

/-- The open blocks, the innermost first, and the segments of the innermost so far, the latest
first. -/
structure Assembly where
  frames : List Frame
  current : Block

/-- The tag that an open block began with, and the one that ends it. -/
def Opening.tags : Opening → String × String
  | clause _ _ => ("if", "endif")
  | otherwise _ => ("if", "endif")
  | loop _ _ _ => ("for", "endfor")
  | captured tag => (tag.name, tag.ending)

namespace Assembly

abbrev Fault := SyntaxError × Nat

def onLine {α : Type} (line : Nat) : Except SyntaxError α → Except Fault α
  | .ok a => .ok a
  | .error e => .error (e, line)

def start : Assembly :=
  ⟨[], []⟩

def push (a : Assembly) (line : Nat) (step : Step) : Assembly :=
  { a with current := ⟨line, step⟩ :: a.current }

def openBlock (a : Assembly) (line : Nat) (opening : Opening) : Assembly :=
  ⟨⟨line, opening, a.current⟩ :: a.frames, []⟩

def formula (line : Nat) (text : List Char) : Except Fault Formula :=
  onLine line (Formula.parse (String.ofList text))

/-- A tag that begins a step. -/
def header (a : Assembly) (line : Nat) : Header → Except Fault Assembly
  | .choice condition => do return a.openBlock line (.clause [] (← formula line condition))
  | .loop names items => do
    let targets ← onLine line (Targets.parse (String.ofList names))
    return a.openBlock line (.loop targets (names.contains ',') (← formula line items))
  | .insertion target => do return a.push line (.insertion (← formula line target))
  | .captured tag => .ok (a.openBlock line (.captured tag))

/-- Ends the innermost block with a step made of it. -/
def close (frame : Frame) (frames : List Frame) (step : Step) : Assembly :=
  ⟨frames, ⟨frame.line, step⟩ :: frame.before⟩

/-- A tag that begins no step, inside a block. -/
def within (frame : Frame) (frames : List Frame) (body : Block) (line : Nat)
    (content : List Char) : Except Fault Assembly :=
  let stray : Except Fault Assembly := .error (.strayTag (String.ofList content), line)
  match frame.opening with
  | .clause done condition =>
    let clauses := done ++ [(condition, body)]
    match Branch.read? content with
    | some (.clause next) => do
      return ⟨{ frame with opening := .clause clauses (← formula line next) } :: frames, []⟩
    | some .otherwise => .ok ⟨{ frame with opening := .otherwise clauses } :: frames, []⟩
    | some .ending => .ok (close frame frames (.choice clauses none))
    | none => stray
  | .otherwise clauses =>
    match Branch.read? content with
    | some (.clause _) => .error (.branchAfterElse, line)
    | some .otherwise => .error (.secondElse, line)
    | some .ending => .ok (close frame frames (.choice clauses (some body)))
    | none => stray
  | .loop targets unpack items =>
    if content = ['e', 'n', 'd', 'f', 'o', 'r'] then
      .ok (close frame frames (.loop targets unpack items body))
    else stray
  | .captured tag =>
    if content = tag.ending.toList then
      .ok (close frame frames (.captured tag.name tag.transform body))
    else stray

def step (builtins : Bool) (custom : List CustomTag) (a : Assembly) (t : Token) :
    Except Fault Assembly :=
  match t.kind with
  | .text => .ok (a.push t.line (.text t.content))
  | .expression => do
    return a.push t.line (.output (← onLine t.line (Formula.parse t.content)))
  | .block =>
    match Header.read? builtins custom t.content.toList with
    | some h => a.header t.line h
    | none =>
      match a.frames with
      | [] => .error (.unknownTag t.content, t.line)
      | frame :: frames => within frame frames a.current.reverse t.line t.content.toList

def finish (a : Assembly) : Except Fault Block :=
  match a.frames with
  | [] => .ok a.current.reverse
  | frame :: _ =>
    let (tag, ending) := frame.opening.tags
    .error (.unclosed tag ending, frame.line)

def ofTokens (builtins : Bool) (custom : List CustomTag) (tokens : List Token) :
    Except Fault Block := do
  (← tokens.foldlM (step builtins custom) start).finish

end Assembly

end Stencil
