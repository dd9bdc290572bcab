import NginxConfig.Directive
import NginxConfig.Line

/-!
# Sections

A section is a piece of configuration on its own: a directive, or a container
with options and further sections.  A container with a header is a block in
braces; one without is a group, whose content is written as if it stood in
the enclosing scope.
-/

namespace NginxConfig

inductive Section where
  | directive (d : Directive)
  | container (header : Option String) (options : Options) (sections : List Section)
  deriving Inhabited

/-- The header of a block for the requests to a path. -/
def locationHeader (path : String) : String :=
  "location " ++ path

namespace Section

def block (name : String) : Section :=
  .container (some name) ∅ []

def location (path : String) : Section :=
  block (locationHeader path)

def group : Section :=
  .container none ∅ []

/-- Sets an option of a container; a directive has none. -/
def setOption (s : Section) (key : String) (value : Value) : Section :=
  match s with
  | .container header options sections => .container header (options.insert key value) sections
  | .directive d => .directive d

/-- Puts a section at the end of a container; a directive holds none. -/
def addSection (s child : Section) : Section :=
  match s with
  | .container header options sections => .container header options (sections ++ [child])
  | .directive d => .directive d

def addSections (s : Section) (children : List Section) : Section :=
  children.foldl addSection s

/-- The name that the section can be found by. -/
def name? : Section → Option String
  | .directive d => d.name?
  | .container header _ _ => header

def options : Section → Options
  | .directive _ => ∅
  | .container _ options _ => options

def sections : Section → List Section
  | .directive _ => []
  | .container _ _ sections => sections

/-- The first child with a name. -/
def find? (s : Section) (name : String) : Option Section :=
  s.sections.find? fun child => child.name? == some name

/-! ## Text -/

/-- The statements of the options, in order. -/
def optionLines (options : Options) (depth : Nat) : List Line :=
  options.entries.map fun p => ⟨depth, (Directive.ofOption p.1 p.2).statement⟩

mutual

/-- Options come before sections, and both after the opening line. -/
def lines : Section → Nat → List Line
  | .directive d, depth => [⟨depth, d.statement⟩]
  | .container header options sections, depth =>
    Line.enclose header depth fun inner => optionLines options inner ++ linesOfAll sections inner

def linesOfAll : List Section → Nat → List Line
  | [], _ => []
  | s :: rest, depth => s.lines depth ++ linesOfAll rest depth

end

def renderAt (s : Section) (depth : Nat) : String :=
  Line.renderAll (s.lines depth)

def render (s : Section) : String :=
  s.renderAt 0

/-- The texts of several sections, one after the other. -/
def renderAll (sections : List Section) : String :=
  String.join (sections.map render)

theorem linesOfAll_eq_flatMap (sections : List Section) (depth : Nat) :
    linesOfAll sections depth = sections.flatMap (·.lines depth) := by
  induction sections with
  | nil => rfl
  | cons s rest ih => simp [linesOfAll, ih]

/-! ## Equality -/

mutual

/-- Equality of sections.  The order of options does not count and the order of
sections does. -/
def same : Section → Section → Bool
  | .directive d, .directive e => d == e
  | .container h o ss, .container h' o' ss' => h == h' && o.same o' && sameAll ss ss'
  | _, _ => false

def sameAll : List Section → List Section → Bool
  | [], [] => true
  | s :: ss, t :: ts => s.same t && sameAll ss ts
  | _, _ => false

end

/-! ## Groups for repeated statements -/

/-- A group that writes one statement under the same name for each value. -/
def repeated (key : String) (values : List Value) : Section :=
  group.addSections (values.map fun v => group.setOption key v)

end Section

end NginxConfig
