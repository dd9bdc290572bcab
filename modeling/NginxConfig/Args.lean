import NginxConfig.Error
import NginxConfig.Value

/-!
# Arguments and replies of operations
-/

namespace NginxConfig

/-- Positional values and named options. -/
structure Args where
  positional : List Value
  options : Options
  deriving Inhabited

namespace Args

def none : Args := ⟨[], ∅⟩

/-- Adds a positional argument. -/
def arg (a : Args) (value : Value) : Args :=
  { a with positional := a.positional ++ [value] }

def option (a : Args) (key : String) (value : Value) : Args :=
  { a with options := a.options.insert key value }

def withOptions (a : Args) (options : Options) : Args :=
  { a with options := a.options.insertAll options.entries }

def get? (a : Args) (index : Nat) : Option Value :=
  a.positional[index]?

def named? (a : Args) (key : String) : Option Value :=
  a.options.get? key

/-- The positional argument, or else the first of the keys that is given. -/
def lookup? (a : Args) (index : Nat) (keys : List String) : Option Value :=
  a.get? index <|> keys.findSome? a.named?

/-- Every value given for one argument, the positional one first. -/
def given (a : Args) (index : Nat) (keys : List String) : List Value :=
  (a.get? index).toList ++ keys.filterMap a.named?

/-- The value of an argument that may be given in one place only. -/
def single (a : Args) (operation : String) (index : Nat) (keys : List String) :
    Except Error (Option Value) :=
  match a.given index keys with
  | [] => .ok .none
  | [value] => .ok (some value)
  | _ :: _ :: _ => .error (.invalidArguments operation (.repeated keys))

/-- The named options that are not arguments of the operation itself. -/
def optionsExcept (a : Args) (keys : List String) : Options :=
  a.options.without keys

def same (a b : Args) : Bool :=
  Value.sameItems a.positional b.positional && a.options.same b.options

end Args

/-- What an operation answers. -/
inductive Reply where
  | unit
  /-- A node was found or made; the cursor stays. -/
  | node (id : NodeId)
  /-- A scope was opened; the cursor is in it. -/
  | scope (id : NodeId)
  | text (t : String)
  deriving DecidableEq, Repr, Inhabited

namespace Reply

def scope? : Reply → Option NodeId
  | .scope id => some id
  | _ => none

def text? : Reply → Option String
  | .text t => some t
  | _ => none

/-- The node that a reply is about. -/
def subject? : Reply → Option NodeId
  | .node id | .scope id => some id
  | _ => none

end Reply

end NginxConfig
