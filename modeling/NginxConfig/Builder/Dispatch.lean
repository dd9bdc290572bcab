import NginxConfig.Builder.Context
import NginxConfig.Tree.Render

/-!
# Running operations by name

Operations of the builder itself come first, then those of plugins.  A script
may call operations in turn; how deep such calls may nest is bounded, and a
call beyond the bound is an error that no script can catch.

A failed operation keeps the state that its steps have reached.
-/

namespace NginxConfig

/-- The names that plugins may not export, because the builder has a method or
an operation of that name. -/
def nativeOperations : List String :=
  ["new", "with_defaults", "id", "settings", "register_plugin", "call", "enter", "up", "end",
    "has_operation", "plugins", "registry", "top", "roots", "globals", "events", "http",
    "current", "descend", "tree", "tree_mut", "set_option", "render"]

/-- The answer of an operation and the state that it leaves. -/
structure Outcome where
  result : Except Error Reply
  state : BuildState
  deriving Inhabited

namespace Outcome

/-- A step that changes the state only if it succeeds. -/
def ofStep (st : BuildState) : Except Error (BuildState × Reply) → Outcome
  | .ok (st, reply) => ⟨.ok reply, st⟩
  | .error e => ⟨.error e, st⟩

end Outcome

/-- How an operation is run by name. -/
abbrev Callee := BuildState → String → Args → Outcome

/-- What a running script knows besides the state. -/
structure Frame where
  context : Context
  operation : String
  args : Args
  deriving Inhabited

def Frame.argsOf (f : Frame) : ArgsRef → Args
  | .own => f.args
  | .given args => args

/-- The state of a run and the node of its latest reply. -/
structure RunState where
  build : BuildState
  last : Option NodeId
  deriving Inhabited

/-- Where the cursor is, as a script reports it. -/
def Cursor.describe (c : Cursor) : String :=
  match c.current with
  | some id => "Some(" ++ toString id ++ ")"
  | none => "None"

namespace Frame

def resolve (f : Frame) (st : RunState) : NodeRef → Except Error NodeId
  | .id n => .ok n
  | .root => .ok Tree.root
  | .globals => .ok st.build.roots.globals
  | .events => .ok st.build.roots.events
  | .top => .ok st.build.roots.http
  | .current =>
    match st.build.cursor.current with
    | some id => .ok id
    | none => .error (.invalidArguments f.operation .noCurrentScope)
  | .last =>
    match st.last with
    | some id => .ok id
    | none => .error (.invalidArguments f.operation .noLastNode)

/-- A step other than a call or an attempt, neither of which is simple. -/
def simpleStep (f : Frame) (st : RunState) : Step → Except Error (BuildState × Reply)
  | .attach s => do
    let (build, id) ← f.context.attach st.build s
    return (build, .node id)
  | .attachArgument name index keys default => do
    let value := (f.args.lookup? index keys).getD default
    let (build, id) ← f.context.attach st.build (.directive (.ofValue name value))
    return (build, .node id)
  | .openScope s => f.context.openScope st.build s
  | .addRoute args => f.context.addRoute (f.argsOf args) st.build
  | .descend node => do
    return (st.build.descend (← f.resolve st node), .unit)
  | .ascend => .ok (st.build.ascend, .unit)
  | .setOption node key value => do
    let tree ← st.build.tree.setOption (← f.resolve st node) key value
    return ({ st.build with tree }, .unit)
  | .replyNode node => do
    return (st.build, .node (← f.resolve st node))
  | .replyScope node => do
    return (st.build, .scope (← f.resolve st node))
  | .replyText t => .ok (st.build, .text t)
  | .reportPlace =>
    .ok (st.build, .text (f.context.plugin ++ " at " ++ st.build.cursor.describe))
  | .fail reason => .error (.invalidArguments f.operation (.other reason))
  | .raise e _ => .error e
  | .replyUnit | .call _ _ | .attempt _ => .ok (st.build, .unit)

end Frame

/-- Takes up the outcome of a step, whose reply may be about a node. -/
def RunState.after (st : RunState) (o : Outcome) : Except Error (Option Reply) × RunState :=
  match o.result with
  | .ok reply => (.ok (some reply), ⟨o.state, reply.subject? <|> st.last⟩)
  | .error e => (.error e, ⟨o.state, st.last⟩)

namespace Step

/-- Runs one step.  An attempt has no reply of its own. -/
def run (callee : Callee) (f : Frame) (st : RunState) :
    Step → Except Error (Option Reply) × RunState
  | .call operation args => st.after (callee st.build operation (f.argsOf args))
  | .attempt step =>
    match step.run callee f st with
    | (.ok _, st) => (.ok none, st)
    | (.error e, st) => (if e.isFatal then .error e else .ok none, st)
  | step => st.after (.ofStep st.build (f.simpleStep st step))

/-- Runs steps until one fails; the reply is that of the last step that has
one, or else the reply so far. -/
def runAll (callee : Callee) (f : Frame) (st : RunState) (reply : Reply) :
    List Step → Except Error Reply × RunState
  | [] => (.ok reply, st)
  | step :: rest =>
    match step.run callee f st with
    | (.ok own, st) => runAll callee f st (own.getD reply) rest
    | (.error e, st) => (.error e, st)

end Step

def Operation.run (callee : Callee) (f : Frame) (st : BuildState) : Operation → Outcome
  | .addServer => .ofStep st (f.context.addServer f.args st)
  | .addRoute => .ofStep st (f.context.addRoute f.args st)
  | .script steps =>
    let (result, last) := Step.runAll callee f ⟨st, none⟩ .unit steps
    ⟨result, last.build⟩

/-- The operations that the builder answers itself. -/
def native? (st : BuildState) (operation : String) : Option Outcome :=
  if operation = "end" ∨ operation = "up" then some ⟨.ok .unit, st.ascend⟩
  else if operation = "render" then some ⟨.ok (.text st.tree.render), st⟩
  else if operation = "top" ∨ operation = "http" then some ⟨.ok (.node st.roots.http), st⟩
  else if operation = "globals" then some ⟨.ok (.node st.roots.globals), st⟩
  else if operation = "events" then some ⟨.ok (.node st.roots.events), st⟩
  else if operation = "current" then
    some ⟨.ok ((st.cursor.current.map Reply.node).getD .unit), st⟩
  else if nativeOperations.contains operation then
    some ⟨.error (.invalidArguments operation .notDispatched), st⟩
  else none

/-- Runs an operation, given how those that it calls are run. -/
def dispatchWith (callee : Callee) (r : Registry) : Callee := fun st operation args =>
  match native? st operation with
  | some outcome => outcome
  | none =>
    match r.lookup? operation with
    | none => ⟨.error (.noSuchOperation operation r.operationNames), st⟩
    | some (plugin, code) => code.run callee ⟨plugin.context, operation, args⟩ st

/-- Runs an operation; calls may nest to the given depth. -/
def dispatch (r : Registry) : Nat → Callee
  | 0 => fun st operation _ => ⟨.error (.callDepth operation), st⟩
  | depth + 1 => dispatchWith (dispatch r depth) r

end NginxConfig
