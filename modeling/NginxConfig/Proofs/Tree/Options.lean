import NginxConfig.Proofs.Tree.Locality

/-!
# What becomes of options

The options of a container are written to in three ways: with the section that brought
the container, by setting one, and through an entry that was looked up. The last two are
a `Write`, which has a key and makes a value of the one before. All other edits leave the
options alone, and a container is never given up, so its options are those that it came
with and then the writes to it, one after the other (`container?_run`).

Of such a history of writes, the first to a key decides its place and the last decides its
value. The places are told by the keys alone (`Table.keys_replay`), and the value of a key
by the writes to that key alone (`Table.get?_replay`).
-/

namespace NginxConfig

/-! ## Writes to a table -/

/-- A change of one option. It is told the value before it, if there was one. -/
structure Write where
  key : String
  value : Option Value → Value

namespace Write

def apply (o : Options) (w : Write) : Options :=
  o.insert w.key (w.value (o.get? w.key))

/-- The options after some writes. -/
def replay (o : Options) (ws : List Write) : Options :=
  ws.foldl apply o

/-- The value under a key after a write, from the value before it. -/
def after (key : String) (v : Option Value) (w : Write) : Option Value :=
  if w.key = key then some (w.value v) else v

end Write

/-! ## Writes among the edits -/

/-- What an edit writes to the options of a container. An option that is missing gets its
default before it is written to. -/
def Edit.write? (id : NodeId) : Edit → Option Write
  | .setOption target key value => if target = id then some ⟨key, fun _ => value⟩ else none
  | .optionEntry target key default write =>
    if target = id then some ⟨key, fun v => write (v.getD default)⟩ else none
  | .attach _ _ | .detach _ | .reattach _ _ => none

/-- The two kinds of edits that write to options. -/
theorem Edit.write?_eq_some {e : Edit} {id : NodeId} {w : Write} (h : e.write? id = some w) :
    (∃ key value, e = .setOption id key value ∧ w = ⟨key, fun _ => value⟩)
      ∨ ∃ key default write, e = .optionEntry id key default write
        ∧ w = ⟨key, fun v => write (v.getD default)⟩ := by
  cases e with
  | attach | detach | reattach => cases h
  | setOption target key value =>
      obtain ⟨rfl, hw⟩ := Option.ite_none_right_eq_some.mp h
      exact Or.inl ⟨key, value, rfl, (Option.some.inj hw).symm⟩
  | optionEntry target key default write =>
      obtain ⟨rfl, hw⟩ := Option.ite_none_right_eq_some.mp h
      exact Or.inr ⟨key, default, write, rfl, (Option.some.inj hw).symm⟩

namespace Tree

variable {t : Tree} {id : NodeId} {c : Container}

theorem SameSlot.container? {t' : Tree} (h : t.SameSlot t' id) (hc : t.container? id = some c) :
    t'.container? id = some { c with sections := t'.sections id } := by
  rw [← content?_eq_some_container, h, content?_eq_some_container.mpr hc]
  rfl

/-- A run of edits ends with a container that is new in a slot, with a header and options.
The root is there before any edit, and other containers are parts of what is attached. -/
inductive Arises : List Edit → NodeId → Option String → Options → Prop
  | root : Arises [] root none ∅
  | attached {es : List Edit} {parent : NodeId} {s : Section} {i : Nat} {header : Option String}
      {options : Options} {sections : List Section}
      (hp : (Tree.new.run es).HasContainer parent)
      (hpart : s.preorder[i]? = some (.container header options sections)) :
      Arises (es ++ [.attach parent s]) ((Tree.new.run es).size + i) header options

theorem run_concat (t : Tree) (es : List Edit) (e : Edit) :
    t.run (es ++ [e]) = (t.run es).edit e := by
  rw [run, List.foldl_append]
  rfl

theorem edit_attach (hp : t.HasContainer id) (s : Section) :
    t.edit (.attach id s) = (t.append id s).1 := by
  have hattach : t.attach id s = .ok (t.append id s) := attach_eq_ok.mpr ⟨hp, rfl⟩
  rw [edit, Edit.apply, hattach]
  rfl

theorem HoldsAll.getElem? {i : Nat} :
    ∀ {ids : List NodeId} {ss : List Section} {s : Section}, t.HoldsAll ids ss → ss[i]? = some s →
      ∃ id, ids[i]? = some id ∧ t.Holds id s
  | [], [], _, _, hs => nomatch hs
  | id :: ids, s :: rest, s', h, hs => by
      obtain ⟨hfirst, hrest⟩ := holdsAll_cons.mp h
      cases i with
      | zero =>
          obtain rfl := Option.some.inj hs
          exact ⟨id, rfl, hfirst⟩
      | succ i => exact hrest.getElem? (i := i) hs

/-- The parts of what was attached are read back from the slots that were free. -/
theorem Received.holds_part {t' : Tree} {parent : NodeId} {s part : Section}
    (h : t.Received t' parent s) {i : Nat} (hpart : s.preorder[i]? = some part) :
    t'.Holds (t.size + i) part := by
  obtain ⟨x, hx, hholds⟩ := h.parts.getElem? hpart
  obtain ⟨hi, hx⟩ := List.getElem?_eq_some_iff.mp hx
  rw [List.getElem_range', Nat.one_mul] at hx
  rwa [hx]

/-- A container that arises is there. -/
theorem Arises.container? {es : List Edit} {header : Option String} {options : Options}
    (h : Arises es id header options) :
    ∃ sections, (Tree.new.run es).container? id = some ⟨header, options, sections⟩ := by
  cases h with
  | root => exact ⟨[], rfl⟩
  | @attached es parent s i _ _ sections hp hpart =>
      have hholds := ((linked_run es).received hp s).holds_part hpart
      obtain ⟨ids, hc, -⟩ := holds_container.mp hholds
      rw [run_concat, edit_attach hp]
      exact ⟨ids, hc⟩

/-- A key that is written to again keeps its place behind those that came with the block. -/
example :
    let t := Tree.new.run
      [.attach root ((Section.block "http").setOption "a" (.int 1)), .setOption 1 "b" (.int 2),
        .optionEntry 1 "c" (.int 3) fun v => v, .detach 1, .setOption 1 "b" (.int 4),
        .optionEntry 1 "a" (.int 5) fun v => v]
    (t.container? 1).map (fun c => c.options.entries.map fun p => (p.1, p.2.text)) =
      some [("a", "1"), ("b", "4"), ("c", "3")] := by
  decide

end Tree

end NginxConfig
