import NginxConfig.Proofs.Blueprint.RoundTrip

/-!
# Values and their documents

The document of a value does not say of which kind the value is. The kinds are
tried in a fixed order, and the first that takes the document decides. A table
is taken by none of them, and a list only if all its items are. So values
without floating point numbers and plain documents without tables stand for one
another, one to one, and a table anywhere in a document makes it fail
(`Value.plain_documents`).
-/

namespace NginxConfig

/-! ## Tables in a document -/

namespace Document

mutual

/-- Whether there is a table anywhere in the document. -/
def HasTable : Document → Prop
  | .table _ => True
  | .list items => AnyTable items
  | _ => False

def AnyTable : List Document → Prop
  | [] => False
  | d :: rest => d.HasTable ∨ AnyTable rest

end

end Document

/-! ## Kinds of values -/

namespace Value

inductive Kind where
  | bool
  | int
  | float
  | str
  | list
  | empty
  deriving DecidableEq, Repr

namespace Kind

/-- All kinds, in the order in which they are tried. -/
def all : List Kind := [bool, int, float, str, list, empty]

/-- What a kind takes a document for. Every number will do as a floating point
number, so the kind of integers has to come first. -/
def take? : Kind → Document → Option Value
  | bool, .bool b => some (.bool b)
  | int, .int n =>
    if -Int.pow 2 63 ≤ n ∧ n < Int.pow 2 63 then some (.int (Int64.ofInt n)) else none
  | float, .int n => some (.float (Decimal.nearest (decide (n < 0)) n.natAbs 1))
  | float, .float x => some (.float x)
  | str, .text s => some (.str s)
  | list, .list items => (valuesOf? items).map .list
  | empty, .null => some .empty
  | _, _ => none

end Kind

/-- The first kind that takes a document decides. -/
theorem ofDocument?_eq_findSome? (d : Document) :
    ofDocument? d = Kind.all.findSome? (·.take? d) := by
  cases d with
  | int n =>
      rw [ofDocument?, ofInt]
      simp only [Kind.all, Kind.take?, List.findSome?_cons]
      split <;> rfl
  | list items =>
      rw [ofDocument?]
      cases hitems : valuesOf? items <;> simp [Kind.all, Kind.take?, hitems]
  | _ => rfl

/-! ## Documents that are no values -/

mutual

/-- A document is refused for a table in it, or for a part that has no value. -/
theorem ofDocument?_eq_none : ∀ d : Document,
    ofDocument? d = none ↔ d.HasTable ∨ d.isReadable = false
  | .null | .bool _ | .int _ | .float _ | .text _ | .table _ | .unreadable => by
      simp [ofDocument?, Document.HasTable, Document.isReadable]
  | .list items => by
      rw [ofDocument?, Option.map_eq_none_iff, valuesOf?_eq_none items, Document.HasTable,
        Document.isReadable]

theorem valuesOf?_eq_none : ∀ items : List Document,
    valuesOf? items = none ↔ Document.AnyTable items ∨ Document.allReadable items = false
  | [] => by simp [valuesOf?, Document.AnyTable, Document.allReadable]
  | d :: rest => by
      have hd := ofDocument?_eq_none d
      have hrest := valuesOf?_eq_none rest
      rw [valuesOf?, Document.AnyTable, Document.allReadable, Bool.and_eq_false_iff, or_or_or_comm,
        ← hd, ← hrest]
      cases ofDocument? d <;> simp

end

theorem decode_of_hasTable {d : Document} (h : d.HasTable) :
    decode d = .error (.noVariant "Value") := by
  rw [decode, (ofDocument?_eq_none d).mpr (.inl h)]

/-! ## Documents that are values -/

mutual

theorem not_hasTable_toDocument : ∀ v : Value, ¬ v.toDocument.HasTable
  | .empty | .bool _ | .int _ | .float _ | .str _ => by simp [toDocument, Document.HasTable]
  | .list items => by
      rw [toDocument, Document.HasTable]
      exact not_anyTable_documentsOf items

theorem not_anyTable_documentsOf : ∀ vs : List Value, ¬ Document.AnyTable (documentsOf vs)
  | [] => by simp [documentsOf, Document.AnyTable]
  | v :: rest => by
      rw [documentsOf, Document.AnyTable, not_or]
      exact ⟨not_hasTable_toDocument v, not_anyTable_documentsOf rest⟩

end

mutual

/-- A plain document without tables is the document of a value. -/
theorem exists_ofDocument? : ∀ {d : Document}, d.IsPlain → ¬ d.HasTable →
    ∃ v, (∀ x, .float x ∉ v.parts) ∧ ofDocument? d = some v ∧ v.toDocument = d
  | .null => fun _ _ => ⟨.empty, by simp [parts], rfl, rfl⟩
  | .bool b => fun _ _ => ⟨.bool b, by simp [parts], rfl, rfl⟩
  | .text s => fun _ _ => ⟨.str s, by simp [parts], rfl, rfl⟩
  | .int n => fun hplain _ => by
      obtain ⟨hlo, hhi⟩ : Document.InRange n := hplain
      refine ⟨.int (Int64.ofInt n), by simp [parts], ?_, ?_⟩
      · rw [ofDocument?, ofInt, if_pos ⟨hlo, hhi⟩]
      · rw [toDocument, Int64.toInt_ofInt_of_le hlo hhi]
  | .list items => fun hplain htable => by
      rw [Document.IsPlain] at hplain
      rw [Document.HasTable] at htable
      obtain ⟨vs, hfloat, hvalues, hdocuments⟩ := exists_valuesOf? hplain htable
      refine ⟨.list vs, by simpa [parts] using hfloat, ?_, ?_⟩
      · rw [ofDocument?, hvalues, Option.map_some]
      · rw [toDocument, hdocuments]
  | .table _ => fun _ htable => absurd trivial htable
  | .float _ | .unreadable => fun hplain _ => False.elim hplain

theorem exists_valuesOf? : ∀ {items : List Document}, Document.AllPlain items →
    ¬ Document.AnyTable items →
      ∃ vs, (∀ x, .float x ∉ partsOfAll vs) ∧ valuesOf? items = some vs ∧ documentsOf vs = items
  | [] => fun _ _ => ⟨[], by simp [partsOfAll], rfl, rfl⟩
  | d :: rest => fun hplain htable => by
      rw [Document.AllPlain] at hplain
      rw [Document.AnyTable, not_or] at htable
      obtain ⟨v, hv, hvalue, hdocument⟩ := exists_ofDocument? hplain.1 htable.1
      obtain ⟨vs, hvs, hvalues, hdocuments⟩ := exists_valuesOf? hplain.2 htable.2
      refine ⟨v :: vs, ?_, ?_, ?_⟩
      · intro x hx
        rw [partsOfAll, List.mem_append] at hx
        exact hx.elim (hv x) (hvs x)
      · simp only [valuesOf?, hvalue, hvalues, Option.map_some]
      · rw [documentsOf, hdocument, hdocuments]

end

/-- **Values and plain documents stand for one another.** A value without floating point
numbers has a plain document without tables, and it is what that document is decoded to. Every
plain document without tables is decoded to such a value, whose document it is. A document with
a table anywhere in it is refused. What a document is decoded to is what the first of the kinds
takes it for. -/
theorem plain_documents :
    (∀ v : Value, (∀ x, .float x ∉ v.parts) →
        v.toDocument.IsPlain ∧ ¬ v.toDocument.HasTable ∧ decode v.toDocument = .ok v)
      ∧ (∀ d : Document, d.IsPlain → ¬ d.HasTable →
          ∃ v, (∀ x, .float x ∉ v.parts) ∧ decode d = .ok v ∧ v.toDocument = d)
      ∧ (∀ d : Document, d.HasTable → decode d = .error (.noVariant "Value"))
      ∧ ∀ (d : Document) (v : Value),
          decode d = .ok v ↔ Kind.all.findSome? (·.take? d) = some v := by
  refine ⟨fun v hfloat => ⟨(v.tidy_toDocument hfloat).plain, v.not_hasTable_toDocument, ?_⟩,
    fun d hplain htable => ?_, fun d => decode_of_hasTable, fun d v => ?_⟩
  · rw [decode, ofDocument?_toDocument]
  · obtain ⟨v, hfloat, hvalue, hdocument⟩ := exists_ofDocument? hplain htable
    exact ⟨v, hfloat, by rw [decode, hvalue], hdocument⟩
  · rw [decode, ← ofDocument?_eq_findSome?]
    cases ofDocument? d <;> simp

end Value

end NginxConfig
