import Triglot.Graphql.Build
import Triglot.OpenApi.Schema
import Triglot.Proofs.OpenApi.Pointer
import Triglot.Proofs.Validation
import Triglot.Proto.Build

/-! What the three targets write for a union whose options are found: one alternative for each option,
in their order, made from the symbol that the option finds. -/
namespace Triglot

def Scope.Finds (scope : Scope) (names : List String) (symbols : List Symbol) : Prop :=
  List.Forall₂ (fun n s => scope.resolve n = .ok s) names symbols

theorem Scope.Finds.mapM {scope : Scope} {names : List String} {symbols : List Symbol}
    (h : scope.Finds names symbols) : names.mapM scope.resolve = .ok symbols := mapM_of_forall₂ h

theorem Scope.resolve_within {scope : Scope} {table : SymbolTable} (htable : scope.table = table)
    (ns name : String) : (scope.within ns).resolve name = table.resolve name ns := by
  subst htable
  rfl

theorem Scope.finds_within {scope : Scope} {table : SymbolTable} (htable : scope.table = table)
    {ns : String} {names : List String} {symbols : List Symbol}
    (h : List.Forall₂ (fun n s => table.resolve n ns = .ok s) names symbols) :
    (scope.within ns).Finds names symbols :=
  h.imp fun n _ hn => (Scope.resolve_within htable ns n).trans hn

/-- The options of a union find a symbol each. -/
theorem Model.Referable.finds {m : Model} {table : SymbolTable} (h : m.Referable table)
    {u : UnionType} (hu : u ∈ m.unions) :
    ∃ symbols, List.Forall₂ (fun n s => table.resolve n u.ns = .ok s) u.options symbols := by
  have hall : Succeeds (u.options.mapM fun n => table.resolve n u.ns) := by
    apply Succeeds.mapM
    intro n hn
    exact (h.options u hu n hn).succeeds
  obtain ⟨symbols, hs⟩ := hall
  exact ⟨symbols, mapM_eq_ok hs⟩

section

variable {scope : Scope} {u : UnionType} {symbols : List Symbol}

theorem Proto.members_of_finds {names : List String} (h : scope.Finds names symbols) (next : Nat) :
    ∃ ls, Proto.members scope next names = .ok ls ∧
      ls.map (·.reference) = symbols.map scope.refer ∧
      ls.map (·.name) = symbols.map fun s => Text.lowerFirst s.name := by
  unfold Scope.Finds at h
  induction h generalizing next with
  | nil => exact ⟨[], rfl, rfl, rfl⟩
  | @cons n s names symbols hn _ ih =>
    obtain ⟨ls, hls, hrefs, hnames⟩ := ih (next + 1)
    refine ⟨⟨scope.refer s, Text.lowerFirst s.name, next⟩ :: ls, ?_, ?_, ?_⟩
    · rw [Proto.members, hn, hls]
      rfl
    · rw [List.map_cons, hrefs, List.map_cons]
    · rw [List.map_cons, hnames, List.map_cons]

/-- The members of a union refer to its symbols and are named after them. -/
theorem Proto.renderUnion_of_finds (h : scope.Finds u.options symbols) :
    ∃ b, Proto.renderUnion scope u = .ok b ∧
      b.members.map (·.reference) = symbols.map scope.refer ∧
      b.members.map (·.name) = symbols.map fun s => Text.lowerFirst s.name := by
  obtain ⟨ls, hls, hwritten⟩ := Proto.members_of_finds h 1
  unfold Proto.renderUnion
  rw [hls]
  exact ⟨_, rfl, hwritten⟩

def Graphql.Definition.fields : Graphql.Definition → List Graphql.FieldDef
  | .object o => o.fields
  | _ => []

/-- Both definitions of a union have its symbols in order: the output by their names, the input by a
field each. -/
theorem Graphql.renderUnion_of_finds (h : scope.Finds u.options symbols) :
    ∃ d, Graphql.renderUnion scope u = .ok d ∧
      d.output.usedNames = symbols.map scope.write ∧
      d.input.fields = symbols.map (Graphql.optionField scope) := by
  unfold Graphql.renderUnion
  rw [h.mapM]
  exact ⟨_, rfl, rfl, rfl⟩

namespace OpenApi

def refText (v : Json) : Option String :=
  match v.get? "$ref" with
  | some (.string s) => some s
  | _ => none

def oneOfReferences (v : Json) : List String :=
  match v.get? "oneOf" with
  | some (.array items) => items.filterMap refText
  | _ => []

theorem refText_schemaRef (name : String) : refText (schemaRef name) = some (schemaPath name) := by
  simp [refText, schemaRef, Json.get?]

theorem filterMap_refText (names : List String) :
    (names.map schemaRef).filterMap refText = names.map schemaPath := by
  rw [List.filterMap_map, ← List.filterMap_eq_map]
  exact List.filterMap_congr fun n _ => refText_schemaRef n

/-- Components of different names have different paths. -/
theorem schemaPath_injective : Function.Injective schemaPath := by
  intro a b h
  exact (String.append_right_inj _).mp h

def KeepsAlternatives (u : UnionType) : Prop :=
  -- Notes of a union that give entries of its schema leave its alternatives alone.
  ∀ e ∈ extensions (u.annotations.optionsFor .openapi), e.1 ≠ "oneOf"

/-- The alternatives of a schema are its symbols in order, unless notes of the union replace them.
-/
theorem renderUnion_of_finds (h : scope.Finds u.options symbols) :
    ∃ v, renderUnion scope u = .ok v ∧
      (KeepsAlternatives u →
        oneOfReferences v = symbols.map fun s => schemaPath (scope.write s)) := by
  have hnames : (u.options.mapM fun o => (scope.reference o).map Reference.text) =
      .ok (symbols.map scope.write) := by
    apply mapM_of_forall₂
    rw [List.forall₂_map_right_iff]
    refine h.imp fun n s hn => ?_
    rw [Scope.reference, hn]
    rfl
  unfold renderUnion
  rw [hnames]
  refine ⟨_, rfl, fun hkeeps => ?_⟩
  have hlater (d : Json) : ∀ e ∈ [("discriminator", d)] ++
      extensions (u.annotations.optionsFor .openapi), e.1 ≠ "oneOf" := by
    intro e he
    rcases List.mem_append.mp he with he | he
    · rw [List.mem_singleton.mp he]
      exact show "discriminator" ≠ "oneOf" by decide
    · exact hkeeps e he
  rw [List.append_assoc, List.cons_append, oneOfReferences, get?_ofEntries (hlater _)]
  dsimp only
  rw [filterMap_refText, List.map_map]
  rfl

end OpenApi

end

end Triglot
