import Triglot.Namespace.Scope
import Triglot.Proofs.Outcome
import Triglot.Proofs.Symbol.Table

/-! References as targets without namespaces write them: what is written is the name of a declaration
of the model. -/
namespace Triglot

namespace Scope

def flat (m : Model) (table : SymbolTable) (target : Target) : Scope :=
  { table, names := .build m target, qualification := .flat }

structure FlatOver (scope : Scope) (m : Model) : Prop where
  table : scope.table = .of m
  flat : scope.qualification = .flat

/-- The flat view of a model writes its declarations without their namespaces. -/
theorem flatOver_flat (m : Model) (target : Target) : (flat m (.of m) target).FlatOver m :=
  ⟨rfl, rfl⟩

variable {scope : Scope} {m : Model}

theorem FlatOver.within (h : scope.FlatOver m) (ns : String) : (scope.within ns).FlatOver m :=
  ⟨h.table, h.flat⟩

theorem FlatOver.write_eq_emitted (h : scope.FlatOver m) (s : Symbol) :
    scope.write s = scope.names.emitted s := by
  simp only [Scope.write, Scope.refer, h.flat]
  rfl

/-- Declarations are written under the names that they have for the target. -/
theorem FlatOver.write (h : scope.FlatOver m) {s : Symbol} (hs : m.Declares s) :
    scope.write s = scope.names.declaredName s.ns s.name := by
  rw [h.write_eq_emitted, hs.emitted_eq]

theorem FlatOver.declares (h : scope.FlatOver m) {name : String} {s : Symbol}
    (hs : scope.resolve name = .ok s) : m.Declares s := by
  unfold Scope.resolve at hs
  rw [h.table] at hs
  exact SymbolTable.declares_of_resolve hs

def WritesKnown (scope : Scope) (known : String → Prop) : Prop :=
  ∀ ns name s, (scope.within ns).resolve name = .ok s → known ((scope.within ns).write s)

/-- A flat view only writes names of declarations. -/
theorem FlatOver.writesKnown (h : scope.FlatOver m) :
    scope.WritesKnown (· ∈ m.writtenNames scope.names) := by
  intro ns name s hs
  unfold Scope.resolve at hs
  rw [(h.within ns).table] at hs
  rw [(h.within ns).write_eq_emitted]
  exact emitted_mem_writtenNames scope.names hs

namespace WritesKnown

variable {known : String → Prop}

theorem within (h : scope.WritesKnown known) (ns : String) : (scope.within ns).WritesKnown known :=
  fun ns' => h ns'

theorem resolve (h : scope.WritesKnown known) {name : String} {s : Symbol}
    (hs : scope.resolve name = .ok s) : known (scope.write s) := h scope.ns name s hs

theorem reference (h : scope.WritesKnown known) {name : String} {r : Reference}
    (hr : scope.reference name = .ok r) : known r.text := by
  obtain ⟨s, hs, rfl⟩ := map_eq_ok hr
  exact h.resolve hs

/-- A map value that is a declaration is written under a known name. -/
theorem classify (h : scope.WritesKnown known) {name : String} {o : Bool} {s : Symbol}
    (hc : MapValue.classify scope (.named name o) = .declared s) : known (scope.write s) := by
  simp only [MapValue.classify] at hc
  split at hc
  · cases hc
  · split at hc
    · rename_i hs
      cases hc
      exact h.resolve hs
    · cases hc

end WritesKnown

end Scope

end Triglot
