import Triglot.OpenApi.Path
import Triglot.Proofs.Namespace.Partition
import Triglot.Proofs.Union.Rendering

/-! What a name stands for where it is written. The name of a scalar can also be the name of a
declaration: some of those who read a name ask for the scalar first, and the others take the
declaration. -/
namespace Triglot

inductive Reading where
  | scalar (s : Scalar)
  | declared (s : Symbol)

namespace Reading

def ofName (name : String) (s : Symbol) : Reading :=
  match Scalar.ofName? name with
  | some known => .scalar known
  | none => .declared s

def fieldType (scope : Scope) : Reading → Proto.FieldType
  | .scalar s => .scalar s
  | .declared s => .declared (scope.refer s)

def typeRef (scope : Scope) (usage : UsageMap) (d : Graphql.Direction) : Reading → Graphql.TypeRef
  | .scalar s => .named (Graphql.scalarText s)
  | .declared s => .named (Graphql.directedName scope usage d s)

def ns? : Reading → Option String
  | .scalar _ => none
  | .declared s => some (effectiveNamespace s.ns)

theorem ofName_eq_declared_iff (name : String) (s : Symbol) :
    ofName name s = .declared s ↔ isScalar name = false := by
  unfold ofName isScalar
  cases Scalar.ofName? name with
  | none => simp
  | some known => simp

/-- A reading that has a namespace, is that of a declaration. -/
theorem ns?_ofName_iff (name : String) (s : Symbol) :
    (ofName name s).ns? = (declared s).ns? ↔ isScalar name = false := by
  rw [← ofName_eq_declared_iff name s]
  refine ⟨fun h => ?_, fun h => by rw [h]⟩
  unfold ofName at h ⊢
  cases hn : Scalar.ofName? name with
  | none => rfl
  | some known =>
    rw [hn] at h
    cases h

section

variable {scope : Scope} {name : String} {s : Symbol}

theorem namedType_eq (hs : scope.resolve name = .ok s) :
    Proto.namedType scope name = .ok ((ofName name s).fieldType scope) := by
  unfold Proto.namedType ofName
  cases Scalar.ofName? name with
  | some known => rfl
  | none =>
    dsimp only
    rw [Scope.reference, hs]
    rfl

theorem namedRef_eq (hs : scope.resolve name = .ok s) (usage : UsageMap) (d : Graphql.Direction) :
    Graphql.namedRef scope usage d name = .ok ((ofName name s).typeRef scope usage d) := by
  unfold Graphql.namedRef ofName
  cases Scalar.ofName? name with
  | some known => rfl
  | none =>
    dsimp only
    rw [hs]
    rfl

theorem referencedNamespace_eq {table : SymbolTable} {ns : String}
    (hs : table.resolve name ns = .ok s) :
    referencedNamespace table name ns = (ofName name s).ns? := by
  unfold referencedNamespace ofName isScalar
  cases Scalar.ofName? name with
  | some known => rfl
  | none =>
    dsimp only [Option.isSome_none]
    rw [hs]
    rfl

end

end Reading

structure Method.Reads (k : Method) (m : Model) (ns : String) (input output : Reading) : Prop where
  -- Where a method is written and where imports are gathered, its payloads have these readings.
  proto : ∀ scope : Scope, scope.table = .of m →
    ∃ r, Proto.rpc (scope.within ns) k = .ok r ∧ r.input = input.fieldType (scope.within ns) ∧
      r.output = output.fieldType (scope.within ns)
  graphql : ∀ usage, ∃ f,
    Graphql.rootField ((Scope.flat m (.of m) .graphql).within ns) usage k = .ok f ∧
      f.argument = some (input.typeRef ((Scope.flat m (.of m) .graphql).within ns) usage .input) ∧
      f.type = output.typeRef ((Scope.flat m (.of m) .graphql).within ns) usage .output
  imports : referencedNamespace (.of m) k.input ns = input.ns? ∧
    referencedNamespace (.of m) k.output ns = output.ns?

def Method.Operates (k : Method) (m : Model) (ns : String) (input output : Symbol) : Prop :=
  ∀ path, ∃ op,
    OpenApi.operation ((Scope.flat m (.of m) .openapi).within ns) k path = .ok op ∧
      op.requestBody =
        (if k.verb.hasBody then
          some (OpenApi.schemaRef ((NameTable.build m .openapi).emitted input))
        else none) ∧
      op.responses = OpenApi.responses k ((NameTable.build m .openapi).emitted output)

structure UnionType.Offers (u : UnionType) (m : Model) (symbols : List Symbol) : Prop where
  proto : ∀ scope : Scope, scope.table = .of m →
    ∃ b, Proto.renderUnion (scope.within u.ns) u = .ok b ∧
      b.members.map (·.reference) = symbols.map (scope.within u.ns).refer
  graphql : ∃ d, Graphql.renderUnion ((Scope.flat m (.of m) .graphql).within u.ns) u = .ok d ∧
    d.output.usedNames = symbols.map (NameTable.build m .graphql).emitted ∧
    d.input.fields =
      symbols.map (Graphql.optionField ((Scope.flat m (.of m) .graphql).within u.ns))
  openapi : ∃ v, OpenApi.renderUnion ((Scope.flat m (.of m) .openapi).within u.ns) u = .ok v ∧
    (OpenApi.KeepsAlternatives u → OpenApi.oneOfReferences v =
      symbols.map fun s => OpenApi.schemaPath ((NameTable.build m .openapi).emitted s))

section

variable {m : Model} {ns : String} {k : Method} {input output : Symbol}

theorem Method.reads_ofName (hin : (SymbolTable.of m).resolve k.input ns = .ok input)
    (hout : (SymbolTable.of m).resolve k.output ns = .ok output) :
    k.Reads m ns (.ofName k.input input) (.ofName k.output output) := by
  refine ⟨?_, ?_, Reading.referencedNamespace_eq hin, Reading.referencedNamespace_eq hout⟩
  · intro scope htable
    have hi := (Scope.resolve_within htable ns k.input).trans hin
    have ho := (Scope.resolve_within htable ns k.output).trans hout
    unfold Proto.rpc
    rw [Reading.namedType_eq hi, Reading.namedType_eq ho]
    exact ⟨_, rfl, rfl, rfl⟩
  · intro usage
    have hi : ((Scope.flat m (.of m) .graphql).within ns).resolve k.input = .ok input := hin
    have ho : ((Scope.flat m (.of m) .graphql).within ns).resolve k.output = .ok output := hout
    unfold Graphql.rootField
    rw [Reading.namedRef_eq hi, Reading.namedRef_eq ho]
    exact ⟨_, rfl, rfl, rfl⟩

/-- Imports tell the readings of payloads apart, so that the other reading is ruled out. -/
theorem Method.reads_declared_iff (hin : (SymbolTable.of m).resolve k.input ns = .ok input)
    (hout : (SymbolTable.of m).resolve k.output ns = .ok output) :
    k.Reads m ns (.declared input) (.declared output) ↔
      isScalar k.input = false ∧ isScalar k.output = false := by
  have hreads := Method.reads_ofName hin hout
  constructor
  · intro hdeclared
    have hi := hreads.imports.1.symm.trans hdeclared.imports.1
    have ho := hreads.imports.2.symm.trans hdeclared.imports.2
    exact ⟨(Reading.ns?_ofName_iff _ _).mp hi, (Reading.ns?_ofName_iff _ _).mp ho⟩
  · rintro ⟨hi, ho⟩
    rw [(Reading.ofName_eq_declared_iff _ _).mpr hi, (Reading.ofName_eq_declared_iff _ _).mpr ho]
      at hreads
    exact hreads

theorem Method.operates (hin : (SymbolTable.of m).resolve k.input ns = .ok input)
    (hout : (SymbolTable.of m).resolve k.output ns = .ok output) :
    k.Operates m ns input output := by
  intro path
  have hi : ((Scope.flat m (.of m) .openapi).within ns).resolve k.input = .ok input := hin
  have ho : ((Scope.flat m (.of m) .openapi).within ns).resolve k.output = .ok output := hout
  unfold OpenApi.operation Scope.reference
  rw [hi, ho]
  exact ⟨_, rfl, rfl, rfl⟩

/-- The options of a union are the alternatives that all three targets write. -/
theorem UnionType.offers {u : UnionType} {symbols : List Symbol}
    (h : List.Forall₂ (fun n s => (SymbolTable.of m).resolve n u.ns = .ok s) u.options symbols) :
    u.Offers m symbols := by
  have hflat (target : Target) :
      ((Scope.flat m (.of m) target).within u.ns).Finds u.options symbols :=
    Scope.finds_within rfl h
  refine ⟨?_, Graphql.renderUnion_of_finds (hflat .graphql),
    OpenApi.renderUnion_of_finds (hflat .openapi)⟩
  intro scope htable
  obtain ⟨b, hb, hrefs, _⟩ := Proto.renderUnion_of_finds (Scope.finds_within htable h)
  exact ⟨b, hb, hrefs⟩

end

/-- In a model with a good report every payload and every option finds a declaration. Unions take it in
all targets, and so do operations; methods elsewhere, and imports, take the scalar of that name if
there is one. So all agree exactly on the names that are no scalar's. -/
theorem names_agree_iff (m : Model) (o : Validation.Options) (h : (validate m o).ok = true) :
    (∀ s ∈ m.services, ∀ k ∈ s.methods, ∃ input output,
      (SymbolTable.of m).resolve k.input s.ns = .ok input ∧
      (SymbolTable.of m).resolve k.output s.ns = .ok output ∧
      k.Operates m s.ns input output ∧
      k.Reads m s.ns (.ofName k.input input) (.ofName k.output output) ∧
      (k.Reads m s.ns (.declared input) (.declared output) ↔
        isScalar k.input = false ∧ isScalar k.output = false)) ∧
    ∀ u ∈ m.unions, ∃ symbols,
      List.Forall₂ (fun n s => (SymbolTable.of m).resolve n u.ns = .ok s) u.options symbols ∧
      u.Offers m symbols ∧
      List.Forall₂ (fun n s => referencedNamespace (.of m) n u.ns = (Reading.ofName n s).ns? ∧
        (referencedNamespace (.of m) n u.ns = (Reading.declared s).ns? ↔ isScalar n = false))
        u.options symbols := by
  have hrefers := (Validation.accepted_of_ok h).referable
  refine ⟨?_, ?_⟩
  · intro s hs k hk
    obtain ⟨⟨input, hin, _⟩, output, hout, _⟩ := hrefers.payloads s hs k hk
    exact ⟨input, output, hin, hout, Method.operates hin hout, Method.reads_ofName hin hout,
      Method.reads_declared_iff hin hout⟩
  · intro u hu
    obtain ⟨symbols, hfinds⟩ := hrefers.finds hu
    refine ⟨symbols, hfinds, UnionType.offers hfinds, hfinds.imp fun n s hn => ?_⟩
    have hns := Reading.referencedNamespace_eq hn
    exact ⟨hns, by rw [hns, Reading.ns?_ofName_iff]⟩

def harbor : Model :=
  -- Payloads and options in two namespaces, bare and qualified, with a union among the payloads.
  { ns := "port"
    types :=
      [{ name := "Ferry", ns := "port", fields := [] },
       { name := "Tug", ns := "dock", fields := [] },
       { name := "Berth", ns := "dock", fields := [{ name := "depth", type := .named "uint8" false }] }]
    unions := [{ name := "Vessel", ns := "port", options := ["Ferry", "dock.Tug"] }]
    services :=
      [{ name := "Pilot", ns := "port"
         methods :=
          [{ name := "Land", input := "Vessel", output := "dock.Berth" },
           { name := "Leave", input := "Berth", output := "Ferry" }] }] }

theorem names_agree_harbor :
    (validate harbor {}).ok = true ∧
      (∀ s ∈ harbor.services, ∀ k ∈ s.methods, ∃ input output,
        (SymbolTable.of harbor).resolve k.input s.ns = .ok input ∧
        (SymbolTable.of harbor).resolve k.output s.ns = .ok output ∧
        k.Operates harbor s.ns input output ∧
        k.Reads harbor s.ns (.declared input) (.declared output)) ∧
      ∀ u ∈ harbor.unions, ∃ symbols, u.Offers harbor symbols ∧
        ∀ n ∈ u.options, ∃ s ∈ symbols, (SymbolTable.of harbor).resolve n u.ns = .ok s ∧
          referencedNamespace (.of harbor) n u.ns = some (effectiveNamespace s.ns) := by
  have hok : (validate harbor {}).ok = true := by decide +kernel
  have hpayloads : ∀ s ∈ harbor.services, ∀ k ∈ s.methods,
      isScalar k.input = false ∧ isScalar k.output = false := by decide +kernel
  have hoptions : ∀ u ∈ harbor.unions, ∀ n ∈ u.options, isScalar n = false := by decide +kernel
  obtain ⟨hmethods, hunions⟩ := names_agree_iff harbor {} hok
  refine ⟨hok, ?_, ?_⟩
  · intro s hs k hk
    obtain ⟨input, output, hin, hout, hop, _, hiff⟩ := hmethods s hs k hk
    exact ⟨input, output, hin, hout, hop, hiff.mpr (hpayloads s hs k hk)⟩
  · intro u hu
    obtain ⟨symbols, hfinds, hoffers, himports⟩ := hunions u hu
    refine ⟨symbols, hoffers, fun n hn => ?_⟩
    obtain ⟨s, hs, hr, _, hiff⟩ := exists_of_mem_forall₂ (forall₂_and hfinds himports) hn
    exact ⟨s, hs, hr, hiff.mpr (hoptions u hu n hn)⟩

def codecs : Model :=
  -- A declaration with the name of a scalar, as a payload and as an option.
  { ns := "codec"
    types :=
      [{ name := "uint8", ns := "codec", fields := [{ name := "value", type := .named "int32" false }] }]
    unions := [{ name := "Chunk", ns := "wire", options := ["uint8"] }]
    services :=
      [{ name := "Stream", ns := "codec"
         methods := [{ name := "Next", input := "uint8", output := "uint8" }] }] }

/-- The report has no entry at all. A call takes the scalar and the operation the declaration; an
alternative is the declaration, and its namespace is not imported. -/
theorem names_disagree_codecs :
    (validate codecs {}).entries = [] ∧
      (∃ s ∈ codecs.services, ∃ k ∈ s.methods,
        (∃ r, Proto.rpc ((Scope.flat codecs (.of codecs) .proto).within s.ns) k = .ok r ∧
          (r.input, r.output) = (.scalar .uint8, .scalar .uint8)) ∧
        ∃ op, OpenApi.operation ((Scope.flat codecs (.of codecs) .openapi).within s.ns) k "/next" =
            .ok op ∧
          op.requestBody.bind OpenApi.refText = some "#/components/schemas/uint8") ∧
      ∃ u ∈ codecs.unions,
        (∃ b, Proto.renderUnion (({ table := .of codecs, names := .build codecs .proto
                                    qualification := .byNamespace } : Scope).within u.ns) u = .ok b ∧
          b.members.map (·.reference) = [⟨some "codec", "uint8"⟩]) ∧
        u.options.map (referencedNamespace (.of codecs) · u.ns) = [none] := by
  refine ⟨by decide +kernel, ⟨_, List.mem_cons_self, _, List.mem_cons_self, ?_, ?_⟩,
    _, List.mem_cons_self, ?_, by decide +kernel⟩
  · exact exists_ok_of_toOption (by decide +kernel)
  · exact exists_ok_of_toOption (by decide +kernel)
  · exact exists_ok_of_toOption (by decide +kernel)

end Triglot
