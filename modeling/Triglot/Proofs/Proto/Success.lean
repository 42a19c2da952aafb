import Triglot.Proofs.Namespace.Gathering
import Triglot.Proofs.Numbering
import Triglot.Proofs.Symbol.Conflict
import Triglot.Proofs.Validation
import Triglot.Proto.Render

/-! When protocol buffer files can be made. References that find their declarations and distinct
numbers are enough for a file; a model then has its files unless names conflict. All that is told on
the way are warnings. -/
namespace Triglot.Proto

theorem namedType_succeeds {scope : Scope} {name : String}
    (h : isScalar name = false → Succeeds (scope.resolve name)) :
    Succeeds (namedType scope name) := by
  unfold namedType
  split
  · exact .ok _
  · rename_i hn
    have hr := h (by simp [isScalar, hn])
    exact (hr.map scope.refer).map _

theorem fieldType_succeeds {scope : Scope} {type : TypeExpr} (h : scope.Spells type) :
    Succeeds (fieldType scope type) := by
  cases type with
  | named name optional => exact (namedType_succeeds h).map _
  | map key value optional => exact .ok _
  | array items optional =>
    -- Only a name is looked up in a list; what lies deeper becomes a placeholder.
    have he : Succeeds (elementType scope items) := by
      cases items with
      | named name o => exact namedType_succeeds h
      | array items o => exact .ok _
      | map key value o => exact .ok _
    exact he.map _

/-- A message can be written if the names in its fields are found and its numbers are distinct. -/
theorem messageBlock_succeeds {scope : Scope} {t : ObjectType}
    (hf : ∀ f ∈ t.fields, (scope.within t.ns).Spells f.type)
    (hn : collision? t.name (numberFields t .proto) = none) : Succeeds (messageBlock scope t) := by
  have hl : Succeeds ((numberFields t .proto).mapM fun p =>
      fieldLine (scope.within t.ns) p.1 p.2) := by
    apply Succeeds.mapM
    intro p hp
    have ht := fieldType_succeeds (hf p.1 (mem_fields_of_mem_numberFields hp))
    exact ht.bind fun _ _ => .pure _
  unfold messageBlock
  simp only [collision?_eq_none_of_name hn]
  exact (hl.mapError _).bind fun _ _ => .pure _

theorem members_succeeds {scope : Scope} {options : List String} (next : Nat)
    (h : ∀ o ∈ options, Succeeds (scope.resolve o)) : Succeeds (members scope next options) := by
  induction options generalizing next with
  | nil => exact .ok _
  | cons o os ih =>
    have hs := h o List.mem_cons_self
    have ht := ih (next + 1) fun p hp => h p (List.mem_cons_of_mem o hp)
    exact hs.bind fun _ _ => ht.bind fun _ _ => .pure _

theorem serviceBlock_succeeds {scope : Scope} {s : Service}
    (h : ∀ k ∈ s.methods,
      scope.table.FindsObject k.input s.ns ∧ scope.table.FindsObject k.output s.ns) :
    Succeeds (serviceBlock scope s) := by
  have hm : Succeeds (s.methods.mapM (rpc (scope.within s.ns))) := by
    apply Succeeds.mapM
    intro k hk
    obtain ⟨hin, hout⟩ := h k hk
    have hi : Succeeds (namedType (scope.within s.ns) k.input) :=
      namedType_succeeds fun _ => hin.succeeds
    have ho : Succeeds (namedType (scope.within s.ns) k.output) :=
      namedType_succeeds fun _ => hout.succeeds
    exact hi.bind fun _ _ => ho.bind fun _ _ => .pure _
  exact hm.bind fun _ _ => .pure _

structure Writable (part : Model) (table : SymbolTable) : Prop where
  referable : part.Referable table
  numbered : ∀ t ∈ part.types, collision? t.name (numberFields t .proto) = none

/-- A file can be written if its part of the model has what it needs. -/
theorem file_succeeds {scope : Scope} {part : Model} (h : Writable part scope.table)
    (package : String) (paths : List String) : Succeeds (file scope part package paths) := by
  have hm : Succeeds (part.types.mapM (messageBlock scope)) := by
    apply Succeeds.mapM
    intro t ht
    exact messageBlock_succeeds (fun f hf => h.referable.spells ht hf) (h.numbered t ht)
  have hu : Succeeds (part.unions.mapM fun u => renderUnion (scope.within u.ns) u) := by
    apply Succeeds.mapM
    intro u hu
    have ho : Succeeds (members (scope.within u.ns) 1 u.options) :=
      members_succeeds 1 fun o ho => (h.referable.options u hu o ho).succeeds
    exact ho.bind fun _ _ => .pure _
  have hs : Succeeds (part.services.mapM (serviceBlock scope)) := by
    apply Succeeds.mapM
    intro s hs
    exact serviceBlock_succeeds (h.referable.payloads s hs)
  exact hm.bind fun _ _ => (hu.mapError _).bind fun _ _ => (hs.mapError _).bind fun _ _ => .pure _

theorem Writable.part {m : Model} {table : SymbolTable} (h : Writable m table) (key : String) :
    Writable (m.part key) table where
  referable :=
    { fields := fun t ht => h.referable.fields t (List.mem_filter.mp ht).1
      options := fun u hu => h.referable.options u (List.mem_filter.mp hu).1
      payloads := fun s hs => h.referable.payloads s (List.mem_filter.mp hs).1 }
  numbered := fun t ht => h.numbered t (List.mem_filter.mp ht).1

/-- One file can be written if no two declarations share a name. -/
theorem renderSingle_succeeds {m : Model} {table : SymbolTable} (h : Writable m table)
    (hn : (NameTable.build m .proto).flatConflicts table = []) : Succeeds (renderSingle m table) := by
  unfold renderSingle
  simp only [hn]
  exact (file_succeeds h _ _).bind fun _ _ => .pure _

/-- Files by namespace can be written if no two declarations of one namespace share a name. -/
theorem renderByNamespace_succeeds {m : Model} {table : SymbolTable} (h : Writable m table)
    (hn : (NameTable.build m .proto).namespaceConflicts table = []) :
    Succeeds (renderByNamespace m table) := by
  unfold renderByNamespace
  simp only [hn]
  apply Succeeds.mapM
  rintro ⟨key, part⟩ hp
  obtain ⟨_, rfl⟩ := Model.mem_partition.mp hp
  exact (file_succeeds (h.part key) _ _).bind fun _ _ => .pure _

/-- Conflicts within a namespace come before anything else. -/
theorem renderByNamespace_eq_error {m : Model} {table : SymbolTable} {c : Conflict}
    {cs : List Conflict} (hn : (NameTable.build m .proto).namespaceConflicts table = c :: cs) :
    renderByNamespace m table = .error (.duplicateName c.name c.namespaces) := by
  unfold renderByNamespace
  simp only [hn]

theorem mapWarnings_harmless (scope : Scope) (value : TypeExpr) :
    Harmless (mapWarnings scope value) := by
  induction value with
  | named name o =>
    unfold mapWarnings
    split
    · exact harmless_singleton rfl
    · exact harmless_nil
  | array items o => exact harmless_singleton rfl
  | map key value o ih => exact ih

theorem typeWarnings_harmless (scope : Scope) (type : TypeExpr) :
    Harmless (typeWarnings scope type) := by
  cases type with
  | named name o => exact harmless_nil
  | map key value o => exact mapWarnings_harmless scope value
  | array items o =>
    cases items with
    | named name o => exact harmless_nil
    | array items o => exact harmless_singleton rfl
    | map key value o => exact harmless_singleton rfl

/-- The warnings of a file are no errors. -/
theorem fileWarnings_harmless (scope : Scope) (part : Model) : Harmless (fileWarnings scope part) :=
  harmless_flatMap.mpr fun _ _ => harmless_flatMap.mpr fun _ _ => typeWarnings_harmless _ _

theorem renderSingle_warnings {m : Model} {table : SymbolTable} {r : Rendered}
    (h : renderSingle m table = .ok r) : r.warnings = fileWarnings (.flat m table .proto) m := by
  unfold renderSingle at h
  dsimp only at h
  split at h
  · cases h
  · obtain ⟨f, _, h⟩ := bind_eq_ok h
    cases h
    rfl

/-- The warnings of a file by namespace are those of a part of the model. -/
theorem renderByNamespace_warnings {m : Model} {table : SymbolTable} {rs : List (String × Rendered)}
    (h : renderByNamespace m table = .ok rs) {r : String × Rendered} (hr : r ∈ rs) :
    ∃ key, r.2.warnings = fileWarnings
      { table, names := .build m .proto, qualification := .byNamespace } (m.part key) := by
  unfold renderByNamespace at h
  dsimp only at h
  split at h
  · cases h
  · obtain ⟨⟨key, part⟩, hpart, h⟩ := exists_of_mem_mapM h hr
    obtain ⟨_, rfl⟩ := Model.mem_partition.mp hpart
    obtain ⟨f, _, h⟩ := bind_eq_ok h
    cases h
    exact ⟨key, rfl⟩

theorem emit_harmless {layout : Layout} {filename : String} {m : Model} {table : SymbolTable}
    {e : Emission} (h : emit layout filename m table = .ok e) : Harmless e.diagnostics := by
  cases layout with
  | singleFile =>
    obtain ⟨r, hr, rfl⟩ := map_eq_ok h
    rw [renderSingle_warnings hr]
    exact fileWarnings_harmless _ m
  | perNamespace =>
    obtain ⟨rs, hr, rfl⟩ := map_eq_ok h
    refine harmless_flatMap.mpr fun r hmem => ?_
    obtain ⟨key, hkey⟩ := renderByNamespace_warnings hr hmem
    change Harmless r.2.warnings
    rw [hkey]
    exact fileWarnings_harmless _ (m.part key)

/-- A model that was checked for the layout by namespace has its files exactly if no namespace has
two declarations under one name. The check does not look for these, and they are all that can be in
the way. -/
theorem renderByNamespace_of_ok (m : Model) (targets : List Target) (hp : .proto ∈ targets)
    (h : (validate m { targets, splitProto := true }).ok = true) :
    (Succeeds (renderByNamespace m (.of m)) ↔ (m.writtenPlaces (.build m .proto)).Nodup) ∧
      ∀ e, renderByNamespace m (.of m) = .error e →
        ∃ name ns, e = .duplicateName name [ns] ∧
          1 < (m.writtenPlaces (.build m .proto)).count (name, ns) := by
  have ha := Validation.accepted_of_ok h
  have hw : Writable m (.of m) := ⟨ha.referable, ha.numbered hp⟩
  rw [← namespaceConflicts_of_eq_nil_iff]
  -- Without conflicts nothing else can fail; otherwise the first conflict is the failure.
  cases hc : (NameTable.build m .proto).namespaceConflicts (.of m) with
  | nil =>
    have hs := renderByNamespace_succeeds hw hc
    refine ⟨⟨fun _ => rfl, fun _ => hs⟩, fun e he => ?_⟩
    obtain ⟨files, hf⟩ := hs
    rw [hf] at he
    cases he
  | cons c cs =>
    have he := renderByNamespace_eq_error hc
    refine ⟨⟨fun ⟨files, hf⟩ => ?_, fun hn => nomatch hn⟩, fun e hfail => ?_⟩
    · rw [he] at hf
      cases hf
    · rw [he] at hfail
      cases hfail
      have hm : c ∈ (NameTable.build m .proto).namespaceConflicts (.of m) := by
        rw [hc]
        exact List.mem_cons_self
      obtain ⟨ns, hcn, hcount⟩ := SymbolTable.mem_namespaceConflicts hm
      rw [(writtenPlaces_perm m _).count_eq] at hcount
      exact ⟨c.name, ns, by rw [hcn], hcount⟩

def accounts : Model :=
  -- Two namespaces with one name in common, which refer to each other.
  { enums := [{ name := "Plan", ns := "billing", members := [{ name := "FREE" }] }]
    types :=
      [{ name := "User", ns := "identity"
         fields := [{ name := "id", type := .named "string" false }] },
       { name := "User", ns := "billing"
         fields := [{ name := "plan", type := .named "Plan" false },
           { name := "owners", type := .array (.named "identity.User" false) false }] }]
    unions := [{ name := "Payer", ns := "billing", options := ["User", "identity.User"] }]
    services := [{ name := "Billing", ns := "billing"
                   methods := [{ name := "GetPayer", input := "User", output := "Payer" }] }] }

theorem renderByNamespace_accounts :
    Target.proto ∈ [Target.proto] ∧
      (validate accounts { targets := [.proto], splitProto := true }).ok = true ∧
      Succeeds (renderByNamespace accounts (.of accounts)) := by
  have hp : Target.proto ∈ [Target.proto] := by decide
  have hv : (validate accounts { targets := [.proto], splitProto := true }).ok = true := by
    decide +kernel
  have hn : (accounts.writtenPlaces (.build accounts .proto)).Nodup := by decide +kernel
  exact ⟨hp, hv, (renderByNamespace_of_ok accounts [.proto] hp hv).1.mpr hn⟩

def sharedStatus : Model :=
  -- An enumeration and an object type of one name in one namespace.
  { ns := "shop"
    enums := [{ name := "Status", ns := "shop", members := [{ name := "OPEN" }] }]
    types := [{ name := "Status", ns := "shop" }] }

/-- A good report is not enough for the layout by namespace. -/
theorem renderByNamespace_sharedStatus :
    (validate sharedStatus { targets := [.proto], splitProto := true }).ok = true ∧
      renderByNamespace sharedStatus (.of sharedStatus) =
        .error (.duplicateName "Status" ["shop"]) := by
  decide +kernel

end Triglot.Proto
