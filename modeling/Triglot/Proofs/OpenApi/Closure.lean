import Triglot.Proofs.Entries
import Triglot.Proofs.OpenApi.Schema
import Triglot.Proofs.OpenApi.Success
import Triglot.Proofs.Symbol.Conflict

/-! An OpenAPI document has one component for each declaration, and every pointer in it leads to one
of these. -/
namespace Triglot.OpenApi

variable {known : String → Prop} {scope : Scope}

theorem component_content {schema : Json} (h : Closed known schema) :
    Component known (content schema) := by
  have hs : Component known (.object [("schema", schema)]) := .object_of_plain (by simp [h])
  exact .object_of_plain (by simp [hs.closed])

theorem component_response {r : Response} (h : Closed known r.schema) :
    Component known r.encode :=
  .object_of_plain (by simp [(component_content h).closed])

theorem component_errorSchema : Component known errorSchema := by
  have htext (d : String) : Component known
      (.ofEntries [("type", .string "string"), ("description", .string d)]) := .of_plain (by simp)
  have hprops : Closed known (.ofEntries
      [("error", .ofEntries [("type", .string "string"), ("description", .string "Error message")]),
       ("code", .ofEntries [("type", .string "string"), ("description", .string "Error code")])]) :=
    closed_ofEntries_of_components (by simp [htext])
  exact .of_plain (by simp [hprops])

theorem closed_of_mem_responses {k : Method} {output : String} (h : known output)
    {r : String × Response} (hr : r ∈ responses k output) : Closed known r.2.schema := by
  have href : Closed known (schemaRef output) := (Component.schemaRef h).closed
  refine List.foldlRecOn _ _
    (motive := fun rs : List (String × Response) => ∀ r ∈ rs, Closed known r.2.schema)
    (by simp [href]) (fun rs hrs x hx r hr => ?_) r hr
  rcases mem_of_mem_putEntry hr with rfl | hr
  · rcases List.mem_append.mp hx with hx | hx <;> obtain ⟨c, _, rfl⟩ := List.mem_map.mp hx
    · exact href
    · exact component_errorSchema.closed
  · exact hrs r hr

/-- The bodies and responses of an operation refer to known components. -/
theorem closed_operation (hk : scope.WritesKnown known) {k : Method} {path : String}
    {o : Operation} (h : operation scope k path = .ok o) : Closed known o.encode := by
  obtain ⟨input, hi, h⟩ := bind_eq_ok h
  obtain ⟨output, ho, h⟩ := bind_eq_ok h
  cases h
  have hparameter (name : String) : Closed known (parameterJson name) := by
    have hs : Component known (.object [("type", .string "string")]) := .object_of_plain (by simp)
    exact (Component.object_of_plain (by simp [hs.closed])).closed
  have hresponses : Closed known (.object
      ((responses k output.text).map fun r => (r.1, r.2.encode))) := by
    apply closed_object_of_components
    rw [List.forall_mem_map]
    exact fun r hr => component_response (closed_of_mem_responses (hk.reference ho) hr)
  have hbody : Closed known (requestJson (schemaRef input.text)) := by
    have hc := component_content (Component.schemaRef (hk.reference hi)).closed
    exact (Component.object_of_plain (by simp [hc.closed])).closed
  refine (Component.object_of_plain ?_).closed
  simp only [List.forall_mem_append]
  refine ⟨⟨⟨⟨by simp, plain_description k.doc⟩, ?_⟩, plain_optionalEntry (by simp) ?_⟩,
    by simp [hresponses]⟩
  · split <;> simp [hparameter]
  · intro schema hs
    split at hs
    · cases hs
      exact hbody
    · cases hs

def ClosedItem (known : String → Prop) (p : PathItem) : Prop :=
  ∀ verb o, p.slot verb = some o → Closed known o.encode

theorem ClosedItem.component {p : PathItem} (h : ClosedItem known p) :
    Component known p.encode := by
  apply Component.object_of_plain
  intro e he
  obtain ⟨verb, _, he⟩ := List.mem_flatMap.mp he
  have hverb : verb.name ∉ pointerKeys := by cases verb <;> simp [HttpVerb.name]
  exact plain_optionalEntry hverb (h verb) e he

theorem slot_fill_self (p : PathItem) (verb : HttpVerb) (o : Operation) :
    (p.fill verb o).slot verb = some o := by
  cases verb <;> rfl

theorem slot_fill_of_ne (p : PathItem) {verb other : HttpVerb} (h : other ≠ verb) (o : Operation) :
    (p.fill verb o).slot other = p.slot other := by
  cases verb <;> cases other <;> simp_all [PathItem.fill, PathItem.slot]

theorem ClosedItem.fill {p : PathItem} (h : ClosedItem known p) {verb : HttpVerb} {o : Operation}
    (ho : Closed known o.encode) : ClosedItem known (p.fill verb o) := by
  intro other q hq
  by_cases hv : other = verb
  · subst hv
    rw [slot_fill_self] at hq
    cases hq
    exact ho
  · rw [slot_fill_of_ne p hv] at hq
    exact h other q hq

/-- Adding a closed operation keeps the paths closed. -/
theorem closedItem_add {t : PathTable} (h : ∀ p ∈ t.items, ClosedItem known p.2) {r : Route}
    {o : Operation} (ho : Closed known o.encode) :
    ∀ p ∈ (t.add r o).items, ClosedItem known p.2 := by
  -- The operation joins those that its path has already, if it has any.
  have hitem : ClosedItem known ((t.items.lookup r.path).getD {}) := by
    cases hl : t.items.lookup r.path with
    | none =>
      intro verb q hq
      cases verb <;> cases hq
    | some item =>
      obtain ⟨before, after, he, _⟩ := List.lookup_eq_some_iff.mp hl
      exact h (r.path, item) (by simp [he])
  unfold PathTable.add
  dsimp only
  split
  · exact h
  · intro p hp
    rcases mem_of_mem_putEntry hp with rfl | hp
    · exact hitem.fill ho
    · exact h p hp

/-- Whatever paths are built, their operations refer to known components. -/
theorem closedItem_of_buildPaths (hk : scope.WritesKnown known) {services : List Service}
    {t : PathTable} (h : buildPaths scope services = .ok t) :
    ∀ p ∈ t.items, ClosedItem known p.2 := by
  obtain ⟨operations, hops, h⟩ := bind_eq_ok h
  cases h
  have hclosed : ∀ p ∈ operations, Closed known p.2.encode := by
    intro p hp
    obtain ⟨r, _, hr⟩ := exists_of_mem_mapM hops hp
    obtain ⟨o, ho, hr⟩ := bind_eq_ok hr
    cases hr
    exact closed_operation (hk.within r.ns) ho
  exact List.foldlRecOn operations _
    (motive := fun t : PathTable => ∀ p ∈ t.items, ClosedItem known p.2)
    (by simp) fun t ht p hp => closedItem_add ht (hclosed p hp)

/-- The components of a model are those of its declarations, one after another, if their names are
distinct. -/
theorem buildSchemas_eq_ok {m : Model} {schemas : List (String × Json)}
    (hn : (m.writtenNames scope.names).Nodup) (h : buildSchemas scope m = .ok schemas) :
    ∃ types unions,
      List.Forall₂ (fun t e => e.1 = scope.names.declaredName t.ns t.name ∧
        objectSchema scope t = .ok e.2) m.types types ∧
      List.Forall₂ (fun u e => e.1 = scope.names.declaredName u.ns u.name ∧
        renderUnion (scope.within u.ns) u = .ok e.2) m.unions unions ∧
      schemas = (m.enums.map fun e => (scope.names.declaredName e.ns e.name, enumSchema e)) ++
        types ++ unions ∧
      schemas.map Prod.fst = m.writtenNames scope.names := by
  obtain ⟨types, ht, h⟩ := bind_eq_ok h
  obtain ⟨unions, hu, h⟩ := bind_eq_ok h
  cases h
  have ht : List.Forall₂ (fun t e => e.1 = scope.names.declaredName t.ns t.name ∧
      objectSchema scope t = .ok e.2) m.types types := by
    refine (mapM_eq_ok ht).imp fun t e he => ?_
    obtain ⟨v, hv, he⟩ := bind_eq_ok he
    cases he
    exact ⟨rfl, hv⟩
  have hu : List.Forall₂ (fun u e => e.1 = scope.names.declaredName u.ns u.name ∧
      renderUnion (scope.within u.ns) u = .ok e.2) m.unions unions := by
    refine (mapM_eq_ok hu).imp fun u e he => ?_
    obtain ⟨v, hv, he⟩ := bind_eq_ok he
    cases he
    exact ⟨rfl, hv⟩
  have hkeys : ((m.enums.map fun e => (scope.names.declaredName e.ns e.name, enumSchema e)) ++
      types ++ unions).map Prod.fst = m.writtenNames scope.names := by
    have hmap {α : Type} {as : List α} {es : List (String × Json)} (g : α → String)
        (h : List.Forall₂ (fun a e => e.1 = g a) as es) : es.map Prod.fst = as.map g := by
      induction h with
      | nil => rfl
      | cons ha _ ih => rw [List.map_cons, List.map_cons, ha, ih]
    rw [List.map_append, List.map_append, List.map_map,
      hmap (fun t => scope.names.declaredName t.ns t.name) (ht.imp fun _ _ h => h.1),
      hmap (fun u => scope.names.declaredName u.ns u.name) (hu.imp fun _ _ h => h.1)]
    rfl
  -- With distinct keys no entry replaces an earlier one.
  have hfold := foldl_putEntry_of_nodup (hkeys ▸ hn)
  refine ⟨types, unions, ht, hu, hfold, ?_⟩
  rw [← hkeys]
  exact congrArg _ hfold

/-- Each component is the schema of a declaration. -/
theorem component_of_buildSchemas (hk : scope.WritesKnown known) {m : Model}
    (hm : m.WithoutExtensions) {schemas : List (String × Json)}
    (hn : (m.writtenNames scope.names).Nodup) (h : buildSchemas scope m = .ok schemas) :
    ∀ e ∈ schemas, Component known e.2 := by
  obtain ⟨types, unions, ht, hu, rfl, _⟩ := buildSchemas_eq_ok hn h
  intro e he
  rcases List.mem_append.mp he with he | he
  · rcases List.mem_append.mp he with he | he
    · obtain ⟨x, _, rfl⟩ := List.mem_map.mp he
      exact component_enumSchema x
    · obtain ⟨t, htm, _, hv⟩ := exists_of_mem_forall₂ ht.flip he
      exact component_objectSchema hk (hm.types t htm) (hm.fields t htm) hv
  · obtain ⟨u, hum, _, hv⟩ := exists_of_mem_forall₂ hu.flip he
    exact component_renderUnion (hk.within u.ns) (hm.unions u hum) hv

/-- A document is closed if its paths and its components are. -/
theorem closed_document {d : Document} (hp : ∀ p ∈ d.paths, ClosedItem known p.2)
    (hs : ∀ e ∈ d.schemas, Component known e.2) : Closed known d.encode := by
  have hinfo : Component known d.info.encode := by
    apply Component.object_of_plain
    simp only [List.forall_mem_append]
    exact ⟨by simp, plain_optionalEntry (by simp) fun s _ => closed_string s⟩
  have hpaths : Closed known (.object (d.paths.map fun p => (p.1, p.2.encode))) := by
    apply closed_object_of_components
    rw [List.forall_mem_map]
    exact fun p hmem => (hp p hmem).component
  have hcomponents : Component known (.object [("schemas", .object d.schemas)]) :=
    .object_of_plain (by simp [closed_object_of_components hs])
  exact (Component.object_of_plain (by simp [hinfo.closed, hpaths, hcomponents.closed])).closed

/-- A document has one component for each declaration, with its schema, in the order of the model;
and whatever a document points to is one of its components. -/
theorem exportModel_closed (version : String) (m : Model) (e : Exported)
    (hm : m.WithoutExtensions) (h : exportModel version m (.of m) = .ok e) :
    let names := NameTable.build m .openapi
    let scope := Scope.flat m (.of m) .openapi
    e.document.schemas.map Prod.fst = m.writtenNames names ∧
      (e.document.schemas.map Prod.fst).Nodup ∧
      (∀ x ∈ m.enums, (names.declaredName x.ns x.name, enumSchema x) ∈ e.document.schemas) ∧
      (∀ t ∈ m.types, ∃ v, objectSchema scope t = .ok v ∧
        (names.declaredName t.ns t.name, v) ∈ e.document.schemas) ∧
      (∀ u ∈ m.unions, ∃ v, renderUnion (scope.within u.ns) u = .ok v ∧
        (names.declaredName u.ns u.name, v) ∈ e.document.schemas) ∧
      ∀ p ∈ pointers e.document.encode,
        ∃ n ∈ e.document.schemas.map Prod.fst, p = .string (schemaPath n) := by
  intro names scope
  obtain ⟨hconflicts, paths, schemas, hp, hs, hdoc, _⟩ := exportModel_eq_ok h
  have hn : (m.writtenNames names).Nodup := (flatConflicts_of_eq_nil_iff m names).mp hconflicts
  have hk := (Scope.flatOver_flat m .openapi).writesKnown
  obtain ⟨types, unions, ht, hu, hlist, hkeys⟩ := buildSchemas_eq_ok hn hs
  have hclosed : Closed (· ∈ m.writtenNames names) e.document.encode := by
    rw [hdoc]
    exact closed_document (closedItem_of_buildPaths hk hp) (component_of_buildSchemas hk hm hn hs)
  have hschemas : e.document.schemas = schemas := by rw [hdoc]
  rw [hschemas]
  refine ⟨hkeys, by rwa [hkeys], fun x hx => ?_, fun t htm => ?_, fun u hum => ?_, ?_⟩
  · rw [hlist]
    exact List.mem_append_left _ (List.mem_append_left _ (List.mem_map.mpr ⟨x, hx, rfl⟩))
  · obtain ⟨⟨name, v⟩, hmem, hname, hv⟩ := exists_of_mem_forall₂ ht htm
    cases hname
    refine ⟨v, hv, ?_⟩
    rw [hlist]
    exact List.mem_append_left _ (List.mem_append_right _ hmem)
  · obtain ⟨⟨name, v⟩, hmem, hname, hv⟩ := exists_of_mem_forall₂ hu hum
    cases hname
    refine ⟨v, hv, ?_⟩
    rw [hlist]
    exact List.mem_append_right _ hmem
  · rw [hkeys]
    exact hclosed

def catalog : Model :=
  -- Renamed declarations that are mentioned in fields, lists, maps, unions and bodies.
  { ns := "shop"
    enums := [{ name := "Status", ns := "shop", members := [{ name := "OPEN" }]
                annotations := { Annotations.none with openapi := { name := some "State" } } }]
    types :=
      [{ name := "Item", ns := "shop"
         fields :=
          [{ name := "$ref", type := .named "Status" false },
           { name := "discriminator"
             type := .map "string" (.array (.named "Item" false) false) false }]
         annotations := { Annotations.none with openapi := { name := some "$ref" } } },
       { name := "Box", ns := "depot"
         fields := [{ name := "items", type := .array (.named "Item" false) false }] }]
    unions := [{ name := "Thing", ns := "depot", options := ["Item", "Box"] }]
    services := [{ name := "Depot", ns := "depot"
                   methods := [{ name := "PutThing", input := "Box", output := "Thing"
                                 errorCodes := [404] }] }] }

theorem exportModel_catalog :
    catalog.WithoutExtensions ∧ ∃ e, exportModel "3.1.0" catalog (.of catalog) = .ok e ∧
      e.document.schemas.map Prod.fst = ["State", "$ref", "Box", "Thing"] ∧
      ∀ p ∈ pointers e.document.encode,
        ∃ n ∈ e.document.schemas.map Prod.fst, p = .string (schemaPath n) := by
  have hm : catalog.WithoutExtensions := ⟨by decide, by decide, by decide⟩
  have hok : (exportModel "3.1.0" catalog (.of catalog)).isOk = true := by decide +kernel
  refine ⟨hm, ?_⟩
  have hnames : catalog.writtenNames (.build catalog .openapi) =
      ["State", "$ref", "Box", "Thing"] := by decide +kernel
  cases h : exportModel "3.1.0" catalog (.of catalog) with
  | error err =>
    rw [h] at hok
    cases hok
  | ok e =>
    obtain ⟨hkeys, _, _, _, _, hclosed⟩ := exportModel_closed "3.1.0" catalog e hm h
    exact ⟨e, rfl, hkeys.trans hnames, hclosed⟩

end Triglot.OpenApi
