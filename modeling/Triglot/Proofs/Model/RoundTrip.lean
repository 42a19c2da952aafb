import Triglot.Proofs.Json.Decode

/-! Model and settings documents read back as they were. A record leaves out what has its default, and
each such default is what the record starts with. -/
namespace Triglot

open Decoder Decoder.Shape

theorem Target.decode_encode (t : Target) : Target.decode t.encode = .ok t := by
  cases t <;> rfl

section Texts

variable {α : Type} {s : Shape α} {a : α} {key : String}

/-- Texts for some of the targets are read back, and none is made up for the others. -/
theorem PerTarget.decodeTexts_encodeTexts (p : PerTarget (Option String)) :
    PerTarget.decodeTexts (.object p.encodeTexts) = .ok p := by
  obtain ⟨proto, graphql, openapi⟩ := p
  cases proto <;> cases graphql <;> cases openapi <;> rfl

theorem PerTarget.eq_of_encodeTexts_eq_nil {p : PerTarget (Option String)}
    (h : p.encodeTexts = []) : p = .replicate none := by
  have hp := p.decodeTexts_encodeTexts
  rw [h] at hp
  exact (Except.ok.inj hp).symm

/-- An entry without texts is left out, and the default has none. -/
theorem reads_textsEntry {set : PerTarget (Option String) → α → α}
    (hf : s.fields.find? (·.key == key) = some (defaulted key PerTarget.decodeTexts set))
    (ha : set (.replicate none) a = a) (p : PerTarget (Option String)) :
    s.Reads a (p.textsEntry key) (set p a) := by
  unfold PerTarget.textsEntry
  split
  · rename_i hnil
    rw [PerTarget.eq_of_encodeTexts_eq_nil hnil, ha]
    exact .nil s a
  · exact reads_defaulted hf p.decodeTexts_encodeTexts

end Texts

/-- Documentation is read back, the general text and those for single targets. -/
theorem Doc.decode_encode (d : Doc) : Doc.decode d.encode = .ok d := by
  apply decode_object
  · exact reads_optional rfl string_inverts rfl rfl d.general
      |>.append (reads_textsEntry rfl rfl d.specific)
  · exact List.forall_mem_nil _
  · rfl

theorem Notes.decode_encode (n : Notes) : Notes.shape.decode n.encode = .ok n := by
  apply decode_object
  · exact reads_optional rfl string_inverts rfl rfl n.name
      |>.append (reads_unlessEmpty rfl string_inverts rfl n.options)
  · exact List.forall_mem_nil _
  · rfl

theorem Notes.eq_of_isEmpty {n : Notes} (h : n.isEmpty = true) : n = {} := by
  obtain ⟨name, options⟩ := n
  rw [Notes.isEmpty, Bool.and_eq_true, Option.isNone_iff_eq_none, List.isEmpty_iff] at h
  obtain ⟨rfl, rfl⟩ := h
  rfl

/-- Notes that are empty are left out, and the default is empty. -/
theorem reads_notes {α : Type} {s : Shape α} {a : α} {key : String} {set : Notes → α → α}
    (hf : s.fields.find? (·.key == key) = some (defaulted key Notes.shape.decode set))
    (ha : set {} a = a) (n : Notes) : s.Reads a (n.entry key) (set n a) := by
  unfold Notes.entry
  split
  · rename_i hempty
    rw [Notes.eq_of_isEmpty hempty, ha]
    exact .nil s a
  · exact reads_defaulted hf n.decode_encode

/-- Annotations are read back, those of each target in its own place. -/
theorem Annotations.decode_encode (a : Annotations) : Annotations.decode a.encode = .ok a := by
  apply decode_object
  · exact reads_notes rfl rfl a.graphql
      |>.append (reads_notes rfl rfl a.openapi)
      |>.append (reads_notes rfl rfl a.proto)
  · exact List.forall_mem_nil _
  · rfl

theorem Deprecation.decode_encode (d : Deprecation) : Deprecation.decode d.encode = .ok d := by
  apply decode_object
  · exact reads_optional rfl string_inverts rfl rfl d.reason
      |>.append (reads_optional rfl string_inverts rfl rfl d.removed)
      |>.append (reads_optional rfl string_inverts rfl rfl d.since)
  · exact List.forall_mem_nil _
  · rfl

/-- Rules are read back, those that are not given as none. -/
theorem Rules.decode_encode (r : Rules) : Rules.shape.decode r.encode = .ok r := by
  have hword : Inverts uint64 encodeWord := uint64_inverts
  apply decode_object
  · exact reads_unlessEmpty rfl string_inverts rfl r.allowed
      |>.append (reads_optional rfl real_inverts rfl rfl r.exclusiveMax)
      |>.append (reads_optional rfl real_inverts rfl rfl r.exclusiveMin)
      |>.append (reads_optional rfl string_inverts rfl rfl r.format)
      |>.append (reads_optional rfl real_inverts rfl rfl r.max)
      |>.append (reads_optional rfl hword rfl rfl r.maxItems)
      |>.append (reads_optional rfl hword rfl rfl r.maxLength)
      |>.append (reads_optional rfl real_inverts rfl rfl r.min)
      |>.append (reads_optional rfl hword rfl rfl r.minItems)
      |>.append (reads_optional rfl hword rfl rfl r.minLength)
      |>.append (reads_optional rfl real_inverts rfl rfl r.multipleOf)
      |>.append (reads_optional rfl string_inverts rfl rfl r.pattern)
      |>.append (reads_ifTrue rfl rfl r.uniqueItems)
  · exact List.forall_mem_nil _
  · rfl

namespace TypeExpr

variable {entries : List (String × Json)} {o : Bool} {v : Json} {t : TypeExpr} {k : String}

theorem decode_named (ho : decodeOptional entries = .ok o) (hk : decodeKind entries = .ok .named)
    (hn : decodeText "name" entries = .ok k) : decode (.object entries) = .ok (.named k o) := by
  rw [decode, ho, hk]
  simp only [bind, Except.bind, hn]
  rfl

theorem decode_array (ho : decodeOptional entries = .ok o) (hk : decodeKind entries = .ok .array)
    (hi : entries.lookup "items" = some v) (hv : decode v = .ok t) :
    decode (.object entries) = .ok (.array t o) := by
  rw [decode, ho, hk]
  simp only [bind, Except.bind]
  split
  · rename_i hnone
    rw [hi] at hnone
    cases hnone
  · rename_i w hw
    rw [hi] at hw
    cases hw
    rw [hv]
    rfl

/-- A map is read from its kind, its key and its value, in whatever order these stand. -/
theorem decode_map (ho : decodeOptional entries = .ok o) (hk : decodeKind entries = .ok .map)
    (hkey : entries.lookup "key" = some (.string k)) (hl : entries.lookup "value" = some v)
    (hv : decode v = .ok t) : decode (.object entries) = .ok (.map k t o) := by
  rw [decode, ho, hk]
  simp only [bind, Except.bind]
  split
  · rename_i hnone
    rw [hl] at hnone
    cases hnone
  · rename_i w hw
    rw [hl] at hw
    cases hw
    rw [hkey]
    dsimp only
    rw [hv]
    rfl

/-- The mark of an optional type stands among other keys, or is left out. -/
theorem decode_encode (t : TypeExpr) : decode t.encode = .ok t := by
  induction t with
  | named name o =>
    apply decode_named
    · cases o <;> rfl
    · rfl
    · rfl
  | array items o ih =>
    apply decode_array
    · cases o <;> rfl
    · rfl
    · rfl
    · exact ih
  | map key value o ih =>
    apply decode_map
    · cases o <;> rfl
    · rfl
    · rfl
    · cases o <;> rfl
    · exact ih

end TypeExpr

/-- A field is read back with its type, its flags and its notes. -/
theorem Field.decode_encode (f : Field) : Field.decode f.encode = .ok f := by
  apply decode_object
  · exact reads_defaulted rfl f.annotations.decode_encode
      |>.append (reads_optional rfl string_inverts rfl rfl f.default)
      |>.append (reads_optional rfl Deprecation.decode_encode rfl rfl f.deprecated)
      |>.append (reads_optional rfl Doc.decode_encode rfl rfl f.doc)
      |>.append (reads_unlessEmpty rfl Target.decode_encode rfl f.excludeFrom)
      |>.append (reads_needed rfl (string_inverts f.name))
      |>.append (reads_optional rfl uint32_inverts rfl rfl f.number)
      |>.append (reads_unlessEmpty rfl Target.decode_encode rfl f.onlyFor)
      |>.append (reads_defaulted rfl (bool_inverts f.required))
      |>.append (reads_optional rfl string_inverts rfl rfl f.since)
      |>.append (reads_needed rfl f.type.decode_encode)
      |>.append (reads_optional rfl Rules.decode_encode rfl rfl f.rules)
  · change ∀ k ∈ ["name", "type"], _
    simp
  · rfl

theorem ObjectType.decode_encode (t : ObjectType) : ObjectType.decode t.encode = .ok t := by
  have hfields := Inverts.list Field.decode_encode t.fields
  apply decode_object
  · exact reads_defaulted rfl t.annotations.decode_encode
      |>.append (reads_optional rfl Doc.decode_encode rfl rfl t.doc)
      |>.append ((reads_defaulted rfl hfields).append
        ((reads_needed rfl (string_inverts t.name)).append
          (reads_defaulted rfl (string_inverts t.ns))))
  · change ∀ k ∈ ["name"], _
    simp
  · rfl

theorem EnumMember.decode_encode (m : EnumMember) : EnumMember.shape.decode m.encode = .ok m := by
  apply decode_object
  · exact reads_optional rfl Doc.decode_encode rfl rfl m.doc
      |>.append (reads_needed rfl (string_inverts m.name))
      |>.append (reads_optional rfl int32_inverts rfl rfl m.number)
  · change ∀ k ∈ ["name"], _
    simp
  · rfl

theorem EnumType.decode_encode (e : EnumType) : EnumType.decode e.encode = .ok e := by
  have hmembers := Inverts.list EnumMember.decode_encode e.members
  apply decode_object
  · exact reads_defaulted rfl e.annotations.decode_encode
      |>.append (reads_optional rfl Doc.decode_encode rfl rfl e.doc)
      |>.append ((reads_needed rfl (string_inverts e.name)).append
        ((reads_defaulted rfl (string_inverts e.ns)).append (reads_defaulted rfl hmembers)))
  · change ∀ k ∈ ["name"], _
    simp
  · rfl

theorem UnionType.decode_encode (u : UnionType) : UnionType.decode u.encode = .ok u := by
  have hoptions := Inverts.list string_inverts u.options
  apply decode_object
  · exact reads_defaulted rfl u.annotations.decode_encode
      |>.append (reads_optional rfl Doc.decode_encode rfl rfl u.doc)
      |>.append ((reads_needed rfl (string_inverts u.name)).append
        ((reads_defaulted rfl (string_inverts u.ns)).append (reads_needed rfl hoptions)))
  · change ∀ k ∈ ["name", "options"], _
    simp
  · rfl

theorem HttpVerb.decode_name (v : HttpVerb) : variant HttpVerb.table (.string v.name) = .ok v := by
  cases v <;> rfl

theorem RootKind.decode_name (k : RootKind) : variant RootKind.table (.string k.name) = .ok k := by
  cases k <;> rfl

/-- A method is read back with its payloads and its bindings. -/
theorem Method.decode_encode (m : Method) : Method.decode m.encode = .ok m := by
  have hcode : Inverts uint16 encodeCode := uint16_inverts
  apply decode_object
  · exact reads_ifTrue rfl rfl m.clientStreaming
      |>.append (reads_optional rfl Doc.decode_encode rfl rfl m.doc)
      |>.append (reads_unlessEmpty rfl hcode rfl m.errorCodes)
      |>.append (reads_optional rfl HttpVerb.decode_name rfl rfl m.httpVerb)
      |>.append ((reads_needed rfl (string_inverts m.input)).append
        (reads_needed rfl (string_inverts m.name)))
      |>.append (reads_optional rfl RootKind.decode_name rfl rfl m.root)
      |>.append (reads_needed rfl (string_inverts m.output))
      |>.append (reads_optional rfl string_inverts rfl rfl m.path)
      |>.append (reads_ifTrue rfl rfl m.serverStreaming)
      |>.append (reads_unlessEmpty rfl hcode rfl m.successCodes)
  · change ∀ k ∈ ["name", "input", "output"], _
    simp
  · rfl

theorem Service.decode_encode (s : Service) : Service.shape.decode s.encode = .ok s := by
  have hmethods := Inverts.list Method.decode_encode s.methods
  apply decode_object
  · exact reads_optional rfl Doc.decode_encode rfl rfl s.doc
      |>.append ((reads_defaulted rfl hmethods).append
        ((reads_needed rfl (string_inverts s.name)).append
          (reads_defaulted rfl (string_inverts s.ns))))
  · change ∀ k ∈ ["name"], _
    simp
  · rfl

/-- Every model is read back from its document. -/
theorem Model.decode_encode (m : Model) : Model.decode m.encode = .ok m := by
  have henums := Inverts.list EnumType.decode_encode m.enums
  have hservices := Inverts.list Service.decode_encode m.services
  have htypes := Inverts.list ObjectType.decode_encode m.types
  have hunions := Inverts.list UnionType.decode_encode m.unions
  apply decode_object
  · exact (reads_defaulted rfl henums).append
        ((reads_defaulted rfl (string_inverts m.ns)).append
          ((reads_defaulted rfl m.annotations.decode_encode).append
            ((reads_defaulted rfl hservices).append
              ((reads_defaulted rfl htypes).append (reads_defaulted rfl hunions)))))
      |>.append (reads_optional rfl string_inverts rfl rfl m.version)
  · exact List.forall_mem_nil _
  · rfl

theorem DocumentFormat.decode_name (f : DocumentFormat) :
    DocumentFormat.decode (.string f.name) = .ok f := by
  cases f <;> rfl

theorem OutputSettings.decode_encode (o : OutputSettings) :
    OutputSettings.shape.decode o.encode = .ok o := by
  have htargets := Inverts.list Target.decode_encode o.targets
  apply decode_object
  · exact reads_defaulted rfl (string_inverts o.directory)
      |>.append (reads_textsEntry rfl rfl o.filenames)
      |>.append (reads_defaulted rfl htargets)
  · exact List.forall_mem_nil _
  · rfl

/-- Settings are read back from their document. -/
theorem Settings.decode_encode (s : Settings) : Settings.decode s.encode = .ok s := by
  have hopenapi : OpenApiSettings.shape.decode (.object [("format", .string s.openapi.format.name),
      ("version", .string s.openapi.version)]) = .ok s.openapi := by
    apply decode_object
    · exact (reads_defaulted rfl s.openapi.format.decode_name).append
        (reads_defaulted rfl (string_inverts s.openapi.version))
    · exact List.forall_mem_nil _
    · rfl
  have hproto : ProtoSettings.shape.decode
      (.object [("splitByNamespace", .bool s.proto.splitByNamespace)]) = .ok s.proto := by
    apply decode_object
    · exact reads_defaulted rfl (bool_inverts s.proto.splitByNamespace)
    · exact List.forall_mem_nil _
    · rfl
  apply decode_object
  · exact reads_optional rfl string_inverts rfl rfl s.schema
      |>.append ((reads_defaulted rfl hopenapi).append
        ((reads_defaulted rfl s.output.decode_encode).append (reads_defaulted rfl hproto)))
  · exact List.forall_mem_nil _
  · rfl

/-- Every model and all settings are read back from the document that they are written as. -/
theorem documents_read_back :
    (∀ m : Model, Model.decode m.encode = .ok m) ∧
      ∀ s : Settings, Settings.decode s.encode = .ok s :=
  ⟨Model.decode_encode, Settings.decode_encode⟩

end Triglot
