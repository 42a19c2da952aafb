import Triglot.Model.Decode
import Triglot.Model.Encode
import Triglot.Proofs.Outcome

/-! Decoders that undo encoders. Scalars and lists are taken one by one; a record is read entry by
entry, and an entry that was left out stands for the value that the record starts with. -/
namespace Triglot.Decoder

variable {α β : Type} {d : Decoder β} {encode : β → Json}

def Inverts (d : Decoder β) (encode : β → Json) : Prop := ∀ b, d (encode b) = .ok b

theorem string_inverts : Inverts string .string := fun _ => rfl

theorem bool_inverts : Inverts bool .bool := fun _ => rfl

theorem real_inverts : Inverts real .real := fun _ => rfl

/-- A whole number within the bounds is read as it is. -/
theorem between_whole {low high n : Int} (hlow : low ≤ n) (hhigh : n ≤ high) (expected : String) :
    between low high expected (.whole n) = .ok n := by
  simp [between, Json.whole, hlow, hhigh]

/-- A word below its size is read as it is. -/
theorem between_nat {n w : Nat} (h : n < w) (expected : String) (ofNat : Nat → β) :
    ((between 0 (w - 1) expected (.nat n)).map fun k => ofNat k.toNat) = .ok (ofNat n) := by
  have hn : between 0 (w - 1) expected (.nat n) = .ok (n : Int) :=
    between_whole (by omega) (by omega) expected
  rw [hn]
  rfl

theorem uint16_inverts : Inverts uint16 fun n => .nat n.toNat := by
  intro n
  have h := between_nat (w := UInt16.size) n.toNat_lt "u16" UInt16.ofNat
  rwa [UInt16.ofNat_toNat] at h

theorem uint32_inverts : Inverts uint32 fun n => .nat n.toNat := by
  intro n
  have h := between_nat (w := UInt32.size) n.toNat_lt "u32" UInt32.ofNat
  rwa [UInt32.ofNat_toNat] at h

theorem uint64_inverts : Inverts uint64 fun n => .nat n.toNat := by
  intro n
  have h := between_nat (w := UInt64.size) n.toNat_lt "u64" UInt64.ofNat
  rwa [UInt64.ofNat_toNat] at h

theorem int32_inverts : Inverts int32 fun n => .whole n.toInt := by
  intro n
  have hn : between Int32.minValue.toInt Int32.maxValue.toInt "i32" (.whole n.toInt) = .ok n.toInt :=
    between_whole n.minValue_le_toInt n.toInt_le _
  unfold int32
  rw [hn]
  simp [Except.map]

/-- Lists are read back if their items are. -/
theorem Inverts.list (h : d.Inverts encode) :
    Inverts (Decoder.list d) fun bs => .array (bs.map encode) := by
  intro bs
  change (bs.map encode).mapM d = .ok bs
  induction bs with
  | nil => rfl
  | cons b bs ih =>
    rw [List.map_cons, List.mapM_cons, h b, ih]
    rfl

/-- A value that a decoder takes is not null, if the decoder refuses null. -/
theorem Inverts.option (h : d.Inverts encode) {e : DecodeError} (hnull : d .null = .error e) (b : β) :
    Decoder.option d (encode b) = .ok (some b) := by
  have hb := h b
  cases hv : encode b with
  | null =>
    rw [hv, hnull] at hb
    cases hb
  | _ =>
    rw [hv] at hb
    simp [Decoder.option, hb, Except.map]

namespace Shape

variable {s : Shape α} {a b c : α} {es fs : List (String × Json)} {key : String}

def Reads (s : Shape α) (a : α) (es : List (String × Json)) (b : α) : Prop :=
  es.foldlM s.putEntry a = .ok b

theorem Reads.nil (s : Shape α) (a : α) : s.Reads a [] a := rfl

/-- Entries are put in one after the other. -/
theorem Reads.append (h : s.Reads a es b) (k : s.Reads b fs c) : s.Reads a (es ++ fs) c := by
  unfold Reads at *
  rw [List.foldlM_append, h]
  exact k

theorem putEntry_of_find {f : Field α} {v : Json}
    (hf : s.fields.find? (·.key == key) = some f) : s.putEntry a (key, v) = f.put v a := by
  simp [putEntry, hf]

section

variable {e : DecodeError}

/-- An entry that is always written. -/
theorem reads_defaulted {set : β → α → α} {v : Json} {x : β}
    (hf : s.fields.find? (·.key == key) = some (defaulted key d set)) (hd : d v = .ok x) :
    s.Reads a [(key, v)] (set x a) := by
  simp [Reads, putEntry_of_find hf, defaulted, hd, Except.map]

/-- An entry that is needed is put in by its field. -/
theorem reads_needed {set : β → α → α} {v : Json} {x : β}
    (hf : s.fields.find? (·.key == key) = some (needed key d set)) (hd : d v = .ok x) :
    s.Reads a [(key, v)] (set x a) := by
  simp [Reads, putEntry_of_find hf, needed, hd, Except.map]

/-- Without its entry, a field keeps the value that it has. -/
theorem reads_optional {set : Option β → α → α}
    (hf : s.fields.find? (·.key == key) = some (defaulted key (.option d) set))
    (hd : d.Inverts encode) (hnull : d .null = .error e) (ha : set none a = a) (o : Option β) :
    s.Reads a (Encode.optional key encode o) (set o a) := by
  cases o with
  | some b => exact reads_defaulted hf (hd.option hnull b)
  | none =>
    rw [ha]
    exact .nil s a

/-- A list that is left out when it is empty reads back as empty. -/
theorem reads_unlessEmpty {set : List β → α → α}
    (hf : s.fields.find? (·.key == key) = some (defaulted key (.list d) set))
    (hd : d.Inverts encode) (ha : set [] a = a) (bs : List β) :
    s.Reads a (Encode.unlessEmpty key encode bs) (set bs a) := by
  cases bs with
  | cons b bs => exact reads_defaulted hf (hd.list (b :: bs))
  | nil =>
    rw [ha]
    exact .nil s a

theorem reads_ifTrue {set : Bool → α → α}
    (hf : s.fields.find? (·.key == key) = some (defaulted key .bool set))
    (ha : set false a = a) (b : Bool) : s.Reads a (Encode.ifTrue key b) (set b a) := by
  cases b with
  | true => exact reads_defaulted hf (bool_inverts true)
  | false =>
    rw [ha]
    exact .nil s a

end

def neededKeys (s : Shape α) : List String :=
  -- The keys without which an object is not taken for a record.
  (s.fields.filter (·.presence == .needed)).map (·.key)

/-- A record is decoded from entries that lead to it and hold all that it needs. -/
theorem decode_object (h : s.Reads s.start es b)
    (hkeys : ∀ k ∈ s.neededKeys, k ∈ es.map Prod.fst) (hb : b = c) :
    s.decode (.object es) = .ok c := by
  have hnone : (s.fields.find? fun f => f.presence == .needed && (es.lookup f.key).isNone) = none := by
    apply List.find?_eq_none.mpr
    intro f hf hmissing
    rw [Bool.and_eq_true] at hmissing
    have hkey : f.key ∈ s.neededKeys :=
      List.mem_map_of_mem (List.mem_filter.mpr ⟨hf, hmissing.1⟩)
    obtain ⟨e, he, hfst⟩ := List.mem_map.mp (hkeys f.key hkey)
    have hl := List.lookup_eq_none_iff.mp (Option.isNone_iff_eq_none.mp hmissing.2) e he
    exact absurd hfst.symm (bne_iff_ne.mp hl)
  unfold Reads at h
  subst hb
  simp [decode, ofEntries, h, hnone, bind, Except.bind, pure, Except.pure]

end Shape

end Triglot.Decoder
