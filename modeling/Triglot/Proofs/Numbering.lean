import Triglot.Numbering

/-! Numbers of fields and of enumeration values: which items have one, what a collision depends on, and
how the numbers lie to each other. Machine numbers are compared with a count that has no end, which
they follow as long as no item takes the last number by itself. -/
namespace Triglot

theorem mem_of_mem_numberFrom {next : UInt32} {fs : List Field} {p : Field × UInt32}
    (h : p ∈ numberFrom next fs) : p.1 ∈ fs := by
  induction fs generalizing next with
  | nil => cases h
  | cons f fs ih =>
    unfold numberFrom at h
    split at h
    all_goals
      rcases List.mem_cons.mp h with rfl | ht
      · exact List.mem_cons_self
      · exact List.mem_cons_of_mem f (ih ht)

/-- Only fields of the type are numbered. -/
theorem mem_fields_of_mem_numberFields {t : ObjectType} {target : Target} {p : Field × UInt32}
    (h : p ∈ numberFields t target) : p.1 ∈ t.fields :=
  (List.mem_filter.mp (mem_of_mem_numberFrom h)).1

theorem collisionAfter_eq_none_of_name (name name' : String) (seen rest : List (Field × UInt32))
    (h : collisionAfter name seen rest = none) : collisionAfter name' seen rest = none := by
  induction rest generalizing seen with
  | nil => rfl
  | cons p rest ih =>
    rw [collisionAfter] at h ⊢
    cases hf : seen.find? (·.2 == p.2) with
    | some first =>
      rw [hf] at h
      cases h
    | none =>
      rw [hf] at h
      exact ih _ h

/-- Whether numbers collide does not depend on the name that the collision is reported under. -/
theorem collision?_eq_none_of_name {name name' : String} {numbered : List (Field × UInt32)}
    (h : collision? name numbered = none) : collision? name' numbered = none :=
  collisionAfter_eq_none_of_name name name' [] numbered h

section Count

variable {α : Type} (declared : α → Option Int)

/-- Numbers without an end: a declared number is kept, and any other item takes the next number above
all that came before. -/
def countFrom (next : Int) : List α → List (α × Int)
  | [] => []
  | a :: as =>
    match declared a with
    | some n => (a, n) :: countFrom (max next (n + 1)) as
    | none => (a, next) :: countFrom (next + 1) as

variable {declared}

/-- A number was declared, or it is at least the first one to be given. -/
theorem countFrom_cases {next : Int} {as : List α} {p : α × Int}
    (h : p ∈ countFrom declared next as) :
    declared p.1 = some p.2 ∨ declared p.1 = none ∧ next ≤ p.2 := by
  induction as generalizing next with
  | nil => cases h
  | cons a as ih =>
    unfold countFrom at h
    cases ha : declared a with
    | some n =>
      rw [ha] at h
      rcases List.mem_cons.mp h with rfl | ht
      · exact .inl ha
      · exact (ih ht).imp_right fun ⟨hn, hle⟩ => ⟨hn, by omega⟩
    | none =>
      rw [ha] at h
      rcases List.mem_cons.mp h with rfl | ht
      · exact .inr ⟨ha, Int.le_refl next⟩
      · exact (ih ht).imp_right fun ⟨hn, hle⟩ => ⟨hn, by omega⟩

/-- An item without a number of its own gets one above all that came before. A declared number can be
anywhere. -/
theorem countFrom_above (declared : α → Option Int) (next : Int) (as : List α) :
    (countFrom declared next as).Pairwise fun p q => declared q.1 = none → p.2 < q.2 := by
  -- The next number is above that of the head, and whatever the tail counts starts there.
  have hrest {a : α} {n next' : Int} {as : List α} (hlt : n < next')
      (ih : (countFrom declared next' as).Pairwise fun p q => declared q.1 = none → p.2 < q.2) :
      ((a, n) :: countFrom declared next' as).Pairwise
        fun p q => declared q.1 = none → p.2 < q.2 := by
    refine List.pairwise_cons.mpr ⟨fun q hq hnone => ?_, ih⟩
    rcases countFrom_cases hq with hsome | ⟨_, hle⟩
    · rw [hsome] at hnone
      cases hnone
    · exact Int.lt_of_lt_of_le hlt hle
  induction as generalizing next with
  | nil => exact List.Pairwise.nil
  | cons a as ih =>
    unfold countFrom
    cases declared a with
    | some n => exact hrest (by omega) (ih _)
    | none => exact hrest (by omega) (ih _)

end Count

theorem toInt_memberNumberAfter (n : Int32) :
    (memberNumberAfter n).toInt = min (n.toInt + 1) Int32.maxValue.toInt := by
  have hlt := n.toInt_lt
  have hle := n.le_toInt
  have hmax : Int32.maxValue.toInt = 2147483647 := rfl
  unfold memberNumberAfter
  split
  · rename_i hn
    rw [hn]
    rfl
  · rename_i hn
    have hne : n.toInt ≠ 2147483647 := fun he => hn (Int32.toInt_inj.mp he)
    have hone : (1 : Int32).toInt = 1 := rfl
    rw [Int32.toInt_add, hone, Int.bmod_eq_of_le (by omega) (by omega)]
    omega

theorem toInt_max (a b : Int32) : (max a b).toInt = max a.toInt b.toInt := by
  change (if a ≤ b then b else a).toInt = _
  split
  · rename_i h
    have hle := Int32.le_iff_toInt_le.mp h
    omega
  · rename_i h
    have hlt : ¬a.toInt ≤ b.toInt := fun hle => h (Int32.le_iff_toInt_le.mpr hle)
    omega

/-- No value takes the last number without declaring it, so that the next number never leaves the
range. -/
def EndsBelow (numbered : List (EnumMember × Int32)) : Prop :=
  ∀ p ∈ numbered, p.1.number = none → p.2 ≠ Int32.maxValue

/-- Within their range, the numbers of values follow the count without end. At the end of the range
the next number stays behind the count, and nothing takes it. -/
theorem numberMembersFrom_eq_countFrom {next : Int32} {count : Int} {ms : List EnumMember}
    (hc : next.toInt = min count Int32.maxValue.toInt)
    (h : EndsBelow (numberMembersFrom next ms)) :
    (numberMembersFrom next ms).map (fun p => (p.1, p.2.toInt)) =
      countFrom (fun m => m.number.map Int32.toInt) count ms := by
  induction ms generalizing next count with
  | nil => rfl
  | cons m ms ih =>
    unfold numberMembersFrom at h ⊢
    unfold countFrom
    cases hm : m.number with
    | some n =>
      rw [hm] at h
      have hnext : (max next (memberNumberAfter n)).toInt =
          min (max count (n.toInt + 1)) Int32.maxValue.toInt := by
        rw [toInt_max, toInt_memberNumberAfter, hc]
        omega
      rw [List.map_cons, ih hnext fun p hp => h p (List.mem_cons_of_mem _ hp)]
      rfl
    | none =>
      rw [hm] at h
      have hne : next ≠ Int32.maxValue := h (m, next) List.mem_cons_self hm
      have hlt : next.toInt < Int32.maxValue.toInt := by
        have hle := next.toInt_le
        have hne' : next.toInt ≠ Int32.maxValue.toInt := fun he => hne (Int32.toInt_inj.mp he)
        omega
      have hcount : next.toInt = count := by omega
      have hnext : (next + 1).toInt = min (count + 1) Int32.maxValue.toInt := by
        have hafter : next + 1 = memberNumberAfter next := (if_neg hne).symm
        rw [hafter, toInt_memberNumberAfter, hcount]
      rw [List.map_cons, ih hnext fun p hp => h p (List.mem_cons_of_mem _ hp), hcount]
      rfl

section Members

variable {e : EnumType}

/-- Where the range is not left, the numbers of an enumeration are those of the count. -/
theorem numberMembers_eq_countFrom (h : EndsBelow (numberMembers e)) :
    (numberMembers e).map (fun p => (p.1, p.2.toInt)) =
      countFrom (fun m => m.number.map Int32.toInt) 1 e.members :=
  numberMembersFrom_eq_countFrom rfl h

theorem numberMembers_cases (h : EndsBelow (numberMembers e)) {p : EnumMember × Int32}
    (hp : p ∈ numberMembers e) : p.1.number = some p.2 ∨ p.1.number = none ∧ 0 < p.2.toInt := by
  have hmem : (p.1, p.2.toInt) ∈ countFrom (fun m => m.number.map Int32.toInt) 1 e.members := by
    rw [← numberMembers_eq_countFrom h]
    exact List.mem_map_of_mem hp
  rcases countFrom_cases hmem with hsome | ⟨hnone, hle⟩
  · obtain ⟨n, hn, he⟩ := Option.map_eq_some_iff.mp hsome
    rw [hn, Int32.toInt_inj.mp he]
    exact .inl rfl
  · exact .inr ⟨Option.map_eq_none_iff.mp hnone, hle⟩

/-- A number that is given is none of those before it. -/
theorem numberMembers_above (h : EndsBelow (numberMembers e)) :
    (numberMembers e).Pairwise fun p q => q.1.number = none → p.2 ≠ q.2 := by
  have hcount := countFrom_above (fun m => m.number.map Int32.toInt) 1 e.members
  rw [← numberMembers_eq_countFrom h, List.pairwise_map] at hcount
  refine hcount.imp fun hlt hnone he => ?_
  have hself := hlt (Option.map_eq_none_iff.mpr hnone)
  rw [he] at hself
  exact absurd hself (Int.lt_irrefl _)

def memberCounterAfter (next : Int32) (m : EnumMember) : Int32 :=
  match m.number with
  | some n => max next (memberNumberAfter n)
  | none => next + 1

theorem numberMembersFrom_cons (next : Int32) (m : EnumMember) (ms : List EnumMember) :
    numberMembersFrom next (m :: ms) =
      (m, m.number.getD next) :: numberMembersFrom (memberCounterAfter next m) ms := by
  rw [numberMembersFrom, memberCounterAfter]
  cases m.number <;> rfl

theorem numberMembersFrom_members (next : Int32) (ms : List EnumMember) :
    (numberMembersFrom next ms).map Prod.fst = ms := by
  induction ms generalizing next with
  | nil => rfl
  | cons m ms ih => rw [numberMembersFrom_cons, List.map_cons, ih]

theorem numberMembersFrom_append (next : Int32) (ms new : List EnumMember) :
    numberMembersFrom next (ms ++ new) =
      numberMembersFrom next ms ++ numberMembersFrom (ms.foldl memberCounterAfter next) new := by
  induction ms generalizing next with
  | nil => rfl
  | cons m ms ih =>
    rw [List.cons_append, numberMembersFrom_cons, numberMembersFrom_cons, ih, List.foldl_cons,
      List.cons_append]

end Members

end Triglot
