import EntityGraph.Host.Class

/-!
# What classes are made of

The classes behind a class, its members and what it offers all come from declarations.
-/

namespace EntityGraph

namespace Classes

theorem mem_of_mem_lineage {cs : Classes} {name : String} {c : ClassDecl}
    (h : c ∈ cs.lineage name) : c ∈ cs := by
  obtain ⟨n, -, found⟩ := List.mem_filterMap.1 h
  exact List.mem_of_find?_eq_some found

theorem mem_putMember {found : List MemberDecl} {m n : MemberDecl} (h : m ∈ putMember found n) :
    m ∈ found ∨ m = n := by
  unfold putMember at h
  split at h
  · obtain ⟨m', hm', rfl⟩ := List.mem_map.1 h
    split
    · exact .inr rfl
    · exact .inl hm'
  · simpa using h

theorem mem_foldl_putMember {ms found : List MemberDecl} {m : MemberDecl}
    (h : m ∈ ms.foldl putMember found) : m ∈ found ∨ m ∈ ms := by
  induction ms generalizing found with
  | nil => exact .inl h
  | cons n ms ih =>
    rcases ih h with h | h
    · exact (mem_putMember h).imp_right fun same => List.mem_cons.2 (.inl same)
    · exact .inr (List.mem_cons_of_mem n h)

end Classes

/-! ## Declared values -/

namespace ClassDecl

/-- Whether the values that a class declares are of a certain sort: the defaults of its members, and
what its properties and its methods always give. None of these reads an attribute with a name that is
taken. -/
structure Declares (taken : List String) (P : Value → Prop) (c : ClassDecl) : Prop where
  members : ∀ m ∈ c.members, ∀ v, m.default = some v → P v
  properties : ∀ p ∈ c.properties, (∀ v, p.reply = some (.value v) → P v)
    ∧ ∀ n, p.reply = some (.attribute n) → n ∉ taken
  methods : ∀ m ∈ c.methods, (∀ v, m.2 = .value v → P v) ∧ ∀ n, m.2 = .attribute n → n ∉ taken

end ClassDecl

namespace Classes

/-- Whether the values in what a class offers are of a certain sort. -/
def Attribute.Offers (taken : List String) (P : Value → Prop) : Attribute → Prop
  | property p => (∀ v, p.reply = some (.value v) → P v)
    ∧ ∀ n, p.reply = some (.attribute n) → n ∉ taken
  | method r => (∀ v, r = .value v → P v) ∧ ∀ n, r = .attribute n → n ∉ taken
  | default v => P v
  | field => True

variable {cs : Classes} {taken : List String} {P : Value → Prop}

theorem offers_of_declares {c : ClassDecl} (h : c.Declares taken P) {name : String} {a : Attribute}
    (offered : c.attribute? name = some a) : a.Offers taken P := by
  unfold ClassDecl.attribute? at offered
  split at offered
  · next p found =>
    cases offered
    exact h.properties p (List.mem_of_find?_eq_some found)
  · split at offered
    · next r found =>
      cases offered
      obtain ⟨before, after, split, -⟩ := List.lookup_eq_some_iff.1 found
      exact h.methods (name, r) (by simp [split])
    · split at offered
      · split at offered
        · cases offered
          trivial
        · cases offered
      · obtain ⟨v, found, rfl⟩ := Option.map_eq_some_iff.1 offered
        obtain ⟨m, found, is⟩ := Option.bind_eq_some_iff.1 found
        exact h.members m (List.mem_of_find?_eq_some found) v is

variable (declares : ∀ c ∈ cs, c.Declares taken P)

include declares

theorem offers_of_attribute {name attr : String} {a : Attribute}
    (offered : cs.attribute? name attr = some a) : a.Offers taken P := by
  obtain ⟨c, hc, offered⟩ := List.exists_of_findSome?_eq_some offered
  exact offers_of_declares (declares c (mem_of_mem_lineage hc)) offered

theorem default_of_recordFields {depth : Nat} {name : String} {m : MemberDecl}
    (hm : m ∈ cs.recordFields depth name) {v : Value} (is : m.default = some v) : P v := by
  induction depth generalizing name m with
  | zero => cases hm
  | succ depth ih =>
    unfold recordFields at hm
    dsimp only at hm
    split at hm
    · cases hm
    · next c found =>
      split at hm
      · rcases mem_foldl_putMember hm with hm | hm
        · cases hm
        · rcases List.mem_append.1 hm with hm | hm
          · obtain ⟨n, -, hm⟩ := List.mem_flatMap.1 hm
            exact ih hm is
          · obtain ⟨m', hm', rfl⟩ := List.mem_map.1 hm
            have own := (declares c (List.mem_of_find?_eq_some found)).members m' hm'
            unfold withDefault at is
            split at is
            · next u _ offered =>
              cases is
              exact offers_of_attribute declares offered
            · exact own v is
      · cases near : List.find? (fun n => (cs.find? n).any (·.kind == .record))
            ((cs.orderOf (cs.length + 1) name).drop 1) with
        | none =>
          rw [near] at hm
          cases hm
        | some n =>
          rw [near] at hm
          exact ih hm is

/-- The fields of a class have declared values as their defaults. -/
theorem default_of_fields {name : String} {m : MemberDecl} (hm : m ∈ cs.fields name) {v : Value}
    (is : m.default = some v) : P v := by
  unfold fields at hm
  split at hm
  · exact default_of_recordFields declares (List.mem_filter.1 hm).1 is
  · cases found : (cs.lineage name).find? (·.kind == .namedTuple) with
    | none =>
      rw [found] at hm
      cases hm
    | some c =>
      rw [found] at hm
      exact (declares c (mem_of_mem_lineage (List.mem_of_find?_eq_some found))).members m hm v is
  · cases hm
  · cases hm

end Classes

end EntityGraph
