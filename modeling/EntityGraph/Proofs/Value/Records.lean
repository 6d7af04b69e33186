import EntityGraph.Proofs.Run
import EntityGraph.Value.Construct
import Mathlib.Data.List.Nodup

/-!
# Making records

A record class makes a record from pairs of names and values. If the names are different, and are
names of its members, the record has exactly these entries, in this order.
-/

namespace EntityGraph

namespace Value

theorem same_str (w : World) (a b : String) : same w (.str a) (.str b) = .ok (a == b) := rfl

theorem isKey_str (w : World) (k : String) : isKey w (.str k) = true := rfl

/-- A text is looked for among texts. -/
theorem entry?_entriesOf (w : World) (es : List (String × Value)) (k : String) :
    entry? w (entriesOf es) (.str k) = .ok (es.find? (·.1 == k) |>.map (·.2)) := by
  unfold entry?
  rw [if_pos (isKey_str w k)]
  induction es with
  | nil => rfl
  | cons e es ih =>
    rw [entriesOf, List.map_cons, findEntry, same_str]
    cases same : e.1 == k with
    | true =>
      have first : (e :: es).find? (·.1 == k) = some e := List.find?_cons_of_pos same
      rw [first]
      rfl
    | false =>
      have later : (e :: es).find? (·.1 == k) = es.find? (·.1 == k) :=
        List.find?_cons_of_neg (by simp [same])
      rw [later, ← ih]
      rfl

/-- A new text comes last. -/
theorem putEntry_entriesOf (w : World) {es : List (String × Value)} {k : String} (v : Value)
    (new : k ∉ es.map (·.1)) :
    putEntry w (entriesOf es) (.str k) v = .ok (entriesOf (es ++ [(k, v)])) := by
  have absent : es.find? (·.1 == k) = Option.none := by
    rw [List.find?_eq_none]
    intro e he same
    exact new (List.mem_map.2 ⟨e, he, by simpa using same⟩)
  rw [putEntry, entry?_entriesOf, absent]
  simp [entriesOf]
  rfl

/-- The pair that stands for an entry. -/
def entryPair (e : String × Value) : Value := .tuple [.str e.1, e.2]

theorem putPairs_entriesOf (w : World) (i : Nat) {es fs : List (String × Value)}
    (nodup : ((es ++ fs).map (·.1)).Nodup) :
    putPairs w (fun _ p => p.elements w) i (entriesOf es) (fs.map entryPair)
      = .ok (entriesOf (es ++ fs)) := by
  induction fs generalizing i es with
  | nil => simp [putPairs]
  | cons f fs ih =>
    obtain ⟨k, v⟩ := f
    have new : k ∉ es.map (·.1) := by
      simp only [List.map_append, List.map_cons, List.nodup_append] at nodup
      intro hk
      exact nodup.2.2 k hk k (by simp) rfl
    have put := putEntry_entriesOf w v new
    rw [List.map_cons, putPairs]
    show (putEntry w (entriesOf es) (.str k) v >>= fun es => _) = _
    rw [put]
    show putPairs w _ (i + 1) (entriesOf (es ++ [(k, v)])) _ = _
    rw [ih (i + 1) (by simpa using nodup)]
    simp

/-- A record of entries with different names, all of which are names of members. -/
theorem makeRecord_eq (w : World) {typeName : String} {t : TypeDecl}
    (found : w.schema.types.find? (·.name == typeName) = some t)
    {members : List (String × HostType)} {post : List String}
    (projection : t.projection = some (.record members post)) {es : List (String × Value)}
    (nodup : (es.map (·.1)).Nodup) (known : ∀ n ∈ es.map (·.1), n ∈ members.map (·.1)) :
    makeRecord w typeName (.list (es.map entryPair)) = .ok (.record typeName es) := by
  have entries : toOrderedEntries w (.list (es.map entryPair)) = .ok (entriesOf es) := by
    have puts : putPairs w (fun _ p => p.elements w) 0 (entriesOf []) (es.map entryPair)
        = .ok (entriesOf es) := putPairs_entriesOf w 0 nodup
    exact puts
  have named : (entriesOf es).map (fun e => (e.1.plain w, e.2)) = es := by
    rw [entriesOf, List.map_map]
    exact List.map_id es
  have none_unexpected : ((entriesOf es).map (·.1)).filter
      (fun k => !k.text?.any (members.map (·.1)).contains) = [] := by
    rw [List.filter_eq_nil_iff, entriesOf, List.map_map]
    intro k hk
    obtain ⟨e, he, rfl⟩ := List.mem_map.1 hk
    simpa [text?] using known e.1 (List.mem_map_of_mem he)
  have declared : t.preMembers = members.map (·.1) := by rw [TypeDecl.preMembers, projection]
  rw [makeRecord, entries]
  show (if _ then _ else _) = _
  simp only [found, Option.getD_some, declared]
  rw [named, none_unexpected]
  rfl

end Value

end EntityGraph
