import CommentTags.Proofs.Effects
import CommentTags.Proofs.Keys
import CommentTags.Proofs.Yaml.Nodes
import CommentTags.Yaml.Alias

/-!
# Looking at documents of records

A document of records has no aliases, so to look at its nodes has no effect: texts, truth values,
lists and the fields of a record are found as they stand there.

* `uniqueField?_eq` — a key that occurs once is found with its value, and one that does not occur is
  not found, whatever else there is.
* `fields_record`, `fields_document` — the fields of a record and of a whole document.
* `content_node` — the value of a scalar, by its text and style.
-/

set_option autoImplicit false

namespace CommentTags.Yaml

/-! ## Keys -/

section

variable {α : Type}

theorem uniqueField?_cons {l : List (List Char × α)} {name : String}
    (h : name.toList ∉ l.map Prod.fst) (v : α) :
    uniqueField? ((name.toList, v) :: l) name = .ok (some v) := by
  rw [uniqueField?, List.filter_cons_of_pos (by simp), filter_key_eq_nil h]

/-- If no key occurs twice, the value of a key is the one that is found first. -/
theorem uniqueField?_eq {fields : List (List Char × α)} (h : (fields.map Prod.fst).Nodup)
    (name : String) : uniqueField? fields name = .ok (fields.lookup name.toList) := by
  induction fields with
  | nil => rfl
  | cons p fields ih =>
    obtain ⟨hp, h⟩ := List.nodup_cons.1 h
    rw [List.lookup_cons, uniqueField?]
    by_cases hk : p.1 = name.toList
    · rw [List.filter_cons_of_pos (by simp [hk]), filter_key_eq_nil (hk ▸ hp), hk, beq_self_eq_true]
    · rw [List.filter_cons_of_neg (by simpa using hk), beq_false_of_ne (Ne.symm hk)]
      exact ih h

end

/-! ## Nodes -/

theorem liftM_ok {α : Type} (x : α) : (liftM (Except.ok x : Except Error α) : Walk α) = pure x := rfl

namespace Aliases

variable (a : Aliases)

theorem text_node (x : Scalar) : a.text x.node = pure x.text := rfl

theorem items_sequence (items : List Node) : a.items (.sequence none none items) = pure items := rfl

theorem fields_mapping (entries : List (List Char × Node)) :
    a.fields (.mapping none none (entries.map fun p => (Scalar.node ⟨p.1, .plain⟩, p.2))) =
      pure entries := by
  rw [fields, show a.follow (.mapping none none _) = pure _ from rfl, pure_bind]
  dsimp only
  rw [List.mapM_map]
  refine (mapM_congr (g := fun p => pure (id p)) fun p _ => rfl).trans ?_
  rw [List.mapM_pure, List.map_id]

theorem fields_record (r : Record) :
    a.fields r.node = pure (r.fields.map fun f => (f.name, f.value.node)) := by
  rw [← a.fields_mapping, List.map_map]
  rfl

theorem fields_document (entries : List Entry) :
    a.fields (documentNode entries) = pure (entries.map fun e => (e.name, e.nodes.2)) := by
  rw [← a.fields_mapping, List.map_map, documentNode]
  congr 2
  exact List.map_congr_left fun e _ => e.nodes_eq

theorem content_node {x : Scalar} {c : Content} (h : Content.ofScalar none x = .ok c)
    (depth : Nat) : a.content depth x.node = pure c := by
  have hfollow : a.follow x.node = pure (.scalar none none x) := rfl
  cases depth <;>
  · rw [content, hfollow, pure_bind]
    dsimp only
    rw [h, liftM_ok]

end Aliases

end CommentTags.Yaml
