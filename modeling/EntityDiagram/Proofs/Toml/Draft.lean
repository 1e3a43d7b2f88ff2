import EntityDiagram.Proofs.Text.Lookup
import EntityDiagram.Toml.Draft

/-!
# `EntityDiagram.Proofs.Toml.Draft`: tables in the making

What a key that is not there yet does to a draft: it is added at the end, and so is a node under
it. A node that stands at the end stays there when it changes.

The laws are stated for a key that does not occur among those of the draft. That is all a document
needs which was written from a table: its keys differ, so that every line of it adds something new.
What happens to a key that is there already, which is an error or the extension of a table, plays no
part in reading such a document back.
-/

set_option autoImplicit false

namespace EntityDiagram.Toml

/-- The entries of a draft that have values. -/
def valueNodes (entries : List (String × Toml)) : List (String × Node) :=
  entries.map fun e => (e.1, .value e.2)

/-- Entries become nodes under the same keys. -/
theorem map_fst_valueNodes (entries : List (String × Toml)) :
    (valueNodes entries).map Prod.fst = entries.map Prod.fst := by
  simp [valueNodes]

variable {nodes : List (String × Node)} {key : String}

namespace Draft

/-- A node under a new key is added at the end. -/
theorem set_new (origin : Origin) (h : key ∉ nodes.map Prod.fst) (node : Node) :
    set { origin, entries := nodes } key node = { origin, entries := nodes ++ [(key, node)] } := by
  rw [set, List.filter_eq_self.2]
  intro other hother
  rw [bne_iff_ne]
  rintro rfl
  exact h (List.mem_map_of_mem hother)

/-- The last node changes where it stands. -/
theorem set_last (origin : Origin) (h : key ∉ nodes.map Prod.fst) (old node : Node) :
    set { origin, entries := nodes ++ [(key, old)] } key node =
      { origin, entries := nodes ++ [(key, node)] } := by
  have hsame := set_new origin h node
  rw [set] at hsame ⊢
  simpa using hsame

/-- A value under a new key is added at the end. -/
theorem insert_new (origin : Origin) (h : key ∉ nodes.map Prod.fst) (v : Toml) :
    insert [] key v { origin, entries := nodes } =
      some { origin, entries := nodes ++ [(key, .value v)] } := by
  rw [insert, modifyAt]
  dsimp only
  rw [Text.lookup_eq_none h, set_new origin h]
  rfl

end Draft

/-- The nodes of a draft are finished one by one, and keep their keys. -/
theorem finishEntries_eq_map (nodes : List (String × Node)) :
    finishEntries nodes = nodes.map fun n => (n.1, n.2.finish) := by
  induction nodes with
  | nil => rfl
  | cons n nodes ih => rw [finishEntries, ih, List.map_cons]

end EntityDiagram.Toml
