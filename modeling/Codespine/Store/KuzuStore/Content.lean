import Codespine.Store.KuzuStore

open codespine.schema

namespace codespine.store

/-- Metadata with the same fields, in whatever order. -/
def SameFields (metadata metadata' : Metadata) : Prop := ∀ key, metadata.get key = metadata'.get key

theorem SameFields.refl (metadata : Metadata) : SameFields metadata metadata := fun _ => rfl

theorem SameFields.symm {metadata metadata' : Metadata} (h : SameFields metadata metadata') :
    SameFields metadata' metadata := fun key => (h key).symm

theorem SameFields.trans {metadata metadata' metadata'' : Metadata} (h : SameFields metadata metadata')
    (h' : SameFields metadata' metadata'') : SameFields metadata metadata'' := fun key => (h key).trans (h' key)

theorem SameFields.set {metadata metadata' : Metadata} (h : SameFields metadata metadata') (key : String)
    (value : Json) : SameFields (metadata.set key value) (metadata'.set key value) := by
  intro other
  rw [OrderedMap.get_set, OrderedMap.get_set, h other]

/-- Fields set in one order or the other. -/
theorem SameFields.set_comm {key key' : String} (hne : key ≠ key') (metadata : Metadata) (value value' : Json) :
    SameFields ((metadata.set key value).set key' value') ((metadata.set key' value').set key value) := by
  intro other
  simp only [OrderedMap.get_set]
  split
  · next hother =>
    rw [if_neg fun h => hne (h.symm.trans hother)]
  · rfl

/-- Rows that differ in the order of their metadata at most. -/
structure SameRow (row row' : NodeRow) : Prop where
  metadata : SameFields row.metadata row'.metadata
  columns : { row with metadata := row'.metadata } = row'

theorem SameRow.refl (row : NodeRow) : SameRow row row := ⟨SameFields.refl _, rfl⟩

theorem SameRow.symm {row row' : NodeRow} (h : SameRow row row') : SameRow row' row where
  metadata := h.metadata.symm
  columns := by rw [← h.columns]

theorem SameRow.trans {row row' row'' : NodeRow} (h : SameRow row row') (h' : SameRow row' row'') : SameRow row row'' where
  metadata := h.metadata.trans h'.metadata
  columns := by rw [← h'.columns, ← h.columns]

/-- The same rows under the same ids, one after the other. -/
def SameRows (entries entries' : List (String × NodeRow)) : Prop :=
  List.Forall₂ (fun entry entry' => entry.1 = entry'.1 ∧ SameRow entry.2 entry'.2) entries entries'

theorem SameRows.trans {entries entries' entries'' : List (String × NodeRow)} (h : SameRows entries entries')
    (h' : SameRows entries' entries'') : SameRows entries entries'' := by
  induction h generalizing entries'' with
  | nil => exact h'
  | cons hfirst _ ih =>
    obtain ⟨entry, rest, hsecond, hrest, rfl⟩ := List.forall₂_cons_left_iff.mp h'
    exact .cons ⟨hfirst.1.trans hsecond.1, hfirst.2.trans hsecond.2⟩ (ih hrest)

theorem SameRows.keys {entries entries' : List (String × NodeRow)} (h : SameRows entries entries') :
    entries.map Prod.fst = entries'.map Prod.fst := by
  induction h with
  | nil => rfl
  | cons hfirst _ ih => rw [List.map_cons, List.map_cons, hfirst.1, ih]

/-- A row written under the same id on both sides. -/
theorem SameRows.insertEntry {entries entries' : List (String × NodeRow)} (h : SameRows entries entries') (id : String)
    (row : NodeRow) : SameRows (OrderedMap.insertEntry id row entries) (OrderedMap.insertEntry id row entries') := by
  induction h with
  | nil => exact .cons ⟨rfl, SameRow.refl row⟩ .nil
  | @cons entry entry' rest rest' hfirst hrest ih =>
    unfold OrderedMap.insertEntry
    rw [← hfirst.1]
    split
    · exact .cons ⟨rfl, SameRow.refl row⟩ hrest
    · exact .cons hfirst ih

/-- Databases that differ in the order of the metadata of nodes at most. -/
structure SameContent (store store' : KuzuStore) : Prop where
  rows : SameRows store.nodes.entries store'.nodes.entries
  edges : store.edges = store'.edges
  graphMeta : store.graphMeta = store'.graphMeta

namespace SameContent

variable {store store' : KuzuStore}

theorem refl (store : KuzuStore) : SameContent store store where
  rows := List.forall₂_same.mpr fun entry _ => ⟨rfl, SameRow.refl entry.2⟩
  edges := rfl
  graphMeta := rfl

theorem symm (h : SameContent store store') : SameContent store' store where
  rows := (h.rows.imp fun _ _ hrow => ⟨hrow.1.symm, hrow.2.symm⟩).flip
  edges := h.edges.symm
  graphMeta := h.graphMeta.symm

theorem trans {store'' : KuzuStore} (h : SameContent store store') (h' : SameContent store' store'') :
    SameContent store store'' :=
  ⟨h.rows.trans h'.rows, h.edges.trans h'.edges, h.graphMeta.trans h'.graphMeta⟩

theorem equivalence : Equivalence SameContent := ⟨refl, symm, trans⟩

theorem keys (h : SameContent store store') : store.nodes.keys = store'.nodes.keys := h.rows.keys

/-- What does not look at the order of metadata reads the same of both. -/
theorem map_readNodes {β : Type*} {read : StoredNode → β} (h : SameContent store store')
    (hread : ∀ node metadata, SameFields node.metadata metadata → read node = read { node with metadata }) :
    store.readNodes.map read = store'.readNodes.map read := by
  unfold KuzuStore.readNodes
  rw [List.map_map, List.map_map]
  have hrows := h.rows
  generalize store.nodes.entries = entries at hrows
  generalize store'.nodes.entries = entries' at hrows
  induction hrows with
  | nil => rfl
  | @cons entry entry' rest rest' hfirst _ ih =>
    rw [List.map_cons, List.map_cons, ih, Function.comp_apply, Function.comp_apply, hread _ _ hfirst.2.metadata,
      ← hfirst.2.columns, ← hfirst.1]

/-- Databases whose metadata is rewritten row by row keep the same content when
the fields they are given are the same. -/
theorem of_entries {after after' : KuzuStore} {f g : String → Metadata → Metadata} (h : SameContent store store')
    (hentries : after.nodes.entries = store.nodes.entries.map fun entry =>
      (entry.1, { entry.2 with metadata := f entry.1 entry.2.metadata }))
    (hentries' : after'.nodes.entries = store'.nodes.entries.map fun entry =>
      (entry.1, { entry.2 with metadata := g entry.1 entry.2.metadata }))
    (hf : ∀ id metadata metadata', SameFields metadata metadata' → SameFields (f id metadata) (g id metadata'))
    (hedges : after.edges = after'.edges) (hgraphMeta : after.graphMeta = after'.graphMeta) :
    SameContent after after' where
  rows := by
    rw [hentries, hentries']
    refine List.forall₂_map_left_iff.mpr (List.forall₂_map_right_iff.mpr (h.rows.imp fun entry entry' hrow => ?_))
    refine ⟨hrow.1, ?_, ?_⟩
    · rw [hrow.1]
      exact hf _ _ _ hrow.2.metadata
    · rw [← hrow.2.columns]
  edges := hedges
  graphMeta := hgraphMeta

end SameContent

end codespine.store
