/-
Renamed hierarchies and tables.

The positions of a renamed hierarchy are those of the hierarchy, and so are the symbols of a table:
only the handles in them are others.
-/
import DesignStore.Proofs.RenamedPools

namespace DesignStore
namespace Renaming

variable {r : Renaming}

/-! ## Hierarchies -/

section Hierarchy

variable {ε δ : Type} {h : Hierarchy}

theorem indexOf?_hierarchy (id : ObjectId) :
    (r.hierarchy h).indexOf? (r.id id) = h.indexOf? id :=
  (Assoc.get?_bimap r.id_injective (fun i => i) h.positions id).trans (congrFun Option.map_id _)

theorem idAt?_hierarchy (i : ObjectIndex) : (r.hierarchy h).idAt? i = (h.idAt? i).map r.id := by
  simp only [Hierarchy.idAt?, hierarchy, Array.getElem?_map]
  cases h.owners[i.toNat]? with
  | none => rfl
  | some id => exact nonNull?_id id

theorem entries_hierarchy :
    (r.hierarchy h).entries = h.entries.map (Prod.map (fun i => i) r.id) := by
  have hnull (l : List (ObjectId × Nat)) : (l.map (Prod.map r.id fun n => n)).filter (!·.1.isNull) =
      (l.filter (!·.1.isNull)).map (Prod.map r.id fun n => n) := by
    rw [List.filter_map]
    exact congrArg (fun f => (l.filter f).map (Prod.map r.id fun n => n))
      (funext fun e => congrArg not (isNull_id e.1))
  have hzip : (h.owners.map r.id).toList.zipIdx =
      h.owners.toList.zipIdx.map (Prod.map r.id fun n => n) := by
    rw [Array.toList_map, List.zipIdx_map]
    rfl
  rw [Hierarchy.entries, show (r.hierarchy h).owners = h.owners.map r.id from rfl, hzip,
    ← List.map_drop, hnull, List.map_map, Hierarchy.entries, List.map_map]
  rfl

theorem active_hierarchy (a : ActiveScope) :
    (r.hierarchy h).active a = (h.active a).map r.id := by
  cases a <;> rfl

theorem setActive_hierarchy (a : ActiveScope) (id : Option ObjectId) :
    (r.hierarchy h).setActive a (id.map r.id) = r.hierarchy (h.setActive a id) := by
  cases a <;> rfl

theorem clearActive_hierarchy (id : ObjectId) :
    (r.hierarchy h).clearActive (r.id id) = r.hierarchy (h.clearActive id) := by
  have hkeep (o : Option ObjectId) : (o.map r.id).filter (fun x => decide (x ≠ r.id id)) =
      (o.filter fun x => decide (x ≠ id)).map r.id := by
    rw [Option.filter_map]
    exact congrArg (fun f => (o.filter f).map r.id)
      (funext fun x => decide_eq_decide.2 (not_congr id_inj))
  simp only [Hierarchy.clearActive, hierarchy, hkeep]

theorem setIfInBounds_map (owners : Array ObjectId) (i : Nat) :
    (owners.map r.id).setIfInBounds i ObjectId.null =
      (owners.setIfInBounds i ObjectId.null).map r.id := by
  rw [Array.map_setIfInBounds, r.null]

theorem insert_hierarchy (fe : Failure ε → Failure δ) (hfault : ∀ g, fe (.fault g) = .fault (r.fault g))
    (id : ObjectId) :
    Renames (fun _ => True) r.hierarchy (fun i => i) fe (Hierarchy.insert id)
      (Hierarchy.insert (r.id id)) := by
  intro h _
  have hsize : (r.hierarchy h).owners.size = h.owners.size := Array.size_map
  by_cases hnull : id.isNull = true
  · exact .of_error (if_pos hnull) trivial
      ((if_pos ((isNull_id id).trans hnull)).trans (by rw [hfault]; rfl))
  · have hnull' : ¬ (r.id id).isNull = true := by rwa [isNull_id]
    by_cases hfull : UInt32.size ≤ h.owners.size
    · exact .of_error ((if_neg hnull).trans (if_pos hfull)) trivial
        ((if_neg hnull').trans ((if_pos (hsize.symm ▸ hfull)).trans (by rw [hfault]; rfl)))
    · refine .of_ok ((if_neg hnull).trans (if_neg hfull)) trivial
        ((if_neg hnull').trans ((if_neg (hsize.symm ▸ hfull)).trans ?_))
      have hpositions := Assoc.insert_bimap r.id_injective (fun i : ObjectIndex => i) h.positions id
        ⟨UInt32.ofNat h.owners.size⟩
      rw [hsize]
      simp only [hierarchy, Array.map_push, ← hpositions]

theorem delete_hierarchy (fe : ε → δ) (id : ObjectId) :
    Renames (fun _ => True) r.hierarchy (fun b => b) fe (Hierarchy.delete id)
      (Hierarchy.delete (r.id id)) := by
  intro h _
  have hindex : (r.hierarchy h).positions.get? (r.id id) = h.positions.get? id :=
    indexOf?_hierarchy id
  cases hi : h.positions.get? id with
  | none =>
    have hx : (Hierarchy.delete id : EStateM ε Hierarchy Bool) h = .ok false h := by
      simp only [Hierarchy.delete, hi]
    exact .of_ok hx trivial (by simp only [Hierarchy.delete, hindex, hi])
  | some i =>
    have hx : (Hierarchy.delete id : EStateM ε Hierarchy Bool) h = .ok true
        { h with
          owners := h.owners.setIfInBounds i.toNat ObjectId.null
          positions := h.positions.erase id } := by
      simp only [Hierarchy.delete, hi]
    refine .of_ok hx trivial ?_
    simp only [Hierarchy.delete, hindex, hi]
    simp only [hierarchy, setIfInBounds_map, Assoc.erase_bimap r.id_injective]

theorem deleteWhere_hierarchy {p q : ObjectId → Bool} (hp : ∀ x, q (r.id x) = p x) :
    (r.hierarchy h).deleteWhere q = r.hierarchy (h.deleteWhere p) := by
  have howners (l : List (ObjectId × ObjectIndex)) (owners : Array ObjectId) :
      (l.map fun e => (r.id e.1, e.2)).foldl
        (fun owners e => if q e.1 then owners.setIfInBounds e.2.toNat ObjectId.null else owners)
        (owners.map r.id) =
      (l.foldl
        (fun owners e => if p e.1 then owners.setIfInBounds e.2.toNat ObjectId.null else owners)
        owners).map r.id := by
    induction l generalizing owners with
    | nil => rfl
    | cons e l ih =>
      simp only [List.map_cons, List.foldl_cons, hp]
      rw [← ih]
      split
      · rw [setIfInBounds_map]
      · rfl
  have hpositions : (h.positions.bimap r.id fun i => i).filter (fun id _ => !q id) =
      (h.positions.filter fun id _ => !p id).bimap r.id fun i => i :=
    Assoc.filter_bimap _ (fun x _ => by rw [hp]) h.positions
  simp only [Hierarchy.deleteWhere, hierarchy, hpositions]
  simp only [Assoc.bimap, howners]

end Hierarchy

/-! ## Tables -/

section Table

variable {ε δ : Type} (fe : ε → δ) {t : SymbolTable}

theorem find?_symbols (name : String) : (r.symbols t).find? name = t.find? name := by
  simp only [SymbolTable.find?, symbols, Array.findIdx?_map]
  rfl

theorem name?_symbols (i : SymbolIndex) : (r.symbols t).name? i = t.name? i := by
  simp only [SymbolTable.name?, symbols, Array.getElem?_map, Option.map_map]
  rfl

theorem intern_symbols (name : String) :
    Renames (fun _ => True) r.symbols (fun i => i) fe (SymbolTable.intern name)
      (SymbolTable.intern name) := by
  intro t _
  have hfind := find?_symbols (r := r) (t := t) name
  have hsize : (r.symbols t).size = t.size := Array.size_map
  cases hf : t.find? name with
  | some i =>
    have hx : (SymbolTable.intern name : EStateM ε SymbolTable _) t = .ok i t := by
      simp only [SymbolTable.intern, hf]
    exact .of_ok hx trivial (by simp only [SymbolTable.intern, hfind, hf])
  | none =>
    have hx : (SymbolTable.intern name : EStateM ε SymbolTable _) t =
        .ok ⟨t.size⟩ { symbols := t.symbols.push { name } } := by
      simp only [SymbolTable.intern, hf]
    refine .of_ok hx trivial ?_
    simp only [SymbolTable.intern, hfind, hf, hsize]
    simp only [symbols, Array.map_push, symbol, List.map_nil]

theorem addReference_symbols (i : SymbolIndex) (id : ObjectId) :
    Renames (fun _ => True) r.symbols (fun b => b) fe (SymbolTable.addReference i id)
      (SymbolTable.addReference i (r.id id)) := by
  intro t _
  have hsize : (r.symbols t).size = t.size := Array.size_map
  by_cases hi : (i.val : Nat) < t.size
  · refine .of_ok (if_pos hi) trivial ((if_pos (hsize.symm ▸ hi)).trans ?_)
    have huse (s : Symbol) : (if r.id id ∈ (r.symbol s).users then r.symbol s
        else { r.symbol s with users := (r.symbol s).users ++ [r.id id] }) =
        r.symbol (if id ∈ s.users then s else { s with users := s.users ++ [id] }) := by
      have hmem : r.id id ∈ (r.symbol s).users ↔ id ∈ s.users :=
        List.mem_map_of_injective r.id_injective
      by_cases hs : id ∈ s.users
      · rw [if_pos (hmem.2 hs), if_pos hs]
      · rw [if_neg (mt hmem.1 hs), if_neg hs]
        simp only [symbol, List.map_append, List.map_cons, List.map_nil]
    simp only [symbols]
    rw [modify_map huse]
  · exact .of_ok (if_neg hi) trivial (if_neg (hsize.symm ▸ hi))

theorem removeAll_properties (id : ObjectId) :
    Renames (fun _ => True) r.properties (fun n => n) fe (PropertyTable.removeAll id)
      (PropertyTable.removeAll (r.id id)) := by
  intro t _
  have hlist : ((r.properties t).list (r.id id)).length = (t.list id).length := by
    simp only [PropertyTable.list, properties, Assoc.get?_bimap r.id_injective]
    cases t.byObject.get? id with
    | none => rfl
    | some l => exact List.length_map _
  refine .of_ok rfl trivial ?_
  simp only [PropertyTable.removeAll, hlist]
  simp only [properties, Assoc.erase_bimap r.id_injective]

theorem memory_symbols : (r.symbols t).memory = t.memory := by
  rw [SymbolTable.memory, SymbolTable.memory, symbols, Array.toList_map]
  refine total_map (fun s => ?_) _
  simp only [symbol, List.length_map]

theorem memory_properties (t : PropertyTable) : (r.properties t).memory = t.memory := by
  have hvalues : (r.properties t).byObject.values =
      t.byObject.values.map (·.bimap (fun name => name) r.value) := by
    simp only [properties, Assoc.values, Assoc.bimap, List.map_map]
    rfl
  rw [PropertyTable.memory, PropertyTable.memory, hvalues]
  refine total_map (fun l => ?_) _
  simp only [Assoc.keys, Assoc.bimap, List.map_map]
  rfl

end Table

/-! ## Scopes -/

section Scope

variable {ε δ α β : Type} {s : StorageScope} {fa : α → β} {fe : ε → δ}

theorem memory_scope : (r.scope s).memory = s.memory := by
  rw [StorageScope.memory, StorageScope.memory, scope, memory_symbols, memory_properties]

/-- The tag of the scope is in use. -/
def TameScope (r : Renaming) (s : StorageScope) : Prop :=
  r.Used s.tag

theorem onSymbols_scope {x : EStateM ε SymbolTable α} {y : EStateM δ SymbolTable β}
    (h : Renames (fun _ => True) r.symbols fa fe x y) :
    Renames r.TameScope r.scope fa fe (StorageScope.onSymbols x) (StorageScope.onSymbols y) := by
  rintro ⟨owner, tag, index, parent, children, symbols, polygons, properties⟩ hs
  refine (h symbols trivial).inside
    (StorageScope.mk owner tag index parent children · polygons properties)
    (StorageScope.mk (r.id owner) (r.tag tag) index (parent.map r.id) (children.map r.id) · polygons
      (r.properties properties)) ?_ ?_ (fun _ => rfl) fun _ _ => hs
  · rw [StorageScope.onSymbols]
    cases x symbols <;> rfl
  · show StorageScope.onSymbols y (StorageScope.mk (r.id owner) (r.tag tag) index (parent.map r.id)
      (children.map r.id) (r.symbols symbols) polygons (r.properties properties)) = _
    rw [StorageScope.onSymbols]
    cases y (r.symbols symbols) <;> rfl

theorem onProperties_scope {x : EStateM ε PropertyTable α} {y : EStateM δ PropertyTable β}
    (h : Renames (fun _ => True) r.properties fa fe x y) :
    Renames r.TameScope r.scope fa fe (StorageScope.onProperties x)
      (StorageScope.onProperties y) := by
  rintro ⟨owner, tag, index, parent, children, symbols, polygons, properties⟩ hs
  refine (h properties trivial).inside
    (StorageScope.mk owner tag index parent children symbols polygons ·)
    (StorageScope.mk (r.id owner) (r.tag tag) index (parent.map r.id) (children.map r.id)
      (r.symbols symbols) polygons ·) ?_ ?_ (fun _ => rfl) fun _ _ => hs
  · rw [StorageScope.onProperties]
    cases x properties <;> rfl
  · show StorageScope.onProperties y (StorageScope.mk (r.id owner) (r.tag tag) index
      (parent.map r.id) (children.map r.id) (r.symbols symbols) polygons
      (r.properties properties)) = _
    rw [StorageScope.onProperties]
    cases y (r.properties properties) <;> rfl

end Scope
end Renaming
end DesignStore
