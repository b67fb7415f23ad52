/-
Owners are at the positions where they are found.

Restoring a hierarchy puts owners where it is told to.  An owner that is put at a second
position stays at the first, where it is found no longer, so owners and positions need not be
paired from then on.  What is left is that an owner is at the position where it is found
(`Located`), and that is kept by everything that can be asked of a database
(`located_run`).
-/
import DesignStore.Proofs.Partwise

namespace DesignStore

namespace Hierarchy

variable {ε : Type} {h h' : Hierarchy} {id : ObjectId}

/-- Every owner that is found is at the position where it is found. -/
structure Located (h : Hierarchy) : Prop where
  keys : h.positions.keys.Nodup
  owner : ∀ e ∈ h.positions.entries, h.owners[e.2.toNat]? = some e.1 ∧ e.1 ≠ ObjectId.null

theorem located_empty : empty.Located where
  keys := List.nodup_nil
  owner := by simp [empty]

/-- The positions of the owners without whoever is found at `index`. -/
def vacated (h : Hierarchy) (index : ObjectIndex) : Assoc ObjectId ObjectIndex :=
  match h.idAt? index with
  | some previous =>
    if h.indexOf? previous = some index then h.positions.erase previous else h.positions
  | none => h.positions

namespace Located

theorem idAt? (hl : h.Located) {i : ObjectIndex} (hi : h.indexOf? id = some i) :
    h.idAt? i = some id :=
  idAt?_eq_some_iff_owner.2 (hl.owner _ (Assoc.mem_of_get? hi))

/-- Two owners are not found at one position. -/
theorem eq_of_position (hl : h.Located) {e e' : ObjectId × ObjectIndex}
    (he : e ∈ h.positions.entries) (he' : e' ∈ h.positions.entries)
    (hi : e.2.toNat = e'.2.toNat) : e.1 = e'.1 := by
  have hat := (hl.owner e he).1
  rw [hi, (hl.owner e' he').1] at hat
  exact (Option.some.inj hat).symm

theorem of_owners (hl : h.Located) (howners : h'.owners = h.owners)
    (hpositions : h'.positions = h.positions) : h'.Located := by
  refine ⟨?_, ?_⟩ <;> rw [hpositions]
  · exact hl.keys
  · rw [howners]
    exact hl.owner

theorem insert (hl : h.Located) (id : ObjectId) :
    (after (Hierarchy.insert (ε := ε) id) h).Located := by
  by_cases hnull : id.isNull = true
  · rwa [after_error (by rw [Hierarchy.insert, if_pos hnull])]
  by_cases hfull : UInt32.size ≤ h.owners.size
  · rwa [after_error (by rw [Hierarchy.insert, if_neg hnull, if_pos hfull])]
  rw [after_ok (by rw [Hierarchy.insert, if_neg hnull, if_neg hfull])]
  refine ⟨Assoc.nodup_keys_insert hl.keys id _, fun e he => ?_⟩
  rw [Array.getElem?_push]
  rcases Assoc.mem_insert he with rfl | he
  · have hsize : (UInt32.ofNat h.owners.size).toNat = h.owners.size :=
      UInt32.toNat_ofNat_of_lt' (Nat.lt_of_not_le hfull)
    exact ⟨if_pos hsize, fun hn => hnull (isNull_iff.2 hn)⟩
  · obtain ⟨hat, hne⟩ := hl.owner e he
    rw [if_neg (Nat.ne_of_lt (Array.getElem?_eq_some_iff.1 hat).1)]
    exact ⟨hat, hne⟩

theorem delete (hl : h.Located) (id : ObjectId) :
    (after (Hierarchy.delete (ε := ε) id) h).Located := by
  cases hi : h.positions.get? id with
  | none => rwa [after_ok (by rw [Hierarchy.delete, hi])]
  | some i =>
    rw [after_ok (by rw [Hierarchy.delete, hi])]
    refine ⟨Assoc.nodup_keys_erase hl.keys id, fun e he => ?_⟩
    obtain ⟨he, hne⟩ := List.mem_filter.1 he
    have hpos : ¬ i.toNat = e.2.toNat := fun e' =>
      of_decide_eq_true hne (hl.eq_of_position (Assoc.mem_of_get? hi) he e').symm
    rw [Array.getElem?_setIfInBounds, if_neg hpos]
    exact hl.owner e he

theorem vacated_keys (hl : h.Located) (index : ObjectIndex) : (h.vacated index).keys.Nodup := by
  unfold vacated
  split
  · split
    · exact Assoc.nodup_keys_erase hl.keys _
    · exact hl.keys
  · exact hl.keys

/-- Whoever was found at a position is not found there once it is vacated. -/
theorem mem_vacated (hl : h.Located) {index : ObjectIndex} {e : ObjectId × ObjectIndex}
    (he : e ∈ (h.vacated index).entries) :
    e ∈ h.positions.entries ∧ ¬ index.toNat = e.2.toNat := by
  have hold : e ∈ h.positions.entries := by
    unfold vacated at he
    split at he
    · split at he
      · exact (List.mem_filter.1 he).1
      · exact he
    · exact he
  refine ⟨hold, fun hi => ?_⟩
  have hi : index = e.2 := congrArg ObjectIndex.mk (UInt32.toNat_inj.1 hi)
  have hfound : h.indexOf? e.1 = some index := hi ▸ Assoc.get?_of_mem hl.keys hold
  rw [vacated, hl.idAt? hfound] at he
  simp only [hfound, if_true] at he
  exact of_decide_eq_true (List.mem_filter.1 he).2 rfl

theorem place (hl : h.Located) (index : ObjectIndex) (id : ObjectId) :
    (after (Hierarchy.place (ε := ε) index id) h).Located := by
  by_cases hinvalid : index.isInvalid = true
  · rwa [after_error (by rw [Hierarchy.place, if_pos hinvalid])]
  by_cases hnull : id.isNull = true
  · rwa [after_error (by rw [Hierarchy.place, if_neg hinvalid, if_pos hnull])]
  rw [after_ok (by rw [Hierarchy.place, if_neg hinvalid, if_neg hnull])]
  refine ⟨Assoc.nodup_keys_insert (hl.vacated_keys index) id index, fun e he => ?_⟩
  rw [Array.getElem?_setIfInBounds]
  rcases Assoc.mem_insert he with rfl | he
  · refine ⟨?_, fun hn => hnull (isNull_iff.2 hn)⟩
    rw [if_pos rfl, if_pos]
    rw [Array.size_append, Array.size_replicate]
    show index.toNat < _
    omega
  · obtain ⟨hold, hi⟩ := hl.mem_vacated he
    obtain ⟨hat, hne⟩ := hl.owner e hold
    rw [if_neg hi, Array.getElem?_append_left (Array.getElem?_eq_some_iff.1 hat).1]
    exact ⟨hat, hne⟩

theorem deleteWhere (hl : h.Located) (p : ObjectId → Bool) : (h.deleteWhere p).Located := by
  refine ⟨hl.keys.sublist (List.filter_sublist.map _), fun e he => ?_⟩
  obtain ⟨he, hpe⟩ := List.mem_filter.1 he
  have hpe : (!p e.1) = true := hpe
  obtain ⟨hat, hne⟩ := hl.owner e he
  refine ⟨(getElem?_foldl_setIfInBounds p h.positions.entries h.owners e.2.toNat).trans ?_, hne⟩
  rw [if_neg, hat]
  intro hany
  obtain ⟨e', he', hpe'⟩ := List.any_eq_true.1 hany
  simp only [Bool.and_eq_true, beq_iff_eq] at hpe'
  rw [hl.eq_of_position he' he hpe'.2] at hpe'
  rw [hpe'.1] at hpe
  contradiction

end Located
end Hierarchy

namespace Database

variable {ε α : Type} {db db' : Database}

/-! ## What all commands keep -/

/-- Owners stay where they are found. -/
def Locates (db db' : Database) : Prop :=
  db.hierarchy.Located → db'.hierarchy.Located

instance : IsPreorder Database Locates where
  refl _ h := h
  trans _ _ _ h h' hl := h' (h hl)

theorem locates_of_hierarchy (h : db'.hierarchy = db.hierarchy) : Locates db db' := by
  intro hl
  rwa [h]

theorem locates_onHierarchy {x : EStateM ε Hierarchy α}
    (hx : ∀ h : Hierarchy, h.Located → (after x h).Located) : Keeps Locates (onHierarchy x) := by
  intro db
  rw [after_onHierarchy]
  exact hx db.hierarchy

theorem locates_closeScope (db : Database) (owner : ObjectId) :
    Locates db (db.closeScope owner) := by
  unfold closeScope
  cases db.scope? owner with
  | none => exact refl_of Locates db
  | some scope =>
    intro hl
    have hd := hl.deleteWhere fun id => id = owner ∨ ScopeTag.of? id = some scope.tag
    exact hd.of_owners rfl rfl

theorem locates_partwise : Partwise Locates where
  registry _ db := by
    rw [after_onRegistry]
    exact locates_of_hierarchy rfl
  insert id := locates_onHierarchy fun _ hl => hl.insert id
  delete id := locates_onHierarchy fun _ hl => hl.delete id
  place i id := locates_onHierarchy fun _ hl => hl.place i id
  active _ a _ hl := by cases a <;> exact hl.of_owners rfl rfl
  scopes _ _ := locates_of_hierarchy rfl
  closeScope := locates_closeScope
  reset _ _ := Hierarchy.located_empty

end Database

/-- After any run, every owner that is found is at the position where it is found. -/
theorem Database.located_run {c : StoreConfig} {db : Database} (h : Database.new c = .ok db)
    (cmds : List Command) : (Database.run cmds db).hierarchy.Located := by
  obtain ⟨_, rfl⟩ := Database.new_eq_ok h
  exact Database.locates_partwise.run cmds _ Hierarchy.located_empty

end DesignStore
