/-
The hierarchy as a list of owners.

An owner is at one position and is found there (`Paired`).  So what is shown of the table
is what is at the positions, and emptying the positions of some owners leaves the entries
of the others as they were (`entries_deleteWhere`).

A table keeps this as long as no owner is given a position while it has one.  Whether
positions are handed out or emptied, none comes to have another owner (`Grows`).
-/
import DesignStore.Hierarchy
import DesignStore.Proofs.Assoc
import DesignStore.Proofs.Operation

namespace DesignStore

namespace Hierarchy

variable {ε : Type} {h : Hierarchy} {id : ObjectId}

/-- The owners at the positions and the positions of the owners say the same. -/
structure Paired (h : Hierarchy) : Prop where
  size_le : h.owners.size ≤ UInt32.size
  position : ∀ i id, h.owners[i]? = some id → id ≠ ObjectId.null →
    h.positions.get? id = some ⟨UInt32.ofNat i⟩
  owner : ∀ e ∈ h.positions.entries, h.owners[e.2.toNat]? = some e.1 ∧ e.1 ≠ ObjectId.null

theorem paired_empty : empty.Paired where
  size_le := by decide
  position := by
    intro i id hi hne
    rw [empty, Array.getElem?_singleton] at hi
    split at hi
    · exact absurd (Option.some.inj hi).symm hne
    · contradiction
  owner := by simp [empty]

theorem isNull_iff : id.isNull = true ↔ id = ObjectId.null := by
  obtain ⟨v⟩ := id
  simp [ObjectId.isNull, ObjectId.null]

theorem idAt?_eq_some_iff_owner {i : ObjectIndex} :
    h.idAt? i = some id ↔ h.owners[i.toNat]? = some id ∧ id ≠ ObjectId.null := by
  simp only [idAt?, Option.bind_eq_bind, Option.bind_eq_some_iff, ObjectId.nonNull?]
  constructor
  · rintro ⟨x, hx, hid⟩
    split at hid
    · contradiction
    · rename_i hn
      cases hid
      exact ⟨hx, fun e => hn (isNull_iff.2 e)⟩
  · rintro ⟨hx, hne⟩
    exact ⟨id, hx, if_neg fun hn => hne (isNull_iff.1 hn)⟩

namespace Paired

theorem get?_of_owner (hp : h.Paired) {i : Nat} (hi : h.owners[i]? = some id)
    (hne : id ≠ ObjectId.null) :
    ∃ index : ObjectIndex, h.positions.get? id = some index ∧ index.toNat = i := by
  refine ⟨_, hp.position i id hi hne, ?_⟩
  have hb := (Array.getElem?_eq_some_iff.1 hi).1
  exact UInt32.toNat_ofNat_of_lt' (Nat.lt_of_lt_of_le hb hp.size_le)

theorem owner_of_get? (hp : h.Paired) {i : ObjectIndex} (hi : h.positions.get? id = some i) :
    h.owners[i.toNat]? = some id ∧ id ≠ ObjectId.null :=
  hp.owner (id, i) (Assoc.mem_of_get? hi)

/-- An owner is at a position if it is found there. -/
theorem idAt?_eq_some_iff (hp : h.Paired) {i : ObjectIndex} :
    h.idAt? i = some id ↔ h.indexOf? id = some i := by
  rw [idAt?_eq_some_iff_owner]
  constructor
  · rintro ⟨hi, hne⟩
    have hget := hp.position i.toNat id hi hne
    rwa [show (⟨UInt32.ofNat i.toNat⟩ : ObjectIndex) = i by simp [ObjectIndex.toNat]] at hget
  · exact hp.owner_of_get?

theorem lt_size (hp : h.Paired) {i : ObjectIndex} (hi : h.indexOf? id = some i) :
    i.toNat < h.size :=
  (Array.getElem?_eq_some_iff.1 (hp.owner_of_get? hi).1).1

theorem not_mem_of_get? (hp : h.Paired) (hn : h.positions.get? id = none) :
    ∀ e ∈ h.positions.entries, e.1 ≠ id := by
  rintro e he rfl
  obtain ⟨howner, hne⟩ := hp.owner e he
  rw [hp.position _ _ howner hne] at hn
  contradiction

end Paired

/-! ## Emptying positions -/

/-- The owners that are left when those that satisfy a condition go. -/
def spared (p : ObjectId → Bool) (owners : Array ObjectId) : Array ObjectId :=
  owners.map fun id => if p id then ObjectId.null else id

theorem getElem?_spared (p : ObjectId → Bool) (owners : Array ObjectId) (i : Nat) :
    (spared p owners)[i]? = owners[i]?.map fun id => if p id then ObjectId.null else id := by
  rw [spared, Array.getElem?_map]

theorem getElem?_foldl_setIfInBounds (p : ObjectId → Bool) (l : List (ObjectId × ObjectIndex))
    (owners : Array ObjectId) (i : Nat) :
    (l.foldl (fun owners e => if p e.1 then owners.setIfInBounds e.2.toNat ObjectId.null else owners)
        owners)[i]? =
      if (l.any fun e => p e.1 && e.2.toNat == i) = true then owners[i]?.map fun _ => ObjectId.null
      else owners[i]? := by
  induction l generalizing owners with
  | nil => rfl
  | cons e l ih =>
    rw [List.foldl_cons, ih, List.any_cons]
    by_cases he : (p e.1 && e.2.toNat == i) = true
    · obtain ⟨hp, hi⟩ : p e.1 = true ∧ e.2.toNat = i := by simpa using he
      rw [he, Bool.true_or, if_pos rfl, if_pos hp, Array.getElem?_setIfInBounds, if_pos hi]
      by_cases hb : i < owners.size <;> simp [hb, hi]
    · have hset : (if p e.1 then owners.setIfInBounds e.2.toNat ObjectId.null else owners)[i]? =
          owners[i]? := by
        by_cases hp : p e.1 = true
        · have hi : e.2.toNat ≠ i := fun hi => he (by simp [hp, hi])
          rw [if_pos hp, Array.getElem?_setIfInBounds, if_neg hi]
        · rw [if_neg hp]
      rw [Bool.eq_false_iff.2 he, Bool.false_or, hset]

/-- An owner that is found is at the position where it is found, so the positions that are
emptied are those of the owners in question. -/
theorem owners_deleteWhere (hp : h.Paired) (p : ObjectId → Bool) :
    (h.deleteWhere p).owners = spared p h.owners := by
  refine Array.ext_getElem? fun i => ?_
  rw [getElem?_spared]
  refine (getElem?_foldl_setIfInBounds p h.positions.entries h.owners i).trans ?_
  cases hi : h.owners[i]? with
  | none => simp
  | some id =>
    rw [Option.map_some, Option.map_some]
    by_cases hid : p id = true
    · by_cases hn : id = ObjectId.null
      · rw [if_pos hid, hn, ite_self]
      · obtain ⟨index, hindex, hnat⟩ := hp.get?_of_owner hi hn
        have hany : (h.positions.entries.any fun e => p e.1 && e.2.toNat == i) = true :=
          List.any_eq_true.2 ⟨_, Assoc.mem_of_get? hindex, by simp [hid, hnat]⟩
        rw [if_pos hany, if_pos hid]
    · rw [if_neg, if_neg hid]
      intro hany
      obtain ⟨e, he, hpe⟩ := List.any_eq_true.1 hany
      simp only [Bool.and_eq_true, beq_iff_eq] at hpe
      have howner := (hp.owner e he).1
      rw [hpe.2, hi, Option.some.injEq] at howner
      exact hid (howner ▸ hpe.1)

/-- What is shown of the table afterwards is what was shown of the other owners. -/
theorem entries_deleteWhere (hp : h.Paired) (p : ObjectId → Bool) :
    (h.deleteWhere p).entries = h.entries.filter fun e => !p e.2 := by
  have hl : (h.deleteWhere p).owners.toList =
      h.owners.toList.map fun id => if p id then ObjectId.null else id := by
    rw [owners_deleteWhere hp, spared, Array.toList_map]
  have hnull : ObjectId.null.isNull = true := rfl
  rw [entries, entries, hl, List.zipIdx_map, ← List.map_drop]
  induction h.owners.toList.zipIdx.drop 1 with
  | nil => rfl
  | cons e l ih =>
    obtain ⟨id, i⟩ := e
    cases hid : p id with
    | true =>
      rw [List.map_cons, Prod.map_apply, if_pos hid]
      cases hn : id.isNull <;> simp [ih, hid, hn, hnull]
    | false => cases hn : id.isNull <;> simp [ih, hid, hn]

theorem size_deleteWhere (hp : h.Paired) (p : ObjectId → Bool) :
    (h.deleteWhere p).size = h.size := by
  rw [size, size, owners_deleteWhere hp, spared, Array.size_map]

theorem indexOf?_deleteWhere (h : Hierarchy) (p : ObjectId → Bool) (id : ObjectId) :
    (h.deleteWhere p).indexOf? id = if p id = true then none else h.indexOf? id := by
  refine (Assoc.get?_filter (fun id => !p id) h.positions id).trans ?_
  cases p id <;> rfl

theorem paired_deleteWhere (hp : h.Paired) (p : ObjectId → Bool) : (h.deleteWhere p).Paired where
  size_le := by
    rw [owners_deleteWhere hp, spared, Array.size_map]
    exact hp.size_le
  position := by
    intro i id hi hne
    rw [owners_deleteWhere hp, getElem?_spared] at hi
    obtain ⟨x, hx, hid⟩ := Option.map_eq_some_iff.1 hi
    by_cases hpx : p x = true
    · rw [if_pos hpx] at hid
      exact absurd hid.symm hne
    · rw [if_neg hpx] at hid
      subst hid
      have hget : (h.deleteWhere p).positions.get? x = _ := Assoc.get?_filter (fun id => !p id) _ x
      rw [hget, if_pos (by simpa using hpx)]
      exact hp.position i x hx hne
  owner := by
    intro e he
    obtain ⟨he, hpe⟩ := List.mem_filter.1 he
    obtain ⟨howner, hne⟩ := hp.owner e he
    rw [owners_deleteWhere hp, getElem?_spared, howner, Option.map_some,
      if_neg (by simpa using hpe)]
    exact ⟨rfl, hne⟩

theorem spared_of_get?_none (hp : h.Paired) (hn : h.positions.get? id = none) :
    spared (· = id) h.owners = h.owners := by
  refine Array.ext_getElem? fun i => ?_
  rw [getElem?_spared]
  cases ho : h.owners[i]? with
  | none => rfl
  | some x =>
    rw [Option.map_some, Option.some.injEq]
    by_cases hx : x = id
    · subst hx
      have hnull : x = ObjectId.null := by
        by_contra hne
        rw [hp.position i x ho hne] at hn
        contradiction
      rw [hnull, ite_self]
    · rw [if_neg (by simpa using hx)]

theorem spared_of_get?_some (hp : h.Paired) {i : ObjectIndex} (hi : h.positions.get? id = some i) :
    spared (· = id) h.owners = h.owners.setIfInBounds i.toNat ObjectId.null := by
  obtain ⟨howner, hne⟩ := hp.owner_of_get? hi
  refine Array.ext_getElem? fun j => ?_
  rw [getElem?_spared, Array.getElem?_setIfInBounds]
  by_cases hj : i.toNat = j
  · subst hj
    have hb := (Array.getElem?_eq_some_iff.1 howner).1
    rw [if_pos rfl, if_pos hb, howner, Option.map_some, if_pos (by simp)]
  · rw [if_neg hj]
    cases ho : h.owners[j]? with
    | none => rfl
    | some x =>
      rw [Option.map_some, Option.some.injEq, if_neg]
      intro hx
      have hx : x = id := by simpa using hx
      subst hx
      obtain ⟨index, hindex, hnat⟩ := hp.get?_of_owner ho hne
      rw [hi, Option.some.injEq] at hindex
      exact hj (hindex ▸ hnat)

theorem after_delete (hp : h.Paired) (id : ObjectId) :
    after (delete id : EStateM ε Hierarchy Bool) h = h.deleteWhere (· = id) := by
  have hpositions : h.positions.erase id = h.positions.filter fun x _ => !decide (x = id) := by
    simp [Assoc.erase, Assoc.filter]
  have howners : (h.deleteWhere (· = id)).owners = spared (· = id) h.owners :=
    owners_deleteWhere hp _
  have hdelete : { h with
      owners := spared (· = id) h.owners
      positions := h.positions.erase id } = h.deleteWhere (· = id) := by
    rw [hpositions, ← howners]
    rfl
  simp only [after, delete]
  cases hi : h.positions.get? id with
  | none =>
    have hf : h.positions.entries.filter (·.1 ≠ id) = h.positions.entries :=
      List.filter_eq_self.2 fun e he => by simpa using hp.not_mem_of_get? hi e he
    rw [← hdelete, spared_of_get?_none hp hi, Assoc.erase, hf]
  | some i => rw [← hdelete, spared_of_get?_some hp hi]

theorem deleteWhere_of_unindexed (hp : h.Paired) (hn : h.positions.get? id = none) :
    h.deleteWhere (· = id) = h := by
  rw [← after_delete (ε := Empty) hp id]
  simp only [after, delete, hn]

/-! ## Adding owners -/

/-- What giving an owner the next position does. -/
structure Adds (id : ObjectId) (index : ObjectIndex) (h h' : Hierarchy) : Prop where
  paired : h'.Paired
  next : index.toNat = h.size
  owners : h'.owners = h.owners.push id
  positions : h'.positions = h.positions.insert id index
  active : ∀ a, h'.active a = h.active a

theorem Adds.size_eq {index : ObjectIndex} {h' : Hierarchy} (ha : Adds id index h h') :
    h'.size = h.size + 1 := by
  rw [size, ha.owners, Array.size_push, size]

theorem Adds.indexOf? {index : ObjectIndex} {h' : Hierarchy} (ha : Adds id index h h')
    (x : ObjectId) : h'.indexOf? x = if x = id then some index else h.indexOf? x := by
  rw [Hierarchy.indexOf?, ha.positions, Assoc.get?_insert, Hierarchy.indexOf?]

theorem Adds.indexOf?_of_some {index i : ObjectIndex} {h' : Hierarchy} (ha : Adds id index h h')
    (hn : h.indexOf? id = none) {x : ObjectId} (hi : h.indexOf? x = some i) :
    h'.indexOf? x = some i := by
  rw [ha.indexOf?, if_neg, hi]
  rintro rfl
  rw [hn] at hi
  contradiction

/-- An owner without a position is given the next one, or there is none left. -/
theorem insert_cases (hp : h.Paired) (hne : id ≠ ObjectId.null)
    (hn : h.positions.get? id = none) :
    (UInt32.size ≤ h.size ∧ insert (ε := ε) id h = .error (.fault .hierarchyFull) h) ∨
      ∃ index h', insert (ε := ε) id h = .ok index h' ∧ Adds id index h h' := by
  have hnull : ¬ id.isNull = true := fun e => hne (isNull_iff.1 e)
  unfold insert
  rw [if_neg hnull]
  by_cases hfull : UInt32.size ≤ h.owners.size
  · exact Or.inl ⟨hfull, by rw [if_pos hfull]⟩
  · rw [if_neg hfull]
    have hnat : (⟨UInt32.ofNat h.owners.size⟩ : ObjectIndex).toNat = h.owners.size :=
      UInt32.toNat_ofNat_of_lt' (Nat.lt_of_not_le hfull)
    refine Or.inr ⟨_, _, rfl, ⟨?_, ?_, ?_⟩, hnat, rfl, rfl, fun a => by cases a <;> rfl⟩
    · rw [Array.size_push]
      omega
    · intro i x hx hxne
      rw [Assoc.get?_insert]
      rw [Array.getElem?_push] at hx
      by_cases hi : i = h.owners.size
      · rw [if_pos hi, Option.some.injEq] at hx
        rw [if_pos hx.symm, hi]
      · rw [if_neg hi] at hx
        have hget := hp.position i x hx hxne
        rw [if_neg, hget]
        rintro rfl
        rw [hn] at hget
        contradiction
    · intro e he
      rw [Array.getElem?_push]
      rcases Assoc.mem_insert he with rfl | he
      · rw [if_pos hnat]
        exact ⟨rfl, hne⟩
      · obtain ⟨howner, hene⟩ := hp.owner e he
        have hb := (Array.getElem?_eq_some_iff.1 howner).1
        rw [if_neg (Nat.ne_of_lt hb)]
        exact ⟨howner, hene⟩

/-! ## Positions over time -/

/-- No position that was handed out comes to have another owner. -/
structure Grows (h h' : Hierarchy) : Prop where
  size_le : h.size ≤ h'.size
  owner : ∀ i id, i < h.size → h'.owners[i]? = some id → id ≠ ObjectId.null →
    h.owners[i]? = some id

namespace Grows

theorem of_owners {h' : Hierarchy} (ho : h'.owners = h.owners) : Grows h h' where
  size_le := by rw [size, size, ho]
  owner := by
    rw [ho]
    exact fun _ _ _ hi _ => hi

theorem idAt? {h' : Hierarchy} (hg : Grows h h') {i : ObjectIndex} (hi : i.toNat < h.size)
    (hid : h'.idAt? i = some id) : h.idAt? i = some id := by
  obtain ⟨ho, hne⟩ := idAt?_eq_some_iff_owner.1 hid
  exact idAt?_eq_some_iff_owner.2 ⟨hg.owner i.toNat id hi ho hne, hne⟩

theorem trans {h' h'' : Hierarchy} (hg : Grows h h') (hg' : Grows h' h'') : Grows h h'' where
  size_le := Nat.le_trans hg.size_le hg'.size_le
  owner := fun i id hi ho hne =>
    hg.owner i id hi (hg'.owner i id (Nat.lt_of_lt_of_le hi hg.size_le) ho hne) hne

theorem of_adds {h' : Hierarchy} {index : ObjectIndex} (ha : Adds id index h h') : Grows h h' where
  size_le := by
    rw [ha.size_eq]
    exact Nat.le_succ _
  owner := by
    intro i x hi ho _
    have hi : i ≠ h.owners.size := Nat.ne_of_lt hi
    rwa [ha.owners, Array.getElem?_push, if_neg hi] at ho

theorem deleteWhere (hp : h.Paired) (p : ObjectId → Bool) : Grows h (h.deleteWhere p) where
  size_le := Nat.le_of_eq (size_deleteWhere hp p).symm
  owner := by
    intro i id _ ho hne
    rw [owners_deleteWhere hp, getElem?_spared] at ho
    obtain ⟨x, hx, hid⟩ := Option.map_eq_some_iff.1 ho
    split at hid
    · exact absurd hid.symm hne
    · rw [hx, hid]

end Grows

/-- Which scopes are active is noted apart from the owners. -/
theorem Paired.of_owners (hp : h.Paired) {h' : Hierarchy} (howners : h'.owners = h.owners)
    (hpositions : h'.positions = h.positions) : h'.Paired := by
  refine ⟨?_, ?_, ?_⟩ <;> rw [howners]
  · exact hp.size_le
  · rw [hpositions]
    exact hp.position
  · rw [hpositions]
    exact hp.owner

theorem active_clearActive (h : Hierarchy) (id : ObjectId) (a : ActiveScope) :
    (h.clearActive id).active a = (h.active a).filter (· ≠ id) := by
  cases a <;> rfl

theorem active_setActive_self (h : Hierarchy) (a : ActiveScope) (id : Option ObjectId) :
    (h.setActive a id).active a = id := by
  cases a <;> rfl

theorem active_setActive_other (h : Hierarchy) {a b : ActiveScope} (hb : b ≠ a)
    (id : Option ObjectId) : (h.setActive a id).active b = h.active b := by
  cases a <;> cases b <;> first | rfl | exact absurd rfl hb

theorem active_deleteWhere (h : Hierarchy) (p : ObjectId → Bool) (a : ActiveScope) :
    (h.deleteWhere p).active a = h.active a := by
  cases a <;> rfl

end Hierarchy
end DesignStore
