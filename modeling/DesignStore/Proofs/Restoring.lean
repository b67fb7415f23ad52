/-
Restoring a hierarchy from its entries.

What a table shows of itself are the owners by position (`entries`).  The empty positions are
left out, and so is the position that each owner is found at.  Nothing is lost by that as long as
no owner is taken in while it has a position: then owners and positions are paired, and the
entries say all that the table says (`pairing_entries`).

The entries may be put back in any order.  A table that is restored halfway shows the pairs that
were put back so far (`Shows`), and one more pair that shares neither its position nor its owner
with them is shown as well (`Shows.place`).  So in the end both tables show the same
(`restored_from_entries`).
-/
import DesignStore.Proofs.PositionHistory

namespace DesignStore
namespace Hierarchy

variable {h : Hierarchy} {id : ObjectId} {index : ObjectIndex}
  {l l' : List (ObjectIndex × ObjectId)}

/-! ## Histories without repetition -/

/-- The request takes in an owner that has no position, deletes an owner or empties the table. -/
def Request.Regular (h : Hierarchy) : Request → Prop
  | insert id => id ≠ ObjectId.null ∧ h.indexOf? id = none
  | delete _ => True
  | place _ _ => False
  | reset => True

instance (h : Hierarchy) : (q : Request) → Decidable (q.Regular h)
  | .insert id => inferInstanceAs (Decidable (id ≠ ObjectId.null ∧ h.indexOf? id = none))
  | .delete _ => .isTrue trivial
  | .place _ _ => .isFalse False.elim
  | .reset => .isTrue trivial

/-- All requests of a history are regular. -/
def Regular : Hierarchy → List Request → Prop
  | _, [] => True
  | h, q :: l => q.Regular h ∧ Regular (after q.perform h) l

instance decidableRegular : (h : Hierarchy) → (l : List Request) → Decidable (Regular h l)
  | _, [] => .isTrue trivial
  | h, q :: l =>
    have := decidableRegular (after q.perform h) l
    inferInstanceAs (Decidable (q.Regular h ∧ Regular (after q.perform h) l))

theorem Paired.perform (hp : h.Paired) {q : Request} (hq : q.Regular h) :
    (after q.perform h).Paired := by
  cases q with
  | insert id =>
    rw [after_perform_insert]
    rcases insert_cases (ε := DbError) hp hq.1 hq.2 with ⟨_, hr⟩ | ⟨index, h', hr, ha⟩
    · rwa [after_error hr]
    · rw [after_ok hr]
      exact ha.paired
  | delete id =>
    rw [after_perform_delete, after_delete hp]
    exact paired_deleteWhere hp _
  | place index id => exact hq.elim
  | reset => exact paired_empty

theorem Paired.run (hp : h.Paired) {l : List Request} (hl : Regular h l) : (run l h).Paired := by
  induction l generalizing h with
  | nil => exact hp
  | cons q l ih => exact ih (hp.perform hl.1) hl.2

/-! ## Lists of pairs -/

/-- Owners and positions that can be paired as a list says: no two pairs share either. -/
structure Pairing (l : List (ObjectIndex × ObjectId)) : Prop where
  valid : ∀ e ∈ l, e.1.isInvalid = false ∧ e.2 ≠ ObjectId.null
  positions : (l.map (·.1)).Nodup
  owners : (l.map (·.2)).Nodup

theorem Pairing.sublist (h : Pairing l') (hl : l.Sublist l') : Pairing l where
  valid := fun e he => h.valid e (hl.subset he)
  positions := h.positions.sublist (hl.map _)
  owners := h.owners.sublist (hl.map _)

theorem Pairing.perm (h : Pairing l) (hl : l.Perm l') : Pairing l' where
  valid := fun e he => h.valid e (hl.mem_iff.2 he)
  positions := (hl.map _).nodup_iff.1 h.positions
  owners := (hl.map _).nodup_iff.1 h.owners

theorem pairing_entries (ho : h.Orderly) (hp : h.Paired) : Pairing h.entries where
  valid := by
    intro e he
    have hat := (mem_entries ho).1 he
    exact ⟨isInvalid_of_indexOf? ho (hp.idAt?_eq_some_iff.1 hat), (idAt?_eq_some_iff_owner.1 hat).2⟩
  positions := by
    refine (nodup_entries ho).map_on fun e he e' he' hi => ?_
    rw [mem_entries ho] at he he'
    rw [hi, he'] at he
    exact Prod.ext hi (Option.some.inj he).symm
  owners := by
    refine (nodup_entries ho).map_on fun e he e' he' hid => ?_
    rw [mem_entries ho, hp.idAt?_eq_some_iff] at he he'
    rw [hid, he'] at he
    exact Prod.ext (Option.some.inj he).symm hid

/-! ## Putting pairs back -/

/-- The table has the owners of a list at the positions of the list, finds them there, and is no
longer than that takes. -/
structure Shows (l : List (ObjectIndex × ObjectId)) (h : Hierarchy) : Prop where
  orderly : h.Orderly
  idAt? : ∀ i id, h.idAt? i = some id ↔ (i, id) ∈ l
  indexOf? : ∀ i id, h.indexOf? id = some i ↔ (i, id) ∈ l
  size : h.size = 1 ∨ ∃ e ∈ l, h.size = e.1.toNat + 1

theorem shows_empty : empty.Shows [] where
  orderly := orderly_empty
  idAt? := by
    intro i id
    simp only [List.not_mem_nil, iff_false]
    intro hi
    have hlt := lt_size_of_idAt? empty hi
    have h0 : i = ObjectIndex.invalid := index_eq_of_toNat (Nat.lt_one_iff.1 hlt)
    rw [h0, orderly_empty.reserved] at hi
    contradiction
  indexOf? := by simp [Hierarchy.indexOf?, empty, Assoc.get?]
  size := Or.inl rfl

theorem place_ok (ho : h.Orderly) (hindex : index.isInvalid = false) (hid : id ≠ ObjectId.null) :
    ∃ h', place (ε := DbError) index id h = .ok () h' ∧ Gives index id h h' := by
  rcases place_spec (ε := DbError) ho index id with ⟨f, hf⟩ | hg
  · rw [place, if_neg (by simp [hindex]), if_neg (fun hn => hid (isNull_iff.1 hn))] at hf
    contradiction
  · exact hg

/-- The pair that is put back last is new in both parts, so nothing gives way to it. -/
theorem Shows.place (hs : h.Shows l) (hl : Pairing (l ++ [(index, id)])) :
    ∃ h', Hierarchy.place (ε := DbError) index id h = .ok () h' ∧
      h'.Shows (l ++ [(index, id)]) := by
  obtain ⟨hindex, hid⟩ := hl.valid (index, id) (by simp)
  obtain ⟨h', hr, hg⟩ := place_ok hs.orderly hindex hid
  have hposition (x : ObjectId) : (index, x) ∉ l := fun hx => by
    have hn := hl.positions
    rw [List.map_append, List.nodup_append] at hn
    exact hn.2.2 index (List.mem_map.2 ⟨_, hx, rfl⟩) index (by simp) rfl
  have howner (i : ObjectIndex) : (i, id) ∉ l := fun hi => by
    have hn := hl.owners
    rw [List.map_append, List.nodup_append] at hn
    exact hn.2.2 id (List.mem_map.2 ⟨_, hi, rfl⟩) id (by simp) rfl
  have horderly : h'.Orderly := by
    have hperform := hs.orderly.perform (.place index id)
    rwa [after_ok (show (Request.place index id).perform h = .ok () h' from hr)] at hperform
  refine ⟨h', hr, horderly, fun i x => ?_, fun i x => ?_, ?_⟩
  · rw [hg.idAt?, List.mem_append, List.mem_singleton, Prod.mk.injEq]
    by_cases hi : i = index
    · rw [if_pos hi, hi]
      simp [hposition x, eq_comm]
    · rw [if_neg hi, hs.idAt?]
      simp [hi]
  · rw [hg.indexOf?, List.mem_append, List.mem_singleton, Prod.mk.injEq]
    have hne : h.indexOf? x ≠ some index := fun hx => hposition x ((hs.indexOf? index x).1 hx)
    by_cases hx : x = id
    · rw [if_pos hx, hx]
      simp [howner i, eq_comm]
    · rw [if_neg hx, if_neg hne, hs.indexOf?]
      simp [hx]
  · have hnew : (index, id) ∈ l ++ [(index, id)] := by simp
    rw [hg.size]
    by_cases hle : h.size ≤ index.toNat + 1
    · exact Or.inr ⟨_, hnew, Nat.max_eq_right hle⟩
    · rcases hs.size with h1 | ⟨e, he, h1⟩
      · omega
      · exact Or.inr ⟨e, List.mem_append_left _ he,
          (Nat.max_eq_left (Nat.le_of_not_le hle)).trans h1⟩

/-- The table after the pairs of a list were put at their positions, one after the other. -/
def restored (h : Hierarchy) (l : List (ObjectIndex × ObjectId)) : Hierarchy :=
  run (l.map fun e => .place e.1 e.2) h

theorem restored_concat (h : Hierarchy) (l : List (ObjectIndex × ObjectId))
    (e : ObjectIndex × ObjectId) :
    h.restored (l ++ [e]) = after (place (ε := DbError) e.1 e.2) (h.restored l) := by
  rw [restored, List.map_append, run_append]
  rfl

theorem shows_restored (hl : Pairing l) : (empty.restored l).Shows l := by
  induction l using List.reverseRecOn with
  | nil => exact shows_empty
  | append_singleton l e ih =>
    obtain ⟨h', hr, hs⟩ := (ih (hl.sublist (List.sublist_append_left l [e]))).place hl
    rwa [restored_concat, after_ok hr]

/-- Two tables with the same owners at the same positions have the same entries. -/
theorem entries_congr {h' : Hierarchy} (ho : h.Orderly) (ho' : h'.Orderly)
    (hat : ∀ i, h'.idAt? i = h.idAt? i) : h'.entries = h.entries := by
  have hperm : h'.entries.Perm h.entries := by
    refine (List.perm_ext_iff_of_nodup (nodup_entries ho') (nodup_entries ho)).2 fun e => ?_
    rw [mem_entries ho', mem_entries ho, hat]
  refine hperm.eq_of_pairwise (fun e e' _ _ hlt hlt' => ?_) (pairwise_entries ho')
    (pairwise_entries ho)
  exact absurd hlt' (Nat.lt_asymm hlt)

/-- The next owner is put above all that were put back, unless one of these is at the last
position there is. -/
theorem Shows.insert (hs : h.Shows l) (hid : id ≠ ObjectId.null) :
    (∃ index h', Hierarchy.insert (ε := DbError) id h = .ok index h' ∧
        ∀ e ∈ l, e.1.toNat < index.toNat) ∨
      (Hierarchy.insert (ε := DbError) id h = .error (.fault .hierarchyFull) h ∧
        ∃ e ∈ l, e.1.toNat + 1 = UInt32.size) := by
  have hnull : ¬ id.isNull = true := fun hn => hid (isNull_iff.1 hn)
  rcases Nat.lt_or_ge h.owners.size UInt32.size with hroom | hfull
  · rcases insert_spec (ε := DbError) hs.orderly id with ⟨f, hf⟩ | ⟨index, h', hr, hnat, _⟩
    · rw [Hierarchy.insert, if_neg hnull, if_neg (Nat.not_le.2 hroom)] at hf
      contradiction
    · refine Or.inl ⟨index, h', hr, fun e he => ?_⟩
      rw [hnat]
      exact lt_size_of_idAt? h ((hs.idAt? e.1 e.2).2 he)
  · refine Or.inr ⟨by rw [Hierarchy.insert, if_neg hnull, if_pos hfull], ?_⟩
    have hsize : h.size = UInt32.size := Nat.le_antisymm hs.orderly.size_le hfull
    rcases hs.size with h1 | ⟨e, he, h1⟩
    · rw [h1] at hsize
      contradiction
    · exact ⟨e, he, h1.symm.trans hsize⟩

end Hierarchy

/-- Putting pairs back into the hierarchy of a database changes the hierarchy alone. -/
theorem Database.restoreHierarchy_ok {db : Database} (ho : db.hierarchy.Orderly)
    {l : List (ObjectIndex × ObjectId)}
    (hl : ∀ e ∈ l, e.1.isInvalid = false ∧ e.2 ≠ ObjectId.null) :
    restoreHierarchy l db = .ok ⟨⟩ { db with hierarchy := db.hierarchy.restored l } := by
  induction l generalizing db with
  | nil => rfl
  | cons e l ih =>
    obtain ⟨hindex, hid⟩ := hl e List.mem_cons_self
    obtain ⟨h', hr, _⟩ := Hierarchy.place_ok ho hindex hid
    have hfirst : onHierarchy (Hierarchy.place (ε := DbError) e.1 e.2) db =
        .ok () { db with hierarchy := h' } := by
      simp only [onHierarchy, hr]
    have hperform : (Hierarchy.Request.place e.1 e.2).perform db.hierarchy = .ok () h' := hr
    have ho' : ({ db with hierarchy := h' } : Database).hierarchy.Orderly := by
      have hnext := ho.perform (.place e.1 e.2)
      rwa [after_ok hperform] at hnext
    have hrest := ih ho' fun e' he' => hl e' (List.mem_cons_of_mem e he')
    rw [restoreHierarchy, bind_ok hfirst, hrest]
    show _ = EStateM.Result.ok _
      { db with hierarchy := Hierarchy.run _ (after (Hierarchy.Request.place e.1 e.2).perform _) }
    rw [after_ok hperform]
    rfl

namespace Hierarchy

/-- Let a table come about by deleting, by emptying it and by taking in owners that have no
position, and let its entries be put back into an empty table, in any order.  No pair is refused,
and the table then has the same entries, the same owner at every position and the same position
for every owner.  The next owner is put above all of them; only when one of them is at the last
position there is, there is none above. -/
theorem restored_from_entries {l : List Request} (hl : Regular empty l)
    {pairs : List (ObjectIndex × ObjectId)} (hpairs : pairs.Perm (run l empty).entries) :
    let h := run l empty
    let h' := empty.restored pairs
    (∀ c, Database.restoreHierarchy pairs (Database.empty c) =
        .ok ⟨⟩ { Database.empty c with hierarchy := h' }) ∧
      h'.entries = h.entries ∧ (∀ i, h'.idAt? i = h.idAt? i) ∧
      (∀ id, h'.indexOf? id = h.indexOf? id) ∧
      ∀ id, id ≠ ObjectId.null →
        (∃ index h'', insert (ε := DbError) id h' = .ok index h'' ∧
            ∀ e ∈ pairs, e.1.toNat < index.toNat) ∨
          (insert (ε := DbError) id h' = .error (.fault .hierarchyFull) h' ∧
            ∃ e ∈ pairs, e.1.toNat + 1 = UInt32.size) := by
  intro h h'
  have ho : h.Orderly := orderly_empty.run l
  have hp : h.Paired := paired_empty.run hl
  have hpairing : Pairing pairs := (pairing_entries ho hp).perm hpairs.symm
  have hs : h'.Shows pairs := shows_restored hpairing
  have hat (i : ObjectIndex) : h'.idAt? i = h.idAt? i := by
    refine Option.ext fun id => ?_
    rw [hs.idAt?, hpairs.mem_iff, mem_entries ho]
  refine ⟨fun c => Database.restoreHierarchy_ok orderly_empty hpairing.valid,
    entries_congr ho hs.orderly hat, hat, fun id => ?_, fun id hid => hs.insert hid⟩
  refine Option.ext fun i => ?_
  rw [hs.indexOf?, hpairs.mem_iff, mem_entries ho, hp.idAt?_eq_some_iff]

/-- The entries of a table with an empty position in it, put back from the last to the first.
The next owner is at position 5. -/
theorem restored_from_entries_backwards :
    let l : List Request := [.insert ⟨7⟩, .insert ⟨8⟩, .delete ⟨7⟩, .insert ⟨9⟩, .insert ⟨7⟩]
    let pairs : List (ObjectIndex × ObjectId) := [(⟨4⟩, ⟨7⟩), (⟨3⟩, ⟨9⟩), (⟨2⟩, ⟨8⟩)]
    let h' := empty.restored pairs
    Regular empty l ∧ pairs.Perm (run l empty).entries ∧ h'.entries = pairs.reverse ∧
      h'.idAt? ⟨1⟩ = none ∧ h'.indexOf? ⟨7⟩ = some ⟨4⟩ ∧
      answer (insert (ε := DbError) ⟨5⟩) h' = .ok ⟨5⟩ := by
  intro l pairs h'
  have hl : Regular empty l := by decide +kernel
  have hentries : (run l empty).entries = pairs.reverse := by decide +kernel
  have hpairs : pairs.Perm (run l empty).entries := hentries ▸ pairs.reverse_perm.symm
  obtain ⟨_, hback, hat, hfound, _⟩ := restored_from_entries hl hpairs
  refine ⟨hl, hpairs, hback.trans hentries, (hat ⟨1⟩).trans ?_, (hfound ⟨7⟩).trans ?_, ?_⟩
  all_goals decide +kernel

end Hierarchy
end DesignStore
