/-
Owners are live, and records note positions that were handed out.

A database is `Anchored` if every owner in the hierarchy is a live record, the owners of the
open scopes are among them, and the position in the header of every live record is one the
hierarchy has handed out.  Headers and positions that are written by hand can break this; no
other command does.
-/
import DesignStore.Proofs.Upkeep

namespace DesignStore

/-- The commands that write no header and put no owner at a position by hand. -/
def Command.LeavesHeaders : Command → Prop
  | .restoreHierarchy _ | .writeHeader _ _ | .editHeader _ _ => False
  | .write _ _ f => ∀ x, (f x).header = x.header
  | _ => True

namespace Database

open Registry

variable {ε : Type} {db db' : Database} {id o : ObjectId} {s : StorageScope} {e : Entry}

/-- The hierarchy knows the owner of every open scope and no owner that is not live, and no
live record notes a position it has not handed out. -/
structure Anchored (db : Database) : Prop extends Tidy db where
  live : ∀ id i, db.hierarchy.indexOf? id = some i → db.registry.Live id
  owned : ∀ id e, db.registry.stored? id = some e → e.owner.toNat < db.hierarchy.size
  index : ∀ s ∈ db.scopes, db.hierarchy.indexOf? s.owner = some s.index
  scope : ∀ s ∈ db.scopes, db.registry.scopeOf? s.owner = some s.tag

theorem ownerId?_eq (h : db.registry.Sound) (id : ObjectId) :
    db.ownerId? id = (db.registry.stored? id).bind fun e => db.hierarchy.idAt? e.owner := by
  rw [ownerId?, header?_eq_stored? h]
  cases db.registry.stored? id <;> rfl

theorem climb_succ (db : Database) (n : Nat) (id : ObjectId) :
    db.climb (n + 1) id = if db.registry.isScopeOwner id = true then some (some id)
      else match db.ownerId? id with
        | none => some none
        | some owner => db.climb n owner := rfl

/-- The owner of a scope belongs to that scope. -/
theorem scopeRoot_of_owner (hid : db.registry.isScopeOwner id = true) :
    db.scopeRoot id = .ok (some id) := by
  rw [scopeRoot, climb_succ, hid, if_pos rfl]

theorem anchored_empty {c : StoreConfig} (h : c.pool.Valid) : (empty c).Anchored where
  toTidy := tidy_empty h
  live := by
    intro id i hi
    contradiction
  owned := by
    intro id e he
    have hn : (Registry.empty c.pool).stored? id = none :=
      stored?_clear (Registry.empty c.pool) id
    exact absurd (he.symm.trans hn) (Option.some_ne_none e)
  index := by simp [empty]
  scope := by simp [empty]

namespace Anchored

/-- The position a new record notes is one that was handed out. -/
theorem ownerIndexFor?_lt (h : db.Anchored) {i : ObjectIndex}
    (hi : db.ownerIndexFor? o = some i) : i.toNat < db.hierarchy.size := by
  rw [ownerIndexFor?, Option.orElse_eq_orElse, Option.orElse_eq_or, Option.or_eq_some_iff] at hi
  rcases hi with hi | ⟨_, hi⟩
  · exact h.paired.lt_size hi
  · obtain ⟨hi, _⟩ := Option.filter_eq_some_iff.1 hi
    obtain ⟨hd, hhd, rfl⟩ := Option.map_eq_some_iff.1 hi
    rw [header?_eq_stored? h.sound] at hhd
    obtain ⟨e, he, rfl⟩ := Option.map_eq_some_iff.1 hhd
    exact h.owned o e he

theorem live_of_ownerId? (h : db.Anchored) (ho : db.ownerId? id = some o) :
    db.registry.Live o := by
  rw [ownerId?_eq h.sound] at ho
  obtain ⟨e, _, ho⟩ := Option.bind_eq_some_iff.1 ho
  exact h.live o e.owner (h.paired.idAt?_eq_some_iff.1 ho)

/-- Records may change where the frame stays, as long as they stay live and note positions
that were handed out. -/
theorem of_frame (h : db.Anchored) (hf : SameFrame db db')
    (hlive : ∀ id, db.registry.Live id → db'.registry.Live id)
    (howned : ∀ id e, db'.registry.stored? id = some e → e.owner.toNat < db.hierarchy.size) :
    db'.Anchored where
  toTidy := hf.tidy h.toTidy
  live := by
    intro id i hi
    rw [hf.hierarchy] at hi
    exact hlive id (h.live id i hi)
  owned := by
    rw [hf.hierarchy]
    exact howned
  index := by
    intro s hs
    obtain ⟨t, ht, howner, _, hindex, _⟩ := exists_of_frames hf.frames hs
    rw [hf.hierarchy, ← howner, ← hindex]
    exact h.index t ht
  scope := by
    intro s hs
    obtain ⟨t, ht, howner, htag, _⟩ := exists_of_frames hf.frames hs
    rw [scopeOf?, hf.owners, ← howner, ← htag]
    exact h.scope t ht

theorem of_places (h : db.Anchored) (hp : SamePlaces db db') : db'.Anchored := by
  refine h.of_frame hp.toSameFrame (fun _ => hp.live) fun id e he => ?_
  have hm := hp.marks id
  rw [he, Option.map_some, eq_comm, Option.map_eq_some_iff] at hm
  obtain ⟨e', he', hm⟩ := hm
  rw [← show e'.owner = e.owner from congrArg Prod.fst hm]
  exact h.owned id e' he'

/-- A live record stays live, and if it notes another position then one that was handed
out. -/
theorem of_stores (h : db.Anchored) {x : Option Entry} {new : List ScopeTag} {r : Registry}
    (hs : Stores id x new db.registry r) (hlive : db.registry.Live id → x.isSome = true)
    (howned : ∀ e, x = some e → e.owner.toNat < db.hierarchy.size) :
    Anchored { db with registry := r } := by
  refine h.of_frame (SameFrame.of_stores hs) (fun _ => hs.live hlive) fun j e he => ?_
  by_cases hj : j = id
  · rw [hj, hs.self] at he
    exact howned e he
  · rw [hs.other hj] at he
    exact h.owned j e he

theorem of_touches (h : db.Anchored) {c : Change} {r : Registry} (ht : Touches id c db.registry r)
    (hc : ∀ o, db.registry.record? id = some o → o.isValid = true →
      (c o.kind o.record).isValid = true)
    (howned : ∀ e, db.registry.stored? id = some e →
      (e.change c).owner.toNat < db.hierarchy.size) : Anchored { db with registry := r } := by
  refine h.of_stores (ht.stores hc) (fun hl => ?_) fun e he => ?_
  · rw [Option.isSome_map]
    exact isSome_stored?_iff.2 hl
  · obtain ⟨e', he', rfl⟩ := Option.map_eq_some_iff.1 he
    exact howned e' he'

theorem of_adds (h : db.Anchored) {index : ObjectIndex} {t : Hierarchy} (hl : db.registry.Live id)
    (hn : db.hierarchy.indexOf? id = none) (ha : Hierarchy.Adds id index db.hierarchy t) :
    Anchored { db with hierarchy := t } where
  toTidy := h.toTidy.of_adds hl ha
  live := by
    intro j i hi
    rw [ha.indexOf?] at hi
    split at hi
    · rename_i hj
      exact hj ▸ hl
    · exact h.live j i hi
  owned := by
    intro j e he
    rw [ha.size_eq]
    exact Nat.lt_succ_of_lt (h.owned j e he)
  index := fun s hs => ha.indexOf?_of_some hn (h.index s hs)
  scope := h.scope

theorem of_opened (h : db.Anchored) (ho : Opened s e db db') : db'.Anchored where
  toTidy := ho.tidy h.toTidy
  live := by
    intro j i hi
    rw [ho.adds.indexOf?] at hi
    by_cases hj : j = s.owner
    · exact hj ▸ ho.live
    · rw [if_neg hj] at hi
      rw [← isSome_stored?_iff, ho.stored, onEntry, if_neg hj, isSome_stored?_iff]
      exact h.live j i hi
  owned := by
    intro j x hx
    rw [ho.adds.size_eq]
    rw [ho.stored, onEntry] at hx
    split at hx
    · cases hx
      rcases ho.owned with howner | ⟨p, hp⟩
      · rw [howner, ho.adds.next]
        exact Nat.lt_succ_self _
      · exact Nat.lt_succ_of_lt (h.ownerIndexFor?_lt hp)
    · exact Nat.lt_succ_of_lt (h.owned j x hx)
  index := by
    intro t ht
    rcases ho.mem_scopes.1 ht with rfl | ⟨q, hq, rfl⟩
    · rw [ho.adds.indexOf?, if_pos rfl]
    · rw [Opened.listing_owner, Opened.listing_index]
      exact ho.adds.indexOf?_of_some (h.unindexed_of_fresh ho.fresh) (h.index q hq)
  scope := by
    intro t ht
    rw [scopeOf?, ho.owners, Assoc.get?_insert]
    rcases ho.mem_scopes.1 ht with rfl | ⟨q, hq, rfl⟩
    · rw [if_pos rfl]
    · rw [(Opened.stays_listing s).owner, (Opened.stays_listing s).tag,
        if_neg (h.ne_owner_of_fresh ho.fresh q hq)]
      exact h.scope q hq

theorem isScopeOwner_of_mem (h : db.Anchored) (hs : s ∈ db.scopes) :
    db.registry.isScopeOwner s.owner = true := by
  rw [isScopeOwner, Assoc.contains, show db.registry.owners.get? s.owner = _ from h.scope s hs]
  rfl

theorem live_of_isScopeOwner (h : db.Anchored) (hid : db.registry.isScopeOwner id = true) :
    db.registry.Live id := by
  obtain ⟨s, hs, rfl⟩ := h.exists_scope hid
  exact h.live s.owner s.index (h.index s hs)

theorem owner_ne_of_not_owner (h : db.Anchored) (hid : db.registry.isScopeOwner id = false) :
    ∀ s ∈ db.scopes, s.owner ≠ id := by
  rintro s hs rfl
  rw [isScopeOwner, Assoc.contains, show db.registry.owners.get? s.owner = _ from h.scope s hs]
    at hid
  contradiction

/-- A record that owns no scope goes, with its position. -/
theorem of_discards (h : db.Anchored) (hd : Discards id db db')
    (hid : db.registry.isScopeOwner id = false) : db'.Anchored where
  toTidy := hd.tidy h.toTidy
  live := by
    intro j i hi
    rw [hd.hierarchy, Hierarchy.indexOf?_deleteWhere] at hi
    split at hi
    · contradiction
    · rename_i hj
      rw [← isSome_stored?_iff, hd.stores.other (by simpa using hj), isSome_stored?_iff]
      exact h.live j i hi
  owned := by
    intro j e he
    rw [hd.hierarchy, Hierarchy.size_deleteWhere h.paired]
    by_cases hj : j = id
    · rw [hj, hd.stores.self] at he
      contradiction
    · rw [hd.stores.other hj] at he
      exact h.owned j e he
  index := by
    intro s hs
    obtain ⟨t, ht, howner, _, hindex, _⟩ := exists_of_frames hd.frames hs
    have hne : t.owner ≠ id := h.owner_ne_of_not_owner hid t ht
    rw [hd.hierarchy, Hierarchy.indexOf?_deleteWhere, ← howner, ← hindex,
      if_neg (by simpa using hne)]
    exact h.index t ht
  scope := by
    intro s hs
    obtain ⟨t, ht, howner, htag, _⟩ := exists_of_frames hd.frames hs
    rw [scopeOf?, hd.stores.owners, ← howner, ← htag]
    exact h.scope t ht

theorem destroyScope (h : db.Anchored) (o : ObjectId) :
    (after (destroyScope o : EStateM ε Database Bool) db).Anchored := by
  cases ho : db.scope? o with
  | none => rwa [after_ok (destroyScope_of_none ho)]
  | some s =>
    have hsurvives : ∀ t ∈ (after (Database.destroyScope o : EStateM ε Database Bool) db).scopes,
        ∃ t' ∈ db.scopes, t' ∉ db.doomed o ∧ t = keepsOf o s t' := by
      intro t ht
      rw [scopes_after_destroyScope h.toTidy ho] at ht
      obtain ⟨t', ht', rfl⟩ := List.mem_map.1 ht
      obtain ⟨ht', hn⟩ := List.mem_filter.1 ht'
      exact ⟨t', ht', by simpa using hn, rfl⟩
    refine ⟨h.toTidy.destroyScope o, fun id i hi => ?_, fun id e he => ?_, fun t ht => ?_,
      fun t ht => ?_⟩
    · rw [indexOf?_after_destroyScope h.toTidy ho] at hi
      split at hi
      · contradiction
      · rename_i hn
        exact live_after_destroyScope h.toTidy ho (h.live id i hi) (by simpa using hn)
    · have hl := isSome_stored?_iff.1 (Option.isSome_of_eq_some he)
      rw [stored?_after_destroyScope h.toTidy ho hl] at he
      exact Nat.lt_of_lt_of_le (h.owned id e he) (grows_after_destroyScope h.toTidy ho).size_le
    · obtain ⟨t', ht', hn, rfl⟩ := hsurvives t ht
      rw [indexOf?_after_destroyScope h.toTidy ho, (stays_keepsOf o s).owner, keepsOf_index,
        not_takes_of_not_mem_doomed h.forest ht' hn]
      exact h.index t' ht'
    · obtain ⟨t', ht', hn, rfl⟩ := hsurvives t ht
      rw [(stays_keepsOf o s).owner, (stays_keepsOf o s).tag]
      refine scopeOf?_after_destroyScope h.toTidy ho (h.scope t' ht') fun g hg htag => hn ?_
      rwa [← h.forest.eq_of_tag ((mem_doomed h.forest).1 hg).1 ht' htag]

theorem setActive (h : db.Anchored) (a : ActiveScope) (x : Option ObjectId) :
    Anchored { db with hierarchy := db.hierarchy.setActive a x } where
  toTidy := upkeep_setActive (ε := Empty) a x db h.toTidy
  live := by cases a <;> exact h.live
  owned := by cases a <;> exact h.owned
  index := by cases a <;> exact h.index
  scope := h.scope

theorem reset (h : db.Anchored) : db.reset.Anchored where
  toTidy := upkeep_reset db h.toTidy
  live := by
    intro id i hi
    contradiction
  owned := by
    intro id e he
    exact absurd (he.symm.trans (stored?_clear db.registry id)) (Option.some_ne_none e)
  index := by simp [Database.reset]
  scope := by simp [Database.reset]

end Anchored
end Database
end DesignStore
