/-
The parts of a database are in step.

Scopes, pools, the table of owners, the hierarchy and the slots of active scopes each hold a
part of the same structure, and the root record of a scope notes its position once more.  A
database is `Settled` if they agree.  Every command leaves it so, also one that is refused half
way, as long as the positions of the hierarchy do not run out (`structured_run`).
-/
import DesignStore.Proofs.OwnerChain

namespace DesignStore

/-- The commands that do not write the position of a scope to its root record by hand. -/
def Command.LeavesHierIndex : Command → Prop
  | .write k _ f => ∀ x, k.hierIndex? (f x).body = k.hierIndex? x.body
  | _ => True

namespace Database

open Registry

variable {ε α : Type} {db db' : Database} {id o : ObjectId} {s : StorageScope} {e : Entry}

/-- Every pool is that of an open scope, and the root record of a scope notes its position. -/
structure Enrolled (db : Database) : Prop extends Anchored db where
  tags_eq : db.registry.tags = db.scopes.map (·.tag)
  hierIndex : ∀ s ∈ db.scopes,
    (db.registry.stored? s.owner).bind (·.hierIndex?) = some s.index

/-- Active are the scopes that lie in no other, each in a slot of its sort. -/
structure Settled (db : Database) : Prop extends Enrolled db where
  active : ∀ a id, db.hierarchy.active a = some id →
    id.type? = some a.type ∧ ∃ s ∈ db.scopes, s.owner = id ∧ s.parent = none
  heads : ∀ s ∈ db.scopes, s.parent = none → ∃ a, db.hierarchy.active a = some s.owner

namespace Enrolled

theorem of_frame (h : db.Enrolled) (ha : db'.Anchored) (hf : SameFrame db db')
    (htags : db'.registry.tags = db.registry.tags)
    (hindex : ∀ s ∈ db.scopes, (db'.registry.stored? s.owner).bind (·.hierIndex?) =
      (db.registry.stored? s.owner).bind (·.hierIndex?)) : db'.Enrolled where
  toAnchored := ha
  tags_eq := by rw [htags, h.tags_eq, map_tag_of_frames hf.frames]
  hierIndex := by
    intro s hs
    obtain ⟨t, ht, howner, _, hi, _⟩ := exists_of_frames hf.frames hs
    rw [← howner, hindex t ht, h.hierIndex t ht, hi]

theorem of_places (h : db.Enrolled) (hp : SamePlaces db db') : db'.Enrolled := by
  refine h.of_frame (h.toAnchored.of_places hp) hp.toSameFrame hp.tags_eq fun s _ => ?_
  have hm := congrArg (Option.bind · Prod.snd) (hp.marks s.owner)
  rwa [Option.bind_map, Option.bind_map] at hm

theorem of_opened (h : db.Enrolled) (ho : Opened s e db db') : db'.Enrolled where
  toAnchored := h.toAnchored.of_opened ho
  tags_eq := by
    rw [ho.tags, ho.scopes, List.map_cons, (Opened.stays_listing s).map_tag, h.tags_eq]
  hierIndex := by
    intro t ht
    rw [ho.stored, onEntry]
    rcases ho.mem_scopes.1 ht with rfl | ⟨q, hq, rfl⟩
    · rw [if_pos rfl]
      exact ho.hierIndex
    · rw [Opened.listing_owner, Opened.listing_index, if_neg (h.ne_owner_of_fresh ho.fresh q hq)]
      exact h.hierIndex q hq

theorem of_discards (h : db.Enrolled) (hd : Discards id db db')
    (hid : db.registry.isScopeOwner id = false) : db'.Enrolled where
  toAnchored := h.toAnchored.of_discards hd hid
  tags_eq := hd.stores.tags.trans (h.tags_eq.trans (map_tag_of_frames hd.frames).symm)
  hierIndex := by
    intro s hs
    obtain ⟨t, ht, howner, _, hi, _⟩ := exists_of_frames hd.frames hs
    have hne : t.owner ≠ id := h.owner_ne_of_not_owner hid t ht
    rw [← howner, hd.stores.other hne, ← hi]
    exact h.hierIndex t ht

theorem destroyScope (h : db.Enrolled) (o : ObjectId) :
    (after (destroyScope o : EStateM ε Database Bool) db).Enrolled := by
  have ha := h.toAnchored.destroyScope (ε := ε) o
  cases ho : db.scope? o with
  | none => rwa [after_ok (destroyScope_of_none ho)]
  | some s =>
    have hscopes := scopes_after_destroyScope (ε := ε) h.toTidy ho
    refine ⟨ha, ?_, fun t ht => ?_⟩
    · rw [tags_after_destroyScope h.toTidy ho, h.tags_eq, hscopes, (stays_keepsOf o s).map_tag,
        List.filter_map]
      refine congrArg (List.map _) (List.filter_congr fun t ht => ?_)
      rw [Function.comp_apply, any_doomed fun g hg => h.forest.eq_of_tag hg ht, decide_not]
    · have hlive := ha.live _ _ (ha.index t ht)
      rw [stored?_after_destroyScope h.toTidy ho hlive]
      rw [hscopes] at ht
      obtain ⟨t', ht', rfl⟩ := List.mem_map.1 ht
      rw [(stays_keepsOf o s).owner, keepsOf_index]
      exact h.hierIndex t' (List.mem_filter.1 ht').1

end Enrolled

namespace Settled

/-- Which scopes are open where, and which are active, is all that is asked of a settled
database beside that it is enrolled. -/
theorem of_frames (h : db.Settled) (he : db'.Enrolled)
    (hactive : ∀ a, db'.hierarchy.active a = db.hierarchy.active a)
    (hframes : db'.scopes.map (·.frame) = db.scopes.map (·.frame)) : db'.Settled where
  toEnrolled := he
  active := by
    intro a id hid
    rw [hactive] at hid
    obtain ⟨htype, s, hs, hso, hp⟩ := h.active a id hid
    obtain ⟨t, ht, howner, _, _, hparent, _⟩ := exists_of_frames hframes.symm hs
    exact ⟨htype, t, ht, howner.trans hso, hparent.trans hp⟩
  heads := by
    intro s hs hp
    obtain ⟨t, ht, howner, _, _, hparent, _⟩ := exists_of_frames hframes hs
    obtain ⟨a, ha⟩ := h.heads t ht (hparent.trans hp)
    exact ⟨a, by rw [hactive, ha, howner]⟩

theorem of_places (h : db.Settled) (hp : SamePlaces db db') : db'.Settled :=
  h.of_frames (h.toEnrolled.of_places hp) (fun a => by rw [hp.hierarchy]) hp.frames

/-- A nested scope is opened. -/
theorem of_opened (h : db.Settled) (ho : Opened s e db db') (hp : s.parent.isSome = true) :
    db'.Settled where
  toEnrolled := h.toEnrolled.of_opened ho
  active := by
    intro a id hid
    rw [ho.adds.active] at hid
    obtain ⟨htype, t, ht, hto, htp⟩ := h.active a id hid
    exact ⟨htype, s.listing t, ho.listing_mem ht, (Opened.listing_owner s t).trans hto,
      ((Opened.stays_listing s).parent t).trans htp⟩
  heads := by
    intro t ht htp
    rcases ho.mem_scopes.1 ht with rfl | ⟨q, hq, rfl⟩
    · rw [htp] at hp
      contradiction
    · obtain ⟨a, ha⟩ := h.heads q hq (((Opened.stays_listing s).parent q).symm.trans htp)
      exact ⟨a, by rw [ho.adds.active, ha, Opened.listing_owner]⟩

theorem destroyScope (h : db.Settled) (o : ObjectId) :
    (after (destroyScope o : EStateM ε Database Bool) db).Settled := by
  have he := h.toEnrolled.destroyScope (ε := ε) o
  cases ho : db.scope? o with
  | none => rwa [after_ok (destroyScope_of_none ho)]
  | some s =>
    have hscopes := scopes_after_destroyScope (ε := ε) h.toTidy ho
    refine ⟨he, fun a id hid => ?_, fun t ht hp => ?_⟩
    · rw [active_after_destroyScope h.toTidy ho] at hid
      obtain ⟨hid, hn⟩ := Option.filter_eq_some_iff.1 hid
      obtain ⟨htype, t, ht, rfl, hp⟩ := h.active a id hid
      rw [any_owner_doomed h.forest ht] at hn
      rw [hscopes]
      exact ⟨htype, keepsOf o s t, List.mem_map_of_mem (List.mem_filter.2 ⟨ht, by simpa using hn⟩),
        (stays_keepsOf o s).owner t, ((stays_keepsOf o s).parent t).trans hp⟩
    · rw [hscopes] at ht
      obtain ⟨t', ht', rfl⟩ := List.mem_map.1 ht
      obtain ⟨ht', hn⟩ := List.mem_filter.1 ht'
      obtain ⟨a, ha⟩ := h.heads t' ht' (((stays_keepsOf o s).parent t').symm.trans hp)
      refine ⟨a, ?_⟩
      rw [active_after_destroyScope h.toTidy ho, ha, (stays_keepsOf o s).owner, Option.filter_some,
        any_owner_doomed h.forest ht', if_pos (by simpa using hn)]

theorem reset (h : db.Settled) : db.reset.Settled where
  toAnchored := h.toAnchored.reset
  tags_eq := rfl
  hierIndex := by simp [Database.reset]
  active := by
    intro a id hid
    cases a <;> contradiction
  heads := by simp [Database.reset]

/-! ## Replacing an active scope -/

/-- A scope that lies in no other is opened, and takes an empty slot of its sort. -/
theorem of_opened_active (h : db.Settled) {a : ActiveScope} (ha : db.hierarchy.active a = none)
    (ho : Opened s e db db') (hp : s.parent = none) (htype : s.owner.type? = some a.type) :
    Settled { db' with hierarchy := db'.hierarchy.setActive a (some s.owner) } where
  toEnrolled :=
    { (h.toEnrolled.of_opened ho).toAnchored.setActive a (some s.owner) with
      tags_eq := (h.toEnrolled.of_opened ho).tags_eq
      hierIndex := (h.toEnrolled.of_opened ho).hierIndex }
  active := by
    intro b id hid
    by_cases hb : b = a
    · subst hb
      rw [Hierarchy.active_setActive_self] at hid
      cases hid
      exact ⟨htype, s, ho.mem_scopes.2 (Or.inl rfl), rfl, hp⟩
    · rw [Hierarchy.active_setActive_other _ hb, ho.adds.active] at hid
      obtain ⟨htype', t, ht, hto, htp⟩ := h.active b id hid
      exact ⟨htype', s.listing t, ho.listing_mem ht, (Opened.listing_owner s t).trans hto,
        ((Opened.stays_listing s).parent t).trans htp⟩
  heads := by
    intro t ht htp
    rcases ho.mem_scopes.1 ht with rfl | ⟨q, hq, rfl⟩
    · exact ⟨a, Hierarchy.active_setActive_self _ a _⟩
    · obtain ⟨b, hb⟩ := h.heads q hq (((Opened.stays_listing s).parent q).symm.trans htp)
      refine ⟨b, ?_⟩
      have hne : b ≠ a := by
        rintro rfl
        rw [ha] at hb
        contradiction
      rw [Hierarchy.active_setActive_other _ hne, ho.adds.active, Opened.listing_owner, hb]

end Settled

/-- The active scope of a sort is closed, and its slot is empty then. -/
theorem active_after_destroy_active (h : db.Settled) {a : ActiveScope}
    (ha : db.hierarchy.active a = some o) :
    (after (destroyScope o : EStateM ε Database Bool) db).hierarchy.active a = none := by
  obtain ⟨_, t, ht, rfl, _⟩ := h.active a o ha
  have ho := scope?_of_mem h.forest ht
  rw [active_after_destroyScope h.toTidy ho, ha, Option.filter_some, any_owner_doomed h.forest ht,
    decide_eq_true (self_mem_doomed h.forest ho)]
  rfl

/-- What prepares a new root record for its slot does not fail, and leaves its place in the
structure. -/
def Prepares (a : ActiveScope) (prepare : ObjectId → Edit Unit) : Prop :=
  ∀ {s : StorageScope} {e : Entry} {db db' : Database}, db.Settled → Opened s e db db' →
    e.kind = a.kind → ∃ db'', prepare s.owner db' = .ok ⟨⟩ db'' ∧ SamePlaces db' db''

/-- What every command keeps that is not by hand. -/
def Settles (db db' : Database) : Prop :=
  db.Settled → db'.Settled

instance : IsPreorder Database Settles where
  refl _ h := h
  trans _ _ _ h h' hs := h' (h hs)

/-- A scope is opened, and takes the slot of its sort. -/
def openActive (a : ActiveScope) (prepare : ObjectId → Edit Unit) : Edit ObjectId := do
  let id ← openScope a
  prepare id
  modify fun db => { db with hierarchy := db.hierarchy.setActive a (some id) }
  return id

theorem replaceActive_of_none {a : ActiveScope} (ha : db.hierarchy.active a = none)
    (prepare : ObjectId → Edit Unit) : replaceActive a prepare db = openActive a prepare db := by
  simp only [replaceActive, openActive, bind_apply, get_apply, ha]

/-- The scope in the slot is closed before. -/
theorem replaceActive_of_some (h : db.Tidy) {a : ActiveScope} {old : ObjectId}
    (ha : db.hierarchy.active a = some old) (prepare : ObjectId → Edit Unit) :
    replaceActive a prepare db = openActive a prepare (after (destroyScope old : Edit Bool) db) := by
  obtain ⟨b, hclosed⟩ := destroyScope_ok (ε := Failure DbError) h old
  simp only [replaceActive, openActive, bind_apply, get_apply, ha, discard_apply, hclosed]

theorem settles_openActive (h : db.Settled) {a : ActiveScope} (ha : db.hierarchy.active a = none)
    {prepare : ObjectId → Edit Unit} (hprepare : Prepares a prepare)
    (hbad : ∀ e db', openActive a prepare db = .error e db' → e ≠ .fault .hierarchyFull) :
    (after (openActive a prepare) db).Settled := by
  cases opening_openScope h.toTidy a with
  | refused result => rwa [openActive, after_error (bind_error result)]
  | undone result same =>
    rw [openActive, after_error (bind_error result)]
    exact h.of_places same
  | stranded result => exact absurd rfl (hbad _ _ (bind_error result))
  | @opened s e db' result opened holds =>
    obtain ⟨hp, htype, hkind⟩ := holds
    obtain ⟨db'', hr, hsame⟩ := hprepare h opened hkind
    have hx : openActive a prepare db = .ok s.owner
        { db'' with hierarchy := db''.hierarchy.setActive a (some s.owner) } :=
      (bind_ok result).trans (bind_ok hr)
    rw [after_ok hx]
    refine (h.of_opened_active ha opened hp htype).of_places
      { hsame with hierarchy := congrArg (Hierarchy.setActive · a (some s.owner)) hsame.hierarchy }

theorem settles_replaceActive (a : ActiveScope) {prepare : ObjectId → Edit Unit}
    (hprepare : Prepares a prepare) :
    KeepsUnless (· = .fault .hierarchyFull) Settles (replaceActive a prepare) := by
  intro db hbad h
  cases ha : db.hierarchy.active a with
  | none =>
    have hr := replaceActive_of_none ha prepare
    rw [after, hr]
    exact settles_openActive h ha hprepare fun e db' he => hbad e db' (hr.trans he)
  | some old =>
    have hr := replaceActive_of_some h.toTidy ha prepare
    rw [after, hr]
    exact settles_openActive (h.destroyScope old) (active_after_destroy_active h ha) hprepare
      fun e db' he => hbad e db' (hr.trans he)

theorem intern_ok (name : String) (t : SymbolTable) :
    ∃ i t', (SymbolTable.intern name : EStateM ε SymbolTable SymbolIndex) t = .ok i t' := by
  unfold SymbolTable.intern
  cases t.find? name <;> exact ⟨_, _, rfl⟩

theorem addReference_ok (i : SymbolIndex) (id : ObjectId) (t : SymbolTable) :
    ∃ b t', (SymbolTable.addReference i id : EStateM ε SymbolTable Bool) t = .ok b t' := by
  unfold SymbolTable.addReference
  split <;> exact ⟨_, _, rfl⟩

/-- A cell that belongs to a scope can be named: the scope is open, and the name is put
there. -/
theorem setCellName_ok (h : db.Anchored) {root : ObjectId}
    (hroot : db.scopeRoot id = .ok (some root)) {c : Record Cell}
    (hc : db.registry.stored? id = some { kind := .cell, record := c }) (name : String) :
    ∃ symbol db', setCellName id name db = .ok symbol db' := by
  obtain ⟨s, hs, rfl⟩ := h.exists_scope (isScopeOwner_of_climb (scopeRoot_eq_ok_iff.1 hroot))
  let x : EStateM (Failure DbError) SymbolTable SymbolIndex := do
    let symbol ← SymbolTable.intern name
    discard <| SymbolTable.addReference symbol id
    return symbol
  obtain ⟨symbol, t, hx⟩ : ∃ symbol t, StorageScope.onSymbols x s = .ok symbol t := by
    obtain ⟨symbol, t, hintern⟩ := intern_ok (ε := Failure DbError) name s.symbols
    obtain ⟨b, t', hadd⟩ := addReference_ok (ε := Failure DbError) symbol id t
    have hx : x s.symbols = .ok symbol t' := (bind_ok hintern).trans (bind_ok (discard_ok hadd))
    exact ⟨symbol, { s with symbols := t' }, by simp only [StorageScope.onSymbols, hx]⟩
  let named : Database :=
    { db with scopes := after (onFirst (·.owner = s.owner) (StorageScope.onSymbols x)) db.scopes }
  have hsymbol : onStorageScope id (StorageScope.onSymbols x) db = .ok (some symbol) named := by
    simp only [onStorageScope, hroot, onScopeWhere, named,
      onFirst_of_some (show db.scopes.find? _ = some s from scope?_of_mem h.forest hs) hx]
  have hsound : named.registry.Sound := h.sound
  obtain ⟨r, hr, _⟩ := updateCell_stores hsound hc fun c => { c with name := some symbol }
  exact ⟨symbol, _, (bind_ok hsymbol).trans ((bind_ok rfl).trans (bind_ok hr))⟩

theorem prepares_nothing {a : ActiveScope} : Prepares a fun _ => pure ⟨⟩ := by
  intro s e db db' h ho _
  exact ⟨db', rfl, refl_of Alike db' (h.toAnchored.of_opened ho).sound⟩

theorem prepares_topCell (name : String) : Prepares .topCell (fun id => do
    updateCell id fun c => { c with role := .top }
    discard <| setCellName id name) := by
  intro s e db db' h ho hkind
  obtain ⟨k, c⟩ := e
  cases hkind
  have ha : db'.Anchored := h.toAnchored.of_opened ho
  have hcell : db'.registry.stored? s.owner = some { kind := .cell, record := c } := by
    rw [ho.stored, onEntry, if_pos rfl]
  have hmem : s ∈ db'.scopes := ho.scopes ▸ List.mem_cons_self
  have hnaming : Session.Naming (Session.OnDb Alike) := Session.Naming.of_alike id
  obtain ⟨r, hrole, hs⟩ := updateCell_stores ha.sound hcell fun c => { c with role := .top }
  have hsame : SamePlaces db' { db' with registry := r } := by
    have hk := hnaming.updateCell s.owner (fun c => { c with role := .top }) (fun _ => rfl) db' []
    rw [after_ok hrole] at hk
    exact hk ha.sound
  have hroot := scopeRoot_of_owner ((ha.of_places hsame).isScopeOwner_of_mem hmem)
  obtain ⟨symbol, db'', hname⟩ := setCellName_ok (ha.of_places hsame) hroot hs.self name
  have hsame' : SamePlaces { db' with registry := r } db'' := by
    have hk := hnaming.setCellName s.owner name { db' with registry := r } []
    rw [after_ok hname] at hk
    exact hk hs.evolves.sound
  exact ⟨db'', (bind_ok hrole).trans (discard_ok hname),
    trans_of Alike (fun _ => hsame) (fun _ => hsame') ha.sound⟩

/-! ## What all commands keep -/

theorem settles_of_alike (h : Alike db db') : Settles db db' :=
  fun hs => hs.of_places (h hs.sound)

theorem settles_create (k : RecordKind) (t : ObjectType) (owner : ObjectId) :
    Keeps Settles (create k t owner) := by
  intro db h
  have ha := (follows_create (X := fun _ => False) k t owner db h.toAnchored).1
  rcases create_cases h.sound k t owner with ⟨e, he⟩ | ⟨_, _, _, _, r, _, _, _, _, hp, ht, hr⟩
  · rwa [after_error he]
  · rw [after_ok hr] at ha ⊢
    have hs := hp.stores_fresh h.sound ht
    have hf := SameFrame.of_stores hs
    refine h.of_frames (h.toEnrolled.of_frame ha hf hs.tags fun s hmem => ?_) (fun _ => rfl)
      hf.frames
    rw [hs.other (h.ne_owner_of_fresh hp.not_spent s hmem)]

theorem settles_setOwner (id owner : ObjectId) : Keeps Settles (setOwner id owner) := by
  intro db h
  have ha : (after (setOwner id owner) db).Anchored :=
    (follows_setOwner (X := fun _ => False) (fun hid => hid) owner db h.toAnchored).1
  rcases after_setOwner h.sound id owner with hr | ⟨index, r, _, hr, ht⟩ <;> rw [hr] at ha ⊢
  · exact h
  · have hs := ht.stores fun _ _ hv => hv
    have hf := SameFrame.of_touches ht
    refine h.of_frames (h.toEnrolled.of_frame ha hf ht.tags fun s _ => ?_) (fun _ => rfl) hf.frames
    by_cases hid : s.owner = id
    · -- the position of the owner is in the header, that of the scope in the body
      rw [hid, hs.self, Option.bind_map]
      rfl
    · rw [hs.other hid]

theorem settles_write {k : RecordKind} {f : Record k.Body → Record k.Body}
    (hheader : ∀ r, (f r).header = r.header)
    (hindex : ∀ r, k.hierIndex? (f r).body = k.hierIndex? r.body) (id : ObjectId) :
    Keeps Settles (update k id f : EStateM (Failure ε) Database _) := by
  intro db h
  obtain ⟨r, hr, ht⟩ := after_update (ε := ε) h.sound k id f
  rw [hr]
  refine h.of_places (SamePlaces.of_touches ht (fun _ _ hv => ?_) fun e => ?_)
  · exact Occupant.isValid_write (fun y => congrArg Header.isValid (hheader y)) hv
  · exact Entry.change_write Entry.marks (fun y => by
      simp only [Entry.marks, Entry.owner, Entry.header, Entry.hierIndex?, hheader, hindex]) e

theorem settles_indexObject (id : ObjectId) : Keeps Settles (indexObject id) := by
  intro db h
  rcases after_indexObject h.toTidy id with hr | ⟨index, t, hl, hn, ha, hr⟩ <;> rw [hr]
  · exact h
  · exact h.of_frames { h.toAnchored.of_adds hl hn ha with
      tags_eq := h.tags_eq
      hierIndex := h.hierIndex } ha.active rfl

theorem settles_destroyScope (o : ObjectId) :
    Keeps Settles (destroyScope o : EStateM ε Database Bool) :=
  fun _ h => h.destroyScope o

theorem settles_destroy (id : ObjectId) :
    Keeps Settles (destroy id : EStateM ε Database Bool) := by
  intro db h
  rcases after_destroy (ε := ε) h.sound h.paired id with hr | ⟨hid, hd⟩
  · rw [hr]
    exact h.destroyScope id
  · exact h.of_frames (h.toEnrolled.of_discards hd hid)
      (fun a => by rw [hd.hierarchy, Hierarchy.active_deleteWhere]) hd.frames

theorem settles_openNested (parent : ObjectId) :
    KeepsUnless (· = .fault .hierarchyFull) Settles (openNested parent) := by
  intro db hbad h
  cases opening_openNested h.toTidy parent with
  | refused result => rwa [after_error result]
  | undone result same =>
    rw [after_error result]
    exact h.of_places same
  | stranded result => exact absurd rfl (hbad _ _ result)
  | opened result opened nested =>
    rw [after_ok result]
    exact h.of_opened opened nested

end Database

theorem Session.settles_stable :
    Session.Stable (· = .fault .hierarchyFull) (Session.OnDb Database.Settles) where
  toLocal := Session.Local.of_alike Database.settles_of_alike Database.settles_create
    Database.settles_indexObject Database.settles_destroy Database.settles_destroyScope
    fun _ h => h.reset
  initTopCell name := (mirrors_perform (.initTopCell name)).keepsUnless
    (Database.settles_replaceActive .topCell (Database.prepares_topCell name)).discard
  initTechLib := (mirrors_perform .initTechLib).keepsUnless
    (Database.settles_replaceActive .techLib Database.prepares_nothing).discard
  initTimingLib := (mirrors_perform .initTimingLib).keepsUnless
    (Database.settles_replaceActive .timingLib Database.prepares_nothing).discard
  openNested parent := (mirrors_openNested parent).keepsUnless (Database.settles_openNested parent)

namespace Database

open Registry

/-- The parts of a database say the same about its scopes. -/
structure Structured (db : Database) : Prop where
  /-- There is a pool for every scope, in the same order. -/
  pools : db.registry.inOrder.map (·.scope) = db.scopesInOrder.map (·.tag)
  tags : (db.scopesInOrder.map (·.tag)).Nodup
  /-- The owners that are bound to a pool are those of the scopes. -/
  bound : ∀ id tag, db.registry.scopeOf? id = some tag ↔
    ∃ s ∈ db.scopes, s.owner = id ∧ s.tag = tag
  live : ∀ s ∈ db.scopes, db.isLive s.owner = true
  indexOf : ∀ s ∈ db.scopes, db.hierarchy.indexOf? s.owner = some s.index
  idAt : ∀ s ∈ db.scopes, db.hierarchy.idAt? s.index = some s.owner
  /-- The root record of a scope notes the position of the scope. -/
  hierIndex : ∀ s ∈ db.scopes, ∃ k x, db.resolve k s.owner = .ok (some x) ∧
    k.hierIndex? x.body = some s.index
  /-- The owner of a scope that lies in no other is a record of that scope. -/
  root : ∀ s ∈ db.scopes, s.parent = none → ScopeTag.of? s.owner = some s.tag
  /-- The owner of a nested scope is a record of the scope around it, which lists it once. -/
  nested : ∀ s ∈ db.scopes, ∀ p, s.parent = some p → ∃ q ∈ db.scopes, q.owner = p ∧
    ScopeTag.of? s.owner = some q.tag ∧ q.children.count s.owner = 1
  /-- What a scope lists is in it. -/
  children : ∀ q ∈ db.scopes, ∀ c ∈ q.children,
    ∃ s ∈ db.scopes, s.owner = c ∧ s.parent = some q.owner
  active : ∀ a id, db.hierarchy.active a = some id →
    id.type? = some a.type ∧ ∃ s ∈ db.scopes, s.owner = id ∧ s.parent = none
  /-- Every scope is active or lies inside an active one. -/
  reached : ∀ s ∈ db.scopes, ∃ a id, db.hierarchy.active a = some id ∧ Inside db.scopes id s.owner

theorem settled_empty {c : StoreConfig} (h : c.pool.Valid) : (empty c).Settled where
  toAnchored := anchored_empty h
  tags_eq := rfl
  hierIndex := by simp [empty]
  active := by
    intro a id hid
    cases a <;> contradiction
  heads := by simp [empty]

namespace Settled

variable {db : Database} (h : db.Settled)
include h

/-- The scope around a scope is older, so going out from scope to scope comes to one that lies
in no other. -/
theorem reached {s : StorageScope} (hs : s ∈ db.scopes) :
    ∃ a id, db.hierarchy.active a = some id ∧ Inside db.scopes id s.owner := by
  induction hn : s.tag.toNat using Nat.strong_induction_on generalizing s with
  | _ n ih =>
    cases hp : s.parent with
    | none =>
      obtain ⟨a, ha⟩ := h.heads s hs hp
      exact ⟨a, s.owner, ha, Relation.ReflTransGen.refl⟩
    | some p =>
      obtain ⟨q, hq, rfl, _, hlt⟩ := h.forest.parent s hs p hp
      obtain ⟨a, id, ha, hin⟩ := ih q.tag.toNat (hn ▸ hlt) hq rfl
      exact ⟨a, id, ha, hin.tail ⟨s, hs, rfl, hp⟩⟩

theorem count_children {s q : StorageScope} (hs : s ∈ db.scopes) (hq : q ∈ db.scopes)
    (hp : s.parent = some q.owner) : q.children.count s.owner = 1 := by
  rw [h.forest.children q hq]
  exact List.count_eq_one_of_mem (h.forest.nodup_childrenIn q.owner)
    (mem_childrenIn.2 ⟨s, hs, rfl, hp⟩)

theorem structured : db.Structured where
  pools := by
    rw [inOrder, scopesInOrder, List.map_reverse, List.map_reverse]
    exact congrArg List.reverse h.tags_eq
  tags := by
    rw [scopesInOrder, List.map_reverse]
    exact List.nodup_reverse.2 h.forest.tags
  bound := by
    intro id tag
    constructor
    · intro hid
      exact h.bound _ (Assoc.mem_of_get? hid)
    · rintro ⟨s, hs, rfl, rfl⟩
      exact h.scope s hs
  live := fun s hs => (isLive_iff h.sound s.owner).2 (h.live s.owner s.index (h.index s hs))
  indexOf := h.index
  idAt := fun s hs => h.paired.idAt?_eq_some_iff.2 (h.index s hs)
  hierIndex := by
    intro s hs
    obtain ⟨e, he, hi⟩ := Option.bind_eq_some_iff.1 (h.hierIndex s hs)
    exact ⟨e.kind, e.record, (resolve_eq_some_iff_stored? h.sound).2 he, hi⟩
  root := h.forest.root
  nested := by
    intro s hs p hp
    obtain ⟨q, hq, rfl, hof, _⟩ := h.forest.parent s hs p hp
    exact ⟨q, hq, rfl, hof, h.count_children hs hq hp⟩
  children := by
    intro q hq c hc
    rw [h.forest.children q hq] at hc
    exact mem_childrenIn.1 hc
  active := h.active
  reached := fun s hs => h.reached hs

end Settled
end Database

/-- Let no hierarchy be restored, and neither headers nor the positions of scopes be written by
hand.  After any run the scopes, the pools, the hierarchy and the root records say the same,
whatever commands of the run were refused.  The one failure that is excluded is the fault of a
hierarchy that has given out all its positions. -/
theorem structured_run {c : StoreConfig} {start : Database} (h : Database.new c = .ok start)
    {cmds : List Command} (hheaders : ∀ c ∈ cmds, c.LeavesHeaders)
    (hindex : ∀ c ∈ cmds, c.LeavesHierIndex)
    (hroom : start.Avoids (· = .fault .hierarchyFull) cmds) :
    (Database.run cmds start).Structured := by
  obtain ⟨hc, rfl⟩ := Database.new_eq_ok h
  refine (Session.settles_stable.run_onDb (fun c hm hh => ?_) hroom
    (Database.settled_empty hc)).structured
  have hleaves := hheaders c hm
  have hleaves' := hindex c hm
  cases c with
  | setOwner id owner => exact (Database.settles_setOwner id owner).discard
  | write k id f => exact (Database.settles_write hleaves hleaves' id).discard
  | restoreHierarchy l => exact hleaves.elim
  | writeHeader id f => exact hleaves.elim
  | editHeader id e => exact hleaves.elim
  | properties id x =>
    exact (Database.alike_onProperties id x).discard.mono fun _ _ => Database.settles_of_alike
  | _ => exact hh.elim

/-- A run with a nested cell, a library, a refusal, and another top cell in place of the
first. -/
theorem structured_run_sample :
    let top := Session.firstPage 1 .cell 0 0
    let again := Session.firstPage 4 .cell 0 0
    let cmds : List Command := [.initTopCell "top", .createHierCell top "inner", .initTechLib,
      .create .inst .inst ObjectId.null, .initTopCell "again", .createHierCell again "inner"]
    let db := Database.run cmds (Database.empty {})
    (∀ c ∈ cmds, c.LeavesHeaders) ∧ (∀ c ∈ cmds, c.LeavesHierIndex) ∧
      (Database.empty {}).Avoids (· = .fault .hierarchyFull) cmds ∧
      db.scopesInOrder.map (·.tag) = [⟨3⟩, ⟨4⟩, ⟨5⟩] ∧ db.Structured := by
  intro top again cmds db
  have hheaders : ∀ c ∈ cmds, c.LeavesHeaders := by simp [cmds, Command.LeavesHeaders]
  have hindex : ∀ c ∈ cmds, c.LeavesHierIndex := by simp [cmds, Command.LeavesHierIndex]
  have hroom : (Database.empty {}).Avoids (· = .fault .hierarchyFull) cmds := by decide +kernel
  exact ⟨hheaders, hindex, hroom, by decide +kernel,
    structured_run (c := {}) rfl hheaders hindex hroom⟩

end DesignStore
