/-
Opening scopes.

A scope is opened in several steps, and some of them can fail.  `Opening` lists how it can
end: nothing is done; a record is placed and destroyed again; there is no position left for
the owner, and the new pool stays without a scope; or the scope is open, and then what there
is now is what there was before and the new scope (`Opened`).
-/
import DesignStore.Proofs.Steady

namespace DesignStore

/-- What a scope comes to list when `s` is opened. -/
def StorageScope.listing (s t : StorageScope) : StorageScope :=
  if s.parent = some t.owner then { t with children := t.children ++ [s.owner] } else t

namespace Database

open Registry

variable {ε α : Type} {db db' : Database} {id : ObjectId} {s : StorageScope} {e : Entry}

/-- What opening the scope `s` does, with `e` the record of its owner.  The handle of the owner
was not given out before. -/
structure Opened (s : StorageScope) (e : Entry) (db db' : Database) : Prop where
  fresh : ¬ db.registry.Spent s.owner
  config : db'.config = db.config
  evolves : Evolves db.registry db'.registry
  stored : db'.registry.stored? = onEntry s.owner (fun _ => some e) db.registry.stored?
  owners : db'.registry.owners = db.registry.owners.insert s.owner s.tag
  tags : db'.registry.tags = s.tag :: db.registry.tags
  adds : Hierarchy.Adds s.owner s.index db.hierarchy db'.hierarchy
  scopes : db'.scopes = s :: db.scopes.map s.listing
  children : s.children = []
  symbols : s.symbols = {}
  later : ∀ t ∈ db.scopes, t.tag.toNat < s.tag.toNat
  root : s.parent = none → ScopeTag.of? s.owner = some s.tag
  parent : ∀ p, s.parent = some p →
    ∃ q ∈ db.scopes, q.owner = p ∧ ScopeTag.of? s.owner = some q.tag
  hierIndex : e.hierIndex? = some s.index
  owned : e.owner = s.index ∨ ∃ p, db.ownerIndexFor? p = some e.owner

/-- How opening a scope can end, with `P` true of the scope and the record of its owner. -/
inductive Opening (x : Edit ObjectId) (P : StorageScope → Entry → Prop) (db : Database) : Prop
  | refused {e : Failure DbError} (result : x db = .error e db)
  | undone {e : Failure DbError} {db' : Database} (result : x db = .error e db')
      (same : SamePlaces db db') (stored : db'.registry.stored? = db.registry.stored?)
      (scopes : db'.scopes.map (·.bare) = db.scopes.map (·.bare))
  | stranded {id : ObjectId} {e : Entry} {tag : ScopeTag} {r : Registry}
      (result : x db = .error (.fault .hierarchyFull) { db with registry := r })
      (full : UInt32.size ≤ db.hierarchy.size) (fresh : ¬ db.registry.Spent id)
      (stores : Stores id (some e) [tag] db.registry r)
  | opened {s : StorageScope} {e : Entry} {db' : Database} (result : x db = .ok s.owner db')
      (opened : Opened s e db db') (holds : P s e)

/-! ## Registering an owner -/

theorem Tidy.ne_owner_of_fresh (h : db.Tidy) (hn : ¬ db.registry.Spent id) :
    ∀ s ∈ db.scopes, s.owner ≠ id :=
  fun s hs e => hn (e ▸ h.spent s hs)

theorem Tidy.unindexed_of_fresh (h : db.Tidy) (hn : ¬ db.registry.Spent id) :
    db.hierarchy.positions.get? id = none := by
  cases hi : db.hierarchy.positions.get? id with
  | none => rfl
  | some i => exact absurd (h.indexed _ (Assoc.mem_of_get? hi)) hn

theorem Tidy.exists_scope (h : db.Tidy) (hid : db.registry.isScopeOwner id = true) :
    ∃ s ∈ db.scopes, s.owner = id := by
  obtain ⟨t, ht⟩ := Option.isSome_iff_exists.1 hid
  obtain ⟨s, hs, hso, _⟩ := h.bound _ (Assoc.mem_of_get? ht)
  exact ⟨s, hs, hso⟩

theorem Tidy.tag_lt_of_opens (h : db.Tidy) {scope : ScopeTag} {r : Registry}
    (ho : Opens scope db.registry r) : ∀ s ∈ db.scopes, s.tag.toNat < scope.toNat := by
  intro s hs
  obtain ⟨p, hp⟩ := Option.isSome_iff_exists.1 (h.pool s hs)
  have hle := (h.sound.of_pool? hp).2.2.2
  rw [ho.tag]
  exact Nat.lt_succ_of_le hle

/-- The database in which `s.owner` was registered as the owner of `s`. -/
def registered (db : Database) (s : StorageScope) (t : Hierarchy) : Database :=
  { db with
    hierarchy := t
    registry := { db.registry with owners := db.registry.owners.insert s.owner s.tag }
    scopes := s :: db.scopes }

/-- Registering gives an owner that has none a position and the scope with a tag that has a
pool, or there is no position left and nothing is changed. -/
theorem register_cases (db : Database) (hp : db.hierarchy.Paired) (hne : id ≠ ObjectId.null)
    (hun : db.hierarchy.positions.get? id = none) {tag : ScopeTag} (htag : tag ∈ db.registry.tags)
    (parent : Option ObjectId) :
    (UInt32.size ≤ db.hierarchy.size ∧
        register id tag parent db = .error (.fault .hierarchyFull) db) ∨
      ∃ index t, Hierarchy.Adds id index db.hierarchy t ∧ register id tag parent db =
        .ok index (db.registered { owner := id, tag, index, parent } t) := by
  have hnull : ¬ id.isNull = true := fun e => hne (Hierarchy.isNull_iff.1 e)
  have hbind : bindOwner (ε := Failure DbError) id tag db.registry =
      .ok true { db.registry with owners := db.registry.owners.insert id tag } :=
    if_pos ⟨isSome_pool?_iff.2 htag, hnull⟩
  rcases Hierarchy.insert_cases (ε := DbError) hp hne hun with ⟨hfull, he⟩ | ⟨index, t, ht, ha⟩
  · exact Or.inl ⟨hfull, by simp only [register, bind_apply, onHierarchy, he]⟩
  · refine Or.inr ⟨index, t, ha, ?_⟩
    simp only [register, bind_apply, onHierarchy, ht, discard_apply, onRegistry_eq, hbind,
      modify_apply, pure_apply, registered]

/-- A scope is open when its owner was placed and registered, the scope around it lists it, and
its position was written to the record of the owner. -/
theorem opened_of_stores (h : db.Tidy) {e₁ : Entry} {r r' : Registry} {t : Hierarchy}
    (hfresh : ¬ db.registry.Spent s.owner) (hs : Stores s.owner (some e₁) [s.tag] db.registry r)
    (ha : Hierarchy.Adds s.owner s.index db.hierarchy t)
    (hs' : Stores s.owner (some e) [] { r with owners := r.owners.insert s.owner s.tag } r')
    (hchildren : s.children = []) (hsymbols : s.symbols = {})
    (hlater : ∀ t ∈ db.scopes, t.tag.toNat < s.tag.toNat)
    (hroot : s.parent = none → ScopeTag.of? s.owner = some s.tag)
    (hparent : ∀ p, s.parent = some p →
      ∃ q ∈ db.scopes, q.owner = p ∧ ScopeTag.of? s.owner = some q.tag)
    (hindex : e.hierIndex? = some s.index)
    (howned : e.owner = s.index ∨ ∃ p, db.ownerIndexFor? p = some e.owner) :
    Opened s e db { db with
      hierarchy := t, registry := r', scopes := s :: db.scopes.map s.listing } where
  fresh := hfresh
  config := rfl
  evolves := by
    have hsound := hs.evolves.sound
    have hsame : Evolves r { r with owners := r.owners.insert s.owner s.tag } :=
      Evolves.of_same_pools ⟨hsound.config, hsound.issued_le, hsound.pool, hsound.tag⟩ rfl rfl
    exact hs.evolves.trans h.sound (hsame.trans hsound hs'.evolves)
  stored := by
    funext j
    rw [hs'.stored]
    by_cases hj : j = s.owner
    · simp only [onEntry, hj, if_true]
    · simp only [onEntry, hj, if_false]
      exact hs.other hj
  owners := by rw [hs'.owners, hs.owners]
  tags := by
    rw [hs'.tags]
    exact hs.tags
  adds := ha
  scopes := rfl
  children := hchildren
  symbols := hsymbols
  later := hlater
  root := hroot
  parent := hparent
  hierIndex := hindex
  owned := howned

namespace Opened

theorem listing_owner (s t : StorageScope) : (s.listing t).owner = t.owner := by
  unfold StorageScope.listing
  split <;> rfl

theorem listing_index (s t : StorageScope) : (s.listing t).index = t.index := by
  unfold StorageScope.listing
  split <;> rfl

theorem stays_listing (s : StorageScope) : Stays s.listing where
  owner := listing_owner s
  tag := fun t => by
    unfold StorageScope.listing
    split <;> rfl
  parent := fun t => by
    unfold StorageScope.listing
    split <;> rfl

/-- Open are the new scope and those that were open. -/
theorem mem_scopes (ho : Opened s e db db') {t : StorageScope} :
    t ∈ db'.scopes ↔ t = s ∨ ∃ q ∈ db.scopes, s.listing q = t := by
  rw [ho.scopes, List.mem_cons, List.mem_map]

theorem listing_mem (ho : Opened s e db db') {t : StorageScope} (ht : t ∈ db.scopes) :
    s.listing t ∈ db'.scopes :=
  ho.mem_scopes.2 (Or.inr ⟨t, ht, rfl⟩)

theorem live (ho : Opened s e db db') : db'.registry.Live s.owner := by
  rw [← isSome_stored?_iff, ho.stored, onEntry, if_pos rfl]
  rfl

theorem tidy (h : db.Tidy) (ho : Opened s e db db') : db'.Tidy where
  sound := ho.evolves.sound
  paired := ho.adds.paired
  forest := by
    rw [ho.scopes]
    refine h.forest.cons (h.ne_owner_of_fresh ho.fresh) (fun t ht e => ?_) ho.root
      (fun p hp => ?_) ho.children (stays_listing s) fun t => ?_
    · exact Nat.ne_of_lt (ho.later t ht) (congrArg ScopeTag.toNat e)
    · obtain ⟨q, hq, hqp, hof⟩ := ho.parent p hp
      exact ⟨q, hq, hqp, hof, ho.later q hq⟩
    · unfold StorageScope.listing
      split <;> rfl
  pool := by
    intro t ht
    rw [isSome_pool?_iff, ho.tags]
    rcases ho.mem_scopes.1 ht with rfl | ⟨q, hq, rfl⟩
    · exact List.mem_cons_self
    · rw [(stays_listing s).tag]
      exact List.mem_cons_of_mem _ (isSome_pool?_iff.1 (h.pool q hq))
  bound := by
    intro e he
    rw [ho.owners] at he
    rcases Assoc.mem_insert he with rfl | he
    · exact ⟨s, ho.mem_scopes.2 (Or.inl rfl), rfl, rfl⟩
    · obtain ⟨q, hq, hqo, hqt⟩ := h.bound e he
      exact ⟨s.listing q, ho.listing_mem hq, ((stays_listing s).owner q).trans hqo,
        ((stays_listing s).tag q).trans hqt⟩
  spent := by
    intro t ht
    rcases ho.mem_scopes.1 ht with rfl | ⟨q, hq, rfl⟩
    · exact ho.evolves.sound.spent_of_live ho.live
    · rw [listing_owner]
      exact (h.spent q hq).mono ho.evolves
  indexed := by
    intro e he
    rw [ho.adds.positions] at he
    rcases Assoc.mem_insert he with rfl | he
    · exact ho.evolves.sound.spent_of_live ho.live
    · exact (h.indexed e he).mono ho.evolves

end Opened

theorem Opening.tidy {x : Edit ObjectId} {P : StorageScope → Entry → Prop} (h : db.Tidy)
    (ho : Opening x P db) : (after x db).Tidy := by
  cases ho with
  | refused result => rwa [after_error result]
  | undone result same =>
    rw [after_error result]
    exact same.tidy h
  | stranded result _ _ stores =>
    rw [after_error result]
    exact (SameFrame.of_stores stores).tidy h
  | opened result opened =>
    rw [after_ok result]
    exact opened.tidy h

/-! ## Scopes in no other -/

theorem hierIndex?_setHierIndex (a : ActiveScope) (i : ObjectIndex) (b : a.kind.Body) :
    a.kind.hierIndex? (a.kind.setHierIndex i b) = some i := by
  cases a <;> rfl

theorem opening_openScope (h : db.Tidy) (a : ActiveScope) :
    Opening (openScope a)
      (fun s e => s.parent = none ∧ s.owner.type? = some a.type ∧ e.kind = a.kind) db := by
  rcases found_cases h.sound a with ⟨key, r, htype, ho, hp, hr⟩ | hr
  · have hs : Stores key.pack (some { kind := a.kind, record := Record.placed key }) [key.scope]
        db.registry r := (ho.stores h.sound key.pack).trans h.sound hp.stores
    have hfresh : ¬ db.registry.Spent key.pack := fun hspent =>
      hp.not_spent (hspent.mono (ho.evolves h.sound))
    have htag : key.scope ∈ r.tags := by
      rw [hs.tags]
      exact List.mem_cons_self
    rcases register_cases { db with registry := r } h.paired (SlotKey.pack_ne_null hp.key_scope)
        (h.unindexed_of_fresh hfresh) htag none with ⟨hfull, he⟩ | ⟨index, t, ha, hok⟩
    · refine .stranded ?_ hfull hfresh hs
      rw [openScope, bind_ok hr]
      exact bind_error he
    · let s : StorageScope := { owner := key.pack, tag := key.scope, index, parent := none }
      have hsound : (registered { db with registry := r } s t).registry.Sound :=
        ⟨hp.sound.config, hp.sound.issued_le, hp.sound.pool, hp.sound.tag⟩
      have hself : (registered { db with registry := r } s t).registry.stored? key.pack = _ :=
        hs.self
      obtain ⟨y, r', hup, hs'⟩ := update_stores (ε := DbError) hsound hself
        (f := fun r =>
          { header := r.header.setOwner index, body := a.kind.setHierIndex index r.body })
        fun _ => rfl
      have hopened := opened_of_stores (s := s) h hfresh hs ha hs' rfl rfl (h.tag_lt_of_opens ho)
        (fun _ => SlotKey.of?_pack hp.key_scope) (fun p hp => by contradiction)
        (hierIndex?_setHierIndex a index _) (Or.inl rfl)
      refine .opened ?_ hopened ⟨rfl, ?_, rfl⟩
      · have hlisting : db.scopes.map s.listing = db.scopes := List.map_id _
        rw [hlisting, openScope, bind_ok hr]
        exact (bind_ok hok).trans (bind_ok (discard_ok hup))
      · rw [ObjectId.type?, hp.unpack?_pack, Option.map_some, htype]
  · exact .refused (bind_error hr)

/-! ## Nested scopes -/

/-- A record that was just placed is destroyed again. -/
theorem destroy_of_fresh (h : db.Tidy) (hfresh : ¬ db.registry.Spent id) {r : Registry}
    (hs : Stores id (some e) [] db.registry r) :
    ∃ b db', (destroy id : EStateM ε Database Bool) { db with registry := r } = .ok b db' ∧
      SamePlaces db db' ∧ db'.registry.stored? = db.registry.stored? ∧
      db'.scopes.map (·.bare) = db.scopes.map (·.bare) := by
  have hid : r.isScopeOwner id = false := by
    rw [isScopeOwner, hs.owners, ← isScopeOwner, Bool.eq_false_iff]
    intro hid
    obtain ⟨s, hmem, hso⟩ := h.exists_scope hid
    exact h.ne_owner_of_fresh hfresh s hmem hso
  have hsound : ({ db with registry := r } : Database).registry.Sound := hs.evolves.sound
  obtain ⟨b, db', hr, hd⟩ :=
    discards_destroy (ε := ε) hsound h.paired hid
  have hs' := hs.trans h.sound hd.stores
  have hstored : db'.registry.stored? = db.registry.stored? := by
    have hn := h.sound.stored?_of_fresh hfresh
    rw [hs'.stored]
    funext j
    by_cases hj : j = id <;> simp only [onEntry, hj, hn, if_true, if_false]
  have htags : db'.registry.tags = db.registry.tags := hs'.tags
  refine ⟨b, db', hr, ?_, hstored, hd.scopes⟩
  exact
    { evolves := hs'.evolves
      config := hd.config
      hierarchy := hd.hierarchy.trans
        (Hierarchy.deleteWhere_of_unindexed h.paired (h.unindexed_of_fresh hfresh))
      owners := hs'.owners
      tags := htags ▸ List.Subset.refl _
      frames := hd.frames
      tags_eq := htags
      marks := fun j => by rw [hstored] }

/-- A record that was just placed comes to own a scope in that of `q`, for which there is a
pool. -/
theorem nest_cases (h : db.Tidy) (hfresh : ¬ db.registry.Spent id) (hne : id ≠ ObjectId.null)
    {q : StorageScope} (hq : q ∈ db.scopes) (hof : ScopeTag.of? id = some q.tag) {c : Record Cell}
    {tag : ScopeTag} {r : Registry}
    (hs : Stores id (some { kind := .cell, record := c }) [tag] db.registry r)
    (hlater : ∀ t ∈ db.scopes, t.tag.toNat < tag.toNat)
    (howned : ∃ p, db.ownerIndexFor? p = some c.header.owner) :
    let x : Edit ObjectId := do
      let index ← register id tag (some q.owner)
      discard <| onScopeWhere (·.owner = q.owner)
        (modify fun p => { p with children := p.children ++ [id] })
      updateCell id fun c => { c with hierIndex := index }
      return id
    (UInt32.size ≤ db.hierarchy.size ∧ x { db with registry := r } =
        .error (.fault .hierarchyFull) { db with registry := r }) ∨
      ∃ s e db', x { db with registry := r } = .ok s.owner db' ∧ Opened s e db db' ∧
        s.parent = some q.owner := by
  intro x
  have htag : tag ∈ r.tags := by
    rw [hs.tags]
    exact List.mem_cons_self
  rcases register_cases { db with registry := r } h.paired hne (h.unindexed_of_fresh hfresh)
      htag (some q.owner) with ⟨hfull, he⟩ | ⟨index, t, ha, hok⟩
  · exact Or.inl ⟨hfull, bind_error he⟩
  · let s : StorageScope := { owner := id, tag, index, parent := some q.owner }
    have howners : ((registered { db with registry := r } s t).scopes.map (·.owner)).Nodup :=
      List.nodup_cons.2 ⟨by simpa using h.ne_owner_of_fresh hfresh, h.forest.owners⟩
    obtain ⟨a, hlist⟩ := onScopeWhere_eq_map (ε := Failure DbError) _ (·.owner) howners q.owner
      (fun p => { p with children := p.children ++ [id] })
      (x := modify fun p => { p with children := p.children ++ [id] }) fun _ => ⟨_, rfl⟩
    have hscopes : (registered { db with registry := r } s t).scopes.map
        (fun p => if p.owner = q.owner then { p with children := p.children ++ [id] } else p) =
          s :: db.scopes.map s.listing := by
      have hne : ¬ id = q.owner := fun e => h.ne_owner_of_fresh hfresh q hq e.symm
      rw [registered, List.map_cons, if_neg hne]
      refine congrArg _ (List.map_congr_left fun p _ => ?_)
      simp only [StorageScope.listing, s, Option.some.injEq, eq_comm]
    rw [hscopes] at hlist
    let listed : Database :=
      { registered { db with registry := r } s t with scopes := s :: db.scopes.map s.listing }
    have hsound : listed.registry.Sound := ⟨hs.evolves.sound.config, hs.evolves.sound.issued_le,
      hs.evolves.sound.pool, hs.evolves.sound.tag⟩
    have hself : listed.registry.stored? id = _ := hs.self
    obtain ⟨r', hup, hs'⟩ := updateCell_stores hsound hself fun c => { c with hierIndex := index }
    have hopened := opened_of_stores (s := s) h hfresh hs ha hs' rfl rfl hlater
      (fun hn => by contradiction) (fun p hp => ⟨q, hq, Option.some.inj hp, hof⟩) rfl
      (Or.inr howned)
    exact Or.inr ⟨s, _, _,
      (bind_ok hok).trans ((bind_ok (discard_ok hlist)).trans (bind_ok hup)), hopened, rfl⟩

/-- The record of the owner is created first, then the pool.  Without a pool the record is
destroyed again. -/
theorem opening_openNested (h : db.Tidy) (parent : ObjectId) :
    Opening (openNested parent) (fun s _ => s.parent.isSome = true) db := by
  cases hroot : db.scopeRoot parent with
  | error f =>
    have hread : Edit.read (·.scopeRoot parent) db = .error (.fault f) db := by
      simp only [Edit.read, hroot]
    exact .refused (bind_error hread)
  | ok root =>
    have hread : Edit.read (·.scopeRoot parent) db = .ok root db := by
      simp only [Edit.read, hroot]
    cases root with
    | none => exact .refused (bind_ok hread)
    | some around =>
      rcases create_cases h.sound .cell .cell parent with
        ⟨e, he⟩ | ⟨index, _, key, _, r, hindex, hroot', hscope, htype, hp, ht, hcreate⟩
      · exact .refused ((bind_ok hread).trans (bind_error he))
      cases hroot.symm.trans hroot'
      -- the scope around is the one the record was placed in
      obtain ⟨q, hq, rfl, hqt⟩ := h.bound _ (Assoc.mem_of_get? hscope)
      have hof : ScopeTag.of? key.pack = some q.tag := by
        rw [SlotKey.of?_pack hp.key_scope]
        exact congrArg some hqt.symm
      have hfresh : ¬ db.registry.Spent key.pack := hp.not_spent
      have hs := hp.stores_fresh h.sound ht
      have hsound : ({ db with registry := r } : Database).registry.Sound := hs.evolves.sound
      obtain ⟨y, r₂, hrole, hs₂⟩ := update_stores (ε := DbError) hsound hs.self
        (f := fun c => { c with body := { (c.body : Cell) with role := .hier } }) fun _ => rfl
      have hs₂ := hs.trans h.sound hs₂
      have hrun : openNested parent db = (do
          let tag ← tryCatch (Edit.placing .cell (onRegistry createPool)) fun e => do
            discard <| destroy key.pack
            throw e
          let index ← register key.pack tag (some q.owner)
          discard <| onScopeWhere (·.owner = q.owner)
            (modify fun p => { p with children := p.children ++ [key.pack] })
          updateCell key.pack fun c => { c with hierIndex := index }
          return key.pack : Edit ObjectId) { db with registry := r₂ } := by
        rw [openNested, bind_ok hread]
        exact (bind_ok hcreate).trans (bind_ok (discard_ok hrole))
      have htidy : Tidy { db with registry := r₂ } := (SameFrame.of_stores hs₂).tidy h
      rcases createPool_cases htidy.sound .cell with ⟨scope, ho, hpool⟩ | ⟨e, hpool⟩
      · have hs₃ := ho.stores htidy.sound key.pack
        rw [hs₂.self] at hs₃
        have hs := hs₂.trans h.sound hs₃
        rcases nest_cases h hfresh (SlotKey.pack_ne_null hp.key_scope) hq hof hs
            (htidy.tag_lt_of_opens ho) ⟨parent, hindex⟩ with
          ⟨hfull, hx⟩ | ⟨s, e, db', hx, hopened, hparent⟩
        · refine .stranded (hrun.trans ((bind_ok ?_).trans hx)) hfull hfresh hs
          rw [tryCatch_apply, hpool]
        · refine .opened (hrun.trans ((bind_ok ?_).trans hx)) hopened
            (Option.isSome_of_eq_some hparent)
          rw [tryCatch_apply, hpool]
      · obtain ⟨b, db', hdestroy, hsame, hstored, hscopes⟩ :=
          destroy_of_fresh (ε := Failure DbError) h hfresh hs₂
        have hcatch : (tryCatch (Edit.placing .cell (onRegistry createPool)) fun e => do
            discard <| destroy key.pack
            throw e : Edit ScopeTag) { db with registry := r₂ } = .error e db' := by
          rw [tryCatch_apply, hpool]
          exact bind_ok (discard_ok hdestroy)
        exact .undone (hrun.trans (bind_error hcatch)) hsame hstored hscopes

end Database
end DesignStore
