/-
What a database reports of its memory.

The report has a row for every open scope.  Its figures are read off the pool of the scope: what the
arenas count, their pages, and the room of the arrays in them.  Here they are compared with what is
found through handles, which go another way (`Fits`), and with what changes when a record is
destroyed or created (`Gains`).
-/
import DesignStore.Database.Report
import DesignStore.Proofs.Accounts
import DesignStore.Proofs.Footprint
import DesignStore.Proofs.Reset

namespace DesignStore

variable {ε α : Type}

/-! ## The live records of a pool -/

namespace Registry

variable {r r' : Registry} {s : ScopeTag} {id : ObjectId}

theorem Orderly.nodup_inOrder (h : r.Orderly) : (r.inOrder.map (·.scope)).Nodup := by
  refine List.pairwise_map.2 (h.ordered.imp ?_)
  intro p q hlt he
  rw [he] at hlt
  exact Nat.lt_irrefl _ hlt

theorem Orderly.find?_inOrder (h : r.Orderly) (s : ScopeTag) :
    r.inOrder.find? (·.scope = s) = r.pool? s := by
  refine Option.ext fun p =>
    (find?_key_eq_some_iff Pool.scope h.nodup_inOrder).trans ⟨?_, fun hp => ?_⟩
  · rintro ⟨hp, rfl⟩
    exact h.listed hp
  · exact (h.stored hp).symm

namespace Counted

theorem of_inOrder (h : r.Counted) {p : Pool} (hp : p ∈ r.inOrder) : p.Counted :=
  h.pool p (List.mem_reverse.1 hp)

theorem of_pool? (h : r.Counted) {p : Pool} (hp : r.pool? s = some p) : p.Counted :=
  h.pool p (List.mem_of_find?_eq_some hp)

variable (h : r.Counted) (ho : r.Orderly)
include h ho

theorem of?_of_mem {p : Pool} (hp : p ∈ r.inOrder) (hid : id ∈ p.liveIds) :
    ScopeTag.of? id = some p.scope := by
  have hc := h.of_inOrder hp
  rw [hc.liveIds] at hid
  obtain ⟨key, hkey, rfl⟩ := List.mem_map.1 hid
  obtain ⟨hs, hk⟩ := hc.unpack?_of_mem (ho.sound.tag p (List.mem_reverse.1 hp)).1 hkey
  rw [SlotKey.of?_of_unpack? hk, hs]

/-- The live handles with a tag are those of the pool that has it. -/
theorem filter_liveIds (s : ScopeTag) :
    r.liveIds.filter (ScopeTag.of? · = some s) = (r.pool? s).elim [] (·.liveIds) := by
  rw [← ho.find?_inOrder]
  refine filter_flatMap_of_key Pool.scope _ ho.nodup_inOrder fun p hp id hid => ?_
  simp [h.of?_of_mem ho hp hid]

theorem nodup_liveIds : r.liveIds.Nodup := by
  refine List.nodup_flatMap.2 ⟨fun p hp => (h.of_inOrder hp).nodup_liveIds, ?_⟩
  refine ho.ordered.imp_of_mem fun {p q} hp hq hlt => ?_
  refine List.disjoint_left.2 fun id hid hid' => ?_
  have he := (h.of?_of_mem ho hp hid).symm.trans (h.of?_of_mem ho hq hid')
  rw [Option.some.inj he] at hlt
  exact Nat.lt_irrefl _ hlt

/-- What is listed is what is found live. -/
theorem mem_liveIds (id : ObjectId) :
    id ∈ r.liveIds ↔ ∃ p, r.lookup? id = some p ∧ p.isLive id = true := by
  have hmem {p : Pool} (hp : p ∈ r.inOrder) : id ∈ p.liveIds ↔ p.isLive id = true :=
    (h.of_inOrder hp).mem_liveIds (ho.sound.tag p (List.mem_reverse.1 hp)).1 id
  rw [Registry.liveIds, List.mem_flatMap]
  constructor
  · rintro ⟨p, hp, hid⟩
    refine ⟨p, ?_, (hmem hp).1 hid⟩
    rw [lookup?, h.of?_of_mem ho hp hid]
    exact ho.listed hp
  · rintro ⟨p, hp, hlive⟩
    obtain ⟨s, _, hp⟩ := Option.bind_eq_some_iff.1 hp
    have hp := (ho.stored hp).2
    exact ⟨p, hp, (hmem hp).2 hlive⟩

end Counted
end Registry

/-! ## Rows of the report -/

namespace Database

/-- The live handles that the pool with a tag issued. -/
def liveIn (db : Database) (s : ScopeTag) : List ObjectId :=
  db.registry.liveIds.filter (ScopeTag.of? · = some s)

end Database

/-- The room that a record has for elements, in bytes.  There is none if it was not found, or is no
array. -/
def RecordKind.room (k : RecordKind) : Except Fault (Option (Record k.Body)) → Nat
  | .ok (some r) => (k.capacity? r.body).elim 0 (· * k.elementBytes)
  | _ => 0

/-- What is reported of an arena, given its records. -/
structure ArenaStats.Fits (db : Database) (s : ScopeTag) (ids : List ObjectId) (a : ArenaStats) :
    Prop where
  live : a.live = ids.length
  resolved : ∀ id ∈ ids, ∃ r, db.resolve a.kind id = .ok (some r)
  bytes : a.bytes = a.pages * (db.config.pool.pageSlots * a.kind.slotBytes) +
    total (fun id => a.kind.room (db.resolve a.kind id)) ids
  registry : a.bytes = db.registry.arenaBytes s a.type

/-- What is reported of a scope. -/
structure ScopeMemory.Fits (db : Database) (s : StorageScope) (row : ScopeMemory) : Prop where
  scope : row.owner = s.owner ∧ row.tag = s.tag ∧ row.index = s.index
  tables : row.tableBytes = s.memory
  records : row.records = (db.liveIn s.tag).length
  bytes : row.poolBytes = total (·.bytes) row.arenas
  registry : row.poolBytes = db.registry.poolBytes s.tag
  /-- Every record is in one of the arenas, which are those of its type. -/
  types : (row.arenas.map (·.type)).Nodup ∧
    ∀ id ∈ db.liveIn s.tag, ∃ a ∈ row.arenas, id.type? = some a.type
  arenas : ∀ a ∈ row.arenas,
    a.Fits db s.tag ((db.liveIn s.tag).filter (·.type? = some a.type))

namespace Database

open Registry

variable {db db' : Database} {s : ScopeTag} {id : ObjectId} {p : Pool}

theorem liveIn_eq (h : db.registry.Counted) (ho : db.registry.Orderly)
    (hp : db.registry.pool? s = some p) : db.liveIn s = p.liveIds := by
  rw [liveIn, h.filter_liveIds ho, hp]
  rfl

theorem resolve_of_mem (h : db.registry.Counted) (ho : db.registry.Orderly)
    (hp : db.registry.pool? s = some p) (hid : id ∈ p.liveIds) (k : RecordKind) :
    db.resolve k id = p.resolve k id := by
  obtain ⟨hscope, hmem⟩ := ho.stored hp
  have hof : ScopeTag.of? id = some s := hscope ▸ h.of?_of_mem ho hmem hid
  have hlookup : db.registry.lookup? id = some p := by
    rw [lookup?, hof]
    exact hp
  rw [resolve, hlookup]

theorem arena_fits (h : db.registry.Counted) (hl : db.registry.Laid)
    (hconfig : db.registry.config = db.config.pool) (hp : db.registry.pool? s = some p)
    {b : BoundArena} (hb : b ∈ p.arenas) :
    b.stats.Fits db s ((db.liveIn s).filter (·.type? = some b.type)) := by
  have hc := h.of_pool? hp
  obtain ⟨_, hscope, hne, _⟩ := hl.sound.of_pool? hp
  have hne : p.scope.val ≠ 0 := hscope ▸ hne
  have harena : p.arena? b.type = some b := hc.arena?_of_mem hb
  rw [liveIn_eq h hl.toOrderly hp]
  -- the handles of the type are those of the records of the arena, one for one
  obtain ⟨l, hrecords, _, hread⟩ := hc.records (k := b.kind) (t := b.type) fun k' hk' => by
    simpa [Pool.kind?, harena] using hk'.symm
  have hl : l = b.arena.records := by
    obtain ⟨kind, a⟩ := b
    simp only [Pool.records, harena, BoundArena.as?_self] at hrecords
    exact (Except.ok.inj hrecords).symm
  subst hl
  have hresolve : (p.liveIds.filter (·.type? = some b.type)).map (db.resolve b.kind) =
      b.arena.records.map fun r => .ok (some r) := by
    rw [List.map_congr_left fun id hid => resolve_of_mem h hl.toOrderly hp
      (List.mem_of_mem_filter hid) b.kind, ← hread hne, hc.filter_liveIds hne, List.map_map]
    rfl
  refine ⟨?_, fun id hid => ?_, ?_, ?_⟩
  · have hlength := congrArg List.length hresolve
    rw [List.length_map, List.length_map] at hlength
    exact (hc.arena b hb).live_eq.trans hlength.symm
  · have hmem : db.resolve b.kind id ∈ b.arena.records.map fun r => .ok (some r) :=
      hresolve ▸ List.mem_map_of_mem hid
    obtain ⟨r, _, hr⟩ := List.mem_map.1 hmem
    exact ⟨r, hr.symm⟩
  · have hroom := total_map (f := b.kind.room) (g := db.resolve b.kind) (fun _ => rfl)
      (p.liveIds.filter (·.type? = some b.type))
    rw [hresolve, total_map fun r => (b.kind.heapBytes_eq r.body).symm] at hroom
    have hb : b.arena.config = db.config.pool :=
      ((hl.pool p (List.mem_of_find?_eq_some hp)).arena b hb).1.trans hconfig
    show b.bytes = b.arena.pages.size * (db.config.pool.pageSlots * b.kind.slotBytes) +
      total (fun id => b.kind.room (db.resolve b.kind id)) _
    rw [← hroom, ← hb]
    rfl
  · have hbytes : db.registry.arenaBytes s b.type = b.bytes := by
      rw [Registry.arenaBytes, hp, Option.elim_some, Pool.arenaBytes, harena, Option.elim_some]
    exact hbytes.symm

theorem row_fits (h : db.registry.Counted) (hl : db.registry.Laid)
    (hconfig : db.registry.config = db.config.pool) {s : StorageScope}
    (hp : db.registry.pool? s.tag = some p) :
    ScopeMemory.Fits db s
      { owner := s.owner, tag := s.tag, index := s.index, records := p.liveCount,
        poolBytes := p.bytes, tableBytes := s.memory, arenas := p.stats } := by
  have hc := h.of_pool? hp
  have hids := liveIn_eq h hl.toOrderly hp
  obtain ⟨_, hscope, hne, _⟩ := hl.sound.of_pool? hp
  refine ⟨⟨rfl, rfl, rfl⟩, rfl, ?_, ?_, ?_, ⟨?_, fun id hid => ?_⟩, fun a ha => ?_⟩
  · rw [hids, hc.liveIds, List.length_map]
    exact hc.liveCount
  · show p.bytes = total (·.bytes) p.stats
    exact (total_map (f := (·.bytes)) (g := BoundArena.stats) (fun _ => rfl) p.arenas).symm
  · rw [Registry.poolBytes, hp]
    rfl
  · have htypes : p.stats.map (·.type) = p.types := by
      rw [Pool.stats, List.map_map]
      rfl
    exact htypes ▸ hc.nodup
  · rw [hids, hc.liveIds] at hid
    obtain ⟨key, hkey, rfl⟩ := List.mem_map.1 hid
    obtain ⟨b, hb, hk⟩ := List.mem_flatMap.1 hkey
    refine ⟨b.stats, List.mem_map_of_mem hb, ?_⟩
    rw [ObjectId.type?, (hc.unpack?_of_mem (hscope ▸ hne) hkey).2, Option.map_some,
      hc.type_of_mem hb hk]
    rfl
  · obtain ⟨b, hb, rfl⟩ := List.mem_map.1 ha
    exact arena_fits h hl hconfig hp hb

theorem forall₂_filterMap {σ β : Type} {R : σ → β → Prop} {f : σ → Option β} {l : List σ}
    (hl : ∀ s ∈ l, ∃ b, f s = some b ∧ R s b) : List.Forall₂ R l (l.filterMap f) := by
  induction l with
  | nil => exact List.Forall₂.nil
  | cons s l ih =>
    obtain ⟨b, hb, hr⟩ := hl s List.mem_cons_self
    rw [List.filterMap_cons_some hb]
    exact List.Forall₂.cons hr (ih fun t ht => hl t (List.mem_cons_of_mem s ht))

theorem report_fits (h : db.registry.Counted) (hl : db.registry.Laid) (hs : db.Shelved)
    (hconfig : db.registry.config = db.config.pool) :
    List.Forall₂ (ScopeMemory.Fits db) db.scopesInOrder db.memoryReport := by
  refine forall₂_filterMap fun s hmem => ?_
  obtain ⟨p, hp⟩ := hs.exists_pool (List.mem_reverse.1 hmem)
  exact ⟨_, by rw [hp, Option.map_some], row_fits h hl hconfig hp⟩

end Database

/-! ## What changes the bytes -/

namespace Registry

/-- The arena of one type in one pool has `n` bytes more.  All other arenas have what they had. -/
structure Gains (s : ScopeTag) (t : ObjectType) (n : Nat) (r r' : Registry) : Prop where
  arena : ∀ u v, r'.arenaBytes u v = r.arenaBytes u v + if u = s ∧ v = t then n else 0
  pool : ∀ u, r'.poolBytes u = r.poolBytes u + if u = s then n else 0

variable {r r' : Registry}

/-- A pool has the bytes of its arenas. -/
theorem gains_of_arenas (h : r.Counted) (h' : r'.Counted) {s : ScopeTag} {t : ObjectType} {n : Nat}
    (harena : ∀ u v, r'.arenaBytes u v = r.arenaBytes u v + if u = s ∧ v = t then n else 0) :
    Gains s t n r r' := by
  refine ⟨harena, fun u => ?_⟩
  rw [poolBytes_eq h.pool, poolBytes_eq h'.pool]
  have hchange := total_change (f := r.arenaBytes u) (g := r'.arenaBytes u) ObjectType.nodup_all
    t.mem_all fun v _ hv => by rw [harena, if_neg fun e => hv e.2, Nat.add_zero]
  have hself := harena u t
  simp only [and_true] at hself
  omega

end Registry

namespace Database

open Registry

variable {db db' : Database} {id : ObjectId}

theorem keepsCount_destroy (id : ObjectId) : Keeps KeepsCount (destroy id : Edit Bool) :=
  keepsCount_stepwise.piecewise.destroy id

/-- The room of a record goes with it. -/
theorem gains_of_destroy (h : db.registry.Counted) (hs : db.registry.Sound)
    (hid : db.registry.isScopeOwner id = false) {k : RecordKind} {x : Record k.Body}
    (hx : db.resolve k id = .ok (some x)) :
    ∃ s t, ScopeTag.of? id = some s ∧ id.type? = some t ∧
      Gains s t (k.room (db.resolve k id)) (after (destroy id : Edit Bool) db).registry
        db.registry := by
  obtain ⟨b, hr, _⟩ := destroy_eq (ε := Failure DbError) hs hid
  have h' := keepsCount_destroy id db h
  have hroom : k.room (db.resolve k id) = k.heapBytes x.body := by
    rw [hx, k.heapBytes_eq]
    rfl
  rw [hroom]
  rw [after_ok hr] at h' ⊢
  cases hp : db.registry.lookup? id with
  | none => simp [resolve, hp] at hx
  | some p =>
    simp only [resolve, hp] at hx
    cases hk : SlotKey.unpack? id with
    | none => simp [Pool.resolve, key?_of_unpack?_none hk p] at hx
    | some key =>
      have hof := SlotKey.of?_of_unpack? hk
      have htype : id.type? = some key.type := by rw [ObjectId.type?, hk, Option.map_some]
      refine ⟨key.scope, key.type, hof, htype, gains_of_arenas h' h fun u v => ?_⟩
      have hbytes := free_bytes (ε := Failure DbError) hs hp hx u v
      rw [hof, htype] at hbytes
      simpa [eq_comm] using hbytes.symm

theorem registry_after_destroy_of_not_live (hs : db.registry.Sound)
    (hid : db.registry.isScopeOwner id = false) (hn : ¬ db.isLive id = true) :
    (after (destroy id : Edit Bool) db).registry = db.registry := by
  obtain ⟨b, hr, _⟩ := destroy_eq (ε := Failure DbError) hs hid
  rw [after_ok hr]
  exact free_still hs fun hl => hn ((isLive_iff hs id).2 hl)

/-- No room comes with a blank record, so a page is added at most. -/
theorem gains_of_create (h : db.registry.Counted) (hl : db.registry.Laid) {k : RecordKind}
    {t : ObjectType} {owner : ObjectId} (hr : create k t owner db = .ok id db') :
    ∃ s n, ScopeTag.of? id = some s ∧ (n = 0 ∨ n = db.registry.config.pageSlots * k.slotBytes) ∧
      Gains s t n db.registry db'.registry := by
  have h' := keepsCount_stepwise.piecewise.create (fun _ hu => hu) k t owner db h
  rw [after_ok hr] at h'
  rcases create_steps hl.sound k t owner with
    ⟨e, he⟩ | ⟨index, root, key, r, _, _, hroot, _, hplaces, hplace, hcreate⟩
  · rw [hr] at he
    contradiction
  · obtain ⟨rfl, rfl⟩ : id = key.pack ∧ db' = _ := by
      rw [hr] at hcreate
      exact EStateM.Result.ok.inj hcreate
    have hr' : r = after (onPool key.scope (Edit.placing t (Pool.allocate k t))) db.registry := by
      have hafter := after_onRegistry
        (onPoolOf root (Edit.placing t (Pool.allocate k t))) db
      rw [after_ok hplace] at hafter
      have hreg : r = after (onPoolOf root (Edit.placing t (Pool.allocate k t))) db.registry :=
        congrArg Database.registry hafter
      rw [hreg]
      simp only [after, onPoolOf, hroot]
    obtain ⟨n, hn, hbytes⟩ := allocate_bytes hl k t (after_placing t (Pool.allocate k t)) key.scope
    refine ⟨key.scope, n, SlotKey.of?_pack hplaces.key_scope, hn, gains_of_arenas h h' fun u v => ?_⟩
    show (after (onIssuer key.pack (Pool.modifyHeader key.pack _)) r).arenaBytes u v = _
    rw [modifyHeader_bytes hplaces.sound key.pack (f := (·.setOwner index)) fun _ => rfl, hr']
    exact hbytes u v

theorem mem_liveIds_iff (h : db.registry.Counted) (ho : db.registry.Orderly) (id : ObjectId) :
    id ∈ db.registry.liveIds ↔ db.isLive id = true := by
  rw [h.mem_liveIds ho, isLive, header?]
  cases db.registry.lookup? id with
  | none => simp
  | some p => simp [Pool.isLive]

/-- An array owns no scope. -/
theorem not_isScopeOwner_of_array (hs : db.Shelved) {k : RecordKind} {x : Record k.Body}
    (hx : db.resolve k id = .ok (some x)) {n : Nat} (hn : k.capacity? x.body = some n) :
    db.registry.isScopeOwner id = false := by
  by_contra howner
  obtain ⟨s, hs'⟩ : ∃ s, db.registry.scopeOf? id = some s :=
    Option.isSome_iff_exists.1 (Bool.eq_true_of_not_eq_false howner)
  cases hp : db.registry.lookup? id with
  | none => simp [resolve, hp] at hx
  | some p =>
    simp only [resolve, hp] at hx
    obtain ⟨a, rfl⟩ := (hs.heads id s hs').kind_of_resolve hp hx
    cases a <;> cases hn

/-! ## The report -/

/-- The report of a database goes by what is found through handles, and changes as they do. -/
structure Reported (db : Database) : Prop where
  nodup : db.registry.liveIds.Nodup
  live : ∀ id, id ∈ db.registry.liveIds ↔ db.isLive id = true
  /-- Scopes are listed in the order in which their tags were handed out. -/
  order : (db.scopesInOrder.map (·.tag)).Pairwise fun s t => s.toNat < t.toNat
  rows : List.Forall₂ (ScopeMemory.Fits db) db.scopesInOrder db.memoryReport
  array : ∀ id k x n, db.resolve k id = .ok (some x) → k.capacity? x.body = some n →
    db.registry.isScopeOwner id = false
  /-- With a record that owns no scope goes the room it had, which is none if it was no array. -/
  destroyed : ∀ id k x, db.registry.isScopeOwner id = false → db.resolve k id = .ok (some x) →
    ∃ s t, ScopeTag.of? id = some s ∧ id.type? = some t ∧
      Gains s t ((k.capacity? x.body).elim 0 (· * k.elementBytes))
        (after (destroy id : Edit Bool) db).registry db.registry
  not_live : ∀ id, db.registry.isScopeOwner id = false → ¬ db.isLive id = true →
    (after (destroy id : Edit Bool) db).registry = db.registry
  /-- A record that is created adds a page at most. -/
  created : ∀ k t owner id db', create k t owner db = .ok id db' →
    ∃ s n, ScopeTag.of? id = some s ∧ (n = 0 ∨ n = db.config.pool.pageSlots * k.slotBytes) ∧
      Gains s t n db.registry db'.registry
  refused : ∀ k t owner e db', create k t owner db = .error e db' → db' = db

end Database

/-- In every state that a new database comes to, as long as nothing is written to the handle or the
status of a record, the report has one row for every open scope, in the order in which the scopes
were opened.  The figures of a row are those of the live records whose handles have the tag of the
scope: how many there are, as a whole and under each type, and the bytes they take, which are those
of the pages and of the room that arrays have reserved.  So an array takes off its room when it is
destroyed, and other records that own no scope take off nothing.  A record that is created adds a
page, or nothing. -/
theorem memory_report_follows_live_records {c : StoreConfig} {start : Database}
    (h : Database.new c = .ok start) {cmds : List Command}
    (hcmds : ∀ c ∈ cmds, c.Writes Pool.Use.Discreet) : (Database.run cmds start).Reported := by
  have hcounted := Database.counted_run h hcmds
  have hlaid := Database.laid_run h cmds
  have hshelved := Database.shelved_run h cmds
  obtain ⟨hc, hpool⟩ := Database.config_run h cmds
  generalize Database.run cmds start = db at hcounted hlaid hshelved hc hpool ⊢
  have hconfig : db.registry.config = db.config.pool := by rw [hc, hpool]
  have ho := hlaid.toOrderly
  refine
    { nodup := hcounted.nodup_liveIds ho
      live := Database.mem_liveIds_iff hcounted ho
      order := ?_
      rows := Database.report_fits hcounted hlaid hshelved hconfig
      array := fun id k x n hx hn => Database.not_isScopeOwner_of_array hshelved hx hn
      destroyed := fun id k x hid hx => ?_
      not_live := fun id hid hn => Database.registry_after_destroy_of_not_live ho.sound hid hn
      created := fun k t owner id db' hr => hconfig ▸ Database.gains_of_create hcounted hlaid hr
      refused := fun k t owner e db' hr => ?_ }
  · rw [Database.scopesInOrder, List.map_reverse, List.pairwise_reverse]
    exact List.pairwise_map.2 hshelved.newest
  · have hgains := Database.gains_of_destroy hcounted ho.sound hid hx
    rwa [hx] at hgains
  · rcases Database.create_cases ho.sound k t owner with
      ⟨e', he⟩ | ⟨_, _, _, _, _, _, _, _, _, _, _, he⟩ <;>
      rw [hr] at he <;> cases he
    rfl

/-- One of two arrays and an instance are destroyed.  What is left of them are the pages.  The other
array goes with room for six handles. -/
theorem memory_report_follows_live_records_freed :
    let c : StoreConfig := { pool := { pageSlots := 4 } }
    let top := Session.firstPage 1 .cell 0 0
    let array := Session.firstPage 1 .array 0 0
    let inst := Session.firstPage 1 .inst 0 0
    let cmds : List Command := [.initTopCell "top", .initTechLib, .createIdArray top 6,
      .create .inst .inst top, .appendId (some array) top inst, .createIdArray top 9,
      .destroy (Session.firstPage 1 .array 0 1), .destroy inst]
    let db := Database.run cmds (Database.empty c)
    Database.new c = .ok (Database.empty c) ∧ (∀ c ∈ cmds, c.Writes Pool.Use.Discreet) ∧
      db.memoryReport.map (fun row => (row.tag, row.records, row.poolBytes)) =
        [(⟨1⟩, 2, 656), (⟨2⟩, 1, 192)] ∧
      db.registry.isScopeOwner array = false ∧
      (after (Database.destroy array : Edit Bool) db).registry.poolBytes ⟨1⟩ = 656 - 6 * 8 := by
  intro c top array inst cmds db
  have hcmds : ∀ c ∈ cmds, c.Writes Pool.Use.Discreet := by simp [cmds, Command.Writes]
  have hreported := memory_report_follows_live_records (c := c) rfl hcmds
  have hcapacity : (db.resolve .ids array).toOption.map
      (·.map fun x => RecordKind.ids.capacity? x.body) = some (some (some 6)) := by decide +kernel
  have hbytes : db.registry.poolBytes ⟨1⟩ = 656 := by decide +kernel
  cases hx : db.resolve .ids array with
  | error f => simp [hx, Except.toOption] at hcapacity
  | ok x =>
    cases x with
    | none => simp [hx, Except.toOption] at hcapacity
    | some x =>
      have hx6 : RecordKind.ids.capacity? x.body = some 6 := by
        simpa [hx, Except.toOption] using hcapacity
      have hid := hreported.array array .ids x 6 hx hx6
      obtain ⟨s, t, hs, _, hgains⟩ := hreported.destroyed array .ids x hid hx
      obtain rfl : s = ⟨1⟩ := Option.some.inj (hs.symm.trans (by decide +kernel))
      have hpool := hgains.pool ⟨1⟩
      rw [hx6, hbytes] at hpool
      refine ⟨rfl, hcmds, by decide +kernel, hid, ?_⟩
      simp [RecordKind.elementBytes] at hpool
      omega

end DesignStore
