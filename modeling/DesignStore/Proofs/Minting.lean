/-
No handle is given out twice, and none comes back.

A handle that was given out is spent, and stays so; a record is placed only under a
handle that is not spent.  So the handles of a run are pairwise distinct, those of pools
and of databases that are long gone among them (`minted_ids_distinct`).  Headers play no
part in this: a handle says what it was made from, and no operation reads it from a
header.

The status in a header does play a part in whether a record is live.  It can be written
to only while the record is live, so a handle that was given out and is not live, for
whatever reason, is not live ever after (`minted_id_stays_dead`).
-/
import DesignStore.Proofs.Database
import DesignStore.Proofs.Session

namespace DesignStore

/-- What a note of a placement says, and what is true of the handle from then on. -/
structure Minting.Holds (r : Registry) (m : Minting) : Prop where
  key : ∃ k, SlotKey.unpack? m.id = some k ∧ k.scope = m.scope ∧ k.type = m.type
  spent : r.Spent m.id
  kind : r.pool? m.scope = none ∨ r.kind? m.scope m.type = some m.kind

namespace Minting.Holds

variable {r r' : Registry} {m : Minting}

theorem mono (h : m.Holds r) (he : Registry.Evolves r r') : m.Holds r' where
  key := h.key
  spent := h.spent.mono he
  kind := by
    obtain ⟨k, hk, hs, _⟩ := h.key
    obtain ⟨k', hk', hissued, _⟩ := h.spent
    cases hk.symm.trans hk'
    rw [hs] at hissued
    rcases h.kind with hp | hkind
    · exact Or.inl (he.gone m.scope hissued hp)
    · exact he.kind m.scope m.type m.kind hkind

theorem of_places {k : RecordKind} {key : SlotKey} (h : Registry.Places k key r r') :
    Minting.Holds r' { scope := key.scope, type := key.type, kind := k, id := key.pack } where
  key := ⟨key, h.unpack?_pack, rfl, rfl⟩
  spent := h.spent
  kind := Or.inr (by rw [h.kind, if_pos ⟨rfl, rfl⟩])

end Minting.Holds

namespace Session

/-- The notes are true and of distinct handles, and every record is noted. -/
structure Good (s : Session) : Prop where
  sound : s.db.registry.Sound
  nodup : (s.minted.map (·.id)).Nodup
  holds : ∀ m ∈ s.minted, m.Holds s.db.registry
  complete : ∀ id, (s.db.registry.record? id).isSome = true → id ∈ s.minted.map (·.id)

/-- What every command keeps: the notes stay good, and what was noted stays noted. -/
def Onward (s s' : Session) : Prop :=
  s.Good → s'.Good ∧ Registry.Evolves s.db.registry s'.db.registry ∧ s.minted <:+ s'.minted

instance : IsPreorder Session Onward where
  refl s h := ⟨h, Registry.Evolves.refl h.sound, List.suffix_refl s.minted⟩
  trans _ _ _ h h' hg := by
    obtain ⟨hg', he, hm⟩ := h hg
    obtain ⟨hg'', he', hm'⟩ := h' hg'
    exact ⟨hg'', he.trans hg.sound he', hm.trans hm'⟩

theorem onward_of_calm {db db' : Database} (h : Database.Calm db db') : Still Onward db db' := by
  intro l hg
  obtain ⟨he, hq⟩ := h hg.sound
  exact ⟨⟨he.sound, hg.nodup, fun m hm => (hg.holds m hm).mono he,
    fun id hid => hg.complete id (hq id hid)⟩, he, List.suffix_refl l⟩

theorem onward_of_places {s : Session} {k : RecordKind} {key : SlotKey} {r r' : Registry}
    (he : s.db.registry.Sound → Registry.Evolves s.db.registry r)
    (hq : Registry.Quiet s.db.registry r) (h : Registry.Places k key r r') {db : Database}
    (hdb : db.registry = r') :
    Onward s { db, minted := { scope := key.scope, type := key.type, kind := k, id := key.pack } ::
      s.minted } := by
  intro hg
  have he := he hg.sound
  have he' : Registry.Evolves s.db.registry db.registry := hdb ▸ he.trans hg.sound h.evolves
  refine ⟨⟨he'.sound, ?_, ?_, ?_⟩, he', List.suffix_cons _ _⟩
  · rw [List.map_cons, List.nodup_cons]
    refine ⟨fun hmem => ?_, hg.nodup⟩
    obtain ⟨m, hm, hid⟩ := List.mem_map.1 hmem
    have hid : m.id = key.pack := hid
    have hspent := (hg.holds m hm).spent.mono he
    rw [hid] at hspent
    exact h.not_spent hspent
  · intro m hm
    rcases List.mem_cons.1 hm with rfl | hm
    · rw [hdb]
      exact Minting.Holds.of_places h
    · exact (hg.holds m hm).mono he'
  · intro id hid
    by_cases hkey : id = key.pack
    · rw [hkey]
      exact List.mem_cons_self
    · obtain ⟨o, ho⟩ := Option.isSome_iff_exists.1 hid
      rw [hdb] at ho
      have ho := h.record? hkey ho
      exact List.mem_cons_of_mem _ (hg.complete id (hq id (Option.isSome_iff_exists.2 ⟨o, ho⟩)))

theorem onward_place (root : ObjectId) (k : RecordKind) (t : ObjectType) :
    Keeps Onward (place root k t) := by
  intro s hg
  rcases Database.place_cases hg.sound root k t with hr | ⟨key, r, hs, rfl, hp, hr⟩ | ⟨e, hr⟩
  · simp only [after, place, noting, hr]
    cases s.db.registry.scopeOf? root <;> exact refl_of Onward s hg
  · simp only [after, place, noting, hr, hs]
    exact onward_of_places Registry.Evolves.refl (fun _ => id) hp rfl hg
  · simp only [after, place, noting, hr]
    exact refl_of Onward s hg

theorem onward_found (a : ActiveScope) : Keeps Onward (found a) := by
  intro s hg
  rcases Database.found_cases hg.sound a with ⟨key, r, ht, ho, hp, hr⟩ | hr
  · have hs : after (found a) s = { db := { s.db with registry := r }, minted :=
        { scope := key.scope, type := key.type, kind := a.kind, id := key.pack } :: s.minted } := by
      rw [ht]
      simp only [after, found, noting, hr]
      rfl
    rw [hs]
    exact onward_of_places ho.evolves (ho.quiet hg.sound) hp rfl hg
  · simp only [after, found, noting, hr]
    exact refl_of Onward s hg

theorem onward_quietly {α : Type} {x : Edit α} (hx : Keeps Database.Calm x) :
    Keeps Onward (quietly x) :=
  keeps_quietly (hx.mono fun _ _ => onward_of_calm)

theorem onward_openScope (a : ActiveScope) : Keeps Onward (openScope a) := by
  refine (onward_found a).bind fun p => ?_
  obtain ⟨tag, id⟩ := p
  exact (onward_quietly (Database.calm_register id tag none)).bind fun _ =>
    (onward_quietly (Database.calm_update a.kind id _).discard).bind fun _ => Keeps.pure id

theorem onward_openNested (parent : ObjectId) : Keeps Onward (openNested parent) := by
  have hcreate := keeps_create onward_place
    (fun id _ => (Database.calm_modifyHeader id _).mono fun _ _ => onward_of_calm)
    .cell .cell parent
  have hpool (id : ObjectId) : Keeps Database.Calm
      (tryCatch (Edit.placing .cell (Database.onRegistry Registry.createPool)) fun e => do
        discard <| Database.destroy id
        throw e : Edit ScopeTag) :=
    (Database.calm_createPool .cell).tryCatch fun e =>
      (Database.calm_destroy id).discard.bind fun _ => Keeps.throw e
  refine (onward_quietly (keeps_read _)).bind fun around => ?_
  cases around with
  | none => exact onward_quietly (Keeps.throw _)
  | some around =>
    exact hcreate.bind fun id =>
      (onward_quietly (Database.calm_update .cell id _).discard).bind fun _ =>
      (onward_quietly (hpool id)).bind fun tag =>
      (onward_quietly (Database.calm_register id tag _)).bind fun index =>
      (onward_quietly (Database.calm_onScopeWhere _ _).discard).bind fun _ =>
      (onward_quietly (keeps_updateCell Database.calm_update id _)).bind fun _ => Keeps.pure id

theorem onward_local : Local Onward where
  create := keeps_create onward_place fun id _ =>
    (Database.calm_modifyHeader id _).mono fun _ _ => onward_of_calm
  body k id _ _ := (Database.calm_update k id _).mono fun _ _ => onward_of_calm
  symbols id _ := (Database.calm_onStorageScope id _).mono fun _ _ => onward_of_calm
  polygons id _ := (Database.calm_onStorageScope id _).mono fun _ _ => onward_of_calm
  index id := (Database.calm_indexObject id).mono fun _ _ => onward_of_calm
  destroy id := (Database.calm_destroy id).mono fun _ _ => onward_of_calm
  destroyScope owner := (Database.calm_destroyScope owner).mono fun _ _ => onward_of_calm
  reset := Keeps.modify fun db => onward_of_calm (Database.calm_reset db)

theorem onward_stable : Stable (fun _ => False) Onward :=
  onward_local.stable onward_openScope
    (fun _ _ => Keeps.modify fun _ => onward_of_calm (Database.calm_of_registry rfl))
    onward_openNested

theorem onward_run (cmds : List Command) (s : Session) : Onward s (run cmds s) := by
  refine onward_stable.run cmds (fun c _ hc => ?_) s (Database.avoids_nothing s.db cmds)
  refine Keeps.mono ?_ fun _ _ => onward_of_calm
  cases c with
  | setOwner id owner => exact (Database.calm_setOwner id owner).discard
  | restoreHierarchy l => exact Database.calm_restoreHierarchy l
  | write k id f => exact (Database.calm_update k id f).discard
  | writeHeader id f => exact (Database.calm_modifyHeader id f).discard
  | editHeader id e => exact (Database.calm_editHeader id e).discard
  | properties id x => exact (Database.calm_onHomeScope id _).discard
  | _ => exact hc.elim

theorem good_start {c : StoreConfig} {db : Database} (h : Database.new c = .ok db) :
    (start db).Good := by
  obtain ⟨hc, rfl⟩ := Database.new_eq_ok h
  refine ⟨Registry.sound_empty hc, List.nodup_nil, by simp [start], fun id hid => ?_⟩
  have hn : (Registry.empty c.pool).record? id = none :=
    Registry.record?_clear (Registry.empty c.pool) id
  rw [show (start (Database.empty c)).db.registry = Registry.empty c.pool from rfl, hn] at hid
  contradiction

end Session

/-- The handles given out in a run, whatever its commands are and however the records and
headers are written to, are pairwise distinct; none is null, and each says which pool and
which record type it was given out for.  The notes are those of the run, and nothing is
ever found under a handle that is not noted. -/
theorem minted_ids_distinct {c : StoreConfig} {db : Database} (h : Database.new c = .ok db)
    (cmds : List Command) :
    let s := Session.run cmds (Session.start db)
    s.db = Database.run cmds db ∧
      (s.minted.map (·.id)).Nodup ∧
      (∀ m ∈ s.minted, m.id ≠ ObjectId.null ∧ ScopeTag.of? m.id = some m.scope ∧
        m.id.type? = some m.type) ∧
      ∀ id, (s.db.inspect? id).isSome = true → id ∈ s.minted.map (·.id) := by
  have hs := Session.run_db cmds (Session.start db)
  obtain ⟨hg, _, _⟩ := Session.onward_run cmds _ (Session.good_start h)
  refine ⟨hs, hg.nodup, fun m hm => ?_, fun id hid => hg.complete id ?_⟩
  · obtain ⟨k, hk, hscope, htype⟩ := (hg.holds m hm).key
    refine ⟨fun hn => ?_, by rw [SlotKey.of?_of_unpack? hk, hscope], ?_⟩
    · rw [hn, SlotKey.unpack?_null] at hk
      contradiction
    · rw [ObjectId.type?, hk, Option.map_some, htype]
  · rwa [Database.inspect?_eq hg.sound, Option.isSome_map] at hid

/-- A run with a slot that is used twice and a tag from before a reset. -/
theorem minted_ids_distinct_sample :
    Database.new {} = .ok (Database.empty {}) ∧
      let top := Session.firstPage 1 .cell 0 0
      let inst := Session.firstPage 1 .inst 0 0
      let s := Session.run
        [.initTopCell "top", .create .inst .inst top, .destroy inst, .create .inst .inst top, .reset,
          .initTopCell "top"] (Session.start (Database.empty {}))
      s.minted.length = 4 ∧ (s.minted.map (·.id)).Nodup :=
  ⟨rfl, by decide +kernel, (minted_ids_distinct (c := {}) rfl _).2.1⟩

theorem Minting.Holds.reads_of_stale {db : Database} {m : Minting} (h : m.Holds db.registry)
    (hsound : db.registry.Sound) (hstale : db.registry.Stale m.id) :
    db.isLive m.id = false ∧ db.header? m.id = none ∧ db.resolve m.kind m.id = .ok none ∧
      ∀ hd, db.inspect? m.id = some hd → hd.isValid = false := by
  have hlive : db.isLive m.id = false := by
    have hn := hstale.not_live
    rw [← Database.isLive_iff hsound] at hn
    simpa using hn
  obtain ⟨k, hk, hscope, htype⟩ := h.key
  have hbound (k' : RecordKind) (hk' : db.registry.kind? k.scope k.type = some k') :
      k' = m.kind := by
    rw [hscope, htype] at hk'
    rcases h.kind with hp | hkind
    · rw [Registry.kind?, hp] at hk'
      contradiction
    · rw [hkind] at hk'
      exact (Option.some.inj hk').symm
  refine ⟨hlive, by simpa [Database.isLive] using hlive,
    Database.resolve_eq_none hsound hk hbound hstale.not_live, fun hd hhd => ?_⟩
  rw [Database.inspect?_eq hsound] at hhd
  obtain ⟨o, ho, rfl⟩ := Option.map_eq_some_iff.1 hhd
  exact hstale.isValid_of_record? ho

/-- A handle that was given out and at some point is not live is not live at any later
point: nothing is read under it, and if a header is still found there it is not valid. -/
theorem minted_id_stays_dead {c : StoreConfig} {db : Database} (h : Database.new c = .ok db)
    (cmds later : List Command) {m : Minting} (hm : m ∈ (Session.run cmds (Session.start db)).minted)
    (hdead : (Database.run cmds db).isLive m.id = false) :
    let db' := Database.run later (Database.run cmds db)
    db'.isLive m.id = false ∧ db'.header? m.id = none ∧ db'.resolve m.kind m.id = .ok none ∧
      ∀ hd, db'.inspect? m.id = some hd → hd.isValid = false := by
  have hs : (Session.run cmds (Session.start db)).db = Database.run cmds db :=
    Session.run_db cmds (Session.start db)
  have hs' := Session.run_db later (Session.run cmds (Session.start db))
  rw [hs] at hs'
  obtain ⟨hg, _, _⟩ := Session.onward_run cmds _ (Session.good_start h)
  obtain ⟨hg', he, hsuffix⟩ := Session.onward_run later _ hg
  have hspent := (hg.holds m hm).spent
  have hholds := hg'.holds m (hsuffix.subset hm)
  have hsound := hg'.sound
  have hlive := Database.isLive_iff hg.sound m.id
  rw [hs', hs] at he
  rw [hs] at hspent hlive
  rw [hs'] at hholds hsound
  have hn : ¬ (Database.run cmds db).registry.Live m.id := by
    rw [← hlive, hdead]
    exact Bool.false_ne_true
  exact hholds.reads_of_stale hsound ((hspent.stale_of_not_live hn).mono he)

/-- The handle of a record whose status was cleared by hand, later in a run that goes on to
destroy it and to place another in the same pool. -/
theorem minted_id_stays_dead_sample :
    let top := Session.firstPage 1 .cell 0 0
    let inst := Session.firstPage 1 .inst 0 0
    let m : Minting := { scope := ⟨1⟩, type := .inst, kind := .inst, id := inst }
    let cmds : List Command :=
      [.initTopCell "top", .create .inst .inst top, .editHeader inst (.setFlag .valid false)]
    let later : List Command := [.destroy inst, .create .inst .inst top]
    (Database.run cmds (Database.empty {})).isLive inst = false ∧
      (Database.run later (Database.run cmds (Database.empty {}))).isLive m.id = false := by
  intro top inst m cmds later
  have hm : m ∈ (Session.run cmds (Session.start (Database.empty {}))).minted := by
    have he : (Session.run cmds (Session.start (Database.empty {}))).minted =
        [m, { scope := ⟨1⟩, type := .cell, kind := .cell, id := top }] := by decide +kernel
    simp [he]
  have hdead : (Database.run cmds (Database.empty {})).isLive inst = false := by decide +kernel
  exact ⟨hdead, (minted_id_stays_dead (c := {}) rfl cmds later hm hdead).1⟩

end DesignStore
