/-
Closing scopes.

With some scopes go their pools, the positions of their owners and of all that their pools
issued, and the slots of active scopes that name their owners; everything else stays
(`Closes`).  Scopes can be closed one after the other, in any order.

A database is `Tidy` if its open scopes are a forest, the scopes, the pools and the table of
owners agree, and no handle is in one of its tables that was not given out.  In such a
database closing a scope closes that scope and all that lies inside it, and takes its owner
off the tables of the scope around it (`destroyScope_of_some`).
-/
import DesignStore.Proofs.Database
import DesignStore.Proofs.Forest
import DesignStore.Proofs.Hierarchy

namespace DesignStore

/-- Whether a handle goes with a scope: it is that of the owner, or one its pool issued. -/
def StorageScope.takes (s : StorageScope) (id : ObjectId) : Bool :=
  id = s.owner ∨ ScopeTag.of? id = some s.tag

/-- A scope with a nested owner taken off its tables. -/
def StorageScope.without (o : ObjectId) (s : StorageScope) : StorageScope :=
  { s with
    children := s.children.filter (· ≠ o)
    properties := { byObject := s.properties.byObject.erase o } }

namespace Database

open Registry

variable {db db' db'' : Database} {gone gone' : List StorageScope}

/-- Every open scope has an owner, a tag and a pool of its own. -/
structure Housed (db : Database) : Prop where
  sound : db.registry.Sound
  paired : db.hierarchy.Paired
  owners : (db.scopes.map (·.owner)).Nodup
  tags : (db.scopes.map (·.tag)).Nodup
  pool : ∀ s ∈ db.scopes, (db.registry.pool? s.tag).isSome = true

/-- What closing some of the open scopes does. -/
structure Closes (gone : List StorageScope) (db db' : Database) : Prop where
  subset : gone ⊆ db.scopes
  config : db'.config = db.config
  sound : db'.registry.Sound
  registry : db'.registry = db.registry.less fun t => gone.any (·.tag = t)
  scopes : db'.scopes = db.scopes.filter (· ∉ gone)
  paired : db'.hierarchy.Paired
  entries : db'.hierarchy.entries = db.hierarchy.entries.filter fun e => !gone.any (·.takes e.2)
  positions : db'.hierarchy.positions =
    db.hierarchy.positions.filter fun id _ => !gone.any (·.takes id)
  active : ∀ a, db'.hierarchy.active a =
    (db.hierarchy.active a).filter fun id => !gone.any (·.owner = id)
  grows : Hierarchy.Grows db.hierarchy db'.hierarchy
  size : db'.hierarchy.size = db.hierarchy.size

namespace Closes

theorem refl (h : db.Housed) : Closes [] db db where
  subset := List.nil_subset _
  config := rfl
  sound := h.sound
  registry := (less_nothing db.registry).symm
  scopes := by simp
  paired := h.paired
  entries := by simp
  positions := by simp [Assoc.filter]
  active := by
    intro a
    cases db.hierarchy.active a <;> rfl
  grows := Hierarchy.Grows.of_owners rfl
  size := rfl

theorem trans (h : Closes gone db db') (h' : Closes gone' db' db'') :
    Closes (gone ++ gone') db db'' where
  subset := by
    have hsub : db'.scopes ⊆ db.scopes := h.scopes ▸ List.filter_subset_self _
    exact List.append_subset.2 ⟨h.subset, List.Subset.trans h'.subset hsub⟩
  config := h'.config.trans h.config
  sound := h'.sound
  registry := by
    rw [h'.registry, h.registry, less_less]
    simp only [List.any_append]
  scopes := by
    rw [h'.scopes, h.scopes, List.filter_filter]
    exact List.filter_congr fun s _ => by simp [Bool.and_comm]
  paired := h'.paired
  entries := by
    rw [h'.entries, h.entries, List.filter_filter]
    exact List.filter_congr fun e _ => by rw [List.any_append, Bool.not_or, Bool.and_comm]
  positions := by
    rw [h'.positions, h.positions]
    simp [Assoc.filter, List.filter_filter, Bool.and_comm]
  active := by
    intro a
    rw [h'.active, h.active]
    cases db.hierarchy.active a with
    | none => rfl
    | some id => cases gone.any (·.owner = id) <;> simp
  grows := h.grows.trans h'.grows
  size := h'.size.trans h.size

theorem congr (h : Closes gone db db') (hg : ∀ s, s ∈ gone' ↔ s ∈ gone) : Closes gone' db db' := by
  have hany (p : StorageScope → Bool) : gone'.any p = gone.any p := by
    rw [Bool.eq_iff_iff, List.any_eq_true, List.any_eq_true]
    simp only [hg]
  refine ⟨fun s hs => h.subset ((hg s).1 hs), h.config, h.sound, ?_, ?_, h.paired, ?_, ?_, ?_,
    h.grows, h.size⟩
  · simpa only [hany] using h.registry
  · simpa only [hg] using h.scopes
  · simpa only [hany] using h.entries
  · simpa only [hany] using h.positions
  · simpa only [hany] using h.active

theorem pool (h : Closes gone db db') (t : ScopeTag) : db'.registry.pool? t =
    if (gone.any (·.tag = t)) = true then none else db.registry.pool? t := by
  rw [h.registry, pool?_less]

theorem tags (h : Closes gone db db') :
    db'.registry.tags = db.registry.tags.filter fun t => !gone.any (·.tag = t) := by
  rw [h.registry, tags_less]

theorem owners (h : Closes gone db db') :
    db'.registry.owners = db.registry.owners.filter fun _ t => !gone.any (·.tag = t) := by
  rw [h.registry, less]

theorem housed (hc : Closes gone db db') (h : db.Housed) : db'.Housed where
  sound := hc.sound
  paired := hc.paired
  owners := by
    rw [hc.scopes]
    exact h.owners.sublist (List.filter_sublist.map _)
  tags := by
    rw [hc.scopes]
    exact h.tags.sublist (List.filter_sublist.map _)
  pool := by
    intro s hs
    rw [hc.scopes] at hs
    obtain ⟨hs, hsg⟩ := List.mem_filter.1 hs
    rw [hc.pool, if_neg]
    · exact h.pool s hs
    · intro hany
      obtain ⟨t, ht, hts⟩ := List.any_eq_true.1 hany
      have hts : t.tag = s.tag := by simpa using hts
      have := List.inj_on_of_nodup_map h.tags (hc.subset ht) hs hts
      subst this
      simp [ht] at hsg

theorem lookup? (h : Closes gone db db') (id : ObjectId) :
    db'.registry.lookup? id =
      if (gone.any fun s => ScopeTag.of? id = some s.tag) = true then none
      else db.registry.lookup? id := by
  cases ht : ScopeTag.of? id with
  | none => simp [Registry.lookup?, ht]
  | some t =>
    have hany : gone.any (fun s => decide (some t = some s.tag)) = gone.any (·.tag = t) := by
      simp [eq_comm]
    rw [hany]
    simp only [Registry.lookup?, ht, Option.bind_eq_bind, Option.bind_some, h.pool]

theorem record? (h : Closes gone db db') (id : ObjectId) :
    db'.registry.record? id =
      if (gone.any fun s => ScopeTag.of? id = some s.tag) = true then none
      else db.registry.record? id := by
  have hl := h.lookup? id
  by_cases hg : (gone.any fun s => ScopeTag.of? id = some s.tag) = true
  · rw [if_pos hg] at hl ⊢
    exact record?_eq_none hl
  · rw [if_neg hg] at hl ⊢
    exact record?_congr hl

end Closes

theorem closes_closeScope_of_some (h : db.Housed) {o : ObjectId} {s : StorageScope}
    (ho : db.scope? o = some s) : Closes [s] db (db.closeScope o) := by
  obtain ⟨hs, rfl⟩ := of_scope? ho
  have hp := Hierarchy.paired_deleteWhere h.paired s.takes
  obtain ⟨p, hpool⟩ := Option.isSome_iff_exists.1 (h.pool s hs)
  have hless : (db.registry.less fun t => [s].any (·.tag = t)) = db.registry.less (· = s.tag) := by
    simp [eq_comm]
  simp only [closeScope, ho, removePool_of_some hpool, ← hless]
  have hgrows := Hierarchy.Grows.deleteWhere h.paired s.takes
  have hsize := Hierarchy.size_deleteWhere h.paired s.takes
  refine ⟨by simpa using hs, rfl, sound_less h.sound fun t => [s].any (·.tag = t), rfl, ?_, ?_, ?_, ?_, ?_,
    hgrows.trans (Hierarchy.Grows.of_owners rfl), hsize⟩
  · refine List.filter_congr fun t ht => ?_
    rw [decide_eq_decide, not_iff_not, List.mem_singleton]
    constructor
    · exact List.inj_on_of_nodup_map h.owners ht hs
    · rintro rfl
      rfl
  · exact hp.of_owners rfl rfl
  · refine (Hierarchy.entries_deleteWhere h.paired s.takes).trans ?_
    simp
  · simp [Hierarchy.clearActive, Hierarchy.deleteWhere, StorageScope.takes]
  · intro a
    rw [Hierarchy.active_clearActive, Hierarchy.active_deleteWhere]
    congr 1
    funext id
    by_cases hid : id = s.owner
    · simp [hid]
    · simp [hid, Ne.symm hid]

theorem closes_closeScope (h : db.Housed) (o : ObjectId) :
    ∃ gone, Closes gone db (db.closeScope o) ∧ ∀ s, s ∈ gone ↔ s ∈ db.scopes ∧ s.owner = o := by
  cases ho : db.scope? o with
  | none =>
    refine ⟨[], ?_, fun s => ?_⟩
    · rw [closeScope_of_none ho]
      exact Closes.refl h
    · simp only [List.not_mem_nil, false_iff, not_and]
      intro hs
      simpa using List.find?_eq_none.1 ho s hs
  | some s =>
    refine ⟨[s], closes_closeScope_of_some h ho, fun t => ?_⟩
    obtain ⟨hs, hso⟩ := of_scope? ho
    rw [List.mem_singleton]
    constructor
    · rintro rfl
      exact ⟨hs, hso⟩
    · rintro ⟨ht, hto⟩
      exact List.inj_on_of_nodup_map h.owners ht hs (hto.trans hso.symm)

theorem closes_closeScopes (h : db.Housed) (l : List ObjectId) :
    ∃ gone, Closes gone db (l.foldl closeScope db) ∧
      ∀ s, s ∈ gone ↔ s ∈ db.scopes ∧ s.owner ∈ l := by
  induction l generalizing db with
  | nil => exact ⟨[], Closes.refl h, by simp⟩
  | cons o l ih =>
    obtain ⟨gone, hc, hg⟩ := closes_closeScope h o
    obtain ⟨gone', hc', hg'⟩ := ih (hc.housed h)
    refine ⟨gone ++ gone', hc.trans hc', fun s => ?_⟩
    rw [List.mem_append, hg, hg', hc.scopes, List.mem_filter, List.mem_cons]
    by_cases ho : s.owner = o <;> simp [hg, ho]

/-! ## Closing a scope with what lies inside it -/

/-- The scopes, the pools, the table of owners and the hierarchy agree. -/
structure Tidy (db : Database) : Prop where
  sound : db.registry.Sound
  paired : db.hierarchy.Paired
  forest : Forest db.scopes
  pool : ∀ s ∈ db.scopes, (db.registry.pool? s.tag).isSome = true
  bound : ∀ e ∈ db.registry.owners.entries, ∃ s ∈ db.scopes, s.owner = e.1 ∧ s.tag = e.2
  spent : ∀ s ∈ db.scopes, db.registry.Spent s.owner
  indexed : ∀ e ∈ db.hierarchy.positions.entries, db.registry.Spent e.1

theorem Tidy.housed (h : db.Tidy) : db.Housed where
  sound := h.sound
  paired := h.paired
  owners := h.forest.owners
  tags := h.forest.tags
  pool := h.pool

/-- The scopes that are closed with that of `o`. -/
def doomed (db : Database) (o : ObjectId) : List StorageScope :=
  db.scopes.filter (·.owner ∈ db.subtree o)

theorem mem_doomed (h : Forest db.scopes) {o : ObjectId} {t : StorageScope} :
    t ∈ db.doomed o ↔ t ∈ db.scopes ∧ Inside db.scopes o t.owner := by
  rw [doomed, List.mem_filter, decide_eq_true_eq, mem_subtree h]

theorem self_mem_doomed (h : Forest db.scopes) {o : ObjectId} {s : StorageScope}
    (ho : db.scope? o = some s) : s ∈ db.doomed o := by
  obtain ⟨hs, rfl⟩ := of_scope? ho
  exact (mem_doomed h).2 ⟨hs, Relation.ReflTransGen.refl⟩

/-- Scopes that go are told from those that stay by anything that tells scopes apart. -/
theorem any_doomed {κ : Type} [DecidableEq κ] {key : StorageScope → κ} {t : StorageScope}
    (hkey : ∀ g ∈ db.scopes, key g = key t → g = t) (o : ObjectId) :
    (db.doomed o).any (key · = key t) = decide (t ∈ db.doomed o) := by
  rw [Bool.eq_iff_iff, List.any_eq_true, decide_eq_true_eq]
  constructor
  · rintro ⟨g, hg, hk⟩
    rwa [← hkey g (List.mem_filter.1 hg).1 (of_decide_eq_true hk)]
  · intro ht
    exact ⟨t, ht, decide_eq_true rfl⟩

theorem any_owner_doomed (h : Forest db.scopes) {t : StorageScope} (ht : t ∈ db.scopes)
    (o : ObjectId) : (db.doomed o).any (·.owner = t.owner) = decide (t ∈ db.doomed o) :=
  any_doomed (fun _ hg => h.eq_of_owner hg ht) o

/-- A scope that stays takes nothing with it that belongs to one that goes: its owner is a
record of its own scope, or of the scope around it, which stays too. -/
theorem not_takes_of_not_mem_doomed (h : Forest db.scopes) {o : ObjectId} {t : StorageScope}
    (ht : t ∈ db.scopes) (hn : t ∉ db.doomed o) : (db.doomed o).any (·.takes t.owner) = false := by
  rw [Bool.eq_false_iff]
  intro hany
  obtain ⟨g, hg, htakes⟩ := List.any_eq_true.1 hany
  obtain ⟨hgs, hin⟩ := (mem_doomed h).1 hg
  rcases of_decide_eq_true htakes with howner | hof
  · rw [h.eq_of_owner ht hgs howner] at hn
    exact hn hg
  cases hp : t.parent with
  | none =>
    rw [h.root t ht hp, Option.some.injEq] at hof
    rw [h.eq_of_tag ht hgs hof] at hn
    exact hn hg
  | some p =>
    obtain ⟨q, hq, rfl, hofq, _⟩ := h.parent t ht p hp
    rw [hofq, Option.some.injEq] at hof
    rw [← h.eq_of_tag hq hgs hof] at hin
    exact hn ((mem_doomed h).2 ⟨ht, hin.tail ⟨t, ht, rfl, hp⟩⟩)

/-- The owner of a scope that goes is the owner in question, or a record of another scope that
goes. -/
theorem owner_of_mem_doomed (h : Forest db.scopes) {o : ObjectId} {g : StorageScope}
    (hg : g ∈ db.doomed o) :
    g.owner = o ∨ ∃ t ∈ db.doomed o, ScopeTag.of? g.owner = some t.tag := by
  obtain ⟨hgs, hin⟩ := (mem_doomed h).1 hg
  rcases Relation.ReflTransGen.cases_tail hin with howner | ⟨b, hb, g', hg', howner, hp⟩
  · exact Or.inl howner
  · cases h.eq_of_owner hgs hg' howner.symm
    obtain ⟨q, hq, rfl, hof, _⟩ := h.parent g hgs b hp
    exact Or.inr ⟨q, (mem_doomed h).2 ⟨hq, hb⟩, hof⟩

/-- What the scope around a closed one keeps. -/
def keepsOf (o : ObjectId) (s t : StorageScope) : StorageScope :=
  if s.parent = some t.owner then t.without o else t

variable {ε : Type} {o : ObjectId} {s : StorageScope}

theorem onScopeWhere_eq_map {κ : Type} [DecidableEq κ] (db : Database) (key : StorageScope → κ)
    (h : (db.scopes.map key).Nodup) (k : κ) (f : StorageScope → StorageScope)
    {α : Type} {x : EStateM ε StorageScope α} (hx : ∀ s, ∃ a, x s = .ok a (f s)) :
    ∃ a, onScopeWhere (key · = k) x db =
      .ok a { db with scopes := db.scopes.map fun s => if key s = k then f s else s } := by
  obtain ⟨a, ha⟩ := onScopeWhere_ok (p := fun s => decide (key s = k))
    (fun s => let ⟨a, ha⟩ := hx s; ⟨a, f s, ha⟩) db
  have hf : after x = f := funext fun s => let ⟨_, ha⟩ := hx s; after_ok ha
  rw [after_onScopeWhere, after_onFirst_eq_map key h, hf] at ha
  exact ⟨a, ha⟩

theorem destroyScope_of_none (ho : db.scope? o = none) :
    (destroyScope o : EStateM ε Database Bool) db = .ok false db := by
  simp only [destroyScope, bind_apply, get_apply, ho, pure_apply]

/-- A nested owner is taken off the tables of the scope around it, which is the scope whose
pool issued it. -/
theorem unlist_eq (howners : (db.scopes.map (·.owner)).Nodup)
    (htags : (db.scopes.map (·.tag)).Nodup)
    {p : ObjectId} {t : ScopeTag} (hof : ScopeTag.of? o = some t)
    (hp : ∀ q ∈ db.scopes, q.tag = t ↔ q.owner = p) :
    ∃ a₁ a₂ db₁,
      onScopeWhere (ε := ε) (·.owner = p)
        (modify fun q => { q with children := q.children.filter (· ≠ o) }) db = .ok a₁ db₁ ∧
      onHomeScope (ε := ε) o (StorageScope.onProperties (PropertyTable.removeAll o)) db₁ =
        .ok a₂ { db with
          scopes := db.scopes.map fun q => if q.owner = p then q.without o else q } := by
  obtain ⟨a₁, h₁⟩ := onScopeWhere_eq_map (ε := ε) db (·.owner) howners p
    (fun q => { q with children := q.children.filter (· ≠ o) })
    (x := modify fun q => { q with children := q.children.filter (· ≠ o) }) fun _ => ⟨_, rfl⟩
  have hstays : Stays fun q => { q with children := q.children.filter (· ≠ o) } :=
    ⟨fun _ => rfl, fun _ => rfl, fun _ => rfl⟩
  have htags₁ := htags
  rw [← (hstays.ite (·.owner = p)).map_tag] at htags₁
  obtain ⟨a₂, h₂⟩ := onScopeWhere_eq_map (ε := ε) { db with scopes := _ } (·.tag) htags₁ t
    (fun q => { q with properties := { byObject := q.properties.byObject.erase o } })
    (x := StorageScope.onProperties (PropertyTable.removeAll o)) fun _ => ⟨_, rfl⟩
  refine ⟨a₁, a₂, _, h₁, ?_⟩
  simp only [onHomeScope, hof, h₂, List.map_map]
  congr 2
  refine List.map_congr_left fun q hq => ?_
  by_cases hqp : q.owner = p
  · simp [hqp, (hp q hq).2 hqp, StorageScope.without]
  · simp [hqp, mt (hp q hq).1 hqp]

/-- The scope is closed with all that lies inside it.  If it is nested its owner is freed in
the pool of the scope around it, and taken off the tables there. -/
theorem destroyScope_eq (h : db.Tidy) (ho : db.scope? o = some s) :
    ∃ db₁, Closes (db.doomed o) db db₁ ∧
      (destroyScope o : EStateM ε Database Bool) db = .ok true
        { db₁ with
          registry := after (onIssuer o (Pool.free (ε := ε) o)) db₁.registry
          scopes := db₁.scopes.map (keepsOf o s) } := by
  obtain ⟨hs, hso⟩ := of_scope? ho
  obtain ⟨gone, hc, hg⟩ := closes_closeScopes h.housed (db.subtree o).reverse
  have hc : Closes (db.doomed o) db _ := hc.congr fun t => by simp [hg, doomed]
  generalize hdb₁ : (db.subtree o).reverse.foldl closeScope db = db₁ at hc
  have hh := hc.housed h.housed
  refine ⟨db₁, hc, ?_⟩
  cases hp : s.parent with
  | none =>
    -- the owner went with the pool of its own scope
    have hof : ScopeTag.of? o = some s.tag := hso ▸ h.forest.root s hs hp
    have hpool : db₁.registry.pool? s.tag = none := by
      rw [hc.pool, if_pos]
      exact List.any_eq_true.2 ⟨s, self_mem_doomed h.forest ho, decide_eq_true rfl⟩
    have hfree : after (onIssuer o (Pool.free (ε := ε) o)) db₁.registry = db₁.registry := by
      have hr : onIssuer o (Pool.free (ε := ε) o) db₁.registry = .ok none db₁.registry := by
        simp only [onIssuer, hof, onPool_eq, onFirst_of_none hpool]
      exact after_ok hr
    have hkeeps : db₁.scopes.map (keepsOf o s) = db₁.scopes := by
      refine (List.map_congr_left fun t _ => ?_).trans db₁.scopes.map_id
      rw [keepsOf, hp, if_neg (by simp), id_eq]
    simp only [destroyScope, bind_apply, get_apply, ho, hp, modify_apply, hdb₁, hfree, hkeeps,
      pure_apply]
  | some p =>
    obtain ⟨q, hq, hqp, hof, _⟩ := h.forest.parent s hs p hp
    rw [hso] at hof
    have haround (t : StorageScope) (ht : t ∈ db₁.scopes) : t.tag = q.tag ↔ t.owner = p := by
      rw [hc.scopes] at ht
      rw [h.forest.tag_eq_iff (List.mem_filter.1 ht).1 hq, hqp]
    have hkeeps : db₁.scopes.map (keepsOf o s) =
        db₁.scopes.map fun t => if t.owner = p then t.without o else t :=
      List.map_congr_left fun t _ => by simp only [keepsOf, hp, Option.some.injEq, eq_comm]
    obtain ⟨a₁, a₂, db₂, h₁, h₂⟩ := unlist_eq (ε := ε) hh.owners hh.tags hof haround
    obtain ⟨b, h₃, _⟩ := free_answer (ε := ε) hc.sound o
    rw [hkeeps]
    simp only [destroyScope, bind_apply, get_apply, ho, hp, modify_apply, hdb₁, discard_apply, h₁,
      h₂, onRegistry_eq, h₃, pure_apply]

theorem destroyScope_of_some (h : db.Tidy) (ho : db.scope? o = some s) :
    ∃ db₁ r, Closes (db.doomed o) db db₁ ∧ Touches o Change.clear db₁.registry r ∧
      (destroyScope o : EStateM ε Database Bool) db =
        .ok true { db₁ with registry := r, scopes := db₁.scopes.map (keepsOf o s) } := by
  obtain ⟨db₁, hc, hr⟩ := destroyScope_eq (ε := ε) h ho
  exact ⟨db₁, _, hc, touches_free hc.sound o, hr⟩

theorem destroyScope_ok (h : db.Tidy) (o : ObjectId) :
    ∃ b, (destroyScope o : EStateM ε Database Bool) db =
      .ok b (after (destroyScope o : EStateM ε Database Bool) db) := by
  cases ho : db.scope? o with
  | none =>
    have hr := destroyScope_of_none (ε := ε) ho
    exact ⟨false, by rw [after_ok hr, hr]⟩
  | some s =>
    obtain ⟨db₁, r, _, _, hr⟩ := destroyScope_of_some (ε := ε) h ho
    exact ⟨true, by rw [after_ok hr, hr]⟩

theorem stays_keepsOf (o : ObjectId) (s : StorageScope) : Stays (keepsOf o s) := by
  have hwithout : Stays (StorageScope.without o) := ⟨fun _ => rfl, fun _ => rfl, fun _ => rfl⟩
  exact hwithout.ite fun t => s.parent = some t.owner

theorem keepsOf_index (o : ObjectId) (s t : StorageScope) : (keepsOf o s t).index = t.index := by
  unfold keepsOf
  split <;> rfl

theorem children_keepsOf (h : Forest db.scopes) (hs : s ∈ db.scopes) (hso : s.owner = o) :
    ∀ t ∈ db.scopes, (keepsOf o s t).children = t.children.filter (· ≠ o) := by
  intro t ht
  unfold keepsOf
  split
  · rfl
  · rename_i hp
    refine (List.filter_eq_self.2 fun c hc => ?_).symm
    rw [h.children t ht, mem_childrenIn] at hc
    obtain ⟨s', hs', hc, hp'⟩ := hc
    rw [decide_eq_true_eq]
    rintro rfl
    rw [h.eq_of_owner hs' hs (hc.trans hso.symm)] at hp'
    exact hp hp'

namespace Tidy

theorem forest_keepsOf (h : db.Tidy) (hs : s ∈ db.scopes) (hso : s.owner = o) :
    Forest ((db.scopes.filter (· ∉ db.doomed o)).map (keepsOf o s)) := by
  have hf : db.scopes.filter (· ∉ db.doomed o) = db.scopes.filter (·.owner ∉ db.subtree o) :=
    List.filter_congr fun t ht => by simp [doomed, ht]
  rw [hf]
  exact h.forest.prune (fun _ => mem_subtree h.forest) (stays_keepsOf o s)
    (children_keepsOf h.forest hs hso)

theorem destroyScope (h : db.Tidy) (o : ObjectId) :
    (after (destroyScope o : EStateM ε Database Bool) db).Tidy := by
  have he := (calm_destroyScope (ε := ε) o db h.sound).1
  cases ho : db.scope? o with
  | none =>
    rw [after_ok (destroyScope_of_none ho)]
    exact h
  | some s =>
    obtain ⟨hs, hso⟩ := of_scope? ho
    obtain ⟨db₁, r, hc, ht, hr⟩ := destroyScope_of_some (ε := ε) h ho
    rw [after_ok hr] at he ⊢
    have hstays := stays_keepsOf o s
    have hsub : ∀ t ∈ db₁.scopes, t ∈ db.scopes := by
      rw [hc.scopes]
      exact fun t ht => (List.mem_filter.1 ht).1
    refine ⟨ht.sound, hc.paired, ?_, ?_, ?_, ?_, ?_⟩
    · rw [hc.scopes]
      exact h.forest_keepsOf hs hso
    · refine List.forall_mem_map.2 fun t hmem => ?_
      rw [hstays.tag, ht.pool]
      exact (hc.housed h.housed).pool t hmem
    · intro e he
      rw [ht.owners, hc.owners] at he
      obtain ⟨he, hn⟩ := List.mem_filter.1 he
      obtain ⟨t, hmem, hte, htag⟩ := h.bound e he
      have htg : t ∉ db.doomed o := by
        intro hg
        have hany : (db.doomed o).any (·.tag = e.2) = true :=
          List.any_eq_true.2 ⟨t, hg, by simpa using htag⟩
        simp only [hany] at hn
        contradiction
      refine ⟨keepsOf o s t, List.mem_map_of_mem ?_, (hstays.owner t).trans hte,
        (hstays.tag t).trans htag⟩
      rw [hc.scopes]
      exact List.mem_filter.2 ⟨hmem, by simpa using htg⟩
    · refine List.forall_mem_map.2 fun t hmem => ?_
      rw [hstays.owner]
      exact (h.spent t (hsub t hmem)).mono he
    · intro e hmem
      rw [hc.positions] at hmem
      exact (h.indexed e (List.mem_filter.1 hmem).1).mono he

end Tidy

/-! ## What is there afterwards -/

section Afterwards

variable (h : db.Tidy) (ho : db.scope? o = some s)
include h ho

theorem record?_after_destroyScope (id : ObjectId) :
    (after (destroyScope o : EStateM ε Database Bool) db).registry.record? id =
      if ((db.doomed o).any fun t => ScopeTag.of? id = some t.tag) = true then none
      else if id = o then (db.registry.record? id).map (Occupant.apply Change.clear)
      else db.registry.record? id := by
  obtain ⟨db₁, r, hc, ht, hr⟩ := destroyScope_of_some (ε := ε) h ho
  rw [after_ok hr, ht.record?, hc.record?, hc.record?]
  by_cases hid : id = o
  · subst hid
    rw [if_pos rfl]
    split
    · rfl
    · rw [if_pos rfl]
  · rw [if_neg hid, if_neg hid]

theorem record?_after_destroyScope_of_spared {id : ObjectId} (hid : id ≠ o)
    (hg : ∀ t ∈ db.doomed o, ScopeTag.of? id ≠ some t.tag) :
    (after (destroyScope o : EStateM ε Database Bool) db).registry.record? id =
      db.registry.record? id := by
  rw [record?_after_destroyScope h ho, if_neg, if_neg hid]
  simpa using hg

/-- The records that are live are those that were, less what the dropped pools issued and
the owner. -/
theorem isLive_after_destroyScope (id : ObjectId) :
    (after (destroyScope o : EStateM ε Database Bool) db).isLive id = true ↔
      db.isLive id = true ∧ id ≠ o ∧ ∀ t ∈ db.doomed o, ScopeTag.of? id ≠ some t.tag := by
  rw [isLive_iff (h.destroyScope o).sound, isLive_iff h.sound]
  constructor
  · rintro ⟨p, hp, hv⟩
    rw [record?_after_destroyScope h ho] at hp
    split at hp
    · contradiction
    · rename_i hg
      split at hp
      · obtain ⟨p', _, rfl⟩ := Option.map_eq_some_iff.1 hp
        rw [p'.isValid_apply_clear] at hv
        contradiction
      · rename_i hid
        exact ⟨⟨p, hp, hv⟩, hid, by simpa using hg⟩
  · rintro ⟨⟨p, hp, hv⟩, hid, hg⟩
    exact ⟨p, by rwa [record?_after_destroyScope_of_spared h ho hid hg], hv⟩

theorem stored?_after_destroyScope {id : ObjectId}
    (hid : (after (destroyScope o : EStateM ε Database Bool) db).registry.Live id) :
    (after (destroyScope o : EStateM ε Database Bool) db).registry.stored? id =
      db.registry.stored? id := by
  rw [← isLive_iff (h.destroyScope o).sound] at hid
  obtain ⟨_, hne, hg⟩ := (isLive_after_destroyScope h ho id).1 hid
  rw [stored?, record?_after_destroyScope_of_spared h ho hne hg, stored?]

/-- A live owner keeps its position, and the others lose it. -/
theorem indexOf?_after_destroyScope (id : ObjectId) :
    (after (destroyScope o : EStateM ε Database Bool) db).hierarchy.indexOf? id =
      if (db.doomed o).any (·.takes id) = true then none else db.hierarchy.indexOf? id := by
  obtain ⟨db₁, r, hc, ht, hr⟩ := destroyScope_of_some (ε := ε) h ho
  rw [after_ok hr]
  refine (congrArg (Assoc.get? · id) hc.positions).trans ?_
  refine (Assoc.get?_filter (fun id => !(db.doomed o).any (·.takes id)) _ id).trans ?_
  cases (db.doomed o).any (·.takes id) <;> rfl

theorem active_after_destroyScope (a : ActiveScope) :
    (after (destroyScope o : EStateM ε Database Bool) db).hierarchy.active a =
      (db.hierarchy.active a).filter fun id => !(db.doomed o).any (·.owner = id) := by
  obtain ⟨db₁, r, hc, _, hr⟩ := destroyScope_of_some (ε := ε) h ho
  rw [after_ok hr]
  exact hc.active a

theorem tags_after_destroyScope :
    (after (destroyScope o : EStateM ε Database Bool) db).registry.tags =
      db.registry.tags.filter fun t => !(db.doomed o).any (·.tag = t) := by
  obtain ⟨db₁, r, hc, ht, hr⟩ := destroyScope_of_some (ε := ε) h ho
  rw [after_ok hr]
  exact ht.tags.trans hc.tags

theorem grows_after_destroyScope :
    Hierarchy.Grows db.hierarchy
      (after (destroyScope o : EStateM ε Database Bool) db).hierarchy := by
  obtain ⟨db₁, r, hc, _, hr⟩ := destroyScope_of_some (ε := ε) h ho
  rw [after_ok hr]
  exact hc.grows

theorem scopeOf?_after_destroyScope {id : ObjectId} {tag : ScopeTag}
    (hid : db.registry.scopeOf? id = some tag) (hg : ∀ t ∈ db.doomed o, t.tag ≠ tag) :
    (after (destroyScope o : EStateM ε Database Bool) db).registry.scopeOf? id = some tag := by
  obtain ⟨db₁, r, hc, ht, hr⟩ := destroyScope_of_some (ε := ε) h ho
  rw [after_ok hr, scopeOf?, ht.owners, hc.owners]
  exact Assoc.get?_filter_of_some hid (by simpa using hg)

theorem live_after_destroyScope {id : ObjectId} (hl : db.registry.Live id)
    (hn : (db.doomed o).any (·.takes id) = false) :
    (after (destroyScope o : EStateM ε Database Bool) db).registry.Live id := by
  rw [← isLive_iff (h.destroyScope o).sound, isLive_after_destroyScope h ho, isLive_iff h.sound]
  have hspared : ∀ t ∈ db.doomed o, ¬ (id = t.owner ∨ ScopeTag.of? id = some t.tag) := by
    simpa [StorageScope.takes] using hn
  refine ⟨hl, fun hid => ?_, fun t ht hof => hspared t ht (Or.inr hof)⟩
  obtain ⟨_, hso⟩ := of_scope? ho
  exact hspared s (self_mem_doomed h.forest ho) (Or.inl (hid.trans hso.symm))

/-- What goes with a scope is live no longer. -/
theorem not_takes_of_live_after_destroyScope {id : ObjectId}
    (hid : (after (destroyScope o : EStateM ε Database Bool) db).registry.Live id) :
    (db.doomed o).any (·.takes id) = false := by
  rw [← isLive_iff (h.destroyScope o).sound, isLive_after_destroyScope h ho] at hid
  obtain ⟨_, hne, hg⟩ := hid
  rw [Bool.eq_false_iff]
  intro hany
  obtain ⟨g, hgone, htakes⟩ := List.any_eq_true.1 hany
  rcases of_decide_eq_true htakes with rfl | hof
  · rcases owner_of_mem_doomed h.forest hgone with howner | ⟨t, ht, hof⟩
    · exact hne howner
    · exact hg t ht hof
  · exact hg g hgone hof

theorem reads_after_destroyScope {id : ObjectId}
    (hid : (after (destroyScope o : EStateM ε Database Bool) db).isLive id = true) :
    (after (destroyScope o : EStateM ε Database Bool) db).header? id = db.header? id ∧
      ∀ k x, (after (destroyScope o : EStateM ε Database Bool) db).resolve k id = .ok (some x) ↔
        db.resolve k id = .ok (some x) := by
  obtain ⟨_, hne, hg⟩ := (isLive_after_destroyScope h ho id).1 hid
  have hr := record?_after_destroyScope_of_spared (ε := ε) h ho hne hg
  have hsound := (h.destroyScope (ε := ε) o).sound
  refine ⟨by rw [header?_eq hsound, header?_eq h.sound, hr], fun k x => ?_⟩
  rw [resolve_eq_some_iff hsound, resolve_eq_some_iff h.sound, hr]

theorem scopes_after_destroyScope :
    (after (destroyScope o : EStateM ε Database Bool) db).scopes =
      (db.scopes.filter (· ∉ db.doomed o)).map (keepsOf o s) := by
  obtain ⟨db₁, r, hc, ht, hr⟩ := destroyScope_of_some (ε := ε) h ho
  rw [after_ok hr, hc.scopes]

theorem not_mem_children_after_destroyScope :
    ∀ t ∈ (after (destroyScope o : EStateM ε Database Bool) db).scopes, o ∉ t.children := by
  obtain ⟨hs, hso⟩ := of_scope? ho
  rw [scopes_after_destroyScope h ho]
  refine List.forall_mem_map.2 fun t ht => ?_
  rw [children_keepsOf h.forest hs hso t (List.mem_filter.1 ht).1]
  simp

theorem hasProperties_after_destroyScope {t : StorageScope}
    (ht : (after (destroyScope o : EStateM ε Database Bool) db).homeScope? o = some t) :
    t.properties.hasProperties o = false := by
  obtain ⟨hs, hso⟩ := of_scope? ho
  obtain ⟨tag, hof, ht⟩ := Option.bind_eq_some_iff.1 ht
  have htag : t.tag = tag := by simpa using List.find?_some ht
  have hmem := List.mem_of_find?_eq_some ht
  rw [scopes_after_destroyScope h ho] at hmem
  obtain ⟨t', ht', rfl⟩ := List.mem_map.1 hmem
  obtain ⟨ht', hn⟩ := List.mem_filter.1 ht'
  rw [(stays_keepsOf o s).tag] at htag
  subst htag
  rw [← hso] at hof
  cases hp : s.parent with
  | none =>
    -- the scope is the one that was closed
    rw [h.forest.root s hs hp, Option.some.injEq] at hof
    have := h.forest.eq_of_tag hs ht' hof
    subst this
    simp [self_mem_doomed h.forest ho] at hn
  | some p =>
    obtain ⟨q, hq, hqp, hofq, _⟩ := h.forest.parent s hs p hp
    rw [hofq, Option.some.injEq] at hof
    have := h.forest.eq_of_tag hq ht' hof
    subst this
    rw [keepsOf, hp, hqp, if_pos rfl]
    simp [StorageScope.without, PropertyTable.hasProperties, Assoc.contains, Assoc.get?_erase]

end Afterwards
end Database
end DesignStore
