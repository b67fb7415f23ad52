/-
Operations on a renamed database.

An operation on a database creates pools or leaves the number of the pools that were created alone.
As long as it stays within the tags that a renaming covers, the operation at renamed handles does
with the renamed database what it does with the database at the handles (`AlikeAt`): it answers the
same, renamed, or it fails the same way, and leaves the renamed database.  Each operation follows
from the ones it is made of.
-/
import DesignStore.Proofs.RenamedDatabase

namespace DesignStore
namespace Renaming

variable {α α' β β' : Type}

/-- With the renamed database `y` does what `x` does with the database, if the tags that `x` leaves
handed out are covered.  None is taken back. -/
structure AlikeAt (r : Renaming) (fa : α → α') (x : Edit α) (y : Edit α') (db : Database) : Prop where
  issued_le : db.registry.issued ≤ (after x db).registry.issued
  renames : r.TameDatabase db → (after x db).registry.issued ≤ r.last →
    RenamesAt r.TameDatabase r.database fa (r.failure r.dbError) x y db

def Alike (r : Renaming) (fa : α → α') (x : Edit α) (y : Edit α') : Prop :=
  ∀ db, r.AlikeAt fa x y db

variable {r : Renaming} {fa : α → α'} {fb : β → β'} {x : Edit α} {y : Edit α'} {db : Database}

theorem issued_onPool {ε : Type} (x : EStateM ε Pool α) (t : ScopeTag) (g : Registry) :
    (after (Registry.onPool t x) g).issued = g.issued := by
  simp only [after, Registry.onPool]
  cases onFirst (·.scope = t) x g.pools <;> rfl

/-! ## Sequences -/

namespace AlikeAt

theorem pure (a : α) : r.AlikeAt fa (pure a) (pure (fa a)) db :=
  ⟨Nat.le_refl _, fun h _ => .of_ok rfl h rfl⟩

theorem throw {e e' : Failure DbError} (he : e' = r.failure r.dbError e) :
    r.AlikeAt fa (throw e) (throw e') db :=
  ⟨Nat.le_refl _, fun h _ => .of_error rfl h (by rw [he]; rfl)⟩

theorem refuse {e e' : DbError} (he : e' = r.dbError e) :
    r.AlikeAt fa (Edit.refuse e) (Edit.refuse e') db :=
  throw (by rw [he]; rfl)

/-- What is read of the database may be used to see what the second operation is. -/
theorem of_tame {y' : Edit α'} (h : r.AlikeAt fa x y' db)
    (hy : r.TameDatabase db → y (r.database db) = y' (r.database db)) : r.AlikeAt fa x y db :=
  ⟨h.issued_le, fun ht hl => (h.renames ht hl).congr rfl (hy ht)⟩

theorem congr {x' : Edit α} {y' : Edit α'} (h : r.AlikeAt fa x y db) (hx : x' db = x db)
    (hy : y' (r.database db) = y (r.database db)) : r.AlikeAt fa x' y' db := by
  have ha : after x' db = after x db := by rw [after, hx]; rfl
  exact ⟨by rw [ha]; exact h.issued_le, fun ht hl => (h.renames ht (by rwa [← ha])).congr hx hy⟩

/-- The second operation starts where the first ends, and only if that succeeds. -/
theorem bind {f : α → Edit β} {g : α' → Edit β'} (hx : r.AlikeAt fa x y db)
    (hf : ∀ a db', x db = .ok a db' → r.AlikeAt fb (f a) (g (fa a)) db') :
    r.AlikeAt fb (x >>= f) (y >>= g) db := by
  cases hr : x db with
  | error e db' =>
    have ha : after (x >>= f) db = after x db := by
      rw [after_error hr, after_error (bind_error hr)]
    refine ⟨by rw [ha]; exact hx.issued_le, fun ht hl => ?_⟩
    obtain ⟨hkeeps, hrun⟩ := hx.renames ht (by rwa [← ha])
    rw [after_error hr] at hkeeps
    rw [hr] at hrun
    exact .of_error (bind_error hr) hkeeps (bind_error hrun)
  | ok a db' =>
    have hfa := hf a db' hr
    have ha : after (x >>= f) db = after (f a) db' := by simp only [after, bind_ok hr]
    have hle := hx.issued_le
    rw [after_ok hr] at hle
    refine ⟨by rw [ha]; exact hle.trans hfa.issued_le, fun ht hl => ?_⟩
    rw [ha] at hl
    obtain ⟨hkeeps, hrun⟩ := hx.renames ht (by rw [after_ok hr]; exact hfa.issued_le.trans hl)
    rw [after_ok hr] at hkeeps
    rw [hr] at hrun
    obtain ⟨hkeeps', hrun'⟩ := hfa.renames hkeeps hl
    exact ⟨by rwa [ha], by rw [bind_ok hr, bind_ok hrun, hrun']⟩

theorem get_bind {f : Database → Edit β} {g : Database → Edit β'}
    (hf : r.AlikeAt fb (f db) (g (r.database db)) db) :
    r.AlikeAt fb (get >>= f) (get >>= g) db :=
  hf.congr rfl rfl

theorem map {f : α → β} {g : α' → β'} (h : r.AlikeAt fa x y db) (hf : ∀ a, g (fa a) = fb (f a)) :
    r.AlikeAt fb (f <$> x) (g <$> y) db := by
  refine ⟨by rw [after_map]; exact h.issued_le, fun ht hl => ?_⟩
  rw [after_map] at hl
  exact (h.renames ht hl).map hf

theorem discard (h : r.AlikeAt fa x y db) :
    r.AlikeAt (fun u => u) (Functor.discard x : Edit PUnit) (Functor.discard y) db :=
  h.map fun _ => rfl

/-- A failure is handled where it has left the database. -/
theorem handle {f : Failure DbError → Edit α} {g : Failure DbError → Edit α'}
    (hx : r.AlikeAt fa x y db)
    (hf : ∀ e db', x db = .error e db' →
      r.AlikeAt fa (f e) (g (r.failure r.dbError e)) db') :
    r.AlikeAt fa (tryCatch x f) (tryCatch y g) db := by
  cases hr : x db with
  | ok a db' =>
    have hrun : (tryCatch x f : Edit α) db = .ok a db' := by rw [tryCatch_apply, hr]
    have hle := hx.issued_le
    rw [after_ok hr] at hle
    refine ⟨by rwa [after_ok hrun], fun ht hl => ?_⟩
    rw [after_ok hrun] at hl
    obtain ⟨hkeeps, hrun'⟩ := hx.renames ht (by rwa [after_ok hr])
    rw [after_ok hr] at hkeeps
    rw [hr] at hrun'
    exact .of_ok hrun hkeeps (by rw [tryCatch_apply, hrun']; rfl)
  | error e db' =>
    have hfe := hf e db' hr
    have ha : after (tryCatch x f) db = after (f e) db' := by simp only [after, tryCatch_apply, hr]
    have hle := hx.issued_le
    rw [after_error hr] at hle
    refine ⟨by rw [ha]; exact hle.trans hfe.issued_le, fun ht hl => ?_⟩
    rw [ha] at hl
    obtain ⟨hkeeps, hrun⟩ := hx.renames ht (by rw [after_error hr]; exact hfe.issued_le.trans hl)
    rw [after_error hr] at hkeeps
    rw [hr] at hrun
    obtain ⟨hkeeps', hrun'⟩ := hfe.renames hkeeps hl
    refine ⟨by rwa [ha], ?_⟩
    rw [tryCatch_apply, hrun, tryCatch_apply, hr]
    exact hrun'

/-- What comes after a check. -/
theorem guard {c c' : Prop} [Decidable c] [Decidable c'] (hc : c' ↔ c) {x y : Edit PUnit}
    {f : PUnit → Edit β} {g : PUnit → Edit β'} (hx : r.AlikeAt (fun u => u) x y db)
    (hf : ∀ db, r.AlikeAt fb (f ⟨⟩) (g ⟨⟩) db) :
    r.AlikeAt fb (if c then x >>= f else f ⟨⟩) (if c' then y >>= g else g ⟨⟩) db := by
  by_cases h : c
  · rw [if_pos h, if_pos (hc.2 h)]
    exact hx.bind fun _ db' _ => hf db'
  · rw [if_neg h, if_neg (mt hc.1 h)]
    exact hf db

theorem found {id : ObjectId} (a : Option α) :
    r.AlikeAt fa (Edit.found id a) (Edit.found (r.id id) (a.map fa)) db := by
  cases a with
  | none => exact refuse rfl
  | some a => exact pure a

theorem read {f : Database → Except Fault α} {g : Database → Except Fault α'}
    (h : r.TameDatabase db → g (r.database db) = r.reading fa (f db)) :
    r.AlikeAt fa (Edit.read f) (Edit.read g) db := by
  cases hf : f db with
  | ok a =>
    have hrun : Edit.read f db = .ok a db := by simp only [Edit.read, hf]
    refine ⟨by rw [after_ok hrun], fun ht _ => .of_ok hrun ht ?_⟩
    rw [hf] at h
    simp only [Edit.read, h ht, reading]
  | error e =>
    have hrun : Edit.read f db = .error (.fault e) db := by simp only [Edit.read, hf]
    refine ⟨by rw [after_error hrun], fun ht _ => .of_error hrun ht ?_⟩
    rw [hf] at h
    simp only [Edit.read, h ht, reading, failure]

theorem modify {f f' : Database → Database}
    (hissued : db.registry.issued ≤ (f db).registry.issued)
    (h : r.TameDatabase db → (f db).registry.issued ≤ r.last →
      r.TameDatabase (f db) ∧ f' (r.database db) = r.database (f db)) :
    r.AlikeAt (fun u => u) (modify f : Edit PUnit) (modify f') db := by
  refine ⟨hissued, fun ht hl => ?_⟩
  obtain ⟨hkeeps, heq⟩ := h ht hl
  exact .of_ok rfl hkeeps (by rw [modify_apply, heq])

end AlikeAt

/-! ## Parts of the database -/

theorem onRegistry_alikeAt {x : EStateM (Failure DbError) Registry α}
    {y : EStateM (Failure DbError) Registry α'}
    (hissued : db.registry.issued ≤ (after x db.registry).issued)
    (h : r.TameRegistry db.registry → (after x db.registry).issued ≤ r.last →
      RenamesAt r.TameRegistry r.registry fa (r.failure r.dbError) x y db.registry) :
    r.AlikeAt fa (Database.onRegistry x) (Database.onRegistry y) db := by
  refine ⟨by rwa [Database.after_onRegistry], fun ht hl => ?_⟩
  rw [Database.after_onRegistry] at hl
  refine (h ht.registry hl).inside ({ db with registry := · })
    ({ r.database db with registry := · }) ?_ ?_ (fun _ => rfl) fun _ hg => ⟨hg, ht.scopes⟩
  · rw [Database.onRegistry_eq]
    cases x db.registry <;> rfl
  · rw [Database.onRegistry_eq, show (r.database db).registry = r.registry db.registry from rfl]
    cases y (r.registry db.registry) <;> rfl

theorem onHierarchy_alike {x : EStateM (Failure DbError) Hierarchy α}
    {y : EStateM (Failure DbError) Hierarchy α'}
    (h : Renames (fun _ => True) r.hierarchy fa (r.failure r.dbError) x y) :
    r.Alike fa (Database.onHierarchy x) (Database.onHierarchy y) := by
  intro db
  refine ⟨by rw [Database.after_onHierarchy], fun ht _ => ?_⟩
  refine (h db.hierarchy trivial).inside ({ db with hierarchy := · })
    ({ r.database db with hierarchy := · }) ?_ ?_ (fun _ => rfl) fun _ _ => ⟨ht.registry, ht.scopes⟩
  · rw [Database.onHierarchy]
    cases x db.hierarchy <;> rfl
  · show Database.onHierarchy y { r.database db with hierarchy := r.hierarchy db.hierarchy } = _
    rw [Database.onHierarchy]
    cases y (r.hierarchy db.hierarchy) <;> rfl

theorem onScopeWhere_alike {x : EStateM (Failure DbError) StorageScope α}
    {y : EStateM (Failure DbError) StorageScope α'}
    (h : Renames r.TameScope r.scope fa (r.failure r.dbError) x y) {p q : StorageScope → Bool}
    (hp : ∀ s, q (r.scope s) = p s) :
    r.Alike (Option.map fa) (Database.onScopeWhere p x) (Database.onScopeWhere q y) := by
  intro db
  refine ⟨by rw [Database.after_onScopeWhere], fun ht _ => ?_⟩
  refine (h.onFirst hp db.scopes ht.scopes).inside ({ db with scopes := · })
    ({ r.database db with scopes := · }) ?_ ?_ (fun _ => rfl) fun _ hs => ⟨ht.registry, hs⟩
  · rw [Database.onScopeWhere]
    cases onFirst p x db.scopes <;> rfl
  · show Database.onScopeWhere q y { r.database db with scopes := db.scopes.map r.scope } = _
    rw [Database.onScopeWhere]
    cases onFirst q y (db.scopes.map r.scope) <;> rfl

theorem onScopeOf_alike {x : EStateM (Failure DbError) StorageScope α}
    {y : EStateM (Failure DbError) StorageScope α'}
    (h : Renames r.TameScope r.scope fa (r.failure r.dbError) x y) (owner : ObjectId) :
    r.Alike (Option.map fa) (Database.onScopeWhere (·.owner = owner) x)
      (Database.onScopeWhere (·.owner = r.id owner) y) :=
  onScopeWhere_alike h fun _ => decide_eq_decide.2 id_inj

theorem onHomeScope_alike {x : EStateM (Failure DbError) StorageScope α}
    {y : EStateM (Failure DbError) StorageScope α'}
    (h : Renames r.TameScope r.scope fa (r.failure r.dbError) x y) (id : ObjectId) :
    r.Alike (Option.map fa) (Database.onHomeScope id x) (Database.onHomeScope (r.id id) y) := by
  intro db
  have hof := r.of? id
  cases ht : ScopeTag.of? id with
  | none =>
    rw [ht] at hof
    refine (AlikeAt.pure none).congr ?_ ?_
    · simp only [Database.onHomeScope, ht]
      rfl
    · simp only [Database.onHomeScope, hof]
      rfl
  | some t =>
    rw [ht] at hof
    refine (onScopeWhere_alike h (p := (·.tag = t)) (q := (·.tag = r.tag t))
      (fun _ => decide_eq_decide.2 tag_inj) db).congr ?_ ?_
    · simp only [Database.onHomeScope, ht]
    · simp only [Database.onHomeScope, hof, Option.map_some]

theorem onStorageScope_alike {x : EStateM (Failure DbError) StorageScope α}
    {y : EStateM (Failure DbError) StorageScope α'}
    (h : Renames r.TameScope r.scope fa (r.failure r.dbError) x y) (id : ObjectId) :
    r.Alike (Option.map fa) (Database.onStorageScope id x)
      (Database.onStorageScope (r.id id) y) := by
  intro db
  have hroot := fun ht : r.TameDatabase db => scopeRoot_database ht id
  cases hr : db.scopeRoot id with
  | error f =>
    rw [hr] at hroot
    refine AlikeAt.of_tame ((AlikeAt.throw (e := .fault f) rfl).congr ?_ rfl) fun ht => ?_
    · simp only [Database.onStorageScope, hr]
      rfl
    · simp only [Database.onStorageScope, hroot ht, reading]
      rfl
  | ok root =>
    rw [hr] at hroot
    cases root with
    | none =>
      refine AlikeAt.of_tame ((AlikeAt.pure none).congr ?_ rfl) fun ht => ?_
      · simp only [Database.onStorageScope, hr]
        rfl
      · simp only [Database.onStorageScope, hroot ht, reading]
        rfl
    | some root =>
      refine AlikeAt.of_tame ((onScopeOf_alike h root db).congr ?_ rfl) fun ht => ?_
      · simp only [Database.onStorageScope, hr]
      · simp only [Database.onStorageScope, hroot ht, reading, Option.map_some]

/-! ### Records -/

/-- What is done to the pool that issued a handle creates no pool. -/
theorem onIssuer_alike {x : EStateM (Failure DbError) Pool α} {y : EStateM (Failure DbError) Pool α'}
    (h : Renames r.TamePool r.pool fa (r.failure r.dbError) x y) (id : ObjectId) :
    r.Alike (Option.map fa) (Database.onRegistry (Registry.onIssuer id x))
      (Database.onRegistry (Registry.onIssuer (r.id id) y)) := by
  intro db
  refine onRegistry_alikeAt (Nat.le_of_eq ?_) fun hg _ => onIssuer_registry h id db.registry hg
  simp only [after, Registry.onIssuer]
  cases ScopeTag.of? id with
  | none => rfl
  | some t => exact (issued_onPool x t db.registry).symm

theorem update_alike {k : RecordKind} {f f' : Record k.Body → Record k.Body}
    (hf : ∀ x, f' (r.record k x) = r.record k (f x)) (id : ObjectId) :
    r.Alike (Option.map (r.record k)) (Database.update k id f)
      (Database.update k (r.id id) f') :=
  fun db => (onIssuer_alike (update_pool _ hf (fun _ => rfl) id) id db).map fun a => by cases a <;> rfl

theorem updateBody_alike {k : RecordKind} {f f' : k.Body → k.Body}
    (hf : ∀ b, f' (r.body k b) = r.body k (f b)) (id : ObjectId) :
    r.Alike (Option.map (r.record k)) (Database.updateBody k id f)
      (Database.updateBody k (r.id id) f') :=
  update_alike (fun x => congrArg (Record.mk (r.header x.header)) (hf x.body)) id

theorem modifyHeader_alike {f f' : Header → Header} (hf : ∀ h, f' (r.header h) = r.header (f h))
    (id : ObjectId) :
    r.Alike (Option.map r.header) (Database.modifyHeader id f)
      (Database.modifyHeader (r.id id) f') :=
  fun db => (onIssuer_alike (modifyHeader_pool _ hf id) id db).map fun a => by cases a <;> rfl

theorem updateCell_alike {f f' : Cell → Cell} (hf : ∀ c, f' (r.body .cell c) = r.body .cell (f c))
    (id : ObjectId) : r.Alike (fun u => u) (Database.updateCell id f)
      (Database.updateCell (r.id id) f') :=
  fun db => (updateBody_alike hf id db).bind fun a _ _ => (AlikeAt.found a).discard

/-! ## Destroying -/

theorem issued_closeScope (db : Database) (owner : ObjectId) :
    (db.closeScope owner).registry.issued = db.registry.issued := by
  cases hs : db.scope? owner with
  | none => rw [Database.closeScope_of_none hs]
  | some scope =>
    rw [Database.closeScope_of_scope hs]
    simp only [after, Registry.removePool]
    cases db.registry.pool? scope.tag <;> rfl

theorem issued_closeScopes (owners : List ObjectId) (db : Database) :
    (owners.foldl Database.closeScope db).registry.issued = db.registry.issued := by
  induction owners generalizing db with
  | nil => rfl
  | cons owner owners ih => exact (ih _).trans (issued_closeScope db owner)

theorem free_alike (id : ObjectId) :
    r.Alike (Option.map fun b => b) (Database.onRegistry (Registry.onIssuer id (Pool.free id)))
      (Database.onRegistry (Registry.onIssuer (r.id id) (Pool.free (r.id id)))) :=
  onIssuer_alike (free_pool _ id) id

theorem removeProperties_alike (id : ObjectId) :
    r.Alike (Option.map fun n => n)
      (Database.onHomeScope id (StorageScope.onProperties (PropertyTable.removeAll id)))
      (Database.onHomeScope (r.id id)
        (StorageScope.onProperties (PropertyTable.removeAll (r.id id)))) :=
  onHomeScope_alike (onProperties_scope (removeAll_properties _ id)) id

theorem unlist_alike (owner parent : ObjectId) :
    r.Alike (Option.map fun u => u)
      (Database.onScopeWhere (·.owner = parent)
        (modify fun p => { p with children := p.children.filter (· ≠ owner) }))
      (Database.onScopeWhere (·.owner = r.id parent)
        (modify fun p => { p with children := p.children.filter (· ≠ r.id owner) })) := by
  refine onScopeOf_alike (fun s hs => RenamesAt.of_ok (modify_apply _ s) hs ?_) parent
  have hkept : (s.children.map r.id).filter (fun x => decide (x ≠ r.id owner)) =
      (s.children.filter fun x => decide (x ≠ owner)).map r.id := by
    rw [List.filter_map]
    exact congrArg (fun f => (s.children.filter f).map r.id)
      (funext fun x => decide_eq_decide.2 (not_congr id_inj))
  rw [modify_apply, scope, hkept]
  rfl

theorem destroyScope_alike (owner : ObjectId) :
    r.Alike (fun b => b) (Database.destroyScope owner) (Database.destroyScope (r.id owner)) := by
  refine fun db => AlikeAt.get_bind ?_
  rw [scope?_database]
  cases db.scope? owner with
  | none => exact AlikeAt.pure false
  | some scope =>
    have hclosed : r.AlikeAt (fun u => u)
        (modify fun db => (db.subtree owner).reverse.foldl Database.closeScope db : Edit PUnit)
        (modify fun db => (db.subtree (r.id owner)).reverse.foldl Database.closeScope db) db := by
      refine AlikeAt.modify (Nat.le_of_eq (issued_closeScopes _ db).symm) fun ht _ => ?_
      rw [subtree_database, ← List.map_reverse]
      exact closeScopes_database ht _
    refine hclosed.bind fun _ db' _ => ?_
    obtain ⟨_, _, _, parent, _, _, _, _⟩ := scope
    cases parent with
    | none => exact AlikeAt.pure true
    | some parent =>
      exact (unlist_alike owner parent db').discard.bind fun _ db₂ _ =>
        (removeProperties_alike owner db₂).discard.bind fun _ db₃ _ =>
          (free_alike owner db₃).discard.bind fun _ _ _ => AlikeAt.pure true

theorem destroy_alike (id : ObjectId) :
    r.Alike (fun b => b) (Database.destroy id) (Database.destroy (r.id id)) := by
  refine fun db => AlikeAt.get_bind ?_
  rw [show (r.database db).registry.isScopeOwner (r.id id) = db.registry.isScopeOwner id from
    isScopeOwner_registry id]
  split
  · exact destroyScope_alike id db
  · refine (removeProperties_alike id db).discard.bind fun _ db₂ _ =>
      (onHierarchy_alike (delete_hierarchy _ id) db₂).discard.bind fun _ db₃ _ =>
        (free_alike id db₃).bind fun b _ _ => ?_
    rw [show (b.map fun b => b) = b from congrFun Option.map_id b]
    exact AlikeAt.pure (b.getD false)

/-! ## Creating -/

theorem placing_pool {σ τ : Type} {P : σ → Prop} {fs : σ → τ} {s : σ} (t : ObjectType)
    {x : EStateM (Failure PoolError) σ α} {y : EStateM (Failure PoolError) τ α'}
    (h : RenamesAt P fs fa (r.failure r.poolError) x y s) :
    RenamesAt P fs fa (r.failure r.dbError) (Edit.placing t x) (Edit.placing t y) s := by
  refine h.part (fun s => s) (fun s => s) (fun a => a) (fun a => a) (Failure.map (.allocation t))
    (Failure.map (.allocation t)) ?_ ?_ (fun _ => rfl) (fun _ _ _ => rfl) (fun e => ?_) fun _ h => h
  · rw [Edit.placing]
    cases x s <;> rfl
  · rw [Edit.placing]
    cases y (fs s) <;> rfl
  · cases e <;> rfl

theorem issued_onPoolOf {ε : Type} (x : EStateM ε Pool α) (owner : ObjectId) (g : Registry) :
    (after (Registry.onPoolOf owner x) g).issued = g.issued := by
  simp only [after, Registry.onPoolOf]
  cases g.scopeOf? owner with
  | none => rfl
  | some t => exact issued_onPool x t g

theorem allocate_alike (root : ObjectId) (k : RecordKind) (t : ObjectType) :
    r.Alike (Option.map r.id)
      (Database.onRegistry (Registry.onPoolOf root (Edit.placing t (Pool.allocate k t))))
      (Database.onRegistry (Registry.onPoolOf (r.id root) (Edit.placing t (Pool.allocate k t)))) :=
  fun db => onRegistry_alikeAt (Nat.le_of_eq (issued_onPoolOf _ root _).symm) fun hg _ =>
    onPoolOf_registry (fun p hp => placing_pool t (allocate_pool k t p hp)) root db.registry hg

theorem setOwner_header (index : ObjectIndex) (h : Header) :
    (r.header h).setOwner index = r.header (h.setOwner index) := rfl

/-- The steps of creating a record once it is known which position the record carries. -/
def createAt (k : RecordKind) (t : ObjectType) (owner : ObjectId) (index : ObjectIndex) :
    Edit ObjectId := do
  let some root ← Edit.read (·.scopeRoot owner) | Edit.refuse (.noPool t owner)
  let placed ← Database.onRegistry (Registry.onPoolOf root (Edit.placing t (Pool.allocate k t)))
  let some id := placed | Edit.refuse (.noPool t owner)
  discard <| Database.modifyHeader id (·.setOwner index)
  return id

theorem createAt_alike (k : RecordKind) (t : ObjectType) (owner : ObjectId) (index : ObjectIndex) :
    r.Alike r.id (createAt k t owner index) (createAt k t (r.id owner) index) := by
  refine fun db => AlikeAt.bind (AlikeAt.read fun ht => scopeRoot_database ht owner)
    fun root db₂ _ => ?_
  cases root with
  | none => exact AlikeAt.refuse rfl
  | some root =>
    refine (allocate_alike root k t db₂).bind fun placed db₃ _ => ?_
    cases placed with
    | none => exact AlikeAt.refuse rfl
    | some id =>
      exact (modifyHeader_alike (setOwner_header index) id db₃).discard.bind fun _ _ _ =>
        AlikeAt.pure id

theorem create_alike (k : RecordKind) (t : ObjectType) (owner : ObjectId) :
    r.Alike r.id (Database.create k t owner) (Database.create k t (r.id owner)) := by
  have hnull : (r.id owner).isNull = true ↔ owner.isNull = true := by rw [isNull_id]
  unfold Database.create
  intro db
  refine AlikeAt.guard hnull (AlikeAt.refuse (e := .invalidOwner owner) rfl) fun db =>
    AlikeAt.get_bind ?_
  have hindex := fun ht : r.TameDatabase db => ownerIndexFor?_database ht owner
  cases hi : db.ownerIndexFor? owner with
  | none =>
    refine AlikeAt.of_tame (AlikeAt.refuse (e := .ownerNotResolved owner) rfl) fun ht => ?_
    simp only [hindex ht, hi]
    rfl
  | some index =>
    refine AlikeAt.of_tame (createAt_alike k t owner index db) fun ht => ?_
    simp only [hindex ht, hi]
    rfl

theorem setOwner_alike (id owner : ObjectId) :
    r.Alike (fun b => b) (Database.setOwner id owner) (Database.setOwner (r.id id) (r.id owner)) := by
  have hnull : (r.id owner).isNull = true ↔ owner.isNull = true := by rw [isNull_id]
  unfold Database.setOwner
  intro db
  refine AlikeAt.guard hnull (AlikeAt.throw (e := .fault (.nullOwner id)) rfl) fun db =>
    AlikeAt.get_bind ?_
  have hindex := fun ht : r.TameDatabase db => ownerIndexFor?_database ht owner
  cases hi : db.ownerIndexFor? owner with
  | none =>
    refine AlikeAt.of_tame (AlikeAt.throw (e := .fault (.unindexedOwner owner id)) rfl) fun ht => ?_
    simp only [hindex ht, hi]
    rfl
  | some index =>
    have hset : r.AlikeAt (fun b => b)
        (do return (← Database.modifyHeader id (·.setOwner index)).isSome)
        (do return (← Database.modifyHeader (r.id id) (·.setOwner index)).isSome) db :=
      (modifyHeader_alike (setOwner_header index) id db).map fun _ => Option.isSome_map
    refine AlikeAt.of_tame hset fun ht => ?_
    simp only [hindex ht, hi]

theorem indexObject_alike (id : ObjectId) :
    r.Alike (fun i => i) (Database.indexObject id) (Database.indexObject (r.id id)) := by
  refine fun db => AlikeAt.get_bind ?_
  have hlive := fun ht : r.TameDatabase db => isLive_database ht id
  have hindex : (r.database db).hierarchy.indexOf? (r.id id) = db.hierarchy.indexOf? id :=
    indexOf?_hierarchy id
  rw [hindex]
  cases hl : db.isLive id with
  | false =>
    refine AlikeAt.of_tame (AlikeAt.pure none) fun ht => ?_
    rw [hlive ht, hl]
    rfl
  | true =>
    cases hi : db.hierarchy.indexOf? id with
    | some i =>
      refine AlikeAt.of_tame (AlikeAt.pure (some i)) fun ht => ?_
      rw [hlive ht, hl]
      rfl
    | none =>
      have hinsert : r.AlikeAt (fun i => i) (some <$> Database.onHierarchy (Hierarchy.insert id))
          (some <$> Database.onHierarchy (Hierarchy.insert (r.id id))) db :=
        (onHierarchy_alike (insert_hierarchy _ (fun _ => rfl) id) db).map fun _ => rfl
      refine AlikeAt.of_tame hinsert fun ht => ?_
      rw [hlive ht, hl]
      rfl

/-! ### Arrays -/

theorem reserve_ids (capacity : Nat) (a : GrowArray ObjectId) :
    GrowArray.reserve (r.body .ids a) capacity = r.body .ids (a.reserve capacity) := by
  have hsize : (a.items.map r.id).size = a.items.size := Array.size_map
  simp only [GrowArray.reserve, GrowArray.extend, GrowArray.size, body, hsize]
  split <;> rfl

theorem push_ids (value : ObjectId) (a : GrowArray ObjectId) :
    GrowArray.push (r.body .ids a) (r.id value) = r.body .ids (a.push value) := by
  have hsize : (a.items.map r.id).size = a.items.size := Array.size_map
  have hreserve := reserve_ids (r := r) (max (2 * a.capacity) GrowArray.minCapacity) a
  simp only [GrowArray.push, body, hsize] at hreserve ⊢
  split
  · simp only [hreserve, Array.map_push]
  · simp only [Array.map_push]

theorem reserveIds_alike (id : ObjectId) (capacity : Nat) :
    r.Alike (fun u => u) (Database.reserveIds id capacity)
      (Database.reserveIds (r.id id) capacity) := by
  intro db
  unfold Database.reserveIds
  split
  · exact (updateBody_alike (reserve_ids capacity) id db).discard
  · exact AlikeAt.throw rfl

theorem createIdArray_alike (owner : ObjectId) (capacity : Nat) :
    r.Alike r.id (Database.createIdArray owner capacity)
      (Database.createIdArray (r.id owner) capacity) :=
  fun db => (create_alike .ids .array owner db).bind fun id db₂ _ =>
    (reserveIds_alike id capacity db₂).bind fun _ _ _ => AlikeAt.pure id

theorem appendId_alike (array : Option ObjectId) (owner value : ObjectId) :
    r.Alike r.id (Database.appendId array owner value)
      (Database.appendId (array.map r.id) (r.id owner) (r.id value)) := by
  have hpush (id : ObjectId) : r.Alike r.id
      (do
        discard <| Edit.found id (← Database.updateBody .ids id (·.push value))
        return id)
      (do
        discard <| Edit.found (r.id id) (← Database.updateBody .ids (r.id id) (·.push (r.id value)))
        return r.id id) :=
    fun db => (updateBody_alike (push_ids value) id db).bind fun a _ _ =>
      (AlikeAt.found a).discard.bind fun _ _ _ => AlikeAt.pure id
  cases array with
  | none => exact fun db => (createIdArray_alike owner _ db).bind fun id db₂ _ => hpush id db₂
  | some id => exact fun db => (AlikeAt.pure id).bind fun id db₂ _ => hpush id db₂

/-! ## Opening scopes -/

theorem scope_fresh (owner : ObjectId) (tag : ScopeTag) (index : ObjectIndex)
    (parent : Option ObjectId) :
    r.scope { owner, tag, index, parent } =
      { owner := r.id owner, tag := r.tag tag, index, parent := parent.map r.id } := by
  simp [scope, symbols, properties, Assoc.bimap]

theorem register_alikeAt {tag : ScopeTag} (htag : tag.val ≠ 0 ∧ tag.toNat ≤ db.registry.issued)
    (owner : ObjectId) (parent : Option ObjectId) :
    r.AlikeAt (fun i => i) (Database.register owner tag parent)
      (Database.register (r.id owner) (r.tag tag) (parent.map r.id)) db := by
  have hinsert := onHierarchy_alike (r := r) (insert_hierarchy _ (fun _ => rfl) owner) db
  refine hinsert.bind fun index db₂ h₂ => ?_
  have hbind : r.AlikeAt (fun b => b) (Database.onRegistry (Registry.bindOwner owner tag))
      (Database.onRegistry (Registry.bindOwner (r.id owner) (r.tag tag))) db₂ := by
    refine onRegistry_alikeAt (Nat.le_of_eq ?_) fun hg _ =>
      bindOwner_registry owner tag db₂.registry hg
    rw [after, Registry.bindOwner]
    by_cases hb : (db₂.registry.pool? tag).isSome = true ∧ ¬ owner.isNull = true
    · rw [if_pos hb]
    · rw [if_neg hb]
  refine hbind.discard.bind fun _ db₃ h₃ => ?_
  have hissued : tag.toNat ≤ db₃.registry.issued := by
    have hle₂ := hinsert.issued_le
    have hle₃ := hbind.discard.issued_le
    rw [after_ok h₂] at hle₂
    rw [after_ok h₃] at hle₃
    exact htag.2.trans (hle₂.trans hle₃)
  refine (AlikeAt.modify (Nat.le_refl _) fun ht hl => ?_).bind fun _ _ _ => AlikeAt.pure index
  have hscope := scope_fresh (r := r) owner tag index parent
  refine ⟨⟨ht.registry, List.forall_mem_cons.2 ⟨⟨htag.1, hissued.trans hl⟩, ht.scopes⟩⟩, ?_⟩
  simp only [database, List.map_cons, hscope]

theorem issued_createPoolWith (x : EStateM (Failure PoolError) Pool α) (g : Registry) :
    g.issued ≤ (after (Registry.createPoolWith x) g).issued := by
  simp only [after, Registry.createPoolWith]
  cases g.nextScope? with
  | none => exact Nat.le_refl _
  | some t =>
    simp only
    cases x (Pool.empty t g.config) <;> exact Nat.le_succ _

/-- The tag of a new pool is the last one handed out. -/
theorem tag_of_createPoolWith {x : EStateM (Failure PoolError) Pool α} {g g' : Registry}
    {t : ScopeTag} {a : α} (h : Registry.createPoolWith x g = .ok (t, a) g') :
    t.val ≠ 0 ∧ t.toNat ≤ g'.issued := by
  by_cases hmax : g.issued < Registry.maxScopes
  · have htag : (⟨UInt16.ofNat (g.issued + 1)⟩ : ScopeTag).toNat = g.issued + 1 := by
      rw [ScopeTag.toNat, UInt16.toNat_ofNat']
      exact Nat.mod_eq_of_lt (by rw [Registry.maxScopes] at hmax; omega)
    simp only [Registry.createPoolWith, Registry.nextScope?, if_pos hmax] at h
    split at h
    · cases h
      refine ⟨fun hz => ?_, Nat.le_of_eq htag⟩
      have hz : (⟨UInt16.ofNat (g.issued + 1)⟩ : ScopeTag).toNat = 0 := congrArg UInt16.toNat hz
      omega
    · cases h
  · simp only [Registry.createPoolWith, Registry.nextScope?, if_neg hmax] at h
    cases h

theorem createPoolWith_alike {x : EStateM (Failure PoolError) Pool α}
    {y : EStateM (Failure PoolError) Pool α'}
    (h : Renames r.TamePool r.pool fa (r.failure r.poolError) x y) (t : ObjectType) :
    r.Alike (Prod.map r.tag fa) (Edit.placing t (Database.onRegistry (Registry.createPoolWith x)))
      (Edit.placing t (Database.onRegistry (Registry.createPoolWith y))) := by
  intro db
  rw [Database.placing_onRegistry, Database.placing_onRegistry]
  refine onRegistry_alikeAt ?_ fun hg hl => ?_
  · rw [Database.after_placing]
    exact issued_createPoolWith x _
  rw [Database.after_placing] at hl
  exact placing_pool t (createPoolWith_registry h hg hl)

theorem createPool_eq (t : ObjectType) :
    Edit.placing t (Database.onRegistry Registry.createPool) =
      (·.1) <$> Edit.placing t (Database.onRegistry (Registry.createPoolWith (pure ()))) := by
  funext db
  simp only [Edit.placing, Database.onRegistry_eq, Registry.createPool, map_apply]
  cases Registry.createPoolWith (pure ()) db.registry <;> rfl

theorem createPool_alike (t : ObjectType) :
    r.Alike r.tag (Edit.placing t (Database.onRegistry Registry.createPool))
      (Edit.placing t (Database.onRegistry Registry.createPool)) := by
  intro db
  have hempty : Renames r.TamePool r.pool (fun u => u) (r.failure r.poolError) (pure ()) (pure ()) :=
    Renames.pure ()
  rw [createPool_eq]
  exact (createPoolWith_alike hempty t db).map fun _ => rfl

theorem tag_of_newPool {x : EStateM (Failure PoolError) Pool α} {db' : Database} {t : ObjectType}
    {tag : ScopeTag} {a : α}
    (h : Edit.placing t (Database.onRegistry (Registry.createPoolWith x)) db = .ok (tag, a) db') :
    tag.val ≠ 0 ∧ tag.toNat ≤ db'.registry.issued := by
  simp only [Edit.placing, Database.onRegistry_eq] at h
  cases hx : Registry.createPoolWith x db.registry with
  | error e g =>
    rw [hx] at h
    cases h
  | ok p g =>
    rw [hx] at h
    cases h
    exact tag_of_createPoolWith hx

theorem openScope_alike (a : ActiveScope) :
    r.Alike r.id (Database.openScope a) (Database.openScope a) := by
  refine fun db => (createPoolWith_alike (allocate_pool a.kind a.type) a.type db).bind
    fun p db₂ h => ?_
  obtain ⟨tag, id⟩ := p
  refine (register_alikeAt (tag_of_newPool h) id none).bind fun index db₃ _ => ?_
  refine (update_alike (fun x => ?_) id db₃).discard.bind fun _ _ _ => AlikeAt.pure id
  cases a <;> rfl

theorem replaceActive_alike (a : ActiveScope) {prepare prepare' : ObjectId → Edit Unit}
    (hprepare : ∀ id, r.Alike (fun u => u) (prepare id) (prepare' (r.id id))) :
    r.Alike r.id (Database.replaceActive a prepare) (Database.replaceActive a prepare') := by
  have hopen : r.Alike r.id
      (do
        let id ← Database.openScope a
        prepare id
        modify fun db => { db with hierarchy := db.hierarchy.setActive a (some id) }
        return id)
      (do
        let id ← Database.openScope a
        prepare' id
        modify fun db => { db with hierarchy := db.hierarchy.setActive a (some id) }
        return id) := by
    refine fun db => (openScope_alike a db).bind fun id db₂ _ => (hprepare id db₂).bind fun _ _ _ =>
      (AlikeAt.modify (Nat.le_refl _) fun ht _ => ?_).bind fun _ _ _ => AlikeAt.pure id
    refine ⟨⟨ht.registry, ht.scopes⟩, ?_⟩
    simp only [database, ← setActive_hierarchy, Option.map_some]
  refine fun db => AlikeAt.get_bind ?_
  rw [show (r.database db).hierarchy.active a = (db.hierarchy.active a).map r.id from
    active_hierarchy a]
  cases db.hierarchy.active a with
  | none => exact hopen db
  | some old => exact (destroyScope_alike old db).discard.bind fun _ db₂ _ => hopen db₂

/-! ## Cells -/

theorem name_symbols (cell : ObjectId) (name : String) :
    Renames (fun _ => True) r.symbols (fun i => i) (r.failure r.dbError)
      (do
        let symbol ← SymbolTable.intern name
        discard <| SymbolTable.addReference symbol cell
        return symbol)
      (do
        let symbol ← SymbolTable.intern name
        discard <| SymbolTable.addReference symbol (r.id cell)
        return symbol) := by
  have hadd (i : SymbolIndex) : Renames (fun _ => True) r.symbols (fun u => u)
      (r.failure r.dbError) (Functor.discard (SymbolTable.addReference i cell))
      (Functor.discard (SymbolTable.addReference i (r.id cell))) :=
    fun t ht => (addReference_symbols (r.failure r.dbError) i cell t ht).map fun _ => rfl
  exact (intern_symbols _ name).bind fun i => (hadd i).bind fun _ => Renames.pure i

theorem setCellName_alike (cell : ObjectId) (name : String) :
    r.Alike (fun i => i) (Database.setCellName cell name)
      (Database.setCellName (r.id cell) name) := by
  refine fun db => (onStorageScope_alike (onSymbols_scope (name_symbols cell name)) cell db).bind
    fun symbol db₂ _ => (AlikeAt.found symbol).bind fun symbol db₃ _ => ?_
  exact (updateCell_alike (f := fun c => { c with name := some symbol }) (fun _ => rfl) cell
    db₃).bind fun _ _ _ => AlikeAt.pure symbol

theorem attachCell_alike (parent child : ObjectId) :
    r.Alike (fun u => u) (Database.attachCell parent child)
      (Database.attachCell (r.id parent) (r.id child)) := by
  intro db
  unfold Database.attachCell
  rw [r.type?]
  split
  · refine AlikeAt.bind (AlikeAt.read fun ht => resolve_database ht .cell parent) fun c db₂ _ =>
      (AlikeAt.found c).bind fun c db₃ _ =>
        (appendId_alike c.body.cells parent child db₃).bind fun array db₄ _ => ?_
    exact updateCell_alike (f := fun c => { c with cells := some array }) (fun _ => rfl) parent db₄
  · exact AlikeAt.pure ()

theorem nameAndAttach_alike (parent id : ObjectId) (name : String) :
    r.Alike r.id
      (do
        discard <| Database.setCellName id name
        Database.attachCell parent id
        return id)
      (do
        discard <| Database.setCellName (r.id id) name
        Database.attachCell (r.id parent) (r.id id)
        return r.id id) :=
  fun db => (setCellName_alike id name db).discard.bind fun _ db₂ _ =>
    (attachCell_alike parent id db₂).bind fun _ _ _ => AlikeAt.pure id

theorem createCell_alike (parent : ObjectId) (name : String) :
    r.Alike r.id (Database.createCell parent name) (Database.createCell (r.id parent) name) :=
  fun db => (create_alike .cell .cell parent db).bind fun id db₂ _ =>
    nameAndAttach_alike parent id name db₂

theorem initTopCell_alike (name : String) :
    r.Alike r.id (Database.initTopCell name) (Database.initTopCell name) := by
  refine replaceActive_alike .topCell fun id db => ?_
  exact (updateCell_alike (f := fun c => { c with role := .top }) (fun _ => rfl) id db).bind
    fun _ db₂ _ => (setCellName_alike id name db₂).discard

theorem initTechLib_alike : r.Alike r.id Database.initTechLib Database.initTechLib :=
  replaceActive_alike .techLib fun _ _ => AlikeAt.pure ()

theorem initTimingLib_alike : r.Alike r.id Database.initTimingLib Database.initTimingLib :=
  replaceActive_alike .timingLib fun _ _ => AlikeAt.pure ()

/-- Creates the pool of a nested scope, or destroys its owner again. -/
def nestedPool (id : ObjectId) : Edit ScopeTag :=
  tryCatch (Edit.placing .cell (Database.onRegistry Registry.createPool)) fun e => do
    discard <| Database.destroy id
    throw e

theorem nestedPool_alike (id : ObjectId) :
    r.Alike r.tag (nestedPool id) (nestedPool (r.id id)) :=
  fun db => (createPool_alike .cell db).handle fun _ db₂ _ =>
    (destroy_alike id db₂).discard.bind fun _ _ _ => AlikeAt.throw rfl

theorem tag_of_nestedPool {id : ObjectId} {db' : Database} {tag : ScopeTag}
    (h : nestedPool id db = .ok tag db') :
    tag.val ≠ 0 ∧ tag.toNat ≤ db'.registry.issued := by
  rw [nestedPool, tryCatch_apply, createPool_eq, map_apply] at h
  cases hp : Edit.placing .cell (Database.onRegistry (Registry.createPoolWith (pure ()))) db with
  | ok p db₂ =>
    rw [hp] at h
    cases h
    exact tag_of_newPool hp
  | error e db₂ =>
    rw [hp] at h
    obtain ⟨_, _, _, hthrow⟩ := ok_of_bind h
    cases hthrow

theorem openNested_alike (parent : ObjectId) :
    r.Alike r.id (Database.openNested parent) (Database.openNested (r.id parent)) := by
  refine fun db => AlikeAt.bind (AlikeAt.read fun ht => scopeRoot_database ht parent)
    fun around db₂ _ => ?_
  cases around with
  | none => exact AlikeAt.refuse rfl
  | some around =>
    refine (create_alike .cell .cell parent db₂).bind fun id db₃ _ =>
      (updateBody_alike (k := .cell) (f := fun c => { (c : Cell) with role := .hier })
        (fun _ => rfl) id db₃).discard.bind fun _ db₄ _ =>
      (nestedPool_alike id db₄).bind fun tag db₅ h =>
      (register_alikeAt (tag_of_nestedPool h) id (some around)).bind fun index db₆ _ => ?_
    have hlist : r.Alike (Option.map fun u => u)
        (Database.onScopeWhere (·.owner = around)
          (modify fun p => { p with children := p.children ++ [id] }))
        (Database.onScopeWhere (·.owner = r.id around)
          (modify fun p => { p with children := p.children ++ [r.id id] })) := by
      refine onScopeOf_alike (fun s hs => RenamesAt.of_ok (modify_apply _ s) hs ?_) around
      rw [modify_apply, scope, scope, List.map_append]
      rfl
    exact (hlist db₆).discard.bind fun _ db₇ _ =>
      (updateCell_alike (f := fun c => { c with hierIndex := index }) (fun _ => rfl) id db₇).bind
        fun _ _ _ => AlikeAt.pure id

theorem createHierCell_alike (parent : ObjectId) (name : String) :
    r.Alike r.id (Database.createHierCell parent name)
      (Database.createHierCell (r.id parent) name) :=
  fun db => (openNested_alike parent db).bind fun id db₂ _ => nameAndAttach_alike parent id name db₂

end Renaming
end DesignStore
