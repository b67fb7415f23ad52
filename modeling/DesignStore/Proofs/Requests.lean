/-
Requests of a registry, and runs of them.

A pool is asked to place a record, or to use a handle in one of the ways of `Pool.Use`.  A
registry is asked for pools and for bindings of owners, and it passes what is asked of a
pool on to the pool that it finds by tag, by owner or by handle (`Route`).

What a request does to a sound registry is one of the cases of `Step` (`step_perform`): a
pool is opened, an owner is bound, a pool or all pools are dropped, or the pools, their
tags and the owners stay and only what is in a pool changes.  A request that is refused
changes nothing.
-/
import DesignStore.Proofs.Registry

namespace DesignStore
namespace Pool

/-- What can be done with a handle.  A write takes any function, so it can put anything in
a record and its header. -/
inductive Use where
  | free
  | read (k : RecordKind)
  | write (k : RecordKind) (f : Record k.Body → Record k.Body)
  | header
  | inspect
  | writeHeader (f : Header → Header)
  | editHeader (e : HeaderEdit)

/-- What can be asked of a pool. -/
inductive Request where
  | allocate (k : RecordKind) (t : ObjectType)
  | use (id : ObjectId) (u : Use)

inductive Answer where
  | placed (id : ObjectId)
  | freed (done : Bool)
  | record (k : RecordKind) (found : Option (Record k.Body))
  | header (found : Option Header)

namespace Use

def perform (id : ObjectId) : Use → EStateM (Failure PoolError) Pool Answer
  | free => .freed <$> Pool.free id
  | read k => fun p =>
    match p.resolve k id with
    | .ok x => .ok (.record k x) p
    | .error f => .error (.fault f) p
  | write k f => .record k <$> Pool.update k id f
  | header => fun p => .ok (.header (p.header? id)) p
  | inspect => fun p => .ok (.header (p.inspect? id)) p
  | writeHeader f => .header <$> Pool.modifyHeader id f
  | editHeader e => .header <$> Pool.editHeader id e

/-- The answer of a pool that did not issue the handle. -/
def missing : Use → Answer
  | free => .freed false
  | read k => .record k none
  | write k _ => .record k none
  | header => .header none
  | inspect => .header none
  | writeHeader _ => .header none
  | editHeader _ => .header none

end Use

def Request.perform : Request → EStateM (Failure PoolError) Pool Answer
  | allocate k t => .placed <$> Pool.allocate k t
  | use id u => u.perform id

def run (l : List Request) (p : Pool) : Pool :=
  l.foldl (fun p q => after q.perform p) p

variable {p : Pool} {id : ObjectId}

theorem Use.perform_of_no_key (hkey : p.key? id = none) (u : Use) :
    u.perform id p = .ok u.missing p := by
  cases u with
  | free => rw [perform, map_apply, free_of_no_key hkey, missing]
  | read k => simp only [perform, resolve, hkey, missing]
  | write k f => rw [perform, map_apply, update_of_no_key hkey, missing]
  | header => simp [perform, header?, inspect?, hkey, missing]
  | inspect => simp [perform, inspect?, hkey, missing]
  | writeHeader f => rw [perform, map_apply, modifyHeader_of_no_key hkey, missing]
  | editHeader e => rw [perform, map_apply, editHeader_of_no_key hkey, missing]

/-- Reading changes no record. -/
theorem after_read (p : Pool) (id : ObjectId) (k : RecordKind) :
    after ((Use.read k).perform id) p = p := by
  simp only [after, Use.perform]
  cases p.resolve k id <;> rfl

/-- What a request keeps of a pool, whatever it asks for. -/
structure Follows (p p' : Pool) : Prop where
  scope : p'.scope = p.scope
  config : p'.config = p.config
  sound : p'.Sound

theorem Follows.refl (h : p.Sound) : Follows p p :=
  ⟨rfl, rfl, h⟩

theorem Touches.follows {p' : Pool} {key : SlotKey} {c : Change} (h : Touches key c p p') :
    Follows p p' :=
  ⟨h.scope, h.config, h.sound⟩

theorem Use.follows (h : p.Sound) (id : ObjectId) (u : Use) :
    Follows p (after (u.perform id) p) := by
  cases hkey : p.key? id with
  | none =>
    rw [after_ok (u.perform_of_no_key hkey)]
    exact Follows.refl h
  | some key =>
    cases u with
    | free =>
      obtain ⟨p', hp', ht⟩ := free_of_key (ε := Failure PoolError) h hkey
      rw [perform, after_map, after_ok hp']
      exact ht.follows
    | read k =>
      rw [after_read p id k]
      exact Follows.refl h
    | write k f =>
      rw [perform, after_map]
      exact (touches_update h hkey k f).follows
    | header => exact Follows.refl h
    | inspect => exact Follows.refl h
    | writeHeader f =>
      rw [perform, after_map]
      exact (touches_modifyHeader h hkey f).follows
    | editHeader e =>
      rw [perform, after_map]
      exact (touches_editHeader h hkey e).follows

theorem follows_allocate (h : p.Sound) (k : RecordKind) (t : ObjectType) :
    Follows p (after (allocate k t) p) := by
  rcases allocate_spec h k t with ⟨key, p', hp', _, hplaces⟩ | ⟨e, he⟩
  · rw [after_ok hp']
    exact ⟨hplaces.scope, hplaces.config, hplaces.sound⟩
  · rw [after_error he]
    exact Follows.refl h

theorem Request.follows (h : p.Sound) (q : Request) : Follows p (after q.perform p) := by
  cases q with
  | allocate k t =>
    rw [perform, after_map]
    exact follows_allocate h k t
  | use id u => exact u.follows h id

end Pool

/-- How a registry finds the pool that is asked. -/
inductive Route where
  | tag (scope : ScopeTag)
  | owner (owner : ObjectId)
  | issuer (id : ObjectId)

namespace Route

open Registry

variable {ε α : Type}

def scope? (r : Registry) : Route → Option ScopeTag
  | tag scope => some scope
  | owner o => r.scopeOf? o
  | issuer id => ScopeTag.of? id

def run (x : EStateM ε Pool α) : Route → EStateM ε Registry (Option α)
  | tag scope => onPool scope x
  | owner o => onPoolOf o x
  | issuer id => onIssuer id x

variable {route : Route} {r : Registry}

theorem run_apply (x : EStateM ε Pool α) (route : Route) (r : Registry) :
    route.run x r = match route.scope? r with
      | none => .ok none r
      | some scope => onPool scope x r := by
  cases route <;> rfl

theorem run_of_none (hs : route.scope? r = none) (x : EStateM ε Pool α) :
    route.run x r = .ok none r := by
  simp only [run_apply, hs]

theorem run_of_scope {scope : ScopeTag} (hs : route.scope? r = some scope) (x : EStateM ε Pool α) :
    route.run x r = onPool scope x r := by
  simp only [run_apply, hs]

end Route

namespace Registry

/-- What can be asked of a registry. -/
inductive Request where
  | createPool
  | bindOwner (owner : ObjectId) (scope : ScopeTag)
  | removePool (scope : ScopeTag)
  | clear
  | inPool (route : Route) (q : Pool.Request)

namespace Request

def perform : Request → EStateM (Failure PoolError) Registry Unit
  | createPool => discard Registry.createPool
  | bindOwner owner scope => discard (Registry.bindOwner owner scope)
  | removePool scope => discard (Registry.removePool scope)
  | clear => modify Registry.clear
  | inPool route q => discard (route.run q.perform)

def isCreate : Request → Bool
  | createPool => true
  | _ => false

/-- A pool with the tag is not left. -/
def Drops (scope : ScopeTag) : Request → Prop
  | removePool s => scope = s
  | clear => True
  | _ => False

/-- The owner is bound to the tag. -/
def Binds (r : Registry) (owner : ObjectId) (scope : ScopeTag) (q : Request) : Prop :=
  q = bindOwner owner scope ∧
    ∃ r', Registry.bindOwner (ε := Failure PoolError) owner scope r = .ok true r'

end Request

def run (l : List Request) (r : Registry) : Registry :=
  l.foldl (fun r q => after q.perform r) r

theorem run_append (l l' : List Request) (r : Registry) : run (l ++ l') r = run l' (run l r) :=
  List.foldl_append

variable {r r' : Registry}

/-- What passing a request on to a pool keeps. -/
structure Passes (r r' : Registry) : Prop where
  config : r'.config = r.config
  issued : r'.issued = r.issued
  owners : r'.owners = r.owners
  sound : r'.Sound
  tags : r'.tags = r.tags

theorem Passes.refl (h : r.Sound) : Passes r r :=
  ⟨rfl, rfl, rfl, h, rfl⟩

section Pool

variable {ε α : Type} {scope : ScopeTag} {x : EStateM ε Pool α}

theorem onPool_of_none (hp : r.pool? scope = none) : onPool scope x r = .ok none r := by
  rw [onPool_eq, onFirst_of_none hp]

/-- The answer is that of the pool with the tag. -/
theorem answer_onPool (s : ScopeTag) (x : EStateM ε Pool α) (r : Registry) :
    answer (onPool s x) r = (r.pool? s).elim (.ok none) fun p => (answer x p).map some := by
  rw [pool?, ← answer_onFirst]
  simp only [answer, onPool_eq]
  cases onFirst (·.scope = s) x r.pools <;> rfl

theorem passes_onPool (h : r.Sound)
    (hx : ∀ p, p.Sound → Pool.Follows p (after x p)) :
    Passes r (after (onPool scope x) r) := by
  cases hp : r.pool? scope with
  | none =>
    rw [after_ok (onPool_of_none hp)]
    exact Passes.refl h
  | some p =>
    have hf := hx p (h.of_pool? hp).1
    have hs := swaps_onPool h hp hf.scope hf.sound
    exact ⟨hs.config, hs.issued, hs.owners, hs.sound, hs.tags⟩

theorem passes_route (h : r.Sound) (route : Route)
    (hx : ∀ p, p.Sound → Pool.Follows p (after x p)) :
    Passes r (after (route.run x) r) := by
  cases hs : route.scope? r with
  | none =>
    rw [after_ok (Route.run_of_none hs x)]
    exact Passes.refl h
  | some scope =>
    have hr : after (route.run x) r = after (onPool scope x) r := by
      simp only [after, Route.run_of_scope hs]
    rw [hr]
    exact passes_onPool h hx

end Pool

/-- What a request can do. -/
inductive Step : Request → Registry → Registry → Prop
  | opened {r r' : Registry} {scope : ScopeTag} (next : r.nextScope? = some scope)
      (opens : Opens scope r r') : Step .createPool r r'
  | exhausted {r : Registry} (next : r.nextScope? = none) : Step .createPool r r
  | bound {r : Registry} {owner : ObjectId} {scope : ScopeTag}
      (pool : (r.pool? scope).isSome = true ∧ ¬ owner.isNull = true) :
      Step (.bindOwner owner scope) r { r with owners := r.owners.insert owner scope }
  | unbound {r : Registry} {owner : ObjectId} {scope : ScopeTag}
      (none : ¬ ((r.pool? scope).isSome = true ∧ ¬ owner.isNull = true)) :
      Step (.bindOwner owner scope) r r
  | dropped {r r' : Registry} {scope : ScopeTag} (drops : Drops scope r r') :
      Step (.removePool scope) r r'
  | unknown {r : Registry} {scope : ScopeTag} (none : r.pool? scope = none) :
      Step (.removePool scope) r r
  | cleared {r : Registry} : Step .clear r r.clear
  | passed {r r' : Registry} {route : Route} {q : Pool.Request} (passes : Passes r r') :
      Step (.inPool route q) r r'

theorem step_perform (h : r.Sound) (q : Request) : Step q r (after q.perform r) := by
  cases q with
  | createPool =>
    rw [Request.perform, after_discard]
    cases hn : r.nextScope? with
    | none =>
      rw [after_error (createPool_of_exhausted hn)]
      exact .exhausted hn
    | some scope =>
      obtain ⟨hr, ho⟩ := createPool_of_next h hn
      rw [after_ok hr]
      exact .opened hn ho
  | bindOwner owner scope =>
    rw [Request.perform, after_discard]
    by_cases hp : (r.pool? scope).isSome = true ∧ ¬ owner.isNull = true
    · rw [after_ok (bindOwner_of_pool hp)]
      exact .bound hp
    · rw [after_ok (bindOwner_of_not hp)]
      exact .unbound hp
  | removePool scope =>
    rw [Request.perform, after_discard]
    rcases removePool_spec h scope with ⟨hn, hr⟩ | ⟨n, r', hr, hd⟩
    · rw [after_error hr]
      exact .unknown hn
    · rw [after_ok hr]
      exact .dropped hd
  | clear => exact .cleared
  | inPool route q =>
    rw [Request.perform, after_discard]
    exact .passed (passes_route h route fun _ hp => q.follows hp)

end Registry
end DesignStore
