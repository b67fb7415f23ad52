/-
Stores that differ in their handles only.

A `Renaming` puts other tags in place of the tags of pools, and other handles in place of handles.
The handles of the pools in use keep everything but the tag, and no two handles or tags become the
same.  What is stored is renamed with its handles, so two stores of which one is the other renamed
have the same records at the same places.

An operation that does with renamed states what another does with states is said to rename it
(`Renames`).  What this needs of an operation on a part of a state carries over to one on the whole
(`RenamesAt.part`).
-/
import DesignStore.Proofs.Operation
import DesignStore.Proofs.Handle
import DesignStore.Database.Cells
import DesignStore.Database.Report

namespace DesignStore

/-- Other handles and tags in place of handles and tags.  The pools that are created later are
counted from `offset` on. -/
structure Renaming where
  id : ObjectId → ObjectId
  tag : ScopeTag → ScopeTag
  offset : Nat
  /-- The last of the tags that are in use. -/
  last : Nat
  id_injective : id.Injective
  tag_injective : tag.Injective
  null : id ObjectId.null = ObjectId.null
  of? : ∀ x, ScopeTag.of? (id x) = (ScopeTag.of? x).map tag
  type? : ∀ x, (id x).type? = x.type?
  pack : ∀ k : SlotKey, k.scope.val ≠ 0 → k.scope.toNat ≤ last →
    id k.pack = SlotKey.pack { k with scope := tag k.scope }
  fits : offset + last ≤ Registry.maxScopes
  next : ∀ i < last, tag ⟨UInt16.ofNat (i + 1)⟩ = ⟨UInt16.ofNat (i + offset + 1)⟩

namespace Assoc

variable {κ κ' α β : Type}

/-- Other keys and values in place of keys and values. -/
def bimap (f : κ → κ') (g : α → β) (m : Assoc κ α) : Assoc κ' β :=
  { entries := m.entries.map fun e => (f e.1, g e.2) }

variable [DecidableEq κ] [DecidableEq κ'] {f : κ → κ'} (hf : f.Injective) (g : α → β)
include hf

theorem get?_bimap (m : Assoc κ α) (k : κ) : (m.bimap f g).get? (f k) = (m.get? k).map g := by
  simp only [bimap, get?, List.find?_map, Option.map_map]
  have hp : ((fun e : κ' × β => decide (e.1 = f k)) ∘ fun e : κ × α => (f e.1, g e.2)) =
      fun e => decide (e.1 = k) := by
    funext e
    exact decide_eq_decide.2 hf.eq_iff
  rw [hp]
  rfl

theorem contains_bimap (m : Assoc κ α) (k : κ) : (m.bimap f g).contains (f k) = m.contains k := by
  rw [contains, get?_bimap hf, Option.isSome_map, contains]

theorem insert_bimap (m : Assoc κ α) (k : κ) (v : α) :
    (m.bimap f g).insert (f k) (g v) = (m.insert k v).bimap f g := by
  have hput (l : List (κ × α)) : put (f k) (g v) (l.map fun e => (f e.1, g e.2)) =
      (put k v l).map fun e => (f e.1, g e.2) := by
    induction l with
    | nil => rfl
    | cons e l ih =>
      simp only [List.map_cons, put, hf.eq_iff, ih]
      split <;> rfl
  simp only [insert, bimap, hput]

theorem erase_bimap (m : Assoc κ α) (k : κ) :
    (m.bimap f g).erase (f k) = (m.erase k).bimap f g := by
  simp only [erase, bimap, List.filter_map]
  have hp : ((fun e : κ' × β => decide (e.1 ≠ f k)) ∘ fun e : κ × α => (f e.1, g e.2)) =
      fun e => decide (e.1 ≠ k) := by
    funext e
    exact decide_eq_decide.2 hf.ne_iff
  rw [hp]

omit [DecidableEq κ] [DecidableEq κ'] hf in
theorem filter_bimap {p : κ → α → Bool} {q : κ' → β → Bool} (h : ∀ k v, q (f k) (g v) = p k v)
    (m : Assoc κ α) : (m.bimap f g).filter q = (m.filter p).bimap f g := by
  simp only [filter, bimap, List.filter_map]
  have hp : ((fun e : κ' × β => q e.1 e.2) ∘ fun e : κ × α => (f e.1, g e.2)) =
      fun e => p e.1 e.2 := by
    funext e
    exact h e.1 e.2
  rw [hp]

end Assoc

/-! ## Renamed operations -/

section Renames

variable {ε δ σ τ α β α' β' : Type}

/-- Another answer, error and state in place of those of a result. -/
def mapResult (fs : σ → τ) (fa : α → β) (fe : ε → δ) :
    EStateM.Result ε σ α → EStateM.Result δ τ β
  | .ok a s => .ok (fa a) (fs s)
  | .error e s => .error (fe e) (fs s)

/-- With the renamed state `y` does what `x` does with the state, which leaves `P` true. -/
structure RenamesAt (P : σ → Prop) (fs : σ → τ) (fa : α → β) (fe : ε → δ) (x : EStateM ε σ α)
    (y : EStateM δ τ β) (s : σ) : Prop where
  keeps : P (after x s)
  eq : y (fs s) = mapResult fs fa fe (x s)

/-- Wherever `P` is true. -/
def Renames (P : σ → Prop) (fs : σ → τ) (fa : α → β) (fe : ε → δ) (x : EStateM ε σ α)
    (y : EStateM δ τ β) : Prop :=
  ∀ s, P s → RenamesAt P fs fa fe x y s

variable {P : σ → Prop} {fs : σ → τ} {fa : α → β} {fe : ε → δ} {x : EStateM ε σ α}
  {y : EStateM δ τ β}

theorem RenamesAt.of_ok {s t : σ} {a : α} (hx : x s = .ok a t) (hP : P t)
    (hy : y (fs s) = .ok (fa a) (fs t)) : RenamesAt P fs fa fe x y s :=
  ⟨by rwa [after_ok hx], by rw [hx, hy]; rfl⟩

theorem RenamesAt.of_error {s t : σ} {e : ε} (hx : x s = .error e t) (hP : P t)
    (hy : y (fs s) = .error (fe e) (fs t)) : RenamesAt P fs fa fe x y s :=
  ⟨by rwa [after_error hx], by rw [hx, hy]; rfl⟩

/-- The state that is left is the renamed one. -/
theorem RenamesAt.after_eq {s : σ} (h : RenamesAt P fs fa fe x y s) :
    after y (fs s) = fs (after x s) := by
  simp only [after, h.eq]
  cases x s <;> rfl

/-- What does the same as `x` and `y` there. -/
theorem RenamesAt.congr {s : σ} {x' : EStateM ε σ α} {y' : EStateM δ τ β}
    (h : RenamesAt P fs fa fe x y s) (hx : x' s = x s) (hy : y' (fs s) = y (fs s)) :
    RenamesAt P fs fa fe x' y' s :=
  ⟨by rw [after, hx]; exact h.keeps, by rw [hx, hy]; exact h.eq⟩

theorem Renames.pure (a : α) : Renames P fs fa fe (pure a) (pure (fa a)) :=
  fun _ hs => .of_ok rfl hs rfl

/-- One operation after another. -/
theorem Renames.bind {γ γ' : Type} {fb : γ → γ'} (hx : Renames P fs fa fe x y)
    {f : α → EStateM ε σ γ} {g : β → EStateM δ τ γ'}
    (hf : ∀ a, Renames P fs fb fe (f a) (g (fa a))) : Renames P fs fb fe (x >>= f) (y >>= g) := by
  intro s hs
  obtain ⟨hkeeps, hrun⟩ := hx s hs
  cases hr : x s with
  | error e t =>
    rw [after_error hr] at hkeeps
    rw [hr] at hrun
    exact .of_error (bind_error hr) hkeeps (bind_error hrun)
  | ok a t =>
    rw [after_ok hr] at hkeeps
    rw [hr] at hrun
    obtain ⟨hkeeps', hrun'⟩ := hf a t hkeeps
    exact ⟨after_bind_ok hr hkeeps', by rw [bind_ok hr, bind_ok hrun, hrun']⟩

section Part

variable {ε' δ' σ' τ' : Type} {P' : σ' → Prop} {fs' : σ' → τ'} {fa' : α' → β'} {fe' : ε' → δ'}

/-- An operation that runs `x` on a part of its state, and puts what this leaves back in. -/
theorem RenamesAt.part {s : σ} (h : RenamesAt P fs fa fe x y s) {x' : EStateM ε' σ' α'}
    {y' : EStateM δ' τ' β'} {s' : σ'} (put : σ → σ') (put' : τ → τ') (g : α → α') (g' : β → β')
    (k : ε → ε') (k' : δ → δ') (hx : x' s' = mapResult put g k (x s))
    (hy : y' (fs' s') = mapResult put' g' k' (y (fs s))) (hput : ∀ t, put' (fs t) = fs' (put t))
    (hg : ∀ a t, x s = .ok a t → g' (fa a) = fa' (g a)) (hk : ∀ e, k' (fe e) = fe' (k e))
    (hP : ∀ t, P t → P' (put t)) : RenamesAt P' fs' fa' fe' x' y' s' := by
  obtain ⟨hP', hy'⟩ := h
  rw [hy'] at hy
  cases hr : x s with
  | ok a t =>
    simp only [after, hr, mapResult] at hx hy hP'
    exact .of_ok hx (hP t hP') (by rw [hy, hput, hg a t hr])
  | error e t =>
    simp only [after, hr, mapResult] at hx hy hP'
    exact .of_error hx (hP t hP') (by rw [hy, hput, hk])

/-- An operation that answers what `x` answers on a part of its state. -/
theorem RenamesAt.inside {s : σ} (h : RenamesAt P fs fa fe x y s) {x' : EStateM ε σ' α}
    {y' : EStateM δ τ' β} {s' : σ'} (put : σ → σ') (put' : τ → τ')
    (hx : x' s' = mapResult put (fun a => a) (fun e => e) (x s))
    (hy : y' (fs' s') = mapResult put' (fun a => a) (fun e => e) (y (fs s)))
    (hput : ∀ t, put' (fs t) = fs' (put t)) (hP : ∀ t, P t → P' (put t)) :
    RenamesAt P' fs' fa fe x' y' s' :=
  h.part put put' _ _ _ _ hx hy hput (fun _ _ _ => rfl) (fun _ => rfl) hP

/-- Another answer in place of that of an operation. -/
theorem RenamesAt.map {s : σ} (h : RenamesAt P fs fa fe x y s) {g : α → α'} {g' : β → β'}
    (hg : ∀ a, g' (fa a) = fa' (g a)) : RenamesAt P fs fa' fe (x.map g) (y.map g') s := by
  refine h.part (fun s => s) (fun s => s) g g' (fun e => e) (fun e => e) ?_ ?_ (fun _ => rfl)
    (fun a _ _ => hg a) (fun _ => rfl) fun _ h => h
  · rw [EStateM.map]
    cases x s <;> rfl
  · rw [EStateM.map]
    cases y (fs s) <;> rfl

end Part

/-- An operation on the first element that satisfies a property, in a list that is renamed. -/
theorem Renames.onFirst (h : Renames P fs fa fe x y) {p : σ → Bool} {q : τ → Bool}
    (hp : ∀ s, q (fs s) = p s) :
    Renames (fun l => ∀ s ∈ l, P s) (List.map fs) (Option.map fa) fe (onFirst p x)
      (DesignStore.onFirst q y) := by
  intro l hl
  induction l with
  | nil => exact .of_ok rfl hl rfl
  | cons s l ih =>
    obtain ⟨hs, hl⟩ := List.forall_mem_cons.1 hl
    have hq : q (fs s) = p s := hp s
    cases hps : p s with
    | true =>
      refine (h s hs).part (· :: l) (· :: l.map fs) some some (fun e => e) (fun e => e) ?_ ?_
        (fun _ => rfl) (fun _ _ _ => rfl) (fun _ => rfl) fun t ht => List.forall_mem_cons.2 ⟨ht, hl⟩
      · rw [DesignStore.onFirst, if_pos hps]
        cases x s <;> rfl
      · rw [List.map_cons, DesignStore.onFirst, if_pos (hq.trans hps)]
        cases y (fs s) <;> rfl
    | false =>
      refine (ih hl).inside (s :: ·) (fs s :: ·) ?_ ?_ (fun _ => rfl) fun t ht => List.forall_mem_cons.2 ⟨hs, ht⟩
      · rw [DesignStore.onFirst, hps, if_neg Bool.false_ne_true]
        cases DesignStore.onFirst p x l <;> rfl
      · rw [List.map_cons, DesignStore.onFirst, hq, hps, if_neg Bool.false_ne_true]
        cases DesignStore.onFirst q y (l.map fs) <;> rfl

/-- The same where an element is added if none satisfies the property. -/
theorem Renames.onFirstOr (h : Renames P fs fa fe x y) {fresh : σ} (hfresh : P fresh)
    {p : σ → Bool} {q : τ → Bool} (hp : ∀ s, q (fs s) = p s) :
    Renames (fun l => ∀ s ∈ l, P s) (List.map fs) fa fe (onFirstOr fresh p x)
      (DesignStore.onFirstOr (fs fresh) q y) := by
  intro l hl
  induction l with
  | nil =>
    refine (h fresh hfresh).inside (fun t => [t]) (fun t => [t]) ?_ ?_ (fun _ => rfl) fun t ht => List.forall_mem_singleton.2 ht
    · rw [DesignStore.onFirstOr]
      cases x fresh <;> rfl
    · rw [List.map_nil, DesignStore.onFirstOr]
      cases y (fs fresh) <;> rfl
  | cons s l ih =>
    obtain ⟨hs, hl⟩ := List.forall_mem_cons.1 hl
    have hq : q (fs s) = p s := hp s
    cases hps : p s with
    | true =>
      refine (h s hs).inside (· :: l) (· :: l.map fs) ?_ ?_ (fun _ => rfl) fun t ht => List.forall_mem_cons.2 ⟨ht, hl⟩
      · rw [DesignStore.onFirstOr, if_pos hps]
        cases x s <;> rfl
      · rw [List.map_cons, DesignStore.onFirstOr, if_pos (hq.trans hps)]
        cases y (fs s) <;> rfl
    | false =>
      refine (ih hl).inside (s :: ·) (fs s :: ·) ?_ ?_ (fun _ => rfl) fun t ht => List.forall_mem_cons.2 ⟨hs, ht⟩
      · rw [DesignStore.onFirstOr, hps, if_neg Bool.false_ne_true]
        cases DesignStore.onFirstOr fresh p x l <;> rfl
      · rw [List.map_cons, DesignStore.onFirstOr, hq, hps, if_neg Bool.false_ne_true]
        cases DesignStore.onFirstOr (fs fresh) q y (l.map fs) <;> rfl

end Renames

theorem modify_map {α β : Type} {g : α → β} {f : α → α} {f' : β → β}
    (h : ∀ a, f' (g a) = g (f a)) (l : Array α) (i : Nat) :
    (l.map g).modify i f' = (l.modify i f).map g := by
  refine Array.ext_getElem? fun j => ?_
  simp only [Array.getElem?_modify, Array.getElem?_map]
  split
  · cases l[j]? with
    | none => rfl
    | some a => exact congrArg some (h a)
  · rfl

namespace Renaming

variable (r : Renaming)

/-- The tags in use. -/
def Used (t : ScopeTag) : Prop :=
  t.val ≠ 0 ∧ t.toNat ≤ r.last

/-! ## What is renamed -/

def key (k : SlotKey) : SlotKey :=
  { k with scope := r.tag k.scope }

def header (h : Header) : Header :=
  { h with id := r.id h.id }

def body : (k : RecordKind) → k.Body → k.Body
  | .inst, b => { (b : Inst) with pins := b.pins.map r.id }
  | .net, b => { (b : Net) with pins := b.pins.map r.id }
  | .pin, b => { (b : Pin) with inst := b.inst.map r.id, net := b.net.map r.id }
  | .placement, b => { (b : Placement) with pins := b.pins.map r.id }
  | .cell, b => { (b : Cell) with cells := b.cells.map r.id }
  | .tech, b => { (b : Tech) with layers := b.layers.map r.id }
  | .timing, b => { (b : Timing) with models := b.models.map r.id }
  | .ids, b => { (b : GrowArray ObjectId) with items := b.items.map r.id }
  | .bare, b | .layer, b | .timingCell, b | .bytes, b | .words, b | .longs, b => b

def record (k : RecordKind) (x : Record k.Body) : Record k.Body :=
  { header := r.header x.header, body := r.body k x.body }

def slot (k : RecordKind) (s : Slot k.Body) : Slot k.Body :=
  { s with record := r.record k s.record }

def arena (k : RecordKind) (a : Arena k.Body) : Arena k.Body :=
  { a with scope := r.tag a.scope, pages := a.pages.map (·.map (r.slot k)) }

def boundArena (b : BoundArena) : BoundArena :=
  { b with arena := r.arena b.kind b.arena }

def pool (p : Pool) : Pool :=
  { p with scope := r.tag p.scope, arenas := p.arenas.map r.boundArena }

def registry (g : Registry) : Registry :=
  { g with
    issued := g.issued + r.offset
    pools := g.pools.map r.pool
    owners := g.owners.bimap r.id r.tag }

def hierarchy (h : Hierarchy) : Hierarchy where
  owners := h.owners.map r.id
  positions := h.positions.bimap r.id fun i => i
  topCell := h.topCell.map r.id
  techLib := h.techLib.map r.id
  timingLib := h.timingLib.map r.id

def symbol (s : Symbol) : Symbol :=
  { s with users := s.users.map r.id }

def symbols (t : SymbolTable) : SymbolTable :=
  { symbols := t.symbols.map r.symbol }

def value : PropertyValue → PropertyValue
  | .object id => .object (r.id id)
  | .int v => .int v
  | .real v => .real v
  | .bool v => .bool v
  | .string v => .string v

def properties (t : PropertyTable) : PropertyTable :=
  { byObject := t.byObject.bimap r.id (·.bimap (fun name => name) r.value) }

def scope (s : StorageScope) : StorageScope :=
  { s with
    owner := r.id s.owner
    tag := r.tag s.tag
    parent := s.parent.map r.id
    children := s.children.map r.id
    symbols := r.symbols s.symbols
    properties := r.properties s.properties }

def database (db : Database) : Database :=
  { db with
    hierarchy := r.hierarchy db.hierarchy
    registry := r.registry db.registry
    scopes := db.scopes.map r.scope }

def fault : Fault → Fault
  | .nullOwner id => .nullOwner (r.id id)
  | .unindexedOwner owner id => .unindexedOwner (r.id owner) (r.id id)
  | .ownerChain id limit => .ownerChain (r.id id) limit
  | .foreignOwner owner context id => .foreignOwner owner context (r.id ⟨id⟩).raw
  | .ownerWithoutScope owner id => .ownerWithoutScope owner (r.id ⟨id⟩).raw
  | f => f

def poolError : PoolError → PoolError
  | .unknownScope scope => .unknownScope (r.tag scope)
  | e => e

def dbError : DbError → DbError
  | .invalidOwner owner => .invalidOwner (r.id owner)
  | .ownerNotResolved owner => .ownerNotResolved (r.id owner)
  | .noPool type owner => .noPool type (r.id owner)
  | .allocation type cause => .allocation type (r.poolError cause)
  | .notFound id => .notFound (r.id id)
  | .noOwnerDepth => .noOwnerDepth
  | .pool cause => .pool (r.poolError cause)

def failure {ε : Type} (f : ε → ε) : Failure ε → Failure ε
  | .refused e => .refused (f e)
  | .fault g => .fault (r.fault g)

variable {r}

/-! ## Handles -/

theorem id_inj {x y : ObjectId} : r.id x = r.id y ↔ x = y :=
  r.id_injective.eq_iff

theorem tag_inj {s t : ScopeTag} : r.tag s = r.tag t ↔ s = t :=
  r.tag_injective.eq_iff

theorem isNull_id (x : ObjectId) : (r.id x).isNull = x.isNull := by
  have hnull (y : ObjectId) : y.isNull = decide (y = ObjectId.null) := by
    obtain ⟨raw⟩ := y
    simp [ObjectId.isNull, ObjectId.null, Bool.beq_eq_decide_eq]
  rw [hnull, hnull]
  exact decide_eq_decide.2 (by rw [← r.null, id_inj, r.null])

theorem nonNull?_id (x : ObjectId) : (r.id x).nonNull? = x.nonNull?.map r.id := by
  rw [ObjectId.nonNull?, isNull_id, ObjectId.nonNull?]
  split <;> rfl

theorem unpack?_id {x : ObjectId} (hx : ∀ t, ScopeTag.of? x = some t → r.Used t) :
    SlotKey.unpack? (r.id x) = (SlotKey.unpack? x).map r.key := by
  cases hk : SlotKey.unpack? x with
  | none =>
    have htype := r.type? x
    rw [ObjectId.type?, ObjectId.type?, hk, Option.map_none, Option.map_eq_none_iff] at htype
    exact htype
  | some k =>
    obtain ⟨hval, hlast⟩ := hx _ (SlotKey.of?_of_unpack? hk)
    have hpack := r.pack k hval hlast
    rw [SlotKey.pack_of_unpack? hk] at hpack
    have hof := r.of? x
    rw [SlotKey.of?_of_unpack? hk, Option.map_some] at hof
    rw [hpack]
    exact SlotKey.unpack?_pack (ScopeTag.of?_eq_some_iff.1 hof).2

end Renaming
end DesignStore
