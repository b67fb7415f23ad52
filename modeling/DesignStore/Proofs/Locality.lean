/-
What a request of a pool depends on.

A request names a type of records: the type it is to place, or the one its handle says.  Of two
pools with the same tag, the same layout and the same arena of that type (`Alike`) it gets the
same answer and leaves the same arena, whatever else they hold, and the arenas of all other types
it leaves as they are (`Local`, `Request.confined`).
-/
import DesignStore.Proofs.Requests

namespace DesignStore

theorem BoundArena.type_modifyHeader (b : BoundArena) (key : SlotKey) (f : Header → Header) :
    (b.modifyHeader key f).type = b.type := by
  obtain ⟨kind, a⟩ := b
  show (a.modifyHeader key f).type = a.type
  unfold Arena.modifyHeader
  split <;> rfl

namespace Pool

variable {ε α β : Type} {p p' : Pool} {t : ObjectType} {id : ObjectId} {key : SlotKey}

/-- The pools are the same as far as records of one type are concerned. -/
structure Alike (t : ObjectType) (p p' : Pool) : Prop where
  scope : p'.scope = p.scope
  config : p'.config = p.config
  arena : p'.arena? t = p.arena? t

namespace Alike

theorem refl (t : ObjectType) (p : Pool) : Alike t p p :=
  ⟨rfl, rfl, rfl⟩

theorem symm (h : Alike t p p') : Alike t p' p :=
  ⟨h.scope.symm, h.config.symm, h.arena.symm⟩

theorem trans {p'' : Pool} (h : Alike t p p') (h' : Alike t p' p'') : Alike t p p'' :=
  ⟨h'.scope.trans h.scope, h'.config.trans h.config, h'.arena.trans h.arena⟩

theorem key? (h : Alike t p p') (id : ObjectId) : p'.key? id = p.key? id := by
  rw [Pool.key?, Pool.key?, h.scope]

theorem inspect? (h : Alike key.type p p') (hkey : p.key? id = some key) :
    p'.inspect? id = p.inspect? id := by
  simp only [Pool.inspect?, h.key?, hkey, Option.bind_eq_bind, Option.bind_some, h.arena]

theorem header? (h : Alike key.type p p') (hkey : p.key? id = some key) :
    p'.header? id = p.header? id := by
  rw [Pool.header?, Pool.header?, h.inspect? hkey]

theorem resolve (h : Alike key.type p p') (hkey : p.key? id = some key) (k : RecordKind) :
    p'.resolve k id = p.resolve k id := by
  simp only [Pool.resolve, h.key?, hkey, h.arena]

end Alike

/-- Both pools give the same answer and are left with the same arena of the type.  No other
arena of the first one changes. -/
structure Local (t : ObjectType) (x : EStateM ε Pool α) (p p' : Pool) : Prop where
  answer : answer x p' = answer x p
  self : (after x p').arena? t = (after x p).arena? t
  other : ∀ u, u ≠ t → (after x p).arena? u = p.arena? u

namespace Local

theorem map {x : EStateM ε Pool α} (h : Local t x p p') (f : α → β) : Local t (f <$> x) p p' where
  answer := by rw [answer_map, answer_map, h.answer]
  self := by rw [after_map, after_map, h.self]
  other := by
    rw [after_map]
    exact h.other

theorem congr {x y : EStateM ε Pool α} (h : Local t x p p') (hp : y p = x p)
    (hp' : y p' = x p') : Local t y p p' where
  answer := by
    have ha := h.answer
    simpa only [DesignStore.answer, hp, hp'] using ha
  self := by
    have hs := h.self
    simpa only [after, hp, hp'] using hs
  other := by
    have ho := h.other
    simpa only [after, hp] using ho

/-- Where an operation changes nothing, it is enough that the answers are the same. -/
theorem of_still {x : EStateM ε Pool α} (h : Alike t p p')
    (ha : DesignStore.answer x p' = DesignStore.answer x p) (hp : after x p = p)
    (hp' : after x p' = p') : Local t x p p' where
  answer := ha
  self := by rw [hp, hp', h.arena]
  other := fun _ _ => by rw [hp]

theorem of_ok {x : EStateM ε Pool α} {a : α} (h : Alike t p p') (hp : x p = .ok a p)
    (hp' : x p' = .ok a p') : Local t x p p' :=
  of_still h (by rw [answer_ok hp, answer_ok hp']) (after_ok hp) (after_ok hp')

end Local

theorem answer_onArena (key : SlotKey) (x : EStateM ε BoundArena α) (p : Pool) :
    answer (onArena key x) p =
      (p.arena? key.type).elim (.ok none) fun b => (answer x b).map some := by
  rw [arena?, ← answer_onFirst]
  simp only [answer, onArena_eq]
  cases onFirst (·.type = key.type) x p.arenas <;> rfl

theorem local_onArena (h : Alike key.type p p') {x : EStateM ε BoundArena α}
    (hx : ∀ b, p.arena? key.type = some b → (after x b).type = b.type) :
    Local key.type (onArena key x) p p' where
  answer := by rw [answer_onArena, answer_onArena, h.arena]
  self := by rw [arena?_after_onArena hx, arena?_after_onArena (h.arena ▸ hx), h.arena]
  other := fun _ hu => arena?_after_onArena_other hx hu

/-! ## Using a handle -/

section Use

variable (hp : p.Sound) (h : Alike key.type p p') (hkey : p.key? id = some key)

include hp h hkey

theorem local_free : Local key.type (free id : EStateM ε Pool Bool) p p' := by
  have hkey' : p'.key? id = some key := (h.key? id).trans hkey
  have hx := local_onArena h (x := BoundArena.free (ε := ε) key) fun b hb => by
    obtain ⟨b', hb', ht⟩ := BoundArena.free_eq (ε := ε) b key
    rw [after_ok hb']
    exact (ht (hp.names hkey hb)).type
  refine (hx.map (·.getD false)).congr ?_ ?_
  · simp only [free, hkey]
    rfl
  · simp only [free, hkey']
    rfl

theorem local_update (k : RecordKind) (f : Record k.Body → Record k.Body) :
    Local key.type (update k id f : EStateM (Failure ε) Pool (Option (Record k.Body))) p p' := by
  have hkey' : p'.key? id = some key := (h.key? id).trans hkey
  have hx := local_onArena h (x := BoundArena.update (ε := ε) k key f) fun b hb =>
    (BoundArena.touches_update (hp.names hkey hb) k f).type
  refine (hx.map (·.join)).congr ?_ ?_
  · simp only [update, hkey]
    rfl
  · simp only [update, hkey']
    rfl

omit hp

theorem local_modifyHeader (f : Header → Header) :
    Local key.type (modifyHeader id f : EStateM ε Pool (Option Header)) p p' := by
  have hkey' : p'.key? id = some key := (h.key? id).trans hkey
  have hh' := h.header? hkey
  cases hh : p.header? id with
  | none =>
    exact .of_ok h (modifyHeader_of_not_live hh f) (modifyHeader_of_not_live (hh'.trans hh) f)
  | some hd =>
    have hx := local_onArena h
      (x := (modify (BoundArena.modifyHeader · key f) : EStateM ε BoundArena PUnit))
      fun b _ => b.type_modifyHeader key f
    refine (hx.map fun _ => some (f hd)).congr ?_ ?_
    · simp only [modifyHeader, hkey, hh]
      rfl
    · simp only [modifyHeader, hkey', hh', hh]
      rfl

theorem local_editHeader (e : HeaderEdit) :
    Local key.type (editHeader id e : EStateM (Failure ε) Pool (Option Header)) p p' := by
  have hh' := h.header? hkey
  cases hh : p.header? id with
  | none =>
    exact .of_ok (a := none) h (by simp only [editHeader, hh]) (by simp only [editHeader, hh', hh])
  | some hd =>
    cases he : e.apply hd with
    | error f =>
      refine .of_still h ?_ ?_ ?_
      · simp only [answer, editHeader, hh', hh, he]
      · simp only [after, editHeader, hh, he]
      · simp only [after, editHeader, hh', hh, he]
    | ok hd' =>
      refine (local_modifyHeader h hkey fun _ => hd').congr ?_ ?_
      · simp only [editHeader, hh, he]
      · simp only [editHeader, hh', hh, he]

theorem local_read (k : RecordKind) : Local key.type ((Use.read k).perform id) p p' := by
  refine .of_still h ?_ (after_read p id k) (after_read p' id k)
  simp only [answer, Use.perform, h.resolve hkey]
  cases p.resolve k id <;> rfl

end Use

theorem Use.confined (hp : p.Sound) (h : Alike key.type p p') (hkey : p.key? id = some key)
    (u : Use) : Local key.type (u.perform id) p p' := by
  cases u with
  | free => exact (local_free hp h hkey).map _
  | read k => exact local_read h hkey k
  | write k f => exact (local_update hp h hkey k f).map _
  | header => exact .of_ok h rfl (by simp only [perform, h.header? hkey])
  | inspect => exact .of_ok h rfl (by simp only [perform, h.inspect? hkey])
  | writeHeader f => exact (local_modifyHeader h hkey f).map _
  | editHeader e => exact (local_editHeader h hkey e).map _

/-! ## Placing a record -/

/-- The arena a record is placed in: the one of the type, or else a new one. -/
def target (p : Pool) (k : RecordKind) (t : ObjectType) : BoundArena :=
  (p.arena? t).getD { kind := k, arena := Arena.empty p.scope t p.config }

theorem Alike.target (h : Alike t p p') (k : RecordKind) : p'.target k t = p.target k t := by
  rw [Pool.target, Pool.target, h.scope, h.config, h.arena]

theorem allocate_apply (k : RecordKind) (t : ObjectType) (p : Pool) :
    allocate k t p = match onFirstOr { kind := k, arena := Arena.empty p.scope t p.config }
        (·.type = t) (BoundArena.allocate k) p.arenas with
      | .ok key arenas => .ok key.pack { p with arenas }
      | .error e arenas => .error e { p with arenas } := rfl

theorem answer_allocate (k : RecordKind) (t : ObjectType) (p : Pool) :
    answer (allocate k t) p = (answer (BoundArena.allocate k) (p.target k t)).map SlotKey.pack := by
  rw [target, arena?, ← answer_onFirstOr]
  simp only [answer, allocate_apply]
  cases onFirstOr { kind := k, arena := Arena.empty p.scope t p.config } (·.type = t)
    (BoundArena.allocate k) p.arenas <;> rfl

theorem arenas_after_allocate (k : RecordKind) (t : ObjectType) (p : Pool) :
    (after (allocate k t) p).arenas =
      after (onFirstOr { kind := k, arena := Arena.empty p.scope t p.config } (·.type = t)
        (BoundArena.allocate k)) p.arenas := by
  simp only [after, allocate_apply]
  cases onFirstOr { kind := k, arena := Arena.empty p.scope t p.config } (·.type = t)
    (BoundArena.allocate k) p.arenas <;> rfl

theorem type_allocate {b : BoundArena} (h : b.arena.Sound) (k : RecordKind) :
    (after (BoundArena.allocate k) b).type = b.type := by
  rcases BoundArena.allocate_spec h k with ⟨key, b', hb', _, hp⟩ | ⟨e, he⟩
  · rw [after_ok hb']
    exact hp.type
  · rw [after_error he]

theorem type_target (hp : p.Sound) (k : RecordKind) (t : ObjectType) :
    (after (BoundArena.allocate k) (p.target k t)).type = t := by
  rw [target]
  cases hb : p.arena? t with
  | none => exact type_allocate (Arena.sound_empty p.scope t hp.config) k
  | some b =>
    have ht : b.type = t := by simpa using List.find?_some hb
    exact (type_allocate (hp.arena b (List.mem_of_find?_eq_some hb)) k).trans ht

theorem arena?_after_allocate (hp : p.Sound) (k : RecordKind) (t : ObjectType) :
    (after (allocate k t) p).arena? t = some (after (BoundArena.allocate k) (p.target k t)) := by
  rw [arena?, arenas_after_allocate]
  exact find?_after_onFirstOr (decide_eq_true (type_target hp k t))

theorem arena?_after_allocate_other (hp : p.Sound) (k : RecordKind) {u : ObjectType} (hu : u ≠ t) :
    (after (allocate k t) p).arena? u = p.arena? u := by
  rw [arena?, arenas_after_allocate]
  refine find?_after_onFirstOr_other (fun b hb => ?_)
    (decide_eq_false fun e => hu (e.symm.trans (type_target hp k t)))
  have ht : b.type = t := by simpa using List.find?_some hb
  exact decide_eq_false fun e => hu (e.symm.trans ht)

theorem local_allocate (hp : p.Sound) (hp' : p'.Sound) (h : Alike t p p') (k : RecordKind) :
    Local t (allocate k t) p p' where
  answer := by rw [answer_allocate, answer_allocate, h.target]
  self := by rw [arena?_after_allocate hp, arena?_after_allocate hp', h.target]
  other := fun _ hu => arena?_after_allocate_other hp k hu

/-! ## Requests -/

/-- The type of the records a request is about. -/
def Request.type? : Request → Option ObjectType
  | allocate _ t => some t
  | use id _ => (SlotKey.unpack? id).map (·.type)

theorem Request.confined {q : Request} (hp : p.Sound) (hp' : p'.Sound) (h : Alike t p p')
    (ht : q.type? = some t) : Local t q.perform p p' := by
  cases q with
  | allocate k u =>
    obtain rfl : u = t := Option.some.inj ht
    exact (local_allocate hp hp' h k).map _
  | use id u =>
    obtain ⟨key, hkey, rfl⟩ := Option.map_eq_some_iff.1 ht
    cases hk : p.key? id with
    | none =>
      exact .of_ok h (u.perform_of_no_key hk) (u.perform_of_no_key ((h.key? id).trans hk))
    | some key' =>
      cases hkey.symm.trans (key?_eq_some_iff.1 hk).1
      exact u.confined hp h hk

/-- The two pools stay alike. -/
theorem Request.alike {q : Request} (hp : p.Sound) (hp' : p'.Sound) (h : Alike t p p')
    (ht : q.type? = some t) : Alike t (after q.perform p) (after q.perform p') := by
  have hf := q.follows hp
  have hf' := q.follows hp'
  exact ⟨by rw [hf.scope, hf'.scope, h.scope], by rw [hf.config, hf'.config, h.config],
    (confined hp hp' h ht).self⟩

theorem Request.alike_other {q : Request} (hp : p.Sound) (ht : q.type? ≠ some t) :
    Alike t p (after q.perform p) := by
  have hf := q.follows hp
  refine ⟨hf.scope, hf.config, ?_⟩
  cases hq : q.type? with
  | some u =>
    exact (confined hp hp (Alike.refl u p) hq).other t fun e => ht (by rw [hq, e])
  | none =>
    -- the handle cannot be read, so no pool issued it
    cases q with
    | allocate k u => contradiction
    | use id u =>
      have hk : p.key? id = none := by
        rw [Pool.key?, Option.map_eq_none_iff.1 hq]
        rfl
      rw [show after (Request.use id u).perform p = p from after_ok (u.perform_of_no_key hk)]

end Pool
end DesignStore
