/-
Renamed pools.

Reading a renamed arena, pool or registry answers what reading it answers, renamed, and so it is
with placing, changing and freeing records there.  Only a new record gets its handle from the pool:
that takes the tag of the pool to be one in use (`TamePool`).  A new pool gets the next tag, so the
pools that are renamed are those of a registry that has room for it (`createPoolWith_registry`).
-/
import DesignStore.Proofs.Registry
import DesignStore.Proofs.Renaming

namespace DesignStore
namespace Renaming

variable {r : Renaming}

/-! ## Arenas -/

section Arena

variable {k : RecordKind} {a : Arena k.Body}

theorem body_default (k : RecordKind) : r.body k default = default := by
  cases k with
  | ids => simp [body, default, RecordKind.blankBody]
  | _ => rfl

theorem record_blank (k : RecordKind) : r.record k Record.blank = Record.blank := by
  rw [record, Record.blank, body_default, header, r.null]

theorem slotAt?_arena (p : Place) : (r.arena k a).slotAt? p = (a.slotAt? p).map (r.slot k) := by
  simp only [Arena.slotAt?, arena, Array.getElem?_map]
  cases a.pages[p.page.toNat]? with
  | none => rfl
  | some page => exact Array.getElem?_map

theorem modifyAt_arena {f f' : Slot k.Body → Slot k.Body}
    (h : ∀ s, f' (r.slot k s) = r.slot k (f s)) (p : Place) :
    (r.arena k a).modifyAt p f' = r.arena k (a.modifyAt p f) := by
  simp only [Arena.modifyAt, arena]
  rw [modify_map fun page => modify_map h page p.slot.toNat]

theorem inspect?_arena (key : SlotKey) :
    (r.arena k a).inspect? (r.key key) = (a.inspect? key).map (r.record k) := by
  have hkey : ((r.key key).scope = (r.arena k a).scope ∧ (r.key key).type = (r.arena k a).type) ↔
      (key.scope = a.scope ∧ key.type = a.type) := and_congr_left fun _ => tag_inj
  rw [Arena.inspect?, Arena.inspect?, slotAt?_arena, show (r.key key).place = key.place from rfl]
  by_cases h : key.scope = a.scope ∧ key.type = a.type
  · rw [if_pos (hkey.2 h), if_pos h]
    cases a.slotAt? key.place with
    | none => rfl
    | some s =>
      show (if s.generation = key.generation then some (r.record k s.record) else none) =
        (if s.generation = key.generation then some s.record else none).map (r.record k)
      split <;> rfl
  · rw [if_neg (mt hkey.1 h), if_neg h, Option.map_none]

theorem get?_arena (key : SlotKey) :
    (r.arena k a).get? (r.key key) = (a.get? key).map (r.record k) := by
  rw [Arena.get?, inspect?_arena, Arena.get?, Option.filter_map]
  rfl

variable {ε δ : Type} (fe : ε → δ) {t : ScopeTag}

theorem isSome_get?_arena (key : SlotKey) :
    ((r.arena k a).get? (r.key key)).isSome = (a.get? key).isSome := by
  rw [get?_arena, Option.isSome_map]

theorem update_arena {f f' : Record k.Body → Record k.Body}
    (hf : ∀ x, f' (r.record k x) = r.record k (f x)) (key : SlotKey) :
    Renames (·.scope = t) (r.arena k) (Option.map (r.record k)) fe (Arena.update key f)
      (Arena.update (r.key key) f') := by
  intro a ha
  have hat : (r.arena k a).modifyAt (r.key key).place
      (fun s => { s with record := f' s.record }) =
        r.arena k (a.modifyAt key.place fun s => { s with record := f s.record }) :=
    modifyAt_arena (fun s => congrArg (Slot.mk s.generation) (hf s.record)) key.place
  by_cases h : (a.get? key).isSome = true
  · refine RenamesAt.of_ok (if_pos h) ha ((if_pos ((isSome_get?_arena key).trans h)).trans ?_)
    dsimp only
    rw [hat, inspect?_arena]
  · exact RenamesAt.of_ok (if_neg h) ha (if_neg (isSome_get?_arena (r := r) key ▸ h))

theorem modifyHeader_arena {f f' : Header → Header} (hf : ∀ h, f' (r.header h) = r.header (f h))
    (key : SlotKey) :
    (r.arena k a).modifyHeader (r.key key) f' = r.arena k (a.modifyHeader key f) := by
  have hat : (r.arena k a).modifyAt (r.key key).place (·.mapHeader f') =
      r.arena k (a.modifyAt key.place (·.mapHeader f)) :=
    modifyAt_arena (fun s => by simp only [Slot.mapHeader, slot, record, hf]) key.place
  rw [Arena.modifyHeader, Arena.modifyHeader, inspect?_arena, Option.isSome_map]
  split
  · exact hat
  · rfl

theorem free_arena (key : SlotKey) :
    Renames (·.scope = t) (r.arena k) (fun b => b) fe (Arena.free key) (Arena.free (r.key key)) := by
  intro a ha
  have hat : (r.arena k a).modifyAt (r.key key).place Slot.clear =
      r.arena k (a.modifyAt key.place Slot.clear) :=
    modifyAt_arena (fun s => by simp only [Slot.clear, slot, record, header, Header.setFlag,
      body_default]) key.place
  by_cases h : (a.get? key).isSome = true
  · have h' := (isSome_get?_arena (r := r) key).trans h
    by_cases hg : key.generation = 255
    · refine RenamesAt.of_ok ((if_pos h).trans (if_pos hg)) ha
        ((if_pos h').trans ((if_pos hg).trans ?_))
      rw [hat]
      rfl
    · refine RenamesAt.of_ok ((if_pos h).trans (if_neg hg)) ha
        ((if_pos h').trans ((if_neg hg).trans ?_))
      rw [hat]
      rfl
  · exact RenamesAt.of_ok (if_neg h) ha (if_neg (isSome_get?_arena (r := r) key ▸ h))

theorem slot_blank (k : RecordKind) (g : UInt8) :
    r.slot k { generation := g, record := Record.blank } =
      { generation := g, record := Record.blank } :=
  congrArg (Slot.mk g) (record_blank k)

theorem size_arena : (r.arena k a).pages.size = a.pages.size :=
  Array.size_map

theorem addPage_arena {fresh : Slot k.Body} (hfresh : r.slot k fresh = fresh) :
    Renames (·.scope = t) (r.arena k) (fun p => p) (r.failure r.poolError)
      (Arena.extend.addPage fresh) (Arena.extend.addPage fresh) := by
  intro a ha
  by_cases hfull : a.config.maxPages ≤ a.pages.size
  · have hfull' : (r.arena k a).config.maxPages ≤ (r.arena k a).pages.size := by rwa [size_arena]
    refine RenamesAt.of_error (if_pos hfull) ha ((if_pos hfull').trans ?_)
    rw [size_arena]
    rfl
  · have hfull' : ¬ (r.arena k a).config.maxPages ≤ (r.arena k a).pages.size := by rwa [size_arena]
    by_cases hslots : a.config.pageSlots = 0
    · exact RenamesAt.of_error ((if_neg hfull).trans (if_pos hslots)) ha
        ((if_neg hfull').trans (if_pos hslots))
    · refine RenamesAt.of_ok ((if_neg hfull).trans (if_neg hslots)) ha
        ((if_neg hfull').trans ((if_neg hslots).trans ?_))
      rw [size_arena]
      simp only [arena, Array.map_push, List.map_toArray, List.map_cons, List.map_nil, hfresh]

theorem extend_arena :
    Renames (·.scope = t) (r.arena k) (fun p => p) (r.failure r.poolError) Arena.extend
      Arena.extend := by
  intro a ha
  have hpage := addPage_arena (t := t) (slot_blank (r := r) k 0) a ha
  have hused : (r.arena k a).pages[(r.arena k a).pages.size - 1]?.map (·.size) =
      a.pages[a.pages.size - 1]?.map (·.size) := by
    rw [size_arena, arena, Array.getElem?_map, Option.map_map]
    exact congrArg (fun f => a.pages[a.pages.size - 1]?.map f) (funext fun page => Array.size_map)
  cases hlast : a.pages[a.pages.size - 1]?.map (·.size) with
  | none =>
    exact hpage.congr (by simp only [Arena.extend, hlast])
      (by simp only [Arena.extend, hused, hlast])
  | some used =>
    by_cases hroom : used < a.config.pageSlots
    · have hroom' : used < (r.arena k a).config.pageSlots := hroom
      have hx : Arena.extend a =
          .ok { page := UInt16.ofNat (a.pages.size - 1), slot := UInt16.ofNat used }
            { a with
              pages := a.pages.modify (a.pages.size - 1)
                (Array.push · { generation := 0, record := Record.blank }) } := by
        simp only [Arena.extend, hlast, if_pos hroom]
      refine .of_ok hx ha ?_
      simp only [Arena.extend, hused, hlast, if_pos hroom']
      rw [size_arena]
      simp only [arena]
      rw [modify_map fun page => by rw [Array.map_push, slot_blank]]
    · have hroom' : ¬ used < (r.arena k a).config.pageSlots := hroom
      exact hpage.congr (by simp only [Arena.extend, hlast, if_neg hroom])
        (by simp only [Arena.extend, hused, hlast, if_neg hroom'])

theorem claim_arena :
    Renames (·.scope = t) (r.arena k) (fun p => p) (r.failure r.poolError) Arena.claim
      Arena.claim := by
  intro a ha
  cases hfree : a.freeList with
  | nil =>
    have hfree' : (r.arena k a).freeList = [] := hfree
    refine (extend_arena (r := r) a ha).part (fun b => b) (fun b => b) (·, 0) (·, 0) (fun e => e)
      (fun e => e) ?_ ?_ (fun _ => rfl) (fun _ _ _ => rfl) (fun _ => rfl) fun _ h => h
    · simp only [Arena.claim, hfree]
      cases Arena.extend a <;> rfl
    · simp only [Arena.claim, hfree']
      cases Arena.extend (r.arena k a) <;> rfl
  | cons p rest =>
    have hfree' : (r.arena k a).freeList = p :: rest := hfree
    have hslot : ({ r.arena k a with freeList := rest } : Arena k.Body).slotAt? p =
        (({ a with freeList := rest } : Arena k.Body).slotAt? p).map (r.slot k) :=
      slotAt?_arena (a := { a with freeList := rest }) p
    cases hs : ({ a with freeList := rest } : Arena k.Body).slotAt? p with
    | none =>
      have hx : Arena.claim a = .error (.fault .unissuedFree) { a with freeList := rest } := by
        simp only [Arena.claim, hfree, hs, Option.map_none]
      refine .of_error hx ha ?_
      simp only [Arena.claim, hfree', hslot, hs, Option.map_none]
      rfl
    | some s =>
      have hx : Arena.claim a = .ok (p, s.generation + 1)
          (({ a with freeList := rest } : Arena k.Body).modifyAt p fun _ =>
            { generation := s.generation + 1, record := Record.blank }) := by
        simp only [Arena.claim, hfree, hs, Option.map_some]
      refine .of_ok hx ha ?_
      simp only [Arena.claim, hfree', hslot, hs, Option.map_some]
      exact congrArg (EStateM.Result.ok _) (modifyAt_arena (a := { a with freeList := rest })
        (fun _ => (slot_blank k (s.generation + 1)).symm) p)

theorem stamp_slot {key : SlotKey} (hkey : r.Used key.scope) (s : Slot k.Body) :
    Slot.stamp (r.key key) (r.slot k s) = r.slot k (Slot.stamp key s) := by
  simp only [Slot.stamp, Slot.mapHeader, slot, record, header, Header.stamp, Renaming.key,
    r.pack key hkey.1 hkey.2]

/-- The new record is named by a handle of the pool. -/
theorem allocate_arena (ht : r.Used t) :
    Renames (·.scope = t) (r.arena k) r.key (r.failure r.poolError) Arena.allocate
      Arena.allocate := by
  intro a ha
  obtain ⟨hscope, hclaim⟩ := claim_arena (r := r) a ha
  cases hx : Arena.claim a with
  | error e b =>
    simp only [after, hx, mapResult] at hscope hclaim
    have hrun : Arena.allocate a = .error e b := by simp only [Arena.allocate, hx]
    exact .of_error hrun hscope (by simp only [Arena.allocate, hclaim])
  | ok c b =>
    obtain ⟨place, generation⟩ := c
    simp only [after, hx, mapResult] at hscope hclaim
    let b' : Arena k.Body := { b with live := b.live + 1 }
    let key : SlotKey := { scope := b.scope, type := b.type, generation, place }
    have hslot : ((r.arena k b').slotAt? place).isSome = (b'.slotAt? place).isSome := by
      rw [slotAt?_arena, Option.isSome_map]
    have hrun : Arena.allocate a = if (b'.slotAt? place).isSome then
        .ok key (b'.modifyAt place (Slot.stamp key)) else .error (.fault .unissuedPlace) b' := by
      simp only [Arena.allocate, hx, key, b']
    have hrun' : Arena.allocate (r.arena k a) = if ((r.arena k b').slotAt? place).isSome then
        .ok (r.key key) ((r.arena k b').modifyAt place (Slot.stamp (r.key key)))
        else .error (.fault .unissuedPlace) (r.arena k b') := by
      simp only [Arena.allocate, hclaim]
      rfl
    by_cases hs : (b'.slotAt? place).isSome = true
    · refine .of_ok (hrun.trans (if_pos hs)) hscope (hrun'.trans ((if_pos (hslot.trans hs)).trans ?_))
      have hkey : r.Used key.scope := by rwa [show key.scope = t from hscope]
      rw [modifyAt_arena (stamp_slot hkey)]
    · exact .of_error (hrun.trans (if_neg hs)) hscope (hrun'.trans (if_neg (hslot ▸ hs)))

theorem scope_of_allocate_arena (r : Renaming) {key : SlotKey} {b : Arena k.Body}
    (h : Arena.allocate a = .ok key b) : key.scope = a.scope := by
  have hscope := (claim_arena (r := r) a rfl).keeps
  cases hc : Arena.claim a with
  | error e c => simp [Arena.allocate, hc] at h
  | ok c c' =>
    rw [after_ok hc] at hscope
    simp only [Arena.allocate, hc] at h
    split at h
    · cases h
      exact hscope
    · contradiction

theorem records_arena : (r.arena k a).records = a.records.map (r.record k) := by
  have hslots : (r.arena k a).slots = a.slots.map (r.slot k) := by
    simp only [Arena.slots, arena, Array.toList_map, List.flatMap_map, List.map_flatMap]
  rw [Arena.records, Arena.records, hslots, List.map_map, List.filter_map, List.filter_map,
    List.map_map]
  rfl

theorem liveIds_arena : (r.arena k a).liveIds = a.liveIds.map r.id := by
  rw [Arena.liveIds, records_arena, Arena.liveIds, List.map_map, List.map_map]
  rfl

end Arena

/-! ## Arenas with a kind -/

section BoundArena

variable {ε δ : Type} (fe : Failure ε → Failure δ) {t : ScopeTag} {b : BoundArena}

theorem as?_boundArena (k : RecordKind) : (r.boundArena b).as? k = (b.as? k).map (r.arena k) := by
  obtain ⟨kind, a⟩ := b
  by_cases hk : kind = k
  · subst hk
    rw [show r.boundArena ⟨kind, a⟩ = ⟨kind, r.arena kind a⟩ from rfl, BoundArena.as?_self,
      BoundArena.as?_self, Option.map_some]
  · rw [BoundArena.as?, BoundArena.as?, dif_neg hk, dif_neg (show ¬ (r.boundArena ⟨kind, a⟩).kind = k
      from hk), Option.map_none]

theorem inspect?_boundArena (key : SlotKey) :
    (r.boundArena b).inspect? (r.key key) = (b.inspect? key).map r.header := by
  obtain ⟨kind, a⟩ := b
  show ((r.arena kind a).inspect? (r.key key)).map (·.header) =
    ((a.inspect? key).map (·.header)).map r.header
  rw [inspect?_arena, Option.map_map, Option.map_map]
  rfl

theorem modifyHeader_boundArena {f f' : Header → Header}
    (hf : ∀ h, f' (r.header h) = r.header (f h)) (key : SlotKey) :
    (r.boundArena b).modifyHeader (r.key key) f' = r.boundArena (b.modifyHeader key f) :=
  congrArg (BoundArena.mk b.kind) (modifyHeader_arena hf key)

theorem liveIds_boundArena : (r.boundArena b).liveIds = b.liveIds.map r.id :=
  liveIds_arena

/-- The arena is that of a pool. -/
theorem allocate_boundArena (ht : r.Used t) (k : RecordKind) :
    Renames (·.arena.scope = t) r.boundArena r.key (r.failure r.poolError)
      (BoundArena.allocate k) (BoundArena.allocate k) := by
  rintro ⟨kind, a⟩ ha
  by_cases hk : kind = k
  · refine (allocate_arena (r := r) (k := kind) ht a ha).inside (BoundArena.mk kind)
      (BoundArena.mk kind) ?_ ?_ (fun _ => rfl) fun _ h => h
    · rw [BoundArena.allocate, if_pos hk]
      cases Arena.allocate a <;> rfl
    · rw [show r.boundArena ⟨kind, a⟩ = ⟨kind, r.arena kind a⟩ from rfl, BoundArena.allocate,
        if_pos hk]
      cases Arena.allocate (r.arena kind a) <;> rfl
  · exact .of_error (e := .refused (.typeMismatch a.type kind k)) (if_neg hk) ha (if_neg hk)

theorem scope_of_allocate (r : Renaming) {k : RecordKind} {c : BoundArena} {key : SlotKey}
    (h : BoundArena.allocate k b = .ok key c) : key.scope = b.arena.scope := by
  obtain ⟨kind, a⟩ := b
  rw [BoundArena.allocate] at h
  split at h
  · cases ha : Arena.allocate a with
    | error e a' => simp [ha] at h
    | ok key' a' =>
      simp only [ha, EStateM.Result.ok.injEq] at h
      exact h.1 ▸ scope_of_allocate_arena r ha
  · contradiction

theorem free_boundArena (key : SlotKey) :
    Renames (·.arena.scope = t) r.boundArena (fun b => b) fe (BoundArena.free key)
      (BoundArena.free (r.key key)) := by
  rintro ⟨kind, a⟩ ha
  refine (free_arena fe key a ha).inside (BoundArena.mk kind) (BoundArena.mk kind) ?_ ?_
    (fun _ => rfl) fun _ h => h
  · rw [BoundArena.free]
    cases Arena.free key a <;> rfl
  · rw [show r.boundArena ⟨kind, a⟩ = ⟨kind, r.arena kind a⟩ from rfl, BoundArena.free]
    cases Arena.free (r.key key) (r.arena kind a) <;> rfl

theorem update_boundArena {k : RecordKind} {f f' : Record k.Body → Record k.Body}
    (hf : ∀ x, f' (r.record k x) = r.record k (f x)) (hfault : ∀ g, fe (.fault g) = .fault (r.fault g))
    (key : SlotKey) :
    Renames (·.arena.scope = t) r.boundArena (Option.map (r.record k)) fe
      (BoundArena.update k key f) (BoundArena.update k (r.key key) f') := by
  rintro ⟨kind, a⟩ ha
  by_cases hk : kind = k
  · subst hk
    refine (update_arena fe hf key a ha).inside (BoundArena.mk kind) (BoundArena.mk kind) ?_ ?_
      (fun _ => rfl) fun _ h => h
    · rw [BoundArena.update, BoundArena.as?_self]
      dsimp only
      cases Arena.update key f a <;> rfl
    · rw [show r.boundArena ⟨kind, a⟩ = ⟨kind, r.arena kind a⟩ from rfl, BoundArena.update,
        BoundArena.as?_self]
      dsimp only
      cases Arena.update (r.key key) f' (r.arena kind a) <;> rfl
  · have hnone : (⟨kind, a⟩ : BoundArena).as? k = none := dif_neg hk
    have hnone' : (r.boundArena ⟨kind, a⟩).as? k = none := dif_neg hk
    have hx : (BoundArena.update k key f : EStateM (Failure ε) _ _) ⟨kind, a⟩ =
        .error (.fault (.kindMismatch a.type kind k .resolved)) ⟨kind, a⟩ := by
      rw [BoundArena.update, hnone]
      rfl
    refine .of_error hx ha ?_
    rw [BoundArena.update, hnone', hfault]
    rfl

theorem bytes_boundArena : (r.boundArena b).bytes = b.bytes := by
  obtain ⟨kind, a⟩ := b
  have hheap (x : Record kind.Body) :
      kind.heapBytes (r.record kind x).body = kind.heapBytes x.body := by
    cases kind <;> rfl
  show (r.arena kind a).pages.size * (a.config.pageSlots * kind.slotBytes) +
      total (fun x => kind.heapBytes x.body) (r.arena kind a).records =
    a.pages.size * (a.config.pageSlots * kind.slotBytes) +
      total (fun x => kind.heapBytes x.body) a.records
  rw [records_arena, size_arena, total_map (h := fun x => kind.heapBytes x.body) hheap]

theorem stats_boundArena : (r.boundArena b).stats = b.stats := by
  have hbytes := bytes_boundArena (r := r) (b := b)
  obtain ⟨kind, a⟩ := b
  rw [BoundArena.stats, hbytes, show (r.boundArena ⟨kind, a⟩).arena.pages.size = a.pages.size from
    size_arena]
  rfl

end BoundArena

/-! ## Pools -/

/-- The tag of the pool is in use, and that of its arenas. -/
structure TamePool (r : Renaming) (p : Pool) : Prop where
  used : r.Used p.scope
  arenas : ∀ b ∈ p.arenas, b.arena.scope = p.scope

section Pool

variable {ε δ : Type} (fe : Failure ε → Failure δ) {p : Pool} {id : ObjectId}

theorem key?_pool (hp : r.Used p.scope) (id : ObjectId) :
    (r.pool p).key? (r.id id) = (p.key? id).map r.key := by
  have hnone (q : Pool) (x : ObjectId) (h : ScopeTag.of? x ≠ some q.scope) : q.key? x = none := by
    refine Option.filter_eq_none_iff.2 fun k hk => ?_
    rw [decide_eq_true_eq]
    exact fun hs => h (hs ▸ SlotKey.of?_of_unpack? hk)
  by_cases h : ScopeTag.of? id = some p.scope
  · have hused (t : ScopeTag) (ht : ScopeTag.of? id = some t) : r.Used t := by
      cases h.symm.trans ht
      exact hp
    have hfilter : (fun k : SlotKey => decide (k.scope = (r.pool p).scope)) ∘ r.key =
        fun k => decide (k.scope = p.scope) := funext fun k => decide_eq_decide.2 tag_inj
    rw [Pool.key?, unpack?_id hused, Option.filter_map, hfilter, Pool.key?]
  · have h' : ScopeTag.of? (r.id id) ≠ some (r.pool p).scope := by
      rw [r.of?]
      intro e
      obtain ⟨t, ht, hts⟩ := Option.map_eq_some_iff.1 e
      exact h (ht.trans (congrArg some (r.tag_injective hts)))
    rw [hnone _ _ h, hnone _ _ h', Option.map_none]

theorem arena?_pool (t : ObjectType) : (r.pool p).arena? t = (p.arena? t).map r.boundArena := by
  rw [Pool.arena?, Pool.arena?, show (r.pool p).arenas = p.arenas.map r.boundArena from rfl,
    List.find?_map]
  rfl

theorem inspect?_pool (hp : r.Used p.scope) (id : ObjectId) :
    (r.pool p).inspect? (r.id id) = (p.inspect? id).map r.header := by
  simp only [Pool.inspect?, key?_pool hp]
  cases p.key? id with
  | none => rfl
  | some key =>
    show ((r.pool p).arena? key.type).bind (·.inspect? (r.key key)) =
      ((p.arena? key.type).bind (·.inspect? key)).map r.header
    rw [arena?_pool]
    cases p.arena? key.type with
    | none => rfl
    | some b => exact inspect?_boundArena key

theorem header?_pool (hp : r.Used p.scope) (id : ObjectId) :
    (r.pool p).header? (r.id id) = (p.header? id).map r.header := by
  rw [Pool.header?, inspect?_pool hp, Option.filter_map, Pool.header?]
  rfl

theorem resolve_pool (hp : r.Used p.scope) (k : RecordKind) (id : ObjectId) :
    (r.pool p).resolve k (r.id id) = (p.resolve k id).map (Option.map (r.record k)) := by
  simp only [Pool.resolve, key?_pool hp]
  cases p.key? id with
  | none => rfl
  | some key =>
    simp only [Option.map_some, show (r.key key).type = key.type from rfl, arena?_pool]
    cases p.arena? key.type with
    | none => rfl
    | some b =>
      simp only [Option.map_some, as?_boundArena]
      cases b.as? k with
      | none => rfl
      | some a => exact congrArg Except.ok (get?_arena key)

theorem liveIds_pool : (r.pool p).liveIds = p.liveIds.map r.id := by
  rw [Pool.liveIds, Pool.liveIds, List.map_flatMap,
    show (r.pool p).arenas = p.arenas.map r.boundArena from rfl, List.flatMap_map]
  exact congrArg (p.arenas.flatMap ·) (funext fun b => liveIds_boundArena)

theorem liveCount_pool : (r.pool p).liveCount = p.liveCount :=
  total_map (fun _ => rfl) p.arenas

theorem stats_pool : (r.pool p).stats = p.stats := by
  rw [Pool.stats, show (r.pool p).arenas = p.arenas.map r.boundArena from rfl, List.map_map]
  exact congrArg (p.arenas.map ·) (funext fun b => stats_boundArena)

theorem bytes_pool : (r.pool p).bytes = p.bytes :=
  total_map (fun _ => bytes_boundArena) p.arenas

/-! ### Writing -/

theorem onArena_pool {α β : Type} {fa : α → β} {fe : ε → δ} {x : EStateM ε BoundArena α}
    {y : EStateM δ BoundArena β} (key : SlotKey)
    (h : ∀ t, Renames (·.arena.scope = t) r.boundArena fa fe x y) :
    Renames r.TamePool r.pool (Option.map fa) fe (Pool.onArena key x) (Pool.onArena (r.key key) y) := by
  rintro ⟨scope, config, arenas⟩ ⟨hused, hp⟩
  have hfirst := (h scope).onFirst (p := (·.type = key.type)) 
    (q := (·.type = (r.key key).type)) (fun b => rfl) arenas hp
  refine hfirst.inside (Pool.mk scope config) (Pool.mk (r.tag scope) config) ?_ ?_ (fun _ => rfl)
    fun l hl => ⟨hused, hl⟩
  · rw [Pool.onArena]
    cases onFirst (·.type = key.type) x arenas <;> rfl
  · show Pool.onArena (r.key key) y ⟨r.tag scope, config, arenas.map r.boundArena⟩ = _
    rw [Pool.onArena]
    cases onFirst (·.type = (r.key key).type) y (arenas.map r.boundArena) <;> rfl

theorem free_pool (id : ObjectId) :
    Renames r.TamePool r.pool (fun b => b) fe (Pool.free id) (Pool.free (r.id id)) := by
  intro p hp
  cases hk : p.key? id with
  | none =>
    have hk' : (r.pool p).key? (r.id id) = none := by rw [key?_pool hp.used, hk, Option.map_none]
    have hx : (Pool.free id : EStateM (Failure ε) Pool Bool) p = .ok false p := by
      simp only [Pool.free, hk]
    exact .of_ok hx hp (by simp only [Pool.free, hk'])
  | some key =>
    have hk' : (r.pool p).key? (r.id id) = some (r.key key) := by
      rw [key?_pool hp.used, hk, Option.map_some]
    have hfree : RenamesAt r.TamePool r.pool (fun b => b) fe
        ((Pool.onArena key (BoundArena.free key)).map (·.getD false))
        ((Pool.onArena (r.key key) (BoundArena.free (r.key key))).map (·.getD false)) p :=
      (onArena_pool key (fun t => free_boundArena fe key) p hp).map
        fun a => Option.getD_map (fun b : Bool => b) false a
    exact hfree.congr (by simp only [Pool.free, hk]) (by simp only [Pool.free, hk'])

theorem update_pool {k : RecordKind} {f f' : Record k.Body → Record k.Body}
    (hf : ∀ x, f' (r.record k x) = r.record k (f x)) (hfault : ∀ g, fe (.fault g) = .fault (r.fault g))
    (id : ObjectId) :
    Renames r.TamePool r.pool (Option.map (r.record k)) fe (Pool.update k id f)
      (Pool.update k (r.id id) f') := by
  intro p hp
  cases hk : p.key? id with
  | none =>
    have hk' : (r.pool p).key? (r.id id) = none := by rw [key?_pool hp.used, hk, Option.map_none]
    have hx : (Pool.update k id f : EStateM (Failure ε) Pool _) p = .ok none p := by
      simp only [Pool.update, hk]
    exact .of_ok hx hp (by simp only [Pool.update, hk', Option.map_none])
  | some key =>
    have hk' : (r.pool p).key? (r.id id) = some (r.key key) := by
      rw [key?_pool hp.used, hk, Option.map_some]
    have hupdate : RenamesAt r.TamePool r.pool (Option.map (r.record k)) fe
        ((Pool.onArena key (BoundArena.update k key f)).map (·.join))
        ((Pool.onArena (r.key key) (BoundArena.update k (r.key key) f')).map (·.join)) p :=
      (onArena_pool key (fun t => update_boundArena fe hf hfault key) p hp).map
        fun a => Option.join_map_eq_map_join
    exact hupdate.congr (by simp only [Pool.update, hk]) (by simp only [Pool.update, hk'])

theorem modifyHeader_pool (fe : ε → δ) {f f' : Header → Header}
    (hf : ∀ h, f' (r.header h) = r.header (f h)) (id : ObjectId) :
    Renames r.TamePool r.pool (Option.map r.header) fe (Pool.modifyHeader id f)
      (Pool.modifyHeader (r.id id) f') := by
  intro p hp
  have hkey := key?_pool hp.used id
  have hheader := header?_pool hp.used id
  cases hk : p.key? id with
  | none =>
    have hx : (Pool.modifyHeader id f : EStateM ε Pool _) p = .ok none p := by
      simp only [Pool.modifyHeader, hk]
    exact .of_ok hx hp (by simp only [Pool.modifyHeader, hkey, hk, Option.map_none])
  | some key =>
    cases hh : p.header? id with
    | none =>
      have hx : (Pool.modifyHeader id f : EStateM ε Pool _) p = .ok none p := by
        simp only [Pool.modifyHeader, hk, hh]
      exact .of_ok hx hp (by simp only [Pool.modifyHeader, hkey, hheader, hk, hh, Option.map_none,
        Option.map_some])
    | some h =>
      have hmodify (t : ScopeTag) : Renames (·.arena.scope = t) r.boundArena (fun u => u) fe
          (modify (·.modifyHeader key f)) (modify (·.modifyHeader (r.key key) f')) := by
        intro b hb
        refine .of_ok rfl ?_ (congrArg (EStateM.Result.ok _) (modifyHeader_boundArena hf key))
        show (b.arena.modifyHeader key f).scope = t
        rw [Arena.modifyHeader]
        split <;> exact hb
      have hrun : RenamesAt r.TamePool r.pool (Option.map r.header) fe
          ((Pool.onArena key (modify (·.modifyHeader key f))).map fun _ => some (f h))
          ((Pool.onArena (r.key key) (modify (·.modifyHeader (r.key key) f'))).map
            fun _ => some (f' (r.header h))) p :=
        (onArena_pool key hmodify p hp).map fun _ => congrArg some (hf h)
      exact hrun.congr (by simp only [Pool.modifyHeader, hk, hh])
        (by simp only [Pool.modifyHeader, hkey, hheader, hk, hh, Option.map_some])

theorem allocate_pool (k : RecordKind) (t : ObjectType) :
    Renames r.TamePool r.pool r.id (r.failure r.poolError) (Pool.allocate k t)
      (Pool.allocate k t) := by
  rintro ⟨scope, config, arenas⟩ ⟨hused, hp⟩
  have hp : ∀ b ∈ arenas, b.arena.scope = scope := hp
  let fresh : BoundArena := { kind := k, arena := Arena.empty scope t config }
  have hfresh : r.boundArena fresh = { kind := k, arena := Arena.empty (r.tag scope) t config } := by
    simp [fresh, boundArena, arena, Arena.empty]
  have hscope : fresh.arena.scope = scope := rfl
  have hfirst := (allocate_boundArena hused k).onFirstOr hscope (p := (·.type = t))
    (q := (·.type = t)) (fun b => rfl) arenas hp
  rw [hfresh] at hfirst
  refine hfirst.part (Pool.mk scope config) (Pool.mk (r.tag scope) config) SlotKey.pack SlotKey.pack
    (fun e => e) (fun e => e) ?_ ?_ (fun _ => rfl) (fun key l hr => ?_) (fun _ => rfl)
    fun l hl => ⟨hused, hl⟩
  · rw [Pool.allocate]
    cases onFirstOr fresh (·.type = t) (BoundArena.allocate k) arenas <;> rfl
  · show Pool.allocate k t ⟨r.tag scope, config, arenas.map r.boundArena⟩ = _
    rw [Pool.allocate]
    cases onFirstOr { kind := k, arena := Arena.empty (r.tag scope) t config } (·.type = t)
      (BoundArena.allocate k) (arenas.map r.boundArena) <;> rfl
  · -- the key is of the arena that was found or made, and that of the pool
    have hanswer := answer_onFirstOr fresh (·.type = t) (BoundArena.allocate k) arenas
    rw [answer_ok hr] at hanswer
    have hscope : ((arenas.find? (·.type = t)).getD fresh).arena.scope = scope := by
      cases hf : arenas.find? (·.type = t) with
      | none => rfl
      | some b => exact hp b (List.mem_of_find?_eq_some hf)
    have hkey : key.scope = scope :=
      (scope_of_allocate r (eq_ok_of_answer hanswer.symm)).trans hscope
    exact (r.pack key (hkey ▸ hused.1) (hkey ▸ hused.2)).symm

end Pool

/-! ## Registries -/

/-- The tags of the pools are in use. -/
def TameRegistry (r : Renaming) (g : Registry) : Prop :=
  ∀ p ∈ g.pools, r.TamePool p

section Registry

variable {ε δ α β : Type} {g : Registry} {fa : α → β} {fe : ε → δ} {x : EStateM ε Pool α}
  {y : EStateM δ Pool β}

theorem pool?_registry (t : ScopeTag) :
    (r.registry g).pool? (r.tag t) = (g.pool? t).map r.pool := by
  have hp : (fun p : Pool => decide (p.scope = r.tag t)) ∘ r.pool = fun p => decide (p.scope = t) :=
    funext fun p => decide_eq_decide.2 tag_inj
  rw [Registry.pool?, show (r.registry g).pools = g.pools.map r.pool from rfl, List.find?_map, hp,
    Registry.pool?]

theorem lookup?_registry (id : ObjectId) :
    (r.registry g).lookup? (r.id id) = (g.lookup? id).map r.pool := by
  simp only [Registry.lookup?, r.of?]
  cases ScopeTag.of? id with
  | none => rfl
  | some t => exact pool?_registry t

theorem scopeOf?_registry (owner : ObjectId) :
    (r.registry g).scopeOf? (r.id owner) = (g.scopeOf? owner).map r.tag :=
  Assoc.get?_bimap r.id_injective r.tag g.owners owner

theorem isScopeOwner_registry (owner : ObjectId) :
    (r.registry g).isScopeOwner (r.id owner) = g.isScopeOwner owner :=
  Assoc.contains_bimap r.id_injective r.tag g.owners owner

theorem TameRegistry.used_of_lookup? (h : r.TameRegistry g) {id : ObjectId} {p : Pool}
    (hp : g.lookup? id = some p) : r.Used p.scope := by
  obtain ⟨t, _, hp⟩ := Option.bind_eq_some_iff.1 hp
  exact (h p (List.mem_of_find?_eq_some hp)).used

theorem liveIds_registry : (r.registry g).liveIds = g.liveIds.map r.id := by
  rw [Registry.liveIds, Registry.liveIds, Registry.inOrder, Registry.inOrder,
    show (r.registry g).pools = g.pools.map r.pool from rfl, ← List.map_reverse, List.flatMap_map,
    List.map_flatMap]
  exact congrArg (g.pools.reverse.flatMap ·) (funext fun p => liveIds_pool)

theorem liveCount_registry : (r.registry g).liveCount = g.liveCount :=
  total_map (fun _ => liveCount_pool) g.pools

/-! ### Writing -/

theorem onPool_registry (h : Renames r.TamePool r.pool fa fe x y) (t : ScopeTag) :
    Renames r.TameRegistry r.registry (Option.map fa) fe (Registry.onPool t x)
      (Registry.onPool (r.tag t) y) := by
  rintro ⟨config, issued, pools, owners⟩ hg
  have hfirst := h.onFirst (p := (·.scope = t)) (q := (·.scope = r.tag t))
    (fun p => decide_eq_decide.2 tag_inj) pools hg
  refine hfirst.inside (Registry.mk config issued · owners)
    (Registry.mk config (issued + r.offset) · (owners.bimap r.id r.tag)) ?_ ?_ (fun _ => rfl)
    fun l hl => hl
  · rw [Registry.onPool]
    cases onFirst (·.scope = t) x pools <;> rfl
  · show Registry.onPool (r.tag t) y
      ⟨config, issued + r.offset, pools.map r.pool, owners.bimap r.id r.tag⟩ = _
    rw [Registry.onPool]
    cases onFirst (·.scope = r.tag t) y (pools.map r.pool) <;> rfl

theorem onPoolOf_registry (h : Renames r.TamePool r.pool fa fe x y) (owner : ObjectId) :
    Renames r.TameRegistry r.registry (Option.map fa) fe (Registry.onPoolOf owner x)
      (Registry.onPoolOf (r.id owner) y) := by
  intro g hg
  have hscope := scopeOf?_registry (r := r) (g := g) owner
  cases hs : g.scopeOf? owner with
  | none =>
    rw [hs] at hscope
    have hx : Registry.onPoolOf owner x g = .ok none g := by simp only [Registry.onPoolOf, hs]
    exact .of_ok hx hg (by simp only [Registry.onPoolOf, hscope, Option.map_none])
  | some t =>
    rw [hs] at hscope
    exact (onPool_registry h t g hg).congr (by simp only [Registry.onPoolOf, hs])
      (by simp only [Registry.onPoolOf, hscope, Option.map_some])

theorem onIssuer_registry (h : Renames r.TamePool r.pool fa fe x y) (id : ObjectId) :
    Renames r.TameRegistry r.registry (Option.map fa) fe (Registry.onIssuer id x)
      (Registry.onIssuer (r.id id) y) := by
  intro g hg
  have hof := r.of? id
  cases ht : ScopeTag.of? id with
  | none =>
    rw [ht] at hof
    have hx : Registry.onIssuer id x g = .ok none g := by simp only [Registry.onIssuer, ht]
    exact .of_ok hx hg (by simp only [Registry.onIssuer, hof, Option.map_none])
  | some t =>
    rw [ht] at hof
    exact (onPool_registry h t g hg).congr (by simp only [Registry.onIssuer, ht])
      (by simp only [Registry.onIssuer, hof, Option.map_some])

theorem bindOwner_registry (owner : ObjectId) (t : ScopeTag) :
    Renames r.TameRegistry r.registry (fun b => b) fe (Registry.bindOwner owner t)
      (Registry.bindOwner (r.id owner) (r.tag t)) := by
  intro g hg
  have hcond : (((r.registry g).pool? (r.tag t)).isSome = true ∧ ¬ (r.id owner).isNull = true) ↔
      ((g.pool? t).isSome = true ∧ ¬ owner.isNull = true) := by
    rw [pool?_registry, Option.isSome_map, isNull_id]
  by_cases h : (g.pool? t).isSome = true ∧ ¬ owner.isNull = true
  · refine .of_ok (if_pos h) hg ((if_pos (hcond.2 h)).trans ?_)
    rw [show (r.registry g).owners = g.owners.bimap r.id r.tag from rfl,
      Assoc.insert_bimap r.id_injective]
    rfl
  · exact .of_ok (if_neg h) hg (if_neg (mt hcond.1 h))

theorem removePool_registry (t : ScopeTag) :
    Renames r.TameRegistry r.registry (fun n => n) (r.failure r.poolError) (Registry.removePool t)
      (Registry.removePool (r.tag t)) := by
  intro g hg
  have hpool := pool?_registry (r := r) (g := g) t
  cases hp : g.pool? t with
  | none =>
    rw [hp] at hpool
    exact .of_error (Registry.removePool_of_none hp) hg (Registry.removePool_of_none hpool)
  | some p =>
    rw [hp] at hpool
    have hx : Registry.removePool t g = .ok p.liveCount
        { g with
          pools := g.pools.filter (·.scope ≠ t)
          owners := g.owners.filter fun _ s => s ≠ t } := by
      simp only [Registry.removePool, hp]
    refine .of_ok hx (fun p hp => hg p (List.mem_of_mem_filter hp)) ?_
    have hpools : (g.pools.map r.pool).filter (fun p => decide (p.scope ≠ r.tag t)) =
        (g.pools.filter fun p => decide (p.scope ≠ t)).map r.pool := by
      rw [List.filter_map]
      exact congrArg (fun f => (g.pools.filter f).map r.pool)
        (funext fun p => decide_eq_decide.2 (not_congr tag_inj))
    have howners : (g.owners.bimap r.id r.tag).filter (fun _ s => decide (s ≠ r.tag t)) =
        (g.owners.filter fun _ s => decide (s ≠ t)).bimap r.id r.tag :=
      Assoc.filter_bimap r.tag (fun _ s => decide_eq_decide.2 (not_congr tag_inj)) g.owners
    simp only [Registry.removePool, hpool, Option.map_some, liveCount_pool]
    simp only [registry, hpools, howners]

theorem nextScope?_registry (h : g.issued < r.last) :
    ∃ t, g.nextScope? = some t ∧ (r.registry g).nextScope? = some (r.tag t) ∧ r.Used t ∧
      t.toNat = g.issued + 1 := by
  have hfits := r.fits
  have hmax : g.issued < Registry.maxScopes := by omega
  have hroom : (r.registry g).issued < Registry.maxScopes := by
    show g.issued + r.offset < _
    omega
  have htoNat : (⟨UInt16.ofNat (g.issued + 1)⟩ : ScopeTag).toNat = g.issued + 1 := by
    rw [ScopeTag.toNat, UInt16.toNat_ofNat']
    exact Nat.mod_eq_of_lt (by rw [Registry.maxScopes] at hmax; omega)
  refine ⟨⟨UInt16.ofNat (g.issued + 1)⟩, if_pos hmax, ?_, ⟨fun hz => ?_, ?_⟩, htoNat⟩
  · rw [Registry.nextScope?, if_pos hroom, r.next g.issued h]
    rfl
  · have hz : (⟨UInt16.ofNat (g.issued + 1)⟩ : ScopeTag).toNat = 0 := congrArg UInt16.toNat hz
    omega
  · omega

/-- A new pool has the next tag, whether or not its first use fails. -/
theorem createPoolWith_registry {x : EStateM (Failure PoolError) Pool α}
    {y : EStateM (Failure PoolError) Pool β}
    (h : Renames r.TamePool r.pool fa (r.failure r.poolError) x y) (hg : r.TameRegistry g)
    (hlast : (after (Registry.createPoolWith x) g).issued ≤ r.last) :
    RenamesAt r.TameRegistry r.registry (Prod.map r.tag fa) (r.failure r.poolError)
      (Registry.createPoolWith x) (Registry.createPoolWith y) g := by
  by_cases hmax : g.issued < Registry.maxScopes
  · have hissued : (after (Registry.createPoolWith x) g).issued = g.issued + 1 := by
      simp only [after, Registry.createPoolWith, Registry.nextScope?, if_pos hmax]
      cases x (Pool.empty ⟨UInt16.ofNat (g.issued + 1)⟩ g.config) <;> rfl
    obtain ⟨t, hnext, hnext', hused, _⟩ := nextScope?_registry (r := r) (g := g) (by omega)
    have hempty : r.TamePool (Pool.empty t g.config) := ⟨hused, by simp [Pool.empty]⟩
    obtain ⟨hpool, hrun⟩ := h _ hempty
    rw [show r.pool (Pool.empty t g.config) = Pool.empty (r.tag t) g.config from rfl] at hrun
    cases hx : x (Pool.empty t g.config) with
    | ok a p =>
      simp only [after, hx, mapResult] at hpool hrun
      refine .of_ok (Registry.createPoolWith_of_ok hnext hx) (List.forall_mem_cons.2 ⟨hpool, hg⟩) ?_
      rw [Registry.createPoolWith_of_ok hnext' hrun]
      simp only [registry, Prod.map, List.map_cons, Nat.add_right_comm]
    | error e p =>
      simp only [after, hx, mapResult] at hpool hrun
      refine .of_error (Registry.createPoolWith_of_error hnext hx) hg ?_
      rw [Registry.createPoolWith_of_error hnext' hrun]
      simp only [registry, Nat.add_right_comm]
  · -- where the tags are spent nothing is added to them
    have hx := Registry.createPoolWith_of_exhausted (Registry.nextScope?_eq_none_iff.2 hmax) x
    rw [after_error hx] at hlast
    have hmax' : ¬ (r.registry g).issued < Registry.maxScopes := by
      show ¬ g.issued + r.offset < _
      omega
    exact .of_error hx hg
      (Registry.createPoolWith_of_exhausted (Registry.nextScope?_eq_none_iff.2 hmax') y)

end Registry
end Renaming
end DesignStore
