/-
The bytes of arenas and pools.

An arena takes its pages, and the room that its live arrays have reserved.  Placing a record adds
a page at most, since a blank record has no room (`Pool.allocate_bytes`); freeing one takes off
the room it had (`Pool.free_bytes`); and a header has no room (`Pool.modifyHeader_bytes`).  No
other arena of the pool is concerned.
-/
import DesignStore.Proofs.Interleaving
import DesignStore.Proofs.PoolLayout

namespace DesignStore

variable {ε α : Type}

namespace RecordKind

/-- For how many elements an array has reserved room. -/
def capacity? : (k : RecordKind) → k.Body → Option Nat
  | .ids, a => some (a : GrowArray ObjectId).capacity
  | .bytes, a => some (a : GrowArray UInt8).capacity
  | .words, a => some (a : GrowArray UInt32).capacity
  | .longs, a => some (a : GrowArray UInt64).capacity
  | _, _ => none

theorem heapBytes_eq (k : RecordKind) (b : k.Body) :
    k.heapBytes b = (k.capacity? b).elim 0 (· * k.elementBytes) := by
  cases k <;> rfl

theorem heapBytes_blank (k : RecordKind) : k.heapBytes (Record.blank : Record k.Body).body = 0 := by
  cases k <;> rfl

end RecordKind

/-! ## Arenas -/

namespace Arena

variable {β : Type} {a b : Arena β} {k : SlotKey}

/-- The records are those that were, in their places, but for one of them. -/
theorem total_records_modifyAt {p : Place} {s : Slot β} (hs : a.slotAt? p = some s)
    {f : Slot β → Slot β} (hv : (f s).record.isValid = s.record.isValid) {g : Record β → Nat}
    (hg : g (f s).record = g s.record) :
    total g (a.modifyAt p f).records = total g a.records := by
  obtain ⟨l₁, l₂, hl, hmodify⟩ := records_split hs
  rw [hl, hmodify]
  by_cases hvalid : s.record.isValid = true
  · rw [List.filter_cons_of_pos hvalid, List.filter_cons_of_pos (hv.trans hvalid)]
    simp only [total_append, total, hg, List.filter_nil]
  · rw [List.filter_cons_of_neg hvalid, List.filter_cons_of_neg (hv ▸ hvalid)]

/-- Where a slot is taken, a page is added at most. -/
theorem Draws.size_pages (hd : Draws k a b) (ha : a.Packed) (hb : b.Packed)
    (hconfig : b.config = a.config) (hpos : 0 < a.config.pageSlots) :
    b.pages.size = a.pages.size ∨ b.pages.size = a.pages.size + 1 := by
  cases hd with
  | again _ _ _ hpages =>
    exact Or.inl hpages.size_pages
  | first _ _ _ _ hslots =>
    rw [hb.size_eq (hconfig ▸ hpos), ha.size_eq hpos, hconfig, hslots,
      Nat.ceilDiv_eq_add_pred_div, Nat.ceilDiv_eq_add_pred_div]
    obtain ⟨n, hn⟩ : ∃ n, a.slots.length + a.config.pageSlots - 1 = n := ⟨_, rfl⟩
    rw [hn, show a.slots.length + 1 + a.config.pageSlots - 1 = n + 1 by omega, Nat.succ_div]
    split
    · exact Or.inr rfl
    · exact Or.inl rfl

end Arena

namespace BoundArena

variable {b : BoundArena} {key : SlotKey} {c : PoolConfig}

/-- A blank record has no room, so that only a page may be added. -/
theorem allocate_bytes (hs : b.arena.Sound) (h : b.Laid c) (k : RecordKind) :
    (after (allocate k) b).bytes = b.bytes ∨
      (after (allocate k) b).bytes = b.bytes + c.pageSlots * k.slotBytes := by
  obtain ⟨kind, a⟩ := b
  by_cases hk : kind = k
  · subst hk
    obtain ⟨rfl, hpacked⟩ : a.config = c ∧ a.Packed := h
    rcases Arena.allocate_packed hs hpacked with ⟨key, a', hr, _, hd, hpacked', hconfig, _⟩ |
      ⟨_, _, hr⟩
    · have hb : after (allocate kind) ⟨kind, a⟩ = ⟨kind, a'⟩ := by
        simp only [after, allocate, if_true, hr]
      obtain ⟨_, l₁, l₂, r, hl, hl', hblank⟩ := Arena.allocate_records hs hr
      have hheap : total (fun r => kind.heapBytes r.body) a'.records =
          total (fun r => kind.heapBytes r.body) a.records := by
        rw [hl, hl', total_append, total_append, total, hblank, kind.heapBytes_blank, Nat.zero_add]
      have hbytes : (⟨kind, a'⟩ : BoundArena).bytes =
          a'.pages.size * (a.config.pageSlots * kind.slotBytes) +
            total (fun r => kind.heapBytes r.body) a.records := by
        rw [← hheap, ← hconfig]
        rfl
      rw [hb, hbytes]
      rcases hd.size_pages hpacked hpacked' hconfig hs.config.bounds.1 with hsize | hsize
      · left
        rw [hsize]
        rfl
      · right
        rw [hsize, Nat.succ_mul, Nat.add_right_comm]
        rfl
    · left
      simp only [after, allocate, if_true, hr]
  · left
    simp only [after, allocate, if_neg hk]

theorem free_bytes {kind : RecordKind} {a : Arena kind.Body} (hk : a.Names key)
    {r : Record kind.Body} (hr : a.get? key = some r) :
    (after (free key : EStateM ε BoundArena Bool) ⟨kind, a⟩).bytes + kind.heapBytes r.body =
      (⟨kind, a⟩ : BoundArena).bytes := by
  have hb : after (free key : EStateM ε BoundArena Bool) ⟨kind, a⟩ =
      ⟨kind, after (Arena.free key : EStateM ε _ _) a⟩ := by
    simp only [after, free]
    cases (Arena.free key : EStateM ε _ _) a <;> rfl
  obtain ⟨_, l₁, l₂, hl, hl'⟩ := Arena.free_records (ε := ε) hk hr
  have hpages := Arena.samePages_free (ε := ε) key a
  rw [hb]
  simp only [bytes, hpages.size_pages, hpages.config, hl, hl', total_append, total]
  omega

theorem modifyHeader_bytes (hk : b.arena.Names key) {f : Header → Header}
    (hf : ∀ hd, (f hd).isValid = hd.isValid) : (b.modifyHeader key f).bytes = b.bytes := by
  obtain ⟨kind, a⟩ := b
  have hpages := Arena.samePages_modifyHeader key f a
  have hheap : total (fun r => kind.heapBytes r.body) (a.modifyHeader key f).records =
      total (fun r => kind.heapBytes r.body) a.records := by
    unfold Arena.modifyHeader
    cases hr : a.inspect? key with
    | none => rfl
    | some r =>
      rw [Arena.inspect?_of_names hk, Option.map_eq_some_iff] at hr
      obtain ⟨s, hs, _⟩ := hr
      exact Arena.total_records_modifyAt (Option.filter_eq_some_iff.1 hs).1
        (f := fun s => { s with record := Record.mapHeader f s.record }) (hf s.record.header) rfl
  show (⟨kind, a.modifyHeader key f⟩ : BoundArena).bytes = _
  simp only [bytes, hpages.size_pages, hpages.config, hheap]

end BoundArena

/-! ## Pools -/

theorem ObjectType.mem_all (t : ObjectType) : t ∈ all.toList := by
  cases t <;> decide

theorem ObjectType.nodup_all : all.toList.Nodup := by
  decide +kernel

namespace Pool

variable {p : Pool} {id : ObjectId} {key : SlotKey} {t : ObjectType}

/-- The bytes of the arena of a type; none if there is no such arena. -/
def arenaBytes (p : Pool) (t : ObjectType) : Nat :=
  (p.arena? t).elim 0 (·.bytes)

/-- Where no type has two arenas, a sum over them is a sum over the types. -/
theorem total_arenas {l : List BoundArena} (hl : (l.map (·.type)).Nodup) :
    total (·.bytes) l =
      total (fun t => (l.find? (·.type = t)).elim 0 (·.bytes)) ObjectType.all.toList := by
  induction l with
  | nil => decide
  | cons b l ih =>
    obtain ⟨hb, hl⟩ := List.nodup_cons.1 hl
    have hnone : l.find? (·.type = b.type) = none :=
      List.find?_eq_none.2 fun c hc he => hb (List.mem_map.2 ⟨c, hc, of_decide_eq_true he⟩)
    have hchange := total_change (f := fun t => (l.find? (·.type = t)).elim 0 (·.bytes))
      (g := fun t => ((b :: l).find? (·.type = t)).elim 0 (·.bytes)) ObjectType.nodup_all
      b.type.mem_all fun t _ ht => by simp [Ne.symm ht]
    simp only [hnone, Option.elim_none, Nat.add_zero, List.find?_cons, decide_true,
      Option.elim_some] at hchange
    rw [total, ih hl, Nat.add_comm]
    exact hchange.symm

theorem Counted.bytes_eq (h : p.Counted) : p.bytes = total p.arenaBytes ObjectType.all.toList :=
  total_arenas h.nodup

/-- What is done to one arena is done to its bytes. -/
theorem arenaBytes_onArena {x : EStateM ε BoundArena α}
    (hx : ∀ b, p.arena? key.type = some b → (after x b).type = b.type) :
    (after (onArena key x) p).arenaBytes t =
      if t = key.type then (p.arena? t).elim 0 fun b => (after x b).bytes else p.arenaBytes t := by
  by_cases ht : t = key.type
  · rw [if_pos ht, arenaBytes, ht, arena?_after_onArena hx]
    cases p.arena? key.type <;> rfl
  · rw [if_neg ht, arenaBytes, arena?_after_onArena_other hx ht, arenaBytes]

/-- Freeing a record takes the room it had off its arena. -/
theorem free_bytes (hs : p.Sound) (hkey : p.key? id = some key) {k : RecordKind}
    {r : Record k.Body} (hr : p.resolve k id = .ok (some r)) (t : ObjectType) :
    (after (free id : EStateM ε Pool Bool) p).arenaBytes t +
        (if t = key.type then k.heapBytes r.body else 0) = p.arenaBytes t := by
  rw [after_free hkey, arenaBytes_onArena fun b hb => by
    obtain ⟨b', hb', ht⟩ := BoundArena.free_eq (ε := ε) b key
    rw [after_ok hb']
    exact (ht (hs.names hkey hb)).type]
  by_cases ht : t = key.type
  · subst ht
    rw [if_pos rfl, if_pos rfl]
    simp only [resolve, hkey] at hr
    cases hb : p.arena? key.type with
    | none => simp [hb] at hr
    | some b =>
      obtain ⟨kind, a⟩ := b
      have hnames : a.Names key := hs.names hkey hb
      by_cases hk : kind = k
      · subst hk
        simp only [hb, BoundArena.as?_self, Except.ok.injEq] at hr
        rw [arenaBytes, hb]
        exact BoundArena.free_bytes hnames hr
      · have hnone : (⟨kind, a⟩ : BoundArena).as? k = none := dif_neg hk
        simp [hb, hnone] at hr
  · rw [if_neg ht, if_neg ht, Nat.add_zero]

theorem modifyHeader_bytes (hs : p.Sound) (id : ObjectId) {f : Header → Header}
    (hf : ∀ hd, (f hd).isValid = hd.isValid) (t : ObjectType) :
    (after (modifyHeader id f : EStateM ε Pool _) p).arenaBytes t = p.arenaBytes t := by
  cases hh : p.header? id with
  | none => rw [after_ok (modifyHeader_of_not_live hh f)]
  | some hd =>
    cases hkey : p.key? id with
    | none => rw [after_ok (modifyHeader_of_no_key hkey f)]
    | some key =>
      rw [after_modifyHeader hkey hh, arenaBytes_onArena
        (x := (modify (BoundArena.modifyHeader · key f) : EStateM ε BoundArena PUnit))
        fun b _ => b.type_modifyHeader key f]
      split
      · rename_i ht
        subst ht
        rw [arenaBytes]
        cases hb : p.arena? key.type with
        | none => rfl
        | some b => exact BoundArena.modifyHeader_bytes (hs.names hkey hb) hf
      · rfl

/-- Placing a record adds a page at most, to the arena of its type. -/
theorem allocate_bytes {c : PoolConfig} (hs : p.Sound) (hl : p.Laid c) (k : RecordKind)
    (t : ObjectType) : ∃ n, (n = 0 ∨ n = c.pageSlots * k.slotBytes) ∧
      ∀ u, (after (allocate k t) p).arenaBytes u = p.arenaBytes u + if u = t then n else 0 := by
  have htarget : (p.target k t).arena.Sound ∧ (p.target k t).Laid c ∧
      (p.target k t).bytes = p.arenaBytes t := by
    rw [target, arenaBytes]
    cases hb : p.arena? t with
    | none =>
      refine ⟨Arena.sound_empty p.scope t hs.config,
        ⟨hl.config, Arena.packed_empty p.scope t p.config⟩, ?_⟩
      show 0 * _ + 0 = 0
      rw [Nat.zero_mul]
    | some b =>
      have hmem : b ∈ p.arenas := List.mem_of_find?_eq_some hb
      exact ⟨hs.arena b hmem, hl.arena b hmem, rfl⟩
  obtain ⟨hsound, hlaid, hbytes⟩ := htarget
  have hself : (after (allocate k t) p).arenaBytes t =
      (after (BoundArena.allocate k) (p.target k t)).bytes := by
    rw [arenaBytes, arena?_after_allocate hs]
    rfl
  have hgo (n : Nat) (hn : (after (BoundArena.allocate k) (p.target k t)).bytes =
      (p.target k t).bytes + n) (u : ObjectType) :
      (after (allocate k t) p).arenaBytes u = p.arenaBytes u + if u = t then n else 0 := by
    by_cases hu : u = t
    · rw [if_pos hu, hu, hself, hn, hbytes]
    · rw [if_neg hu, arenaBytes, arena?_after_allocate_other hs k hu, arenaBytes, Nat.add_zero]
  rcases BoundArena.allocate_bytes hsound hlaid k with hn | hn
  · exact ⟨0, Or.inl rfl, hgo 0 hn⟩
  · exact ⟨_, Or.inr rfl, hgo _ hn⟩

theorem follows_free (h : p.Sound) (id : ObjectId) :
    Follows p (after (free id : EStateM ε Pool Bool) p) := by
  cases hkey : p.key? id with
  | none =>
    rw [after_ok (free_of_no_key hkey)]
    exact Follows.refl h
  | some key =>
    obtain ⟨p', hp', ht⟩ := free_of_key (ε := ε) h hkey
    rw [after_ok hp']
    exact ht.follows

theorem follows_modifyHeader (h : p.Sound) (id : ObjectId) (f : Header → Header) :
    Follows p (after (modifyHeader id f : EStateM ε Pool _) p) := by
  cases hkey : p.key? id with
  | none =>
    rw [after_ok (modifyHeader_of_no_key hkey f)]
    exact Follows.refl h
  | some key => exact (touches_modifyHeader h hkey f).follows

end Pool

/-! ## Registries -/

namespace Registry

variable {r : Registry} {s : ScopeTag} {id : ObjectId}

/-- The bytes of the arena of a type in the pool with a tag; none if there is no such arena. -/
def arenaBytes (r : Registry) (s : ScopeTag) (t : ObjectType) : Nat :=
  (r.pool? s).elim 0 (·.arenaBytes t)

def poolBytes (r : Registry) (s : ScopeTag) : Nat :=
  (r.pool? s).elim 0 (·.bytes)

theorem poolBytes_eq (h : ∀ p ∈ r.pools, p.Counted) (s : ScopeTag) :
    r.poolBytes s = total (r.arenaBytes s) ObjectType.all.toList := by
  unfold poolBytes arenaBytes
  cases hp : r.pool? s with
  | none => decide
  | some p => exact (h p (List.mem_of_find?_eq_some hp)).bytes_eq

theorem arenaBytes_onPool {x : EStateM ε Pool α} (h : r.Sound)
    (hx : ∀ p, p.Sound → Pool.Follows p (after x p)) (u : ScopeTag) (t : ObjectType) :
    (after (onPool s x) r).arenaBytes u t =
      if u = s then (r.pool? u).elim 0 fun p => (after x p).arenaBytes t
      else r.arenaBytes u t := by
  rw [arenaBytes, pool?_after_onPool h hx]
  by_cases hu : u = s
  · rw [if_pos hu, if_pos hu, hu]
    cases r.pool? s <;> rfl
  · rw [if_neg hu, if_neg hu, arenaBytes]

/-- Freeing a record takes the room it had off the arena of its type. -/
theorem free_bytes (h : r.Sound) {p : Pool} (hp : r.lookup? id = some p) {k : RecordKind}
    {x : Record k.Body} (hx : p.resolve k id = .ok (some x)) (s : ScopeTag) (t : ObjectType) :
    (after (onIssuer id (Pool.free (ε := ε) id)) r).arenaBytes s t +
        (if ScopeTag.of? id = some s ∧ id.type? = some t then k.heapBytes x.body else 0) =
      r.arenaBytes s t := by
  cases hk : SlotKey.unpack? id with
  | none => simp [Pool.resolve, key?_of_unpack?_none hk p] at hx
  | some key =>
    rw [lookup?_of_unpack? hk] at hp
    have hpair : (ScopeTag.of? id = some s ∧ id.type? = some t) ↔
        s = key.scope ∧ t = key.type := by
      simp [SlotKey.of?_of_unpack? hk, ObjectId.type?, hk, eq_comm]
    rw [show after (onIssuer id (Pool.free (ε := ε) id)) r =
      after (onPool key.scope (Pool.free (ε := ε) id)) r by
        simp only [after, onIssuer_of_unpack? hk],
      arenaBytes_onPool h fun p hp => Pool.follows_free hp id, if_congr hpair rfl rfl]
    by_cases hs : s = key.scope
    · subst hs
      have hbytes := Pool.free_bytes (ε := ε) (h.of_pool? hp).1 (key?_of_pool? hk hp) hx t
      rw [if_pos rfl, arenaBytes, hp]
      simpa using hbytes
    · rw [if_neg hs, if_neg fun e => hs e.1, Nat.add_zero]

theorem modifyHeader_bytes (h : r.Sound) (id : ObjectId) {f : Header → Header}
    (hf : ∀ hd, (f hd).isValid = hd.isValid) (s : ScopeTag) (t : ObjectType) :
    (after (onIssuer id (Pool.modifyHeader (ε := ε) id f)) r).arenaBytes s t =
      r.arenaBytes s t := by
  cases hk : ScopeTag.of? id with
  | none => rw [show after (onIssuer id (Pool.modifyHeader (ε := ε) id f)) r = r by
      simp only [after, onIssuer, hk]]
  | some u =>
    rw [show after (onIssuer id (Pool.modifyHeader (ε := ε) id f)) r =
      after (onPool u (Pool.modifyHeader (ε := ε) id f)) r by simp only [after, onIssuer, hk],
      arenaBytes_onPool h fun p hp => Pool.follows_modifyHeader hp id f]
    split
    · rw [arenaBytes]
      cases hp : r.pool? s with
      | none => rfl
      | some p => exact Pool.modifyHeader_bytes (h.of_pool? hp).1 id hf t
    · rfl

/-- Placing a record adds a page at most, to the arena of its type in the pool it is placed in. -/
theorem allocate_bytes (h : r.Laid) (k : RecordKind) (t : ObjectType) {x : EStateM ε Pool ObjectId}
    (hx : ∀ p, after x p = after (Pool.allocate k t) p) (s : ScopeTag) :
    ∃ n, (n = 0 ∨ n = r.config.pageSlots * k.slotBytes) ∧
      ∀ u v, (after (onPool s x) r).arenaBytes u v =
        r.arenaBytes u v + if u = s ∧ v = t then n else 0 := by
  have hfollows (p : Pool) (hp : p.Sound) : Pool.Follows p (after x p) := by
    rw [hx]
    exact Pool.follows_allocate hp k t
  cases hp : r.pool? s with
  | none =>
    refine ⟨0, Or.inl rfl, fun u v => ?_⟩
    rw [after_ok (onPool_of_none hp), ite_self, Nat.add_zero]
  | some p =>
    obtain ⟨n, hn, hbytes⟩ := Pool.allocate_bytes (h.sound.of_pool? hp).1
      (h.pool p (List.mem_of_find?_eq_some hp)) k t
    refine ⟨n, hn, fun u v => ?_⟩
    rw [arenaBytes_onPool h.sound hfollows]
    by_cases hu : u = s
    · subst hu
      rw [if_pos rfl, arenaBytes, hp]
      simpa [hx] using hbytes v
    · rw [if_neg hu, if_neg fun e => hu e.1, Nat.add_zero]

end Registry
end DesignStore
